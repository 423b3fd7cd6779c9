import CronHive.Config
import Mathlib.Algebra.Group.Nat.Defs

/-!
# Fire-slots and the lifetime of a slot lock
-/

namespace CronHive

set_option autoImplicit false

/-- `timezone || "UTC"`. -/
def timezoneOrUTC (timezone : String) : String := if timezone = "" then "UTC" else timezone

/-- How far back a firing is still due. -/
def Env.windowMs (env : Env) : Int := env.schedulerScanMs + 5000

def dueFireSlot (S : Setup) (cronExpression timezone : String) (now : Int) : Option Int :=
  match S.platform.cronPrev cronExpression (timezoneOrUTC timezone) now with
  | none => none
  | some prev =>
    let diff := now - prev
    if 0 ≤ diff ∧ diff ≤ S.env.windowMs then some prev else none

def isCronDueNow (S : Setup) (cronExpression timezone : String) (now : Int) : Bool :=
  (dueFireSlot S cronExpression timezone now).isSome

/-- The loop `for (let i = 0; i < maxRetries; i++)`. -/
def backoffSum (backoffMs : Nat) : Nat → Nat
  | 0 => 0
  | i + 1 => backoffSum backoffMs i + backoffMs * 2 ^ i

/-- Worst-case wall time for all attempts, timeouts and exponential backoffs, plus buffer, in
whole seconds rounded up. -/
def computeJobLockTtlSeconds (env : Env) (job : Job) : Nat :=
  let timeout :=
    if job.callbackTimeoutMs = 0 then env.defaultCallbackTimeoutMs else job.callbackTimeoutMs
  let ms := timeout * (job.maxRetries + 1) + backoffSum job.backoffMs job.maxRetries +
    env.lockBufferMs
  max 1 ((ms + 999) / 1000)

/-- `attempts` counts the first try and `maxRetries` retries. -/
def executionJobOptions (job : Job) : JobsOptions where
  attempts := job.maxRetries + 1
  backoffDelay := job.backoffMs

end CronHive
