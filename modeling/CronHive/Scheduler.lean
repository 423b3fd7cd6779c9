import CronHive.Services

/-!
# The scheduler's tick
-/

namespace CronHive

set_option autoImplicit false

/-- What the loop body does once the slot's lock is held. -/
def claimSlot (job : Job) (slot : Int) (lock : JobLock) : Promise Unit := do
  try
    match ← createScheduledExecution job.id slot with
    | none =>
      inc .slotsDeduped
      releaseJobLock lock
    | some ex =>
      await (.queueAdd ⟨ex.id, job.id, .time slot⟩ (executionJobOptions job))
      inc .slotsEnqueued
  catch e =>
    releaseJobLock lock
    throw e

/-- The loop body for one job with a due slot. -/
def fireSlot (env : Env) (job : Job) (slot : Int) : Promise Unit := do
  let ttl := computeJobLockTtlSeconds env job
  match ← acquireJobLock job.id (.time slot) ttl with
  | none => inc .slotsDeduped
  | some lock => claimSlot job slot lock

/-- One iteration of the loop over the jobs. -/
def tickIteration (S : Setup) (job : Job) : Promise Unit := do
  let now ← dateNow
  match dueFireSlot S job.cronExpression job.timezone now with
  | none => pure ()
  | some slot => fireSlot S.env job slot

def tickLoop (S : Setup) : List Job → Promise Unit
  | [] => pure ()
  | job :: jobs => do
    tickIteration S job
    tickLoop S jobs

def tick (S : Setup) : Promise Unit := do
  inc .schedulerTicks
  let jobs ← await .jobFindMany
  tickLoop S jobs

end CronHive
