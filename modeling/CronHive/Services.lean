import CronHive.CronUtils
import CronHive.Ssrf

/-!
# The services behind the API and the scheduler

`job-cache.ts`, `lock.ts`, `execution.service.ts`, `job.service.ts`, `callback.service.ts`
and the trigger route, function by function.
-/

namespace CronHive

set_option autoImplicit false

/-! ## Config cache -/

def cacheJobConfig (job : Job) : Promise Unit :=
  await (.redisSet (jobConfigKey job.id) (.job job) 3600)

def invalidateJobConfig (jobId : JobId) : Promise Unit :=
  await (.redisDel (jobConfigKey jobId))

def getCachedJob (jobId : JobId) : Promise (Option Job) := do
  match ← await (.redisGet (jobConfigKey jobId)) with
  | some (.job job) => pure (some job)
  | _ => pure none

/-! ## Slot locks -/

def acquireJobLock (jobId : JobId) (fireSlot : FireSlot) (ttlSeconds : Nat) :
    Promise (Option JobLock) := do
  let ttlSeconds := if ttlSeconds < 1 then 1 else ttlSeconds
  let token ← randomUUID
  let granted ← await (.redisSetNx (jobLockKey jobId fireSlot) (.token token) ttlSeconds)
  pure (if granted then some ⟨jobId, fireSlot, token⟩ else none)

def releaseJobLock (lock : JobLock) : Promise Unit :=
  await (.redisRelease (jobLockKey lock.jobId lock.fireSlot) lock.token)

/-! ## Executions -/

def createExecution (jobId : JobId) (triggerSource : TriggerSource) : Promise Execution :=
  await (.executionCreate ⟨jobId, none, triggerSource⟩)

/-- `none` if the slot was already claimed. -/
def createScheduledExecution (jobId : JobId) (scheduledFor : Int) :
    Promise (Option Execution) := do
  try
    let ex ← await (.executionCreate ⟨jobId, some scheduledFor, .schedule⟩)
    pure (some ex)
  catch e => if e = .p2002 then pure none else throw e

/-! ## Jobs -/

structure CreateJobInput where
  name : String
  cronExpression : String
  callbackUrl : String
  maxRetries : Nat
  backoffMs : Nat
  timezone : Option String := none
  enabled : Option Bool := none
  paused : Option Bool := none
  callbackTimeoutMs : Option Nat := none
  deriving DecidableEq, Repr

def CreateJobInput.data (env : Env) (input : CreateJobInput) : JobCreate where
  name := input.name
  cronExpression := input.cronExpression
  callbackUrl := input.callbackUrl
  timezone := input.timezone.getD "UTC"
  maxRetries := input.maxRetries
  backoffMs := input.backoffMs
  callbackTimeoutMs := input.callbackTimeoutMs.getD env.defaultCallbackTimeoutMs
  enabled := input.enabled.getD true
  paused := input.paused.getD false

def assertValidCron (P : Platform) (cronExpression timezone : String) : Promise Unit :=
  if P.cronParses cronExpression (timezoneOrUTC timezone) then pure () else throw .invalidCron

def ensureSafeCallback (S : Setup) (url : String) : Promise Unit := do
  let result ← assertSafeCallbackUrl S.platform url S.env.allowPrivateCallbacks
  if result.ok then pure () else throw (.unsafeCallbackUrl (result.reason.getD "rejected"))

def createJob (S : Setup) (input : CreateJobInput) : Promise Job := do
  assertValidCron S.platform input.cronExpression (input.timezone.getD "UTC")
  ensureSafeCallback S input.callbackUrl
  let job ← await (.jobCreate (input.data S.env))
  cacheJobConfig job
  pure job

/-- The first check of `updateJob`; `false` if there is no such job. -/
def checkCronUpdate (S : Setup) (id : JobId) (data : UpdateJobInput) : Promise Bool :=
  if data.cronExpression.isSome || data.timezone.isSome then do
    match ← await (.jobFindUnique id) with
    | none => pure false
    | some existing => do
      assertValidCron S.platform (data.cronExpression.getD existing.cronExpression)
        (data.timezone.getD existing.timezone)
      pure true
  else pure true

def ensureSafeUpdate (S : Setup) (data : UpdateJobInput) : Promise Unit :=
  match data.callbackUrl with
  | some url => ensureSafeCallback S url
  | none => pure ()

/-- Any failure after the checks is reported as "no such job". -/
def updateJob (S : Setup) (id : JobId) (data : UpdateJobInput) : Promise (Option Job) := do
  if ← checkCronUpdate S id data then
    ensureSafeUpdate S data
    try
      let job ← await (.jobUpdate id { data with })
      invalidateJobConfig id
      cacheJobConfig job
      pure (some job)
    catch _ => pure none
  else pure none

def deleteJob (id : JobId) : Promise Bool := do
  try
    await (.jobDelete id)
    invalidateJobConfig id
    pure true
  catch _ => pure false

def setPaused (S : Setup) (id : JobId) (paused : Bool) : Promise (Option Job) :=
  updateJob S id { paused := some paused }

/-- `Promise.all` over `invalidateJobConfig`: the commands leave in this order on one
connection, all of them even if some are rejected; the first rejection is the result. -/
def invalidateAll : List JobId → Promise Unit
  | [] => pure ()
  | id :: ids => do
    let first ←
      try
        invalidateJobConfig id
        pure none
      catch e => pure (some e)
    invalidateAll ids
    match first with
    | none => pure ()
    | some e => throw e

def bulkSetEnabled (ids : List JobId) (enabled : Bool) : Promise Nat := do
  let count ← await (.jobUpdateMany ids enabled)
  invalidateAll ids
  pure count

/-! ## Callbacks -/

inductive FailureKind where
  | httpError
  | timeout
  | network
  deriving DecidableEq, Repr

def FailureKind.text : FailureKind → String
  | .httpError => "http_error"
  | .timeout => "timeout"
  | .network => "network"

inductive CallbackResult where
  | ok (statusCode : Nat) (durationMs : Int)
  | failed (kind : FailureKind) (statusCode : Option Nat) (message : String) (durationMs : Int)
  deriving DecidableEq, Repr

/-- `err.message`. -/
def Failure.message : Failure → String
  | .store m => m
  | .fetchFailed m => m
  | .error m => m
  | .unsafeCallbackUrl reason => s!"Unsafe callback URL: {reason}"
  | _ => "Network error"

/-- `res.ok`. -/
def responseOk (status : Nat) : Bool := 200 ≤ status && status ≤ 299

def invokeCallback (url : String) (body : CallbackBody) (timeoutMs : Nat) :
    Promise CallbackResult := do
  let started ← dateNow
  try
    let status ← await (.fetch url body timeoutMs)
    let finished ← dateNow
    if responseOk status then pure (.ok status (finished - started))
    else pure (.failed .httpError (some status) s!"HTTP {status}" (finished - started))
  catch e =>
    let finished ← dateNow
    if e = .abortError then
      pure (.failed .timeout none "Callback timeout" (finished - started))
    else pure (.failed .network none e.message (finished - started))

/-- A success carries a 2xx code, a failure none. -/
def CallbackResult.Sound : CallbackResult → Prop
  | .ok statusCode _ => responseOk statusCode = true
  | .failed _ statusCode _ _ => ∀ code ∈ statusCode, responseOk code = false

/-- A callback is one `fetch` and never throws. -/
theorem wp_invokeCallback {σ : Type} {m : Async.Monitor Call.Reply Failure σ} {st : σ}
    {url : String} {body : CallbackBody} {timeoutMs : Nat}
    {Q : σ → Except Failure CallbackResult → Prop} (hp : m.permits st (.fetch url body timeoutMs))
    (hq : ∀ r, m.admits st (.fetch url body timeoutMs) r →
      ∀ result : CallbackResult, result.Sound →
        Q (m.next st (.fetch url body timeoutMs) r) (.ok result)) :
    (invokeCallback url body timeoutMs).wp m st Q := by
  unfold invokeCallback
  simp only [Async.Prog.bind_eq, Async.Prog.wp_bind, wp_dateNow, Async.Prog.tryCatch_eq,
    Async.Prog.wp_tryCatch, wp_call]
  refine fun started => ⟨hp, fun r hr => ?_⟩
  cases r with
  | ok status =>
    dsimp only
    intro finished
    split
    · rename_i hok
      exact hq _ hr _ hok
    · rename_i hok
      refine hq _ hr _ fun code hcode => ?_
      cases hcode
      simpa using hok
  | error e =>
    dsimp only
    intro finished
    split
    · refine hq _ hr _ fun code hcode => ?_
      cases hcode
    · refine hq _ hr _ fun code hcode => ?_
      cases hcode

/-! ## The trigger route -/

inductive TriggerReply where
  | notFound
  | disabled
  | locked
  | accepted (x : Execution)
  deriving DecidableEq, Repr

def triggerJob (S : Setup) (id : JobId) : Promise TriggerReply := do
  match ← await (.jobFindUnique id) with
  | none => pure .notFound
  | some job =>
    if !job.enabled then pure .disabled
    else do
      match ← acquireJobLock job.id .manual (computeJobLockTtlSeconds S.env job) with
      | none => pure .locked
      | some lock =>
        try
          let ex ← createExecution job.id .manual
          await (.queueAdd ⟨ex.id, job.id, .manual⟩ (executionJobOptions job))
          pure (.accepted ex)
        catch e =>
          releaseJobLock lock
          throw e

end CronHive
