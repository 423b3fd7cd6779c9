import CronHive.Services

/-!
# The worker

`processExecutionJob` with its dead-letter path, and the part of BullMQ's worker that calls
it and reports the outcome.
-/

namespace CronHive

set_option autoImplicit false

def publishEvent (msg : SocketEvent) : Promise Unit := await (.redisPublish msg)

def applyCircuitBreaker (env : Env) (jobId : JobId) (executionId : ExecutionId) :
    Promise Unit := do
  let job ← await (.jobUpdate jobId { consecutiveDeadCount := some (.increment 1) })
  if job.consecutiveDeadCount ≥ env.circuitBreakerConsecutiveDead then
    let _ ← await (.jobUpdate jobId { enabled := some false })
    inc .circuitOpen
    publishEvent (.jobAlert ⟨jobId, executionId, .circuitOpen,
      s!"Job disabled after {env.circuitBreakerConsecutiveDead} consecutive DEAD executions"⟩)

def resetDeadStreak (jobId : JobId) : Promise Unit := do
  let _ ← await (.jobUpdate jobId { consecutiveDeadCount := some (.set 0) })
  pure ()

def deadLetter (env : Env) (executionId : ExecutionId) (jobId : JobId) (attemptNumber : Nat)
    (errMsg : String) (statusCode : Option Nat) (durationMs : Int) : Promise Unit := do
  let now ← dateNow
  let _ ← await (.executionUpdate executionId
    { status := .DEAD
      finishedAt := some (some now)
      responseCode := some statusCode
      durationMs := some (some durationMs)
      errorMessage := some (some errMsg) })
  await (.deadLetterAdd ⟨executionId, jobId, "max_retries_exceeded", errMsg⟩)
  inc (.executions .DEAD)
  applyCircuitBreaker env jobId executionId
  publishEvent (.jobFailed ⟨jobId, executionId, .DEAD, statusCode, durationMs, attemptNumber⟩)
  publishEvent (.jobAlert ⟨jobId, executionId, .dead,
    s!"Execution DEAD after {attemptNumber} attempts: {errMsg}"⟩)

/-- What the processor reads of a BullMQ job. -/
structure BullJob where
  data : ExecutionJobData
  attemptsMade : Nat
  attempts : Option Nat
  deriving DecidableEq, Repr

def BullJob.attemptNumber (b : BullJob) : Nat := b.attemptsMade + 1

def BullJob.isFinalAttempt (b : BullJob) : Bool := b.attemptNumber ≥ b.attempts.getD 1

def succeedExecution (b : BullJob) (statusCode : Nat) (durationMs : Int) : Promise Unit := do
  let now ← dateNow
  let _ ← await (.executionUpdate b.data.executionId
    { status := .SUCCESS
      finishedAt := some (some now)
      responseCode := some (some statusCode)
      durationMs := some (some durationMs)
      errorMessage := some none })
  resetDeadStreak b.data.jobId
  inc (.executions .SUCCESS)
  inc (.callbackAttempts "ok")
  publishEvent (.jobSuccess ⟨b.data.jobId, b.data.executionId, .SUCCESS, some statusCode,
    durationMs, b.attemptNumber⟩)

/-- A failed attempt: dead-letter the last one, record the others and throw so that BullMQ
schedules the next. -/
def failAttempt (env : Env) (b : BullJob) (kind : FailureKind) (statusCode : Option Nat)
    (message : String) (durationMs : Int) : Promise Unit := do
  let errMsg := s!"{kind.text}: {message}"
  inc (.callbackAttempts kind.text)
  if b.isFinalAttempt then
    deadLetter env b.data.executionId b.data.jobId b.attemptNumber errMsg statusCode durationMs
  else do
    let now ← dateNow
    let _ ← await (.executionUpdate b.data.executionId
      { status := .FAILED
        finishedAt := some (some now)
        responseCode := some statusCode
        durationMs := some (some durationMs)
        errorMessage := some (some errMsg) })
    publishEvent (.jobFailed ⟨b.data.jobId, b.data.executionId, .FAILED, statusCode, durationMs,
      b.attemptNumber⟩)
    throw (.error errMsg)

/-- From the move to RUNNING on, for a job found enabled and an execution found. -/
def runAttempt (env : Env) (b : BullJob) (job : Job) (execution : Execution) : Promise Unit := do
  let now ← dateNow
  let _ ← await (.executionUpdate b.data.executionId
    { status := .RUNNING
      startedAt := some (some (execution.startedAt.getD now))
      attemptNumber := some b.attemptNumber
      finishedAt := some none })
  publishEvent (.jobStarted ⟨b.data.jobId, b.data.executionId, b.attemptNumber,
    execution.triggerSource⟩)
  match ← invokeCallback job.callbackUrl
      ⟨job.id, job.name, b.data.executionId, b.attemptNumber, execution.triggeredAt⟩
      job.callbackTimeoutMs with
  | .ok statusCode durationMs => succeedExecution b statusCode durationMs
  | .failed kind statusCode message durationMs =>
      failAttempt env b kind statusCode message durationMs

/-- `(await getCachedJob(…)) ?? (await prisma.job.findUnique(…))`. -/
def lookupJob (jobId : JobId) : Promise (Option Job) := do
  match ← getCachedJob jobId with
  | some job => pure (some job)
  | none => await (.jobFindUnique jobId)

def processExecutionJob (env : Env) (b : BullJob) : Promise Unit := do
  match ← lookupJob b.data.jobId with
  | none => pure ()
  | some job =>
    if !job.enabled then pure ()
    else do
      match ← await (.executionFindUnique b.data.executionId) with
      | none => pure ()
      | some execution => runAttempt env b job execution

/-- BullMQ's worker around the processor: `token` is the delivery's own. -/
def deliver (env : Env) (message : Nat) (token : Token) (b : BullJob) : Promise Unit := do
  let returned ←
    try
      processExecutionJob env b
      pure true
    catch _ => pure false
  if returned then await (.moveToCompleted message token)
  else await (.moveToFailed message token)

end CronHive
