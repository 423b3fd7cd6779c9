/-!
# Rows, messages and events

The columns and fields that the scheduler, the workers and the job service read or write.
Instants are epoch milliseconds. Prisma's `cuid()` never gives an id twice: execution ids
are numbered in the order of creation.
-/

namespace CronHive

set_option autoImplicit false

abbrev JobId := String
abbrev ExecutionId := Nat
abbrev Token := Nat

inductive ExecutionStatus where
  | PENDING
  | RUNNING
  | SUCCESS
  | FAILED
  | DEAD
  deriving DecidableEq, Repr

/-- The states the worker owns for good. -/
def ExecutionStatus.terminal : ExecutionStatus → Bool
  | .SUCCESS => true
  | .DEAD => true
  | _ => false

inductive TriggerSource where
  | schedule
  | manual
  deriving DecidableEq, Repr

structure Job where
  id : JobId
  name : String
  cronExpression : String
  callbackUrl : String
  timezone : String
  maxRetries : Nat
  backoffMs : Nat
  callbackTimeoutMs : Nat
  enabled : Bool
  paused : Bool
  consecutiveDeadCount : Nat
  deriving DecidableEq, Repr

structure Execution where
  id : ExecutionId
  jobId : JobId
  triggeredAt : Int
  scheduledFor : Option Int
  startedAt : Option Int
  finishedAt : Option Int
  status : ExecutionStatus
  attemptNumber : Nat
  responseCode : Option Nat
  durationMs : Option Int
  errorMessage : Option String
  triggerSource : TriggerSource
  deriving DecidableEq, Repr

/-- A fire-slot as epoch milliseconds, or "manual". -/
inductive FireSlot where
  | time (ms : Int)
  | manual
  deriving DecidableEq, Repr

structure ExecutionJobData where
  executionId : ExecutionId
  jobId : JobId
  fireSlot : FireSlot
  deriving DecidableEq, Repr

structure DeadLetterJobData where
  executionId : ExecutionId
  jobId : JobId
  reason : String
  lastError : String
  deriving DecidableEq, Repr

/-- BullMQ's options of one message: exponential backoff seeded with `backoffDelay`. -/
structure JobsOptions where
  attempts : Nat
  backoffDelay : Nat
  deriving DecidableEq, Repr

structure JobLock where
  jobId : JobId
  fireSlot : FireSlot
  token : Token
  deriving DecidableEq, Repr

/-! ## What `prisma` is given -/

/-- `data` of `prisma.job.create`; the id is Prisma's default. -/
structure JobCreate where
  name : String
  cronExpression : String
  callbackUrl : String
  timezone : String
  maxRetries : Nat
  backoffMs : Nat
  callbackTimeoutMs : Nat
  enabled : Bool
  paused : Bool
  deriving DecidableEq, Repr

def JobCreate.row (data : JobCreate) (id : JobId) : Job where
  id := id
  name := data.name
  cronExpression := data.cronExpression
  callbackUrl := data.callbackUrl
  timezone := data.timezone
  maxRetries := data.maxRetries
  backoffMs := data.backoffMs
  callbackTimeoutMs := data.callbackTimeoutMs
  enabled := data.enabled
  paused := data.paused
  consecutiveDeadCount := 0

inductive CountUpdate where
  | increment (n : Nat)
  | set (n : Nat)
  deriving DecidableEq, Repr

/-- `UpdateJobInput`; `none` is an absent field. -/
structure UpdateJobInput where
  name : Option String := none
  cronExpression : Option String := none
  callbackUrl : Option String := none
  timezone : Option String := none
  maxRetries : Option Nat := none
  backoffMs : Option Nat := none
  callbackTimeoutMs : Option Nat := none
  enabled : Option Bool := none
  paused : Option Bool := none
  deriving DecidableEq, Repr

/-- `data` of `prisma.job.update`; only the worker writes the counter. -/
structure JobUpdate extends UpdateJobInput where
  consecutiveDeadCount : Option CountUpdate := none
  deriving DecidableEq, Repr

def CountUpdate.apply : CountUpdate → Nat → Nat
  | .increment n, c => c + n
  | .set n, _ => n

def JobUpdate.apply (data : JobUpdate) (job : Job) : Job where
  id := job.id
  name := data.name.getD job.name
  cronExpression := data.cronExpression.getD job.cronExpression
  callbackUrl := data.callbackUrl.getD job.callbackUrl
  timezone := data.timezone.getD job.timezone
  maxRetries := data.maxRetries.getD job.maxRetries
  backoffMs := data.backoffMs.getD job.backoffMs
  callbackTimeoutMs := data.callbackTimeoutMs.getD job.callbackTimeoutMs
  enabled := data.enabled.getD job.enabled
  paused := data.paused.getD job.paused
  consecutiveDeadCount :=
    (data.consecutiveDeadCount.map (·.apply job.consecutiveDeadCount)).getD
      job.consecutiveDeadCount

@[simp] theorem JobUpdate.apply_id (data : JobUpdate) (job : Job) :
    (data.apply job).id = job.id := rfl

@[simp] theorem JobUpdate.apply_empty (job : Job) : ({} : JobUpdate).apply job = job := rfl

/-- `data` of `prisma.execution.create`; every row starts PENDING with attempt number 1. -/
structure ExecutionCreate where
  jobId : JobId
  scheduledFor : Option Int
  triggerSource : TriggerSource
  deriving DecidableEq, Repr

def ExecutionCreate.row (data : ExecutionCreate) (id : ExecutionId) (now : Int) : Execution where
  id := id
  jobId := data.jobId
  triggeredAt := now
  scheduledFor := data.scheduledFor
  startedAt := none
  finishedAt := none
  status := .PENDING
  attemptNumber := 1
  responseCode := none
  durationMs := none
  errorMessage := none
  triggerSource := data.triggerSource

/-- `data` of `prisma.execution.update`. Every update of the worker writes the status. -/
structure ExecutionUpdate where
  status : ExecutionStatus
  startedAt : Option (Option Int) := none
  finishedAt : Option (Option Int) := none
  attemptNumber : Option Nat := none
  responseCode : Option (Option Nat) := none
  durationMs : Option (Option Int) := none
  errorMessage : Option (Option String) := none
  deriving DecidableEq, Repr

def ExecutionUpdate.apply (data : ExecutionUpdate) (x : Execution) : Execution where
  id := x.id
  jobId := x.jobId
  triggeredAt := x.triggeredAt
  scheduledFor := x.scheduledFor
  startedAt := data.startedAt.getD x.startedAt
  finishedAt := data.finishedAt.getD x.finishedAt
  status := data.status
  attemptNumber := data.attemptNumber.getD x.attemptNumber
  responseCode := data.responseCode.getD x.responseCode
  durationMs := data.durationMs.getD x.durationMs
  errorMessage := data.errorMessage.getD x.errorMessage
  triggerSource := x.triggerSource

@[simp] theorem ExecutionUpdate.apply_id (data : ExecutionUpdate) (x : Execution) :
    (data.apply x).id = x.id := rfl

@[simp] theorem ExecutionUpdate.apply_jobId (data : ExecutionUpdate) (x : Execution) :
    (data.apply x).jobId = x.jobId := rfl

@[simp] theorem ExecutionUpdate.apply_scheduledFor (data : ExecutionUpdate) (x : Execution) :
    (data.apply x).scheduledFor = x.scheduledFor := rfl

@[simp] theorem ExecutionUpdate.apply_status (data : ExecutionUpdate) (x : Execution) :
    (data.apply x).status = data.status := rfl

/-! ## Events and failures -/

structure JobStartedPayload where
  jobId : JobId
  executionId : ExecutionId
  attemptNumber : Nat
  triggerSource : TriggerSource
  deriving DecidableEq, Repr

structure JobFinishedPayload where
  jobId : JobId
  executionId : ExecutionId
  status : ExecutionStatus
  responseCode : Option Nat
  durationMs : Int
  attemptNumber : Nat
  deriving DecidableEq, Repr

inductive AlertKind where
  | dead
  | circuitOpen
  deriving DecidableEq, Repr

structure JobAlertPayload where
  jobId : JobId
  executionId : ExecutionId
  kind : AlertKind
  message : String
  deriving DecidableEq, Repr

inductive SocketEvent where
  | jobStarted (payload : JobStartedPayload)
  | jobSuccess (payload : JobFinishedPayload)
  | jobFailed (payload : JobFinishedPayload)
  | jobAlert (payload : JobAlertPayload)
  deriving DecidableEq, Repr

/-- Everything an await or a `throw` of the program can raise. -/
inductive Failure where
  /-- unique constraint violation -/
  | p2002
  /-- foreign key violation -/
  | p2003
  /-- the row to update or delete does not exist -/
  | p2025
  /-- a store was unreachable or refused the command -/
  | store (message : String)
  /-- `fetch` was aborted by its signal -/
  | abortError
  /-- `fetch` failed: resolution, connection, TLS -/
  | fetchFailed (message : String)
  /-- `new Error(message)` -/
  | error (message : String)
  | unsafeCallbackUrl (reason : String)
  | invalidCron
  deriving DecidableEq, Repr

end CronHive
