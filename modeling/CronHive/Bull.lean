import CronHive.Data

/-!
# The BullMQ queue

BullMQ is a third-party package; this is what the workers rely on. A message waits, is
active under the token of the worker that took it, and is completed or failed for good. A
worker's verdict counts only while its own token is the active one. When the processor
throws and attempts remain, the message waits again with `attemptsMade` one higher. A
message found stalled waits again with `attemptsMade` as it was, and its first worker may
still be running; found stalled a second time it is failed.

`Bull` is the log of all messages ever added, each as it was last. Redis does not keep all
of them: of those that have finished only the newest remain, and `FinishedJobs` says which.
-/

namespace CronHive

set_option autoImplicit false

inductive MessageState where
  | waiting
  | active (token : Token)
  | completed
  | failed
  deriving DecidableEq, Repr

structure Message where
  data : ExecutionJobData
  attempts : Nat
  backoffDelay : Nat
  attemptsMade : Nat
  stalledCount : Nat
  state : MessageState
  deriving DecidableEq, Repr

abbrev Bull := List Message

/-- BullMQ's default, which `startWorker` leaves. -/
def maxStalledCount : Nat := 1

namespace Bull

def add (q : Bull) (data : ExecutionJobData) (opts : JobsOptions) : Bull :=
  q ++ [⟨data, opts.attempts, opts.backoffDelay, 0, 0, .waiting⟩]

/-- Change message `m` if it exists. -/
def modify (q : Bull) (m : Nat) (f : Message → Message) : Bull := List.modify q m f

def completed (token : Token) (x : Message) : Message :=
  if x.state = .active token then { x with state := .completed } else x

def failed (token : Token) (x : Message) : Message :=
  if x.state = .active token then
    if x.attemptsMade + 1 < x.attempts then
      { x with attemptsMade := x.attemptsMade + 1, state := .waiting }
    else { x with attemptsMade := x.attemptsMade + 1, state := .failed }
  else x

def stalled (x : Message) : Message :=
  match x.state with
  | .active _ =>
      if x.stalledCount < maxStalledCount then
        { x with stalledCount := x.stalledCount + 1, state := .waiting }
      else { x with stalledCount := x.stalledCount + 1, state := .failed }
  | _ => x

/-! ## Messages keep their data -/

theorem modify_data {q : Bull} {m : Nat} {f : Message → Message}
    (hf : ∀ x, (f x).data = x.data) : (q.modify m f).map (·.data) = q.map (·.data) := by
  unfold modify
  induction q generalizing m with
  | nil => simp
  | cons x q ih =>
    cases m with
    | zero => simp [hf]
    | succ m => simpa using ih

theorem completed_data (token : Token) (x : Message) : (completed token x).data = x.data := by
  unfold completed
  split <;> rfl

theorem failed_data (token : Token) (x : Message) : (failed token x).data = x.data := by
  unfold failed
  split
  · split <;> rfl
  · rfl

theorem stalled_data (x : Message) : (stalled x).data = x.data := by
  unfold stalled
  split
  · split <;> rfl
  · rfl

end Bull

/-! ## The finished messages that Redis keeps -/

def removeOnComplete : Nat := 1000

def removeOnFail : Nat := 5000

/-- The last one to finish comes first. -/
structure FinishedJobs where
  completed : List Nat
  failed : List Nat
  deriving DecidableEq, Repr

namespace FinishedJobs

/-- Message `m` gets into a state. If it has finished, the oldest may be removed. -/
def reach (f : FinishedJobs) (m : Nat) : MessageState → FinishedJobs
  | .completed => { f with completed := (m :: f.completed).take removeOnComplete }
  | .failed => { f with failed := (m :: f.failed).take removeOnFail }
  | _ => f

/-- Message `m` of the queue is changed. -/
def after (f : FinishedJobs) (q : Bull) (m : Nat) (change : Message → Message) : FinishedJobs :=
  match q[m]? with
  | some x => if (change x).state = x.state then f else f.reach m (change x).state
  | none => f

end FinishedJobs

end CronHive
