import CronHive.Attempts
import CronHive.FinishedJobs
import CronHive.Uninterrupted

/-!
# Draining the queue

No state that a run can get into is a dead end: whatever has failed or stopped before, the
messages that are left can be delivered one after another until each of them is settled. A
message takes no more deliveries than it has attempts left, whatever its callbacks come to. Only
a message whose worker is gone for the second time fails without another delivery.
-/

namespace CronHive

set_option autoImplicit false

open Async Async.Prog Async.Machine

/-- `w'` is `w` but for the row of `e`, columns of jobs, and what no worker reads. -/
structure Around (e : ExecutionId) (w w' : World) : Prop where
  redis : w'.redis = w.redis
  queue : w'.queue = w.queue
  finished : w'.finished = w.finished
  others : ∀ e', e' ≠ e → w'.db.execution? e' = w.db.execution? e'
  jobId : (w'.db.execution? e).map (·.jobId) = (w.db.execution? e).map (·.jobId)

def statusOf (e : ExecutionId) (w : World) : Option ExecutionStatus :=
  (w.db.execution? e).map (·.status)

/-- The row of `e` has its status still. -/
structure Kept (e : ExecutionId) (w w' : World) : Prop extends Around e w w' where
  status : statusOf e w' = statusOf e w

/-- Execution `e` is there, and is of job `j`. -/
def RowOf (e : ExecutionId) (j : JobId) (w : World) : Prop :=
  (w.db.execution? e).map (·.jobId) = some j

section Worlds

variable {e : ExecutionId} {j : JobId} {w w₁ w' : World}

theorem SameStores.kept (h : SameStores w w') : Kept e w w' :=
  ⟨⟨h.redis, h.queue, h.finished, fun _ _ => by rw [h.db], by rw [h.db]⟩,
    by rw [statusOf, statusOf, h.db]⟩

theorem Around.trans (h : Around e w w₁) (h' : Around e w₁ w') : Around e w w' :=
  ⟨h'.redis.trans h.redis, h'.queue.trans h.queue, h'.finished.trans h.finished,
    fun e' he => (h'.others e' he).trans (h.others e' he), h'.jobId.trans h.jobId⟩

theorem Kept.trans (h : Kept e w w₁) (h' : Kept e w₁ w') : Kept e w w' :=
  ⟨h.toAround.trans h'.toAround, h'.status.trans h.status⟩

theorem Around.rowOf (h : Around e w w') (hrow : RowOf e j w) : RowOf e j w' :=
  h.jobId.trans hrow

/-- The job of an execution that is there is there too. -/
theorem RowOf.hasJob (h : RowOf e j w) : w.db.hasJob j := by
  obtain ⟨y, hy, rfl⟩ := Option.map_eq_some_iff.mp h
  exact w.db.job_fkey y (List.mem_of_find?_eq_some hy)

end Worlds

/-! ## The calls of a delivery -/

theorem execution?_executionUpdate_other {db : Postgres} {e e' : ExecutionId} (h : e' ≠ e)
    (data : ExecutionUpdate) : (db.executionUpdate e data).1.execution? e' = db.execution? e' := by
  unfold Postgres.executionUpdate
  split
  · rfl
  · rw [Postgres.execution?_mapExecutions]
    cases hfind : db.execution? e' with
    | none => rfl
    | some y =>
      have hid : y.id = e' := by simpa using List.find?_some hfind
      rw [Option.map_some, Postgres.updateExecutionRow, if_neg (hid ▸ h)]

theorem executionUpdate_jobs (db : Postgres) (e : ExecutionId) (data : ExecutionUpdate) :
    (db.executionUpdate e data).1.jobs = db.jobs := by
  unfold Postgres.executionUpdate
  split <;> rfl

theorem jobUpdate_executions (db : Postgres) (j : JobId) (data : JobUpdate) :
    (db.jobUpdate j data).1.executions = db.executions := by
  unfold Postgres.jobUpdate
  split <;> rfl

section Calls

variable {S : Setup} {x : Choice} {e : ExecutionId} {j : JobId} {w : World} {α : Type}

theorem ends_publish (msg : SocketEvent) {f : Unit → Promise α}
    {Q : World → Except Failure α → Prop}
    (h : ∀ w', SameStores w w' → (system S).Ends (answers x) (f ()) w' Q) :
    (system S).Ends (answers x) ((publishEvent msg).bind f) w Q :=
  ends_call rfl (h _ ⟨rfl, rfl, rfl, rfl⟩)

theorem ends_executionUpdate (hrow : RowOf e j w) (data : ExecutionUpdate)
    {f : Execution → Promise α} {Q : World → Except Failure α → Prop}
    (h : ∀ w' y, Around e w w' → w'.db.jobs = w.db.jobs → statusOf e w' = some data.status →
      (system S).Ends (answers x) (f y) w' Q) :
    (system S).Ends (answers x) ((await (.executionUpdate e data)).bind f) w Q := by
  obtain ⟨y, hy, hj⟩ := Option.map_eq_some_iff.mp hrow
  have hok : (w.db.executionUpdate e data).2 = .ok (data.apply y) := by
    simp only [Postgres.executionUpdate, hy]
  have hrow' := Postgres.execution?_executionUpdate data hy
  refine ends_call hok (h _ _ ?_ (executionUpdate_jobs w.db e data) ?_)
  · refine ⟨rfl, rfl, rfl, fun e' he => execution?_executionUpdate_other he data, ?_⟩
    exact (congrArg (Option.map (·.jobId)) hrow').trans (congrArg (Option.map (·.jobId)) hy).symm
  · exact congrArg (Option.map (·.status)) hrow'

theorem ends_jobUpdate (hrow : RowOf e j w) (data : JobUpdate) {f : Job → Promise α}
    {Q : World → Except Failure α → Prop}
    (h : ∀ w' job, Kept e w w' →
      (system S).Ends (answers x) (f job) w' Q) :
    (system S).Ends (answers x) ((await (.jobUpdate j data)).bind f) w Q := by
  obtain ⟨job, hok⟩ := Postgres.jobUpdate_found data hrow.hasJob
  have hsame (e' : ExecutionId) :
      (w.db.jobUpdate j data).1.execution? e' = w.db.execution? e' :=
    congrArg (List.find? fun y : Execution => y.id == e') (jobUpdate_executions w.db j data)
  refine ends_call hok (h _ _ ⟨⟨rfl, rfl, rfl, fun e' _ => hsame e', ?_⟩, ?_⟩)
  · exact congrArg (Option.map (·.jobId)) (hsame e)
  · exact congrArg (Option.map (·.status)) (hsame e)

/-- The last publication of a function. -/
theorem ends_published (msg : SocketEvent) :
    (system S).Ends (answers x) (publishEvent msg) w fun w' r => r = .ok () ∧ SameStores w w' :=
  ⟨rfl, rfl, rfl, rfl, rfl⟩

/-- A callback changes no store, and never throws. -/
theorem ends_invokeCallback (url : String) (body : CallbackBody) (timeoutMs : Nat) :
    (system S).Ends (answers x) (invokeCallback url body timeoutMs) w
      fun w' r => SameStores w w' ∧ ∃ a, r = .ok a := by
  refine ends_local fun w₁ started h₁ => ?_
  refine Ends.tryCatch (P := fun w' _ => SameStores w₁ w') ?_ ?_ ?_
  · refine Ends.bind (P := fun w' _ => SameStores w₁ w') ?_ ?_ fun _ _ h => h
    · rw [Ends, await, solo_perform]
      exact ⟨rfl, rfl, rfl, rfl⟩
    · intro w₂ status h₂
      refine ends_local fun w₃ finished h₃ => ?_
      split
      · exact h₂.trans h₃
      · exact h₂.trans h₃
  · intro w₂ a h₂
    exact ⟨h₁.trans h₂, a, rfl⟩
  · intro w₂ failure h₂
    refine ends_local fun w₃ finished h₃ => ?_
    split
    · exact ⟨h₁.trans (h₂.trans h₃), _, rfl⟩
    · exact ⟨h₁.trans (h₂.trans h₃), _, rfl⟩

end Calls

/-! ## One delivery -/

/-- What a delivery leaves behind that came to `status`. -/
structure Left (b : BullJob) (status : ExecutionStatus) (w w' : World) : Prop where
  around : Around b.data.executionId w w'
  reached : statusOf b.data.executionId w' = some status
  jobs : status = .FAILED → w'.db.jobs = w.db.jobs

section Delivery

variable {S : Setup} {x : Choice} {w : World} (b : BullJob)

theorem ends_resetDeadStreak (hrow : RowOf b.data.executionId b.data.jobId w) :
    (system S).Ends (answers x) (resetDeadStreak b.data.jobId) w fun w' r =>
      r = .ok () ∧ Kept b.data.executionId w w' :=
  ends_jobUpdate hrow _ fun _ _ h => ⟨rfl, h⟩

theorem ends_applyCircuitBreaker (env : Env) (hrow : RowOf b.data.executionId b.data.jobId w) :
    (system S).Ends (answers x) (applyCircuitBreaker env b.data.jobId b.data.executionId) w
      fun w' r => r = .ok () ∧ Kept b.data.executionId w w' := by
  refine ends_jobUpdate hrow _ fun w₁ job h₁ => ?_
  split
  · refine ends_jobUpdate (h₁.rowOf hrow) _ fun w₂ _ h₂ => ends_local fun w₃ _ h₃ => ?_
    refine (ends_published _).mono fun w' r h => ⟨h.1, ?_⟩
    exact h₁.trans (h₂.trans (h₃.trans h.2).kept)
  · exact ⟨rfl, h₁⟩

theorem ends_succeedExecution (statusCode : Nat) (durationMs : Int)
    (hrow : RowOf b.data.executionId b.data.jobId w) :
    (system S).Ends (answers x) (succeedExecution b statusCode durationMs) w
      fun w' r => r = .ok () ∧ Left b .SUCCESS w w' := by
  refine ends_local fun w₁ now h₁ => ?_
  refine ends_executionUpdate (h₁.kept.rowOf hrow) _ fun w₂ y h₂ _ hstatus => ?_
  have h₂ := h₁.kept.toAround.trans h₂
  refine (ends_resetDeadStreak b (h₂.rowOf hrow)).bind ?_ ?_
  · intro w₃ _ h₃
    refine ends_local fun w₄ _ h₄ => ends_local fun w₅ _ h₅ => ?_
    refine (ends_published _).mono fun w' r h => ⟨h.1, ?_⟩
    have hkept := h₃.2.trans (h₄.trans (h₅.trans h.2)).kept
    exact ⟨h₂.trans hkept.toAround, hkept.status.trans hstatus, fun h => by cases h⟩
  · intro w₃ e h₃
    cases h₃.1

theorem ends_deadLetter (env : Env) (attemptNumber : Nat) (errMsg : String)
    (statusCode : Option Nat) (durationMs : Int)
    (hrow : RowOf b.data.executionId b.data.jobId w) :
    (system S).Ends (answers x) (deadLetter env b.data.executionId b.data.jobId attemptNumber
      errMsg statusCode durationMs) w fun w' r => r = .ok () ∧ Left b .DEAD w w' := by
  refine ends_local fun w₁ now h₁ => ?_
  refine ends_executionUpdate (h₁.kept.rowOf hrow) _ fun w₂ y h₂ _ hstatus => ?_
  have h₂ := h₁.kept.toAround.trans h₂
  refine ends_call rfl (ends_local fun w₃ _ h₃ => ?_)
  have h₃ : SameStores w₂ w₃ := ⟨h₃.db, h₃.redis, h₃.queue, h₃.finished⟩
  refine (ends_applyCircuitBreaker b env ((h₂.trans h₃.kept.toAround).rowOf hrow)).bind ?_ ?_
  · intro w₄ _ h₄
    refine ends_publish _ fun w₅ h₅ => ?_
    refine (ends_published _).mono fun w' r h => ⟨h.1, ?_⟩
    have hkept := h₃.kept.trans (h₄.2.trans (h₅.trans h.2).kept)
    exact ⟨h₂.trans hkept.toAround, hkept.status.trans hstatus, fun h => by cases h⟩
  · intro w₄ e h₄
    cases h₄.1

/-- Where a delivery with a callback to make can end. -/
inductive Tried (b : BullJob) (w w' : World) : Except Failure Unit → Prop where
  | success (h : Left b .SUCCESS w w') : Tried b w w' (.ok ())
  | dead (h : Left b .DEAD w w') : Tried b w w' (.ok ())
  | failed (e : Failure) (hmore : b.isFinalAttempt = false) (h : Left b .FAILED w w') :
      Tried b w w' (.error e)

theorem ends_failAttempt (env : Env) (kind : FailureKind) (statusCode : Option Nat)
    (message : String) (durationMs : Int) (hrow : RowOf b.data.executionId b.data.jobId w) :
    (system S).Ends (answers x) (failAttempt env b kind statusCode message durationMs) w
      (Tried b w) := by
  refine ends_local fun w₁ _ h₁ => ?_
  have hrow₁ := h₁.kept.rowOf hrow
  split
  · refine (ends_deadLetter b env _ _ _ _ hrow₁).mono fun w' r h => ?_
    obtain ⟨rfl, h⟩ := h
    exact .dead ⟨h₁.kept.toAround.trans h.around, h.reached, fun h => by cases h⟩
  · rename_i hmore
    refine ends_local fun w₂ now h₂ => ?_
    have h₂ := h₁.trans h₂
    refine ends_executionUpdate (h₂.kept.rowOf hrow) _ fun w₃ y h₃ hjobs hstatus => ?_
    refine ends_publish _ fun w₄ h₄ => ?_
    have haround := h₂.kept.toAround.trans (h₃.trans h₄.kept.toAround)
    have hjobs : w₄.db.jobs = w.db.jobs := by rw [h₄.db, hjobs, h₂.db]
    exact .failed _ (by simpa using hmore)
      ⟨haround, h₄.kept.status.trans hstatus, fun _ => hjobs⟩

theorem ends_runAttempt (env : Env) (job : Job) (execution : Execution)
    (hrow : RowOf b.data.executionId b.data.jobId w) :
    (system S).Ends (answers x) (runAttempt env b job execution) w (Tried b w) := by
  refine ends_local fun w₁ now h₁ => ?_
  refine ends_executionUpdate (h₁.kept.rowOf hrow) _ fun w₂ y h₂ hjobs _ => ?_
  refine ends_publish _ fun w₃ h₃ => ?_
  refine (ends_invokeCallback ..).bind ?_ ?_
  · intro w₄ result h₄
    have h₄ := h₃.trans h₄.1
    have haround := h₁.kept.toAround.trans (h₂.trans h₄.kept.toAround)
    have hjobs : w₄.db.jobs = w.db.jobs := by rw [h₄.db, hjobs, h₁.db]
    have hrow₄ := haround.rowOf hrow
    have left {status : ExecutionStatus} {w' : World} (h : Left b status w₄ w') :
        Left b status w w' :=
      ⟨haround.trans h.around, h.reached, fun heq => (h.jobs heq).trans hjobs⟩
    cases result with
    | ok statusCode durationMs =>
      refine (ends_succeedExecution b statusCode durationMs hrow₄).mono fun w' r h => ?_
      obtain ⟨rfl, h⟩ := h
      exact .success (left h)
    | failed kind statusCode message durationMs =>
      refine (ends_failAttempt b env kind statusCode message durationMs hrow₄).mono ?_
      intro w' r h
      cases h with
      | success h => exact .success (left h)
      | dead h => exact .dead (left h)
      | failed e hmore h => exact .failed e hmore (left h)
  · intro w₄ e h₄
    obtain ⟨_, a, h₄⟩ := h₄
    cases h₄

/-- The job as `lookupJob` finds it. -/
def foundJob (w : World) (id : JobId) : Option Job :=
  match w.redis.get (jobConfigKey id) with
  | some (.job job) => some job
  | _ => w.db.job? id

/-- There is nothing to deliver: the job is gone or disabled, or the execution is gone. -/
def Undeliverable (w : World) (d : ExecutionJobData) : Prop :=
  (∀ job, foundJob w d.jobId = some job → job.enabled = false) ∨
    w.db.execution? d.executionId = none

theorem ends_lookupJob (id : JobId) :
    (system S).Ends (answers x) (lookupJob id) w fun w' r => w' = w ∧ r = .ok (foundJob w id) := by
  have hcached : (system S).Ends (answers x) (getCachedJob id) w fun w' r => w' = w ∧
      ∃ found, r = .ok found ∧ foundJob w id = found.or (w.db.job? id) := by
    unfold getCachedJob foundJob
    refine ends_call (a := w.redis.get (jobConfigKey id)) rfl ?_
    rcases w.redis.get (jobConfigKey id) with _ | (token | job)
    · exact ⟨rfl, none, rfl, rfl⟩
    · exact ⟨rfl, none, rfl, rfl⟩
    · exact ⟨rfl, some job, rfl, rfl⟩
  refine hcached.bind ?_ fun _ _ h => by obtain ⟨_, _, h, _⟩ := h; cases h
  intro w₁ found h
  obtain ⟨rfl, found, hfound, heq⟩ := h
  cases hfound
  rw [heq]
  cases found with
  | some job => exact ⟨rfl, rfl⟩
  | none =>
    rw [Ends, await, solo_perform]
    exact ⟨rfl, rfl⟩

/-- How the processing of a message ends. -/
inductive Processed (b : BullJob) (w w' : World) (r : Except Failure Unit) : Prop where
  | passedOver (h : Undeliverable w b.data) (hworld : w' = w) (hr : r = .ok ()) :
      Processed b w w' r
  | tried (h : ¬ Undeliverable w b.data) (htried : Tried b w w' r) : Processed b w w' r

theorem ends_processExecutionJob (env : Env)
    (hjob : ∀ y, w.db.execution? b.data.executionId = some y → y.jobId = b.data.jobId) :
    (system S).Ends (answers x) (processExecutionJob env b) w (Processed b w) := by
  refine (ends_lookupJob b.data.jobId).bind ?_ fun _ _ h => by cases h.2
  intro w₁ found h
  obtain ⟨rfl, h⟩ := h
  cases h
  cases hfound : foundJob w₁ b.data.jobId with
  | none =>
    refine .passedOver (Or.inl fun job h => ?_) rfl rfl
    rw [hfound] at h
    cases h
  | some job =>
    cases henabled : job.enabled with
    | false =>
      simp only [henabled, Bool.not_false, if_true]
      refine .passedOver (Or.inl fun job' h => ?_) rfl rfl
      rw [hfound] at h
      cases h
      exact henabled
    | true =>
      simp only [henabled, Bool.not_true, Bool.false_eq_true, if_false]
      refine ends_call (a := w₁.db.execution? b.data.executionId) rfl ?_
      cases hexecution : w₁.db.execution? b.data.executionId with
      | none => exact .passedOver (Or.inr hexecution) rfl rfl
      | some execution =>
        have hrow : RowOf b.data.executionId b.data.jobId w₁ :=
          Option.map_eq_some_iff.mpr ⟨execution, hexecution, hjob execution hexecution⟩
        refine (ends_runAttempt b env job execution hrow).mono fun w' r h => .tried ?_ h
        intro hidle
        rcases hidle with hidle | hidle
        · rw [hidle job hfound] at henabled
          cases henabled
        · rw [hidle] at hexecution
          cases hexecution

/-- What BullMQ makes of the processor's outcome. -/
def verdict (token : Token) : Except Failure Unit → Message → Message
  | .ok _ => Bull.completed token
  | .error _ => Bull.failed token

/-- The world after a change of message `m`. -/
def changed (m : Nat) (f : Message → Message) (w : World) : World :=
  { w with queue := w.queue.modify m f, finished := w.finished.after w.queue m f }

theorem ends_deliver (env : Env) (m : Nat) (token : Token)
    (hjob : ∀ y, w.db.execution? b.data.executionId = some y → y.jobId = b.data.jobId) :
    (system S).Ends (answers x) (deliver env m token b) w fun w' r => r = .ok () ∧
      ∃ w₁ r₁, Processed b w w₁ r₁ ∧ w' = changed m (verdict token r₁) w₁ := by
  refine Ends.bind (P := fun w₁ r => ∃ r₁, Processed b w w₁ r₁ ∧ r = .ok (r₁.toBool)) ?_ ?_ ?_
  · refine Ends.tryCatch
      (P := fun w₁ r => ∃ r₁, Processed b w w₁ r₁ ∧ r = r₁.map fun _ => true) ?_ ?_ ?_
    · refine (ends_processExecutionJob b env hjob).bind ?_ ?_
      · intro w₁ _ h
        exact ⟨.ok (), h, rfl⟩
      · intro w₁ failure h
        exact ⟨.error failure, h, rfl⟩
    · intro w₁ returned h
      obtain ⟨r₁, h, hr⟩ := h
      cases r₁ with
      | ok u =>
        cases hr
        exact ⟨.ok u, h, rfl⟩
      | error failure => cases hr
    · intro w₁ failure h
      obtain ⟨r₁, h, hr⟩ := h
      cases r₁ with
      | ok u => cases hr
      | error failure' => exact ⟨.error failure', h, rfl⟩
  · intro w₁ returned h
    obtain ⟨r₁, h, hr⟩ := h
    cases r₁ with
    | ok u =>
      cases hr
      exact ⟨rfl, w₁, .ok u, h, rfl⟩
    | error failure =>
      cases hr
      exact ⟨rfl, w₁, .error failure, h, rfl⟩
  · intro w₁ failure h
    obtain ⟨r₁, _, hr⟩ := h
    cases hr

end Delivery

/-! ## A message and its turn -/

/-- Nothing but message `m`, its execution and columns of jobs has changed. If the message has
finished, Redis keeps it and may have removed the oldest finished one for it. -/
structure Passed (m : Nat) (msg next : Message) (w w' : World) : Prop where
  message : w'.queue[m]? = some next
  data : next.data = msg.data
  messages : ∀ k, k ≠ m → w'.queue[k]? = w.queue[k]?
  finished : w'.finished = w.finished.reach m next.state
  redis : w'.redis = w.redis
  others : ∀ e, e ≠ msg.data.executionId → w'.db.execution? e = w.db.execution? e
  jobId : (w'.db.execution? msg.data.executionId).map (·.jobId) =
    (w.db.execution? msg.data.executionId).map (·.jobId)

theorem Passed.trans {m : Nat} {msg next last : Message} {w w₁ w' : World}
    (h : Passed m msg next w w₁) (hwaiting : next.state = .waiting)
    (h' : Passed m next last w₁ w') : Passed m msg last w w' := by
  obtain ⟨hmessage, hdata, hmessages, hfinished, hredis, hothers, hjobId⟩ := h'
  rw [h.data] at hothers hjobId
  rw [h.finished, hwaiting] at hfinished
  exact ⟨hmessage, hdata.trans h.data, fun k hk => (hmessages k hk).trans (h.messages k hk),
    hfinished, hredis.trans h.redis, fun e he => (hothers e he).trans (h.others e he),
    hjobId.trans h.jobId⟩

theorem Passed.row {m : Nat} {msg next : Message} {w w' : World} (h : Passed m msg next w w')
    {y : Execution} (hy : w'.db.execution? msg.data.executionId = some y) :
    ∃ y₀, w.db.execution? msg.data.executionId = some y₀ ∧ y₀.jobId = y.jobId := by
  have hsame := h.jobId
  rw [hy] at hsame
  exact Option.map_eq_some_iff.mp hsame.symm

/-- What has come of a message that is completed. -/
inductive Completed (d : ExecutionJobData) (w w' : World) : Prop where
  | passedOver (h : Undeliverable w d) (db : w'.db = w.db) : Completed d w w'
  | succeeded (h : ¬ Undeliverable w d) (hs : statusOf d.executionId w' = some .SUCCESS) :
      Completed d w w'
  | died (h : ¬ Undeliverable w d) (hs : statusOf d.executionId w' = some .DEAD) :
      Completed d w w'

/-- One delivery completes the message or uses up one of the attempts it has left. -/
inductive Turned (msg : Message) (w w' : World) : Message → Prop where
  | completed (next : Message) (hstate : next.state = .completed)
      (h : Completed msg.data w w') : Turned msg w w' next
  | failed (hmore : msg.attemptsMade + 1 < msg.attempts) (h : ¬ Undeliverable w msg.data)
      (hrow : w'.db.execution? msg.data.executionId ≠ none) (jobs : w'.db.jobs = w.db.jobs) :
      Turned msg w w' { msg with attemptsMade := msg.attemptsMade + 1 }

section Turn

variable {S : Setup} {w w' : World} {m : Nat} {msg : Message}

def deliveryOf (m : Nat) (x : Choice) : Turn Call Failure Task Choice Outside :=
  .task (.deliver m) (answers x)

theorem getElem?_modify_self (q : Bull) (m : Nat) (f : Message → Message) :
    (q.modify m f)[m]? = q[m]?.map f := by
  rw [Bull.modify, List.getElem?_modify]
  simp

/-- Where an unsettled message gets to is all that counts. -/
theorem finished_after {finished : FinishedJobs} {q : Bull} {f : Message → Message} {x : Message}
    (hx : q[m]? = some x) (hc : x.state ≠ .completed) (hf : x.state ≠ .failed) :
    finished.after q m f = finished.reach m (f x).state := by
  simp only [FinishedJobs.after, hx]
  split
  · rename_i hsame
    rw [hsame]
    cases hstate : x.state with
    | completed => exact absurd hstate hc
    | failed => exact absurd hstate hf
    | _ => rfl
  · rfl

/-- The world in which a worker has taken message `m`. -/
def taken (m : Nat) (w : World) : World :=
  { w with
    queue := w.queue.modify m fun x => { x with state := .active w.nextToken }
    nextToken := w.nextToken + 1 }

theorem verdict_data (token : Token) (r : Except Failure Unit) (y : Message) :
    (verdict token r y).data = y.data := by
  cases r with
  | ok u => exact Bull.completed_data token y
  | error e => exact Bull.failed_data token y

theorem passed_of_around (hm : w.queue[m]? = some msg)
    (h : Around msg.data.executionId (taken m w) w') (r : Except Failure Unit) :
    Passed m msg (verdict w.nextToken r { msg with state := .active w.nextToken }) w
      (changed m (verdict w.nextToken r) w') := by
  have hactive : w'.queue[m]? = some { msg with state := .active w.nextToken } := by
    rw [h.queue, taken, getElem?_modify_self, hm, Option.map_some]
  refine ⟨?_, verdict_data .., fun k hk => ?_, ?_, h.redis, h.others, h.jobId⟩
  · rw [changed, getElem?_modify_self, hactive, Option.map_some]
  · simp [changed, Bull.modify, h.queue, taken, Ne.symm hk]
  · have hfinished : w'.finished = w.finished := h.finished
    rw [changed, hfinished]
    exact finished_after hactive (fun hstate => by cases hstate) fun hstate => by cases hstate

theorem verdict_ok (token : Token) :
    (verdict token (.ok ()) { msg with state := .active token }).state = .completed := by
  simp [verdict, Bull.completed]

theorem verdict_error (token : Token) (e : Failure) (hwaiting : msg.state = .waiting)
    (hmore : msg.attemptsMade + 1 < msg.attempts) :
    verdict token (.error e) { msg with state := .active token } =
      { msg with attemptsMade := msg.attemptsMade + 1 } := by
  simp [verdict, Bull.failed, hmore, hwaiting]

theorem turn_deliver (hm : w.queue[m]? = some msg) (hwaiting : msg.state = .waiting)
    (hjob : ∀ y, w.db.execution? msg.data.executionId = some y → y.jobId = msg.data.jobId)
    (x : Choice) : ∃ w' next, (system S).turn (deliveryOf m x) w = some w' ∧
      Passed m msg next w w' ∧ Turned msg w w' next := by
  have hstart : (system S).start (.deliver m) w = some (taken m w,
      (deliver S.env m w.nextToken ⟨msg.data, msg.attemptsMade, some msg.attempts⟩).bind
        fun _ => .ret .done) := by
    obtain ⟨data, attempts, delay, made, stalledCount, state⟩ := msg
    subst hwaiting
    simp only [system, start, hm]
    rfl
  obtain ⟨hok, w₁, r, hprocessed, hworld⟩ := ends_deliver (S := S) (x := x) (w := taken m w)
    ⟨msg.data, msg.attemptsMade, some msg.attempts⟩ S.env m w.nextToken hjob
  have hturn : (system S).turn (deliveryOf m x) w =
      some (changed m (verdict w.nextToken r) w₁) := by
    rw [deliveryOf, turn, hstart, Option.map_some, solo_bind]
    rcases hsolo : (system S).solo (answers x) (deliver S.env m w.nextToken
      ⟨msg.data, msg.attemptsMade, some msg.attempts⟩) (taken m w) with ⟨w₂, r₂⟩
    rw [hsolo] at hok hworld
    cases hok
    exact congrArg some hworld
  have passed (h : Around msg.data.executionId (taken m w) w₁) := passed_of_around hm h r
  cases hprocessed with
  | passedOver hidle hsame hr =>
    subst hsame hr
    exact ⟨_, _, hturn, passed (SameStores.kept ⟨rfl, rfl, rfl, rfl⟩).toAround,
      .completed _ (verdict_ok _) (.passedOver hidle rfl)⟩
  | tried hidle htried =>
    cases htried with
    | success h =>
      exact ⟨_, _, hturn, passed h.around, .completed _ (verdict_ok _) (.succeeded hidle h.reached)⟩
    | dead h =>
      exact ⟨_, _, hturn, passed h.around, .completed _ (verdict_ok _) (.died hidle h.reached)⟩
    | failed e hmore h =>
      have hmore : msg.attemptsMade + 1 < msg.attempts := by
        simpa [BullJob.isFinalAttempt, BullJob.attemptNumber] using hmore
      have hpassed := passed h.around
      rw [verdict_error _ e hwaiting hmore] at hpassed
      refine ⟨_, _, hturn, hpassed, .failed hmore hidle (fun hnone => ?_) (h.jobs rfl)⟩
      have hreached := h.reached
      have hnone : w₁.db.execution? msg.data.executionId = none := hnone
      simp only [statusOf, hnone] at hreached
      cases hreached

theorem foundJob_of_same (hredis : w'.redis = w.redis) (hjobs : w'.db.jobs = w.db.jobs)
    (id : JobId) : foundJob w' id = foundJob w id := by
  simp only [foundJob, hredis, Postgres.job?, hjobs]

/-- A message that waits is completed by no more deliveries than it has attempts left. -/
theorem turns_complete (hm : w.queue[m]? = some msg) (hwaiting : msg.state = .waiting)
    (hopen : msg.attemptsMade < msg.attempts)
    (hjob : ∀ y, w.db.execution? msg.data.executionId = some y → y.jobId = msg.data.jobId)
    (xs : List Choice) (hxs : xs.length = msg.attempts - msg.attemptsMade) :
    ∃ n w' next, 0 < n ∧ n ≤ xs.length ∧
      (system S).turns ((xs.take n).map (deliveryOf m)) w = some w' ∧
      Passed m msg next w w' ∧ next.state = .completed ∧ Completed msg.data w w' := by
  induction xs generalizing w msg with
  | nil =>
    rw [List.length_nil] at hxs
    omega
  | cons x xs ih =>
    obtain ⟨w₁, next, hturn, hpassed, hturned⟩ := turn_deliver (S := S) hm hwaiting hjob x
    cases hturned with
    | completed _ hstate h =>
      exact ⟨1, w₁, next, Nat.one_pos, by simp, by simp [turns, hturn], hpassed, hstate, h⟩
    | failed hmore hidle hrow hjobs =>
      rw [List.length_cons] at hxs
      have hjob₁ (y : Execution) (hy : w₁.db.execution? msg.data.executionId = some y) :
          y.jobId = msg.data.jobId := by
        obtain ⟨y₀, hy₀, hid⟩ := hpassed.row hy
        exact hid.symm.trans (hjob y₀ hy₀)
      have hidle₁ : ¬ Undeliverable w₁ msg.data := by
        intro h
        rcases h with h | h
        · refine hidle (Or.inl fun job hfound => h job ?_)
          rw [foundJob_of_same hpassed.redis hjobs]
          exact hfound
        · exact hrow h
      obtain ⟨n, w', last, _, hle, hturns, hpassed', hstate, h⟩ :=
        ih hpassed.message hwaiting hmore hjob₁ (by dsimp only; omega)
      refine ⟨n + 1, w', last, Nat.succ_pos n, by simpa using hle, ?_,
        hpassed.trans hwaiting hpassed', hstate, ?_⟩
      · simp only [List.take_succ_cons, List.map_cons, turns, hturn, Option.bind_some]
        exact hturns
      · cases h with
        | passedOver h _ => exact absurd h hidle₁
        | succeeded _ hs => exact .succeeded hidle hs
        | died _ hs => exact .died hidle hs

end Turn

/-! ## Every state -/

/-- BullMQ finds a message stalled whose worker is gone. -/
def recovery (m : Nat) (msg : Message) : List (Turn Call Failure Task Choice Outside) :=
  match msg.state with
  | .active _ => [.outside (.stall m)]
  | _ => []

/-- Another stall fails the message. -/
def Message.StalledOut (msg : Message) : Prop :=
  (∃ token, msg.state = .active token) ∧ maxStalledCount ≤ msg.stalledCount

/-- How a message gets settled, by so many deliveries. -/
inductive Settles (msg next : Message) (w w' : World) : Nat → Prop where
  | completed {n : Nat} (hlimit : ¬ msg.StalledOut) (hpos : 0 < n)
      (hstate : next.state = .completed) (h : Completed msg.data w w') : Settles msg next w w' n
  | stalledOut (hlimit : msg.StalledOut) (hstate : next.state = .failed) (hdb : w'.db = w.db) :
      Settles msg next w w' 0

/-- What is known of the messages in a run. -/
structure Deliverable (w : World) : Prop where
  openMessages : ∀ msg ∈ w.queue, msg.Open
  rows : ∀ msg ∈ w.queue, ∀ y, w.db.execution? msg.data.executionId = some y →
    y.jobId = msg.data.jobId
  distinct : (w.queue.map fun msg => msg.data.executionId).Nodup

theorem Deliverable.of_reachable {S : Setup} {jobs : List Job} {hjobs : (jobs.map (·.id)).Nodup}
    {clock : Nat → Int} {s : SystemState} (hr : Reachable S (.initial jobs hjobs clock) s) :
    Deliverable s.world := by
  have hnamed := rowsNamed_of_reachable hr
  constructor
  · intro msg hmsg
    obtain ⟨m, hm⟩ := List.mem_iff_getElem?.mp hmsg
    exact ((Budget.of_reachable hr).within m msg hm).1
  · intro msg hmsg y hy
    obtain ⟨i, x, hx, hid, hjob⟩ := hnamed.queued msg.data (List.mem_map_of_mem hmsg)
    have hyid : y.id = msg.data.executionId := by simpa using List.find?_some hy
    rw [← hjob]
    exact (hnamed.inserted i x hx).2 y (List.mem_of_find?_eq_some hy) (hyid.trans hid.symm)
  · have hnodup := (SentOnce.of_reachable hr).nodup
    rwa [messageIds, List.map_map] at hnodup

section Recovered

variable {S : Setup} {w : World} {m : Nat} {msg : Message}

theorem passed_stalled (hm : w.queue[m]? = some msg) {token : Token}
    (hactive : msg.state = .active token) :
    Passed m msg (Bull.stalled msg) w (changed m Bull.stalled w) := by
  refine ⟨?_, Bull.stalled_data msg, fun k hk => ?_, ?_, rfl, fun _ _ => rfl, rfl⟩
  · rw [changed, getElem?_modify_self, hm, Option.map_some]
  · simp [changed, Bull.modify, Ne.symm hk]
  · exact finished_after hm (by simp [hactive]) (by simp [hactive])

/-- Once it waits again, if it must and may, a message is completed in its turns. -/
theorem turns_settle (hw : Deliverable w) (hm : w.queue[m]? = some msg)
    (hunsettled : ¬ msg.Settled) (xs : List Choice)
    (hxs : xs.length = msg.attempts - msg.attemptsMade) :
    ∃ n w' next, n ≤ xs.length ∧
      (system S).turns (recovery m msg ++ (xs.take n).map (deliveryOf m)) w = some w' ∧
      Passed m msg next w w' ∧ Settles msg next w w' n := by
  have hmem := List.mem_of_getElem? hm
  have hopen := hw.openMessages msg hmem
  have hjob := hw.rows msg hmem
  cases hstate : msg.state with
  | waiting =>
    simp only [Message.Open, hstate] at hopen
    have hlimit : ¬ msg.StalledOut := by
      intro h
      obtain ⟨⟨token, htoken⟩, _⟩ := h
      cases hstate.symm.trans htoken
    obtain ⟨n, w', next, hpos, hle, hturns, hpassed, hcompleted, h⟩ :=
      turns_complete (S := S) hm hstate hopen hjob xs hxs
    simp only [recovery, hstate, List.nil_append]
    exact ⟨n, w', next, hle, hturns, hpassed, .completed hlimit hpos hcompleted h⟩
  | active token =>
    simp only [Message.Open, hstate] at hopen
    have hstall : (system S).turn (.outside (.stall m)) w = some (changed m Bull.stalled w) := rfl
    have hpassed := passed_stalled hm hstate
    simp only [recovery, hstate, List.cons_append, List.nil_append, turns, hstall,
      Option.bind_some]
    by_cases hlimit : msg.stalledCount < maxStalledCount
    · have hnext : Bull.stalled msg =
          { msg with stalledCount := msg.stalledCount + 1, state := .waiting } := by
        simp only [Bull.stalled, hstate, if_pos hlimit]
      rw [hnext] at hpassed
      obtain ⟨n, w', next, hpos, hle, hturns, hpassed', hcompleted, h⟩ :=
        turns_complete (S := S) hpassed.message rfl hopen hjob xs hxs
      refine ⟨n, w', next, hle, hturns, hpassed.trans rfl hpassed',
        .completed (fun h => absurd hlimit (Nat.not_lt.mpr h.2)) hpos hcompleted ?_⟩
      cases h with
      | passedOver h hdb => exact .passedOver h hdb
      | succeeded h hs => exact .succeeded h hs
      | died h hs => exact .died h hs
    · have hfailed : (Bull.stalled msg).state = .failed := by
        simp only [Bull.stalled, hstate, if_neg hlimit]
      exact ⟨0, _, _, Nat.zero_le _, rfl, hpassed,
        .stalledOut ⟨⟨token, hstate⟩, Nat.not_lt.mp hlimit⟩ hfailed rfl⟩
  | completed => exact absurd (Or.inl hstate) hunsettled
  | failed => exact absurd (Or.inr hstate) hunsettled

end Recovered

/-- In every reachable state each message that is not settled can be, by no more deliveries than
it has attempts left and whatever its callbacks come to, and its execution is then SUCCESS or DEAD,
or was left as it is because its job was disabled or one of the two was gone. A message that has
been found stalled before and is active may only fail: its execution stays as it is. -/
theorem message_settles {S : Setup} {jobs : List Job} {hjobs : (jobs.map (·.id)).Nodup}
    {clock : Nat → Int} {s : SystemState} (hr : Reachable S (.initial jobs hjobs clock) s)
    {m : Nat} {msg : Message} (hm : s.world.queue[m]? = some msg) (hunsettled : ¬ msg.Settled)
    (xs : List Choice) (hxs : xs.length = msg.attempts - msg.attemptsMade) :
    ∃ n s' next, n ≤ xs.length ∧
      (system S).TakesTurns s (recovery m msg ++ (xs.take n).map (deliveryOf m)) s' ∧
      Passed m msg next s.world s'.world ∧ Settles msg next s.world s'.world n := by
  obtain ⟨n, w', next, hle, hturns, hpassed, h⟩ :=
    turns_settle (S := S) (.of_reachable hr) hm hunsettled xs hxs
  obtain ⟨s', hs', rfl⟩ := takesTurns_of_turns hturns
  exact ⟨n, s', next, hle, hs', hpassed, h⟩

/-! ## The whole queue -/

/-- What has come of message `m`, when the turns `l` have led from `w` to `w'`. -/
inductive Fate (S : Setup) (m : Nat) (msg next : Message) (w w' : World)
    (l : List (Turn Call Failure Task Choice Outside)) : Prop where
  | before (h : msg.Settled) (hsame : next = msg)
      (hrow : w'.db.execution? msg.data.executionId = w.db.execution? msg.data.executionId) :
      Fate S m msg next w w' l
  | stalledOut (h : msg.StalledOut) (hstate : next.state = .failed)
      (hrow : w'.db.execution? msg.data.executionId = w.db.execution? msg.data.executionId) :
      Fate S m msg next w w' l
  /-- The first of its deliveries came when the world was `w₁`. -/
  | delivered (l₁ l₂ : List (Turn Call Failure Task Choice Outside)) (x : Choice) (w₁ : World)
      (hl : l = l₁ ++ (recovery m msg ++ deliveryOf m x :: l₂))
      (hw₁ : (system S).turns l₁ w = some w₁) (h : ¬ msg.StalledOut)
      (hstate : next.state = .completed)
      (hrow : (Undeliverable w₁ msg.data ∧
          w'.db.execution? msg.data.executionId = w.db.execution? msg.data.executionId) ∨
        (¬ Undeliverable w₁ msg.data ∧ (statusOf msg.data.executionId w' = some .SUCCESS ∨
          statusOf msg.data.executionId w' = some .DEAD))) : Fate S m msg next w w' l

/-- What a message of `w` has become in `w'`. -/
structure Drained (S : Setup) (m : Nat) (msg next : Message) (w w' : World)
    (l : List (Turn Call Failure Task Choice Outside)) : Prop where
  data : next.data = msg.data
  settled : next.Settled
  fate : Fate S m msg next w w' l

section Queue

variable {S : Setup} {w w₁ w' : World} {m : Nat} {msg next : Message}

theorem Passed.map_data (hm : w.queue[m]? = some msg) (h : Passed m msg next w w') :
    w'.queue.map (·.data) = w.queue.map (·.data) := by
  apply List.ext_getElem?
  intro k
  rw [List.getElem?_map, List.getElem?_map]
  by_cases hk : k = m
  · rw [hk, h.message, hm, Option.map_some, Option.map_some, h.data]
  · rw [h.messages k hk]

theorem Deliverable.passed (hw : Deliverable w) (hm : w.queue[m]? = some msg)
    (h : Passed m msg next w w') (hopen : next.Open) : Deliverable w' := by
  have old {y : Message} (hy : y ∈ w'.queue) : y = next ∨ y ∈ w.queue := by
    obtain ⟨k, hk⟩ := List.mem_iff_getElem?.mp hy
    by_cases hkm : k = m
    · rw [hkm, h.message] at hk
      exact Or.inl (Option.some.inj hk).symm
    · rw [h.messages k hkm] at hk
      exact Or.inr (List.mem_of_getElem? hk)
  have row {d : ExecutionJobData}
      (hd : ∀ y, w.db.execution? d.executionId = some y → y.jobId = d.jobId) :
      ∀ y, w'.db.execution? d.executionId = some y → y.jobId = d.jobId := by
    intro y hy
    by_cases he : d.executionId = msg.data.executionId
    · rw [he] at hy
      obtain ⟨y₀, hy₀, hid⟩ := h.row hy
      rw [← he] at hy₀
      exact hid.symm.trans (hd y₀ hy₀)
    · rw [h.others _ he] at hy
      exact hd y hy
  constructor
  · intro y hy
    rcases old hy with rfl | hy
    · exact hopen
    · exact hw.openMessages y hy
  · intro y hy
    rcases old hy with rfl | hy
    · rw [h.data]
      exact row (hw.rows msg (List.mem_of_getElem? hm))
    · exact row (hw.rows y hy)
  · have hids : w'.queue.map (fun y => y.data.executionId) =
        w.queue.map fun y => y.data.executionId := by
      have hdata := congrArg (List.map (·.executionId)) (h.map_data hm)
      rwa [List.map_map, List.map_map] at hdata
    rw [hids]
    exact hw.distinct

theorem Deliverable.distinct_ids (hw : Deliverable w) {k : Nat} {other : Message}
    (hm : w.queue[m]? = some msg) (hk : w.queue[k]? = some other) (hne : k ≠ m) :
    other.data.executionId ≠ msg.data.executionId := by
  intro heq
  have hget {n : Nat} {y : Message} (hy : w.queue[n]? = some y) :
      (w.queue.map fun y => y.data.executionId)[n]? = some y.data.executionId := by
    rw [List.getElem?_map, hy]
    rfl
  have hlt := (List.getElem?_eq_some_iff.mp (hget hk)).1
  exact hne ((List.getElem?_inj hlt hw.distinct).mp (by rw [hget hk, hget hm, heq]))

theorem Drained.append {l l' : List (Turn Call Failure Task Choice Outside)}
    (h : Drained S m msg next w w₁ l)
    (hrow : w'.db.execution? msg.data.executionId = w₁.db.execution? msg.data.executionId) :
    Drained S m msg next w w' (l ++ l') := by
  refine ⟨h.data, h.settled, ?_⟩
  cases h.fate with
  | before hsettled hsame hold => exact .before hsettled hsame (hrow.trans hold)
  | stalledOut hlimit hstate hold => exact .stalledOut hlimit hstate (hrow.trans hold)
  | delivered l₁ l₂ x w₂ hl hw₂ hlimit hstate hold =>
    refine .delivered l₁ (l₂ ++ l') x w₂ (by simp [hl]) hw₂ hlimit hstate ?_
    simp only [statusOf, hrow]
    exact hold

/-- The turns `l` have drained the first `n` messages of `w`. -/
structure DrainedUpTo (S : Setup) (n : Nat) (w w' : World)
    (l : List (Turn Call Failure Task Choice Outside)) : Prop where
  turns : (system S).turns l w = some w'
  deliverable : Deliverable w'
  ahead : ∀ k msg, n ≤ k → w.queue[k]? = some msg → w'.queue[k]? = some msg ∧
    w'.db.execution? msg.data.executionId = w.db.execution? msg.data.executionId
  done : ∀ k msg, k < n → w.queue[k]? = some msg →
    ∃ next, w'.queue[k]? = some next ∧ Drained S k msg next w w' l

section Step

variable {l : List (Turn Call Failure Task Choice Outside)}

theorem DrainedUpTo.data (h : DrainedUpTo S m w w' l) {k : Nat} (hk : w.queue[k]? = some msg) :
    ∃ next, w'.queue[k]? = some next ∧ next.data = msg.data := by
  by_cases hlt : k < m
  · obtain ⟨next, hnext, hdrained⟩ := h.done k msg hlt hk
    exact ⟨next, hnext, hdrained.data⟩
  · exact ⟨msg, (h.ahead k msg (by omega) hk).1, rfl⟩

/-- The turns of message `m` leave the others as they are. -/
theorem DrainedUpTo.step (h : DrainedUpTo S m w w₁ l) (hm : w.queue[m]? = some msg)
    {own : List (Turn Call Failure Task Choice Outside)}
    (hown : (system S).turns own w₁ = some w') (hpassed : Passed m msg next w₁ w')
    (hdrained : Drained S m msg next w w' (l ++ own)) :
    DrainedUpTo S (m + 1) w w' (l ++ own) := by
  obtain ⟨hm₁, _⟩ := h.ahead m msg (Nat.le_refl m) hm
  have hopen : next.Open := by
    rcases hdrained.settled with hstate | hstate <;> simp only [Message.Open, hstate]
  have other {k : Nat} {y : Message} (hk : w.queue[k]? = some y) (hne : k ≠ m) :
      y.data.executionId ≠ msg.data.executionId := by
    obtain ⟨y₁, hy₁, hdata⟩ := h.data hk
    have hids := h.deliverable.distinct_ids hm₁ hy₁ hne
    rwa [hdata] at hids
  constructor
  · rw [turns_append, h.turns]
    exact hown
  · exact h.deliverable.passed hm₁ hpassed hopen
  · intro k y hk hy
    have hne : k ≠ m := by omega
    obtain ⟨hy₁, hrow₁⟩ := h.ahead k y (by omega) hy
    exact ⟨(hpassed.messages k hne).trans hy₁,
      (hpassed.others _ (other hy hne)).trans hrow₁⟩
  · intro k y hk hy
    by_cases hne : k = m
    · subst hne
      cases hm.symm.trans hy
      exact ⟨next, hpassed.message, hdrained⟩
    · obtain ⟨next', hnext', hdrained'⟩ := h.done k y (by omega) hy
      exact ⟨next', (hpassed.messages k hne).trans hnext',
        hdrained'.append (hpassed.others _ (other hy hne))⟩

end Step

end Queue

/-- A delivery stops after its callback; the message stays active. -/
def abandonedRun : List SystemEvent :=
  [.begin .tick] ++ List.replicate 4 (Sample.answered 0) ++
    [.begin (.deliver 0)] ++ List.replicate 6 (Sample.answered 1) ++ [.stop 1]

def abandonedMessage : Message := ⟨⟨0, "job-1", .time 60000⟩, 4, 1000, 0, 0, .active 1⟩

theorem message_settles_abandoned : ∃ s : SystemState,
    s.world.queue[0]? = some abandonedMessage ∧ ∃ n s' next, n ≤ 4 ∧
      (system Sample.setup).TakesTurns s (recovery 0 abandonedMessage ++
        ((List.replicate 4 {}).take n).map (deliveryOf 0)) s' ∧
      Passed 0 abandonedMessage next s.world s'.world ∧
        Settles abandonedMessage next s.world s'.world n := by
  have hrun : ((system Sample.setup).run (.fresh Sample.world) abandonedRun).map
      (fun s => s.world.queue[0]?) = some (some abandonedMessage) := by decide +kernel
  obtain ⟨s, hs, hm⟩ := Option.map_eq_some_iff.mp hrun
  have hr : Reachable Sample.setup Sample.world s := .of_run hs fun _ _ _ => trivial
  have hunsettled : ¬ abandonedMessage.Settled := by
    intro h
    rcases h with h | h <;> cases h
  exact ⟨s, hm, message_settles hr hm hunsettled (List.replicate 4 {}) rfl⟩

end CronHive
