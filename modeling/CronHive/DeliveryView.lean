import CronHive.Async.Views
import CronHive.System

/-!
# One delivery, seen from its message

The view of a message is what its deliveries rely on and change: the message itself, the
job's switch and counter, the status of the execution, the callbacks made for it and its
dead letters. One delivery makes one callback and takes the view to one of three outcomes.
-/

namespace CronHive

set_option autoImplicit false

open Async Async.Prog

structure View where
  message : Message
  enabled : Bool
  deadCount : Nat
  status : ExecutionStatus
  attemptNumber : Nat
  /-- the attempt numbers of the callbacks made -/
  calls : List Nat
  deadLetters : List DeadLetterJobData

/-- A delivery has the message. -/
def View.Taken (v : View) : Prop := v.message.state ≠ .waiting

/-- The world looks like `v` from message `m`. -/
structure Looks (m : Nat) (w : World) (v : View) : Prop where
  message : w.queue[m]? = some v.message
  job : ∃ row, w.db.job? v.message.data.jobId = some row ∧ row.enabled = v.enabled ∧
    row.consecutiveDeadCount = v.deadCount
  cache : ∀ job, w.redis.get (jobConfigKey v.message.data.jobId) = some (.job job) → job.enabled
  execution : ∃ x, w.db.execution? v.message.data.executionId = some x ∧ x.status = v.status ∧
    x.attemptNumber = v.attemptNumber
  calls : (w.fetches.filter fun f => f.body.executionId = v.message.data.executionId).map
    (·.body.attemptNumber) = v.calls
  deadLetters : (w.deadLetters.filter fun d => d.executionId = v.message.data.executionId) =
    v.deadLetters

/-- The callback of each attempt ends as `outcomes` says. -/
def answersWith (outcomes : Nat → HttpOutcome) : Call → Choice → Prop
  | .fetch _ body _, x => x.exchange.outcome = outcomes body.attemptNumber
  | _, _ => True

theorem answersWith_total (outcomes : Nat → HttpOutcome) (c : Call) :
    ∃ x, answersWith outcomes c x := by
  cases c with
  | fetch url body timeoutMs => exact ⟨{ exchange := ⟨[], outcomes body.attemptNumber⟩ }, rfl⟩
  | _ => exact ⟨{}, trivial⟩

/-- The callback counts as a success: `res.ok`. -/
def HttpOutcome.succeeds : HttpOutcome → Bool
  | .response status => responseOk status
  | _ => false

/-- From a world that looks like `v` the program leads to `Q`, whatever the others do that
does not show. -/
abbrev Leads (m : Nat) (outcomes : Nat → HttpOutcome) {α : Type} (p : Promise α) (v : View)
    (Q : View → Except Failure α → Prop) : Prop :=
  p.wpView (Looks m) (answersWith outcomes) View.Taken World.exec World.eval v Q

section Rules

variable {m : Nat} {outcomes : Nat → HttpOutcome} {v : View}

theorem looks_eval (l : Local) (w : World) (v : View) (h : Looks m w v) :
    Looks m (World.eval l w).1 v := by
  obtain ⟨hmessage, hjob, hcache, hexecution, hcalls, hdead⟩ := h
  exact ⟨by rwa [World.eval_queue], by rwa [World.eval_db], by rwa [World.eval_redis],
    by rwa [World.eval_db], by rwa [World.eval_fetches], by rwa [World.eval_deadLetters]⟩

theorem leads_call {c : Call} {α : Type} {f : c.Reply → Promise α}
    {Q : View → Except Failure α → Prop} (hv : v.Taken)
    (h : ∀ w x, Looks m w v → answersWith outcomes c x → ∃ v' a,
      Looks m (World.exec c x w).1 v' ∧ (World.exec c x w).2 = .ok a ∧
        Leads m outcomes (f a) v' Q) : Leads m outcomes ((await c).bind f) v Q := by
  refine ⟨hv, fun w x hw hx => ?_⟩
  obtain ⟨v', a, hv', ha, hf⟩ := h w x hw hx
  refine ⟨v', hv', ?_⟩
  rw [ha]
  exact hf

/-- A call that the view does not show. -/
theorem leads_hidden {c : Call} {α : Type} {f : c.Reply → Promise α}
    {Q : View → Except Failure α → Prop} {a : c.Reply} (hv : v.Taken)
    (h : ∀ w x, Looks m w v → Looks m (World.exec c x w).1 v ∧ (World.exec c x w).2 = .ok a)
    (hf : Leads m outcomes (f a) v Q) : Leads m outcomes ((await c).bind f) v Q :=
  leads_call hv fun w x hw _ => ⟨v, a, (h w x hw).1, (h w x hw).2, hf⟩

theorem leads_now {α : Type} {f : Int → Promise α} {Q : View → Except Failure α → Prop}
    (h : ∀ now, Leads m outcomes (f now) v Q) : Leads m outcomes (dateNow.bind f) v Q :=
  wpView_bind (wpView_effect looks_eval h)

theorem leads_inc {x : Metric} {α : Type} {f : Unit → Promise α}
    {Q : View → Except Failure α → Prop} (h : Leads m outcomes (f ()) v Q) :
    Leads m outcomes ((inc x).bind f) v Q :=
  wpView_bind (wpView_effect looks_eval fun _ => h)

theorem leads_publish {msg : SocketEvent} {α : Type} {f : Unit → Promise α}
    {Q : View → Except Failure α → Prop} (hv : v.Taken) (h : Leads m outcomes (f ()) v Q) :
    Leads m outcomes ((publishEvent msg).bind f) v Q := by
  refine leads_hidden hv (fun w x hw => ⟨?_, rfl⟩) h
  exact ⟨hw.message, hw.job, hw.cache, hw.execution, hw.calls, hw.deadLetters⟩

theorem leads_published {msg : SocketEvent} {Q : View → Except Failure Unit → Prop}
    (hv : v.Taken) (h : Q v (.ok ())) : Leads m outcomes (publishEvent msg) v Q := by
  refine wpView_perform hv fun w x hw _ => ⟨v, ?_, h⟩
  exact ⟨hw.message, hw.job, hw.cache, hw.execution, hw.calls, hw.deadLetters⟩

theorem leads_executionUpdate {id : ExecutionId} {data : ExecutionUpdate}
    (hv : v.Taken) (hid : v.message.data.executionId = id) {α : Type}
    {f : Execution → Promise α} {Q : View → Except Failure α → Prop}
    (h : ∀ x, Leads m outcomes (f x)
      { v with
        status := data.status
        attemptNumber := data.attemptNumber.getD v.attemptNumber } Q) :
    Leads m outcomes ((await (.executionUpdate id data)).bind f) v Q := by
  refine leads_call hv fun w x hw _ => ?_
  obtain ⟨row, hrow, hstatus, hattempt⟩ := hw.execution
  rw [hid] at hrow
  have hnew := Postgres.execution?_executionUpdate data hrow
  refine ⟨_, data.apply row, ?_, ?_, h _⟩
  · refine ⟨hw.message, ?_, hw.cache, ⟨data.apply row, ?_, rfl, ?_⟩, hw.calls, hw.deadLetters⟩
    · have hjobs : (w.db.executionUpdate id data).1.jobs = w.db.jobs := by
        simp only [Postgres.executionUpdate, hrow]
        rfl
      obtain ⟨job, hjob, hrest⟩ := hw.job
      refine ⟨job, ?_, hrest⟩
      simp only [Postgres.job?, World.exec, World.withDb, hjobs]
      exact hjob
    · rw [hid]
      exact hnew
    · simp only [ExecutionUpdate.apply, hattempt]
  · simp only [World.exec, World.withDb, Postgres.executionUpdate, hrow]

theorem leads_jobUpdate {id : JobId} {data : JobUpdate} (hv : v.Taken)
    (hid : v.message.data.jobId = id)
    {α : Type} {f : Job → Promise α} {Q : View → Except Failure α → Prop}
    (h : ∀ row, row.consecutiveDeadCount =
        (data.consecutiveDeadCount.map (·.apply v.deadCount)).getD v.deadCount →
      Leads m outcomes (f row)
        { v with
          enabled := data.enabled.getD v.enabled
          deadCount := (data.consecutiveDeadCount.map (·.apply v.deadCount)).getD v.deadCount } Q) :
    Leads m outcomes ((await (.jobUpdate id data)).bind f) v Q := by
  refine leads_call hv fun w x hw _ => ?_
  obtain ⟨row, hrow, henabled, hcount⟩ := hw.job
  rw [hid] at hrow
  have hnew := Postgres.job?_jobUpdate data hrow
  have hcount' : (data.apply row).consecutiveDeadCount =
      (data.consecutiveDeadCount.map (·.apply v.deadCount)).getD v.deadCount := by
    simp only [JobUpdate.apply, hcount]
  refine ⟨_, data.apply row, ?_, ?_, h _ hcount'⟩
  · refine ⟨hw.message, ⟨data.apply row, ?_, ?_, hcount'⟩, hw.cache, ?_, hw.calls,
      hw.deadLetters⟩
    · rw [hid]
      exact hnew
    · simp only [JobUpdate.apply, henabled]
    · have hexecs : (w.db.jobUpdate id data).1.executions = w.db.executions := by
        simp only [Postgres.jobUpdate, hrow]
        rfl
      obtain ⟨y, hy, hrest⟩ := hw.execution
      refine ⟨y, ?_, hrest⟩
      simp only [Postgres.execution?, World.exec, World.withDb, hexecs]
      exact hy
  · simp only [World.exec, World.withDb, Postgres.jobUpdate, hrow]

/-- Cache or table: the lookup finds an enabled job. -/
theorem leads_lookupJob (hv : v.Taken) (henabled : v.enabled = true) :
    Leads m outcomes (lookupJob v.message.data.jobId) v fun v' r =>
      v' = v ∧ ∃ job, r = .ok (some job) ∧ job.enabled = true := by
  have hfind : Leads m outcomes (await (.jobFindUnique v.message.data.jobId)) v fun v' r =>
      v' = v ∧ ∃ job, r = .ok (some job) ∧ job.enabled = true := by
    refine wpView_perform hv fun w x hw _ => ⟨v, hw, rfl, ?_⟩
    obtain ⟨row, hrow, hrest⟩ := hw.job
    exact ⟨row, congrArg _ hrow, hrest.1.trans henabled⟩
  refine wpView_bind (leads_call hv fun w x hw _ => ⟨v, _, hw, rfl, ?_⟩)
  cases hget : w.redis.get (jobConfigKey v.message.data.jobId) with
  | none => exact hfind
  | some value =>
    cases value with
    | token t => exact hfind
    | job job => exact ⟨rfl, job, rfl, hw.cache job hget⟩

/-- The callback is made once, under the attempt's number, and ends as it was to. -/
theorem leads_invokeCallback {url : String} {body : CallbackBody} {timeoutMs : Nat}
    (hv : v.Taken) (hid : v.message.data.executionId = body.executionId) {α : Type}
    {f : CallbackResult → Promise α} {Q : View → Except Failure α → Prop}
    (hok : (outcomes body.attemptNumber).succeeds = true → ∀ status durationMs,
      Leads m outcomes (f (.ok status durationMs))
        { v with calls := v.calls ++ [body.attemptNumber] } Q)
    (hfail : (outcomes body.attemptNumber).succeeds = false → ∀ kind status message durationMs,
      Leads m outcomes (f (.failed kind status message durationMs))
        { v with calls := v.calls ++ [body.attemptNumber] } Q) :
    Leads m outcomes ((invokeCallback url body timeoutMs).bind f) v Q := by
  refine wpView_bind ?_
  refine leads_now fun started => ?_
  refine wpView_tryCatch (wpView_bind (wpView_perform hv fun w x hw hx => ?_))
  refine ⟨{ v with calls := v.calls ++ [body.attemptNumber] }, ?_, ?_⟩
  · refine ⟨hw.message, hw.job, hw.cache, hw.execution, ?_, hw.deadLetters⟩
    simp only [World.exec, List.filter_append, List.map_append, hw.calls]
    simp [hid]
  · have hreply : (World.exec (.fetch url body timeoutMs) x w).2 = x.exchange.reply := rfl
    rw [hreply]
    have houtcome : x.exchange.outcome = outcomes body.attemptNumber := hx
    unfold Exchange.reply
    rw [houtcome]
    cases ho : outcomes body.attemptNumber with
    | response status =>
      refine leads_now fun finished => ?_
      cases hstatus : responseOk status with
      | true => exact hok (by rw [ho]; exact hstatus) _ _
      | false => exact hfail (by rw [ho]; exact hstatus) _ _ _ _
    | aborted =>
      refine leads_now fun finished => ?_
      exact hfail (by rw [ho]; rfl) _ _ _ _
    | failed message =>
      refine leads_now fun finished => ?_
      exact hfail (by rw [ho]; rfl) _ _ _ _

/-! ## The functions of the worker -/

variable {b : BullJob}

theorem leads_succeedExecution (hv : v.Taken) (hdata : v.message.data = b.data) (statusCode : Nat)
    (durationMs : Int) : Leads m outcomes (succeedExecution b statusCode durationMs) v fun v' r =>
      v' = { v with status := .SUCCESS, deadCount := 0 } ∧ r = .ok () := by
  refine leads_now fun now => leads_executionUpdate hv (by rw [hdata]) fun _ => ?_
  refine wpView_bind (leads_jobUpdate (by exact hv) (by rw [hdata]) fun _ _ => ?_)
  refine leads_inc (leads_inc ?_)
  exact leads_published (by exact hv) ⟨rfl, rfl⟩

theorem leads_deadLetterAdd {data : DeadLetterJobData} (hv : v.Taken)
    (hid : v.message.data.executionId = data.executionId) {α : Type} {f : Unit → Promise α}
    {Q : View → Except Failure α → Prop}
    (h : Leads m outcomes (f ()) { v with deadLetters := v.deadLetters ++ [data] } Q) :
    Leads m outcomes ((await (.deadLetterAdd data)).bind f) v Q := by
  refine leads_call hv fun w x hw _ => ⟨_, (), ?_, rfl, h⟩
  refine ⟨hw.message, hw.job, hw.cache, hw.execution, hw.calls, ?_⟩
  simp only [World.exec, List.filter_append, hw.deadLetters]
  simp [hid]

/-- The counter goes up by one, and the job may be disabled. -/
theorem leads_applyCircuitBreaker (hv : v.Taken) (env : Env) (executionId : ExecutionId) :
    Leads m outcomes (applyCircuitBreaker env v.message.data.jobId executionId) v fun v' r =>
      (∃ enabled, v' = { v with enabled := enabled, deadCount := v.deadCount + 1 }) ∧
        r = .ok () := by
  refine leads_jobUpdate hv rfl fun row hrow => ?_
  dsimp only
  split
  · refine leads_jobUpdate (by exact hv) rfl fun _ _ => ?_
    refine leads_inc (leads_published (by exact hv) ?_)
    exact ⟨⟨false, rfl⟩, rfl⟩
  · exact ⟨⟨v.enabled, rfl⟩, rfl⟩

theorem leads_deadLetter (hv : v.Taken) (env : Env) (attemptNumber : Nat) (errMsg : String)
    (statusCode : Option Nat) (durationMs : Int) :
    Leads m outcomes (deadLetter env v.message.data.executionId v.message.data.jobId attemptNumber
      errMsg statusCode durationMs) v fun v' r =>
      (∃ enabled, v' = { v with
        status := .DEAD
        enabled := enabled
        deadCount := v.deadCount + 1
        deadLetters := v.deadLetters ++ [⟨v.message.data.executionId, v.message.data.jobId,
          "max_retries_exceeded", errMsg⟩] }) ∧ r = .ok () := by
  refine leads_now fun now => leads_executionUpdate hv rfl fun _ => ?_
  refine leads_deadLetterAdd (by exact hv) rfl (leads_inc ?_)
  refine wpView_bind (wpView_mono ?_ (leads_applyCircuitBreaker (by exact hv) env _))
  intro v' r hv'
  obtain ⟨⟨enabled, rfl⟩, rfl⟩ := hv'
  exact leads_publish (by exact hv) (leads_published (by exact hv) ⟨⟨enabled, rfl⟩, rfl⟩)

/-- The view when the callback of attempt `n` has been made. -/
def View.called (v : View) (n : Nat) : View :=
  { v with status := .RUNNING, attemptNumber := n, calls := v.calls ++ [n] }

/-- What one attempt makes of the view, and whether the processor throws. -/
inductive Attempted (outcomes : Nat → HttpOutcome) (b : BullJob) (v : View) :
    View → Except Failure Unit → Prop where
  | succeeded (h : (outcomes b.attemptNumber).succeeds = true) :
      Attempted outcomes b v
        { v.called b.attemptNumber with status := .SUCCESS, deadCount := 0 } (.ok ())
  | dead (h : (outcomes b.attemptNumber).succeeds = false) (hfinal : b.isFinalAttempt = true)
      (enabled : Bool) (lastError : String) :
      Attempted outcomes b v
        { v.called b.attemptNumber with
          status := .DEAD
          enabled := enabled
          deadCount := v.deadCount + 1
          deadLetters := v.deadLetters ++
            [⟨v.message.data.executionId, v.message.data.jobId, "max_retries_exceeded",
              lastError⟩] }
        (.ok ())
  | failed (h : (outcomes b.attemptNumber).succeeds = false) (hfinal : b.isFinalAttempt = false)
      (e : Failure) :
      Attempted outcomes b v { v.called b.attemptNumber with status := .FAILED } (.error e)

theorem leads_runAttempt (hv : v.Taken) (env : Env) (hdata : v.message.data = b.data) (job : Job)
    (execution : Execution) :
    Leads m outcomes (runAttempt env b job execution) v (Attempted outcomes b v) := by
  have hcalled : (v.called b.attemptNumber).message.data = b.data := hdata
  refine leads_now fun now => leads_executionUpdate hv (by rw [hdata]) fun _ => ?_
  refine leads_publish (by exact hv) (leads_invokeCallback (by exact hv) (by rw [hdata]) ?_ ?_)
  · intro hok status durationMs
    refine wpView_mono ?_ (leads_succeedExecution (by exact hv) hcalled status durationMs)
    intro v' r hv'
    obtain ⟨rfl, rfl⟩ := hv'
    exact .succeeded hok
  · intro hfail kind status message durationMs
    refine leads_inc ?_
    dsimp only
    split
    · rename_i hfinal
      rw [← hcalled]
      refine wpView_mono ?_ (leads_deadLetter (by exact hv) env _ _ _ _)
      intro v' r hv'
      obtain ⟨⟨enabled, rfl⟩, rfl⟩ := hv'
      exact .dead hfail hfinal enabled _
    · rename_i hfinal
      refine leads_now fun now => ?_
      refine leads_executionUpdate (by exact hv) (by rw [← hcalled]; rfl) fun _ => ?_
      refine leads_publish (by exact hv) ?_
      exact .failed hfail (by simpa using hfinal) _

theorem leads_processExecutionJob (hv : v.Taken) (env : Env) (hdata : v.message.data = b.data)
    (henabled : v.enabled = true) :
    Leads m outcomes (processExecutionJob env b) v (Attempted outcomes b v) := by
  unfold processExecutionJob
  rw [← hdata]
  refine wpView_bind (wpView_mono ?_ (leads_lookupJob hv henabled))
  intro v' r hr
  obtain ⟨rfl, job, rfl, hjob⟩ := hr
  dsimp only
  rw [hjob]
  refine leads_call hv fun w x hw _ => ?_
  obtain ⟨row, hrow, _⟩ := hw.execution
  exact ⟨v', some row, hw, congrArg _ hrow, leads_runAttempt hv env hdata job row⟩

/-! ## The delivery -/

/-- What the processor is given of a message. -/
def Message.bullJob (x : Message) : BullJob := ⟨x.data, x.attemptsMade, some x.attempts⟩

/-- What one delivery makes of the view of a message that it took. -/
inductive Delivered (outcomes : Nat → HttpOutcome) (v : View) : View → Prop where
  | succeeded (h : (outcomes (v.message.attemptsMade + 1)).succeeds = true) :
      Delivered outcomes v
        { v.called (v.message.attemptsMade + 1) with
          message := { v.message with state := .completed }
          status := .SUCCESS
          deadCount := 0 }
  | dead (h : (outcomes (v.message.attemptsMade + 1)).succeeds = false)
      (hlast : v.message.attempts ≤ v.message.attemptsMade + 1) (enabled : Bool)
      (lastError : String) :
      Delivered outcomes v
        { v.called (v.message.attemptsMade + 1) with
          message := { v.message with state := .completed }
          status := .DEAD
          enabled := enabled
          deadCount := v.deadCount + 1
          deadLetters := v.deadLetters ++
            [⟨v.message.data.executionId, v.message.data.jobId, "max_retries_exceeded",
              lastError⟩] }
  | failed (h : (outcomes (v.message.attemptsMade + 1)).succeeds = false)
      (hmore : v.message.attemptsMade + 1 < v.message.attempts) :
      Delivered outcomes v
        { v.called (v.message.attemptsMade + 1) with
          message :=
            { v.message with attemptsMade := v.message.attemptsMade + 1, state := .waiting }
          status := .FAILED }

/-- BullMQ's verdict on a message that is still the delivery's own. -/
theorem looks_modify {w : World} {f : Message → Message} (finished : FinishedJobs)
    (hf : ∀ x, (f x).data = x.data) (h : Looks m w v) :
    Looks m { w with queue := w.queue.modify m f, finished := finished }
      { v with message := f v.message } := by
  have hdata := hf v.message
  refine ⟨?_, by rw [hdata]; exact h.job, by rw [hdata]; exact h.cache,
    by rw [hdata]; exact h.execution, by rw [hdata]; exact h.calls,
    by rw [hdata]; exact h.deadLetters⟩
  have hmessage := h.message
  simp only [Bull.modify, List.getElem?_modify, hmessage]
  simp

theorem looks_completed {w : World} {token : Token} {finished : FinishedJobs} (h : Looks m w v)
    (hactive : v.message.state = .active token) :
    Looks m { w with queue := w.queue.modify m (Bull.completed token), finished := finished }
      { v with message := { v.message with state := .completed } } := by
  have hcompleted : Bull.completed token v.message = { v.message with state := .completed } :=
    if_pos hactive
  rw [← hcompleted]
  exact looks_modify _ (Bull.completed_data token) h

theorem looks_failed {w : World} {token : Token} {finished : FinishedJobs} (h : Looks m w v)
    (hactive : v.message.state = .active token)
    (hmore : v.message.attemptsMade + 1 < v.message.attempts) :
    Looks m { w with queue := w.queue.modify m (Bull.failed token), finished := finished }
      { v with
        message :=
          { v.message with attemptsMade := v.message.attemptsMade + 1, state := .waiting } } := by
  have hfailed : Bull.failed token v.message =
      { v.message with attemptsMade := v.message.attemptsMade + 1, state := .waiting } := by
    unfold Bull.failed
    rw [if_pos hactive, if_pos hmore]
  rw [← hfailed]
  exact looks_modify _ (Bull.failed_data token) h

theorem leads_deliver (env : Env) {token : Token} (hactive : v.message.state = .active token)
    (henabled : v.enabled = true) :
    Leads m outcomes (deliver env m token v.message.bullJob) v fun v' _ =>
      Delivered outcomes v v' := by
  have hv : v.Taken := by
    unfold View.Taken
    rw [hactive]
    simp
  refine wpView_bind (wpView_tryCatch (wpView_bind ?_))
  refine wpView_mono ?_ (leads_processExecutionJob hv (b := v.message.bullJob) env rfl henabled)
  intro v' r hv'
  cases hv' with
  | succeeded h =>
    refine wpView_perform (by exact hv) fun w x hw _ => ⟨_, looks_completed hw hactive, ?_⟩
    exact .succeeded h
  | dead h hfinal enabled lastError =>
    refine wpView_perform (by exact hv) fun w x hw _ => ⟨_, looks_completed hw hactive, ?_⟩
    have hlast : v.message.attempts ≤ v.message.attemptsMade + 1 := by
      simpa [BullJob.isFinalAttempt, BullJob.attemptNumber, Message.bullJob] using hfinal
    exact .dead h hlast enabled lastError
  | failed h hfinal e =>
    have hmore : v.message.attemptsMade + 1 < v.message.attempts := by
      simpa [BullJob.isFinalAttempt, BullJob.attemptNumber, Message.bullJob] using hfinal
    refine wpView_perform (by exact hv) fun w x hw _ => ⟨_, looks_failed hw hactive hmore, ?_⟩
    exact .failed h hmore

end Rules

end CronHive
