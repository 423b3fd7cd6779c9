import CronHive.Async.Transcript
import CronHive.Deliveries

/-!
# The protocol of one delivery

A delivery looks up its job and its execution, marks the row RUNNING, announces the start,
makes one callback, writes the outcome and announces it. A dead-letter entry, the breaker and
an alert follow a DEAD. Any call that fails, the callback apart, ends the attempt there.
-/

namespace CronHive

set_option autoImplicit false

open Async Async.Prog Async.Machine

/-! ## Reports -/

structure Report where
  attemptNumber : Nat
  status : ExecutionStatus
  responseCode : Option Nat
  durationMs : Int
  errorMessage : Option String
  deriving DecidableEq, Repr

namespace Report

def update (report : Report) (now : Int) : ExecutionUpdate where
  status := report.status
  finishedAt := some (some now)
  responseCode := some report.responseCode
  durationMs := some (some report.durationMs)
  errorMessage := some report.errorMessage

def ofUpdate (n : Nat) (data : ExecutionUpdate) : Report where
  attemptNumber := n
  status := data.status
  responseCode := data.responseCode.join
  durationMs := data.durationMs.join.getD 0
  errorMessage := data.errorMessage.join

@[simp] theorem ofUpdate_update (report : Report) (now : Int) :
    ofUpdate report.attemptNumber (report.update now) = report := rfl

def payload (d : ExecutionJobData) (report : Report) : JobFinishedPayload :=
  ⟨d.jobId, d.executionId, report.status, report.responseCode, report.durationMs,
    report.attemptNumber⟩

def error (report : Report) : String := report.errorMessage.getD ""

def deadLetter (d : ExecutionJobData) (report : Report) : DeadLetterJobData :=
  ⟨d.executionId, d.jobId, "max_retries_exceeded", report.error⟩

def deadAlert (d : ExecutionJobData) (report : Report) : JobAlertPayload :=
  ⟨d.jobId, d.executionId, .dead,
    s!"Execution DEAD after {report.attemptNumber} attempts: {report.error}"⟩

/-- The report is about a callback that ended with `r`. -/
inductive Of (report : Report) : Except Failure Nat → Prop where
  | succeeded {code : Nat} (hok : responseOk code = true) (hstatus : report.status = .SUCCESS)
      (hcode : report.responseCode = some code) (herror : report.errorMessage = none) :
      Of report (.ok code)
  | refused {code : Nat} (hok : responseOk code = false)
      (hstatus : report.status = .FAILED ∨ report.status = .DEAD)
      (hcode : report.responseCode = some code)
      (herror : report.errorMessage = some s!"http_error: HTTP {code}") : Of report (.ok code)
  | failed {e : Failure} (hstatus : report.status = .FAILED ∨ report.status = .DEAD)
      (hcode : report.responseCode = none)
      (herror : report.errorMessage = some (if e = .abortError then "timeout: Callback timeout"
        else s!"network: {e.message}")) : Of report (.error e)

end Report

inductive CallbackResult.Of : CallbackResult → Except Failure Nat → Prop where
  | ok {code : Nat} (hok : responseOk code = true) (durationMs : Int) :
      Of (.ok code durationMs) (.ok code)
  | httpError {code : Nat} (hok : responseOk code = false) (durationMs : Int) :
      Of (.failed .httpError (some code) s!"HTTP {code}" durationMs) (.ok code)
  | timeout (durationMs : Int) :
      Of (.failed .timeout none "Callback timeout" durationMs) (.error .abortError)
  | network {e : Failure} (he : e ≠ .abortError) (durationMs : Int) :
      Of (.failed .network none e.message durationMs) (.error e)

theorem wp_invokeCallback_of {σ : Type} {m : Monitor Call.Reply Failure σ} {st : σ}
    {url : String} {body : CallbackBody} {timeoutMs : Nat}
    {Q : σ → Except Failure CallbackResult → Prop} (hp : m.permits st (.fetch url body timeoutMs))
    (hq : ∀ r, m.admits st (.fetch url body timeoutMs) r →
      ∀ result : CallbackResult, result.Of r →
        Q (m.next st (.fetch url body timeoutMs) r) (.ok result)) :
    (invokeCallback url body timeoutMs).wp m st Q := by
  unfold invokeCallback
  simp only [bind_eq, wp_bind, wp_dateNow, tryCatch_eq, wp_tryCatch, wp_call]
  refine fun started => ⟨hp, fun r hr => ?_⟩
  cases r with
  | ok code =>
    dsimp only
    intro finished
    split
    · rename_i hok
      exact hq _ hr _ (.ok hok _)
    · rename_i hok
      exact hq _ hr _ (.httpError (by simpa using hok) _)
  | error e =>
    dsimp only
    intro finished
    split
    · rename_i he
      subst he
      exact hq _ hr _ (.timeout _)
    · rename_i he
      exact hq _ hr _ (.network he _)

/-! ## Phases -/

/-- How far a delivery has come. -/
inductive DeliveryPhase where
  | looking
  /-- the job is found enabled -/
  | allowed (job : Job)
  /-- the execution is found -/
  | ready (job : Job) (execution : Execution)
  /-- RUNNING is written -/
  | marked (job : Job) (execution : Execution) (attemptNumber : Nat)
  /-- `job.started` is published -/
  | started (job : Job) (execution : Execution) (attemptNumber : Nat)
  /-- the callback is made -/
  | called (attemptNumber : Nat) (r : Except Failure Nat)
  /-- the outcome is written -/
  | recorded (report : Report)
  /-- after SUCCESS: the dead streak is reset -/
  | cleared (report : Report)
  /-- after DEAD: the dead letter is added -/
  | buried (report : Report)
  /-- the dead streak is one longer -/
  | counted (report : Report) (row : Job)
  /-- the job is disabled -/
  | opened (report : Report)
  /-- the breaker is done -/
  | settled (report : Report)
  /-- `job.failed` is published for a DEAD -/
  | mourned (report : Report)
  /-- the processor has returned, or thrown -/
  | finished (returned : Bool)
  | closed

def circuitAlert (env : Env) (d : ExecutionJobData) : JobAlertPayload :=
  ⟨d.jobId, d.executionId, .circuitOpen,
    s!"Job disabled after {env.circuitBreakerConsecutiveDead} consecutive DEAD executions"⟩

namespace DeliveryPhase

inductive Permits (env : Env) (d : ExecutionJobData) : DeliveryPhase → Call → Prop where
  | cache : Permits env d .looking (.redisGet (jobConfigKey d.jobId))
  | job : Permits env d .looking (.jobFindUnique d.jobId)
  | execution (job : Job) : Permits env d (.allowed job) (.executionFindUnique d.executionId)
  | running (job : Job) (execution : Execution) (n : Nat) (now : Int) :
      Permits env d (.ready job execution)
        (.executionUpdate d.executionId
          { status := .RUNNING
            startedAt := some (some (execution.startedAt.getD now))
            attemptNumber := some n
            finishedAt := some none })
  | started (job : Job) (execution : Execution) (n : Nat) :
      Permits env d (.marked job execution n)
        (.redisPublish (.jobStarted ⟨d.jobId, d.executionId, n, execution.triggerSource⟩))
  | callback (job : Job) (execution : Execution) (n : Nat) :
      Permits env d (.started job execution n) (.fetch job.callbackUrl
        ⟨job.id, job.name, d.executionId, n, execution.triggeredAt⟩ job.callbackTimeoutMs)
  | outcome {report : Report} {r : Except Failure Nat} (h : report.Of r) (now : Int) :
      Permits env d (.called report.attemptNumber r)
        (.executionUpdate d.executionId (report.update now))
  | reset {report : Report} (h : report.status = .SUCCESS) :
      Permits env d (.recorded report)
        (.jobUpdate d.jobId { consecutiveDeadCount := some (.set 0) })
  | success (report : Report) :
      Permits env d (.cleared report) (.redisPublish (.jobSuccess (report.payload d)))
  | failed {report : Report} (h : report.status = .FAILED) :
      Permits env d (.recorded report) (.redisPublish (.jobFailed (report.payload d)))
  | deadLetter {report : Report} (h : report.status = .DEAD) :
      Permits env d (.recorded report) (.deadLetterAdd (report.deadLetter d))
  | increment (report : Report) :
      Permits env d (.buried report)
        (.jobUpdate d.jobId { consecutiveDeadCount := some (.increment 1) })
  | disable (report : Report) {row : Job}
      (h : env.circuitBreakerConsecutiveDead ≤ row.consecutiveDeadCount) :
      Permits env d (.counted report row) (.jobUpdate d.jobId { enabled := some false })
  | circuitAlert (report : Report) :
      Permits env d (.opened report) (.redisPublish (.jobAlert (circuitAlert env d)))
  | closed (report : Report) {row : Job}
      (h : row.consecutiveDeadCount < env.circuitBreakerConsecutiveDead) :
      Permits env d (.counted report row) (.redisPublish (.jobFailed (report.payload d)))
  | dead (report : Report) :
      Permits env d (.settled report) (.redisPublish (.jobFailed (report.payload d)))
  | deadAlert (report : Report) :
      Permits env d (.mourned report) (.redisPublish (.jobAlert (report.deadAlert d)))
  | completed (m : Nat) (token : Token) :
      Permits env d (.finished true) (.moveToCompleted m token)
  | thrown (m : Nat) (token : Token) :
      Permits env d (.finished false) (.moveToFailed m token)

def ofJob (job : Job) : DeliveryPhase := if job.enabled then .allowed job else .finished true

def next : DeliveryPhase → (c : Call) → Except Failure c.Reply → DeliveryPhase
  | .looking, .redisGet _, .ok value =>
      match value with
      | some (.job job) => ofJob job
      | _ => .looking
  | .looking, .jobFindUnique _, .ok row =>
      match row with
      | some job => ofJob job
      | none => .finished true
  | .allowed job, .executionFindUnique _, .ok row =>
      match row with
      | some execution => .ready job execution
      | none => .finished true
  | .ready job execution, .executionUpdate _ data, .ok _ =>
      .marked job execution (data.attemptNumber.getD 0)
  | .marked job execution n, .redisPublish _, .ok _ => .started job execution n
  | .started _ _ n, .fetch _ _ _, r => .called n r
  | .called n _, .executionUpdate _ data, .ok _ => .recorded (.ofUpdate n data)
  | .recorded report, .jobUpdate _ _, .ok _ => .cleared report
  | .cleared _, .redisPublish _, .ok _ => .finished true
  | .recorded report, .deadLetterAdd _, .ok _ => .buried report
  | .buried report, .jobUpdate _ _, .ok row => .counted report row
  | .counted report _, .jobUpdate _ _, .ok _ => .opened report
  | .opened report, .redisPublish _, .ok _ => .settled report
  | .counted report _, .redisPublish _, .ok _ => .mourned report
  | .settled report, .redisPublish _, .ok _ => .mourned report
  | .mourned _, .redisPublish _, .ok _ => .finished true
  | .finished _, _, _ => .closed
  | _, _, _ => .finished false

end DeliveryPhase

/-- The calls of a delivery of `d`, one after the other. -/
def protocol (env : Env) (d : ExecutionJobData) : Monitor Call.Reply Failure DeliveryPhase where
  permits := DeliveryPhase.Permits env d
  admits _ _ _ := True
  next := DeliveryPhase.next

section Programs

variable {env : Env} {b : BullJob}

/-- A processor that has returned or thrown leaves BullMQ to say so. -/
def Concludes (st : DeliveryPhase) (r : Except Failure Unit) : Prop :=
  (∀ a, r = .ok a → st = .finished true) ∧ ∀ e, r = .error e → st = .finished false

theorem concludes_ok (a : Unit) : Concludes (.finished true) (.ok a) :=
  ⟨fun _ _ => rfl, fun _ he => by cases he⟩

theorem concludes_error (e : Failure) : Concludes (.finished false) (.error e) :=
  ⟨fun _ ha => (by cases ha), fun _ _ => rfl⟩

theorem protocol_succeedExecution {code : Nat} (hok : responseOk code = true) (ms : Int) :
    (succeedExecution b code ms).wp (protocol env b.data) (.called b.attemptNumber (.ok code))
      Concludes := by
  intro now
  have hreport : (Report.mk b.attemptNumber .SUCCESS (some code) ms none).Of (.ok code) :=
    .succeeded hok rfl rfl rfl
  refine (wp_call_bind ..).mpr ⟨.outcome hreport now, fun _ _ => ?_, fun e _ => concludes_error e⟩
  refine (wp_bind ..).mpr ((wp_call_bind ..).mpr ⟨.reset rfl, fun _ _ => ?_, fun e _ => ?_⟩)
  · refine (wp_bind ..).mpr ((wp_inc ..).mpr ((wp_bind ..).mpr ((wp_inc ..).mpr ?_)))
    refine (wp_call ..).mpr ⟨.success _, fun r _ => ?_⟩
    cases r with
    | ok a => exact concludes_ok a
    | error e => exact concludes_error e
  · exact concludes_error e

theorem protocol_applyCircuitBreaker (report : Report) :
    (applyCircuitBreaker env b.data.jobId b.data.executionId).wp (protocol env b.data)
      (.buried report) fun st r =>
        (∀ u, r = .ok u → st = .settled report ∨ ∃ row, st = .counted report row ∧
          row.consecutiveDeadCount < env.circuitBreakerConsecutiveDead) ∧
        ∀ e, r = .error e → st = .finished false := by
  have hfail {st : DeliveryPhase} (hst : st = .finished false) (e : Failure) :
      (∀ u : Unit, (.error e : Except Failure Unit) = .ok u → st = .settled report ∨
        ∃ row, st = .counted report row ∧
          row.consecutiveDeadCount < env.circuitBreakerConsecutiveDead) ∧
      ∀ e', (.error e : Except Failure Unit) = .error e' → st = .finished false :=
    ⟨fun _ hu => (by cases hu), fun _ _ => hst⟩
  refine (wp_call_bind ..).mpr ⟨.increment report, fun row _ => ?_, fun e _ => hfail rfl e⟩
  split
  · rename_i hopen
    refine (wp_call_bind ..).mpr ⟨.disable report hopen, fun _ _ => ?_, fun e _ => hfail rfl e⟩
    refine (wp_bind ..).mpr ((wp_inc ..).mpr ?_)
    refine (wp_call ..).mpr ⟨.circuitAlert report, fun r _ => ?_⟩
    cases r with
    | ok _ => exact ⟨fun _ _ => Or.inl rfl, fun _ he => by cases he⟩
    | error e => exact hfail rfl e
  · rename_i hclosed
    exact ⟨fun _ _ => Or.inr ⟨row, rfl, Nat.lt_of_not_le hclosed⟩, fun _ he => by cases he⟩

theorem protocol_deadLetter (report : Report) {r : Except Failure Nat} {errMsg : String}
    (hn : report.attemptNumber = b.attemptNumber) (hof : report.Of r)
    (hdead : report.status = .DEAD) (herror : report.errorMessage = some errMsg) :
    (deadLetter env b.data.executionId b.data.jobId b.attemptNumber errMsg report.responseCode
      report.durationMs).wp (protocol env b.data) (.called b.attemptNumber r) Concludes := by
  obtain ⟨n, status, code, ms, error⟩ := report
  cases hn
  cases hdead
  cases herror
  intro now
  refine (wp_call_bind ..).mpr ⟨.outcome hof now, fun _ _ => ?_, fun e _ => concludes_error e⟩
  refine (wp_call_bind ..).mpr ⟨.deadLetter rfl, fun _ _ => ?_, fun e _ => concludes_error e⟩
  refine (wp_bind ..).mpr ((wp_inc ..).mpr ((wp_bind ..).mpr ?_))
  refine wp_mono ?_ (protocol_applyCircuitBreaker _)
  have halert : (publishEvent (.jobAlert ⟨b.data.jobId, b.data.executionId, .dead,
      s!"Execution DEAD after {b.attemptNumber} attempts: {errMsg}"⟩)).wp (protocol env b.data)
      (.mourned ⟨b.attemptNumber, .DEAD, code, ms, some errMsg⟩) Concludes := by
    refine (wp_call ..).mpr ⟨.deadAlert ⟨b.attemptNumber, .DEAD, code, ms, some errMsg⟩, ?_⟩
    intro r _
    cases r with
    | ok a => exact concludes_ok a
    | error e => exact concludes_error e
  intro st r hr
  cases r with
  | error e =>
    cases hr.2 e rfl
    exact concludes_error e
  | ok u =>
    rcases hr.1 u rfl with rfl | ⟨row, rfl, hclosed⟩
    · exact (wp_call_bind ..).mpr ⟨.dead _, fun _ _ => halert, fun e _ => concludes_error e⟩
    · exact (wp_call_bind ..).mpr ⟨.closed _ hclosed, fun _ _ => halert,
        fun e _ => concludes_error e⟩

theorem protocol_failAttempt {kind : FailureKind} {code : Option Nat} {message : String} {ms : Int}
    {r : Except Failure Nat} (hof : (CallbackResult.failed kind code message ms).Of r) :
    (failAttempt env b kind code message ms).wp (protocol env b.data) (.called b.attemptNumber r)
      Concludes := by
  have hreport (status : ExecutionStatus) (hstatus : status = .FAILED ∨ status = .DEAD) :
      (Report.mk b.attemptNumber status code ms (some s!"{kind.text}: {message}")).Of r := by
    cases hof with
    | httpError hok _ => exact .refused hok hstatus rfl rfl
    | timeout _ => exact .failed hstatus rfl rfl
    | network he _ => exact .failed hstatus rfl (by rw [if_neg he]; rfl)
  refine (wp_bind ..).mpr ((wp_inc ..).mpr ?_)
  dsimp only
  split
  · exact protocol_deadLetter ⟨_, .DEAD, code, ms, _⟩ rfl (hreport _ (Or.inr rfl)) rfl rfl
  · intro now
    refine (wp_call_bind ..).mpr ⟨.outcome (hreport .FAILED (Or.inl rfl)) now, fun _ _ => ?_,
      fun e _ => concludes_error e⟩
    exact (wp_call_bind ..).mpr ⟨.failed rfl, fun _ _ => concludes_error _,
      fun e _ => concludes_error e⟩

theorem protocol_runAttempt (job : Job) (execution : Execution) :
    (runAttempt env b job execution).wp (protocol env b.data) (.ready job execution) Concludes := by
  intro now
  refine (wp_call_bind ..).mpr ⟨.running job execution _ now, fun _ _ => ?_,
    fun e _ => concludes_error e⟩
  refine (wp_call_bind ..).mpr ⟨.started job execution _, fun _ _ => ?_,
    fun e _ => concludes_error e⟩
  refine (wp_bind ..).mpr (wp_invokeCallback_of (.callback job execution _) ?_)
  intro r _ result hof
  cases result with
  | ok code ms =>
    cases hof with
    | ok hok _ => exact protocol_succeedExecution hok ms
  | failed kind code message ms =>
    cases r <;> exact protocol_failAttempt hof

structure Looked (st : DeliveryPhase) (r : Except Failure (Option Job)) : Prop where
  found : ∀ job, r = .ok (some job) → st = .ofJob job
  missing : r = .ok none → st = .finished true
  failed : ∀ e, r = .error e → st = .finished false

theorem looked_found (job : Job) : Looked (.ofJob job) (.ok (some job)) where
  found job' h := by
    cases h
    rfl
  missing h := by cases h
  failed e h := by cases h

theorem looked_missing : Looked (.finished true) (.ok none) where
  found job h := by cases h
  missing _ := rfl
  failed e h := by cases h

theorem looked_failed (e : Failure) : Looked (.finished false) (.error e) where
  found job h := by cases h
  missing h := by cases h
  failed _ _ := rfl

theorem protocol_lookupJob :
    (lookupJob b.data.jobId).wp (protocol env b.data) .looking Looked := by
  have hfind : (await (.jobFindUnique b.data.jobId)).wp (protocol env b.data) .looking Looked := by
    refine (wp_call ..).mpr ⟨.job, fun r _ => ?_⟩
    rcases r with e | _ | job
    · exact looked_failed e
    · exact looked_missing
    · exact looked_found job
  refine (wp_bind ..).mpr ((wp_call_bind ..).mpr ⟨.cache, fun value _ => ?_, ?_⟩)
  · rcases value with _ | (token | job)
    · exact hfind
    · exact hfind
    · exact looked_found job
  · exact fun e _ => looked_failed e

theorem protocol_processExecutionJob :
    (processExecutionJob env b).wp (protocol env b.data) .looking Concludes := by
  refine (wp_bind ..).mpr (wp_mono ?_ protocol_lookupJob)
  intro st r hr
  rcases r with e | _ | job
  · cases hr.failed e rfl
    exact concludes_error e
  · cases hr.missing rfl
    exact concludes_ok ()
  · cases hr.found job rfl
    dsimp only
    split
    · rename_i hdisabled
      rw [DeliveryPhase.ofJob, if_neg (by simpa using hdisabled)]
      exact concludes_ok ()
    · rename_i henabled
      rw [DeliveryPhase.ofJob, if_pos (by simpa using henabled)]
      refine (wp_call_bind ..).mpr ⟨.execution job, fun found _ => ?_, fun e _ => concludes_error e⟩
      cases found with
      | none => exact concludes_ok ()
      | some execution => exact protocol_runAttempt job execution

/-- A delivery keeps to the protocol up to its end. -/
theorem protocol_deliver (message : Nat) (token : Token) :
    (deliver env message token b).wp (protocol env b.data) .looking fun st _ => st = .closed := by
  refine (wp_bind ..).mpr ((wp_tryCatch ..).mpr ((wp_bind ..).mpr ?_))
  refine wp_mono ?_ protocol_processExecutionJob
  intro st r hr
  cases r with
  | ok u =>
    cases hr.1 u rfl
    exact (wp_call ..).mpr ⟨.completed message token, fun _ _ => rfl⟩
  | error e =>
    cases hr.2 e rfl
    exact (wp_call ..).mpr ⟨.thrown message token, fun _ _ => rfl⟩

end Programs

/-! ## Transcripts of deliveries -/

section Runs

variable {S : Setup} {w₀ : World} {s s' : SystemState}

/-- Whatever a delivery has called so far, the protocol has allowed. -/
theorem delivery_follows (hr : Reachable S w₀ s) {i : Nat} {d : ExecutionJobData}
    (hd : delivering s i = some d) :
    (protocol S.env d).Follows .looking (transcript i s.trace) := by
  induction hr generalizing i d with
  | refl => simp [delivering, State.fresh] at hd
  | @tail s s' e hr _ hs ih =>
    have hold (hsame : transcript i s'.trace = transcript i s.trace) :
        (protocol S.env d).Follows .looking (transcript i s'.trace) := by
      rw [hsame]
      by_cases hi : i < s.threads.length
      · exact ih ((delivering_old hr hs hi).symm.trans hd)
      · have hnone : transcript i s.trace = [] :=
          Monitor.log.stateAt_of_absent [] fun op reply seen hm => hi (hr.numbered _ _ _ _ hm)
        rw [hnone]
        trivial
    rcases hs.stateAt Monitor.log i [] with hsame | ⟨tag, c, k, o, hi, rfl, rfl, hnext⟩
    · exact hold hsame
    · have hlt : i < s.threads.length := (List.getElem?_eq_some_iff.mp hi).1
      have hbefore := (delivering_old hr hs hlt).symm.trans hd
      obtain ⟨m, hm, _⟩ := delivering_iff.mp hbefore
      cases (Live.tag hi).symm.trans hm
      have hwp := delivered_monitored (protocol S.env) .looking (fun st => st = .closed)
        (fun _ _ _ _ => trivial) (fun m token b => protocol_deliver m token) hr hi hbefore
      rw [Monitor.stateAt_transcript] at hwp
      rw [transcript, hnext]
      exact (Monitor.follows_append _).mpr ⟨ih hbefore, hwp.1⟩

end Runs

end CronHive
