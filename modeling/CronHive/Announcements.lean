import CronHive.Async.Meter
import CronHive.Async.Tally
import CronHive.Circuit
import CronHive.DeadStreak
import CronHive.Deliveries

/-!
# Announced openings

`applyCircuitBreaker` announces every update of its own as an opening, and its test is met
again by each execution that is dead-lettered after the threshold, so the announcements are as
many as the openings as long as each of those updates finds the job enabled.
-/

namespace CronHive

set_option autoImplicit false

open Async Async.Prog Async.Machine

/-! ## What a delivery counts -/

/-- One opening is counted after each disabling update of a worker. -/
def circuitMeter : Meter Call.Reply Local Failure where
  cost
    | .inc .circuitOpen => 1
    | _ => 0
  due
    | .jobUpdate _ data, .ok _ => if data = disable then 1 else 0
    | _, _ => 0

theorem circuitMeter_due {c : Call} (h : ∀ id, c ≠ .jobUpdate id disable)
    (r : Except Failure c.Reply) : circuitMeter.due c r = 0 := by
  cases c with
  | jobUpdate id data =>
    cases r with
    | error e => rfl
    | ok row => exact if_neg fun hdata => h id (by rw [hdata])
  | _ => rfl

theorem spends_await {c : Call} (h : ∀ id, c ≠ .jobUpdate id disable) :
    (await c).Spends circuitMeter 0 := spends_perform (circuitMeter_due h)

theorem spends_inc {x : Metric} (h : x ≠ .circuitOpen) : (inc x).Spends circuitMeter 0 := by
  cases x with
  | circuitOpen => exact absurd rfl h
  | _ => exact spends_effect _

theorem spends_dateNow : dateNow.Spends circuitMeter 0 := spends_effect _

section Metered

variable (env : Env) (b : BullJob)

theorem spends_applyCircuitBreaker (jobId : JobId) (executionId : ExecutionId) :
    (applyCircuitBreaker env jobId executionId).Spends circuitMeter 0 := by
  refine Spends.bind (spends_await nofun) fun row => ?_
  split
  · refine spends_perform_bind (fun _ => ?_) fun _ => rfl
    exact spends_effect_bind (n := 0) fun _ => spends_await nofun
  · exact spends_ret _

theorem spends_deadLetter (attemptNumber : Nat) (errMsg : String) (statusCode : Option Nat)
    (durationMs : Int) : (deadLetter env b.data.executionId b.data.jobId attemptNumber errMsg
      statusCode durationMs).Spends circuitMeter 0 := by
  refine Spends.bind spends_dateNow fun now => Spends.bind (spends_await nofun) fun _ => ?_
  refine Spends.bind (spends_await nofun) fun _ => Spends.bind (spends_inc nofun) fun _ => ?_
  refine Spends.bind (spends_applyCircuitBreaker env _ _) fun _ => ?_
  exact Spends.bind (spends_await nofun) fun _ => spends_await nofun

theorem spends_succeedExecution (statusCode : Nat) (durationMs : Int) :
    (succeedExecution b statusCode durationMs).Spends circuitMeter 0 := by
  refine Spends.bind spends_dateNow fun now => Spends.bind (spends_await nofun) fun _ => ?_
  have hreset : (resetDeadStreak b.data.jobId).Spends circuitMeter 0 :=
    Spends.bind (spends_await fun id h => by cases h) fun _ => spends_ret _
  refine Spends.bind hreset fun _ => ?_
  refine Spends.bind (spends_inc nofun) fun _ => Spends.bind (spends_inc nofun) fun _ => ?_
  exact spends_await nofun

theorem spends_failAttempt (kind : FailureKind) (statusCode : Option Nat) (message : String)
    (durationMs : Int) :
    (failAttempt env b kind statusCode message durationMs).Spends circuitMeter 0 := by
  refine Spends.bind (spends_inc nofun) fun _ => ?_
  split
  · exact spends_deadLetter env b _ _ _ _
  · refine Spends.bind spends_dateNow fun now => Spends.bind (spends_await nofun) fun _ => ?_
    exact Spends.bind (spends_await nofun) fun _ => spends_fail _

theorem spends_invokeCallback (url : String) (body : CallbackBody) (timeoutMs : Nat) :
    (invokeCallback url body timeoutMs).Spends circuitMeter 0 := by
  refine Spends.bind spends_dateNow fun started => Spends.tryCatch ?_ fun e => ?_
  · refine Spends.bind (spends_await nofun) fun status => ?_
    refine Spends.bind spends_dateNow fun finished => ?_
    split <;> exact spends_ret _
  · refine Spends.bind spends_dateNow fun finished => ?_
    split <;> exact spends_ret _

theorem spends_runAttempt (job : Job) (execution : Execution) :
    (runAttempt env b job execution).Spends circuitMeter 0 := by
  refine Spends.bind spends_dateNow fun now => Spends.bind (spends_await nofun) fun _ => ?_
  refine Spends.bind (spends_await nofun) fun _ => ?_
  refine Spends.bind (spends_invokeCallback _ _ _) fun result => ?_
  cases result with
  | ok statusCode durationMs => exact spends_succeedExecution b _ _
  | failed kind statusCode message durationMs => exact spends_failAttempt env b _ _ _ _

theorem spends_lookupJob (jobId : JobId) : (lookupJob jobId).Spends circuitMeter 0 := by
  refine Spends.bind (Spends.bind (spends_await nofun) fun value => ?_) fun cached => ?_
  · split <;> exact spends_ret _
  · cases cached with
    | some job => exact spends_ret _
    | none => exact spends_await nofun

theorem spends_processExecutionJob : (processExecutionJob env b).Spends circuitMeter 0 := by
  refine Spends.bind (spends_lookupJob _) fun job => ?_
  cases job with
  | none => exact spends_ret _
  | some job =>
    dsimp only
    split
    · exact spends_ret _
    · refine Spends.bind (spends_await nofun) fun execution => ?_
      cases execution with
      | none => exact spends_ret _
      | some execution => exact spends_runAttempt env b job execution

theorem spends_deliver (message : Nat) (token : Token) :
    (deliver env message token b).Spends circuitMeter 0 := by
  refine Spends.bind (Spends.tryCatch ?_ fun e => spends_ret _) fun returned => ?_
  · exact Spends.bind (spends_processExecutionJob env b) fun _ => spends_ret _
  · split <;> exact spends_await nofun

end Metered

/-! ## Openings, increments and alerts -/

/-- The streak and the enabled column of `j`. -/
def Postgres.circuitRow (db : Postgres) (j : JobId) : Option (Nat × Bool) :=
  (db.job? j).map fun job => (job.consecutiveDeadCount, job.enabled)

def columnEnabled (s : SystemState) (j : JobId) : Option Bool :=
  (s.world.db.job? j).map (·.enabled)

/-- The thread that takes the step. -/
def actor (s : SystemState) : SystemEvent → Option Nat
  | .begin _ => some s.threads.length
  | .resume i _ => some i
  | _ => none

/-- What the step's thread delivers. -/
def delivered (s : SystemState) (e : SystemEvent) (s' : SystemState) : Option ExecutionJobData :=
  (actor s e).bind (delivering s')

/-- 1 if the enabled column of `j` goes from true to false by a worker's update. -/
def opens (j : JobId) (s : SystemState) (e : SystemEvent) (s' : SystemState) : Nat :=
  if columnEnabled s j = some true ∧ columnEnabled s' j = some false ∧ (delivered s e s').isSome
  then 1 else 0

def circuitOpenTotal (w : World) : Nat := w.metrics .circuitOpen

/-- What a delivery of an execution of `j` adds to `circuitOpenTotal`. -/
def meters (j : JobId) (s : SystemState) (e : SystemEvent) (s' : SystemState) : Nat :=
  if (delivered s e s').map (·.jobId) = some j
  then circuitOpenTotal s'.world - circuitOpenTotal s.world else 0

def openings (S : Setup) (j : JobId) : SystemState → List SystemEvent → Nat :=
  (system S).tally (opens j)

def increments (S : Setup) (j : JobId) : SystemState → List SystemEvent → Nat :=
  (system S).tally (meters j)

/-- The `circuit_open` alerts published for `j`. -/
def alerts (s : SystemState) (j : JobId) : Nat :=
  s.world.published.countP fun msg => msg.announces j

/-- How many executions of `j` have been counted dead. -/
def deadCounts (s : SystemState) (j : JobId) : Nat :=
  s.trace.countP fun x => deadMark j x = .counts

/-- No delivery is between the threshold test and the end of the `applyCircuitBreaker` of `j`. -/
def BreakersOver (env : Env) (s : SystemState) (j : JobId) : Prop :=
  ∀ i < s.threads.length,
    breakerAt env s.trace i ≠ .opening j ∧ breakerAt env s.trace i ≠ .announcing j

instance (env : Env) (s : SystemState) (j : JobId) : Decidable (BreakersOver env s j) :=
  inferInstanceAs (Decidable (∀ i < s.threads.length, _))

/-- The opening of the circuit of `j` is announced once. -/
structure AnnouncedOnce (S : Setup) (j : JobId) (s₀ : SystemState) (es : List SystemEvent)
    (s : SystemState) : Prop where
  incremented : increments S j s₀ es = openings S j s₀ es
  alerted : BreakersOver S.env s j → alerts s j = openings S j s₀ es

/-- A disabling update of a worker finds `j` enabled. -/
def findsEnabled (j : JobId) (s : SystemState) : SystemEvent → Prop
  | .resume i _ => (delivering s i).isSome → s.awaiting i = some (.jobUpdate j disable) →
      columnEnabled s j = some true
  | _ => True

instance (j : JobId) (s : SystemState) (e : SystemEvent) : Decidable (findsEnabled j s e) := by
  induction e using Async.Event.casesOn with
  | resume i o =>
    unfold findsEnabled
    infer_instance
  | _ => exact instDecidableTrue

/-- The call that carries the alert for `j` has failed, or its reply was lost. -/
def AlertFails (j : JobId) : TraceEntry → Prop
  | .called _ (.redisPublish msg) _ (.error _) => msg.announces j
  | _ => False

instance (j : JobId) (x : TraceEntry) : Decidable (AlertFails j x) := by
  induction x using Async.Entry.casesOn with
  | called i c reply seen =>
    induction c using Call.casesOn with
    | redisPublish msg =>
      induction seen using Except.casesOn <;> unfold AlertFails <;> infer_instance
    | _ => exact instDecidableFalse
  | _ => exact instDecidableFalse

/-- The call with this reply writes the streak or the enabled column of `j`. -/
def Call.WritesCircuit (j : JobId) : (c : Call) → Except Failure c.Reply → Prop
  | .jobCreate _, .ok row => row.id = j
  | .jobUpdate id data, .ok _ =>
      id = j ∧ (data.consecutiveDeadCount ≠ none ∨ data.enabled ≠ none)
  | .jobDelete id, .ok _ => id = j
  | .jobUpdateMany ids _, _ => j ∈ ids
  | _, _ => False

instance (j : JobId) (c : Call) (r : Except Failure c.Reply) :
    Decidable (c.WritesCircuit j r) := by
  induction c using Call.casesOn <;> induction r using Except.casesOn <;>
    unfold Call.WritesCircuit <;> infer_instance

/-- The streak or the enabled column of `j` is written, and not by an `applyCircuitBreaker`. -/
def WritesAside (s : SystemState) (j : JobId) : TraceEntry → Prop
  | .called i c (some r) _ => c.WritesCircuit j r ∧
      ¬ ((delivering s i).isSome ∧ (c = .jobUpdate j countDead ∨ c = .jobUpdate j disable))
  | _ => False

instance (s : SystemState) (j : JobId) (x : TraceEntry) : Decidable (WritesAside s j x) := by
  induction x using Async.Entry.casesOn with
  | called i c reply seen =>
    induction reply using Option.casesOn with
    | none => exact instDecidableFalse
    | some r =>
      unfold WritesAside
      infer_instance
  | _ => exact instDecidableFalse

/-! ## What the calls do to them -/

namespace World

variable {c : Call} {a : Choice} {w : World} {j : JobId}

theorem eval_published (l : Local) (w : World) : (eval l w).1.published = w.published := by
  cases l <;> rfl

theorem eval_circuitOpen (l : Local) (w : World) :
    circuitOpenTotal (eval l w).1 = circuitOpenTotal w + circuitMeter.cost l := by
  cases l with
  | inc x =>
    by_cases hx : x = .circuitOpen
    · subst hx
      simp [circuitOpenTotal, eval, circuitMeter]
    · have hcost : circuitMeter.cost (.inc x) = 0 := by
        cases x with
        | circuitOpen => exact absurd rfl hx
        | _ => rfl
      simp [circuitOpenTotal, eval, hcost, Function.update_of_ne (Ne.symm hx)]
  | _ => rfl

theorem exec_circuitOpen (c : Call) (a : Choice) (w : World) :
    circuitOpenTotal (exec c a w).1 = circuitOpenTotal w := by
  cases c <;> rfl

theorem exec_published (h : ∀ msg, c ≠ .redisPublish msg) :
    (exec c a w).1.published = w.published := by
  cases c with
  | redisPublish msg => exact absurd rfl (h msg)
  | _ => rfl

theorem exec_alerts (h : ∀ msg, c = .redisPublish msg → ¬ msg.announces j) :
    ((exec c a w).1.published.countP fun msg => msg.announces j) =
      w.published.countP fun msg => msg.announces j := by
  by_cases hc : ∃ msg, c = .redisPublish msg
  · obtain ⟨msg, rfl⟩ := hc
    simp [exec, h msg rfl]
  · rw [exec_published fun msg hmsg => hc ⟨msg, hmsg⟩]

/-- An update that succeeds finds the row it writes. -/
theorem circuitRow_jobUpdate {data : JobUpdate} {row : Job}
    (h : (exec (.jobUpdate j data) a w).2 = .ok row) :
    ∃ job, row = data.apply job ∧
      w.db.circuitRow j = some (job.consecutiveDeadCount, job.enabled) ∧
      (exec (.jobUpdate j data) a w).1.db.circuitRow j =
        some (row.consecutiveDeadCount, row.enabled) := by
  obtain ⟨job, hjob, rfl, _⟩ := Postgres.jobUpdate_ok h
  refine ⟨job, rfl, ?_, ?_⟩
  · simp [Postgres.circuitRow, hjob]
  · have hafter := Postgres.job?_jobUpdate data hjob
    simp [exec, withDb, Postgres.circuitRow, hafter]

theorem circuitRow_kept (h : ¬ c.WritesCircuit j (exec c a w).2) :
    (exec c a w).1.db.circuitRow j = w.db.circuitRow j := by
  by_cases hwrites : writesJob c a j
  · cases c with
    | jobCreate data =>
      cases hr : (w.db.jobCreate a.jobId data).2 with
      | error e => simp [exec, withDb, Postgres.jobCreate_error hr]
      | ok row =>
        obtain ⟨_, hrow, _⟩ := Postgres.jobCreate_ok hr
        have hreply : (exec (.jobCreate data) a w).2 = .ok row := hr
        rw [hreply] at h
        have hid : a.jobId = j := hwrites
        exact absurd (by rw [hrow]; exact hid) h
    | jobUpdate id data =>
      have hid : id = j := hwrites
      subst hid
      cases hr : (exec (.jobUpdate id data) a w).2 with
      | error e =>
        have herror : (w.db.jobUpdate id data).2 = .error e := hr
        simp [exec, withDb, Postgres.jobUpdate_error herror]
      | ok row =>
        rw [hr] at h
        obtain ⟨job, rfl, hbefore, hafter⟩ := circuitRow_jobUpdate hr
        rw [hbefore, hafter]
        have hcount : data.consecutiveDeadCount = none := by
          by_contra hcount
          exact h ⟨rfl, Or.inl hcount⟩
        have henabled : data.enabled = none := by
          by_contra henabled
          exact h ⟨rfl, Or.inr henabled⟩
        simp [JobUpdate.apply, hcount, henabled]
    | jobDelete id =>
      have hid : id = j := hwrites
      subst hid
      cases hr : (w.db.jobDelete id).2 with
      | error e => simp [exec, withDb, Postgres.jobDelete_error hr]
      | ok _ =>
        have hreply : (exec (.jobDelete id) a w).2 = .ok () := hr
        rw [hreply] at h
        exact absurd rfl h
    | jobUpdateMany ids enabled => exact absurd hwrites h
    | _ => exact hwrites.elim
  · simp only [Postgres.circuitRow, exec_job? hwrites]

end World

end CronHive
