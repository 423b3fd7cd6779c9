import CronHive.Announcements
import CronHive.Async.Receipts

/-!
# What the counters have counted

Between a reply and its next await a process moves the counters that the code moves there. Each
counter is the number of these moves.
-/

namespace CronHive

set_option autoImplicit false

open Async Async.Prog Async.Machine

/-! ## Which replies are counted -/

/-- The kind of a callback that was answered, or failed, like this; `none` if it succeeded. -/
def failureKind : Except Failure Nat → Option FailureKind
  | .ok status => if responseOk status then none else some .httpError
  | .error e => if e = .abortError then some .timeout else some .network

/-- The counters that the code of a tick moves between this reply and its next await. -/
def Call.tickMoves : (c : Call) → Except Failure c.Reply → List Metric
  | .redisSetNx _ _ _, .ok false => [.slotsDeduped]
  | .executionCreate _, .error e => if e = .p2002 then [.slotsDeduped] else []
  | .queueAdd _ _, .ok _ => [.slotsEnqueued]
  | _, _ => []

/-- The counters that the code of a delivery moves between this reply and its next await: those of
a success come after the reset of the streak, the one of a DEAD after the dead letter. -/
def Call.deliveryMoves : (c : Call) → Except Failure c.Reply → List Metric
  | .fetch _ _ _, r => (failureKind r).toList.map fun kind => .callbackAttempts kind.text
  | .deadLetterAdd _, .ok _ => [.executions .DEAD]
  | .jobUpdate _ data, .ok _ =>
      if data = disable then [.circuitOpen]
      else if data = { consecutiveDeadCount := some (.set 0) } then
        [.executions .SUCCESS, .callbackAttempts "ok"]
      else []
  | _, _ => []

def Task.moves : Task → (c : Call) → Except Failure c.Reply → List Metric
  | .tick => Call.tickMoves
  | .deliver _ => Call.deliveryMoves
  | _ => fun _ _ => []

/-- The counters that a task moves before its first await. -/
def Task.opening : Task → List Metric
  | .tick => [.schedulerTicks]
  | _ => []

/-- The counters that an entry of the trace calls for. -/
def entryMoves (s : SystemState) : TraceEntry → List Metric
  | .began _ t => t.opening
  | .called i c _ seen =>
      match s.threads[i]?.map (·.tag) with
      | some t => t.moves c seen
      | none => []
  | _ => []

def metricMeter (x : Metric) (t : Task) : Meter Call.Reply Local Failure where
  cost
    | .inc y => if y = x then 1 else 0
    | _ => 0
  due c r := (t.moves c r).count x

/-! ## Programs pay what is due -/

section Payments

variable {x : Metric} {t : Task} {α : Type}

/-- The program is left owing nothing. -/
abbrev Square (x : Metric) (t : Task) (p : Promise α) (n : Nat) : Prop :=
  p.pays (metricMeter x t) n fun _ rest => rest = 0

theorem square_ret (a : α) : Square x t (.ret a) 0 := rfl

theorem square_fail (e : Failure) : Square x t (.fail e : Promise α) 0 := rfl

theorem pays_await {c : Call} {Q : Except Failure c.Reply → Nat → Prop}
    (h : ∀ r, Q r ((t.moves c r).count x)) : (await c).pays (metricMeter x t) 0 Q :=
  pays_perform h

theorem pays_await_bind {c : Call} {f : c.Reply → Promise α} {Q : Except Failure α → Nat → Prop}
    (hok : ∀ a, (f a).pays (metricMeter x t) ((t.moves c (.ok a)).count x) Q)
    (herror : ∀ e, Q (.error e) ((t.moves c (.error e)).count x)) :
    ((await c).bind f).pays (metricMeter x t) 0 Q := by
  refine pays_bind (pays_await fun r => ?_)
  cases r with
  | ok a => exact hok a
  | error e => exact herror e

theorem square_await_bind {c : Call} {f : c.Reply → Promise α}
    (hok : ∀ a, Square x t (f a) ((t.moves c (.ok a)).count x))
    (herror : ∀ e, t.moves c (.error e) = []) : Square x t ((await c).bind f) 0 := by
  refine pays_await_bind hok fun e => ?_
  rw [herror e]
  rfl

theorem square_await {c : Call} (h : ∀ r, t.moves c r = []) : Square x t (await c) 0 := by
  refine pays_await fun r => ?_
  rw [h r]
  rfl

theorem square_inc_bind (y : Metric) {f : Unit → Promise α} {ys : List Metric}
    (h : Square x t (f ()) (ys.count x)) : Square x t ((inc y).bind f) ((y :: ys).count x) := by
  refine pays_bind fun _ => ⟨ys.count x, ?_, h⟩
  rw [List.count_cons, Nat.add_comm]
  simp [metricMeter]

theorem square_inc (y : Metric) : Square x t (inc y) ([y].count x) :=
  fun _ => ⟨0, by simp [metricMeter, List.count_singleton], rfl⟩

theorem pays_dateNow_bind {f : Int → Promise α} {n : Nat} {Q : Except Failure α → Nat → Prop}
    (h : ∀ now, (f now).pays (metricMeter x t) n Q) :
    (dateNow.bind f).pays (metricMeter x t) n Q :=
  pays_bind fun now => ⟨n, by simp [metricMeter], h now⟩

theorem square_bind {β : Type} {p : Promise α} {f : α → Promise β} {n : Nat}
    (hp : Square x t p n) (hf : ∀ a, Square x t (f a) 0) : Square x t (p.bind f) n := by
  refine pays_bind (pays_mono ?_ hp)
  intro r rest hrest
  subst hrest
  cases r with
  | ok a => exact hf a
  | error e => rfl

end Payments

/-! ### The tick -/

section Tick

variable {x : Metric}

theorem square_claimSlot (job : Job) (slot : Int) (lock : JobLock) :
    Square x .tick (claimSlot job slot lock) 0 := by
  have hrelease : Square x .tick (releaseJobLock lock) 0 := square_await fun _ => rfl
  have hrethrow (e : Failure) :
      Square x .tick ((releaseJobLock lock).bind fun _ => (.fail e : Promise Unit)) 0 :=
    square_bind hrelease fun _ => square_fail e
  refine pays_tryCatch (pays_bind (pays_tryCatch (pays_await_bind (fun ex => ?_) fun e => ?_)))
  · refine pays_await_bind (fun _ => ?_) hrethrow
    exact fun _ => ⟨0, by simp [metricMeter, Task.moves, Call.tickMoves, List.count_singleton], rfl⟩
  · change pays _ (if e = .p2002 then _ else _)
      (List.count x (if e = .p2002 then [.slotsDeduped] else [])) _
    by_cases he : e = .p2002
    · rw [if_pos he, if_pos he]
      -- the duplicate is counted, then the lock is released
      refine pays_bind fun _ => ⟨0, by simp [metricMeter, List.count_singleton], ?_⟩
      refine pays_await fun r => ?_
      cases r with
      | ok _ => rfl
      | error e => exact hrethrow e
    · rw [if_neg he, if_neg he]
      exact hrethrow e

theorem square_tickIteration (S : Setup) (job : Job) :
    Square x .tick (tickIteration S job) 0 := by
  refine pays_dateNow_bind fun now => ?_
  split
  · exact square_ret _
  · refine pays_bind (pays_bind fun token => ⟨0, rfl, ?_⟩)
    refine pays_bind (pays_await fun r => ?_)
    cases r with
    | error e => rfl
    | ok granted =>
      cases granted with
      | false => exact square_inc _
      | true => exact square_claimSlot job _ _

theorem square_tickLoop (S : Setup) (jobs : List Job) : Square x .tick (tickLoop S jobs) 0 := by
  induction jobs with
  | nil => exact square_ret _
  | cons job jobs ih => exact square_bind (square_tickIteration S job) fun _ => ih

theorem square_tick (S : Setup) :
    Square x .tick (tick S) ((Task.opening .tick).count x) := by
  refine square_inc_bind _ (square_await_bind (fun jobs => ?_) fun _ => rfl)
  exact square_tickLoop S jobs

end Tick

/-! ### A delivery -/

section Delivery

variable {x : Metric} (env : Env) (b : BullJob) (m : Nat)

theorem square_publishEvent (msg : SocketEvent) : Square x (.deliver m) (publishEvent msg) 0 :=
  square_await fun _ => rfl

theorem square_applyCircuitBreaker (jobId : JobId) (executionId : ExecutionId) :
    Square x (.deliver m) (applyCircuitBreaker env jobId executionId) 0 := by
  refine square_await_bind (fun job => ?_) fun _ => rfl
  change Square x (.deliver m) _ 0
  split
  · refine square_await_bind (fun _ => ?_) fun _ => rfl
    exact square_inc_bind _ (square_publishEvent m _)
  · exact square_ret _

theorem square_deadLetter (executionId : ExecutionId) (jobId : JobId) (attemptNumber : Nat)
    (errMsg : String) (statusCode : Option Nat) (durationMs : Int) :
    Square x (.deliver m)
      (deadLetter env executionId jobId attemptNumber errMsg statusCode durationMs) 0 := by
  refine pays_dateNow_bind fun now => square_await_bind (fun _ => ?_) fun _ => rfl
  refine square_await_bind (fun _ => ?_) fun _ => rfl
  refine square_inc_bind _ (square_bind (square_applyCircuitBreaker env m _ _) fun _ => ?_)
  exact square_bind (square_publishEvent m _) fun _ => square_publishEvent m _

theorem square_succeedExecution (statusCode : Nat) (durationMs : Int) :
    Square x (.deliver m) (succeedExecution b statusCode durationMs) 0 := by
  refine pays_dateNow_bind fun now => square_await_bind (fun _ => ?_) fun _ => rfl
  refine pays_bind (pays_bind (pays_await fun r => ?_))
  cases r with
  | error e => rfl
  | ok row => exact square_inc_bind _ (square_inc_bind _ (square_publishEvent m _))

/-- The attempt owes the counter of its failure's kind. -/
theorem square_failAttempt (kind : FailureKind) (statusCode : Option Nat) (message : String)
    (durationMs : Int) :
    Square x (.deliver m) (failAttempt env b kind statusCode message durationMs)
      ([Metric.callbackAttempts kind.text].count x) := by
  refine square_inc_bind _ ?_
  split
  · exact square_deadLetter env m _ _ _ _ _ _
  · refine pays_dateNow_bind fun now => square_await_bind (fun _ => ?_) fun _ => rfl
    exact square_bind (square_publishEvent m _) fun _ => square_fail _

/-- What a callback's result leaves to be counted. -/
def CallbackResult.owed : CallbackResult → List Metric
  | .ok _ _ => []
  | .failed kind _ _ _ => [.callbackAttempts kind.text]

theorem pays_invokeCallback (url : String) (body : CallbackBody) (timeoutMs : Nat)
    {Q : Except Failure CallbackResult → Nat → Prop}
    (h : ∀ result : CallbackResult, Q (.ok result) (result.owed.count x)) :
    (invokeCallback url body timeoutMs).pays (metricMeter x (.deliver m)) 0 Q := by
  refine pays_dateNow_bind fun started => pays_tryCatch ?_
  refine pays_await_bind (fun status => ?_) fun e => ?_
  · refine pays_dateNow_bind fun finished => ?_
    change pays _ (if responseOk status then _ else _)
      (List.count x (((if responseOk status then none else some .httpError) :
        Option FailureKind).toList.map _)) _
    by_cases hok : responseOk status
    · rw [if_pos hok, if_pos hok]
      exact h (.ok status (finished - started))
    · rw [if_neg hok, if_neg hok]
      exact h (.failed .httpError (some status) s!"HTTP {status}" (finished - started))
  · refine pays_dateNow_bind fun finished => ?_
    change pays _ (if e = .abortError then _ else _)
      (List.count x (((if e = .abortError then some .timeout else some .network) :
        Option FailureKind).toList.map _)) _
    by_cases he : e = .abortError
    · rw [if_pos he, if_pos he]
      exact h (.failed .timeout none "Callback timeout" (finished - started))
    · rw [if_neg he, if_neg he]
      exact h (.failed .network none e.message (finished - started))

theorem square_runAttempt (job : Job) (execution : Execution) :
    Square x (.deliver m) (runAttempt env b job execution) 0 := by
  refine pays_dateNow_bind fun now => square_await_bind (fun _ => ?_) fun _ => rfl
  refine square_bind (square_publishEvent m _) fun _ => ?_
  refine pays_bind (pays_invokeCallback m _ _ _ fun result => ?_)
  cases result with
  | ok statusCode durationMs => exact square_succeedExecution b m _ _
  | failed kind statusCode message durationMs => exact square_failAttempt env b m _ _ _ _

theorem square_lookupJob (jobId : JobId) : Square x (.deliver m) (lookupJob jobId) 0 := by
  refine square_bind (square_await_bind (fun value => ?_) fun _ => rfl) fun cached => ?_
  · change Square x (.deliver m) _ 0
    split <;> exact square_ret _
  · cases cached with
    | some job => exact square_ret _
    | none => exact square_await fun _ => rfl

theorem square_processExecutionJob : Square x (.deliver m) (processExecutionJob env b) 0 := by
  refine square_bind (square_lookupJob m _) fun job => ?_
  cases job with
  | none => exact square_ret _
  | some job =>
    dsimp only
    split
    · exact square_ret _
    · refine square_await_bind (fun execution => ?_) fun _ => rfl
      cases execution with
      | none => exact square_ret _
      | some execution => exact square_runAttempt env b m job execution

theorem square_deliver (message : Nat) (token : Token) :
    Square x (.deliver m) (deliver env message token b) 0 := by
  have hprocess : Square x (.deliver m) ((processExecutionJob env b).bind fun _ => .ret true) 0 :=
    square_bind (square_processExecutionJob env b m) fun _ => square_ret true
  refine square_bind (pays_tryCatch (pays_mono ?_ hprocess)) fun returned => ?_
  · intro r rest hrest
    cases r with
    | ok _ => exact hrest
    | error e => exact hrest
  · split <;> exact square_await fun _ => rfl

end Delivery

/-! ### Requests -/

/-- The effect moves no counter. -/
def Local.uncounted : Local → Prop
  | .inc _ => False
  | _ => True

section Requests

variable (S : Setup)

theorem uncounted_await (c : Call) : (await c).Effects Local.uncounted := effects_perform c

theorem uncounted_ensureSafeCallback (url : String) :
    (ensureSafeCallback S url).Effects Local.uncounted := by
  refine Effects.bind ?_ fun result => ?_
  · unfold assertSafeCallbackUrl
    split
    · exact effects_ret _
    · split
      · exact effects_ret _
      · split
        · exact effects_ret _
        · refine Effects.bind (Effects.tryCatch ?_ fun _ => effects_ret _) fun _ => effects_ret _
          exact Effects.bind (uncounted_await _) fun _ => effects_ret _
  · split
    · exact effects_ret _
    · exact effects_fail _

theorem uncounted_assertValidCron (cronExpression timezone : String) :
    (assertValidCron S.platform cronExpression timezone).Effects Local.uncounted := by
  unfold assertValidCron
  split
  · exact effects_ret _
  · exact effects_fail _

theorem uncounted_createJob (input : CreateJobInput) :
    (createJob S input).Effects Local.uncounted := by
  refine Effects.bind (uncounted_assertValidCron S _ _) fun _ => ?_
  refine Effects.bind (uncounted_ensureSafeCallback S _) fun _ => ?_
  refine Effects.bind (uncounted_await _) fun job => ?_
  exact Effects.bind (uncounted_await _) fun _ => effects_ret _

theorem uncounted_updateJob (id : JobId) (data : UpdateJobInput) :
    (updateJob S id data).Effects Local.uncounted := by
  refine Effects.bind ?_ fun found => ?_
  · unfold checkCronUpdate
    split
    · refine Effects.bind (uncounted_await _) fun existing => ?_
      cases existing with
      | none => exact effects_ret _
      | some row =>
        exact Effects.bind (uncounted_assertValidCron S _ _) fun _ => effects_ret _
    · exact effects_ret _
  · split
    · refine Effects.bind ?_ fun _ => Effects.tryCatch ?_ fun _ => effects_ret _
      · unfold ensureSafeUpdate
        split
        · exact uncounted_ensureSafeCallback S _
        · exact effects_ret _
      · refine Effects.bind (uncounted_await _) fun job => ?_
        refine Effects.bind (uncounted_await _) fun _ => ?_
        exact Effects.bind (uncounted_await _) fun _ => effects_ret _
    · exact effects_ret _

theorem uncounted_deleteJob (id : JobId) : (deleteJob id).Effects Local.uncounted := by
  refine Effects.tryCatch (Effects.bind (uncounted_await _) fun _ => ?_) fun _ => effects_ret _
  exact Effects.bind (uncounted_await _) fun _ => effects_ret _

theorem uncounted_bulkSetEnabled (ids : List JobId) (enabled : Bool) :
    (bulkSetEnabled ids enabled).Effects Local.uncounted := by
  have hall : (invalidateAll ids).Effects Local.uncounted := by
    induction ids with
    | nil => exact effects_ret _
    | cons id ids ih =>
      refine Effects.bind (Effects.tryCatch ?_ fun _ => effects_ret _) fun first => ?_
      · exact Effects.bind (uncounted_await _) fun _ => effects_ret _
      · refine Effects.bind ih fun _ => ?_
        cases first with
        | none => exact effects_ret _
        | some e => exact effects_fail _
  exact Effects.bind (uncounted_await _) fun _ => Effects.bind hall fun _ => effects_ret _

theorem uncounted_triggerJob (id : JobId) : (triggerJob S id).Effects Local.uncounted := by
  refine Effects.bind (uncounted_await _) fun job => ?_
  cases job with
  | none => exact effects_ret _
  | some job =>
    dsimp only
    split
    · exact effects_ret _
    · refine Effects.bind ?_ fun lock => ?_
      · refine Effects.bind (effects_effect trivial) fun token => ?_
        exact Effects.bind (uncounted_await _) fun _ => effects_ret _
      · cases lock with
        | none => exact effects_ret _
        | some lock =>
          refine Effects.tryCatch ?_ fun e => ?_
          · refine Effects.bind (uncounted_await _) fun ex => ?_
            exact Effects.bind (uncounted_await _) fun _ => effects_ret _
          · exact Effects.bind (uncounted_await _) fun _ => effects_fail _

end Requests

/-! ## The counters in a run -/

/-- The counters that the entries of the trace call for, one after the other. -/
def moves (s : SystemState) : List Metric := s.trace.flatMap (entryMoves s)

theorem spends_start {S : Setup} (x : Metric) {t : Task} {w w' : World} {p : Promise Response}
    (h : start S t w = some (w', p)) : p.Spends (metricMeter x t) (t.opening.count x) := by
  have hrequest {α : Type} {q : Promise α} {f : α → Response} (hq : q.Effects Local.uncounted)
      (ht : ∀ c r, t.moves c r = []) : (q.bind fun a => .ret (f a)).Spends (metricMeter x t) 0 := by
    refine (hq.bind fun _ => effects_ret _).spends ?_ fun c r => ?_
    · intro l hl
      cases l with
      | inc y => exact hl.elim
      | _ => rfl
    · simp only [metricMeter, ht, List.count_nil]
  have hlast {q : Promise Unit} {n : Nat} (hq : Square x t q n) :
      (q.bind fun _ => .ret Response.done).Spends (metricMeter x t) n :=
    spends_of_pays (square_bind hq fun _ => square_ret Response.done)
  cases t with
  | tick =>
    cases h
    exact hlast (square_tick S)
  | deliver m =>
    simp only [start] at h
    split at h
    · cases h
      exact hlast (square_deliver S.env _ m _ _)
    · cases h
  | createJob input =>
    cases h
    exact hrequest (uncounted_createJob S input) fun _ _ => rfl
  | updateJob id data =>
    cases h
    exact hrequest (uncounted_updateJob S id data) fun _ _ => rfl
  | setPaused id paused =>
    cases h
    exact hrequest (uncounted_updateJob S id _) fun _ _ => rfl
  | deleteJob id =>
    cases h
    exact hrequest (uncounted_deleteJob id) fun _ _ => rfl
  | bulkSetEnabled ids enabled =>
    cases h
    exact hrequest (uncounted_bulkSetEnabled ids enabled) fun _ _ => rfl
  | trigger id =>
    cases h
    exact hrequest (uncounted_triggerJob S id) fun _ _ => rfl

theorem metered_system (S : Setup) (x : Metric) : (system S).Metered (metricMeter x)
    (fun t => t.opening.count x) fun w => w.metrics x where
  eval t l w := by
    cases l with
    | inc y =>
      by_cases hy : y = x
      · subst hy
        simp [system, World.eval, metricMeter]
      · simp [system, World.eval, metricMeter, hy, Function.update_of_ne (Ne.symm hy)]
    | _ => rfl
  exec c a w := by cases c <;> rfl
  start t w w' p h := by
    refine ⟨?_, spends_start x h⟩
    cases t with
    | deliver m =>
      simp only [system, start] at h
      split at h
      · cases h
        rfl
      · cases h
    | _ =>
      cases h
      rfl
  outside e w w' h := by cases e <;> cases h <;> rfl

theorem billed_eq_moves (s : SystemState) (x : Metric) :
    s.billed (metricMeter x) (fun t => t.opening.count x) = (moves s).count x := by
  have hentry (y : TraceEntry) :
      s.bill (metricMeter x) (fun t => t.opening.count x) y = (entryMoves s y).count x := by
    cases y with
    | called i c reply seen =>
      simp only [State.bill, entryMoves]
      cases s.threads[i]?.map (·.tag) <;> rfl
    | _ => rfl
  rw [State.billed, moves, List.count_flatMap]
  exact congrArg List.sum (List.map_congr_left fun y _ => hentry y)

theorem metrics_eq_moves {S : Setup} {jobs : List Job} {hjobs : (jobs.map (·.id)).Nodup}
    {clock : Nat → Int} {s : SystemState} (hr : Reachable S (.initial jobs hjobs clock) s)
    (x : Metric) : s.world.metrics x = (moves s).count x := by
  have hcount := hr.counter_eq (metered_system S x)
  rw [billed_eq_moves] at hcount
  rw [hcount]
  exact Nat.zero_add _

end CronHive
