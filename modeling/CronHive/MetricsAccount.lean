import CronHive.DeliveryProtocol
import CronHive.FinishedJobs
import CronHive.MetricsLedger

/-!
# What the counters stand for

Each counter against the replies that the processes have seen. A success is counted only once the
dead streak is reset and a DEAD only once the dead letter is added, so a write that fails in
between leaves one uncounted.
-/

namespace CronHive

set_option autoImplicit false

open Async Async.Prog Async.Machine

/-! ## What a reply tells -/

def FireSlot.isTime : FireSlot → Bool
  | .time _ => true
  | .manual => false

/-- What a reply tells its caller. -/
inductive News where
  /-- a slot's message is in the queue -/
  | slotAdded
  /-- a slot's lock is another's, or the slot has its row -/
  | slotTaken
  /-- the callback has come out like this, `none` if it succeeded -/
  | calledBack (kind : Option FailureKind)
  | written (status : ExecutionStatus)
  | streakReset
  | deadLetterAdded
  | disabled
  deriving DecidableEq

def Call.news : (c : Call) → Except Failure c.Reply → Option News
  | .queueAdd data _, .ok _ => if data.fireSlot.isTime then some .slotAdded else none
  | .redisSetNx (.lock _ slot) _ _, .ok granted =>
      if slot.isTime && !granted then some .slotTaken else none
  | .executionCreate data, .error e =>
      if data.scheduledFor.isSome && e = .p2002 then some .slotTaken else none
  | .fetch _ _ _, r => some (.calledBack (failureKind r))
  | .executionUpdate _ data, .ok _ => some (.written data.status)
  | .jobUpdate _ data, .ok _ =>
      if data = disable then some .disabled
      else if data = clearDead then some .streakReset
      else none
  | .deadLetterAdd _, .ok _ => some .deadLetterAdded
  | _, _ => none

/-- The counters that the news move, for a delivery or another task. -/
def News.moves (delivery : Bool) : News → List Metric
  | .slotAdded => [.slotsEnqueued]
  | .slotTaken => [.slotsDeduped]
  | .calledBack kind => kind.toList.map fun kind => .callbackAttempts kind.text
  | .written _ => []
  | .streakReset => [.executions .SUCCESS, .callbackAttempts "ok"]
  | .deadLetterAdded => [.executions .DEAD]
  | .disabled => if delivery then [.circuitOpen] else []

def Task.isDelivery : Task → Bool
  | .deliver _ => true
  | _ => false

/-- The counters that the news bring a task to move. -/
def movesOn (t : Task) (news : Option News) : List Metric :=
  news.elim [] (News.moves t.isDelivery)

theorem tickMoves_eq {c : Call} (hc : c.ofTick) (r : Except Failure c.Reply) :
    c.tickMoves r = movesOn .tick (c.news r) := by
  cases c with
  | redisSetNx key value n =>
    obtain ⟨j, t, rfl⟩ := hc
    rcases r with e | granted
    · rfl
    · cases granted <;> rfl
  | executionCreate data =>
    obtain ⟨t, ht⟩ := hc
    cases r with
    | ok x => rfl
    | error e =>
      simp only [Call.tickMoves, Call.news, ht, Option.isSome_some, Bool.true_and,
        decide_eq_true_eq]
      split <;> rfl
  | queueAdd data opts =>
    obtain ⟨t, ht⟩ := hc
    cases r with
    | ok _ => simp [Call.tickMoves, Call.news, ht, FireSlot.isTime, movesOn, News.moves]
    | error e => rfl
  | jobFindMany => cases r <;> rfl
  | redisRelease key token => cases r <;> rfl
  | _ => exact hc.elim

theorem deliveryMoves_eq {m : Nat} {b : BullJob} {c : Call} (hc : c.ofDelivery b)
    (r : Except Failure c.Reply) : c.deliveryMoves r = movesOn (.deliver m) (c.news r) := by
  cases c with
  | jobUpdate id data =>
    cases r with
    | error e => rfl
    | ok job =>
      simp only [Call.deliveryMoves, Call.news]
      split
      · rfl
      · split <;> rfl
  | fetch url body timeoutMs => rfl
  | queueAdd data opts => exact hc.elim
  | redisSetNx key value n => exact hc.elim
  | executionCreate data => exact hc.elim
  | _ => cases r <;> rfl

theorem triggerMoves_eq {c : Call} (hc : c.ofTrigger) (r : Except Failure c.Reply) :
    c.news r = none := by
  cases c with
  | redisSetNx key value n =>
    obtain ⟨j, rfl⟩ := hc
    rcases r with e | granted <;> rfl
  | executionCreate data =>
    have hslot : data.scheduledFor = none := hc
    cases r with
    | ok x => rfl
    | error e => simp [Call.news, hslot]
  | queueAdd data opts =>
    have hslot : data.fireSlot = .manual := hc
    cases r with
    | ok _ => simp [Call.news, hslot, FireSlot.isTime]
    | error e => rfl
  | jobFindUnique id => cases r <;> rfl
  | redisRelease key token => cases r <;> rfl
  | _ => exact hc.elim

theorem requestMoves_eq {c : Call} (hc : c.ofStoring ∨ c.ofSwitching)
    (r : Except Failure c.Reply) : c.news r = none ∨ c.news r = some .disabled := by
  cases c with
  | jobUpdate id data =>
    have hcount : data.consecutiveDeadCount = none := hc.resolve_right fun h => h.elim
    have hne : data ≠ clearDead := by
      intro h
      rw [h] at hcount
      cases hcount
    cases r with
    | error e => exact Or.inl rfl
    | ok job =>
      simp only [Call.news, if_neg hne]
      split
      · exact Or.inr rfl
      · exact Or.inl rfl
  | redisSetNx key value n => exact hc.elim (fun h => h.elim) fun h => h.elim
  | executionCreate data => exact hc.elim (fun h => h.elim) fun h => h.elim
  | queueAdd data opts => exact hc.elim (fun h => h.elim) fun h => h.elim
  | fetch url body timeoutMs => exact hc.elim (fun h => h.elim) fun h => h.elim
  | executionUpdate id data => exact hc.elim (fun h => h.elim) fun h => h.elim
  | deadLetterAdd data => exact hc.elim (fun h => h.elim) fun h => h.elim
  | _ => cases r <;> exact Or.inl rfl

theorem Task.moves_eq {t : Task} {c : Call} (hc : t.Calls c) (r : Except Failure c.Reply) :
    t.moves c r = movesOn t (c.news r) := by
  have hrequest (ht : t.isDelivery = false) (h : c.ofStoring ∨ c.ofSwitching) :
      movesOn t (c.news r) = [] := by
    rcases requestMoves_eq h r with hnews | hnews
    · rw [hnews]
      rfl
    · rw [hnews, movesOn, ht]
      rfl
  cases t with
  | tick => exact tickMoves_eq hc r
  | deliver m =>
    obtain ⟨b, hb⟩ := hc
    exact deliveryMoves_eq hb r
  | trigger id => rw [triggerMoves_eq hc r]; rfl
  | deleteJob id => exact (hrequest rfl (Or.inr hc)).symm
  | bulkSetEnabled ids enabled => exact (hrequest rfl (Or.inr hc)).symm
  | _ => exact (hrequest rfl (Or.inl hc)).symm

/-! ## The news of a run -/

def entryNews : TraceEntry → Option News
  | .called _ c _ seen => c.news seen
  | _ => none

/-- How often the processes have had the news. -/
def heardOf (s : SystemState) (n : News) : Nat :=
  s.trace.countP fun y => decide (entryNews y = some n)

def beginsTick : TraceEntry → Bool
  | .began _ .tick => true
  | _ => false

/-- The breaker's own news: a delivery has disabled a job. -/
def opensBreaker (s : SystemState) : TraceEntry → Bool
  | .called i c _ seen => (s.threads[i]?.any fun th => th.tag.isDelivery) &&
      decide (c.news seen = some .disabled)
  | _ => false

section News

variable {S : Setup} {w₀ : World} {s : SystemState}

theorem entryMoves_eq (hr : Reachable S w₀ s) {y : TraceEntry} (hy : y ∈ s.trace)
    {x : Metric} (hx : x ≠ .schedulerTicks) : ∃ t : Task,
      (entryMoves s y).count x = (movesOn t (entryNews y)).count x ∧
      (opensBreaker s y = true ↔ t.isDelivery = true ∧ entryNews y = some .disabled) := by
  cases y with
  | began i t =>
    refine ⟨.tick, ?_, by simp [opensBreaker, entryNews]⟩
    cases t with
    | tick => simp [entryMoves, Task.opening, entryNews, movesOn, Ne.symm hx]
    | _ => rfl
  | called i c reply seen =>
    obtain ⟨t, ht, hc⟩ := hr.called_only (fun t w w' p h => only_start h) hy
    obtain ⟨th, hth, htag⟩ := Option.map_eq_some_iff.mp ht
    refine ⟨t, ?_, ?_⟩
    · simp only [entryMoves, ht, entryNews, Task.moves_eq hc]
    · simp [opensBreaker, entryNews, hth, htag]
  | stopped i => exact ⟨.tick, rfl, by simp [opensBreaker, entryNews]⟩
  | outside x => exact ⟨.tick, rfl, by simp [opensBreaker, entryNews]⟩

theorem moves_of_entries {x : Metric} {P : TraceEntry → Bool}
    (h : ∀ y ∈ s.trace, (entryMoves s y).count x = if P y then 1 else 0) :
    (moves s).count x = s.trace.countP P := by
  have hsum : (s.trace.map fun y => if P y then 1 else 0).sum = s.trace.countP P := by
    induction s.trace with
    | nil => rfl
    | cons y ys ih =>
      rw [List.map_cons, List.sum_cons, ih, List.countP_cons, Nat.add_comm]
  rw [moves, List.count_flatMap, ← hsum]
  exact congrArg List.sum (List.map_congr_left h)

theorem moves_countP (hr : Reachable S w₀ s) {x : Metric} (hx : x ≠ .schedulerTicks)
    {P : TraceEntry → Bool} (h : ∀ y ∈ s.trace, ∀ t : Task,
      (opensBreaker s y = true ↔ t.isDelivery = true ∧ entryNews y = some .disabled) →
      (movesOn t (entryNews y)).count x = if P y then 1 else 0) :
    (moves s).count x = s.trace.countP P := by
  refine moves_of_entries fun y hy => ?_
  obtain ⟨t, hmoves, hopens⟩ := entryMoves_eq hr hy hx
  exact hmoves.trans (h y hy t hopens)

/-- The news that a counter stands for. -/
def Metric.source : Metric → Option News
  | .schedulerTicks => none
  | .slotsEnqueued => some .slotAdded
  | .slotsDeduped => some .slotTaken
  | .executions .SUCCESS => some .streakReset
  | .executions .DEAD => some .deadLetterAdded
  | .executions _ => none
  | .callbackAttempts "ok" => some .streakReset
  | .callbackAttempts "http_error" => some (.calledBack (some .httpError))
  | .callbackAttempts "timeout" => some (.calledBack (some .timeout))
  | .callbackAttempts "network" => some (.calledBack (some .network))
  | .callbackAttempts _ => none
  | .circuitOpen => some .disabled

theorem source_of_failure (kind : FailureKind) :
    (Metric.callbackAttempts kind.text).source = some (.calledBack (some kind)) := by
  cases kind <;> rfl

theorem source_of_mem {n : News} {b : Bool} {x : Metric} (h : x ∈ n.moves b) :
    x.source = some n := by
  cases n with
  | calledBack kind =>
    cases kind with
    | none => cases h
    | some kind =>
      cases List.mem_singleton.mp h
      exact source_of_failure kind
  | streakReset =>
    rcases List.mem_cons.mp h with rfl | h
    · rfl
    · cases List.mem_singleton.mp h
      rfl
  | written status => cases h
  | disabled =>
    cases b with
    | false => cases h
    | true =>
      cases List.mem_singleton.mp h
      rfl
  | _ =>
    cases List.mem_singleton.mp h
    rfl

theorem nodup_moves (n : News) (b : Bool) : (n.moves b).Nodup := by
  cases n with
  | calledBack kind => cases kind <;> simp [News.moves]
  | disabled => cases b <;> simp [News.moves]
  | _ => simp [News.moves]

theorem count_movesOn (x : Metric) (t : Task) (news : Option News) :
    (movesOn t news).count x = if x ∈ movesOn t news then 1 else 0 := by
  apply List.Nodup.count
  cases news with
  | none => exact List.nodup_nil
  | some n => exact nodup_moves n _

/-- A counter that stands for one kind of news shows how often it was had. -/
theorem moves_heardOf (hr : Reachable S w₀ s) {x : Metric} (hx : x ≠ .schedulerTicks) {n : News}
    (hmem : ∀ b, x ∈ n.moves b) : (moves s).count x = heardOf s n := by
  refine moves_countP hr hx fun y _ t _ => ?_
  rw [count_movesOn]
  cases hnews : entryNews y with
  | none => simp [movesOn]
  | some n' =>
    by_cases hn : n' = n
    · subst hn
      simp [movesOn, hmem]
    · have hnot : x ∉ movesOn t (some n') := fun h =>
        hn (Option.some.inj ((source_of_mem h).symm.trans (source_of_mem (hmem true))))
      simp [hnot, hn]

theorem moves_none (hr : Reachable S w₀ s) {x : Metric} (hx : x ≠ .schedulerTicks)
    (hsource : x.source = none) : (moves s).count x = 0 := by
  rw [moves_countP hr hx (P := fun _ => false) fun y _ t _ => ?_]
  · simp
  · rw [count_movesOn]
    refine if_neg fun h => ?_
    cases hnews : entryNews y with
    | none =>
      rw [hnews] at h
      cases h
    | some n =>
      rw [hnews] at h
      have hsome := source_of_mem h
      rw [hsource] at hsome
      cases hsome

theorem moves_opened (hr : Reachable S w₀ s) :
    (moves s).count .circuitOpen = s.trace.countP (opensBreaker s) := by
  refine moves_countP hr (fun h => by cases h) fun y _ t hopens => ?_
  rw [count_movesOn]
  have hiff : Metric.circuitOpen ∈ movesOn t (entryNews y) ↔ opensBreaker s y = true := by
    rw [hopens]
    constructor
    · intro h
      cases hnews : entryNews y with
      | none =>
        rw [hnews] at h
        cases h
      | some n =>
        rw [hnews] at h
        have hn : n = .disabled := Option.some.inj (source_of_mem h).symm
        subst hn
        by_cases ht : t.isDelivery = true
        · exact ⟨ht, rfl⟩
        · simp [movesOn, News.moves, ht] at h
    · intro h
      obtain ⟨ht, hnews⟩ := h
      simp [hnews, movesOn, News.moves, ht]
  simp only [hiff]

theorem moves_ticks (hr : Reachable S w₀ s) :
    (moves s).count .schedulerTicks = s.trace.countP beginsTick := by
  refine moves_of_entries fun y hy => ?_
  cases y with
  | began i t => cases t <;> rfl
  | called i c reply seen =>
    obtain ⟨t, ht, hc⟩ := hr.called_only (fun t w w' p h => only_start h) hy
    simp only [entryMoves, ht, Task.moves_eq hc, beginsTick]
    refine List.count_eq_zero.mpr fun h => ?_
    cases hnews : c.news seen with
    | none =>
      rw [hnews] at h
      cases h
    | some n =>
      rw [hnews] at h
      cases source_of_mem h
  | _ => rfl

end News

/-! ## How far a delivery has come -/

/-- The last news that matter for the counters of an outcome. -/
inductive Milestone where
  | start
  /-- the callback has succeeded -/
  | answered
  /-- SUCCESS is written -/
  | written
  /-- the streak is reset -/
  | counted
  /-- DEAD is written -/
  | dying
  /-- the dead letter is added -/
  | buried
  deriving DecidableEq

def Milestone.after (st : Milestone) : Option News → Milestone
  | some (.calledBack none) => .answered
  | some (.written .SUCCESS) => .written
  | some .streakReset => .counted
  | some (.written .DEAD) => .dying
  | some .deadLetterAdded => .buried
  | _ => st

def milestones : Monitor Call.Reply Failure Milestone where
  permits _ _ := True
  admits _ _ _ := True
  next st c r := st.after (c.news r)

/-- The milestone that the news follow upon. -/
def News.follows : News → Option Milestone
  | .calledBack none => some .start
  | .written .SUCCESS => some .answered
  | .streakReset => some .written
  | .written .DEAD => some .start
  | .deadLetterAdded => some .dying
  | _ => none

/-- The news come in their turn. -/
def Milestone.InTurn (st : Milestone) (news : Option News) : Prop :=
  ∀ st', news.bind News.follows = some st' → st' = st

/-- The turns of a delivery. -/
inductive Milestone.Turn : Milestone → Option News → Milestone → Prop where
  | answered : Turn .start (some (.calledBack none)) .answered
  | written : Turn .answered (some (.written .SUCCESS)) .written
  | counted : Turn .written (some .streakReset) .counted
  | dying : Turn .start (some (.written .DEAD)) .dying
  | buried : Turn .dying (some .deadLetterAdded) .buried
  | stays (st : Milestone) {news : Option News} (h : news.bind News.follows = none) :
      Turn st news st

theorem Milestone.InTurn.turn {st : Milestone} {news : Option News} (h : st.InTurn news) :
    Turn st news (st.after news) := by
  cases news with
  | none => exact .stays st rfl
  | some n =>
    cases n with
    | calledBack kind =>
      cases kind with
      | none =>
        cases h _ rfl
        exact .answered
      | some kind => exact .stays st rfl
    | written status =>
      cases status with
      | SUCCESS =>
        cases h _ rfl
        exact .written
      | DEAD =>
        cases h _ rfl
        exact .dying
      | _ => exact .stays st rfl
    | streakReset =>
      cases h _ rfl
      exact .counted
    | deadLetterAdded =>
      cases h _ rfl
      exact .buried
    | _ => exact .stays st rfl

/-- Where the protocol of a delivery stands; nothing more comes once it has finished. -/
def DeliveryPhase.milestone : DeliveryPhase → Option Milestone
  | .called _ r => some (if failureKind r = none then .answered else .start)
  | .recorded report => some (match report.status with
      | .SUCCESS => .written
      | .DEAD => .dying
      | _ => .start)
  | .cleared _ => some .counted
  | .buried _ => some .buried
  | .counted _ _ => some .buried
  | .opened _ => some .buried
  | .settled _ => some .buried
  | .mourned _ => some .buried
  | .finished _ => none
  | .closed => none
  | _ => some .start

/-- The milestone is the protocol's, as long as that has not finished. -/
def DeliveryPhase.Reached (phase : DeliveryPhase) (st : Milestone) : Prop :=
  ∀ st', phase.milestone = some st' → st' = st

theorem reached_finished (returned : Bool) (st : Milestone) :
    (DeliveryPhase.finished returned).Reached st := fun _ h => by cases h

theorem failureKind_of_report {report : Report} {r : Except Failure Nat} (h : report.Of r) :
    (report.status = .SUCCESS ∧ failureKind r = none) ∨
      ((report.status = .FAILED ∨ report.status = .DEAD) ∧ failureKind r ≠ none) := by
  cases h with
  | succeeded hok hstatus _ _ => exact Or.inl ⟨hstatus, by simp [failureKind, hok]⟩
  | refused hok hstatus _ _ => exact Or.inr ⟨hstatus, by simp [failureKind, hok]⟩
  | failed hstatus _ _ => exact Or.inr ⟨hstatus, by simp only [failureKind]; split <;> simp⟩

theorem reached_stays {phase phase' : DeliveryPhase} {st : Milestone} (hst : phase.Reached st)
    (h : phase'.milestone = phase.milestone ∨ phase'.milestone = none) : phase'.Reached st := by
  intro st' hst'
  rcases h with h | h
  · exact hst st' (h.symm.trans hst')
  · rw [h] at hst'
    cases hst'

theorem milestone_ofJob (job : Job) : (DeliveryPhase.ofJob job).milestone = some .start ∨
    (DeliveryPhase.ofJob job).milestone = none := by
  unfold DeliveryPhase.ofJob
  split
  · exact Or.inl rfl
  · exact Or.inr rfl

theorem reached_outcome {report : Report} {r₀ : Except Failure Nat} (hof : report.Of r₀)
    {st : Milestone} (hst : (DeliveryPhase.called report.attemptNumber r₀).Reached st) :
    st.InTurn (some (.written report.status)) ∧
      (DeliveryPhase.recorded report).Reached (st.after (some (.written report.status))) := by
  have hbefore := hst _ rfl
  rcases failureKind_of_report hof with ⟨hstatus, hkind⟩ | ⟨hstatus | hstatus, hkind⟩
  · rw [if_pos hkind] at hbefore
    subst hbefore
    rw [hstatus]
    refine ⟨fun st' h => (Option.some.inj h).symm, fun st' h => ?_⟩
    simp only [DeliveryPhase.milestone, hstatus] at h
    exact (Option.some.inj h).symm
  · rw [if_neg hkind] at hbefore
    subst hbefore
    rw [hstatus]
    refine ⟨fun st' h => (by cases h), fun st' h => ?_⟩
    simp only [DeliveryPhase.milestone, hstatus] at h
    exact (Option.some.inj h).symm
  · rw [if_neg hkind] at hbefore
    subst hbefore
    rw [hstatus]
    refine ⟨fun st' h => (Option.some.inj h).symm, fun st' h => ?_⟩
    simp only [DeliveryPhase.milestone, hstatus] at h
    exact (Option.some.inj h).symm

theorem reached_next {env : Env} {d : ExecutionJobData} {phase : DeliveryPhase} {c : Call}
    (h : DeliveryPhase.Permits env d phase c) {st : Milestone} (hst : phase.Reached st)
    (r : Except Failure c.Reply) :
    st.InTurn (c.news r) ∧ (phase.next c r).Reached (st.after (c.news r)) := by
  have hnone : st.InTurn none := fun _ h => by cases h
  have hfailed := reached_finished false st
  cases h with
  | cache =>
    rcases r with e | value
    · exact ⟨hnone, hfailed⟩
    · rcases value with _ | (token | job)
      · exact ⟨hnone, hst⟩
      · exact ⟨hnone, hst⟩
      · exact ⟨hnone, reached_stays hst (milestone_ofJob job)⟩
  | job =>
    rcases r with e | _ | job
    · exact ⟨hnone, hfailed⟩
    · exact ⟨hnone, reached_finished true st⟩
    · exact ⟨hnone, reached_stays hst (milestone_ofJob job)⟩
  | execution job =>
    rcases r with e | _ | execution
    · exact ⟨hnone, hfailed⟩
    · exact ⟨hnone, reached_finished true st⟩
    · exact ⟨hnone, hst⟩
  | running job execution n now =>
    rcases r with e | row
    · exact ⟨hnone, hfailed⟩
    · exact ⟨fun _ h => (by cases h), hst⟩
  | started job execution n =>
    rcases r with e | _
    · exact ⟨hnone, hfailed⟩
    · exact ⟨hnone, hst⟩
  | callback job execution n =>
    have hbefore : Milestone.start = st := hst _ rfl
    subst hbefore
    change Milestone.start.InTurn (some (.calledBack (failureKind r))) ∧
      (DeliveryPhase.called n r).Reached
        (Milestone.start.after (some (.calledBack (failureKind r))))
    unfold DeliveryPhase.Reached
    simp only [DeliveryPhase.milestone]
    cases failureKind r with
    | none => exact ⟨fun st' h => (Option.some.inj h).symm, fun st' h => (Option.some.inj h).symm⟩
    | some kind => exact ⟨fun st' h => (by cases h), fun st' h => (Option.some.inj h).symm⟩
  | outcome hof now =>
    rcases r with e | row
    · exact ⟨hnone, hfailed⟩
    · exact reached_outcome hof hst
  | @reset report hstatus =>
    rcases r with e | row
    · exact ⟨hnone, hfailed⟩
    · have hbefore := hst _ rfl
      simp only [hstatus] at hbefore
      subst hbefore
      exact ⟨fun st' h => (Option.some.inj h).symm, fun st' h => (Option.some.inj h).symm⟩
  | success report =>
    rcases r with e | _
    · exact ⟨hnone, hfailed⟩
    · exact ⟨hnone, reached_finished true st⟩
  | failed hstatus =>
    rcases r with e | _
    · exact ⟨hnone, hfailed⟩
    · exact ⟨hnone, hfailed⟩
  | @deadLetter report hstatus =>
    rcases r with e | _
    · exact ⟨hnone, hfailed⟩
    · have hbefore := hst _ rfl
      simp only [hstatus] at hbefore
      subst hbefore
      exact ⟨fun st' h => (Option.some.inj h).symm, fun st' h => (Option.some.inj h).symm⟩
  | increment report =>
    rcases r with e | row
    · exact ⟨hnone, hfailed⟩
    · exact ⟨hnone, hst⟩
  | disable report hopen =>
    rcases r with e | row
    · exact ⟨hnone, hfailed⟩
    · exact ⟨fun _ h => (by cases h), hst⟩
  | circuitAlert report =>
    rcases r with e | _
    · exact ⟨hnone, hfailed⟩
    · exact ⟨hnone, hst⟩
  | closed report hclosed =>
    rcases r with e | _
    · exact ⟨hnone, hfailed⟩
    · exact ⟨hnone, hst⟩
  | dead report =>
    rcases r with e | _
    · exact ⟨hnone, hfailed⟩
    · exact ⟨hnone, hst⟩
  | deadAlert report =>
    rcases r with e | _
    · exact ⟨hnone, hfailed⟩
    · exact ⟨hnone, reached_finished true st⟩
  | completed m token =>
    rcases r with e | _ <;> exact ⟨hnone, fun _ h => by cases h⟩
  | thrown m token =>
    rcases r with e | _ <;> exact ⟨hnone, fun _ h => by cases h⟩

/-! ## Deliveries and their milestones -/

section Milestones

variable {S : Setup} {w₀ : World} {s : SystemState}

theorem follows_of_others {t : Task} (ht : t.isDelivery = false) {c : Call} (hc : t.Calls c)
    (r : Except Failure c.Reply) : (c.news r).bind News.follows = none := by
  have hrequest (h : c.ofStoring ∨ c.ofSwitching) : (c.news r).bind News.follows = none := by
    rcases requestMoves_eq h r with hnews | hnews <;> rw [hnews] <;> rfl
  cases t with
  | tick =>
    cases c with
    | redisSetNx key value n =>
      obtain ⟨j, t, rfl⟩ := hc
      rcases r with e | granted
      · rfl
      · cases granted <;> rfl
    | executionCreate data =>
      cases r with
      | ok x => rfl
      | error e =>
        simp only [Call.news]
        split <;> rfl
    | queueAdd data opts =>
      cases r with
      | ok _ =>
        simp only [Call.news]
        split <;> rfl
      | error e => rfl
    | jobFindMany => cases r <;> rfl
    | redisRelease key token => cases r <;> rfl
    | _ => exact hc.elim
  | deliver m => cases ht
  | trigger id => rw [triggerMoves_eq hc r]; rfl
  | deleteJob id => exact hrequest (Or.inr hc)
  | bulkSetEnabled ids enabled => exact hrequest (Or.inr hc)
  | _ => exact hrequest (Or.inl hc)

theorem reached_of_delivering (hr : Reachable S w₀ s) {i : Nat} {d : ExecutionJobData}
    (hd : delivering s i = some d) :
    ((protocol S.env d).stateAt i .looking s.trace).Reached
      (milestones.stateAt i .start s.trace) := by
  rw [Monitor.stateAt_transcript, Monitor.stateAt_transcript]
  refine (delivery_follows hr hd).keeps
    (R := fun phase calls => phase.Reached (milestones.after .start calls)) ?_ ?_
  · exact fun st' h => (Option.some.inj h).symm
  · intro phase calls a hreached hpermits
    rw [Monitor.after_append]
    exact (reached_next hpermits hreached a.seen).2

theorem inTurn_of_awaits (hr : Reachable S w₀ s) {i : Nat} {tag : Task} {c : Call}
    {k : Except Failure c.Reply → Promise Response} (hi : s.Live i tag (.await c k))
    (r : Except Failure c.Reply) :
    (milestones.stateAt i .start s.trace).InTurn (c.news r) := by
  cases htag : tag.isDelivery with
  | false =>
    have hcalls : tag.Calls c := (hr.only (P := Task.Calls) (fun _ _ _ _ h => only_start h) hi).1
    intro st' h
    rw [follows_of_others htag hcalls r] at h
    cases h
  | true =>
    obtain ⟨m, rfl⟩ : ∃ m, tag = .deliver m := by
      cases tag <;> first | exact ⟨_, rfl⟩ | cases htag
    obtain ⟨d, hd⟩ := delivering_of_tag hr (Live.tag hi)
    have hwp := delivered_monitored (protocol S.env) .looking (fun st => st = .closed)
      (fun _ _ _ _ => trivial) (fun m token b => protocol_deliver m token) hr hi hd
    exact (reached_next hwp.1 (reached_of_delivering hr hd) r).1

theorem countP_sees (s : SystemState) (n : News) :
    s.trace.countP (Entry.sees fun c r => decide (c.news r = some n)) = heardOf s n := by
  refine List.countP_congr fun y _ => ?_
  cases y with
  | called i c reply seen => rfl
  | _ => simp [Entry.sees, entryNews]

/-- Of two kinds of news, one that brings a delivery to the milestones `p` and one that takes it
away, the second has been had as often as the first, but for the deliveries that are there. -/
theorem heardOf_balance (hr : Reachable S w₀ s) {n n' : News} {p : Milestone → Prop}
    [DecidablePred p] (hstart : ¬ p .start)
    (hturns : ∀ st news st', Milestone.Turn st news st' →
      (if news = some n then 1 else 0) + (if p st then 1 else 0) =
        (if news = some n' then 1 else 0) + if p st' then 1 else 0) :
    heardOf s n = heardOf s n' + s.population milestones .start p := by
  rw [← countP_sees, ← countP_sees]
  refine Run.balance milestones .start p hstart ?_ hr
  intro s i tag c k o hr _ hi
  have hturn := inTurn_of_awaits hr hi ((system S).attend c o s.world).2.2
  simp only [decide_eq_true_eq]
  exact hturns _ _ _ hturn.turn

end Milestones

/-! ## The account -/

/-- The deliveries whose callback has succeeded and that have not seen the streak reset. -/
def successesUncounted (s : SystemState) : Nat :=
  s.population milestones .start fun st => st = .answered ∨ st = .written

/-- The deliveries that have written SUCCESS and have not seen the streak reset. -/
def writtenUncounted (s : SystemState) : Nat :=
  s.population milestones .start fun st => st = .written

/-- The deliveries that have written DEAD and have not seen the dead letter added. -/
def deadUncounted (s : SystemState) : Nat :=
  s.population milestones .start fun st => st = .dying

/-- What the counters say about what the processes have seen. -/
structure MetricsAccount (s : SystemState) : Prop where
  ticks : s.world.metrics .schedulerTicks = s.trace.countP beginsTick
  enqueued : s.world.metrics .slotsEnqueued = heardOf s .slotAdded
  deduped : s.world.metrics .slotsDeduped = heardOf s .slotTaken
  failed : ∀ kind : FailureKind, s.world.metrics (.callbackAttempts kind.text) =
    heardOf s (.calledBack (some kind))
  ok : heardOf s (.calledBack none) =
    s.world.metrics (.callbackAttempts "ok") + successesUncounted s
  succeeded : heardOf s (.written .SUCCESS) =
    s.world.metrics (.executions .SUCCESS) + writtenUncounted s
  dead : heardOf s (.written .DEAD) = s.world.metrics (.executions .DEAD) + deadUncounted s
  others : ∀ status, status ≠ .SUCCESS → status ≠ .DEAD →
    s.world.metrics (.executions status) = 0
  /-- a job that was disabled already is counted again -/
  opened : s.world.metrics .circuitOpen = s.trace.countP (opensBreaker s)

section Balance

variable {st st' : Milestone} {news : Option News}

theorem ne_of_follows {n : News} (h : news.bind News.follows = none) (hn : n.follows ≠ none) :
    news ≠ some n := by
  intro heq
  rw [heq] at h
  exact hn h

theorem balance_ok (h : Milestone.Turn st news st') :
    (if news = some (.calledBack none) then 1 else 0) +
        (if st = .answered ∨ st = .written then 1 else 0) =
      (if news = some .streakReset then 1 else 0) +
        if st' = .answered ∨ st' = .written then 1 else 0 := by
  cases h with
  | stays st h =>
    have hcalled := ne_of_follows (n := .calledBack none) h (by simp [News.follows])
    have hreset := ne_of_follows (n := .streakReset) h (by simp [News.follows])
    simp only [if_neg hcalled, if_neg hreset]
  | _ => simp

theorem balance_written (h : Milestone.Turn st news st') :
    (if news = some (.written .SUCCESS) then 1 else 0) + (if st = .written then 1 else 0) =
      (if news = some .streakReset then 1 else 0) + if st' = .written then 1 else 0 := by
  cases h with
  | stays st h =>
    have hwritten := ne_of_follows (n := .written .SUCCESS) h (by simp [News.follows])
    have hreset := ne_of_follows (n := .streakReset) h (by simp [News.follows])
    simp only [if_neg hwritten, if_neg hreset]
  | _ => simp

theorem balance_dead (h : Milestone.Turn st news st') :
    (if news = some (.written .DEAD) then 1 else 0) + (if st = .dying then 1 else 0) =
      (if news = some .deadLetterAdded then 1 else 0) + if st' = .dying then 1 else 0 := by
  cases h with
  | stays st h =>
    have hwritten := ne_of_follows (n := .written .DEAD) h (by simp [News.follows])
    have hadded := ne_of_follows (n := .deadLetterAdded) h (by simp [News.follows])
    simp only [if_neg hwritten, if_neg hadded]
  | _ => simp

end Balance

/-- In every run the counters account for what the processes have seen. -/
theorem metrics_account {S : Setup} {jobs : List Job} {hjobs : (jobs.map (·.id)).Nodup}
    {clock : Nat → Int} {s : SystemState} (hr : Reachable S (.initial jobs hjobs clock) s) :
    MetricsAccount s where
  ticks := (metrics_eq_moves hr _).trans (moves_ticks hr)
  enqueued := (metrics_eq_moves hr _).trans
    (moves_heardOf hr (fun h => by cases h) fun _ => List.mem_singleton.mpr rfl)
  deduped := (metrics_eq_moves hr _).trans
    (moves_heardOf hr (fun h => by cases h) fun _ => List.mem_singleton.mpr rfl)
  failed kind := (metrics_eq_moves hr _).trans
    (moves_heardOf hr (fun h => by cases h) fun _ => List.mem_singleton.mpr rfl)
  ok := by
    rw [metrics_eq_moves hr, moves_heardOf (n := .streakReset) hr (fun h => by cases h)
      fun _ => by simp [News.moves]]
    exact heardOf_balance hr (by simp) fun st news st' h => balance_ok h
  succeeded := by
    rw [metrics_eq_moves hr, moves_heardOf (n := .streakReset) hr (fun h => by cases h)
      fun _ => by simp [News.moves]]
    exact heardOf_balance hr (by simp) fun st news st' h => balance_written h
  dead := by
    rw [metrics_eq_moves hr, moves_heardOf (n := .deadLetterAdded) hr (fun h => by cases h)
      fun _ => by simp [News.moves]]
    exact heardOf_balance hr (by simp) fun st news st' h => balance_dead h
  others status hs hd := (metrics_eq_moves hr _).trans
    (moves_none hr (fun h => by cases h) (by cases status <;> first | rfl | contradiction))
  opened := (metrics_eq_moves hr _).trans (moves_opened hr)

/-- An execution is called back with success; the reset of the streak after its SUCCESS fails. -/
def uncountedSuccess : List SystemEvent :=
  [.begin .tick] ++ List.replicate 4 (Sample.answered 0) ++
    [.begin (.deliver 0)] ++ List.replicate 5 (Sample.answered 1) ++
    [.resume 1 (.answered { exchange := ⟨[], .response 200⟩ }), Sample.answered 1,
      .resume 1 (.rejected (.store "Connection is closed."))]

theorem metrics_account_uncounted : ∃ s, Reachable Sample.setup Sample.world s ∧
    heardOf s (.written .SUCCESS) = 1 ∧ s.world.metrics (.executions .SUCCESS) = 0 ∧
    writtenUncounted s = 1 ∧ MetricsAccount s := by
  have hrun : ((system Sample.setup).run (.fresh Sample.world) uncountedSuccess).map
      (fun s => decide (heardOf s (.written .SUCCESS) = 1 ∧
        s.world.metrics (.executions .SUCCESS) = 0)) = some true := by decide +kernel
  obtain ⟨s, hs, hcounts⟩ := Option.map_eq_some_iff.mp hrun
  obtain ⟨hwritten, hmetric⟩ := of_decide_eq_true hcounts
  have hr : Reachable Sample.setup Sample.world s := .of_run hs fun _ _ _ => trivial
  have haccount := metrics_account hr
  have hsucceeded := haccount.succeeded
  rw [hwritten, hmetric, Nat.zero_add] at hsucceeded
  exact ⟨s, hr, hwritten, hmetric, hsucceeded.symm, haccount⟩

/-! ## The counters and the stores -/

end CronHive
