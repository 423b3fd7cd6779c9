import CronHive.Iteration
import CronHive.Ledger

/-!
# A slot is fired at most once

The ledger makes the row of a slot unique, and a thread adds the slot's message only in the
phase that follows its own insert. So no run adds the message of a slot twice, and every
message names the row that was inserted for its slot.
-/

namespace CronHive

set_option autoImplicit false

open Async Async.Machine

/-- An awaited `queue.add` of the scheduled message of one slot, however it ended. -/
def isAdd (j : JobId) (t : Int) : TraceEntry → Bool
  | .called _ (.queueAdd data _) _ _ => data.jobId = j ∧ data.fireSlot = .time t
  | _ => false

/-- The row a thread enqueues is one that it inserted for the slot. -/
def Backed (tr : List TraceEntry) (i : Nat) (j : JobId) (t : Int) (id : ExecutionId) : Prop :=
  ∃ x, Inserted tr i x ∧ x.jobId = j ∧ x.scheduledFor = some t ∧ x.id = id

theorem Backed.append {tr : List TraceEntry} {i : Nat} {j : JobId} {t : Int} {id : ExecutionId}
    (h : Backed tr i j t id) (e : TraceEntry) : Backed (tr ++ [e]) i j t id := by
  obtain ⟨x, hx, hrest⟩ := h
  exact ⟨x, hx.mono (List.subset_append_left _ _), hrest⟩

structure AddsOnce (s : SystemState) : Prop where
  claimed : ∀ i j t id, phaseAt s.trace i = .claimed j t id →
    Backed s.trace i j t id ∧ s.trace.countP (isAdd j t) = 0
  once : ∀ j t, s.trace.countP (isAdd j t) ≤ 1
  backed : ∀ i data opts reply seen t, Entry.called i (.queueAdd data opts) reply seen ∈ s.trace →
    data.fireSlot = .time t → Backed s.trace i data.jobId t data.executionId

namespace AddsOnce

variable {S : Setup} {s s' : SystemState}

/-- A step that enters no claimed phase and adds no scheduled message. -/
theorem frame (h : AddsOnce s) {e : TraceEntry} (htr : s'.trace = s.trace ++ [e])
    (hphase : ∀ i j t id, phaseAt s'.trace i = .claimed j t id →
      phaseAt s.trace i = .claimed j t id)
    (hadd : ∀ j t, isAdd j t e = false) : AddsOnce s' := by
  have hcount : ∀ j t, s'.trace.countP (isAdd j t) = s.trace.countP (isAdd j t) := by
    intro j t
    rw [htr, List.countP_append]
    simp [hadd j t]
  constructor
  · intro i j t id hp
    obtain ⟨hb, h0⟩ := h.claimed i j t id (hphase i j t id hp)
    rw [hcount, htr]
    exact ⟨hb.append e, h0⟩
  · intro j t
    rw [hcount]
    exact h.once j t
  · intro i data opts reply seen t hm ht
    rw [htr] at hm ⊢
    rcases List.mem_append.mp hm with hm | hm
    · exact (h.backed i data opts reply seen t hm ht).append e
    · have hno := hadd data.jobId t
      rw [← List.mem_singleton.mp hm] at hno
      simp [isAdd, ht] at hno

theorem insert (h : AddsOnce s) (hl : Ledger s) {i : Nat} {tag : Task} {data : ExecutionCreate}
    {k : Except Failure Execution → Promise Response} {o : Outcome Choice Failure} :
    AddsOnce ((system S).resumed s i tag (.executionCreate data) k o) := by
  have hcount : ∀ j t, ((system S).resumed s i tag (.executionCreate data) k o).trace.countP
      (isAdd j t) = s.trace.countP (isAdd j t) := by
    intro j t
    simp [resumed, List.countP_append, isAdd]
  constructor
  · intro i' j t id hp
    rw [hcount]
    simp only [resumed, phaseAt_called] at hp ⊢
    split at hp
    · rename_i hi
      subst hi
      rcases next_insert_claimed hp with hp | ⟨x, hseen, hj, ht, hid⟩
      · obtain ⟨hb, h0⟩ := h.claimed i j t id hp
        exact ⟨hb.append _, h0⟩
      · have hok := attend_ok hseen
        have hrow := (attend_insert hok).2.1
        have hmem : Entry.called i (.executionCreate data) (some (.ok x)) _ ∈
            ((system S).resumed s i tag (.executionCreate data) k o).trace := called_resumed hok
        refine ⟨⟨x, ⟨data, _, hmem⟩, ?_, ?_, hid⟩, ?_⟩
        · rw [hrow]
          exact hj
        · rw [hrow]
          exact ht
        · -- an earlier add would be backed by an earlier row of the slot
          rw [List.countP_eq_zero]
          intro e he hadd
          cases e with
          | called i' op reply seen =>
            cases op with
            | queueAdd data' opts =>
              simp only [isAdd, decide_eq_true_eq] at hadd
              obtain ⟨y, hy, hyj, hyt, _⟩ := h.backed i' data' opts reply seen t he hadd.2
              exact hl.first hok hy (hyj.trans (hadd.1.trans hj.symm)) hyt ht
            | _ => simp [isAdd] at hadd
          | _ => simp [isAdd] at hadd
    · obtain ⟨hb, h0⟩ := h.claimed i' j t id hp
      exact ⟨hb.append _, h0⟩
  · intro j t
    rw [hcount]
    exact h.once j t
  · intro i' data' opts reply seen t hm ht
    simp only [resumed, List.mem_append, List.mem_singleton, Entry.called.injEq, reduceCtorEq,
      false_and, and_false, or_false] at hm ⊢
    exact (h.backed i' data' opts reply seen t hm ht).append _

theorem add (h : AddsOnce s) (hl : Ledger s) {i : Nat} {tag : Task} {j : JobId} {t : Int}
    {id : ExecutionId} {opts : JobsOptions} {k : Except Failure Unit → Promise Response}
    {o : Outcome Choice Failure} (hi : phaseAt s.trace i = .claimed j t id) :
    AddsOnce ((system S).resumed s i tag (.queueAdd ⟨id, j, .time t⟩ opts) k o) := by
  obtain ⟨hb, h0⟩ := h.claimed i j t id hi
  obtain ⟨x, hx, hxj, hxt, hxid⟩ := hb
  have hcount : ∀ j' t', ((system S).resumed s i tag (.queueAdd ⟨id, j, .time t⟩ opts) k
      o).trace.countP (isAdd j' t') =
        s.trace.countP (isAdd j' t') + if j = j' ∧ t = t' then 1 else 0 := by
    intro j' t'
    simp [resumed, List.countP_append, List.countP_cons, isAdd]
  constructor
  · intro i' j' t' id' hp
    simp only [resumed, phaseAt_called] at hp
    split at hp
    · cases hp
    · rename_i hne
      obtain ⟨hb', h0'⟩ := h.claimed i' j' t' id' hp
      refine ⟨hb'.append _, ?_⟩
      rw [hcount, h0', if_neg]
      -- two threads would have inserted the same slot
      rintro ⟨rfl, rfl⟩
      obtain ⟨y, hy, hyj, hyt, _⟩ := hb'
      exact hne (hl.unique i x i' y t hx hy (hxj.trans hyj.symm) hxt hyt).1
  · intro j' t'
    rw [hcount]
    split
    · rename_i hjt
      obtain ⟨rfl, rfl⟩ := hjt
      omega
    · exact h.once j' t'
  · intro i' data opts' reply seen t' hm ht'
    rcases List.mem_append.mp hm with hm | hm
    · exact (h.backed i' data opts' reply seen t' hm ht').append _
    · cases List.mem_singleton.mp hm
      cases ht'
      exact Backed.append ⟨x, hx, hxj, hxt, hxid⟩ _

theorem step (h : AddsOnce s) (hl : Ledger s) {w₀ : World} (hr : Reachable S w₀ s)
    {e : SystemEvent} (hs : (system S).Step s e s') : AddsOnce s' := by
  cases hs with
  | begin _ => exact h.frame rfl (fun _ _ _ _ hp => by simpa [spawned] using hp) fun _ _ => rfl
  | @resume i tag op k o hi =>
    by_cases hins : ∃ data, op = .executionCreate data
    · obtain ⟨data, rfl⟩ := hins
      exact h.insert hl
    · have hne : ∀ data, op ≠ .executionCreate data := fun data hd => hins ⟨data, hd⟩
      by_cases hadd : ∃ j t, isAdd j t (.called i op ((system S).attend op o s.world).2.1
          ((system S).attend op o s.world).2.2)
      · obtain ⟨j, t, hadd⟩ := hadd
        have hp := phase_permits hr ⟨tag, k, hi⟩
        cases op with
        | queueAdd data opts =>
          simp only [isAdd, decide_eq_true_eq] at hadd
          cases hphase : phaseAt s.trace i with
          | idle =>
            rw [hphase] at hp
            cases hadd.2.symm.trans hp
          | locked j' t' =>
            rw [hphase] at hp
            cases hp
          | claimed j' t' id =>
            rw [hphase] at hp
            obtain ⟨opts', hop⟩ := hp
            cases hop
            exact h.add hl hphase
        | _ => simp [isAdd] at hadd
      · refine h.frame rfl ?_ fun j t => ?_
        · intro i' j t id hp
          simp only [resumed, phaseAt_called] at hp
          split at hp
          · rename_i hi
            subst hi
            exact next_claimed hne hp
          · exact hp
        · exact Bool.eq_false_iff.mpr fun h => hadd ⟨j, t, h⟩
  | stop _ => exact h.frame rfl (fun _ _ _ _ hp => by simpa [halted] using hp) fun _ _ => rfl
  | outside _ => exact h.frame rfl (fun _ _ _ _ hp => by simpa [moved] using hp) fun _ _ => rfl

theorem of_reachable {w₀ : World} (h : Reachable S w₀ s) : AddsOnce s := by
  refine h.keeps ⟨?_, ?_, ?_⟩ fun s e s' hr ih _ hs => ih.step (.of_reachable hr) hr hs
  · intro i j t id hp
    cases hp
  · intro j t
    exact Nat.zero_le _
  · intro i data opts reply seen t hm
    cases hm

end AddsOnce

/-- Firing at most once, in a state `s` of a run from `w₀`. -/
structure FiresOnce (w₀ : World) (s : SystemState) : Prop where
  adds : ∀ j t, s.trace.countP (isAdd j t) ≤ 1
  rows : ∀ j t,
    (s.world.db.executions.filter fun x => x.jobId = j ∧ x.scheduledFor = some t).length ≤ 1
  message : ∀ i data opts reply seen t,
    Entry.called i (.queueAdd data opts) reply seen ∈ s.trace → data.fireSlot = .time t →
    ∃ x, Inserted s.trace i x ∧ x.id = data.executionId ∧ x.jobId = data.jobId ∧
      x.scheduledFor = some t ∧ ∀ i' x', Inserted s.trace i' x' → x'.jobId = data.jobId →
        x'.scheduledFor = some t → x' = x
  queued : ∀ m ∈ s.world.queue, m.data ∈ w₀.queue.map (·.data) ∨ Enqueued s.trace m.data
  /-- a row without a slot is inserted beside whatever rows there are -/
  manual : ∀ j source now, s.world.db.hasJob j →
    ∃ x, (s.world.db.executionCreate ⟨j, none, source⟩ now).2 = .ok x ∧
      x ∉ s.world.db.executions ∧
      (s.world.db.executionCreate ⟨j, none, source⟩ now).1.executions =
        s.world.db.executions ++ [x]
  /-- only a row of the slot blocks the slot -/
  unblocked : ∀ j t now, s.world.db.hasJob j →
    (∀ x ∈ s.world.db.executions, x.jobId = j → x.scheduledFor ≠ some t) →
    ∃ x, (s.world.db.executionCreate ⟨j, some t, .schedule⟩ now).2 = .ok x

theorem fires_at_most_once {S : Setup} {w₀ : World} {s : SystemState}
    (h : Reachable S w₀ s) : FiresOnce w₀ s where
  adds := (AddsOnce.of_reachable h).once
  rows := s.world.db.slot_rows
  message := by
    intro i data opts reply seen t hm ht
    obtain ⟨x, hx, hxj, hxt, hxid⟩ :=
      (AddsOnce.of_reachable h).backed i data opts reply seen t hm ht
    refine ⟨x, hx, hxid, hxj, hxt, fun i' x' hx' hj' ht' => ?_⟩
    exact ((Ledger.of_reachable h).unique i' x' i x t hx' hx (hj'.trans hxj.symm) ht' hxt).2
  queued := queue_data h
  manual := by
    intro j source now hj
    have hok : (s.world.db.executionCreate ⟨j, none, source⟩ now).2 = .ok _ :=
      Postgres.executionCreate_free hj (by simp) now
    refine ⟨_, hok, ?_, (Postgres.executionCreate_ok hok).2.2.1⟩
    intro hm
    exact absurd (s.world.db.execution_known _ hm) (Nat.lt_irrefl _)
  unblocked := by
    intro j t now hj hfree
    refine ⟨_, Postgres.executionCreate_free hj ?_ now⟩
    rintro slot hslot ⟨x, hx, hxj, hxt⟩
    cases hslot
    exact hfree x hx hxj hxt

/-- Two ticks over one slot whose lock expires in between. -/
def overlappingTicks : List SystemEvent :=
  [.begin .tick, Sample.answered 0, Sample.answered 0,
    .outside (.expire (.lock "job-1" (.time 60000))),
    .begin .tick, Sample.answered 1, Sample.answered 1,
    Sample.answered 0, Sample.answered 1, Sample.answered 0, Sample.answered 1]

theorem fires_at_most_once_overlapping :
    ∃ s, (system Sample.setup).run (.fresh Sample.world) overlappingTicks = some s ∧
      s.world.queue.length = 1 ∧ FiresOnce Sample.world s := by
  have hrun : ((system Sample.setup).run (.fresh Sample.world) overlappingTicks).map
      (·.world.queue.length) = some 1 := by decide +kernel
  obtain ⟨s, hs, hq⟩ := Option.map_eq_some_iff.mp hrun
  exact ⟨s, hs, hq, fires_at_most_once (.of_run hs fun _ _ _ => trivial)⟩

end CronHive
