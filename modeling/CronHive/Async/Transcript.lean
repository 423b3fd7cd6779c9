import CronHive.Async.Interleaving
import Mathlib.Data.List.Nodup
import Mathlib.Data.List.Perm.Subperm

/-!
# Transcripts of threads

The transcript of a thread is the list of its calls with what it saw of each. A thread that
keeps to its monitor leaves a transcript each of whose calls was permitted after the ones
before it, so a property of transcripts is proved call by call, along the monitor's states.
-/

namespace Async

set_option autoImplicit false

variable {Op Loc : Type} {Res : Op → Type} {Val : Loc → Type} {ε α σ : Type}
variable {World Tag Choice Env : Type}

/-- The calls of thread `i` and what it saw of each. -/
def transcript (i : Nat) (tr : List (Entry Res ε Tag Env)) : List (Answer Res ε) :=
  Monitor.log.stateAt i [] tr

theorem transcript_append (i : Nat) (tr : List (Entry Res ε Tag Env)) (e : Entry Res ε Tag Env) :
    transcript i (tr ++ [e]) = Monitor.log.observe i (transcript i tr) e :=
  Monitor.stateAt_append _ i [] tr e

theorem transcript_other {i : Nat} {e : Entry Res ε Tag Env} (h : e.isCallOf i = false)
    (tr : List (Entry Res ε Tag Env)) : transcript i (tr ++ [e]) = transcript i tr := by
  rw [transcript_append]
  cases e with
  | called j op reply seen =>
    have hj : j ≠ i := by simpa [Entry.isCallOf] using h
    simp only [Monitor.observe, if_neg hj]
  | _ => rfl

theorem transcript_own {i : Nat} {op : Op} {reply : Option (Except ε (Res op))}
    {seen : Except ε (Res op)} (tr : List (Entry Res ε Tag Env)) :
    transcript i (tr ++ [.called i op reply seen]) = transcript i tr ++ [⟨op, seen⟩] := by
  rw [transcript_append]
  simp only [Monitor.observe, if_true, Monitor.log]

theorem mem_transcript {i : Nat} {tr : List (Entry Res ε Tag Env)} {op : Op}
    {seen : Except ε (Res op)} :
    ⟨op, seen⟩ ∈ transcript i tr ↔ ∃ reply, Entry.called i op reply seen ∈ tr := by
  induction tr using List.reverseRecOn with
  | nil => simp [transcript, Monitor.stateAt]
  | append_singleton tr e ih =>
    rw [transcript_append]
    cases e with
    | called j op' reply' seen' =>
      by_cases hj : j = i
      · subst hj
        simp only [Monitor.observe, Monitor.log, if_true, List.mem_append, List.mem_singleton, ih]
        constructor
        · intro h
          rcases h with ⟨reply, h⟩ | h
          · exact ⟨reply, Or.inl h⟩
          · cases h
            exact ⟨reply', Or.inr rfl⟩
        · intro h
          obtain ⟨reply, h | h⟩ := h
          · exact Or.inl ⟨reply, h⟩
          · cases h
            exact Or.inr rfl
      · simp only [Monitor.observe, if_neg hj, ih, List.mem_append, List.mem_singleton]
        refine exists_congr fun reply => ⟨Or.inl, fun h => h.resolve_right fun heq => ?_⟩
        cases heq
        exact hj rfl
    | _ => simp [Monitor.observe, ih]

namespace Monitor

variable (m : Monitor Res ε σ)

/-- The state after these calls. -/
def after (st : σ) (calls : List (Answer Res ε)) : σ :=
  calls.foldl (fun st a => m.next st a.op a.seen) st

/-- Every call is permitted after the ones before it. -/
def Follows : σ → List (Answer Res ε) → Prop
  | _, [] => True
  | st, a :: calls => m.permits st a.op ∧ Follows (m.next st a.op a.seen) calls

@[simp] theorem after_append (st : σ) (calls : List (Answer Res ε)) (a : Answer Res ε) :
    m.after st (calls ++ [a]) = m.next (m.after st calls) a.op a.seen := by
  simp [after]

theorem follows_append {st : σ} {calls : List (Answer Res ε)} {a : Answer Res ε} :
    m.Follows st (calls ++ [a]) ↔ m.Follows st calls ∧ m.permits (m.after st calls) a.op := by
  induction calls generalizing st with
  | nil => simp [Follows, after]
  | cons b calls ih =>
    simp only [List.cons_append, Follows, ih, after, List.foldl_cons, and_assoc]

theorem stateAt_transcript (i : Nat) (st : σ) (tr : List (Entry Res ε Tag Env)) :
    m.stateAt i st tr = m.after st (transcript i tr) := by
  induction tr using List.reverseRecOn with
  | nil => rfl
  | append_singleton tr e ih =>
    rw [stateAt_append, transcript_append, ih]
    cases e with
    | called j op reply seen =>
      by_cases hj : j = i
      · simp only [observe, if_pos hj]
        exact (after_append m st (transcript i tr) ⟨op, seen⟩).symm
      · simp only [observe, if_neg hj]
    | _ => rfl

variable {m}

/-- What every permitted call keeps holds between the state and the calls that led to it. -/
theorem Follows.keeps {R : σ → List (Answer Res ε) → Prop} {st : σ} (h₀ : R st [])
    (step : ∀ st calls a, R st calls → m.permits st a.op →
      R (m.next st a.op a.seen) (calls ++ [a])) {calls : List (Answer Res ε)}
    (h : m.Follows st calls) : R (m.after st calls) calls := by
  induction calls using List.reverseRecOn with
  | nil => exact h₀
  | append_singleton calls a ih =>
    obtain ⟨hcalls, ha⟩ := m.follows_append.mp h
    rw [after_append]
    exact step _ _ _ (ih hcalls) ha

/-- Where a call stands in a transcript, it was permitted. -/
theorem Follows.permits {st : σ} {calls post : List (Answer Res ε)} {a : Answer Res ε}
    (h : m.Follows st (calls ++ a :: post)) :
    m.Follows st calls ∧ m.permits (m.after st calls) a.op := by
  induction post using List.reverseRecOn with
  | nil => exact m.follows_append.mp h
  | append_singleton post b ih =>
    rw [← List.cons_append, ← List.append_assoc] at h
    exact ih (m.follows_append.mp h).1

end Monitor

/-! ## Which threads make a call -/

/-- The entry is a call that satisfies `P`. -/
def Entry.calls (P : Op → Bool) : Entry Res ε Tag Env → Bool
  | .called _ op _ _ => P op
  | _ => false

/-- The threads that make the calls that satisfy `P`, call by call. -/
def callers (P : Op → Bool) (tr : List (Entry Res ε Tag Env)) : List Nat :=
  tr.filterMap fun
    | .called i op _ _ => if P op then some i else none
    | _ => none

theorem length_callers (P : Op → Bool) (tr : List (Entry Res ε Tag Env)) :
    (callers P tr).length = tr.countP (Entry.calls P) := by
  unfold callers
  rw [List.length_filterMap_eq_countP]
  refine List.countP_congr fun e _ => ?_
  cases e with
  | called i op reply seen =>
    simp only [Entry.calls]
    split <;> simp_all
  | _ => simp [Entry.calls]

theorem mem_callers {P : Op → Bool} {tr : List (Entry Res ε Tag Env)} {i : Nat} :
    i ∈ callers P tr ↔ ∃ op reply seen, Entry.called i op reply seen ∈ tr ∧ P op = true := by
  unfold callers
  rw [List.mem_filterMap]
  constructor
  · intro h
    obtain ⟨e, he, hi⟩ := h
    cases e with
    | called j op reply seen =>
      dsimp only at hi
      split at hi
      · rename_i hP
        cases hi
        exact ⟨op, reply, seen, he, hP⟩
      · cases hi
    | _ => cases hi
  · intro h
    obtain ⟨op, reply, seen, he, hP⟩ := h
    exact ⟨_, he, if_pos hP⟩

theorem count_callers (P : Op → Bool) (tr : List (Entry Res ε Tag Env)) (i : Nat) :
    (callers P tr).count i = (transcript i tr).countP fun a => P a.op := by
  induction tr using List.reverseRecOn with
  | nil => rfl
  | append_singleton tr e ih =>
    rw [transcript_append, callers, List.filterMap_append, List.count_append, ← callers, ih]
    cases e with
    | called j op reply seen =>
      by_cases hj : j = i
      · subst hj
        by_cases hP : P op
        · simp [Monitor.observe, Monitor.log, hP]
        · simp [Monitor.observe, Monitor.log, hP]
      · by_cases hP : P op
        · simp [Monitor.observe, hP, hj]
        · simp [Monitor.observe, hP, hj]
    | _ => simp [Monitor.observe]

/-- Calls of which each thread makes at most one are no more than the threads that make them. -/
theorem countP_calls_le {P : Op → Bool} {tr : List (Entry Res ε Tag Env)} {threads : List Nat}
    (hone : ∀ i, ((transcript i tr).countP fun a => P a.op) ≤ 1)
    (hsub : callers P tr ⊆ threads) : tr.countP (Entry.calls P) ≤ threads.length := by
  rw [← length_callers]
  have hnodup : (callers P tr).Nodup := by
    refine List.nodup_iff_count_le_one.mpr fun i => ?_
    rw [count_callers]
    exact hone i
  exact (hnodup.subperm hsub).length_le

/-! ## Which threads have begun a task -/

/-- The threads that have begun `t`. -/
def beginners [DecidableEq Tag] (t : Tag) (tr : List (Entry Res ε Tag Env)) : List Nat :=
  tr.filterMap fun
    | .began i t' => if t' = t then some i else none
    | _ => none

theorem mem_beginners [DecidableEq Tag] {t : Tag} {tr : List (Entry Res ε Tag Env)} {i : Nat}
    (h : Entry.began i t ∈ tr) : i ∈ beginners t tr :=
  List.mem_filterMap.mpr ⟨_, h, if_pos rfl⟩

theorem length_beginners [DecidableEq Tag] (t : Tag) (tr : List (Entry Res ε Tag Env)) :
    (beginners t tr).length = tr.countP fun
      | .began _ t' => decide (t' = t)
      | _ => false := by
  unfold beginners
  rw [List.length_filterMap_eq_countP]
  refine List.countP_congr fun e _ => ?_
  cases e with
  | began i t' =>
    by_cases ht : t' = t
    · simp [ht]
    · simp [ht]
  | _ => simp

theorem Machine.Run.began {M : Machine Res Val ε α World Tag Choice Env}
    {ok : State Res Val ε α World Tag Env → Event Tag Choice Env ε → Prop} {w₀ : World}
    {s : State Res Val ε α World Tag Env} (h : M.Run ok (.fresh w₀) s) {i : Nat} {t : Tag}
    (hi : s.threads[i]?.map (·.tag) = some t) : Entry.began i t ∈ s.trace := by
  induction h with
  | refl => simp [State.fresh] at hi
  | tail _ _ hs ih =>
    rcases hs.tag_cases hi with hi | ⟨w, p, _, rfl, rfl, rfl⟩
    · exact hs.trace_subset (ih hi)
    · exact List.mem_append_right _ (List.mem_singleton.mpr rfl)

end Async
