import Mathlib.Logic.Function.Basic

/-!
# Stages

`n` effects that are to be had once each, in order, by one of many threads. Where the first
is had only while it has not been had yet and no thread gives up on the way, they are had all
or none whenever no thread is on the way.
-/

namespace Async

set_option autoImplicit false

/-- How often each effect has been had, and how many of them each thread has had on its way:
`0` also once it has had all. -/
@[ext] structure Stages where
  count : Nat → Nat
  phase : Nat → Nat

namespace Stages

variable {n : Nat} {v v' : Stages}

/-- Thread `i` has its next effect. -/
def advance (n : Nat) (v : Stages) (i : Nat) : Stages where
  count := Function.update v.count (v.phase i) (v.count (v.phase i) + 1)
  phase := Function.update v.phase i ((v.phase i + 1) % n)

theorem eq_advance {i k : Nat} (hi : v.phase i = k) (hcount : v'.count k = v.count k + 1)
    (hcounts : ∀ j, j ≠ k → v'.count j = v.count j) (hphase : v'.phase i = (k + 1) % n)
    (hphases : ∀ i', i' ≠ i → v'.phase i' = v.phase i') : v' = v.advance n i := by
  apply Stages.ext
  · funext j
    simp only [advance, hi]
    by_cases hj : j = k
    · rw [hj, Function.update_self, hcount]
    · rw [Function.update_of_ne hj, hcounts j hj]
  · funext i'
    simp only [advance, hi]
    by_cases hi' : i' = i
    · rw [hi', Function.update_self, hphase]
    · rw [Function.update_of_ne hi', hphases i' hi']

/-- Nothing happens, or a thread has its next effect: the first one only if it is the first to
have it. -/
inductive Move (n : Nat) (v v' : Stages) : Prop where
  | rest (h : v' = v)
  | advance (i : Nat) (hlt : v.phase i < n) (hfirst : v.phase i = 0 → v.count 0 = 0)
      (h : v' = v.advance n i)

/-- The first `k` effects have been had once each. -/
structure At (n k : Nat) (v : Stages) : Prop where
  le : k ≤ n
  count : ∀ j < n, v.count j = if j < k then 1 else 0
  phase : ∃ i₀, v.phase i₀ = k % n ∧ ∀ i, i ≠ i₀ → v.phase i = 0

theorem At.phase_eq {k i : Nat} (h : At n k v) (hlt : v.phase i < n)
    (hfirst : v.phase i = 0 → v.count 0 = 0) :
    v.phase i = k ∧ k < n ∧ ∀ i', i' ≠ i → v.phase i' = 0 := by
  obtain ⟨i₀, hi₀, hothers⟩ := h.phase
  by_cases hzero : v.phase i = 0
  · have hk : k = 0 := by
      by_contra hne
      have hcount := h.count 0 (by omega)
      rw [if_pos (by omega), hfirst hzero] at hcount
      cases hcount
    subst hk
    refine ⟨hzero, by omega, fun i' _ => ?_⟩
    by_cases hi' : i' = i₀
    · rw [hi', hi₀, Nat.zero_mod]
    · exact hothers i' hi'
  · have hi : i = i₀ := by
      by_contra hne
      exact hzero (hothers i hne)
    subst hi
    have hk : k < n := by
      rcases Nat.lt_or_ge k n with hk | hk
      · exact hk
      · rw [hi₀, Nat.le_antisymm h.le hk, Nat.mod_self] at hzero
        exact absurd rfl hzero
    rw [Nat.mod_eq_of_lt hk] at hi₀
    exact ⟨hi₀, hk, hothers⟩

theorem At.move {k : Nat} (h : At n k v) (hmove : Move n v v') : ∃ k', At n k' v' := by
  cases hmove with
  | rest hv =>
    subst hv
    exact ⟨k, h⟩
  | advance i hlt hfirst hv =>
    subst hv
    obtain ⟨hphase, hk, hothers⟩ := h.phase_eq hlt hfirst
    refine ⟨k + 1, hk, fun j hj => ?_, i, ?_, fun i' hi' => ?_⟩
    · simp only [advance, hphase]
      by_cases hjk : j = k
      · subst hjk
        rw [Function.update_self, h.count j hj]
        simp
      · rw [Function.update_of_ne hjk, h.count j hj]
        have hiff : j < k ↔ j < k + 1 := by omega
        simp only [hiff]
    · simp only [advance, hphase, Function.update_self]
    · simp only [advance, Function.update_of_ne hi']
      exact hothers i' hi'

theorem At.start (hcount : ∀ j, v.count j = 0) (hphase : ∀ i, v.phase i = 0) : At n 0 v where
  le := Nat.zero_le n
  count j _ := hcount j
  phase := ⟨0, by rw [hphase, Nat.zero_mod], fun i _ => hphase i⟩

theorem At.all_or_nothing {k : Nat} (h : At n k v) (hphase : ∀ i, v.phase i = 0) :
    (∀ j < n, v.count j = 0) ∨ ∀ j < n, v.count j = 1 := by
  obtain ⟨i₀, hi₀, _⟩ := h.phase
  rw [hphase] at hi₀
  by_cases hk : k = n
  · right
    intro j hj
    rw [h.count j hj, if_pos (hk ▸ hj)]
  · left
    have hlt : k < n := Nat.lt_of_le_of_ne h.le hk
    rw [Nat.mod_eq_of_lt hlt] at hi₀
    intro j hj
    rw [h.count j hj, if_neg (by omega)]

end Stages

end Async
