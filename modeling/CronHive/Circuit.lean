import Mathlib.Data.Nat.Notation
import Mathlib.Logic.Relation

/-!
# The circuit of one job

What `applyCircuitBreaker` is for, told without threads or tables: workers count dead
executions, and one that has counted up to the threshold disables the job, counts the opening
and announces it. Nothing here says that it found the job enabled.
-/

namespace CronHive

set_option autoImplicit false

/-- `row` is the streak and whether the job is enabled, `opening` and `announcing` are the
workers past the test and past the update, `opened` and `missed` are the updates that found the
job enabled and disabled. -/
@[ext] structure Circuit where
  row : Option (Nat × Bool)
  counted : Nat
  opening : Nat
  announcing : Nat
  opened : Nat
  missed : Nat
  metered : Nat
  alerted : Nat

namespace Circuit

def start (row : Option (Nat × Bool)) : Circuit := ⟨row, 0, 0, 0, 0, 0, 0, 0⟩

/-- One statement on the job, by the workers or, where `rewrites` allows it, by others. -/
inductive Move (threshold : Nat) (rewrites : Prop) (c : Circuit) : Circuit → Prop where
  | rest : Move threshold rewrites c c
  | rewritten (h : rewrites) (row : Option (Nat × Bool)) :
      Move threshold rewrites c { c with row := row }
  | counted {streak : Nat} {enabled : Bool} (hrow : c.row = some (streak, enabled)) :
      Move threshold rewrites c { c with
        row := some (streak + 1, enabled)
        counted := c.counted + 1
        opening := c.opening + if threshold ≤ streak + 1 then 1 else 0 }
  | disabled {streak opening : Nat} {enabled : Bool} (hrow : c.row = some (streak, enabled))
      (hopening : c.opening = opening + 1) :
      Move threshold rewrites c { c with
        row := some (streak, false)
        opening := opening
        announcing := c.announcing + 1
        opened := c.opened + if enabled then 1 else 0
        missed := c.missed + if enabled then 0 else 1
        metered := c.metered + 1 }
  | announced {announcing : Nat} (hannouncing : c.announcing = announcing + 1) :
      Move threshold rewrites c { c with
        announcing := announcing
        alerted := c.alerted + 1 }

abbrev Run (threshold : Nat) (rewrites : Prop) : Circuit → Circuit → Prop :=
  Relation.ReflTransGen (Move threshold rewrites)

variable {threshold : Nat} {rewrites : Prop} {c c' : Circuit}

theorem Move.mono {rewrites' : Prop} (h : rewrites → rewrites')
    (hm : Move threshold rewrites c c') : Move threshold rewrites' c c' := by
  cases hm with
  | rest => exact .rest
  | rewritten hr row => exact .rewritten (h hr) row
  | counted hrow => exact .counted hrow
  | disabled hrow hopening => exact .disabled hrow hopening
  | announced hannouncing => exact .announced hannouncing

theorem Run.mono {rewrites' : Prop} (h : rewrites → rewrites') (hr : Run threshold rewrites c c') :
    Run threshold rewrites' c c' :=
  Relation.ReflTransGen.mono (fun _ _ => Move.mono h) _ _ hr

/-- No worker is past the test. -/
def Over (c : Circuit) : Prop := c.opening = 0 ∧ c.announcing = 0

/-- The opening is counted once, and announced once when all workers have come through. -/
def AnnouncedOnce (c : Circuit) : Prop :=
  c.metered = c.opened ∧ (c.Over → c.alerted = c.opened)

/-- Every disabling update is counted, and announced or about to be. -/
structure Balanced (c : Circuit) : Prop where
  metered : c.metered = c.opened + c.missed
  alerted : c.alerted + c.announcing = c.opened + c.missed

theorem found_or_not (c : Circuit) (found : Bool) :
    (c.opened + if found then 1 else 0) + (c.missed + if found then 0 else 1) =
      c.opened + c.missed + 1 := by
  cases found
  · simp
    omega
  · simp
    omega

theorem Balanced.move (h : Balanced c) (hm : Move threshold rewrites c c') : Balanced c' := by
  obtain ⟨hmetered, halerted⟩ := h
  cases hm with
  | rest => exact ⟨hmetered, halerted⟩
  | rewritten hr row => exact ⟨hmetered, halerted⟩
  | counted hrow => exact ⟨hmetered, halerted⟩
  | @disabled streak opening enabled hrow hopening =>
    have htotal := found_or_not c enabled
    constructor
    · dsimp only
      omega
    · dsimp only
      omega
  | announced hannouncing =>
    constructor
    · exact hmetered
    · simp only
      omega

theorem Run.balanced {row : Option (Nat × Bool)} (hr : Run threshold rewrites (start row) c) :
    Balanced c := by
  induction hr with
  | refl => exact ⟨rfl, rfl⟩
  | tail _ hm ih => exact ih.move hm

theorem Balanced.announcedOnce_iff (h : Balanced c) : c.AnnouncedOnce ↔ c.missed = 0 := by
  obtain ⟨hmetered, halerted⟩ := h
  constructor
  · intro honce
    have hcounted := honce.1
    omega
  · intro hmissed
    constructor
    · omega
    · intro hover
      have hannouncing := hover.2
      omega

/-! ## Without other writes -/

/-- What the workers alone make of a job with `streak` dead executions. -/
structure Counting (threshold streak : Nat) (enabled : Bool) (c : Circuit) : Prop where
  row : c.row = some (streak + c.counted, enabled && decide (c.opened + c.missed = 0))
  passed : c.opened + c.missed + c.opening = min c.counted (streak + c.counted + 1 - threshold)
  opened : c.opened = if enabled then min 1 (c.opened + c.missed) else 0

theorem Counting.move {streak : Nat} {enabled : Bool} (h : Counting threshold streak enabled c)
    (hm : Move threshold False c c') : Counting threshold streak enabled c' := by
  obtain ⟨hrow, hpassed, hopened⟩ := h
  cases hm with
  | rest => exact ⟨hrow, hpassed, hopened⟩
  | rewritten hr row => exact hr.elim
  | counted hrow' =>
    obtain ⟨rfl, rfl⟩ := Prod.mk.inj (Option.some.inj (hrow'.symm.trans hrow))
    constructor
    · rfl
    · dsimp only
      split <;> omega
    · exact hopened
  | @disabled streak' opening found hrow' hopening =>
    obtain ⟨rfl, hfound⟩ := Prod.mk.inj (Option.some.inj (hrow'.symm.trans hrow))
    have htotal := found_or_not c found
    constructor
    · rw [htotal]
      simp
    · rw [htotal]
      dsimp only
      omega
    · rw [htotal, hfound]
      cases enabled with
      | false => simpa using hopened
      | true =>
        by_cases hnone : c.opened + c.missed = 0
        · rw [decide_eq_true hnone]
          simp only [Bool.and_self, if_true]
          omega
        · rw [decide_eq_false hnone]
          simp only [Bool.and_false, Bool.false_eq_true, if_true, if_false] at hopened ⊢
          omega
  | announced hannouncing => exact ⟨hrow, hpassed, hopened⟩

theorem Run.counting {streak : Nat} {enabled : Bool}
    (hr : Run threshold False (start (some (streak, enabled))) c) :
    Counting threshold streak enabled c := by
  induction hr with
  | refl =>
    constructor
    · simp [start]
    · simp [start]
    · simp [start]
  | tail _ hm ih => exact ih.move hm

/-- Once all workers have come through, the opening is announced once exactly if at most one
of them counted, or none counted past the threshold. -/
theorem Run.announcedOnce_iff {streak : Nat} {enabled : Bool}
    (hr : Run threshold False (start (some (streak, enabled))) c) (hover : c.Over) :
    c.AnnouncedOnce ↔
      if enabled then c.counted ≤ 1 ∨ streak + c.counted ≤ threshold
      else c.counted = 0 ∨ streak + c.counted < threshold := by
  obtain ⟨_, hpassed, hopened⟩ := hr.counting
  have hopening := hover.1
  rw [hr.balanced.announcedOnce_iff]
  cases enabled with
  | false =>
    simp only [Bool.false_eq_true, if_false] at hopened ⊢
    omega
  | true =>
    simp only [if_true] at hopened ⊢
    omega

end Circuit

end CronHive
