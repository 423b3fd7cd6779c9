import Mathlib.Data.List.Basic
import Mathlib.Data.List.Induction
import Mathlib.Data.List.Count

/-!
# Streaks

How many entries of a history count since the last one that ends the streak.
-/

namespace Async

set_option autoImplicit false

/-- What an entry does to a streak. -/
inductive Mark where
  | counts
  | ends
  | neither
  deriving DecidableEq, Repr

variable {α : Type}

/-- Where a history splits is before its last entry or right at it. -/
theorem append_singleton_split {l pre post : List α} {x y : α}
    (h : l ++ [x] = pre ++ y :: post) :
    (pre = l ∧ y = x ∧ post = []) ∨ ∃ post', post = post' ++ [x] ∧ l = pre ++ y :: post' := by
  rcases List.eq_nil_or_concat' post with rfl | ⟨post', z, rfl⟩
  · obtain ⟨hl, hx⟩ := List.append_inj' h rfl
    cases hx
    exact Or.inl ⟨hl.symm, rfl, rfl⟩
  · have hassoc : l ++ [x] = (pre ++ y :: post') ++ [z] := by
      rw [h, List.append_assoc, List.cons_append]
    obtain ⟨hl, hx⟩ := List.append_inj' hassoc rfl
    cases hx
    exact Or.inr ⟨post', rfl, hl⟩

variable (mark : α → Mark)

def Mark.onto : Mark → Nat → Nat
  | .counts, n => n + 1
  | .ends, _ => 0
  | .neither, n => n

def streak (l : List α) : Nat := l.foldl (fun n x => (mark x).onto n) 0

@[simp] theorem streak_nil : streak mark [] = 0 := rfl

@[simp] theorem streak_append_singleton (l : List α) (x : α) :
    streak mark (l ++ [x]) = (mark x).onto (streak mark l) := by
  simp [streak]

variable {mark}

theorem streak_eq_zero {l : List α} (h : ∀ x ∈ l, mark x ≠ .counts) : streak mark l = 0 := by
  induction l using List.reverseRecOn with
  | nil => rfl
  | append_singleton l x ih =>
    have hl : streak mark l = 0 := ih fun y hy => h y (List.mem_append_left _ hy)
    have hx : mark x ≠ .counts := h x (List.mem_append_right _ (List.mem_singleton.mpr rfl))
    rw [streak_append_singleton, hl]
    cases hm : mark x with
    | counts => exact absurd hm hx
    | ends => rfl
    | neither => rfl

/-- Entries that end no streak add what counts among them. -/
theorem streak_append {l l' : List α} (h : ∀ x ∈ l', mark x ≠ .ends) :
    streak mark (l ++ l') = streak mark l + l'.countP fun x => mark x = .counts := by
  induction l' using List.reverseRecOn with
  | nil => simp
  | append_singleton l' x ih =>
    have hl := ih fun y hy => h y (List.mem_append_left _ hy)
    have hx : mark x ≠ .ends := h x (List.mem_append_right _ (List.mem_singleton.mpr rfl))
    rw [← List.append_assoc, streak_append_singleton, hl, List.countP_append]
    cases hm : mark x with
    | counts => simp [Mark.onto, hm, Nat.add_assoc]
    | ends => exact absurd hm hx
    | neither => simp [Mark.onto, hm]

/-- The last of them that counts brings the streak to its length. -/
theorem exists_last_counted {l : List α} (pre : List α) (h : ∀ x ∈ l, mark x ≠ .ends)
    (hpos : 0 < l.countP fun x => mark x = .counts) :
    ∃ l₁ x l₂, l = l₁ ++ x :: l₂ ∧ mark x = .counts ∧
      (l.countP fun x => mark x = .counts) ≤ streak mark (pre ++ l₁ ++ [x]) := by
  induction l using List.reverseRecOn with
  | nil => simp at hpos
  | append_singleton l y ih =>
    have hl : ∀ x ∈ l, mark x ≠ .ends := fun x hx => h x (List.mem_append_left _ hx)
    by_cases hy : mark y = .counts
    · refine ⟨l, y, [], rfl, hy, ?_⟩
      rw [List.append_assoc, streak_append h]
      exact Nat.le_add_left _ _
    · have hcount : ((l ++ [y]).countP fun x => mark x = .counts) =
          l.countP fun x => mark x = .counts := by
        simp [List.countP_append, hy]
      rw [hcount] at hpos ⊢
      obtain ⟨l₁, x, l₂, rfl, hx, hle⟩ := ih hl hpos
      exact ⟨l₁, x, l₂ ++ [y], by simp, hx, hle⟩

end Async
