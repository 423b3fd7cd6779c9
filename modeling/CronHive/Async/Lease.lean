import CronHive.Async.Streak

/-!
# Leases

A lease is held from its grant until its holder gives it back or it expires. In a history where
it is granted only while it is free, it is held exactly when some grant has been followed by
neither.
-/

namespace Async

set_option autoImplicit false

/-- What an entry of a history does to a lease. -/
inductive LeaseMove (ι : Type) where
  | granted (i : ι)
  | released (i : ι)
  | expired
  | neither
  deriving DecidableEq, Repr

variable {α ι : Type}

/-- The lease has been granted to `i`, who has not given it back, and has not expired since. -/
def HeldBy (move : α → LeaseMove ι) (i : ι) (l : List α) : Prop :=
  ∃ pre x mid, l = pre ++ x :: mid ∧ move x = .granted i ∧
    ∀ y ∈ mid, move y ≠ .expired ∧ move y ≠ .released i

theorem HeldBy.append_singleton {move : α → LeaseMove ι} {i : ι} {l : List α} {x : α}
    (h : HeldBy move i l) (hx : move x ≠ .expired) (hx' : move x ≠ .released i) :
    HeldBy move i (l ++ [x]) := by
  obtain ⟨pre, y, mid, rfl, hy, hmid⟩ := h
  refine ⟨pre, y, mid ++ [x], by rw [List.append_assoc, List.cons_append], hy, ?_⟩
  intro z hz
  rcases List.mem_append.mp hz with hz | hz
  · exact hmid z hz
  · cases List.mem_singleton.mp hz
    exact ⟨hx, hx'⟩

variable [DecidableEq ι]

def LeaseMove.onto : LeaseMove ι → Option ι → Option ι
  | .granted i, _ => some i
  | .released i, h => if h = some i then none else h
  | .expired, _ => none
  | .neither, h => h

variable (move : α → LeaseMove ι)

def holder (l : List α) : Option ι := l.foldl (fun h x => (move x).onto h) none

@[simp] theorem holder_nil : holder move [] = none := rfl

@[simp] theorem holder_append_singleton (l : List α) (x : α) :
    holder move (l ++ [x]) = (move x).onto (holder move l) := by
  simp [holder]

/-- The lease is granted only while it is free. -/
def Exclusive (l : List α) : Prop :=
  ∀ pre x post i, l = pre ++ x :: post → move x = .granted i → holder move pre = none

variable {move} {i : ι} {l : List α}

theorem Exclusive.of_append {l' : List α} (h : Exclusive move (l ++ l')) : Exclusive move l := by
  intro pre y post i hl hy
  refine h pre y (post ++ l') i ?_ hy
  rw [hl, List.append_assoc, List.cons_append]

theorem heldBy_of_holder (h : holder move l = some i) : HeldBy move i l := by
  induction l using List.reverseRecOn generalizing i with
  | nil => cases h
  | append_singleton l x ih =>
    rw [holder_append_singleton] at h
    cases hx : move x with
    | granted i' =>
      rw [hx] at h
      cases h
      exact ⟨l, x, [], rfl, hx, fun y hy => absurd hy List.not_mem_nil⟩
    | released i' =>
      simp only [hx, LeaseMove.onto] at h
      split at h
      · cases h
      · rename_i hother
        refine (ih h).append_singleton (by rw [hx]; exact nofun) ?_
        rw [hx]
        intro hsame
        cases hsame
        exact hother h
    | expired =>
      rw [hx] at h
      cases h
    | neither =>
      rw [hx] at h
      refine (ih h).append_singleton ?_ ?_
      · rw [hx]
        exact nofun
      · rw [hx]
        exact nofun

/-- In an exclusive history the two agree. -/
theorem holder_eq_some_iff (hl : Exclusive move l) : holder move l = some i ↔ HeldBy move i l := by
  refine ⟨heldBy_of_holder, fun h => ?_⟩
  obtain ⟨pre, x, mid, rfl, hx, hmid⟩ := h
  induction mid using List.reverseRecOn with
  | nil => simp [hx, LeaseMove.onto]
  | append_singleton mid y ih =>
    have hsplit : pre ++ x :: (mid ++ [y]) = (pre ++ x :: mid) ++ [y] := by simp
    rw [hsplit] at hl ⊢
    have hbefore := ih (Exclusive.of_append hl) fun z hz => hmid z (List.mem_append_left _ hz)
    obtain ⟨hexpired, hreleased⟩ := hmid y (List.mem_append_right _ (List.mem_singleton.mpr rfl))
    rw [holder_append_singleton]
    cases hy : move y with
    | granted i' =>
      -- a second grant would have found the lease free
      have hfree := hl (pre ++ x :: mid) y [] i' rfl hy
      cases hfree.symm.trans hbefore
    | released i' =>
      have hne : i ≠ i' := by
        intro hsame
        subst hsame
        exact hreleased hy
      simp [LeaseMove.onto, hbefore, hne]
    | expired => exact absurd hy hexpired
    | neither => exact hbefore

theorem holder_isSome_iff (hl : Exclusive move l) :
    (holder move l).isSome ↔ ∃ i, HeldBy move i l := by
  rw [Option.isSome_iff_exists]
  exact exists_congr fun i => holder_eq_some_iff hl

end Async
