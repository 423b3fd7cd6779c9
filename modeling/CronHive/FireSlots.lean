import CronHive.System
import Mathlib.Data.Set.Basic
import Mathlib.Data.Int.ConditionallyCompleteOrder
import Mathlib.Order.ConditionallyCompleteLattice.Basic
import Mathlib.Order.Bounds.Basic
import Mathlib.Order.Interval.Set.Basic

/-!
# Scans and firings

`dueFireSlot` looks at one firing, the last before the scan. So a sequence of scans returns
every firing between its first and its last exactly if no two firings fall between the same
two neighbouring scans.
-/

namespace CronHive

set_option autoImplicit false

/-! ## Neighbouring points of a sequence -/

theorem exists_between_neighbours {α : Type} [LinearOrder α] {t : Nat → α} {n : Nat} {x : α}
    (h₀ : t 0 ≤ x) (hn : x < t n) : ∃ i < n, x ∈ Set.Ico (t i) (t (i + 1)) := by
  induction n with
  | zero => exact absurd h₀ (not_le_of_gt hn)
  | succ n ih =>
    by_cases hx : x < t n
    · obtain ⟨i, hi, hmem⟩ := ih hx
      exact ⟨i, Nat.lt_succ_of_lt hi, hmem⟩
    · exact ⟨n, Nat.lt_succ_self n, le_of_not_gt hx, hn⟩

theorem le_of_steps {α : Type} [Preorder α] {t : Nat → α} {n : Nat}
    (h : ∀ i < n, t i < t (i + 1)) {i j : Nat} (hij : i ≤ j) (hj : j ≤ n) : t i ≤ t j := by
  induction j with
  | zero =>
    have hi : i = 0 := Nat.le_zero.mp hij
    rw [hi]
  | succ j ih =>
    rcases Nat.of_le_succ hij with hle | heq
    · exact le_trans (ih hle (Nat.le_of_succ_le hj)) (le_of_lt (h j hj))
    · rw [heq]

/-! ## The last firing -/

/-- `prev` answers with the greatest firing strictly before the instant it is asked for. -/
structure IsPrev (F : Set Int) (prev : Int → Option Int) : Prop where
  firing : ∀ now f, prev now = some f → f ∈ F ∧ f < now
  greatest : ∀ now f, f ∈ F → f < now → ∃ g, prev now = some g ∧ f ≤ g

theorem IsPrev.eq_some {F : Set Int} {prev : Int → Option Int} (h : IsPrev F prev) {now f : Int}
    (hf : f ∈ F) (hlt : f < now) (hmax : ∀ g ∈ F, g < now → g ≤ f) : prev now = some f := by
  obtain ⟨g, hg, hfg⟩ := h.greatest now f hf hlt
  obtain ⟨hgF, hgnow⟩ := h.firing now g hg
  have heq : g = f := le_antisymm (hmax g hgF hgnow) hfg
  rw [hg, heq]

section Slots

variable {S : Setup} {cronExpression timezone : String}

theorem dueFireSlot_eq_some {now f : Int} : dueFireSlot S cronExpression timezone now = some f ↔
    S.platform.cronPrev cronExpression (timezoneOrUTC timezone) now = some f ∧
      0 ≤ now - f ∧ now - f ≤ S.env.windowMs := by
  unfold dueFireSlot
  split
  · rename_i h
    simp [h]
  · rename_i prev h
    simp only [h, Option.some.injEq]
    constructor
    · intro hdue
      split at hdue
      · cases hdue
        exact ⟨rfl, ‹_›⟩
      · cases hdue
    · rintro ⟨rfl, hwindow⟩
      rw [if_pos hwindow]

variable {F : Set Int} {t : Nat → Int} {n : Nat}

theorem due_last (hF : IsPrev F (S.platform.cronPrev cronExpression (timezoneOrUTC timezone)))
    {now f g : Int} (hdue : dueFireSlot S cronExpression timezone now = some f) (hg : g ∈ F)
    (hlt : g < now) : g ≤ f := by
  obtain ⟨g', hg', hle⟩ := hF.greatest now g hg hlt
  have heq := (dueFireSlot_eq_some.mp hdue).1.symm.trans hg'
  cases heq
  exact hle

theorem due_of_alone
    (hF : IsPrev F (S.platform.cronPrev cronExpression (timezoneOrUTC timezone)))
    {a b f : Int} (hgap : b - a ≤ S.env.windowMs) (hf : f ∈ F) (hab : f ∈ Set.Ico a b)
    (halone : ∀ g ∈ F, g ∈ Set.Ico a b → g = f) :
    dueFireSlot S cronExpression timezone b = some f := by
  obtain ⟨ha, hb⟩ := hab
  have hprev := hF.eq_some hf hb fun g hg hlt => by
    by_cases hga : a ≤ g
    · exact le_of_eq (halone g hg ⟨hga, hlt⟩)
    · omega
  exact dueFireSlot_eq_some.mpr ⟨hprev, by omega, by omega⟩

theorem returned_of_alone
    (hF : IsPrev F (S.platform.cronPrev cronExpression (timezoneOrUTC timezone)))
    (hgap : ∀ i < n, t (i + 1) - t i ≤ S.env.windowMs)
    (halone : ∀ i < n, ∀ f ∈ F, ∀ g ∈ F, f ∈ Set.Ico (t i) (t (i + 1)) →
      g ∈ Set.Ico (t i) (t (i + 1)) → f = g) :
    ∀ f ∈ F, t 0 ≤ f → f < t n →
      ∃ i ≤ n, dueFireSlot S cronExpression timezone (t i) = some f := by
  intro f hf h₀ hn
  obtain ⟨i, hi, hfi⟩ := exists_between_neighbours h₀ hn
  refine ⟨i + 1, hi, due_of_alone hF (hgap i hi) hf hfi fun g hg hgi => ?_⟩
  exact halone i hi g hg f hf hgi hfi

/-- Every firing is returned by some scan exactly if no two of them lie between the same
neighbouring scans. -/
theorem firings_returned_iff
    (hF : IsPrev F (S.platform.cronPrev cronExpression (timezoneOrUTC timezone)))
    (hinc : ∀ i < n, t i < t (i + 1)) (hgap : ∀ i < n, t (i + 1) - t i ≤ S.env.windowMs) :
    (∀ f ∈ F, t 0 ≤ f → f < t n →
        ∃ i ≤ n, dueFireSlot S cronExpression timezone (t i) = some f) ↔
      ∀ i < n, ∀ f ∈ F, ∀ g ∈ F, f ∈ Set.Ico (t i) (t (i + 1)) →
        g ∈ Set.Ico (t i) (t (i + 1)) → f = g := by
  constructor
  · intro hall
    -- the earlier of two such firings is hidden from the next scan and all later ones
    have hearlier : ∀ i < n, ∀ f ∈ F, ∀ g ∈ F, f ∈ Set.Ico (t i) (t (i + 1)) →
        g ∈ Set.Ico (t i) (t (i + 1)) → g ≤ f := by
      intro i hi f hf g hg hfi hgi
      have h₀ : t 0 ≤ f := le_trans (le_of_steps hinc (Nat.zero_le i) (Nat.le_of_lt hi)) hfi.1
      have hn : f < t n := lt_of_lt_of_le hfi.2 (le_of_steps hinc hi le_rfl)
      obtain ⟨k, hk, hdue⟩ := hall f hf h₀ hn
      have hfk : f < t k := (hF.firing _ _ (dueFireSlot_eq_some.mp hdue).1).2
      have hik : i + 1 ≤ k := by
        by_contra hki
        have hle := le_of_steps hinc (Nat.le_of_lt_succ (not_le.mp hki)) (Nat.le_of_lt hi)
        exact absurd (lt_of_lt_of_le hfk hle) (not_lt_of_ge hfi.1)
      exact due_last hF hdue hg (lt_of_lt_of_le hgi.2 (le_of_steps hinc hik hk))
    intro i hi f hf g hg hfi hgi
    exact le_antisymm (hearlier i hi g hg f hf hgi hfi) (hearlier i hi f hf g hg hfi hgi)
  · exact returned_of_alone hF hgap

/-- Scans no further apart than the firings miss none of them. -/
theorem firings_returned_of_scan_gap
    (hF : IsPrev F (S.platform.cronPrev cronExpression (timezoneOrUTC timezone)))
    (hspaced : ∀ f ∈ F, ∀ g ∈ F, f < g → S.env.schedulerScanMs ≤ g - f)
    (hgap : ∀ i < n, t (i + 1) - t i ≤ S.env.schedulerScanMs) :
    ∀ f ∈ F, t 0 ≤ f → f < t n →
      ∃ i ≤ n, dueFireSlot S cronExpression timezone (t i) = some f := by
  have hwindow : ∀ i < n, t (i + 1) - t i ≤ S.env.windowMs := by
    intro i hi
    have := hgap i hi
    unfold Env.windowMs
    omega
  refine returned_of_alone hF hwindow ?_
  intro i hi f hf g hg hfi hgi
  have hstep := hgap i hi
  obtain ⟨hf₁, hf₂⟩ := hfi
  obtain ⟨hg₁, hg₂⟩ := hgi
  rcases lt_trichotomy f g with hlt | heq | hlt
  · have := hspaced f hf g hg hlt
    omega
  · exact heq
  · have := hspaced g hg f hf hlt
    omega

/-! ## The slot as a key -/

theorem due_isSome_iff
    (hF : IsPrev F (S.platform.cronPrev cronExpression (timezoneOrUTC timezone))) {now : Int} :
    (dueFireSlot S cronExpression timezone now).isSome ↔
      ∃ f ∈ F, f ∈ Set.Ico (now - S.env.windowMs) now := by
  rw [Option.isSome_iff_exists]
  constructor
  · intro hdue
    obtain ⟨f, hdue⟩ := hdue
    obtain ⟨hprev, _, hwindow⟩ := dueFireSlot_eq_some.mp hdue
    obtain ⟨hf, hlt⟩ := hF.firing now f hprev
    exact ⟨f, hf, by omega, hlt⟩
  · intro hfiring
    obtain ⟨f, hf, hlow, hlt⟩ := hfiring
    obtain ⟨g, hprev, hle⟩ := hF.greatest now f hf hlt
    obtain ⟨_, hglt⟩ := hF.firing now g hprev
    exact ⟨g, dueFireSlot_eq_some.mpr ⟨hprev, by omega, by omega⟩⟩

theorem due_isGreatest
    (hF : IsPrev F (S.platform.cronPrev cronExpression (timezoneOrUTC timezone))) {now f : Int}
    (hdue : dueFireSlot S cronExpression timezone now = some f) :
    IsGreatest (F ∩ Set.Ico (now - S.env.windowMs) now) f := by
  obtain ⟨hprev, _, hwindow⟩ := dueFireSlot_eq_some.mp hdue
  obtain ⟨hf, hlt⟩ := hF.firing now f hprev
  refine ⟨⟨hf, by omega, hlt⟩, ?_⟩
  intro g hg
  exact due_last hF hdue hg.1 hg.2.2

theorem due_eq_iff
    (hF : IsPrev F (S.platform.cronPrev cronExpression (timezoneOrUTC timezone)))
    {now₁ now₂ f₁ f₂ : Int} (hle : now₁ ≤ now₂)
    (h₁ : dueFireSlot S cronExpression timezone now₁ = some f₁)
    (h₂ : dueFireSlot S cronExpression timezone now₂ = some f₂) :
    f₁ ≤ f₂ ∧ (f₁ = f₂ ↔ ∀ f ∈ F, f ∉ Set.Ico now₁ now₂) := by
  obtain ⟨hf₁, hlt₁⟩ := hF.firing now₁ f₁ (dueFireSlot_eq_some.mp h₁).1
  obtain ⟨hf₂, hlt₂⟩ := hF.firing now₂ f₂ (dueFireSlot_eq_some.mp h₂).1
  have hmono : f₁ ≤ f₂ := due_last hF h₂ hf₁ (lt_of_lt_of_le hlt₁ hle)
  refine ⟨hmono, ?_⟩
  constructor
  · intro heq f hf hbetween
    have hlast : f ≤ f₂ := due_last hF h₂ hf hbetween.2
    have hlow : now₁ ≤ f := hbetween.1
    omega
  · intro hnone
    -- the later slot is no firing between the scans, so the earlier scan sees it too
    have hbefore : f₂ < now₁ := by
      by_contra hafter
      exact hnone f₂ hf₂ ⟨le_of_not_gt hafter, hlt₂⟩
    exact le_antisymm hmono (due_last hF h₁ hf₂ hbefore)

/-- The fire-slot is there exactly if a firing lies in the window, is the latest such firing,
never goes back, and changes exactly when a firing passes. -/
theorem fire_slot_stable
    (hF : IsPrev F (S.platform.cronPrev cronExpression (timezoneOrUTC timezone))) :
    (∀ now, ((dueFireSlot S cronExpression timezone now).isSome ↔
        ∃ f ∈ F, f ∈ Set.Ico (now - S.env.windowMs) now) ∧
      ∀ f ∈ dueFireSlot S cronExpression timezone now,
        IsGreatest (F ∩ Set.Ico (now - S.env.windowMs) now) f) ∧
    ∀ now₁ now₂, now₁ ≤ now₂ → ∀ f₁ ∈ dueFireSlot S cronExpression timezone now₁,
      ∀ f₂ ∈ dueFireSlot S cronExpression timezone now₂,
        f₁ ≤ f₂ ∧ (f₁ = f₂ ↔ ∀ f ∈ F, f ∉ Set.Ico now₁ now₂) := by
  constructor
  · intro now
    exact ⟨due_isSome_iff hF, fun f hdue => due_isGreatest hF hdue⟩
  · intro now₁ now₂ hle f₁ h₁ f₂ h₂
    exact due_eq_iff hF hle h₁ h₂

end Slots

/-! ## Full minutes -/

def fullMinutes : Set Int := {f | (60000 : Int) ∣ f}

theorem fullMinutes_isPrev : IsPrev fullMinutes
    (Sample.setup.platform.cronPrev "* * * * *" (timezoneOrUTC "UTC")) where
  firing := by
    intro now f h
    have hf : (now - 1) / 60000 * 60000 = f := Option.some.inj h
    refine ⟨⟨(now - 1) / 60000, by omega⟩, by omega⟩
  greatest := by
    rintro now f ⟨c, hc⟩ hlt
    exact ⟨(now - 1) / 60000 * 60000, rfl, by omega⟩

theorem fire_slot_stable_minute :
    dueFireSlot Sample.setup "* * * * *" "UTC" 60010 = some 60000 ∧
      dueFireSlot Sample.setup "* * * * *" "UTC" 60020 = some 60000 ∧
      (∀ f ∈ fullMinutes, f ∉ Set.Ico 60010 60020) ∧
      IsGreatest (fullMinutes ∩ Set.Ico (60010 - Sample.setup.env.windowMs) 60010) 60000 := by
  obtain ⟨hslot, hpair⟩ := fire_slot_stable fullMinutes_isPrev
  have h₁ : dueFireSlot Sample.setup "* * * * *" "UTC" 60010 = some 60000 := by decide
  have h₂ : dueFireSlot Sample.setup "* * * * *" "UTC" 60020 = some 60000 := by decide
  have hbetween := (hpair 60010 60020 (by decide) 60000 h₁ 60000 h₂).2.mp rfl
  exact ⟨h₁, h₂, hbetween, (hslot 60010).2 60000 h₁⟩

theorem firings_returned_iff_on_time : fullMinutes ∩ Set.Ico 10 180010 ∩ {f | ∃ i ≤ 3,
    dueFireSlot Sample.setup "* * * * *" "UTC" (10 + 60000 * (i : Nat)) = some f} =
      fullMinutes ∩ Set.Ico 10 180010 := by
  have hinc : ∀ i < 3, (fun i : Nat => (10 : Int) + 60000 * i) i < 10 + 60000 * (i + 1 : Nat) := by
    intro i _
    dsimp only
    omega
  have hgap : ∀ i < 3, (10 : Int) + 60000 * (i + 1 : Nat) - (10 + 60000 * (i : Nat)) ≤
      Sample.setup.env.windowMs := by
    intro i _
    have hw : Sample.setup.env.windowMs = 65000 := rfl
    omega
  have hreturned := (firings_returned_iff fullMinutes_isPrev hinc hgap).mpr (by
    rintro i _ f ⟨a, rfl⟩ g ⟨b, rfl⟩ ⟨hf₁, hf₂⟩ ⟨hg₁, hg₂⟩
    omega)
  refine Set.inter_eq_left.mpr ?_
  rintro f ⟨hf, hlow, hhigh⟩
  exact hreturned f hf hlow hhigh

/-- Two scans 60.001 s apart with a firing at the first and another 1 ms before the second:
the first of the two is never returned. -/
theorem firing_between_scans_missed : ¬ ∀ (F : Set Int) (t : Nat → Int) (n : Nat),
    IsPrev F (Sample.setup.platform.cronPrev "* * * * *" (timezoneOrUTC "UTC")) →
    (∀ f ∈ F, ∀ g ∈ F, f < g → Sample.setup.env.schedulerScanMs ≤ g - f) →
    (∀ i < n, t i < t (i + 1)) → (∀ i < n, t (i + 1) - t i ≤ Sample.setup.env.windowMs) →
    ∀ f ∈ F, t 0 ≤ f → f < t n →
      ∃ i ≤ n, dueFireSlot Sample.setup "* * * * *" "UTC" (t i) = some f := by
  intro h
  have hscan : (Sample.setup.env.schedulerScanMs : Int) = 60000 := rfl
  have hwindow : Sample.setup.env.windowMs = 65000 := rfl
  obtain ⟨i, hi, hdue⟩ := h fullMinutes (fun i => 60001 * i) 1 fullMinutes_isPrev
    (by
      rintro f ⟨a, rfl⟩ g ⟨b, rfl⟩ hlt
      omega)
    (by intro i _; omega)
    (by intro i _; omega)
    0 ⟨0, rfl⟩ (by decide) (by decide)
  have hprev := (dueFireSlot_eq_some.mp hdue).1
  have heq : (60001 * (i : Int) - 1) / 60000 * 60000 = 0 := Option.some.inj hprev
  omega

end CronHive
