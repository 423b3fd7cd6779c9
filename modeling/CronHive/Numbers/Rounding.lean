import Mathlib.Algebra.Order.Field.Power
import Mathlib.Data.Int.Log
import Mathlib.Data.Rat.Floor
import Mathlib.Tactic.Linarith
import Mathlib.Tactic.NormNum
import Mathlib.Tactic.Positivity
import Mathlib.Tactic.Ring

/-!
# Rounding to a number of binary digits

`toDigits p q` is the number of `p` binary digits next to `q`, of two the one whose last digit is
even; its exponent may be any. Rounding keeps the order and every number that has `p` digits.
-/

namespace Rounding

set_option autoImplicit false

/-- The integer next to `q`, of two the even one. -/
def nearest (q : ℚ) : ℤ :=
  if 2 * (q - ⌊q⌋) < 1 ∨ 2 * (q - ⌊q⌋) = 1 ∧ ⌊q⌋ % 2 = 0 then ⌊q⌋ else ⌊q⌋ + 1

@[simp] theorem nearest_intCast (k : ℤ) : nearest k = k := by
  simp [nearest]

@[simp] theorem nearest_zero : nearest 0 = 0 := by
  simpa using nearest_intCast 0

theorem floor_le_nearest (q : ℚ) : ⌊q⌋ ≤ nearest q := by
  unfold nearest
  split
  · exact le_refl _
  · exact Int.le_of_lt (Int.lt_succ _)

theorem nearest_le_floor_succ (q : ℚ) : nearest q ≤ ⌊q⌋ + 1 := by
  unfold nearest
  split
  · exact Int.le_of_lt (Int.lt_succ _)
  · exact le_refl _

theorem nearest_mono {x y : ℚ} (h : x ≤ y) : nearest x ≤ nearest y := by
  rcases (Int.floor_le_floor h).lt_or_eq with hlt | heq
  · calc nearest x ≤ ⌊x⌋ + 1 := nearest_le_floor_succ x
      _ ≤ ⌊y⌋ := hlt
      _ ≤ nearest y := floor_le_nearest y
  · -- with one integral part the fractions decide
    unfold nearest
    rw [heq]
    split
    · split
      · exact le_refl _
      · exact Int.le_of_lt (Int.lt_succ _)
    · rename_i hup
      rw [if_neg]
      intro hdown
      apply hup
      rcases hdown with hlt | ⟨hhalf, heven⟩
      · left
        linarith
      · rcases lt_or_eq_of_le h with hlt | hsame
        · left
          linarith
        · rw [hsame]
          exact Or.inr ⟨hhalf, heven⟩

/-- The unit of the last digit. -/
def unit (p : ℕ) (q : ℚ) : ℚ := 2 ^ (Int.log 2 q + 1 - p)

/-- For `q` that is not negative. -/
def toDigits (p : ℕ) (q : ℚ) : ℚ := nearest (q / unit p q) * unit p q

section Digits

variable {p : ℕ} {x y : ℚ}

theorem unit_pos (p : ℕ) (q : ℚ) : 0 < unit p q := by
  unfold unit
  positivity

@[simp] theorem toDigits_zero (p : ℕ) : toDigits p 0 = 0 := by
  simp [toDigits]

/-- A number with `p` digits is kept. -/
theorem toDigits_eq {m z : ℤ} (hm : 0 ≤ m) (hp : m < 2 ^ p) :
    toDigits p (m * 2 ^ z) = m * 2 ^ z := by
  rcases hm.lt_or_eq with hpos | rfl
  · have hq : (0 : ℚ) < m * 2 ^ z := by
      have hm' : (0 : ℚ) < m := by exact_mod_cast hpos
      positivity
    have hlt : (m * 2 ^ z : ℚ) < (2 : ℕ) ^ (p + z) := by
      rw [Nat.cast_ofNat, zpow_add₀ two_ne_zero, zpow_natCast]
      have hp' : (m : ℚ) < 2 ^ p := by exact_mod_cast hp
      exact mul_lt_mul_of_pos_right hp' (by positivity)
    have hlog : Int.log 2 (m * 2 ^ z : ℚ) < p + z :=
      (Int.lt_zpow_iff_log_lt Nat.one_lt_two hq).mp hlt
    -- the unit of the last digit divides `2 ^ z`
    obtain ⟨k, hk⟩ : ∃ k : ℕ, z = Int.log 2 (m * 2 ^ z : ℚ) + 1 - p + k :=
      ⟨(z - (Int.log 2 (m * 2 ^ z : ℚ) + 1 - p)).toNat, by omega⟩
    have hwhole : (m * 2 ^ z : ℚ) / unit p (m * 2 ^ z) = ((m * 2 ^ k : ℤ) : ℚ) := by
      rw [div_eq_iff (unit_pos ..).ne', unit]
      push_cast
      rw [mul_assoc, ← zpow_natCast, ← zpow_add₀ two_ne_zero]
      congr 2
      omega
    rw [toDigits, hwhole, nearest_intCast, ← hwhole]
    exact div_mul_cancel₀ _ (unit_pos ..).ne'
  · simp

theorem toDigits_natCast {n : ℕ} (h : n < 2 ^ p) : toDigits p n = n := by
  have hkept := toDigits_eq (z := 0) (Int.natCast_nonneg n) (by exact_mod_cast h)
  simpa using hkept

theorem le_toDigits (hx : 0 < x) (hp : 0 < p) : (2 : ℚ) ^ Int.log 2 x ≤ toDigits p x := by
  have hlow : ((2 ^ (p - 1) : ℤ) : ℚ) ≤ x / unit p x := by
    rw [le_div_iff₀ (unit_pos ..), unit]
    push_cast
    rw [← zpow_natCast, ← zpow_add₀ two_ne_zero]
    calc (2 : ℚ) ^ (((p - 1 : ℕ) : ℤ) + (Int.log 2 x + 1 - p)) = 2 ^ Int.log 2 x := by
          congr 1
          omega
      _ ≤ x := by exact_mod_cast Int.zpow_log_le_self Nat.one_lt_two hx
  have hdigits := nearest_mono hlow
  rw [nearest_intCast] at hdigits
  calc (2 : ℚ) ^ Int.log 2 x = ((2 ^ (p - 1) : ℤ) : ℚ) * unit p x := by
        rw [unit]
        push_cast
        rw [← zpow_natCast, ← zpow_add₀ two_ne_zero]
        congr 1
        omega
    _ ≤ toDigits p x :=
        mul_le_mul_of_nonneg_right (by exact_mod_cast hdigits) (unit_pos ..).le

theorem toDigits_le (p : ℕ) (x : ℚ) : toDigits p x ≤ 2 ^ (Int.log 2 x + 1) := by
  have hfull : (2 : ℚ) ^ (Int.log 2 x + 1) = ((2 ^ p : ℤ) : ℚ) * unit p x := by
    rw [unit]
    push_cast
    rw [← zpow_natCast, ← zpow_add₀ two_ne_zero]
    congr 1
    omega
  have hhigh : x / unit p x ≤ ((2 ^ p : ℤ) : ℚ) := by
    rw [div_le_iff₀ (unit_pos ..), ← hfull]
    exact_mod_cast (Int.lt_zpow_succ_log_self Nat.one_lt_two x).le
  have hdigits := nearest_mono hhigh
  rw [nearest_intCast] at hdigits
  rw [hfull]
  exact mul_le_mul_of_nonneg_right (by exact_mod_cast hdigits) (unit_pos ..).le

theorem toDigits_mono (hp : 0 < p) (hx : 0 ≤ x) (h : x ≤ y) : toDigits p x ≤ toDigits p y := by
  rcases hx.lt_or_eq with hpos | rfl
  · rcases (Int.log_mono_right (b := 2) hpos h).lt_or_eq with hlt | hsame
    · calc toDigits p x ≤ 2 ^ (Int.log 2 x + 1) := toDigits_le p x
        _ ≤ 2 ^ Int.log 2 y := zpow_le_zpow_right₀ one_le_two hlt
        _ ≤ toDigits p y := le_toDigits (hpos.trans_le h) hp
    · have hunit : unit p x = unit p y := by rw [unit, unit, hsame]
      unfold toDigits
      rw [hunit]
      have hdigits := nearest_mono (div_le_div_of_nonneg_right h (unit_pos p y).le)
      exact mul_le_mul_of_nonneg_right (by exact_mod_cast hdigits) (unit_pos p y).le
  · rw [toDigits_zero]
    have hnonneg : nearest 0 ≤ nearest (y / unit p y) :=
      nearest_mono (div_nonneg h (unit_pos p y).le)
    rw [nearest_zero] at hnonneg
    exact mul_nonneg (by exact_mod_cast hnonneg) (unit_pos p y).le

end Digits

end Rounding
