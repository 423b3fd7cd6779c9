import CronHive.Ssrf
import Mathlib.Algebra.Group.Nat.Defs

/-!
# Blocks of addresses

A dotted quad stands for a 32-bit number and a CIDR block for the numbers that begin with the
same bits. The comparisons of `isPrivateIPv4` on the first two octets are membership in eight
blocks.
-/

namespace CronHive

set_option autoImplicit false

/-- The `w`-bit addresses whose first `bits` bits are those of `base`. -/
structure Cidr (w : Nat) where
  base : Nat
  bits : Nat
  deriving DecidableEq, Repr

def Cidr.Contains {w : Nat} (block : Cidr w) (v : Nat) : Prop :=
  v / 2 ^ (w - block.bits) = block.base / 2 ^ (w - block.bits)

instance {w : Nat} (block : Cidr w) (v : Nat) : Decidable (block.Contains v) :=
  inferInstanceAs (Decidable (_ = _))

def ofOctets (a b c d : Nat) : Nat := ((a * 256 + b) * 256 + c) * 256 + d

/-- What the guard refuses of IPv4. -/
def privateIPv4Blocks : List (Cidr 32) :=
  [⟨ofOctets 0 0 0 0, 8⟩, ⟨ofOctets 10 0 0 0, 8⟩, ⟨ofOctets 100 64 0 0, 10⟩,
    ⟨ofOctets 127 0 0 0, 8⟩, ⟨ofOctets 169 254 0 0, 16⟩, ⟨ofOctets 172 16 0 0, 12⟩,
    ⟨ofOctets 192 168 0 0, 16⟩, ⟨ofOctets 224 0 0 0, 3⟩]

def PrivateIPv4 (v : Nat) : Prop := ∃ block ∈ privateIPv4Blocks, block.Contains v

def decimal (cs : List Char) : Nat := Nat.ofDigitChars 10 cs 0

/-- The number a dotted quad stands for. -/
def ipv4Value (cs : List Char) : Nat :=
  (cs.splitOn '.').foldl (fun v octet => v * 256 + decimal octet) 0

theorem char_le {c c' : Char} : c ≤ c' ↔ c.toNat ≤ c'.toNat := Iff.rfl

theorem isDigit_iff {c : Char} : Net.isDigit c = true ↔ 48 ≤ c.toNat ∧ c.toNat ≤ 57 := by
  simp [Net.isDigit, char_le]

theorem v4Seg_octet {cs : List Char} (h : Net.v4Seg cs = true) :
    cs.all Net.isDigit = true ∧ decimal cs ≤ 255 := by
  match cs with
  | [] => cases h
  | [a] =>
    have ha := isDigit_iff.mp h
    refine ⟨by simp [isDigit_iff, ha], ?_⟩
    simp only [decimal, Nat.ofDigitChars_cons, Nat.ofDigitChars_nil, Char.reduceToNat]
    omega
  | [a, b] =>
    simp only [Net.v4Seg, Bool.and_eq_true, decide_eq_true_eq, char_le, isDigit_iff,
      Char.reduceToNat] at h
    obtain ⟨⟨ha, ha'⟩, hb⟩ := h
    refine ⟨by simp [isDigit_iff]; omega, ?_⟩
    simp only [decimal, Nat.ofDigitChars_cons, Nat.ofDigitChars_nil, Char.reduceToNat]
    omega
  | [a, b, c] =>
    simp only [Net.v4Seg, Bool.or_eq_true, Bool.and_eq_true, decide_eq_true_eq, beq_iff_eq, char_le,
      isDigit_iff, Char.reduceToNat] at h
    have hdigits : (48 ≤ a.toNat ∧ a.toNat ≤ 57) ∧ (48 ≤ b.toNat ∧ b.toNat ≤ 57) ∧
        (48 ≤ c.toNat ∧ c.toNat ≤ 57) ∧
        100 * (a.toNat - 48) + 10 * (b.toNat - 48) + (c.toNat - 48) ≤ 255 := by
      rcases h with (⟨⟨⟨rfl, rfl⟩, hc⟩, hc'⟩ | ⟨⟨⟨rfl, hb⟩, hb'⟩, hc⟩) | ⟨⟨rfl, hb⟩, hc⟩
      · simp only [Char.reduceToNat]
        omega
      · simp only [Char.reduceToNat]
        omega
      · simp only [Char.reduceToNat]
        omega
    obtain ⟨ha, hb, hc, hle⟩ := hdigits
    refine ⟨by simp [isDigit_iff, ha, hb, hc], ?_⟩
    simp only [decimal, Nat.ofDigitChars_cons, Nat.ofDigitChars_nil, Char.reduceToNat]
    omega
  | _ :: _ :: _ :: _ :: _ => cases h

theorem number?_eq {cs : List Char} (h : cs.all Net.isDigit = true) :
    number? cs = some (decimal cs) := by
  rw [number?, if_pos h, decimal, Nat.ofDigitChars_eq_foldl]

section Blocks

variable {a b c d : Nat}

theorem ofOctets_div (hc : c ≤ 255) (hd : d ≤ 255) : ofOctets a b c d / 2 ^ 16 = a * 256 + b := by
  unfold ofOctets
  omega

theorem contains_ofOctets (hc : c ≤ 255) (hd : d ≤ 255) (p q : Nat) {r : Nat} (hr : r ≤ 16) :
    Cidr.Contains (w := 32) ⟨ofOctets p q 0 0, 32 - (16 + r)⟩ (ofOctets a b c d) ↔
      (a * 256 + b) / 2 ^ r = (p * 256 + q) / 2 ^ r := by
  have hbits : 32 - (32 - (16 + r)) = 16 + r := by omega
  simp only [Cidr.Contains, hbits]
  rw [Nat.pow_add, ← Nat.div_div_eq_div_mul, ← Nat.div_div_eq_div_mul, ofOctets_div hc hd,
    ofOctets_div (Nat.zero_le _) (Nat.zero_le _)]

theorem privateIPv4_iff (ha : a ≤ 255) (hb : b ≤ 255) (hc : c ≤ 255) (hd : d ≤ 255) :
    PrivateIPv4 (ofOctets a b c d) ↔
      a = 10 ∨ a = 127 ∨ a = 0 ∨ (a = 169 ∧ b = 254) ∨ (a = 172 ∧ 16 ≤ b ∧ b ≤ 31) ∨
        (a = 192 ∧ b = 168) ∨ (a = 100 ∧ 64 ≤ b ∧ b ≤ 127) ∨ 224 ≤ a := by
  have h0 : (a * 256 + b) / 2 ^ 8 = (0 * 256 + 0) / 2 ^ 8 ↔ a = 0 := by omega
  have h10 : (a * 256 + b) / 2 ^ 8 = (10 * 256 + 0) / 2 ^ 8 ↔ a = 10 := by omega
  have h100 : (a * 256 + b) / 2 ^ 6 = (100 * 256 + 64) / 2 ^ 6 ↔ a = 100 ∧ 64 ≤ b ∧ b ≤ 127 := by
    omega
  have h127 : (a * 256 + b) / 2 ^ 8 = (127 * 256 + 0) / 2 ^ 8 ↔ a = 127 := by omega
  have h169 : (a * 256 + b) / 2 ^ 0 = (169 * 256 + 254) / 2 ^ 0 ↔ a = 169 ∧ b = 254 := by omega
  have h172 : (a * 256 + b) / 2 ^ 4 = (172 * 256 + 16) / 2 ^ 4 ↔ a = 172 ∧ 16 ≤ b ∧ b ≤ 31 := by
    omega
  have h192 : (a * 256 + b) / 2 ^ 0 = (192 * 256 + 168) / 2 ^ 0 ↔ a = 192 ∧ b = 168 := by omega
  have h224 : (a * 256 + b) / 2 ^ 13 = (224 * 256 + 0) / 2 ^ 13 ↔ 224 ≤ a := by omega
  have hblock (p q : Nat) {r : Nat} (hr : r ≤ 16) :=
    contains_ofOctets (a := a) (b := b) hc hd p q hr
  simp only [PrivateIPv4, privateIPv4Blocks, List.mem_cons, List.not_mem_nil, or_false,
    exists_eq_or_imp, exists_eq_left]
  -- each block is `contains_ofOctets` at its own number of bits
  rw [hblock 0 0 (r := 8) (by decide), hblock 10 0 (r := 8) (by decide),
    hblock 100 64 (r := 6) (by decide), hblock 127 0 (r := 8) (by decide),
    hblock 169 254 (r := 0) (by decide), hblock 172 16 (r := 4) (by decide),
    hblock 192 168 (r := 0) (by decide), hblock 224 0 (r := 13) (by decide),
    h0, h10, h100, h127, h169, h172, h192, h224]
  exact Iff.of_eq (by ac_rfl)

end Blocks

theorem v4Chars_octets {cs : List Char} (h : Net.v4Chars cs = true) :
    ∃ a b c d, cs.splitOn '.' = [a, b, c, d] ∧ Net.v4Seg a = true ∧ Net.v4Seg b = true ∧
      Net.v4Seg c = true ∧ Net.v4Seg d = true := by
  simp only [Net.v4Chars, Bool.and_eq_true, beq_iff_eq] at h
  obtain ⟨hlength, hall⟩ := h
  match hsegs : cs.splitOn '.', hlength with
  | [a, b, c, d], _ =>
    rw [hsegs] at hall
    simp only [List.all_cons, List.all_nil, Bool.and_eq_true, Bool.and_true] at hall
    obtain ⟨ha, hb, hc, hd⟩ := hall
    exact ⟨a, b, c, d, rfl, ha, hb, hc, hd⟩

/-- A dotted quad is refused exactly if its number lies in one of the blocks. -/
theorem isPrivateIPv4_iff {cs : List Char} (h : Net.v4Chars cs = true) :
    isPrivateIPv4 cs = true ↔ PrivateIPv4 (ipv4Value cs) := by
  obtain ⟨a, b, c, d, hsplit, ha, hb, hc, hd⟩ := v4Chars_octets h
  obtain ⟨ha, ha'⟩ := v4Seg_octet ha
  obtain ⟨hb, hb'⟩ := v4Seg_octet hb
  obtain ⟨hc, hc'⟩ := v4Seg_octet hc
  obtain ⟨hd, hd'⟩ := v4Seg_octet hd
  have hvalue : ipv4Value cs = ofOctets (decimal a) (decimal b) (decimal c) (decimal d) := by
    simp [ipv4Value, hsplit, ofOctets]
  have hnumbers : (cs.splitOn '.').map number? =
      [some (decimal a), some (decimal b), some (decimal c), some (decimal d)] := by
    rw [hsplit]
    simp only [List.map_cons, List.map_nil, number?_eq ha, number?_eq hb, number?_eq hc,
      number?_eq hd]
  rw [hvalue, privateIPv4_iff ha' hb' hc' hd', isPrivateIPv4, hnumbers]
  simp [or_assoc, and_assoc]

theorem ipv4Value_lt {cs : List Char} (h : Net.v4Chars cs = true) : ipv4Value cs < 2 ^ 32 := by
  obtain ⟨a, b, c, d, hsplit, ha, hb, hc, hd⟩ := v4Chars_octets h
  have ha' := (v4Seg_octet ha).2
  have hb' := (v4Seg_octet hb).2
  have hc' := (v4Seg_octet hc).2
  have hd' := (v4Seg_octet hd).2
  simp only [ipv4Value, hsplit, List.foldl_cons, List.foldl_nil]
  omega

/-- The guard refuses an IPv4 address exactly if it lies in one of the eight blocks, and it
refuses every text that is no address. -/
theorem ipv4_guard_exact :
    (∀ ip, Net.isIPv4 ip = true → ipv4Value ip.toList < 2 ^ 32 ∧
      (isPrivateAddress ip = true ↔ PrivateIPv4 (ipv4Value ip.toList))) ∧
    ∀ ip, Net.isIPv4 ip = false → Net.isIPv6 ip = false → isPrivateAddress ip = true := by
  constructor
  · intro ip h
    refine ⟨ipv4Value_lt h, ?_⟩
    rw [isPrivateAddress, if_pos h]
    exact isPrivateIPv4_iff h
  · intro ip h4 h6
    simp [isPrivateAddress, h4, h6]

end CronHive
