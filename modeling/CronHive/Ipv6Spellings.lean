import CronHive.Addresses
import Mathlib.Data.List.TakeWhile
import Mathlib.Data.Nat.Digits.Lemmas

/-!
# Spellings of an IPv6 address

The colon-separated groups of a text stand for a 128-bit number, and `isPrivateIPv6` looks at the
text. Its tests on the first characters find the unique-local addresses however they are spelled;
of the other ranges it finds the spellings they are made for.
-/

namespace CronHive

set_option autoImplicit false

def hexDigit (c : Char) : Nat :=
  if Net.isDigit c then c.toNat - 48 else if 'a' ≤ c then c.toNat - 87 else c.toNat - 55

def hexadecimal (cs : List Char) : Nat := cs.foldl (fun n c => 16 * n + hexDigit c) 0

/-- The 16-bit groups of a colon-separated list, two for a final dotted quad. -/
def groups : List (List Char) → List Nat
  | [] => []
  | [cs] =>
      if Net.v6Seg cs then [hexadecimal cs] else [ipv4Value cs / 65536, ipv4Value cs % 65536]
  | cs :: rest => hexadecimal cs :: groups rest

/-- The eight groups of a spelling; `::` stands for groups of zero. -/
def ipv6Groups (cs : List Char) : List Nat :=
  match Net.splitDoubleColon cs with
  | none => groups (Net.v6Pieces cs)
  | some (left, right) =>
      let l := groups (Net.v6Pieces left)
      let r := groups (Net.v6Pieces right)
      l ++ List.replicate (8 - (l.length + r.length)) 0 ++ r

/-- The number an IPv6 address stands for, whatever its zone. -/
def ipv6Value (ip : String) : Nat :=
  Nat.ofDigits 65536 (ipv6Groups (ip.toList.takeWhile (· ≠ '%'))).reverse

def linkLocal : Cidr 128 := ⟨0xfe80 * 2 ^ 112, 10⟩

def uniqueLocal : Cidr 128 := ⟨0xfc00 * 2 ^ 112, 7⟩

def ipv4Mapped : Cidr 128 := ⟨0xffff * 2 ^ 32, 96⟩

/-- The addresses that are no one's: unspecified, loopback, link-local, unique-local, or mapped
from an IPv4 address that the guard refuses. -/
def ReservedIPv6 (v : Nat) : Prop :=
  v = 0 ∨ v = 1 ∨ linkLocal.Contains v ∨ uniqueLocal.Contains v ∨
    ipv4Mapped.Contains v ∧
      ∃ v4, Net.v4Chars v4 = true ∧ ipv4Value v4 = v % 2 ^ 32 ∧ isPrivateIPv4 v4 = true

/-- The last of the colon-separated pieces of a text, in lower case. -/
def lastPiece (ip : String) : List Char :=
  ((ip.toList.map Char.toLower).splitOn ':').getLast?.getD []

/-- The address is unique-local or in fe80::/16, or it is spelled as the guard expects. -/
def Recognised (ip : String) : Prop :=
  uniqueLocal.Contains (ipv6Value ip) ∨ ipv6Value ip / 2 ^ 112 = 0xfe80 ∨ ip = "::" ∨ ip = "::1" ∨
    "::ffff:".toList <+: ip.toList.map Char.toLower ∧ Net.v4Chars (lastPiece ip) = true ∧
      ('%' ∈ ip.toList → isPrivateIPv4 (lastPiece ip) = true)

/-! ## Digits -/

theorem char_of_ascii {p : Char → Prop} (h : ∀ n < 128, p (Char.ofNat n)) {c : Char}
    (hc : c.toNat < 128) : p c := by
  have hp := h c.toNat hc
  rwa [Char.ofNat_toNat] at hp

theorem isHexDigit_ascii {c : Char} (h : Net.isHexDigit c = true) : c.toNat < 128 := by
  simp only [Net.isHexDigit, Bool.or_eq_true, Bool.and_eq_true, decide_eq_true_eq, isDigit_iff,
    char_le, Char.reduceToNat] at h
  omega

theorem toLower_hexDigit {c : Char} (h : Net.isHexDigit c = true) :
    hexDigit c < 16 ∧ c.toLower = Nat.digitChar (hexDigit c) := by
  have hall : ∀ n < 128, Net.isHexDigit (Char.ofNat n) = true →
      hexDigit (Char.ofNat n) < 16 ∧
        (Char.ofNat n).toLower = Nat.digitChar (hexDigit (Char.ofNat n)) := by decide
  exact char_of_ascii (p := fun c => Net.isHexDigit c = true →
    hexDigit c < 16 ∧ c.toLower = Nat.digitChar (hexDigit c)) hall (isHexDigit_ascii h) h

theorem hexDigit_of_toLower {c : Char} (h : Net.isHexDigit c = true) {n : Nat} (hn : n < 16)
    (hc : c.toLower = Nat.digitChar n) : hexDigit c = n := by
  obtain ⟨hlt, heq⟩ := toLower_hexDigit h
  have hinj : ∀ m < 16, ∀ n < 16, Nat.digitChar m = Nat.digitChar n → m = n := by decide
  exact hinj _ hlt n hn (heq.symm.trans hc)

/-- Only a letter has another lower case. -/
theorem eq_of_toLower {c d : Char} (h : c.toLower = d) (hd : d.toNat < 97) : c = d := by
  subst h
  by_cases hc : c.toNat < 128
  · have hall : ∀ n < 128, (Char.ofNat n).toLower.toNat < 97 →
        Char.ofNat n = (Char.ofNat n).toLower := by decide
    exact char_of_ascii (p := fun c => c.toLower.toNat < 97 → c = c.toLower) hall hc hd
  · have hself : c.toLower = c := by
      refine dif_neg fun hupper => hc ?_
      exact Nat.lt_of_le_of_lt (show c.toNat ≤ 90 from hupper.2) (by decide)
    exact hself.symm

theorem map_toLower_eq {cs ds : List Char} (h : cs.map Char.toLower = ds)
    (hd : ∀ d ∈ ds, d.toNat < 97) : cs = ds := by
  subst h
  refine (List.map_id cs).symm.trans (List.map_congr_left fun c hc => ?_)
  exact eq_of_toLower rfl (hd _ (List.mem_map_of_mem hc))

/-! ## The first group -/

theorem hexadecimal_lt_pow {cs : List Char} (h : ∀ c ∈ cs, hexDigit c < 16) :
    hexadecimal cs < 16 ^ cs.length := by
  induction cs using List.reverseRecOn with
  | nil => decide
  | append_singleton cs c ih =>
    have hlt := ih fun d hd => h d (List.mem_append_left _ hd)
    have hc := h c (List.mem_append_right _ (List.mem_singleton_self c))
    have hvalue : hexadecimal (cs ++ [c]) = 16 * hexadecimal cs + hexDigit c := by
      simp [hexadecimal]
    rw [hvalue, List.length_append, List.length_singleton, pow_succ]
    omega

theorem v6Seg_iff {cs : List Char} : Net.v6Seg cs = true ↔
    (1 ≤ cs.length ∧ cs.length ≤ 4) ∧ ∀ c ∈ cs, Net.isHexDigit c = true := by
  simp [Net.v6Seg]

theorem hexadecimal_lt {cs : List Char} (h : Net.v6Seg cs = true) : hexadecimal cs < 65536 := by
  obtain ⟨⟨_, hlength⟩, hdigits⟩ := v6Seg_iff.mp h
  have hlt := hexadecimal_lt_pow fun c hc => (toLower_hexDigit (hdigits c hc)).1
  have hpow : 16 ^ cs.length ≤ 16 ^ 4 := Nat.pow_le_pow_right (by decide) hlength
  omega

/-- A group of at least 0x1000 is written with four digits. -/
theorem v6Seg_four {cs : List Char} (h : Net.v6Seg cs = true) (hlarge : 4096 ≤ hexadecimal cs) :
    ∃ a b c d, cs = [a, b, c, d] := by
  obtain ⟨⟨_, hlength⟩, hdigits⟩ := v6Seg_iff.mp h
  have hlt := hexadecimal_lt_pow fun c hc => (toLower_hexDigit (hdigits c hc)).1
  have hfour : 4 ≤ cs.length := by
    by_contra hshort
    have hpow : 16 ^ cs.length ≤ 16 ^ 3 := Nat.pow_le_pow_right (by decide) (by omega)
    omega
  exact List.length_eq_four.mp (Nat.le_antisymm hlength hfour)

/-! ## The groups of a spelling -/

theorem groups_cons {cs : List Char} (h : Net.v6Seg cs = true) (rest : List (List Char)) :
    groups (cs :: rest) = hexadecimal cs :: groups rest := by
  cases rest with
  | nil => simp [groups, h]
  | cons cs' rest => rfl

/-- The pieces of a list that counts are groups, but for a last one that may be a dotted quad. -/
theorem v6Groups_cons {cs : List Char} {rest : List (List Char)} {n : Nat}
    (h : Net.v6Groups (cs :: rest) = some n) :
    (Net.v6Seg cs = true ∧ ∃ m, Net.v6Groups rest = some m ∧ n = m + 1) ∨
      (Net.v6Seg cs = false ∧ Net.v4Chars cs = true ∧ rest = [] ∧ n = 2) := by
  cases rest with
  | nil =>
    simp only [Net.v6Groups] at h
    split at h
    · rename_i hseg
      cases h
      exact Or.inl ⟨hseg, 0, rfl, rfl⟩
    · rename_i hseg
      split at h
      · rename_i hquad
        cases h
        exact Or.inr ⟨by simpa using hseg, hquad, rfl, rfl⟩
      · cases h
  | cons cs' rest =>
    simp only [Net.v6Groups] at h
    split at h
    · rename_i hseg
      obtain ⟨m, hm, rfl⟩ := Option.map_eq_some_iff.mp h
      exact Or.inl ⟨hseg, m, hm, rfl⟩
    · cases h

theorem groups_spec {pieces : List (List Char)} {n : Nat} (h : Net.v6Groups pieces = some n) :
    (groups pieces).length = n ∧ ∀ g ∈ groups pieces, g < 65536 := by
  induction pieces generalizing n with
  | nil =>
    cases h
    exact ⟨rfl, by simp [groups]⟩
  | cons cs rest ih =>
    obtain ⟨hseg, m, hm, rfl⟩ | ⟨hseg, hquad, rfl, rfl⟩ := v6Groups_cons h
    · obtain ⟨hlength, hlt⟩ := ih hm
      rw [groups_cons hseg]
      refine ⟨by rw [List.length_cons, hlength], ?_⟩
      rintro g (_ | ⟨_, hg⟩)
      · exact hexadecimal_lt hseg
      · exact hlt g hg
    · have hvalue := ipv4Value_lt hquad
      simp only [groups, hseg, Bool.false_eq_true, if_false]
      refine ⟨rfl, ?_⟩
      simp only [List.mem_cons, List.not_mem_nil, or_false, forall_eq_or_imp, forall_eq]
      omega

theorem v6Groups_of_all {pieces : List (List Char)} (h : pieces.all Net.v6Seg = true) :
    Net.v6Groups pieces = some pieces.length := by
  induction pieces with
  | nil => rfl
  | cons cs rest ih =>
    simp only [List.all_cons, Bool.and_eq_true] at h
    have hrest := ih h.2
    cases rest with
    | nil => simp [Net.v6Groups, h.1]
    | cons cs' rest => simp [Net.v6Groups, h.1, hrest]

/-- A spelling is a list of eight groups, or two lists about a `::` with at most seven. -/
inductive Spelled (cs : List Char) : Prop where
  | full (hpieces : Net.v6Groups (Net.v6Pieces cs) = some 8)
      (hvalue : ipv6Groups cs = groups (Net.v6Pieces cs))
  | zeros (left right : List Char) (n : Nat) (htext : cs = left ++ ':' :: ':' :: right)
      (hleft : (Net.v6Pieces left).all Net.v6Seg = true)
      (hright : Net.v6Groups (Net.v6Pieces right) = some n)
      (hshort : (Net.v6Pieces left).length + n ≤ 7)
      (hvalue : ipv6Groups cs = groups (Net.v6Pieces left) ++
        List.replicate (8 - ((Net.v6Pieces left).length + n)) 0 ++ groups (Net.v6Pieces right))

theorem splitDoubleColon_some {cs left right : List Char}
    (h : Net.splitDoubleColon cs = some (left, right)) : cs = left ++ ':' :: ':' :: right := by
  fun_induction Net.splitDoubleColon cs generalizing left with
  | case1 rest =>
    cases h
    rfl
  | case2 c rest _ ih =>
    obtain ⟨⟨left', right'⟩, hrest, heq⟩ := Option.map_eq_some_iff.mp h
    cases heq
    rw [ih hrest, List.cons_append]
  | case3 => cases h

theorem spelled_of_v6Chars {cs : List Char} (h : Net.v6Chars cs = true) : Spelled cs := by
  unfold Net.v6Chars at h
  split at h
  · rename_i hsplit
    exact .full (by simpa using h) (by simp [ipv6Groups, hsplit])
  · rename_i left right hsplit
    simp only [Bool.and_eq_true] at h
    obtain ⟨hleft, hright⟩ := h
    split at hright
    · rename_i n hn
      refine .zeros left right n (splitDoubleColon_some hsplit) hleft hn (by simpa using hright) ?_
      simp only [ipv6Groups, hsplit, (groups_spec hn).1, (groups_spec (v6Groups_of_all hleft)).1]
    · cases hright

theorem Spelled.groups_eight {cs : List Char} (h : Spelled cs) :
    (ipv6Groups cs).length = 8 ∧ ∀ g ∈ ipv6Groups cs, g < 65536 := by
  cases h with
  | full hpieces hvalue =>
    rw [hvalue]
    exact groups_spec hpieces
  | zeros left right n htext hleft hright hshort hvalue =>
    obtain ⟨hlength, hlt⟩ := groups_spec (v6Groups_of_all hleft)
    obtain ⟨hlength', hlt'⟩ := groups_spec hright
    rw [hvalue]
    constructor
    · simp only [List.length_append, List.length_replicate, hlength, hlength']
      omega
    · intro g hg
      simp only [List.mem_append, List.mem_replicate] at hg
      obtain (hg | ⟨_, rfl⟩) | hg := hg
      · exact hlt g hg
      · decide
      · exact hlt' g hg

/-- The first piece stands before the first colon. -/
theorem v6Pieces_first {text : List Char} (h : text ≠ []) :
    ∃ piece pieces rest, Net.v6Pieces text = piece :: pieces ∧ text = piece ++ rest ∧
      (rest = [] ∨ ∃ rest', rest = ':' :: rest') := by
  rw [Net.v6Pieces, if_neg h]
  have hjoin : [':'].intercalate (text.splitOn ':') = text := List.intercalate_splitOn ':'
  cases hsplit : text.splitOn ':' with
  | nil => exact absurd hsplit (List.splitOn_ne_nil ':' text)
  | cons piece pieces =>
    rw [hsplit] at hjoin
    cases pieces with
    | nil =>
      rw [List.intercalate_singleton] at hjoin
      exact ⟨piece, [], [], rfl, by rw [List.append_nil, hjoin], Or.inl rfl⟩
    | cons piece' pieces =>
      rw [List.intercalate_cons_cons, List.append_assoc] at hjoin
      exact ⟨piece, piece' :: pieces, _, rfl, hjoin.symm, Or.inr ⟨_, rfl⟩⟩

/-- The first of eight groups is the first sixteen bits. -/
theorem Spelled.value_first {cs : List Char} (h : Spelled cs) {g : Nat}
    (hg : (ipv6Groups cs).head? = some g) :
    Nat.ofDigits 65536 (ipv6Groups cs).reverse / 2 ^ 112 = g := by
  obtain ⟨hlength, hlt⟩ := h.groups_eight
  obtain ⟨gs, hgs⟩ := List.head?_eq_some_iff.mp hg
  have hpow : 2 ^ 112 = 65536 ^ 7 := by decide
  have hdrop : (ipv6Groups cs).reverse.drop 7 = [g] := by
    rw [hgs, List.length_cons] at hlength
    rw [hgs, List.reverse_cons]
    apply List.drop_left'
    rw [List.length_reverse]
    omega
  rw [hpow, Nat.ofDigits_div_pow_eq_ofDigits_drop 7 (by decide) _
    (fun g' hg' => hlt g' (List.mem_reverse.mp hg')), hdrop, Nat.ofDigits_singleton]

/-- The last two are the last thirty-two. -/
theorem Spelled.value_last {cs : List Char} (h : Spelled cs) {hi lo : Nat} {gs : List Nat}
    (hgs : ipv6Groups cs = gs ++ [hi, lo]) :
    Nat.ofDigits 65536 (ipv6Groups cs).reverse % 2 ^ 32 = hi * 65536 + lo := by
  have hlt := h.groups_eight.2
  have hpow : 2 ^ 32 = 65536 ^ 2 := by decide
  have htake : (ipv6Groups cs).reverse.take 2 = [lo, hi] := by
    rw [hgs, List.reverse_append]
    exact List.take_left' rfl
  rw [hpow, Nat.ofDigits_mod_pow_eq_ofDigits_take 2 (by decide) _
    (fun g' hg' => hlt g' (List.mem_reverse.mp hg')), htake]
  simp only [Nat.ofDigits_cons, Nat.ofDigits_nil]
  omega

/-- The text begins with its first group, or with `::` and the first group is zero. -/
theorem Spelled.first {cs : List Char} (h : Spelled cs) :
    ((∃ rest, cs = ':' :: ':' :: rest) ∧
        Nat.ofDigits 65536 (ipv6Groups cs).reverse / 2 ^ 112 = 0) ∨
      ∃ piece rest, cs = piece ++ rest ∧ (rest = [] ∨ ∃ rest', rest = ':' :: rest') ∧
        Net.v6Seg piece = true ∧
          Nat.ofDigits 65536 (ipv6Groups cs).reverse / 2 ^ 112 = hexadecimal piece := by
  have hfirst := fun g hg => h.value_first (g := g) hg
  cases h with
  | full hpieces hvalue =>
    have hne : cs ≠ [] := by
      rintro rfl
      cases hpieces
    obtain ⟨piece, pieces, rest, hsplit, htext, hrest⟩ := v6Pieces_first hne
    rw [hsplit] at hpieces hvalue
    obtain ⟨hseg, _⟩ | ⟨_, _, _, htwo⟩ := v6Groups_cons hpieces
    · refine Or.inr ⟨piece, rest, htext, hrest, hseg, hfirst _ ?_⟩
      rw [hvalue, groups_cons hseg, List.head?_cons]
    · cases htwo
  | zeros left right n htext hleft hright hshort hvalue =>
    by_cases hempty : left = []
    · subst hempty
      refine Or.inl ⟨⟨right, htext⟩, hfirst _ ?_⟩
      have hsome : 8 - ((Net.v6Pieces []).length + n) = 7 - ((Net.v6Pieces []).length + n) + 1 := by
        omega
      rw [hvalue, hsome, List.replicate_succ]
      rfl
    · obtain ⟨piece, pieces, rest, hsplit, hpiece, hrest⟩ := v6Pieces_first hempty
      rw [hsplit] at hleft hvalue
      have hseg : Net.v6Seg piece = true := List.all_eq_true.mp hleft piece List.mem_cons_self
      refine Or.inr ⟨piece, rest ++ ':' :: ':' :: right, ?_, ?_, hseg, hfirst _ ?_⟩
      · rw [htext, hpiece, List.append_assoc]
      · obtain rfl | ⟨rest', rfl⟩ := hrest
        · exact Or.inr ⟨_, rfl⟩
        · exact Or.inr ⟨_, rfl⟩
      · rw [hvalue, groups_cons hseg]
        rfl

/-! ## The last two groups -/

theorem v4Chars_chars {cs : List Char} (h : Net.v4Chars cs = true) {c : Char} (hc : c ∈ cs) :
    c = '.' ∨ Net.isDigit c = true := by
  obtain ⟨a, b, d, e, hsplit, ha, hb, hd, he⟩ := v4Chars_octets h
  have hjoin : ['.'].intercalate (cs.splitOn '.') = cs := List.intercalate_splitOn '.'
  rw [hsplit, List.intercalate_cons_cons, List.intercalate_cons_cons, List.intercalate_cons_cons,
    List.intercalate_singleton] at hjoin
  have hdigits {seg : List Char} (hseg : Net.v4Seg seg = true) (hmem : c ∈ seg) :
      Net.isDigit c = true := List.all_eq_true.mp (v4Seg_octet hseg).1 c hmem
  rw [← hjoin] at hc
  simp only [List.mem_append, List.mem_singleton] at hc
  obtain (hc | hc) | (hc | hc) | (hc | hc) | hc := hc
  · exact Or.inr (hdigits ha hc)
  · exact Or.inl hc
  · exact Or.inr (hdigits hb hc)
  · exact Or.inl hc
  · exact Or.inr (hdigits hd hc)
  · exact Or.inl hc
  · exact Or.inr (hdigits he hc)

theorem v4Chars_lt {cs : List Char} (h : Net.v4Chars cs = true) {c : Char} (hc : c ∈ cs) :
    c.toNat < 58 := by
  obtain rfl | hdigit := v4Chars_chars h hc
  · decide
  · have hbounds := isDigit_iff.mp hdigit
    omega

theorem v6Seg_of_v4Chars {cs : List Char} (h : Net.v4Chars cs = true) : Net.v6Seg cs = false := by
  have hdot : '.' ∈ cs := by
    by_contra hnone
    obtain ⟨a, b, c, d, hsplit, _⟩ := v4Chars_octets h
    rw [List.splitOn_eq_singleton hnone] at hsplit
    cases hsplit
  by_contra hseg
  have hdigit := (v6Seg_iff.mp (by simpa using hseg)).2 '.' hdot
  revert hdigit
  decide

theorem groups_last {pieces : List (List Char)} {n : Nat} (h : Net.v6Groups pieces = some n)
    {cs : List Char} (hlast : pieces.getLast? = some cs) (hquad : Net.v4Chars cs = true) :
    ∃ gs, groups pieces = gs ++ [ipv4Value cs / 65536, ipv4Value cs % 65536] := by
  induction pieces generalizing n with
  | nil => cases hlast
  | cons piece rest ih =>
    obtain ⟨hseg, m, hm, rfl⟩ | ⟨hseg, _, rfl, rfl⟩ := v6Groups_cons h
    · rw [groups_cons hseg]
      cases rest with
      | nil =>
        obtain rfl : piece = cs := Option.some.inj hlast
        exact absurd (hseg.symm.trans (v6Seg_of_v4Chars hquad)) (by decide)
      | cons piece' rest =>
        rw [List.getLast?_cons_cons] at hlast
        obtain ⟨gs, hgs⟩ := ih hm hlast
        exact ⟨hexadecimal piece :: gs, by rw [hgs, List.cons_append]⟩
    · obtain rfl : piece = cs := Option.some.inj hlast
      exact ⟨[], by simp [groups, hseg]⟩

/-- A final dotted quad is the last thirty-two bits. -/
theorem Spelled.last {cs quad : List Char} (h : Spelled cs)
    (hlast : (cs.splitOn ':').getLast? = some quad) (hquad : Net.v4Chars quad = true) :
    Nat.ofDigits 65536 (ipv6Groups cs).reverse % 2 ^ 32 = ipv4Value quad := by
  have hempty : quad ≠ [] := by
    rintro rfl
    cases hquad
  obtain ⟨gs, hgs⟩ : ∃ gs,
      ipv6Groups cs = gs ++ [ipv4Value quad / 65536, ipv4Value quad % 65536] := by
    cases h with
    | full hpieces hvalue =>
      have hne : cs ≠ [] := by
        rintro rfl
        cases hpieces
      rw [Net.v6Pieces, if_neg hne] at hpieces hvalue
      rw [hvalue]
      exact groups_last hpieces hlast hquad
    | zeros left right n htext hleft hright hshort hvalue =>
      have hsplit : cs.splitOn ':' = left.splitOn ':' ++ [] :: right.splitOn ':' := by
        rw [htext, List.splitOn_append_cons_self]
        exact congrArg _ (List.splitOn_append_cons_self [] right)
      rw [hsplit, List.getLast?_append, List.getLast?_cons,
        List.getLast?_eq_some_getLast (List.splitOn_ne_nil ':' right)] at hlast
      have hne : right ≠ [] := by
        rintro rfl
        exact hempty (Option.some.inj hlast).symm
      have hpieces : Net.v6Pieces right = right.splitOn ':' := if_neg hne
      rw [hpieces] at hright hvalue
      obtain ⟨gs, hgs⟩ := groups_last hright
        ((List.getLast?_eq_some_getLast (List.splitOn_ne_nil ':' right)).trans hlast) hquad
      exact ⟨_, by rw [hvalue, hgs, ← List.append_assoc]⟩
  rw [h.value_last hgs]
  omega

/-! ## The tests on the text -/

theorem splitOn_toLower (cs : List Char) :
    (cs.map Char.toLower).splitOn ':' = (cs.splitOn ':').map (List.map Char.toLower) := by
  induction cs with
  | nil => rfl
  | cons c cs ih =>
    have hcolon : (c.toLower == ':') = (c == ':') := by
      rw [Bool.eq_iff_iff, beq_iff_eq, beq_iff_eq]
      constructor
      · intro h
        exact eq_of_toLower h (by decide)
      · rintro rfl
        decide
    rw [List.map_cons, List.splitOn_cons_eq_if_modifyHead, List.splitOn_cons_eq_if_modifyHead,
      hcolon, ih]
    split
    · rfl
    · cases cs.splitOn ':' with
      | nil => rfl
      | cons piece pieces => rfl

/-- A dotted quad has no letters. -/
theorem lastPiece_quad {ip : String} (h : Net.v4Chars (lastPiece ip) = true) :
    (ip.toList.splitOn ':').getLast? = some (lastPiece ip) := by
  have hlast : lastPiece ip =
      ((ip.toList.splitOn ':').getLast (List.splitOn_ne_nil ':' _)).map Char.toLower := by
    rw [lastPiece, splitOn_toLower, List.getLast?_map,
      List.getLast?_eq_some_getLast (List.splitOn_ne_nil ':' _)]
    rfl
  rw [List.getLast?_eq_some_getLast (List.splitOn_ne_nil ':' _)]
  refine congrArg some (map_toLower_eq hlast.symm fun c hc => ?_)
  exact Nat.lt_trans (v4Chars_lt h hc) (by decide)

theorem isIPv4_of_isIPv6 {ip : String} (h : Net.isIPv6 ip = true) : Net.isIPv4 ip = false := by
  by_contra h4
  have h4 : Net.v4Chars ip.toList = true := by simpa [Net.isIPv4] using h4
  have hnone {c : Char} (hc : c ∈ ip.toList) : c ≠ ':' ∧ c ≠ '%' := by
    obtain rfl | hdigit := v4Chars_chars h4 hc
    · decide
    · constructor <;> rintro rfl <;> revert hdigit <;> decide
  have htext : ip.toList.takeWhile (· ≠ '%') = ip.toList := by
    refine List.takeWhile_eq_self_iff.mpr fun c hc => ?_
    simpa using (hnone hc).2
  simp only [Net.isIPv6, Bool.and_eq_true, htext] at h
  cases spelled_of_v6Chars h.1 with
  | full hpieces hvalue =>
    have hne : ip.toList ≠ [] := by
      intro hnil
      rw [hnil] at h4
      cases h4
    rw [Net.v6Pieces, if_neg hne, List.splitOn_eq_singleton fun hc => (hnone hc).1 rfl] at hpieces
    obtain ⟨_, m, hm, height⟩ | ⟨_, _, _, htwo⟩ := v6Groups_cons hpieces
    · cases hm
      cases height
    · cases htwo
  | zeros left right n hcolons => exact (hnone (c := ':') (by simp [hcolons])).1 rfl

/-- The tests of `isPrivateIPv6`. -/
theorem isPrivateIPv6_iff {ip : String} (h : Net.isIPv6 ip = true) :
    isPrivateAddress ip = true ↔ ip = "::" ∨ ip = "::1" ∨
      "fe80".toList <+: ip.toList.map Char.toLower ∨
      ("fc".toList <+: ip.toList.map Char.toLower ∨ "fd".toList <+: ip.toList.map Char.toLower) ∨
      "::ffff:".toList <+: ip.toList.map Char.toLower ∧ Net.v4Chars (lastPiece ip) = true ∧
        isPrivateIPv4 (lastPiece ip) = true := by
  have htext {t : String} (ht : ∀ d ∈ t.toList, d.toNat < 97 ∧ d.toLower = d) :
      ip.toList.map Char.toLower = t.toList ↔ ip = t := by
    rw [← String.toList_inj]
    constructor
    · intro heq
      exact map_toLower_eq heq fun d hd => (ht d hd).1
    · intro heq
      rw [heq]
      exact (List.map_congr_left fun d hd => (ht d hd).2).trans (List.map_id _)
  have hone := htext (t := "::1") (by simp)
  have hzero := htext (t := "::") (by simp)
  have htests (a b c d e x : Bool) : (if a = true then true else if b = true then true else
      if c = true then true else if d = true then if e = true then x else false else false) = true ↔
        a = true ∨ b = true ∨ c = true ∨ d = true ∧ e = true ∧ x = true := by
    cases a <;> cases b <;> cases c <;> cases d <;> cases e <;> simp
  rw [isPrivateAddress, isIPv4_of_isIPv6 h, if_neg (by decide), if_pos h]
  refine (htests _ _ _ _ _ _).trans ?_
  simp only [Bool.or_eq_true, beq_iff_eq, List.isPrefixOf_iff_prefix, hone, hzero]
  rw [or_comm (a := ip = "::1"), or_assoc]
  rfl

/-! ## Tests and ranges -/

theorem spelled_of_isIPv6 {ip : String} (h : Net.isIPv6 ip = true) :
    Spelled (ip.toList.takeWhile (· ≠ '%')) := by
  simp only [Net.isIPv6, Bool.and_eq_true] at h
  exact spelled_of_v6Chars h.1

/-- The text begins with its first group, and then a colon, a zone or nothing; or with `::`. -/
theorem text_first {ip : String} (h : Net.isIPv6 ip = true) :
    ((∃ rest, ip.toList = ':' :: ':' :: rest) ∧ ipv6Value ip / 2 ^ 112 = 0) ∨
      ∃ piece rest, ip.toList = piece ++ rest ∧ (∀ c ∈ rest.head?, c = ':' ∨ c = '%') ∧
        Net.v6Seg piece = true ∧ ipv6Value ip / 2 ^ 112 = hexadecimal piece := by
  have htext : ip.toList.takeWhile (· ≠ '%') ++ ip.toList.dropWhile (· ≠ '%') = ip.toList :=
    List.takeWhile_append_dropWhile
  have hzone : ∀ c ∈ (ip.toList.dropWhile (· ≠ '%')).head?, c = '%' := by
    intro c hc
    have hstop := List.head?_dropWhile_not (· ≠ '%') ip.toList
    rw [Option.mem_def.mp hc] at hstop
    simpa using hstop
  obtain ⟨⟨rest, hrest⟩, hvalue⟩ | ⟨piece, rest, hpiece, hrest, hseg, hvalue⟩ :=
    (spelled_of_isIPv6 h).first
  · rw [hrest] at htext
    exact Or.inl ⟨⟨_, htext.symm⟩, hvalue⟩
  · rw [hpiece, List.append_assoc] at htext
    refine Or.inr ⟨piece, _, htext.symm, fun c hc => ?_, hseg, hvalue⟩
    obtain rfl | ⟨rest', rfl⟩ := hrest
    · exact Or.inr (hzone c hc)
    · exact Or.inl (Option.some.inj hc).symm

theorem prefix_of_append {start piece rest : List Char} (h : start <+: piece ++ rest)
    (hrest : ∀ c ∈ start, c ∉ rest.head?) : start <+: piece := by
  induction piece generalizing start with
  | nil =>
    cases start with
    | nil => exact List.nil_prefix
    | cons c start =>
      obtain ⟨tail, htail⟩ := h
      refine absurd ?_ (hrest c List.mem_cons_self)
      rw [List.nil_append] at htail
      rw [← htail]
      rfl
  | cons d piece ih =>
    cases start with
    | nil => exact List.nil_prefix
    | cons c start =>
      obtain ⟨rfl, hstart⟩ := List.cons_prefix_cons.mp h
      exact List.cons_prefix_cons.mpr
        ⟨rfl, ih hstart fun c' hc' => hrest c' (List.mem_cons_of_mem _ hc')⟩

/-- Digits the text begins with are digits of its first group. -/
theorem starts_with {ip : String} {piece rest start : List Char} (htext : ip.toList = piece ++ rest)
    (hrest : ∀ c ∈ rest.head?, c = ':' ∨ c = '%')
    (hstart : ∀ c ∈ start, c ≠ ':' ∧ c ≠ '%') :
    start <+: ip.toList.map Char.toLower ↔ start <+: piece.map Char.toLower := by
  rw [htext, List.map_append]
  constructor
  · intro h
    refine prefix_of_append h fun c hc hmem => ?_
    rw [List.head?_map] at hmem
    obtain ⟨d, hd, rfl⟩ := Option.mem_map.mp hmem
    obtain rfl | rfl := hrest d hd
    · exact (hstart _ hc).1 rfl
    · exact (hstart _ hc).2 rfl
  · intro h
    exact h.trans (List.prefix_append _ _)

theorem uniqueLocal_iff {v : Nat} :
    uniqueLocal.Contains v ↔ 0xfc00 ≤ v / 2 ^ 112 ∧ v / 2 ^ 112 ≤ 0xfdff := by
  simp only [Cidr.Contains, uniqueLocal]
  omega

theorem ReservedIPv6.first {v : Nat} (h : ReservedIPv6 v) :
    v / 2 ^ 112 = 0 ∨ (0xfe80 ≤ v / 2 ^ 112 ∧ v / 2 ^ 112 ≤ 0xfebf) ∨
      (0xfc00 ≤ v / 2 ^ 112 ∧ v / 2 ^ 112 ≤ 0xfdff) := by
  obtain rfl | rfl | hlink | hunique | ⟨hmapped, _⟩ := h
  · exact Or.inl rfl
  · exact Or.inl rfl
  · simp only [Cidr.Contains, linkLocal] at hlink
    omega
  · exact Or.inr (Or.inr (uniqueLocal_iff.mp hunique))
  · simp only [Cidr.Contains, ipv4Mapped] at hmapped
    omega

/-- The four digits of fe80::/16. -/
theorem fe80_iff {piece : List Char} (h : Net.v6Seg piece = true) :
    "fe80".toList <+: piece.map Char.toLower ↔ hexadecimal piece = 0xfe80 := by
  obtain ⟨⟨_, hlength⟩, hdigits⟩ := v6Seg_iff.mp h
  constructor
  · intro hstart
    have hfour := hstart.length_le
    obtain ⟨a, b, c, d, rfl⟩ := List.length_eq_four.mp
      (Nat.le_antisymm hlength (by simpa using hfour))
    simp only [List.mem_cons, List.not_mem_nil, or_false, forall_eq_or_imp, forall_eq] at hdigits
    obtain ⟨ha, hb, hc, hd⟩ := hdigits
    have heq := hstart.eq_of_length rfl
    simp only [List.map_cons, List.map_nil] at heq
    obtain ⟨hf, he, h8, h0⟩ : 'f' = a.toLower ∧ 'e' = b.toLower ∧ '8' = c.toLower ∧
        '0' = d.toLower := by simpa using heq
    have ha' : hexDigit a = 15 := hexDigit_of_toLower ha (by decide) hf.symm
    have hb' : hexDigit b = 14 := hexDigit_of_toLower hb (by decide) he.symm
    have hc' : hexDigit c = 8 := hexDigit_of_toLower hc (by decide) h8.symm
    have hd' : hexDigit d = 0 := hexDigit_of_toLower hd (by decide) h0.symm
    simp only [hexadecimal, List.foldl_cons, List.foldl_nil, ha', hb', hc', hd']
  · intro hvalue
    obtain ⟨a, b, c, d, rfl⟩ := v6Seg_four h (by omega)
    simp only [List.mem_cons, List.not_mem_nil, or_false, forall_eq_or_imp, forall_eq] at hdigits
    obtain ⟨ha, hb, hc, hd⟩ := hdigits
    obtain ⟨hlta, ha⟩ := toLower_hexDigit ha
    obtain ⟨hltb, hb⟩ := toLower_hexDigit hb
    obtain ⟨hltc, hc⟩ := toLower_hexDigit hc
    obtain ⟨hltd, hd⟩ := toLower_hexDigit hd
    simp only [hexadecimal, List.foldl_cons, List.foldl_nil] at hvalue
    obtain ⟨h15, h14, h8, h0⟩ : hexDigit a = 15 ∧ hexDigit b = 14 ∧ hexDigit c = 8 ∧
        hexDigit d = 0 := by omega
    simp only [List.map_cons, List.map_nil, ha, hb, hc, hd, h15, h14, h8, h0]
    decide

/-- The two digits of fc00::/7, in a group that begins a reserved address. -/
theorem fcfd_iff {piece : List Char} (h : Net.v6Seg piece = true)
    (hreserved : hexadecimal piece = 0 ∨ (0xfe80 ≤ hexadecimal piece ∧ hexadecimal piece ≤ 0xfebf) ∨
      (0xfc00 ≤ hexadecimal piece ∧ hexadecimal piece ≤ 0xfdff)) :
    ("fc".toList <+: piece.map Char.toLower ∨ "fd".toList <+: piece.map Char.toLower) ↔
      0xfc00 ≤ hexadecimal piece ∧ hexadecimal piece ≤ 0xfdff := by
  obtain ⟨⟨_, hlength⟩, hdigits⟩ := v6Seg_iff.mp h
  constructor
  · intro hstart
    obtain ⟨a, b, tail, rfl⟩ : ∃ a b tail, piece = a :: b :: tail := by
      have htwo : 2 ≤ (piece.map Char.toLower).length := by
        obtain hstart | hstart := hstart
        · exact hstart.length_le
        · exact hstart.length_le
      match piece, htwo with
      | a :: b :: tail, _ => exact ⟨a, b, tail, rfl⟩
    have ha : hexDigit a = 15 := by
      refine hexDigit_of_toLower (hdigits a (by simp)) (by decide) ?_
      obtain hstart | hstart := hstart
      · exact (List.cons_prefix_cons.mp hstart).1.symm
      · exact (List.cons_prefix_cons.mp hstart).1.symm
    have hb : hexDigit b = 12 ∨ hexDigit b = 13 := by
      have hhex := hdigits b (by simp)
      obtain hstart | hstart := hstart
      · have hc := (List.cons_prefix_cons.mp (List.cons_prefix_cons.mp hstart).2).1
        exact Or.inl (hexDigit_of_toLower hhex (by decide) hc.symm)
      · have hd := (List.cons_prefix_cons.mp (List.cons_prefix_cons.mp hstart).2).1
        exact Or.inr (hexDigit_of_toLower hhex (by decide) hd.symm)
    have hlt (c : Char) (hc : c ∈ tail) : hexDigit c < 16 :=
      (toLower_hexDigit (hdigits c (by simp [hc]))).1
    match tail, hlength with
    | [], _ =>
      simp only [hexadecimal, List.foldl_cons, List.foldl_nil] at hreserved ⊢
      omega
    | [c], _ =>
      have hc := hlt c (by simp)
      simp only [hexadecimal, List.foldl_cons, List.foldl_nil] at hreserved ⊢
      omega
    | [c, d], _ =>
      have hc := hlt c (by simp)
      have hd := hlt d (by simp)
      simp only [hexadecimal, List.foldl_cons, List.foldl_nil] at hreserved ⊢
      omega
  · intro hvalue
    obtain ⟨a, b, c, d, rfl⟩ := v6Seg_four h (by omega)
    simp only [List.mem_cons, List.not_mem_nil, or_false, forall_eq_or_imp, forall_eq] at hdigits
    obtain ⟨ha, hb, hc, hd⟩ := hdigits
    obtain ⟨hlta, ha⟩ := toLower_hexDigit ha
    obtain ⟨hltb, hb⟩ := toLower_hexDigit hb
    have hltc := (toLower_hexDigit hc).1
    have hltd := (toLower_hexDigit hd).1
    simp only [hexadecimal, List.foldl_cons, List.foldl_nil] at hvalue
    have h15 : hexDigit a = 15 := by omega
    obtain h12 | h13 : hexDigit b = 12 ∨ hexDigit b = 13 := by omega
    · left
      rw [List.map_cons, List.map_cons, ha, hb, h15, h12]
      exact List.prefix_append ['f', 'c'] _
    · right
      rw [List.map_cons, List.map_cons, ha, hb, h15, h13]
      exact List.prefix_append ['f', 'd'] _

/-- A text that begins with `::` and ends in a dotted quad is refused for the quad if its address
is reserved. -/
theorem dotted_refused {ip : String} (h : Net.isIPv6 ip = true)
    (hreserved : ReservedIPv6 (ipv6Value ip)) (hzone : '%' ∉ ip.toList)
    (hcolons : ipv6Value ip / 2 ^ 112 = 0) (hquad : Net.v4Chars (lastPiece ip) = true) :
    isPrivateIPv4 (lastPiece ip) = true := by
  have hself : ip.toList.takeWhile (· ≠ '%') = ip.toList := by
    refine List.takeWhile_eq_self_iff.mpr fun c hc => ?_
    simpa using fun heq : c = '%' => hzone (heq ▸ hc)
  have hvalue : ipv6Value ip % 2 ^ 32 = ipv4Value (lastPiece ip) := by
    refine (spelled_of_isIPv6 h).last ?_ hquad
    rw [hself]
    exact lastPiece_quad hquad
  apply (isPrivateIPv4_iff hquad).mpr
  rw [← hvalue]
  obtain h0 | h1 | hlink | hunique | ⟨_, v4, hv4, heq, hprivate⟩ := hreserved
  · rw [h0]
    exact ⟨⟨ofOctets 0 0 0 0, 8⟩, by decide, by decide⟩
  · rw [h1]
    exact ⟨⟨ofOctets 0 0 0 0, 8⟩, by decide, by decide⟩
  · simp only [Cidr.Contains, linkLocal] at hlink
    omega
  · have hbounds := uniqueLocal_iff.mp hunique
    omega
  · rw [← heq]
    exact (isPrivateIPv4_iff hv4).mp hprivate

/-- The guard refuses a spelling of a reserved address just if it recognises it. -/
theorem refused_iff_recognised {ip : String} (h : Net.isIPv6 ip = true)
    (hreserved : ReservedIPv6 (ipv6Value ip)) : isPrivateAddress ip = true ↔ Recognised ip := by
  have hdigits : "fe80".toList <+: ip.toList.map Char.toLower ↔
      ipv6Value ip / 2 ^ 112 = 0xfe80 := by
    obtain ⟨⟨rest, htext⟩, hvalue⟩ | ⟨piece, rest, htext, hrest, hseg, hvalue⟩ := text_first h
    · rw [htext, hvalue]
      simp [List.cons_prefix_cons]
    · rw [starts_with htext hrest (by simp), hvalue]
      exact fe80_iff hseg
  have hletters : ("fc".toList <+: ip.toList.map Char.toLower ∨
      "fd".toList <+: ip.toList.map Char.toLower) ↔ uniqueLocal.Contains (ipv6Value ip) := by
    have hfirst := hreserved.first
    rw [uniqueLocal_iff]
    obtain ⟨⟨rest, htext⟩, hvalue⟩ | ⟨piece, rest, htext, hrest, hseg, hvalue⟩ := text_first h
    · rw [htext, hvalue]
      simp [List.cons_prefix_cons]
    · rw [starts_with htext hrest (by simp), starts_with htext hrest (by simp), hvalue]
      rw [hvalue] at hfirst
      exact fcfd_iff hseg hfirst
  have hmapped : "::ffff:".toList <+: ip.toList.map Char.toLower →
      Net.v4Chars (lastPiece ip) = true →
        (isPrivateIPv4 (lastPiece ip) = true ↔
          ('%' ∈ ip.toList → isPrivateIPv4 (lastPiece ip) = true)) := by
    intro hstart hquad
    refine ⟨fun hprivate _ => hprivate, fun hprivate => ?_⟩
    by_cases hzone : '%' ∈ ip.toList
    · exact hprivate hzone
    · obtain ⟨_, hvalue⟩ | ⟨piece, rest, htext, hrest, hseg, hvalue⟩ := text_first h
      · exact dotted_refused h hreserved hzone hvalue hquad
      · obtain ⟨⟨hnonempty, _⟩, hhex⟩ := v6Seg_iff.mp hseg
        cases piece with
        | nil => cases hnonempty
        | cons c piece =>
          rw [htext, List.cons_append, List.map_cons] at hstart
          have hcolon : ':' = c.toLower := (List.cons_prefix_cons.mp hstart).1
          have hc := hhex c List.mem_cons_self
          rw [eq_of_toLower hcolon.symm (by decide)] at hc
          exact absurd hc (by decide)
  rw [isPrivateIPv6_iff h, hdigits, hletters]
  constructor
  · rintro (hzero | hone | hlink | hunique | ⟨hstart, hquad, hprivate⟩)
    · exact Or.inr (Or.inr (Or.inl hzero))
    · exact Or.inr (Or.inr (Or.inr (Or.inl hone)))
    · exact Or.inr (Or.inl hlink)
    · exact Or.inl hunique
    · exact Or.inr (Or.inr (Or.inr (Or.inr ⟨hstart, hquad, (hmapped hstart hquad).mp hprivate⟩)))
  · rintro (hunique | hlink | hzero | hone | ⟨hstart, hquad, hprivate⟩)
    · exact Or.inr (Or.inr (Or.inr (Or.inl hunique)))
    · exact Or.inr (Or.inr (Or.inl hlink))
    · exact Or.inl hzero
    · exact Or.inr (Or.inl hone)
    · exact Or.inr (Or.inr (Or.inr (Or.inr ⟨hstart, hquad, (hmapped hstart hquad).mpr hprivate⟩)))

/-- A spelling of a reserved address gets through exactly if the guard does not recognise it. -/
theorem ipv6_guard_iff (ip : String) (h : Net.isIPv6 ip = true) :
    (ReservedIPv6 (ipv6Value ip) → isPrivateAddress ip = true) ↔
      (ReservedIPv6 (ipv6Value ip) → Recognised ip) := by
  constructor
  · intro hrefused hreserved
    exact (refused_iff_recognised h hreserved).mp (hrefused hreserved)
  · intro hrecognised hreserved
    exact (refused_iff_recognised h hreserved).mpr (hrecognised hreserved)

theorem ipv6_guard_iff_mapped : Net.isIPv6 "::FFFF:10.0.0.1" = true ∧
    ReservedIPv6 (ipv6Value "::FFFF:10.0.0.1") ∧ isPrivateAddress "::FFFF:10.0.0.1" = true := by
  have h : Net.isIPv6 "::FFFF:10.0.0.1" = true := by decide +kernel
  have hreserved : ReservedIPv6 (ipv6Value "::FFFF:10.0.0.1") :=
    Or.inr (Or.inr (Or.inr (Or.inr ⟨by decide +kernel, "10.0.0.1".toList, by decide +kernel⟩)))
  refine ⟨h, hreserved, (ipv6_guard_iff _ h).mpr (fun _ => ?_) hreserved⟩
  exact Or.inr (Or.inr (Or.inr (Or.inr (by decide +kernel))))

/-- Spellings of a link-local address, of the loopback address and of a mapped 127.0.0.1 that get
through. -/
theorem reserved_spellings_pass :
    (Net.isIPv6 "fe90::1" = true ∧ ReservedIPv6 (ipv6Value "fe90::1") ∧
      isPrivateAddress "fe90::1" = false) ∧
    (Net.isIPv6 "0:0:0:0:0:0:0:1" = true ∧ ReservedIPv6 (ipv6Value "0:0:0:0:0:0:0:1") ∧
      isPrivateAddress "0:0:0:0:0:0:0:1" = false) ∧
    (Net.isIPv6 "::ffff:7f00:1" = true ∧ ReservedIPv6 (ipv6Value "::ffff:7f00:1") ∧
      isPrivateAddress "::ffff:7f00:1" = false) ∧
    ¬ ∀ ip, Net.isIPv6 ip = true → ReservedIPv6 (ipv6Value ip) → isPrivateAddress ip = true := by
  have hlink : Net.isIPv6 "fe90::1" = true ∧ ReservedIPv6 (ipv6Value "fe90::1") ∧
      isPrivateAddress "fe90::1" = false :=
    ⟨by decide +kernel, Or.inr (Or.inr (Or.inl (by decide +kernel))), by decide +kernel⟩
  refine ⟨hlink, ⟨by decide +kernel, Or.inr (Or.inl (by decide +kernel)), by decide +kernel⟩,
    ⟨by decide +kernel, ?_, by decide +kernel⟩, fun h => ?_⟩
  · exact Or.inr (Or.inr (Or.inr (Or.inr
      ⟨by decide +kernel, "127.0.0.1".toList, by decide +kernel⟩)))
  · exact absurd (h _ hlink.1 hlink.2.1) (by rw [hlink.2.2]; decide)

end CronHive
