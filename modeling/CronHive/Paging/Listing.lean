import Mathlib.Data.List.Sort
import Mathlib.Order.Basic

/-!
# Pages of a sorted query

A query sorted by a key may return rows of equal keys in any order, and in another order the next
time. Pages of such a query are pieces of different orders. They hold every row once, whatever the
orders, exactly if they tile a listing and every page ends where the key changes.
-/

namespace Paging

set_option autoImplicit false

open scoped List

variable {α κ : Type} [LinearOrder κ] (key : α → κ)

/-- An order in which a query for `rows`, greatest key first, may return them. -/
structure Listing (rows l : List α) : Prop where
  perm : l.Perm rows
  sorted : l.Pairwise fun a b => key b ≤ key a

/-- Some `c` rows have keys greater than all the others. -/
def CleanCut (rows : List α) (c : Nat) : Prop := ∃ t, rows.countP (fun a => t ≤ key a) = c

def window (skip take : Nat) (l : List α) : List α := (l.drop skip).take take

def windows (start : Nat → Nat) (size count : Nat) (ls : Nat → List α) : List α :=
  (List.range count).flatMap fun n => window (start n) size (ls n)

def page (size n : Nat) (l : List α) : List α := window (n * size) size l

/-- The first `count` pages, each of its own query. -/
def pages (size count : Nat) (ls : Nat → List α) : List α := windows (· * size) size count ls

/-- As far as there are rows each window begins where the one before it ends, and the last ends
behind them. -/
structure Tiles (start : Nat → Nat) (size count total : Nat) : Prop where
  starts : ∀ n < count, min (start n) total = min (n * size) total
  covers : total ≤ count * size

variable {key}

theorem exists_listing (rows : List α) : ∃ l, Listing key rows l := by
  refine ⟨rows.mergeSort fun a b => key b ≤ key a, rows.mergeSort_perm _, ?_⟩
  have hsorted : (rows.mergeSort fun a b => key b ≤ key a).Pairwise fun a b =>
      decide (key b ≤ key a) = true := by
    refine List.pairwise_mergeSort (fun a b c hab hbc => ?_) (fun a b => ?_) rows
    · simp only [decide_eq_true_eq] at hab hbc ⊢
      exact hbc.trans hab
    · simp only [Bool.or_eq_true, decide_eq_true_eq]
      exact le_total (key b) (key a)
  exact hsorted.imp fun h => of_decide_eq_true h

theorem take_countP {l : List α} (h : l.Pairwise fun a b => key b ≤ key a) (t : κ) :
    l.take (l.countP fun a => t ≤ key a) = l.filter fun a => t ≤ key a := by
  induction l with
  | nil => rfl
  | cons a l ih =>
    obtain ⟨hfirst, hrest⟩ := List.pairwise_cons.mp h
    by_cases ha : t ≤ key a
    · simp [ha, ih hrest]
    · have hnone : ∀ b ∈ a :: l, ¬ decide (t ≤ key b) = true := by
        intro b hb hle
        rcases List.mem_cons.mp hb with rfl | hb
        · exact ha (of_decide_eq_true hle)
        · exact ha ((of_decide_eq_true hle).trans (hfirst b hb))
      rw [List.filter_eq_nil_iff.mpr hnone, List.countP_eq_zero.mpr hnone, List.take_zero]

theorem take_perm {rows l l' : List α} {c : Nat} (h : Listing key rows l)
    (h' : Listing key rows l') (hcut : CleanCut key rows c) : (l.take c).Perm (l'.take c) := by
  obtain ⟨t, hc⟩ := hcut
  have hl : l.take c = l.filter fun a => t ≤ key a := by
    rw [← take_countP h.sorted, h.perm.countP_eq, hc]
  have hl' : l'.take c = l'.filter fun a => t ≤ key a := by
    rw [← take_countP h'.sorted, h'.perm.countP_eq, hc]
  rw [hl, hl']
  exact (h.perm.trans h'.perm.symm).filter _

section Pages

variable {rows : List α} {size count : Nat} {ls : Nat → List α}

theorem take_page (size n : Nat) (l : List α) :
    l.take ((n + 1) * size) = l.take (n * size) ++ page size n l := by
  rw [Nat.succ_mul, List.take_add, page, window]

theorem pages_succ (size n : Nat) (ls : Nat → List α) :
    pages size (n + 1) ls = pages size n ls ++ page size n (ls n) := by
  simp [pages, windows, page, List.range_succ]

theorem pages_take (hls : ∀ n, Listing key rows (ls n)) {l : List α} (hl : Listing key rows l)
    (hcuts : ∀ n, 0 < n → n * size < rows.length → CleanCut key rows (n * size)) (n : Nat) :
    (pages size n ls).Perm (l.take (n * size)) := by
  have hcut (m : Nat) (k : Nat) : ((ls k).take (m * size)).Perm (l.take (m * size)) := by
    rcases Nat.eq_zero_or_pos m with rfl | hm
    · simp
    · by_cases hlt : m * size < rows.length
      · exact take_perm (hls k) hl (hcuts m hm hlt)
      · rw [List.take_of_length_le (by rw [(hls k).perm.length_eq]; omega),
          List.take_of_length_le (by rw [hl.perm.length_eq]; omega)]
        exact (hls k).perm.trans hl.perm.symm
  induction n with
  | zero => simp [pages, windows]
  | succ n ih =>
    calc pages size (n + 1) ls = pages size n ls ++ page size n (ls n) := pages_succ size n ls
      _ ~ l.take (n * size) ++ page size n (ls n) := ih.append_right _
      _ ~ (ls n).take (n * size) ++ page size n (ls n) := (hcut n n).symm.append_right _
      _ = (ls n).take ((n + 1) * size) := (take_page size n (ls n)).symm
      _ ~ l.take ((n + 1) * size) := hcut (n + 1) n

theorem Listing.swap {pre post : List α} {x y : α}
    (h : Listing key rows (pre ++ x :: y :: post)) (hkey : key x ≤ key y) :
    Listing key rows (pre ++ y :: x :: post) := by
  refine ⟨((List.Perm.swap x y post).append_left pre).trans h.perm, ?_⟩
  have hsorted := h.sorted
  simp only [List.pairwise_append, List.pairwise_cons, List.mem_cons, forall_eq_or_imp] at hsorted ⊢
  obtain ⟨hpre, ⟨⟨hxy, hx⟩, hy, hpost⟩, hacross⟩ := hsorted
  exact ⟨hpre, ⟨⟨hkey, hy⟩, hx, hpost⟩, fun a ha => ⟨(hacross a ha).2.1, (hacross a ha).1,
    (hacross a ha).2.2⟩⟩

theorem Listing.cleanCut {pre post : List α} {x : α} (h : Listing key rows (pre ++ x :: post))
    (hkey : ∀ y ∈ post, key y < key x) : CleanCut key rows (pre.length + 1) := by
  refine ⟨key x, ?_⟩
  have hacross := (List.pairwise_append.mp h.sorted).2.2
  have hpre : pre.countP (fun a => key x ≤ key a) = pre.length :=
    List.countP_eq_length.mpr fun a ha => decide_eq_true (hacross a ha x List.mem_cons_self)
  have hpost : post.countP (fun a => key x ≤ key a) = 0 :=
    List.countP_eq_zero.mpr fun a ha => by simpa using hkey a ha
  rw [← h.perm.countP_eq, List.countP_append, List.countP_cons, hpre, hpost]
  simp

theorem mem_window {l : List α} {skip take i : Nat} (hi : i < l.length) (hlow : skip ≤ i)
    (hhigh : i < skip + take) : l[i] ∈ window skip take l := by
  apply List.mem_of_getElem? (i := i - skip)
  rw [window, List.getElem?_take, if_pos (by omega), List.getElem?_drop,
    Nat.add_sub_cancel' hlow, List.getElem?_eq_getElem hi]

theorem mem_page {pre post : List α} {x : α} {n : Nat} (hlow : n * size ≤ pre.length)
    (hhigh : pre.length < (n + 1) * size) : x ∈ page size n (pre ++ x :: post) := by
  rw [Nat.succ_mul] at hhigh
  have hlength : pre.length < (pre ++ x :: post).length := by simp
  have hx : (pre ++ x :: post)[pre.length] = x := by simp
  have hmem := mem_window hlength hlow hhigh
  rw [hx] at hmem
  exact hmem

/-- If the pages hold each row once whatever the listings, they end in clean cuts: otherwise the
row before the cut changes places with the one behind it, and is on both pages. -/
theorem cleanCut_of_pages (hrows : rows.Nodup) (hsize : 0 < size)
    (hpages : ∀ ls, (∀ n, Listing key rows (ls n)) → (pages size count ls).Perm rows) {n : Nat}
    (hn : 0 < n) (hcount : n < count) (hcut : n * size < rows.length) :
    CleanCut key rows (n * size) := by
  obtain ⟨l, hl⟩ : ∃ l, Listing key rows l := exists_listing rows
  have hlength : l.length = rows.length := hl.perm.length_eq
  have hpos : 0 < n * size := Nat.mul_pos hn hsize
  obtain ⟨pre, x, y, post, rfl, hpre⟩ : ∃ pre x y post, l = pre ++ x :: y :: post ∧
      pre.length + 1 = n * size := by
    refine ⟨l.take (n * size - 1), l[n * size - 1], l[n * size], l.drop (n * size + 1), ?_, ?_⟩
    · conv_lhs => rw [← List.take_append_drop (n * size - 1) l]
      rw [List.drop_eq_getElem_cons (by omega), List.drop_eq_getElem_cons (by omega)]
      simp only [Nat.sub_add_cancel hpos]
    · rw [List.length_take]
      omega
  have hsorted := hl.sorted
  simp only [List.pairwise_append, List.pairwise_cons] at hsorted
  obtain ⟨_, ⟨_, hy, _⟩, _⟩ := hsorted
  by_cases hkey : key y < key x
  · rw [← hpre]
    refine hl.cleanCut fun z hz => ?_
    rcases List.mem_cons.mp hz with rfl | hz
    · exact hkey
    · exact lt_of_le_of_lt (hy z hz) hkey
  · have hl' := hl.swap (not_lt.mp hkey)
    have hall := hpages (fun m => if m < n then pre ++ x :: y :: post else pre ++ y :: x :: post)
      fun m => by split <;> assumption
    have hdisjoint := (List.nodup_flatMap.mp (hall.nodup_iff.mpr hrows)).2
    have hpair := List.pairwise_iff_getElem.mp hdisjoint (n - 1) n (by simp; omega) (by simpa)
      (by omega)
    simp only [List.getElem_range, Function.onFun, if_pos (Nat.sub_lt hn Nat.one_pos),
      Nat.lt_irrefl, if_false] at hpair
    have hsucc : (n - 1 + 1) * size = n * size := by rw [Nat.sub_add_cancel hn]
    have hprev : (n - 1) * size + size = n * size := by rw [← Nat.succ_mul, hsucc]
    have hbefore : x ∈ page size (n - 1) (pre ++ x :: y :: post) :=
      mem_page (by omega) (by omega)
    have hbehind : x ∈ page size n (pre ++ [y] ++ x :: post) := by
      refine mem_page ?_ ?_
      · rw [List.length_append, List.length_singleton, hpre]
      · rw [List.length_append, List.length_singleton, hpre, Nat.succ_mul]
        omega
    rw [List.append_assoc] at hbehind
    exact absurd hbehind (hpair hbefore)

/-- Pages that cover the rows hold each once, whatever the listings, exactly if they end in clean
cuts. -/
theorem pages_perm_iff (hrows : rows.Nodup) (hsize : 0 < size)
    (hcover : rows.length ≤ count * size) :
    (∀ ls, (∀ n, Listing key rows (ls n)) → (pages size count ls).Perm rows) ↔
      ∀ n, 0 < n → n * size < rows.length → CleanCut key rows (n * size) := by
  constructor
  · intro hpages n hn hcut
    refine cleanCut_of_pages hrows hsize hpages hn ?_ hcut
    exact Nat.lt_of_mul_lt_mul_right (Nat.lt_of_lt_of_le hcut hcover)
  · intro hcuts ls hls
    have htake := pages_take hls (hls 0) hcuts count
    rw [List.take_of_length_le (by rw [(hls 0).perm.length_eq]; exact hcover)] at htake
    exact htake.trans (hls 0).perm

/-! ## Windows -/

variable {start : Nat → Nat}

theorem drop_min (n : Nat) (l : List α) : l.drop (min n l.length) = l.drop n := by
  rcases Nat.le_total n l.length with h | h
  · rw [Nat.min_eq_left h]
  · rw [Nat.min_eq_right h, List.drop_length, List.drop_eq_nil_of_le h]

theorem windows_eq_pages (htiles : Tiles start size count rows.length)
    (hls : ∀ n, Listing key rows (ls n)) :
    windows start size count ls = pages size count ls := by
  refine List.flatMap_congr fun n hn => ?_
  have hstart := htiles.starts n (List.mem_range.mp hn)
  rw [← (hls n).perm.length_eq] at hstart
  rw [window, window, ← drop_min (start n), hstart, drop_min]

theorem window_of_mem {l : List α} (hl : l.Nodup) {skip take i : Nat} (hi : i < l.length)
    (h : l[i] ∈ window skip take l) : skip ≤ i ∧ i < skip + take := by
  obtain ⟨k, hk⟩ := List.mem_iff_getElem?.mp h
  rw [window, List.getElem?_take] at hk
  split at hk
  · rw [List.getElem?_drop] at hk
    obtain ⟨hlt, hsame⟩ := List.getElem?_eq_some_iff.mp hk
    have hindex : skip + k = i := (hl.getElem_inj_iff).mp hsame
    omega
  · cases hk

theorem tiles_of_once {total : Nat} (hsize : 0 < size) (hmono : Monotone start)
    (hzero : start 0 = 0)
    (hdisjoint : ∀ m n i, m < n → n < count → i < total → start m ≤ i → i < start m + size →
      start n ≤ i → start n + size ≤ i)
    (hcovers : ∀ i < total, ∃ n < count, start n ≤ i ∧ i < start n + size) :
    Tiles start size count total := by
  -- where the windows before the n-th stand
  have hstart (n : Nat) (hn : n < count) : min (start n) total = min (n * size) total := by
    induction n using Nat.strong_induction_on with
    | _ n ih =>
      have hearlier {m : Nat} (hm : m < n) (hlt : m * size < total) : start m = m * size := by
        have hsame := ih m hm (hm.trans hn)
        omega
      rcases Nat.eq_zero_or_pos n with rfl | hpos
      · rw [hzero, Nat.zero_mul]
      · by_contra hne
        rcases Nat.lt_or_gt_of_ne hne with hlow | hhigh
        · -- the place where it begins is in an earlier window too
          have hin : start n < total := by omega
          have hbefore : start n < n * size := by omega
          have hm : start n / size < n := (Nat.div_lt_iff_lt_mul hsize).mpr hbefore
          have hfloor : start n / size * size ≤ start n := Nat.div_mul_le_self ..
          have hceil : start n < start n / size * size + size := by
            have hmod := Nat.mod_lt (start n) hsize
            have hdiv := Nat.div_add_mod' (start n) size
            omega
          have hstart := hearlier hm (hfloor.trans_lt hin)
          have hout := hdisjoint _ n (start n) hm hn hin (by omega) (by omega) (le_refl _)
          omega
        · -- the place where it should begin is in no window
          obtain ⟨m, _, hlow, hup⟩ := hcovers (n * size) (by omega)
          rcases Nat.lt_or_ge m n with hm | hm
          · have hnext : (m + 1) * size ≤ n * size := Nat.mul_le_mul_right size hm
            rw [Nat.succ_mul] at hnext
            have hstart := hearlier hm (by omega)
            omega
          · have hle := hmono hm
            omega
  refine ⟨hstart, Nat.le_of_not_lt fun hlt => ?_⟩
  obtain ⟨m, hm, _, hup⟩ := hcovers _ hlt
  have hnext : (m + 1) * size ≤ count * size := Nat.mul_le_mul_right size hm
  rw [Nat.succ_mul] at hnext
  have hsame := hstart m hm
  omega

theorem tiles_of_windows {l : List α} (hl : l.Nodup) (hsize : 0 < size) (hmono : Monotone start)
    (hzero : start 0 = 0) (hperm : (windows start size count fun _ => l).Perm l) :
    Tiles start size count l.length := by
  have hdisjoint := (List.nodup_flatMap.mp (hperm.nodup_iff.mpr hl)).2
  refine tiles_of_once hsize hmono hzero (fun m n i hmn hn hi hlow hhigh hstart => ?_)
    fun i hi => ?_
  · by_contra hlt
    have hpair := List.pairwise_iff_getElem.mp hdisjoint m n (by simp; omega) (by simpa) hmn
    simp only [List.getElem_range, Function.onFun] at hpair
    exact hpair (mem_window hi hlow hhigh) (mem_window hi hstart (by omega))
  · obtain ⟨n, hn, hmem⟩ := List.mem_flatMap.mp (hperm.mem_iff.mpr (l.getElem_mem hi))
    exact ⟨n, List.mem_range.mp hn, window_of_mem hl hi hmem⟩

/-- Windows that move on hold each row once, whatever the listings, exactly if they tile them and
end in clean cuts. -/
theorem windows_perm_iff (hrows : rows.Nodup) (hsize : 0 < size) (hmono : Monotone start)
    (hzero : start 0 = 0) :
    (∀ ls, (∀ n, Listing key rows (ls n)) → (windows start size count ls).Perm rows) ↔
      Tiles start size count rows.length ∧
        ∀ n, 0 < n → n * size < rows.length → CleanCut key rows (n * size) := by
  have hpages (htiles : Tiles start size count rows.length) :
      (∀ ls, (∀ n, Listing key rows (ls n)) → (windows start size count ls).Perm rows) ↔
        ∀ n, 0 < n → n * size < rows.length → CleanCut key rows (n * size) := by
    rw [← pages_perm_iff hrows hsize htiles.covers]
    refine forall_congr' fun ls => forall_congr' fun hls => ?_
    rw [windows_eq_pages htiles hls]
  constructor
  · intro hall
    obtain ⟨l, hl⟩ : ∃ l, Listing key rows l := exists_listing rows
    have htiles : Tiles start size count rows.length := by
      rw [← hl.perm.length_eq]
      exact tiles_of_windows (hl.perm.nodup_iff.mpr hrows) hsize hmono hzero
        ((hall (fun _ => l) fun _ => hl).trans hl.perm.symm)
    exact ⟨htiles, (hpages htiles).mp hall⟩
  · intro h
    obtain ⟨htiles, hcuts⟩ := h
    exact (hpages htiles).mpr hcuts

end Pages

end Paging
