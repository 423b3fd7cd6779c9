import CronHive.Numbers.Rounding
import CronHive.Paging.Listing
import CronHive.System

/-!
# The execution history of a job

`GET /jobs/:id/executions` takes any number as `limit` and sorts by `triggeredAt`, which executions
may share. The rows reach the route in an order that the database chooses for each query.
-/

namespace CronHive

set_option autoImplicit false

/-- A number of JavaScript; a finite one is read as the rational number that it is. -/
inductive JsNumber where
  | nan
  | negInf
  | posInf
  | real (q : ℚ)
  deriving DecidableEq

/-- The double next to a number that is not negative. -/
def double (q : ℚ) : ℚ := Rounding.toDigits 53 q

namespace JsNumber

def ofNat (n : Nat) : JsNumber := .real (double n)

def orElse : JsNumber → ℚ → JsNumber
  | .nan, d => .real d
  | .real q, d => if q = 0 then .real d else .real q
  | n, _ => n

def mathMax (a : ℚ) : JsNumber → JsNumber
  | .negInf => .real a
  | .real q => .real (max a q)
  | n => n

def mathMin (a : ℚ) : JsNumber → JsNumber
  | .posInf => .real a
  | .real q => .real (min a q)
  | n => n

/-- `(page - 1) * limit`, for a page and a limit from 1 on. -/
def skip : JsNumber → JsNumber → JsNumber
  | .real page, .real limit => .real (double (double (page - 1) * limit))
  | .posInf, .real _ => .posInf
  | _, _ => .nan

/-- `Math.ceil(total / limit)`, for a limit from 1 on. -/
def totalPages (total : Nat) : JsNumber → Nat
  | .real limit => ⌈double (double total / limit)⌉₊
  | _ => 0

/-- What Prisma takes for `skip` and `take`: it drops the fraction and refuses what has no 64
bits. -/
def count? : JsNumber → Option Nat
  | .real q => if 0 ≤ q ∧ q < 2 ^ 63 then some ⌊q⌋₊ else none
  | _ => none

end JsNumber

inductive ListingError where
  | notFound
  | invalidArgument
  deriving DecidableEq, Repr

structure ExecutionsPage where
  data : List Execution
  page : JsNumber
  limit : JsNumber
  total : Nat
  totalPages : Nat

/-- `prisma.execution.findMany`; `rows` are the rows of the query in the order it returns them. -/
def executionFindMany (rows : List Execution) (skip take : JsNumber) :
    Except ListingError (List Execution) :=
  match skip.count?, take.count? with
  | some skip, some take => .ok (Paging.window skip take rows)
  | _, _ => .error .invalidArgument

def listExecutions (rows : List Execution) (page limit : JsNumber) :
    Except ListingError (List Execution × Nat) :=
  match executionFindMany rows (page.skip limit) limit with
  | .ok items => .ok (items, rows.length)
  | .error e => .error e

def clampPage (page : JsNumber) : JsNumber := (page.orElse 1).mathMax 1

def clampLimit (limit : JsNumber) : JsNumber := ((limit.orElse 20).mathMax 1).mathMin 100

/-- `GET /:id/executions`; `page` and `limit` are `Number(…)` of the query's strings. -/
def getExecutions (db : Postgres) (rows : List Execution) (id : JobId) (page limit : JsNumber) :
    Except ListingError ExecutionsPage :=
  match db.job? id with
  | none => .error .notFound
  | some _ =>
      match listExecutions rows (clampPage page) (clampLimit limit) with
      | .ok (items, total) =>
          .ok ⟨items, clampPage page, clampLimit limit, total, (clampLimit limit).totalPages total⟩
      | .error e => .error e

def executionsOf (db : Postgres) (id : JobId) : List Execution :=
  db.executions.filter fun x => x.jobId = id

/-- Requests for page 1, 2, … up to `totalPages` all succeed and return each execution once,
whatever order the database returns the rows in, and in another for each request. -/
def PagesOnce (db : Postgres) (id : JobId) (limit : JsNumber) : Prop :=
  ∀ orders : Nat → List Execution,
    (∀ n, Paging.Listing (·.triggeredAt) (executionsOf db id) (orders n)) →
    ∃ items : Nat → List Execution,
      (∀ n < (clampLimit limit).totalPages (executionsOf db id).length, ∃ response,
        getExecutions db (orders n) id (.ofNat (n + 1)) limit = .ok response ∧
          response.data = items n) ∧
      ((List.range ((clampLimit limit).totalPages (executionsOf db id).length)).flatMap items).Perm
        (executionsOf db id)

/-- The double `n * limit`, for the number `n` of the pages before. -/
def pageSkip (limit : ℚ) (n : Nat) : ℚ := double (double (double ((n : ℚ) + 1) - 1) * limit)

/-- Pages of `limit` rows each, its fraction dropped, begin where the one before them ends. -/
def PagesTile (limit : ℚ) (total : Nat) : Prop :=
  Paging.Tiles (fun n => ⌊pageSkip limit n⌋₊) ⌊limit⌋₊ ((JsNumber.real limit).totalPages total)
    total

def PagesHad (limit : ℚ) (total : Nat) : Prop :=
  ∀ n < (JsNumber.real limit).totalPages total, pageSkip limit n < 2 ^ 63

/-! ## Numbers -/

theorem clampLimit_real (limit : JsNumber) :
    ∃ q, clampLimit limit = .real q ∧ 1 ≤ q ∧ q ≤ 100 := by
  have hreal (q : ℚ) :
      ∃ q', ((JsNumber.real q).mathMax 1).mathMin 100 = .real q' ∧ 1 ≤ q' ∧ q' ≤ 100 :=
    ⟨min 100 (max 1 q), rfl, le_min (by norm_num) (le_max_left 1 q), min_le_left ..⟩
  cases limit with
  | nan => exact hreal 20
  | negInf => exact ⟨1, rfl, le_refl 1, by norm_num⟩
  | posInf => exact ⟨100, rfl, by norm_num, le_refl 100⟩
  | real q =>
    by_cases hq : q = 0
    · simpa [clampLimit, JsNumber.orElse, hq] using hreal 20
    · simpa [clampLimit, JsNumber.orElse, hq] using hreal q

theorem double_mono {x y : ℚ} (hx : 0 ≤ x) (h : x ≤ y) : double x ≤ double y :=
  Rounding.toDigits_mono (by decide) hx h

theorem double_natCast {n : Nat} (h : n < 2 ^ 53) : double n = n := Rounding.toDigits_natCast h

@[simp] theorem double_zero : double 0 = 0 := Rounding.toDigits_zero 53

@[simp] theorem double_one : double 1 = 1 := by
  exact_mod_cast double_natCast (n := 1) (by norm_num)

theorem one_le_double (n : Nat) : 1 ≤ double ((n : ℚ) + 1) := by
  calc 1 = double 1 := double_one.symm
    _ ≤ double ((n : ℚ) + 1) := double_mono zero_le_one (le_add_of_nonneg_left n.cast_nonneg)

theorem double_nonneg {x : ℚ} (hx : 0 ≤ x) : 0 ≤ double x := by
  calc 0 = double 0 := double_zero.symm
    _ ≤ double x := double_mono (le_refl 0) hx

theorem pageSkip_zero (limit : ℚ) : pageSkip limit 0 = 0 := by
  simp [pageSkip]

theorem pageSkip_nonneg {limit : ℚ} (hlimit : 0 ≤ limit) (n : Nat) : 0 ≤ pageSkip limit n :=
  double_nonneg (mul_nonneg (double_nonneg (sub_nonneg.mpr (one_le_double n))) hlimit)

theorem pageSkip_mono {limit : ℚ} (hlimit : 0 ≤ limit) : Monotone (pageSkip limit) := by
  intro m n hmn
  have hpage : (m : ℚ) + 1 ≤ n + 1 := by exact_mod_cast Nat.succ_le_succ hmn
  have hdouble := sub_le_sub_right (double_mono (by positivity) hpage) 1
  have hbefore := double_mono (sub_nonneg.mpr (one_le_double m)) hdouble
  have hm := double_nonneg (sub_nonneg.mpr (one_le_double m))
  exact double_mono (mul_nonneg hm hlimit) (mul_le_mul_of_nonneg_right hbefore hlimit)

/-- Products of a whole limit are exact, and so is the number of its pages. -/
theorem pagesTile_of_whole {size total : Nat} (hsize : 0 < size) (hmax : size ≤ 100)
    (hfew : total < 2 ^ 45) : PagesTile size total ∧ PagesHad size total := by
  have hpages : (JsNumber.real size).totalPages total = ⌈double ((total : ℚ) / size)⌉₊ := by
    rw [JsNumber.totalPages, double_natCast (by omega)]
  have hsizeq : (1 : ℚ) ≤ size := by exact_mod_cast hsize
  have hle : (JsNumber.real size).totalPages total ≤ total := by
    rw [hpages, Nat.ceil_le]
    calc double ((total : ℚ) / size) ≤ double total :=
          double_mono (by positivity) (div_le_self total.cast_nonneg hsizeq)
      _ = total := double_natCast (by omega)
  have hskip (n : Nat) (hn : n < (JsNumber.real size).totalPages total) :
      pageSkip size n = (n * size : Nat) := by
    have hproduct : n * size ≤ n * 100 := Nat.mul_le_mul_left n hmax
    have hpage : double ((n : ℚ) + 1) = n + 1 := by
      exact_mod_cast double_natCast (n := n + 1) (by omega)
    rw [pageSkip, hpage, add_sub_cancel_right, double_natCast (by omega), ← Nat.cast_mul]
    exact double_natCast (by omega)
  refine ⟨⟨fun n hn => ?_, ?_⟩, fun n hn => ?_⟩
  · rw [hskip n hn, Nat.floor_natCast, Nat.floor_natCast]
  · rw [Nat.floor_natCast]
    by_contra hlt
    generalize hcount : (JsNumber.real size).totalPages total = count at hpages hle hlt
    -- one row more is a hundredth of a page more, which the quotient still shows
    have hrow : count * size + 1 ≤ total := Nat.lt_of_not_le hlt
    have hquotient : ((128 * count + 1 : ℤ) : ℚ) * 2 ^ (-7 : ℤ) ≤ (total : ℚ) / size := by
      rw [le_div_iff₀ (by positivity)]
      have hrowq : (count * size + 1 : ℚ) ≤ total := by exact_mod_cast hrow
      have hmaxq : (size : ℚ) ≤ 100 := by exact_mod_cast hmax
      push_cast
      norm_num
      linarith
    have hkept := Rounding.toDigits_eq (p := 53) (m := 128 * count + 1) (z := -7) (by omega)
      (by omega)
    have hceil : double ((total : ℚ) / size) ≤ count := by
      rw [hpages]
      exact Nat.le_ceil _
    have hdouble := (double_mono (by positivity) hquotient).trans hceil
    rw [double, hkept] at hdouble
    push_cast at hdouble
    norm_num at hdouble
    linarith
  · have hproduct : n * size ≤ n * 100 := Nat.mul_le_mul_left n hmax
    rw [hskip n hn]
    exact_mod_cast (show n * size < 2 ^ 63 by omega)

section History

variable {db : Postgres} {id : JobId} {limit : JsNumber}

theorem executionsOf_nodup : (executionsOf db id).Nodup :=
  (List.Nodup.of_map _ db.execution_pkey).filter _

theorem job?_of_executions (h : executionsOf db id ≠ []) : (db.job? id).isSome := by
  obtain ⟨x, hx⟩ := List.exists_mem_of_ne_nil _ h
  obtain ⟨hmem, hjob⟩ := List.mem_filter.mp hx
  have hkey := db.job_fkey x hmem
  rw [of_decide_eq_true hjob] at hkey
  obtain ⟨job, hj, hid⟩ := List.mem_map.mp hkey
  exact Option.isSome_iff_exists.mpr ⟨job, Postgres.job?_eq_some.mpr ⟨hj, hid⟩⟩

theorem listExecutions_page (q : ℚ) (rows : List Execution) (n : Nat) :
    listExecutions rows (clampPage (.ofNat (n + 1))) (.real q) =
      match executionFindMany rows (.real (pageSkip q n)) (.real q) with
      | .ok items => .ok (items, rows.length)
      | .error e => .error e := by
  have hpage := one_le_double n
  have hne : double ((n : ℚ) + 1) ≠ 0 := by linarith
  have hclamp : clampPage (.ofNat (n + 1)) = .real (double ((n : ℚ) + 1)) := by
    simp [clampPage, JsNumber.ofNat, JsNumber.orElse, JsNumber.mathMax, hne, hpage]
  rw [hclamp]
  rfl

theorem getExecutions_ok {q : ℚ} (hlimit : clampLimit limit = .real q) (hone : 1 ≤ q)
    (hmax : q ≤ 100) (hjob : (db.job? id).isSome) (rows : List Execution) (n : Nat)
    (hskip : pageSkip q n < 2 ^ 63) : ∃ response,
      getExecutions db rows id (.ofNat (n + 1)) limit = .ok response ∧
        response.data = Paging.window ⌊pageSkip q n⌋₊ ⌊q⌋₊ rows := by
  obtain ⟨job, hjob⟩ := Option.isSome_iff_exists.mp hjob
  have hpos : 0 ≤ q := zero_le_one.trans hone
  have htake : (JsNumber.real q).count? = some ⌊q⌋₊ := if_pos ⟨hpos, by linarith⟩
  have hcount : (JsNumber.real (pageSkip q n)).count? = some ⌊pageSkip q n⌋₊ :=
    if_pos ⟨pageSkip_nonneg hpos n, hskip⟩
  simp only [getExecutions, hjob, hlimit, listExecutions_page, executionFindMany, hcount, htake]
  exact ⟨_, rfl, rfl⟩

theorem skip_of_getExecutions {q : ℚ} (hlimit : clampLimit limit = .real q)
    {rows : List Execution} {n : Nat} {response : ExecutionsPage}
    (h : getExecutions db rows id (.ofNat (n + 1)) limit = .ok response) :
    pageSkip q n < 2 ^ 63 := by
  by_contra hskip
  have hcount : (JsNumber.real (pageSkip q n)).count? = none := if_neg fun hboth => hskip hboth.2
  unfold getExecutions at h
  split at h
  · cases h
  · simp [hlimit, listExecutions_page, executionFindMany, hcount] at h

theorem pagesOnce_iff_windows {q : ℚ} (hlimit : clampLimit limit = .real q) (hone : 1 ≤ q)
    (hmax : q ≤ 100) (hjob : (db.job? id).isSome) : PagesOnce db id limit ↔
      PagesHad q (executionsOf db id).length ∧ ∀ orders : Nat → List Execution,
        (∀ n, Paging.Listing (·.triggeredAt) (executionsOf db id) (orders n)) →
          (Paging.windows (fun n => ⌊pageSkip q n⌋₊) ⌊q⌋₊
            ((JsNumber.real q).totalPages (executionsOf db id).length) orders).Perm
              (executionsOf db id) := by
  unfold PagesOnce
  rw [hlimit]
  constructor
  · intro honce
    have hhad : PagesHad q (executionsOf db id).length := by
      obtain ⟨order, horder⟩ : ∃ order, Paging.Listing (·.triggeredAt) (executionsOf db id) order :=
        Paging.exists_listing (executionsOf db id)
      obtain ⟨items, hitems, _⟩ := honce (fun _ => order) fun _ => horder
      intro n hn
      obtain ⟨response, hget, _⟩ := hitems n hn
      exact skip_of_getExecutions hlimit hget
    refine ⟨hhad, fun orders horders => ?_⟩
    obtain ⟨items, hitems, hperm⟩ := honce orders horders
    have hsame : (List.range ((JsNumber.real q).totalPages (executionsOf db id).length)).flatMap
        items = Paging.windows (fun n => ⌊pageSkip q n⌋₊) ⌊q⌋₊
          ((JsNumber.real q).totalPages (executionsOf db id).length) orders := by
      refine List.flatMap_congr fun n hn => ?_
      obtain ⟨response, hget, hdata⟩ := hitems n (List.mem_range.mp hn)
      obtain ⟨response', hget', hdata'⟩ :=
        getExecutions_ok hlimit hone hmax hjob (orders n) n (hhad n (List.mem_range.mp hn))
      cases hget.symm.trans hget'
      exact hdata.symm.trans hdata'
    rw [← hsame]
    exact hperm
  · intro hwindows orders horders
    obtain ⟨hhad, hperm⟩ := hwindows
    refine ⟨fun n => Paging.window ⌊pageSkip q n⌋₊ ⌊q⌋₊ (orders n), fun n hn => ?_,
      hperm orders horders⟩
    exact getExecutions_ok hlimit hone hmax hjob (orders n) n (hhad n hn)

theorem pagesOnce_iff_tile {q : ℚ} (hlimit : clampLimit limit = .real q) (hone : 1 ≤ q)
    (hmax : q ≤ 100) (hjob : (db.job? id).isSome) : PagesOnce db id limit ↔
      PagesHad q (executionsOf db id).length ∧ PagesTile q (executionsOf db id).length ∧
        ∀ n, 0 < n → n * ⌊q⌋₊ < (executionsOf db id).length →
          Paging.CleanCut (·.triggeredAt) (executionsOf db id) (n * ⌊q⌋₊) := by
  have hpos : 0 ≤ q := zero_le_one.trans hone
  rw [pagesOnce_iff_windows hlimit hone hmax hjob]
  refine and_congr_right fun _ => Paging.windows_perm_iff executionsOf_nodup ?_ ?_ ?_
  · exact Nat.floor_pos.mpr hone
  · exact fun m n hmn => Nat.floor_le_floor (pageSkip_mono hpos hmn)
  · simp [pageSkip_zero]

/-- With a whole limit the pages of fewer than 2^45 executions tile: the ties decide. -/
theorem pagesOnce_iff_cuts {size : Nat} (hlimit : clampLimit limit = .real size)
    (hjob : (db.job? id).isSome) (hfew : (executionsOf db id).length < 2 ^ 45) :
    PagesOnce db id limit ↔ ∀ n, 0 < n → n * size < (executionsOf db id).length →
      Paging.CleanCut (·.triggeredAt) (executionsOf db id) (n * size) := by
  obtain ⟨q, hq, hone, hmax⟩ := clampLimit_real limit
  cases hq.symm.trans hlimit
  have hsize : 1 ≤ size := by exact_mod_cast hone
  obtain ⟨htile, hhad⟩ := pagesTile_of_whole hsize (by exact_mod_cast hmax) hfew
  rw [pagesOnce_iff_tile hlimit hone hmax hjob, Nat.floor_natCast]
  simp only [hhad, htile, true_and]

/-- Paging returns each execution once, whatever the order of equal keys, exactly if the pages can
be had, each begins where the one before it ends, and there `triggeredAt` changes. -/
theorem paging_exact_iff (db : Postgres) (id : JobId) (limit : JsNumber) : PagesOnce db id limit ↔
    executionsOf db id = [] ∨ ∃ q, clampLimit limit = .real q ∧
      PagesHad q (executionsOf db id).length ∧ PagesTile q (executionsOf db id).length ∧
        ∀ n, 0 < n → n * ⌊q⌋₊ < (executionsOf db id).length →
          Paging.CleanCut (·.triggeredAt) (executionsOf db id) (n * ⌊q⌋₊) := by
  obtain ⟨q, hlimit, hone, hmax⟩ := clampLimit_real limit
  by_cases hnone : executionsOf db id = []
  · refine iff_of_true (fun orders _ => ⟨fun _ => [], fun n hn => ?_, ?_⟩) (Or.inl hnone)
    · simp [hlimit, hnone, JsNumber.totalPages] at hn
    · simp [hnone]
  · rw [pagesOnce_iff_tile hlimit hone hmax (job?_of_executions hnone)]
    constructor
    · intro hall
      exact Or.inr ⟨q, hlimit, hall⟩
    · intro hcases
      rcases hcases with hempty | ⟨q', hlimit', hall⟩
      · exact absurd hempty hnone
      · cases hlimit.symm.trans hlimit'
        exact hall

/-- A limit of 2.5 gives six executions the pages 1 to 2, 3 to 4, and 6. -/
example : ¬ PagesTile (5 / 2) 6 := fun h =>
  absurd (h.starts 2 (by decide +kernel)) (by decide +kernel)

end History

namespace Sample

def twoTriggers : Postgres :=
  let request : ExecutionCreate := ⟨"job-1", none, .manual⟩
  (((Postgres.ofJobs [job] (List.nodup_singleton _)).executionCreate request 5).1.executionCreate
    request 5).1

end Sample

/-- Page 2 may repeat page 1 and leave an execution out. -/
theorem history_repeats_execution : ¬ PagesOnce Sample.twoTriggers "job-1" (.real 1) := by
  have hlimit : clampLimit (.real 1) = .real (1 : Nat) := by
    norm_num [clampLimit, JsNumber.orElse, JsNumber.mathMax, JsNumber.mathMin]
  have hlength : (executionsOf Sample.twoTriggers "job-1").length = 2 := by decide
  rw [pagesOnce_iff_cuts hlimit (by decide) (by rw [hlength]; norm_num)]
  intro hcuts
  obtain ⟨t, ht⟩ := hcuts 1 Nat.one_pos (by rw [hlength]; norm_num)
  have hkeys : ∀ x ∈ executionsOf Sample.twoTriggers "job-1", x.triggeredAt = 5 := by decide
  by_cases hle : t ≤ 5
  · rw [List.countP_eq_length.mpr fun x hx => by simpa [hkeys x hx] using hle] at ht
    revert ht
    decide
  · rw [List.countP_eq_zero.mpr fun x hx => by simpa [hkeys x hx] using hle] at ht
    cases ht

end CronHive
