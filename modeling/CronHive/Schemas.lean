import CronHive.Services
import CronHive.Validation.Reading
import Mathlib.Data.Rat.Floor

/-!
# The bodies of requests

The schemas of the jobs router, and what `createBody`, `updateBody` and `bulkBody` make of a JSON
body. Unknown fields of a creation are dropped, those of an update refused.
-/

namespace CronHive

set_option autoImplicit false

open Validation

/-- What `JSON.parse` gives for a number; beyond the range of doubles it is infinite. -/
inductive WireNumber where
  | negInf
  | real (q : ℚ)
  | posInf
  deriving DecidableEq

abbrev Body : Type := Json WireNumber

/-- The refinements of zod that the schemas use. -/
inductive ZodCheck where
  | stringMin (n : Nat)
  | stringMax (n : Nat)
  | url
  | int
  | numberMin (n : Nat)
  | numberMax (n : Nat)
  | arrayMin (n : Nat)
  | arrayMax (n : Nat)
  deriving DecidableEq, Repr

/-- `s.length`: the characters beyond the basic plane count twice. -/
def utf16Length (s : String) : Nat :=
  s.toList.length + s.toList.countP fun c => 0xFFFF < c.val

namespace WireNumber

/-- `Number.isInteger` -/
def isInteger : WireNumber → Bool
  | .real q => q.den = 1
  | _ => false

def atLeast (n : Nat) : WireNumber → Bool
  | .real q => (n : ℚ) ≤ q
  | .posInf => true
  | .negInf => false

def atMost (n : Nat) : WireNumber → Bool
  | .real q => q ≤ (n : ℚ)
  | .posInf => false
  | .negInf => true

/-- The number as a natural number. -/
def nat? : WireNumber → Option Nat
  | .real q => if q.den = 1 ∧ 0 ≤ q.num then some q.num.toNat else none
  | _ => none

end WireNumber

/-! ## Schemas -/

abbrev ZodSchema : Type := Schema WireNumber ZodCheck

def stringMin (n : Nat) : Check ZodCheck String := ⟨.stringMin n, fun s => n ≤ utf16Length s⟩

def stringMax (n : Nat) : Check ZodCheck String := ⟨.stringMax n, fun s => utf16Length s ≤ n⟩

/-- `new URL(value)` does not throw. -/
def url (P : Platform) : Check ZodCheck String := ⟨.url, fun s => (P.parseUrl s).isSome⟩

def int : Check ZodCheck WireNumber := ⟨.int, WireNumber.isInteger⟩

def numberMin (n : Nat) : Check ZodCheck WireNumber := ⟨.numberMin n, WireNumber.atLeast n⟩

def numberMax (n : Nat) : Check ZodCheck WireNumber := ⟨.numberMax n, WireNumber.atMost n⟩

def arrayMin (n : Nat) : Check ZodCheck Nat := ⟨.arrayMin n, fun length => n ≤ length⟩

def arrayMax (n : Nat) : Check ZodCheck Nat := ⟨.arrayMax n, fun length => length ≤ n⟩

def retryPolicySchema : ZodSchema :=
  .object
    (.cons "maxRetries" false (.number [int, numberMin 0, numberMax 50])
      (.cons "backoffMs" false (.number [int, numberMin 100, numberMax 3600000])
        .nil))
    false

def createShape (P : Platform) : Fields WireNumber ZodCheck :=
  .cons "name" false (.string [stringMin 1, stringMax 200])
    (.cons "cronExpression" false (.string [stringMin 1])
      (.cons "callbackUrl" false (.string [url P])
        (.cons "retryPolicy" false retryPolicySchema
          (.cons "timezone" true (.string [stringMin 1])
            (.cons "enabled" true .boolean
              (.cons "paused" true .boolean
                (.cons "callbackTimeoutMs" true (.number [int, numberMin 1000, numberMax 300000])
                  .nil)))))))

def createBody (P : Platform) : ZodSchema := .object (createShape P) false

def updateShape (P : Platform) : Fields WireNumber ZodCheck :=
  .cons "name" true (.string [stringMin 1, stringMax 200])
    (.cons "cronExpression" true (.string [stringMin 1])
      (.cons "callbackUrl" true (.string [url P])
        (.cons "timezone" true (.string [stringMin 1])
          (.cons "maxRetries" true (.number [int, numberMin 0, numberMax 50])
            (.cons "backoffMs" true (.number [int, numberMin 100, numberMax 3600000])
              (.cons "callbackTimeoutMs" true (.number [int, numberMin 1000, numberMax 300000])
                (.cons "enabled" true .boolean
                  (.cons "paused" true .boolean
                    .nil))))))))

def updateBody (P : Platform) : ZodSchema := .object (updateShape P) true

def bulkShape : Fields WireNumber ZodCheck :=
  .cons "ids" false (.array (.string [stringMin 1]) [arrayMin 1, arrayMax 500])
    (.cons "enabled" false .boolean
      .nil)

def bulkBody : ZodSchema := .object bulkShape false

/-! ## Numbers -/

theorem nat?_real (n : Nat) : (WireNumber.real n).nat? = some n := by
  simp [WireNumber.nat?]

/-- The integers from `a` to `b`. -/
def natReading (a b : Nat) :
    Reading (.number [int, numberMin a, numberMax b] : ZodSchema) Nat where
  read
    | .number n => n.nat?
    | _ => none
  write n := .number (.real n)
  Within n := a ≤ n ∧ n ≤ b
  accepts_write n := by
    simp [accepts_number, int, numberMin, numberMax, WireNumber.isInteger, WireNumber.atLeast,
      WireNumber.atMost]
  read_write n := nat?_real n
  write_read value h := by
    obtain ⟨n, rfl, hchecks⟩ := accepts_number.mp h
    have hint : n.isInteger = true := hchecks int List.mem_cons_self
    have hmin : n.atLeast a = true := hchecks (numberMin a) (by simp)
    cases n with
    | negInf => cases hint
    | posInf => cases hint
    | real q =>
      have hden : q.den = 1 := by simpa [WireNumber.isInteger] using hint
      have hle : (a : ℚ) ≤ q := by simpa [WireNumber.atLeast] using hmin
      have hnum : 0 ≤ q.num := Rat.num_nonneg.mpr (le_trans (Nat.cast_nonneg a) hle)
      refine ⟨q.num.toNat, ?_⟩
      have hq : q = ((q.num.toNat : Nat) : ℚ) := by
        rw [← Rat.coe_int_num_of_den_eq_one hden, Rat.num_intCast]
        exact_mod_cast (Int.toNat_of_nonneg hnum).symm
      rw [← hq]

/-! ## Reading -/

def nameReading : Reading (.string [stringMin 1, stringMax 200] : ZodSchema) String :=
  stringReading _

def textReading : Reading (.string [stringMin 1] : ZodSchema) String := stringReading _

def urlReading (P : Platform) : Reading (.string [url P] : ZodSchema) String := stringReading _

def flagReading : Reading (.boolean : ZodSchema) Bool := booleanReading

def idsReading :
    Reading (.array (.string [stringMin 1]) [arrayMin 1, arrayMax 500] : ZodSchema) (List String) :=
  textReading.array _

/-- `maxRetries` and `backoffMs` -/
def readRetryPolicy : Body → Option (Nat × Nat)
  | .object entries => do
      let maxRetries ← (natReading 0 50).required (entries.lookup "maxRetries")
      let backoffMs ← (natReading 100 3600000).required (entries.lookup "backoffMs")
      pure (maxRetries, backoffMs)
  | _ => none

def readCreate (P : Platform) : Body → Option CreateJobInput
  | .object entries => do
      let name ← nameReading.required (entries.lookup "name")
      let cronExpression ← textReading.required (entries.lookup "cronExpression")
      let callbackUrl ← (urlReading P).required (entries.lookup "callbackUrl")
      let retryPolicy ← (entries.lookup "retryPolicy").bind readRetryPolicy
      let timezone ← textReading.optional (entries.lookup "timezone")
      let enabled ← flagReading.optional (entries.lookup "enabled")
      let paused ← flagReading.optional (entries.lookup "paused")
      let callbackTimeoutMs ←
        (natReading 1000 300000).optional (entries.lookup "callbackTimeoutMs")
      pure
        { name := name
          cronExpression := cronExpression
          callbackUrl := callbackUrl
          maxRetries := retryPolicy.1
          backoffMs := retryPolicy.2
          timezone := timezone
          enabled := enabled
          paused := paused
          callbackTimeoutMs := callbackTimeoutMs }
  | _ => none

def readUpdate (P : Platform) : Body → Option UpdateJobInput
  | .object entries => do
      let name ← nameReading.optional (entries.lookup "name")
      let cronExpression ← textReading.optional (entries.lookup "cronExpression")
      let callbackUrl ← (urlReading P).optional (entries.lookup "callbackUrl")
      let timezone ← textReading.optional (entries.lookup "timezone")
      let maxRetries ← (natReading 0 50).optional (entries.lookup "maxRetries")
      let backoffMs ← (natReading 100 3600000).optional (entries.lookup "backoffMs")
      let callbackTimeoutMs ←
        (natReading 1000 300000).optional (entries.lookup "callbackTimeoutMs")
      let enabled ← flagReading.optional (entries.lookup "enabled")
      let paused ← flagReading.optional (entries.lookup "paused")
      pure
        { name := name
          cronExpression := cronExpression
          callbackUrl := callbackUrl
          timezone := timezone
          maxRetries := maxRetries
          backoffMs := backoffMs
          callbackTimeoutMs := callbackTimeoutMs
          enabled := enabled
          paused := paused }
  | _ => none

/-- `ids` and `enabled` -/
def readBulk : Body → Option (List JobId × Bool)
  | .object entries => do
      let ids ← idsReading.required (entries.lookup "ids")
      let enabled ← flagReading.required (entries.lookup "enabled")
      pure (ids, enabled)
  | _ => none

/-! ## What is accepted -/

structure CreateJobInput.Within (P : Platform) (input : CreateJobInput) : Prop where
  name : 1 ≤ utf16Length input.name ∧ utf16Length input.name ≤ 200
  cronExpression : 1 ≤ utf16Length input.cronExpression
  callbackUrl : (P.parseUrl input.callbackUrl).isSome = true
  maxRetries : input.maxRetries ≤ 50
  backoffMs : 100 ≤ input.backoffMs ∧ input.backoffMs ≤ 3600000
  timezone : ∀ tz ∈ input.timezone, 1 ≤ utf16Length tz
  callbackTimeoutMs : ∀ ms ∈ input.callbackTimeoutMs, 1000 ≤ ms ∧ ms ≤ 300000

/-- The object has the input's fields, whatever else it has. -/
structure CreateJobInput.CarriedBy (input : CreateJobInput)
    (entries : List (String × Body)) : Prop where
  name : entries.lookup "name" = some (.string input.name)
  cronExpression : entries.lookup "cronExpression" = some (.string input.cronExpression)
  callbackUrl : entries.lookup "callbackUrl" = some (.string input.callbackUrl)
  retryPolicy : ∃ policy, entries.lookup "retryPolicy" = some (.object policy) ∧
    policy.lookup "maxRetries" = some (.number (.real input.maxRetries)) ∧
      policy.lookup "backoffMs" = some (.number (.real input.backoffMs))
  timezone : entries.lookup "timezone" = input.timezone.map .string
  enabled : entries.lookup "enabled" = input.enabled.map .bool
  paused : entries.lookup "paused" = input.paused.map .bool
  callbackTimeoutMs : entries.lookup "callbackTimeoutMs" =
    input.callbackTimeoutMs.map fun ms => .number (.real ms)

theorem nameReading_within {s : String} :
    nameReading.Within s ↔ 1 ≤ utf16Length s ∧ utf16Length s ≤ 200 := by
  simp [nameReading, stringReading, stringMin, stringMax]

theorem textReading_within {s : String} : textReading.Within s ↔ 1 ≤ utf16Length s := by
  simp [textReading, stringReading, stringMin]

theorem urlReading_within {P : Platform} {s : String} :
    (urlReading P).Within s ↔ (P.parseUrl s).isSome = true := by
  simp [urlReading, stringReading, url]

theorem retryPolicy_exact {value : Body} {a : Nat × Nat} :
    (retryPolicySchema.Accepts value ∧ readRetryPolicy value = some a) ↔
      (a.1 ≤ 50 ∧ 100 ≤ a.2 ∧ a.2 ≤ 3600000) ∧ ∃ policy, value = .object policy ∧
        policy.lookup "maxRetries" = some (.number (.real a.1)) ∧
          policy.lookup "backoffMs" = some (.number (.real a.2)) := by
  rw [retryPolicySchema, accepts_object]
  constructor
  · intro h
    obtain ⟨⟨policy, rfl, hfields, _⟩, hread⟩ := h
    simp only [fields_cons_eq_nil] at hfields
    simp only [readRetryPolicy, Option.bind_eq_bind, Option.bind_eq_some_iff, Option.pure_def,
      Option.some.injEq] at hread
    obtain ⟨hmax, hbackoff, _⟩ := hfields
    obtain ⟨maxRetries, rmax, backoffMs, rbackoff, rfl⟩ := hread
    obtain ⟨hmax, _, hle⟩ := (natReading 0 50).required_exact.mp ⟨hmax, rmax⟩
    obtain ⟨hbackoff, hwithin⟩ :=
      (natReading 100 3600000).required_exact.mp ⟨hbackoff, rbackoff⟩
    exact ⟨⟨hle, hwithin⟩, policy, rfl, hmax, hbackoff⟩
  · intro h
    obtain ⟨⟨hle, hwithin⟩, policy, rfl, hmax, hbackoff⟩ := h
    obtain ⟨amax, rmax⟩ := (natReading 0 50).required_exact.mpr ⟨hmax, Nat.zero_le _, hle⟩
    obtain ⟨abackoff, rbackoff⟩ :=
      (natReading 100 3600000).required_exact.mpr ⟨hbackoff, hwithin⟩
    refine ⟨⟨policy, rfl, ?_, fun h => by cases h⟩, ?_⟩
    · simp only [fields_cons_eq_nil]
      exact ⟨amax, abackoff, rfl⟩
    · simp only [readRetryPolicy, Option.bind_eq_bind, rmax, rbackoff, Option.bind_some,
        Option.pure_def]

/-- `createBody` accepts just the objects that carry an input within the bounds, and gives that
input. -/
theorem createBody_exact {P : Platform} {body : Body} {input : CreateJobInput} :
    parse (createBody P) (readCreate P) body = .ok input ↔
      input.Within P ∧ ∃ entries, body = .object entries ∧ input.CarriedBy entries := by
  rw [parse_ok_iff, createBody, createShape, accepts_object]
  constructor
  · intro h
    obtain ⟨⟨entries, rfl, hfields, _⟩, hread⟩ := h
    simp only [fields_cons_eq_nil] at hfields
    simp only [readCreate, Option.bind_eq_bind, Option.bind_eq_some_iff, Option.pure_def,
      Option.some.injEq] at hread
    obtain ⟨aname, acron, aurl, apolicy, atz, aenabled, apaused, atimeout, _⟩ := hfields
    obtain ⟨name, rname, cron, rcron, callbackUrl, rurl, policy, ⟨value, hvalue, rpolicy⟩, tz, rtz,
      enabled, renabled, paused, rpaused, timeout, rtimeout, rfl⟩ := hread
    rw [hvalue] at apolicy
    obtain ⟨hname, wname⟩ := nameReading.required_exact.mp ⟨aname, rname⟩
    obtain ⟨hcron, wcron⟩ := textReading.required_exact.mp ⟨acron, rcron⟩
    obtain ⟨hurl, wurl⟩ := (urlReading P).required_exact.mp ⟨aurl, rurl⟩
    obtain ⟨⟨wmax, wbackoff⟩, object, rfl, hmax, hbackoff⟩ :=
      retryPolicy_exact.mp ⟨apolicy, rpolicy⟩
    obtain ⟨htz, wtz⟩ := textReading.optional_exact.mp ⟨atz, rtz⟩
    obtain ⟨henabled, _⟩ := flagReading.optional_exact.mp ⟨aenabled, renabled⟩
    obtain ⟨hpaused, _⟩ := flagReading.optional_exact.mp ⟨apaused, rpaused⟩
    obtain ⟨htimeout, wtimeout⟩ :=
      (natReading 1000 300000).optional_exact.mp ⟨atimeout, rtimeout⟩
    constructor
    · exact
        { name := nameReading_within.mp wname
          cronExpression := textReading_within.mp wcron
          callbackUrl := urlReading_within.mp wurl
          maxRetries := wmax
          backoffMs := wbackoff
          timezone := fun tz htz => textReading_within.mp (wtz tz htz)
          callbackTimeoutMs := wtimeout }
    · refine ⟨entries, rfl, ?_⟩
      exact
        { name := hname
          cronExpression := hcron
          callbackUrl := hurl
          retryPolicy := ⟨object, hvalue, hmax, hbackoff⟩
          timezone := htz
          enabled := henabled
          paused := hpaused
          callbackTimeoutMs := htimeout }
  · intro h
    obtain ⟨w, entries, rfl, c⟩ := h
    obtain ⟨policy, hpolicy, hmax, hbackoff⟩ := c.retryPolicy
    obtain ⟨aname, rname⟩ := nameReading.required_exact.mpr ⟨c.name, nameReading_within.mpr w.name⟩
    obtain ⟨acron, rcron⟩ :=
      textReading.required_exact.mpr ⟨c.cronExpression, textReading_within.mpr w.cronExpression⟩
    obtain ⟨aurl, rurl⟩ :=
      (urlReading P).required_exact.mpr ⟨c.callbackUrl, urlReading_within.mpr w.callbackUrl⟩
    obtain ⟨apolicy, rpolicy⟩ := (retryPolicy_exact (a := (input.maxRetries, input.backoffMs))).mpr
      ⟨⟨w.maxRetries, w.backoffMs⟩, policy, rfl, hmax, hbackoff⟩
    obtain ⟨atz, rtz⟩ := textReading.optional_exact.mpr
      ⟨c.timezone, fun tz htz => textReading_within.mpr (w.timezone tz htz)⟩
    obtain ⟨aenabled, renabled⟩ := flagReading.optional_exact.mpr ⟨c.enabled, fun _ _ => trivial⟩
    obtain ⟨apaused, rpaused⟩ := flagReading.optional_exact.mpr ⟨c.paused, fun _ _ => trivial⟩
    obtain ⟨atimeout, rtimeout⟩ :=
      (natReading 1000 300000).optional_exact.mpr ⟨c.callbackTimeoutMs, w.callbackTimeoutMs⟩
    refine ⟨⟨entries, rfl, ?_, fun h => by cases h⟩, ?_⟩
    · simp only [fields_cons_eq_nil]
      exact ⟨aname, acron, aurl, hpolicy ▸ apolicy, atz, aenabled, apaused, atimeout, rfl⟩
    · simp only [readCreate, Option.bind_eq_bind, rname, rcron, rurl, hpolicy, rpolicy, rtz,
        renabled, rpaused, rtimeout, Option.bind_some, Option.pure_def]

structure UpdateJobInput.Within (P : Platform) (data : UpdateJobInput) : Prop where
  name : ∀ name ∈ data.name, 1 ≤ utf16Length name ∧ utf16Length name ≤ 200
  cronExpression : ∀ cron ∈ data.cronExpression, 1 ≤ utf16Length cron
  callbackUrl : ∀ url ∈ data.callbackUrl, (P.parseUrl url).isSome = true
  timezone : ∀ tz ∈ data.timezone, 1 ≤ utf16Length tz
  maxRetries : ∀ n ∈ data.maxRetries, n ≤ 50
  backoffMs : ∀ ms ∈ data.backoffMs, 100 ≤ ms ∧ ms ≤ 3600000
  callbackTimeoutMs : ∀ ms ∈ data.callbackTimeoutMs, 1000 ≤ ms ∧ ms ≤ 300000

/-- The object has the fields of the update and no others. -/
structure UpdateJobInput.WrittenAs (data : UpdateJobInput)
    (entries : List (String × Body)) : Prop where
  name : entries.lookup "name" = data.name.map .string
  cronExpression : entries.lookup "cronExpression" = data.cronExpression.map .string
  callbackUrl : entries.lookup "callbackUrl" = data.callbackUrl.map .string
  timezone : entries.lookup "timezone" = data.timezone.map .string
  maxRetries : entries.lookup "maxRetries" = data.maxRetries.map fun n => .number (.real n)
  backoffMs : entries.lookup "backoffMs" = data.backoffMs.map fun ms => .number (.real ms)
  callbackTimeoutMs : entries.lookup "callbackTimeoutMs" =
    data.callbackTimeoutMs.map fun ms => .number (.real ms)
  enabled : entries.lookup "enabled" = data.enabled.map .bool
  paused : entries.lookup "paused" = data.paused.map .bool
  others : ∀ entry ∈ entries, entry.1 ∈ ["name", "cronExpression", "callbackUrl", "timezone",
    "maxRetries", "backoffMs", "callbackTimeoutMs", "enabled", "paused"]

theorem updateBody_exact {P : Platform} {body : Body} {data : UpdateJobInput} :
    parse (updateBody P) (readUpdate P) body = .ok data ↔
      data.Within P ∧ ∃ entries, body = .object entries ∧ data.WrittenAs entries := by
  rw [parse_ok_iff, updateBody, updateShape, accepts_object]
  constructor
  · intro h
    obtain ⟨⟨entries, rfl, hfields, hothers⟩, hread⟩ := h
    simp only [fields_cons_eq_nil] at hfields
    simp only [readUpdate, Option.bind_eq_bind, Option.bind_eq_some_iff, Option.pure_def,
      Option.some.injEq] at hread
    obtain ⟨aname, acron, aurl, atz, amax, abackoff, atimeout, aenabled, apaused, _⟩ := hfields
    obtain ⟨name, rname, cron, rcron, callbackUrl, rurl, tz, rtz, maxRetries, rmax, backoffMs,
      rbackoff, timeout, rtimeout, enabled, renabled, paused, rpaused, rfl⟩ := hread
    obtain ⟨hname, wname⟩ := nameReading.optional_exact.mp ⟨aname, rname⟩
    obtain ⟨hcron, wcron⟩ := textReading.optional_exact.mp ⟨acron, rcron⟩
    obtain ⟨hurl, wurl⟩ := (urlReading P).optional_exact.mp ⟨aurl, rurl⟩
    obtain ⟨htz, wtz⟩ := textReading.optional_exact.mp ⟨atz, rtz⟩
    obtain ⟨hmax, wmax⟩ := (natReading 0 50).optional_exact.mp ⟨amax, rmax⟩
    obtain ⟨hbackoff, wbackoff⟩ := (natReading 100 3600000).optional_exact.mp ⟨abackoff, rbackoff⟩
    obtain ⟨htimeout, wtimeout⟩ :=
      (natReading 1000 300000).optional_exact.mp ⟨atimeout, rtimeout⟩
    obtain ⟨henabled, _⟩ := flagReading.optional_exact.mp ⟨aenabled, renabled⟩
    obtain ⟨hpaused, _⟩ := flagReading.optional_exact.mp ⟨apaused, rpaused⟩
    constructor
    · exact
        { name := fun name hmem => nameReading_within.mp (wname name hmem)
          cronExpression := fun cron hmem => textReading_within.mp (wcron cron hmem)
          callbackUrl := fun url hmem => urlReading_within.mp (wurl url hmem)
          timezone := fun tz hmem => textReading_within.mp (wtz tz hmem)
          maxRetries := fun n hmem => (wmax n hmem).2
          backoffMs := wbackoff
          callbackTimeoutMs := wtimeout }
    · refine ⟨entries, rfl, ?_⟩
      exact
        { name := hname
          cronExpression := hcron
          callbackUrl := hurl
          timezone := htz
          maxRetries := hmax
          backoffMs := hbackoff
          callbackTimeoutMs := htimeout
          enabled := henabled
          paused := hpaused
          others := hothers rfl }
  · intro h
    obtain ⟨w, entries, rfl, c⟩ := h
    obtain ⟨aname, rname⟩ := nameReading.optional_exact.mpr
      ⟨c.name, fun name hmem => nameReading_within.mpr (w.name name hmem)⟩
    obtain ⟨acron, rcron⟩ := textReading.optional_exact.mpr
      ⟨c.cronExpression, fun cron hmem => textReading_within.mpr (w.cronExpression cron hmem)⟩
    obtain ⟨aurl, rurl⟩ := (urlReading P).optional_exact.mpr
      ⟨c.callbackUrl, fun url hmem => urlReading_within.mpr (w.callbackUrl url hmem)⟩
    obtain ⟨atz, rtz⟩ := textReading.optional_exact.mpr
      ⟨c.timezone, fun tz hmem => textReading_within.mpr (w.timezone tz hmem)⟩
    obtain ⟨amax, rmax⟩ := (natReading 0 50).optional_exact.mpr
      ⟨c.maxRetries, fun n hmem => ⟨Nat.zero_le n, w.maxRetries n hmem⟩⟩
    obtain ⟨abackoff, rbackoff⟩ :=
      (natReading 100 3600000).optional_exact.mpr ⟨c.backoffMs, w.backoffMs⟩
    obtain ⟨atimeout, rtimeout⟩ :=
      (natReading 1000 300000).optional_exact.mpr ⟨c.callbackTimeoutMs, w.callbackTimeoutMs⟩
    obtain ⟨aenabled, renabled⟩ := flagReading.optional_exact.mpr ⟨c.enabled, fun _ _ => trivial⟩
    obtain ⟨apaused, rpaused⟩ := flagReading.optional_exact.mpr ⟨c.paused, fun _ _ => trivial⟩
    refine ⟨⟨entries, rfl, ?_, fun _ => c.others⟩, ?_⟩
    · simp only [fields_cons_eq_nil]
      exact ⟨aname, acron, aurl, atz, amax, abackoff, atimeout, aenabled, apaused, rfl⟩
    · simp only [readUpdate, Option.bind_eq_bind, rname, rcron, rurl, rtz, rmax, rbackoff,
        rtimeout, renabled, rpaused, Option.bind_some, Option.pure_def]

theorem bulkBody_exact {body : Body} {a : List JobId × Bool} :
    parse bulkBody readBulk body = .ok a ↔
      (1 ≤ a.1.length ∧ a.1.length ≤ 500 ∧ ∀ id ∈ a.1, 1 ≤ utf16Length id) ∧
        ∃ entries, body = .object entries ∧
          entries.lookup "ids" = some (.array (a.1.map .string)) ∧
            entries.lookup "enabled" = some (.bool a.2) := by
  have hwithin : idsReading.Within a.1 ↔
      1 ≤ a.1.length ∧ a.1.length ≤ 500 ∧ ∀ id ∈ a.1, 1 ≤ utf16Length id := by
    simp [idsReading, Reading.array, textReading_within, arrayMin, arrayMax, and_assoc]
  rw [parse_ok_iff, bulkBody, bulkShape, accepts_object]
  constructor
  · intro h
    obtain ⟨⟨entries, rfl, hfields, _⟩, hread⟩ := h
    simp only [fields_cons_eq_nil] at hfields
    simp only [readBulk, Option.bind_eq_bind, Option.bind_eq_some_iff, Option.pure_def,
      Option.some.injEq] at hread
    obtain ⟨aids, aenabled, _⟩ := hfields
    obtain ⟨ids, rids, enabled, renabled, rfl⟩ := hread
    obtain ⟨hids, wids⟩ := idsReading.required_exact.mp ⟨aids, rids⟩
    obtain ⟨henabled, _⟩ := flagReading.required_exact.mp ⟨aenabled, renabled⟩
    exact ⟨hwithin.mp wids, entries, rfl, hids, henabled⟩
  · intro h
    obtain ⟨w, entries, rfl, hids, henabled⟩ := h
    obtain ⟨aids, rids⟩ := idsReading.required_exact.mpr ⟨hids, hwithin.mpr w⟩
    obtain ⟨aenabled, renabled⟩ := flagReading.required_exact.mpr ⟨henabled, trivial⟩
    refine ⟨⟨entries, rfl, ?_, fun h => by cases h⟩, ?_⟩
    · simp only [fields_cons_eq_nil]
      exact ⟨aids, aenabled, rfl⟩
    · simp only [readBulk, Option.bind_eq_bind, rids, renabled, Option.bind_some,
        Option.pure_def]

/-! ## What is refused -/

theorem retryPolicy_total {value : Body} (h : retryPolicySchema.Accepts value) :
    ∃ a, readRetryPolicy value = some a := by
  obtain ⟨policy, rfl, hfields, _⟩ := accepts_object.mp h
  simp only [fields_cons_eq_nil] at hfields
  obtain ⟨amax, abackoff, _⟩ := hfields
  obtain ⟨maxRetries, rmax⟩ := (natReading 0 50).required_total amax
  obtain ⟨backoffMs, rbackoff⟩ := (natReading 100 3600000).required_total abackoff
  refine ⟨(maxRetries, backoffMs), ?_⟩
  simp only [readRetryPolicy, Option.bind_eq_bind, rmax, rbackoff, Option.bind_some,
    Option.pure_def]

theorem readCreate_total {P : Platform} {body : Body} (h : (createBody P).Accepts body) :
    ∃ input, readCreate P body = some input := by
  obtain ⟨entries, rfl, hfields, _⟩ := accepts_object.mp h
  simp only [createShape, fields_cons_eq_nil] at hfields
  obtain ⟨aname, acron, aurl, apolicy, atz, aenabled, apaused, atimeout, _⟩ := hfields
  obtain ⟨name, rname⟩ := nameReading.required_total aname
  obtain ⟨cron, rcron⟩ := textReading.required_total acron
  obtain ⟨callbackUrl, rurl⟩ := (urlReading P).required_total aurl
  obtain ⟨value, hvalue⟩ : ∃ value, entries.lookup "retryPolicy" = some value := by
    cases hvalue : entries.lookup "retryPolicy" with
    | some value => exact ⟨value, rfl⟩
    | none =>
      rw [hvalue] at apolicy
      cases apolicy
  rw [hvalue] at apolicy
  obtain ⟨policy, rpolicy⟩ := retryPolicy_total apolicy
  obtain ⟨tz, rtz⟩ := textReading.optional_total atz
  obtain ⟨enabled, renabled⟩ := flagReading.optional_total aenabled
  obtain ⟨paused, rpaused⟩ := flagReading.optional_total apaused
  obtain ⟨timeout, rtimeout⟩ := (natReading 1000 300000).optional_total atimeout
  simp only [readCreate, Option.bind_eq_bind, rname, rcron, rurl, hvalue, rpolicy, rtz, renabled,
    rpaused, rtimeout, Option.bind_some, Option.pure_def]
  exact ⟨_, rfl⟩

theorem readUpdate_total {P : Platform} {body : Body} (h : (updateBody P).Accepts body) :
    ∃ data, readUpdate P body = some data := by
  obtain ⟨entries, rfl, hfields, _⟩ := accepts_object.mp h
  simp only [updateShape, fields_cons_eq_nil] at hfields
  obtain ⟨aname, acron, aurl, atz, amax, abackoff, atimeout, aenabled, apaused, _⟩ := hfields
  obtain ⟨name, rname⟩ := nameReading.optional_total aname
  obtain ⟨cron, rcron⟩ := textReading.optional_total acron
  obtain ⟨callbackUrl, rurl⟩ := (urlReading P).optional_total aurl
  obtain ⟨tz, rtz⟩ := textReading.optional_total atz
  obtain ⟨maxRetries, rmax⟩ := (natReading 0 50).optional_total amax
  obtain ⟨backoffMs, rbackoff⟩ := (natReading 100 3600000).optional_total abackoff
  obtain ⟨timeout, rtimeout⟩ := (natReading 1000 300000).optional_total atimeout
  obtain ⟨enabled, renabled⟩ := flagReading.optional_total aenabled
  obtain ⟨paused, rpaused⟩ := flagReading.optional_total apaused
  simp only [readUpdate, Option.bind_eq_bind, rname, rcron, rurl, rtz, rmax, rbackoff, rtimeout,
    renabled, rpaused, Option.bind_some, Option.pure_def]
  exact ⟨_, rfl⟩

theorem readBulk_total {body : Body} (h : bulkBody.Accepts body) :
    ∃ a, readBulk body = some a := by
  obtain ⟨entries, rfl, hfields, _⟩ := accepts_object.mp h
  simp only [bulkShape, fields_cons_eq_nil] at hfields
  obtain ⟨aids, aenabled, _⟩ := hfields
  obtain ⟨ids, rids⟩ := idsReading.required_total aids
  obtain ⟨enabled, renabled⟩ := flagReading.required_total aenabled
  simp only [readBulk, Option.bind_eq_bind, rids, renabled, Option.bind_some, Option.pure_def]
  exact ⟨_, rfl⟩

/-- Each route accepts just the bodies that carry an input within the bounds and reads that input
back, and refuses all others with what is wrong with them. -/
theorem bodies_exact (P : Platform) (body : Body) :
    ((∀ input, parse (createBody P) (readCreate P) body = .ok input ↔
        input.Within P ∧ ∃ entries, body = .object entries ∧ input.CarriedBy entries) ∧
      ∀ issues, parse (createBody P) (readCreate P) body = .error issues ↔
        issues = (createBody P).issues body ∧ issues ≠ []) ∧
    ((∀ data, parse (updateBody P) (readUpdate P) body = .ok data ↔
        data.Within P ∧ ∃ entries, body = .object entries ∧ data.WrittenAs entries) ∧
      ∀ issues, parse (updateBody P) (readUpdate P) body = .error issues ↔
        issues = (updateBody P).issues body ∧ issues ≠ []) ∧
    ((∀ ids enabled, parse bulkBody readBulk body = .ok (ids, enabled) ↔
        (1 ≤ ids.length ∧ ids.length ≤ 500 ∧ ∀ id ∈ ids, 1 ≤ utf16Length id) ∧
          ∃ entries, body = .object entries ∧
            entries.lookup "ids" = some (.array (ids.map .string)) ∧
              entries.lookup "enabled" = some (.bool enabled)) ∧
      ∀ issues, parse bulkBody readBulk body = .error issues ↔
        issues = bulkBody.issues body ∧ issues ≠ []) := by
  refine ⟨⟨fun _ => createBody_exact, fun _ => ?_⟩, ⟨fun _ => updateBody_exact, fun _ => ?_⟩,
    fun _ _ => bulkBody_exact, fun _ => ?_⟩
  · exact parse_error_iff fun _ => readCreate_total
  · exact parse_error_iff fun _ => readUpdate_total
  · exact parse_error_iff fun _ => readBulk_total

end CronHive
