import CronHive.Validation.Schema

/-!
# Values behind a schema

A reading takes the values that a schema accepts to a type of their own, and back. Objects are
read field by field.
-/

namespace Validation

set_option autoImplicit false

variable {Num C α : Type}

/-- What a schema accepts are the writings of the values that are in bounds. -/
structure Reading (schema : Schema Num C) (α : Type) where
  read : Json Num → Option α
  write : α → Json Num
  Within : α → Prop
  accepts_write : ∀ a, schema.Accepts (write a) ↔ Within a
  read_write : ∀ a, read (write a) = some a
  write_read : ∀ value, schema.Accepts value → ∃ a, value = write a

variable {schema : Schema Num C}

theorem Reading.exact (r : Reading schema α) {value : Json Num} {a : α} :
    (schema.Accepts value ∧ r.read value = some a) ↔ value = r.write a ∧ r.Within a := by
  constructor
  · intro h
    obtain ⟨haccepts, hread⟩ := h
    obtain ⟨b, rfl⟩ := r.write_read value haccepts
    rw [r.read_write] at hread
    cases hread
    exact ⟨rfl, (r.accepts_write a).mp haccepts⟩
  · intro h
    obtain ⟨rfl, hwithin⟩ := h
    exact ⟨(r.accepts_write a).mpr hwithin, r.read_write a⟩

/-! ## Fields -/

/-- A field that must be there. -/
def Reading.required (r : Reading schema α) (found : Option (Json Num)) : Option α :=
  found.bind r.read

/-- A field that may be left out. -/
def Reading.optional (r : Reading schema α) : Option (Json Num) → Option (Option α)
  | none => some none
  | some value => (r.read value).map some

theorem Reading.required_exact (r : Reading schema α) {found : Option (Json Num)} {a : α} :
    (AcceptsField false schema found ∧ r.required found = some a) ↔
      found = some (r.write a) ∧ r.Within a := by
  cases found with
  | none =>
    constructor
    · intro h
      cases h.1
    · intro h
      cases h.1
  | some value =>
    rw [Option.some.injEq]
    exact r.exact

theorem Reading.optional_exact (r : Reading schema α) {found : Option (Json Num)}
    {a : Option α} : (AcceptsField true schema found ∧ r.optional found = some a) ↔
      found = a.map r.write ∧ ∀ b ∈ a, r.Within b := by
  cases found with
  | none =>
    cases a with
    | none => simp [AcceptsField, Reading.optional]
    | some b => simp [Reading.optional]
  | some value =>
    cases a with
    | none => simp [Reading.optional]
    | some b =>
      have h : (schema.Accepts value ∧ r.read value = some b) ↔
          value = r.write b ∧ r.Within b := r.exact
      simpa [AcceptsField, Reading.optional] using h

theorem Reading.required_total (r : Reading schema α) {found : Option (Json Num)}
    (h : AcceptsField false schema found) : ∃ a, r.required found = some a := by
  cases found with
  | none => cases h
  | some value =>
    obtain ⟨a, rfl⟩ := r.write_read value h
    exact ⟨a, r.read_write a⟩

theorem Reading.optional_total (r : Reading schema α) {found : Option (Json Num)}
    (h : AcceptsField true schema found) : ∃ a, r.optional found = some a := by
  cases found with
  | none => exact ⟨none, rfl⟩
  | some value =>
    obtain ⟨a, rfl⟩ := r.write_read value h
    exact ⟨some a, by rw [Reading.optional, r.read_write]; rfl⟩

/-! ## Base types -/

def stringReading (checks : List (Check C String)) :
    Reading (.string checks : Schema Num C) String where
  read
    | .string s => some s
    | _ => none
  write := .string
  Within s := ∀ check ∈ checks, check.passes s = true
  accepts_write s := by simp [accepts_string]
  read_write s := rfl
  write_read value h := by
    obtain ⟨s, rfl, _⟩ := accepts_string.mp h
    exact ⟨s, rfl⟩

def booleanReading : Reading (.boolean : Schema Num C) Bool where
  read
    | .bool b => some b
    | _ => none
  write := .bool
  Within _ := True
  accepts_write b := by simp [accepts_boolean]
  read_write b := rfl
  write_read value h := accepts_boolean.mp h

/-- An array, each item of which is read as `r` says. -/
def Reading.array (r : Reading schema α) (checks : List (Check C Nat)) :
    Reading (.array schema checks) (List α) where
  read
    | .array items => items.mapM r.read
    | _ => none
  write (list : List α) := .array (list.map r.write)
  Within as := (∀ check ∈ checks, check.passes as.length = true) ∧ ∀ a ∈ as, r.Within a
  accepts_write as := by simp [accepts_array, r.accepts_write]
  read_write as := by
    induction as with
    | nil => rfl
    | cons a as ih =>
      simp only [List.map_cons, List.mapM_cons, r.read_write]
      simp only [ih, Option.bind_eq_bind, Option.bind_some, Option.pure_def]
  write_read value h := by
    obtain ⟨items, rfl, hchecks, hitems⟩ := accepts_array.mp h
    have hlist : ∃ as : List α, items = as.map r.write := by
      clear h hchecks
      induction items with
      | nil => exact ⟨[], rfl⟩
      | cons item items ih =>
        obtain ⟨a, rfl⟩ := r.write_read item (hitems _ List.mem_cons_self)
        obtain ⟨as, rfl⟩ := ih fun x hx => hitems x (List.mem_cons_of_mem _ hx)
        exact ⟨a :: as, rfl⟩
    obtain ⟨as, rfl⟩ := hlist
    exact ⟨as, rfl⟩

/-! ## Parsing -/

/-- What a parse gives: the value read, or what is wrong. -/
def parse (schema : Schema Num C) (read : Json Num → Option α) (value : Json Num) :
    Except (List (Issue C)) α :=
  match schema.issues value with
  | [] =>
      match read value with
      | some a => .ok a
      | none => .error []
  | issues => .error issues

theorem parse_ok_iff {read : Json Num → Option α} {value : Json Num} {a : α} :
    parse schema read value = .ok a ↔ schema.Accepts value ∧ read value = some a := by
  unfold parse Schema.Accepts
  cases hissues : schema.issues value with
  | nil =>
    cases hread : read value with
    | none => simp
    | some b => simp
  | cons issue issues => simp

/-- A parse that reads all that is accepted fails with what is wrong, and with that only. -/
theorem parse_error_iff {read : Json Num → Option α}
    (total : ∀ value, schema.Accepts value → ∃ a, read value = some a) {value : Json Num}
    {issues : List (Issue C)} :
    parse schema read value = .error issues ↔ issues = schema.issues value ∧ issues ≠ [] := by
  unfold parse
  cases hissues : schema.issues value with
  | nil =>
    obtain ⟨a, ha⟩ := total value hissues
    rw [ha]
    simp
  | cons issue rest =>
    constructor
    · intro h
      cases h
      exact ⟨rfl, List.cons_ne_nil issue rest⟩
    · intro h
      rw [h.1]

end Validation
