import Mathlib.Data.List.Basic

/-!
# Schemas of JSON values

A schema says which JSON values it takes. A value that it does not take is reported with all that
is wrong with it, each issue with the path to the place it was found at.
-/

namespace Validation

set_option autoImplicit false

/-- A value read from a JSON text; `Num` are the numbers. The keys of an object are distinct. -/
inductive Json (Num : Type) where
  | null
  | bool (b : Bool)
  | number (n : Num)
  | string (s : String)
  | array (items : List (Json Num))
  | object (entries : List (String × Json Num))

inductive Kind where
  | undefined
  | null
  | boolean
  | number
  | string
  | array
  | object
  deriving DecidableEq, Repr

variable {Num C : Type}

def Json.kind : Json Num → Kind
  | .null => .null
  | .bool _ => .boolean
  | .number _ => .number
  | .string _ => .string
  | .array _ => .array
  | .object _ => .object

/-- One refinement of a base type, with what is reported when a value fails it. -/
structure Check (C α : Type) where
  code : C
  passes : α → Bool

mutual

inductive Schema (Num C : Type) : Type where
  | string (checks : List (Check C String))
  | number (checks : List (Check C Num))
  | boolean
  | array (element : Schema Num C) (checks : List (Check C Nat))
  | object (fields : Fields Num C) (strict : Bool)

/-- The fields of an object in the order they are declared in. -/
inductive Fields (Num C : Type) : Type where
  | nil
  | cons (key : String) (optional : Bool) (schema : Schema Num C) (rest : Fields Num C)

end

def Schema.kind : Schema Num C → Kind
  | .string _ => .string
  | .number _ => .number
  | .boolean => .boolean
  | .array _ _ => .array
  | .object _ _ => .object

def Fields.keys : Fields Num C → List String
  | .nil => []
  | .cons key _ _ rest => key :: rest.keys

inductive Fields.Has : Fields Num C → String → Bool → Schema Num C → Prop where
  | head (key : String) (optional : Bool) (schema : Schema Num C) (rest : Fields Num C) :
      Has (.cons key optional schema rest) key optional schema
  | tail {key key' : String} {optional optional' : Bool} {schema schema' : Schema Num C}
      {rest : Fields Num C} (h : Has rest key optional schema) :
      Has (.cons key' optional' schema' rest) key optional schema

inductive Step where
  | key (k : String)
  | index (i : Nat)
  deriving DecidableEq, Repr

inductive Code (C : Type) where
  | invalidType (expected received : Kind)
  | unrecognizedKeys (keys : List String)
  | failed (code : C)
  deriving DecidableEq, Repr

structure Issue (C : Type) where
  path : List Step
  code : Code C
  deriving DecidableEq, Repr

def Issue.under (at_ : Step) (issue : Issue C) : Issue C := { issue with path := at_ :: issue.path }

def failures {α : Type} (checks : List (Check C α)) (a : α) : List (Code C) :=
  (checks.filter fun check => !check.passes a).map fun check => .failed check.code

def unknownKeys (known : List String) (entries : List (String × Json Num)) : List String :=
  (entries.map (·.1)).filter fun key => key ∉ known

/-- What is wrong at the place itself; `none` is a place where nothing stands. -/
def Schema.own : Schema Num C → Option (Json Num) → List (Code C)
  | .string checks, some (.string s) => failures checks s
  | .number checks, some (.number n) => failures checks n
  | .boolean, some (.bool _) => []
  | .array _ checks, some (.array items) => failures checks items.length
  | .object fields strict, some (.object entries) =>
      if strict ∧ unknownKeys fields.keys entries ≠ [] then
        [.unrecognizedKeys (unknownKeys fields.keys entries)]
      else []
  | schema, some value => [.invalidType schema.kind value.kind]
  | schema, none => [.invalidType schema.kind .undefined]

def here (codes : List (Code C)) : List (Issue C) := codes.map fun code => ⟨[], code⟩

mutual

/-- All that is wrong with a value, in the order it is found. -/
def Schema.issues : Schema Num C → Json Num → List (Issue C)
  | .array element checks, .array items =>
      here ((Schema.array element checks).own (some (.array items))) ++
        items.zipIdx.flatMap fun item => (element.issues item.1).map (Issue.under (.index item.2))
  | .object fields strict, .object entries =>
      fields.issues entries ++ here ((Schema.object fields strict).own (some (.object entries)))
  | schema, value => here (schema.own (some value))

def Fields.issues : Fields Num C → List (String × Json Num) → List (Issue C)
  | .nil, _ => []
  | .cons key optional schema rest, entries =>
      (match entries.lookup key with
        | some value => (schema.issues value).map (Issue.under (.key key))
        | none =>
            if optional then [] else (here (schema.own none)).map (Issue.under (.key key))) ++
        rest.issues entries

end

section Equations

variable {value : Json Num} {entries : List (String × Json Num)}

theorem Schema.own_none (schema : Schema Num C) :
    schema.own none = [.invalidType schema.kind .undefined] := by
  cases schema <;> rfl

theorem Schema.own_object (fields : Fields Num C) (strict : Bool) :
    (Schema.object fields strict).own (some (.object entries)) =
      if strict ∧ unknownKeys fields.keys entries ≠ [] then
        [.unrecognizedKeys (unknownKeys fields.keys entries)]
      else [] := rfl

theorem Schema.issues_string (checks : List (Check C String)) (s : String) :
    (Schema.string checks : Schema Num C).issues (.string s) = here (failures checks s) := rfl

theorem Schema.issues_number (checks : List (Check C Num)) (n : Num) :
    (Schema.number checks).issues (.number n) = here (failures checks n) := rfl

theorem Schema.own_array (element : Schema Num C) (checks : List (Check C Nat))
    (items : List (Json Num)) :
    (Schema.array element checks).own (some (.array items)) = failures checks items.length := rfl

theorem Schema.issues_array (element : Schema Num C) (checks : List (Check C Nat))
    (items : List (Json Num)) : (Schema.array element checks).issues (.array items) =
      here ((Schema.array element checks).own (some (.array items))) ++
        items.zipIdx.flatMap fun item =>
          (element.issues item.1).map (Issue.under (.index item.2)) := rfl

theorem Schema.issues_object (fields : Fields Num C) (strict : Bool) :
    (Schema.object fields strict).issues (.object entries) =
      fields.issues entries ++ here ((Schema.object fields strict).own (some (.object entries))) :=
  rfl

/-- A value of another kind has that wrong with it and nothing else. -/
theorem Schema.issues_of_kind {schema : Schema Num C} (h : value.kind ≠ schema.kind) :
    schema.issues value = here [.invalidType schema.kind value.kind] := by
  cases schema <;> cases value <;> first | rfl | exact absurd rfl h

theorem Fields.issues_cons {key : String} {optional : Bool} {schema : Schema Num C}
    {rest : Fields Num C} : (Fields.cons key optional schema rest).issues entries =
      (match entries.lookup key with
        | some value => (schema.issues value).map (Issue.under (.key key))
        | none =>
            if optional then [] else (here (schema.own none)).map (Issue.under (.key key))) ++
        rest.issues entries := rfl

end Equations

/-- The places of a value that a schema looks at. -/
inductive Place : Schema Num C → Json Num → List Step → Schema Num C → Option (Json Num) → Prop
    where
  | here (schema : Schema Num C) (value : Json Num) : Place schema value [] schema (some value)
  | item {element : Schema Num C} {checks : List (Check C Nat)} {items : List (Json Num)}
      {i : Nat} {value : Json Num} {path : List Step} {schema : Schema Num C}
      {found : Option (Json Num)} (hi : items[i]? = some value)
      (h : Place element value path schema found) :
      Place (.array element checks) (.array items) (.index i :: path) schema found
  | field {fields : Fields Num C} {strict : Bool} {entries : List (String × Json Num)}
      {key : String} {optional : Bool} {inner : Schema Num C} {value : Json Num}
      {path : List Step} {schema : Schema Num C} {found : Option (Json Num)}
      (hkey : fields.Has key optional inner) (hvalue : entries.lookup key = some value)
      (h : Place inner value path schema found) :
      Place (.object fields strict) (.object entries) (.key key :: path) schema found
  | absent {fields : Fields Num C} {strict : Bool} {entries : List (String × Json Num)}
      {key : String} {inner : Schema Num C} (hkey : fields.Has key false inner)
      (hvalue : entries.lookup key = none) :
      Place (.object fields strict) (.object entries) [.key key] inner none

/-! ## Induction -/

theorem Fields.not_has_nil {key : String} {optional : Bool} {schema : Schema Num C} :
    ¬ (Fields.nil : Fields Num C).Has key optional schema := by
  intro h
  cases h

theorem Fields.has_cons {key key' : String} {optional optional' : Bool}
    {schema schema' : Schema Num C} {rest : Fields Num C} :
    (Fields.cons key' optional' schema' rest).Has key optional schema ↔
      (key = key' ∧ optional = optional' ∧ schema = schema') ∨ rest.Has key optional schema := by
  constructor
  · intro h
    cases h with
    | head => exact Or.inl ⟨rfl, rfl, rfl⟩
    | tail h => exact Or.inr h
  · intro h
    rcases h with ⟨rfl, rfl, rfl⟩ | h
    · exact .head _ _ _ _
    · exact .tail h

theorem Fields.Has.mem_keys {fields : Fields Num C} {key : String} {optional : Bool}
    {schema : Schema Num C} (h : fields.Has key optional schema) : key ∈ fields.keys := by
  induction h with
  | head => exact List.mem_cons_self
  | tail _ ih => exact List.mem_cons_of_mem _ ih

/-- Induction on schemas, the hypothesis for an object being about the schemas of its fields. -/
@[elab_as_elim]
theorem Schema.induct {P : Schema Num C → Prop} (string : ∀ checks, P (.string checks))
    (number : ∀ checks, P (.number checks)) (boolean : P .boolean)
    (array : ∀ element checks, P element → P (.array element checks))
    (object : ∀ fields strict, (∀ key optional inner, Fields.Has fields key optional inner →
      P inner) → P (.object fields strict)) (schema : Schema Num C) : P schema := by
  refine @Schema.rec Num C P
    (fun fields => ∀ key optional inner, fields.Has key optional inner → P inner)
    string number boolean array object ?_ ?_ schema
  · intro key optional inner h
    exact absurd h Fields.not_has_nil
  · intro key optional inner rest hinner hrest key' optional' inner' h
    rcases Fields.has_cons.mp h with ⟨_, _, rfl⟩ | h
    · exact hinner
    · exact hrest _ _ _ h

@[elab_as_elim]
theorem Fields.induct {P : Fields Num C → Prop} (nil : P .nil)
    (cons : ∀ key optional schema rest, P rest → P (.cons key optional schema rest))
    (fields : Fields Num C) : P fields :=
  @Fields.rec Num C (fun _ => True) P (fun _ => trivial) (fun _ => trivial) trivial
    (fun _ _ _ => trivial) (fun _ _ _ => trivial) nil
    (fun key optional schema rest _ => cons key optional schema rest) fields

/-! ## Issues and places -/

theorem mem_here {codes : List (Code C)} {issue : Issue C} :
    issue ∈ here codes ↔ issue.path = [] ∧ issue.code ∈ codes := by
  constructor
  · intro h
    obtain ⟨code, hcode, rfl⟩ := List.mem_map.mp h
    exact ⟨rfl, hcode⟩
  · intro h
    obtain ⟨path, code⟩ := issue
    obtain ⟨rfl, hcode⟩ := h
    exact List.mem_map.mpr ⟨code, hcode, rfl⟩

theorem mem_under {at_ : Step} {issues : List (Issue C)} {issue : Issue C} :
    issue ∈ issues.map (Issue.under at_) ↔
      ∃ path, issue.path = at_ :: path ∧ ⟨path, issue.code⟩ ∈ issues := by
  constructor
  · intro h
    obtain ⟨inner, hinner, rfl⟩ := List.mem_map.mp h
    exact ⟨inner.path, rfl, hinner⟩
  · intro h
    obtain ⟨path, code⟩ := issue
    obtain ⟨path', rfl, hinner⟩ := h
    exact List.mem_map.mpr ⟨_, hinner, rfl⟩

theorem Fields.mem_issues {fields : Fields Num C} {entries : List (String × Json Num)}
    {issue : Issue C} : issue ∈ fields.issues entries ↔
      ∃ key optional inner path, fields.Has key optional inner ∧ issue.path = .key key :: path ∧
        ((∃ value, entries.lookup key = some value ∧ ⟨path, issue.code⟩ ∈ inner.issues value) ∨
          (entries.lookup key = none ∧ optional = false ∧ path = [] ∧
            issue.code ∈ inner.own none)) := by
  induction fields using Fields.induct with
  | nil =>
    constructor
    · intro h
      cases h
    · intro h
      obtain ⟨_, _, _, _, h, _⟩ := h
      exact absurd h Fields.not_has_nil
  | cons key optional schema rest ih =>
    rw [Fields.issues_cons, List.mem_append, ih]
    constructor
    · intro h
      rcases h with h | h
      · cases hvalue : entries.lookup key with
        | some value =>
          rw [hvalue] at h
          obtain ⟨path, hpath, hmem⟩ := mem_under.mp h
          exact ⟨key, optional, schema, path, .head _ _ _ _, hpath, Or.inl ⟨value, hvalue, hmem⟩⟩
        | none =>
          rw [hvalue] at h
          cases optional with
          | true => cases h
          | false =>
            obtain ⟨path, hpath, hmem⟩ := mem_under.mp h
            obtain ⟨rfl, hcode⟩ := mem_here.mp hmem
            exact ⟨key, false, schema, [], .head _ _ _ _, hpath, Or.inr ⟨hvalue, rfl, rfl, hcode⟩⟩
      · obtain ⟨key', optional', inner, path, hhas, hrest⟩ := h
        exact ⟨key', optional', inner, path, .tail hhas, hrest⟩
    · intro h
      obtain ⟨key', optional', inner, path, hhas, hpath, hcases⟩ := h
      rcases Fields.has_cons.mp hhas with ⟨rfl, rfl, rfl⟩ | hhas
      · left
        rcases hcases with ⟨value, hvalue, hmem⟩ | ⟨hvalue, rfl, rfl, hcode⟩
        · rw [hvalue]
          exact mem_under.mpr ⟨path, hpath, hmem⟩
        · rw [hvalue]
          exact mem_under.mpr ⟨[], hpath, mem_here.mpr ⟨rfl, hcode⟩⟩
      · exact Or.inr ⟨key', optional', inner, path, hhas, hpath, hcases⟩

/-- Where a schema looks at nothing inside the value. -/
theorem mem_issues_of_leaf {schema : Schema Num C} {value : Json Num}
    (hissues : schema.issues value = here (schema.own (some value)))
    (hplace : ∀ path inner found, Place schema value path inner found →
      path = [] ∧ inner = schema ∧ found = some value) {issue : Issue C} :
    issue ∈ schema.issues value ↔ ∃ inner found,
      Place schema value issue.path inner found ∧ issue.code ∈ inner.own found := by
  rw [hissues, mem_here]
  constructor
  · intro h
    obtain ⟨hpath, hcode⟩ := h
    exact ⟨schema, some value, hpath ▸ .here schema value, hcode⟩
  · intro h
    obtain ⟨inner, found, hin, hcode⟩ := h
    obtain ⟨hpath, rfl, rfl⟩ := hplace _ _ _ hin
    exact ⟨hpath, hcode⟩

/-- What is reported is what is wrong at the places that are looked at, all of it and nothing
else, each with the path to its place. -/
theorem Schema.mem_issues {schema : Schema Num C} {value : Json Num} {issue : Issue C} :
    issue ∈ schema.issues value ↔ ∃ inner found,
      Place schema value issue.path inner found ∧ issue.code ∈ inner.own found := by
  induction schema using Schema.induct generalizing value issue with
  | string checks =>
    apply mem_issues_of_leaf
    · cases value <;> rfl
    · intro path inner found h
      cases h
      exact ⟨rfl, rfl, rfl⟩
  | number checks =>
    apply mem_issues_of_leaf
    · cases value <;> rfl
    · intro path inner found h
      cases h
      exact ⟨rfl, rfl, rfl⟩
  | boolean =>
    apply mem_issues_of_leaf
    · cases value <;> rfl
    · intro path inner found h
      cases h
      exact ⟨rfl, rfl, rfl⟩
  | array element checks ih =>
    cases value with
    | array items =>
      rw [Schema.issues_array, List.mem_append, mem_here, List.mem_flatMap]
      constructor
      · intro h
        rcases h with ⟨hpath, hcode⟩ | ⟨⟨item, i⟩, hitem, h⟩
        · exact ⟨_, _, hpath ▸ .here _ _, hcode⟩
        · obtain ⟨path, hpath, hmem⟩ := mem_under.mp h
          obtain ⟨inner, found, hplace, hcode⟩ := ih.mp hmem
          have hi : items[i]? = some item := List.mem_zipIdx_iff_getElem?.mp hitem
          exact ⟨inner, found, hpath ▸ .item hi hplace, hcode⟩
      · intro h
        obtain ⟨inner, found, hplace, hcode⟩ := h
        generalize hpath : issue.path = path at hplace
        cases hplace with
        | here => exact Or.inl ⟨rfl, hcode⟩
        | @item _ _ _ i item path' _ _ hi hplace =>
          right
          refine ⟨(item, i), List.mem_zipIdx_iff_getElem?.mpr hi, mem_under.mpr ⟨path', hpath, ?_⟩⟩
          exact ih.mpr ⟨inner, found, hplace, hcode⟩
    | _ =>
      apply mem_issues_of_leaf rfl
      intro path inner found h
      cases h
      exact ⟨rfl, rfl, rfl⟩
  | object fields strict ih =>
    cases value with
    | object entries =>
      rw [Schema.issues_object, List.mem_append, mem_here, Fields.mem_issues]
      constructor
      · intro h
        rcases h with ⟨key, optional, inner, path, hhas, hpath, hfield⟩ | ⟨hpath, hcode⟩
        · rw [hpath]
          rcases hfield with ⟨value, hvalue, hmem⟩ | ⟨hvalue, rfl, rfl, hcode⟩
          · obtain ⟨inner', found, hplace, hcode⟩ := (ih key optional inner hhas).mp hmem
            exact ⟨inner', found, .field hhas hvalue hplace, hcode⟩
          · exact ⟨inner, none, .absent hhas hvalue, hcode⟩
        · exact ⟨_, _, hpath ▸ .here _ _, hcode⟩
      · intro h
        obtain ⟨inner, found, hplace, hcode⟩ := h
        generalize hpath : issue.path = path at hplace
        cases hplace with
        | here => exact Or.inr ⟨rfl, hcode⟩
        | @field _ _ _ key optional inner' value path' _ _ hhas hvalue hplace =>
          left
          refine ⟨key, optional, inner', path', hhas, rfl, Or.inl ⟨value, hvalue, ?_⟩⟩
          exact (ih key optional inner' hhas).mpr ⟨inner, found, hplace, hcode⟩
        | @absent _ _ _ key _ hhas hvalue =>
          exact Or.inl ⟨key, false, inner, [], hhas, rfl, Or.inr ⟨hvalue, rfl, rfl, hcode⟩⟩
    | _ =>
      apply mem_issues_of_leaf rfl
      intro path inner found h
      cases h
      exact ⟨rfl, rfl, rfl⟩

/-! ## Acceptance -/

/-- The schema takes the value. -/
def Schema.Accepts (schema : Schema Num C) (value : Json Num) : Prop := schema.issues value = []

theorem failures_eq_nil {α : Type} {checks : List (Check C α)} {a : α} :
    failures checks a = [] ↔ ∀ check ∈ checks, check.passes a = true := by
  simp [failures]

theorem here_eq_nil {codes : List (Code C)} : here codes = [] ↔ codes = [] := by
  simp [here]

/-- A field is taken with what stands in it, and one that may be left out without anything. -/
def AcceptsField (optional : Bool) (schema : Schema Num C) : Option (Json Num) → Prop
  | some value => schema.Accepts value
  | none => optional = true

theorem accepts_iff {schema : Schema Num C} {value : Json Num} :
    schema.Accepts value ↔ schema.issues value = [] := Iff.rfl

theorem kind_of_accepts {schema : Schema Num C} {value : Json Num} (h : schema.Accepts value) :
    value.kind = schema.kind := by
  by_contra hkind
  rw [accepts_iff, Schema.issues_of_kind hkind] at h
  cases h

theorem accepts_string {checks : List (Check C String)} {value : Json Num} :
    (Schema.string checks : Schema Num C).Accepts value ↔
      ∃ s, value = .string s ∧ ∀ check ∈ checks, check.passes s = true := by
  cases value with
  | string s =>
    rw [accepts_iff, Schema.issues_string, here_eq_nil, failures_eq_nil]
    simp
  | _ => exact iff_of_false (fun h => by cases kind_of_accepts h) (by simp)

theorem accepts_number {checks : List (Check C Num)} {value : Json Num} :
    (Schema.number checks : Schema Num C).Accepts value ↔
      ∃ n, value = .number n ∧ ∀ check ∈ checks, check.passes n = true := by
  cases value with
  | number n =>
    rw [accepts_iff, Schema.issues_number, here_eq_nil, failures_eq_nil]
    simp
  | _ => exact iff_of_false (fun h => by cases kind_of_accepts h) (by simp)

theorem accepts_boolean {value : Json Num} :
    (Schema.boolean : Schema Num C).Accepts value ↔ ∃ b, value = .bool b := by
  cases value with
  | bool b => exact iff_of_true rfl ⟨b, rfl⟩
  | _ => exact iff_of_false (fun h => by cases kind_of_accepts h) (by simp)

theorem accepts_array {element : Schema Num C} {checks : List (Check C Nat)} {value : Json Num} :
    (Schema.array element checks).Accepts value ↔ ∃ items, value = .array items ∧
      (∀ check ∈ checks, check.passes items.length = true) ∧
        ∀ item ∈ items, element.Accepts item := by
  cases value with
  | array items =>
    simp only [accepts_iff, Schema.issues_array, Schema.own_array, List.append_eq_nil_iff,
      here_eq_nil, failures_eq_nil, List.flatMap_eq_nil_iff, List.map_eq_nil_iff, Json.array.injEq,
      exists_eq_left']
    refine and_congr_right fun _ => ⟨fun h item hitem => ?_, fun h item hitem => ?_⟩
    · obtain ⟨i, hi⟩ := List.mem_iff_getElem?.mp hitem
      exact h (item, i) (List.mem_zipIdx_iff_getElem?.mpr hi)
    · exact h item.1 (List.mem_of_getElem? (List.mem_zipIdx_iff_getElem?.mp hitem))
  | _ => exact iff_of_false (fun h => by cases kind_of_accepts h) (by simp)

theorem fields_cons_eq_nil {key : String} {optional : Bool} {schema : Schema Num C}
    {rest : Fields Num C} {entries : List (String × Json Num)} :
    (Fields.cons key optional schema rest).issues entries = [] ↔
      AcceptsField optional schema (entries.lookup key) ∧ rest.issues entries = [] := by
  rw [Fields.issues_cons, List.append_eq_nil_iff]
  refine and_congr_left fun _ => ?_
  cases entries.lookup key with
  | some value => exact List.map_eq_nil_iff
  | none =>
    cases optional with
    | true => exact iff_of_true rfl rfl
    | false =>
      rw [Schema.own_none]
      exact iff_of_false (List.cons_ne_nil _ _) Bool.false_ne_true

theorem unknownKeys_eq_nil {known : List String} {entries : List (String × Json Num)} :
    unknownKeys known entries = [] ↔ ∀ entry ∈ entries, entry.1 ∈ known := by
  rw [unknownKeys, List.filter_eq_nil_iff, List.forall_mem_map]
  simp

theorem accepts_object {fields : Fields Num C} {strict : Bool} {value : Json Num} :
    (Schema.object fields strict).Accepts value ↔ ∃ entries, value = .object entries ∧
      fields.issues entries = [] ∧
        (strict = true → ∀ entry ∈ entries, entry.1 ∈ fields.keys) := by
  cases value with
  | object entries =>
    simp only [accepts_iff, Schema.issues_object, Schema.own_object, List.append_eq_nil_iff,
      here_eq_nil, Json.object.injEq, exists_eq_left']
    refine and_congr_right fun _ => ?_
    rw [← unknownKeys_eq_nil]
    by_cases hunknown : strict = true ∧ unknownKeys fields.keys entries ≠ []
    · simp [hunknown.1, hunknown.2]
    · rw [if_neg hunknown]
      simpa using hunknown
  | _ => exact iff_of_false (fun h => by cases kind_of_accepts h) (by simp)

end Validation
