import CronHive.Schemas

/-!
# Refused bodies

The answer to a body that is refused carries `err.flatten()`: the messages of what is wrong,
grouped by the field of the body that they are about.
-/

namespace CronHive

set_option autoImplicit false

open Validation

def kindText : Kind → String
  | .undefined => "undefined"
  | .null => "null"
  | .boolean => "boolean"
  | .number => "number"
  | .string => "string"
  | .array => "array"
  | .object => "object"

def ZodCheck.message : ZodCheck → String
  | .stringMin n => s!"String must contain at least {n} character(s)"
  | .stringMax n => s!"String must contain at most {n} character(s)"
  | .url => "Invalid url"
  | .int => "Expected integer, received float"
  | .numberMin n => s!"Number must be greater than or equal to {n}"
  | .numberMax n => s!"Number must be less than or equal to {n}"
  | .arrayMin n => s!"Array must contain at least {n} element(s)"
  | .arrayMax n => s!"Array must contain at most {n} element(s)"

def codeMessage : Code ZodCheck → String
  | .invalidType expected received =>
      if received = .undefined then "Required"
      else "Expected " ++ kindText expected ++ ", received " ++ kindText received
  | .unrecognizedKeys keys =>
      "Unrecognized key(s) in object: " ++
        ", ".intercalate (keys.map fun key => "'" ++ key ++ "'")
  | .failed check => check.message

abbrev ZodIssue : Type := Issue ZodCheck

def stepText : Step → String
  | .key k => k
  | .index i => toString i

structure FlattenedError where
  formErrors : List String
  fieldErrors : List (String × List String)
  deriving DecidableEq, Repr

/-- `fieldErrors[key] = fieldErrors[key] || []; fieldErrors[key].push(message)` -/
def pushError (key message : String) :
    List (String × List String) → List (String × List String)
  | [] => [(key, [message])]
  | (k, messages) :: rest =>
      if k = key then (k, messages ++ [message]) :: rest
      else (k, messages) :: pushError key message rest

def FlattenedError.add (errors : FlattenedError) (issue : ZodIssue) : FlattenedError :=
  match issue.path with
  | [] => { errors with formErrors := errors.formErrors ++ [codeMessage issue.code] }
  | step :: _ =>
      { errors with
        fieldErrors := pushError (stepText step) (codeMessage issue.code) errors.fieldErrors }

/-- `ZodError.flatten` -/
def flatten (issues : List ZodIssue) : FlattenedError := issues.foldl FlattenedError.add ⟨[], []⟩

/-- The messages of the issues whose path begins with the field. -/
def fieldMessages (key : String) (issues : List ZodIssue) : List String :=
  (issues.filter fun issue => issue.path.head?.map stepText = some key).map
    fun issue => codeMessage issue.code

/-- An entry of `fieldErrors`, which has one message at least. -/
def errorEntry (messages : List String) : Option (List String) :=
  if messages = [] then none else some messages

theorem lookup_pushError (key message key' : String) (errors : List (String × List String)) :
    (pushError key message errors).lookup key' =
      if key' = key then some ((errors.lookup key').getD [] ++ [message])
      else errors.lookup key' := by
  induction errors with
  | nil =>
    by_cases h : key' = key
    · simp [pushError, h]
    · have hne : (key' == key) = false := by simpa using h
      simp [pushError, h, List.lookup_cons, hne]
  | cons entry rest ih =>
    obtain ⟨k, messages⟩ := entry
    by_cases hk : k = key
    · subst hk
      by_cases h : key' = k
      · simp [pushError, h]
      · have hne : (key' == k) = false := by simpa using h
        simp [pushError, h, List.lookup_cons, hne]
    · by_cases h : key' = k
      · subst h
        simp [pushError, hk]
      · have hne : (key' == k) = false := by simpa using h
        rw [pushError, if_neg hk, List.lookup_cons, List.lookup_cons, hne]
        exact ih

theorem flatten_append (issues : List ZodIssue) (issue : ZodIssue) :
    flatten (issues ++ [issue]) = (flatten issues).add issue := by
  rw [flatten, List.foldl_append]
  rfl

theorem fieldMessages_append (key : String) (issues issues' : List ZodIssue) :
    fieldMessages key (issues ++ issues') =
      fieldMessages key issues ++ fieldMessages key issues' := by
  rw [fieldMessages, List.filter_append, List.map_append]
  rfl

theorem fieldMessages_here (key : String) (code : Code ZodCheck) :
    fieldMessages key [⟨[], code⟩] = [] := rfl

theorem fieldMessages_under (key : String) (step : Step) (path : List Step)
    (code : Code ZodCheck) : fieldMessages key [⟨step :: path, code⟩] =
      if stepText step = key then [codeMessage code] else [] := by
  by_cases h : stepText step = key
  · simp [fieldMessages, h]
  · simp [fieldMessages, h]

@[simp] theorem getD_errorEntry (messages : List String) :
    (errorEntry messages).getD [] = messages := by
  by_cases h : messages = []
  · simp [errorEntry, h]
  · simp [errorEntry, h]

theorem formErrors_flatten (issues : List ZodIssue) :
    (flatten issues).formErrors =
      (issues.filter fun issue => issue.path = []).map fun issue => codeMessage issue.code := by
  induction issues using List.reverseRecOn with
  | nil => rfl
  | append_singleton issues issue ih =>
    rw [flatten_append, List.filter_append, List.map_append, ← ih]
    obtain ⟨path, code⟩ := issue
    cases path with
    | nil => rfl
    | cons step path => simp [FlattenedError.add]

theorem fieldErrors_flatten (issues : List ZodIssue) (key : String) :
    (flatten issues).fieldErrors.lookup key = errorEntry (fieldMessages key issues) := by
  induction issues using List.reverseRecOn with
  | nil => rfl
  | append_singleton issues issue ih =>
    rw [flatten_append, fieldMessages_append]
    obtain ⟨path, code⟩ := issue
    cases path with
    | nil =>
      rw [fieldMessages_here, List.append_nil]
      exact ih
    | cons step path =>
      simp only [FlattenedError.add, lookup_pushError, fieldMessages_under]
      by_cases hkey : key = stepText step
      · subst hkey
        rw [if_pos rfl, if_pos rfl, ih, getD_errorEntry]
        simp [errorEntry]
      · rw [if_neg hkey, if_neg (Ne.symm hkey), ih, List.append_nil]

/-! ## The fields of an object -/

/-- What is wrong with one field, from what stands in it. -/
def fieldIssues (optional : Bool) (schema : ZodSchema) : Option Body → List ZodIssue
  | some value => schema.issues value
  | none => if optional then [] else here (schema.own none)

def ownMessages (issues : List ZodIssue) : List String :=
  issues.map fun issue => codeMessage issue.code

theorem fieldIssues_eq_nil {optional : Bool} {schema : ZodSchema} {found : Option Body} :
    fieldIssues optional schema found = [] ↔ AcceptsField optional schema found := by
  cases found with
  | some value => exact Iff.rfl
  | none =>
    cases optional with
    | true => simp [fieldIssues, AcceptsField]
    | false => simp [fieldIssues, AcceptsField, Schema.own_none, here]

theorem fields_cons_issues {key : String} {optional : Bool} {schema : ZodSchema}
    {rest : Fields WireNumber ZodCheck} {entries : List (String × Body)} :
    (Fields.cons key optional schema rest).issues entries =
      (fieldIssues optional schema (entries.lookup key)).map (Issue.under (.key key)) ++
        rest.issues entries := by
  rw [Fields.issues_cons]
  cases entries.lookup key with
  | some value => rfl
  | none =>
    cases optional with
    | true => rfl
    | false => rfl

theorem fieldMessages_of_key (key key' : String) (issues : List ZodIssue) :
    fieldMessages key (issues.map (Issue.under (.key key'))) =
      if key' = key then ownMessages issues else [] := by
  induction issues with
  | nil => simp [fieldMessages, ownMessages]
  | cons issue issues ih =>
    rw [List.map_cons, ← List.singleton_append, fieldMessages_append, ih, Issue.under,
      fieldMessages_under]
    by_cases h : key' = key
    · simp [h, stepText, ownMessages]
    · simp [h, stepText]

theorem fieldMessages_absent {fields : Fields WireNumber ZodCheck}
    {entries : List (String × Body)} {key : String} (h : key ∉ fields.keys) :
    fieldMessages key (fields.issues entries) = [] := by
  induction fields using Fields.induct with
  | nil => rfl
  | cons key' optional schema rest ih =>
    rw [Fields.keys, List.mem_cons, not_or] at h
    rw [fields_cons_issues, fieldMessages_append, fieldMessages_of_key, if_neg (Ne.symm h.1),
      ih h.2]
    rfl

theorem fieldMessages_issues {fields : Fields WireNumber ZodCheck} (hkeys : fields.keys.Nodup)
    {entries : List (String × Body)} {key : String} {optional : Bool} {schema : ZodSchema}
    (h : fields.Has key optional schema) : fieldMessages key (fields.issues entries) =
      ownMessages (fieldIssues optional schema (entries.lookup key)) := by
  induction fields using Fields.induct with
  | nil => exact absurd h Fields.not_has_nil
  | cons key' optional' schema' rest ih =>
    rw [Fields.keys, List.nodup_cons] at hkeys
    rw [fields_cons_issues, fieldMessages_append, fieldMessages_of_key]
    rcases Fields.has_cons.mp h with ⟨rfl, rfl, rfl⟩ | h
    · rw [if_pos rfl, fieldMessages_absent hkeys.1, List.append_nil]
    · rw [if_neg (fun heq : key' = key => hkeys.1 (heq ▸ h.mem_keys)), ih hkeys.2 h]
      rfl

/-- `details` of the answer to a body that is refused. -/
def details (schema : ZodSchema) (body : Body) : FlattenedError := flatten (schema.issues body)

theorem fieldMessages_own (key : String) (codes : List (Code ZodCheck)) :
    fieldMessages key (here codes) = [] := by
  rw [fieldMessages, List.map_eq_nil_iff, List.filter_eq_nil_iff]
  intro issue h
  rw [(mem_here.mp h).1]
  simp

theorem filter_fields_issues (fields : Fields WireNumber ZodCheck)
    (entries : List (String × Body)) :
    ((fields.issues entries).filter fun issue => issue.path = []) = [] := by
  rw [List.filter_eq_nil_iff]
  intro issue h
  obtain ⟨key, _, _, path, _, hpath, _⟩ := Fields.mem_issues.mp h
  rw [hpath]
  simp

/-- Each field has the messages of its own value in the answer, whatever stands in the others, and
none just if it is taken as it is; beside the fields there is at most the list of unknown keys. -/
theorem refusal_exact {fields : Fields WireNumber ZodCheck} (hkeys : fields.keys.Nodup)
    (strict : Bool) (entries : List (String × Body)) :
    (∀ key optional schema, fields.Has key optional schema →
      ((details (.object fields strict) (.object entries)).fieldErrors.lookup key =
        errorEntry (ownMessages (fieldIssues optional schema (entries.lookup key)))) ∧
      ((details (.object fields strict) (.object entries)).fieldErrors.lookup key = none ↔
        AcceptsField optional schema (entries.lookup key))) ∧
    (∀ key, key ∉ fields.keys →
      (details (.object fields strict) (.object entries)).fieldErrors.lookup key = none) ∧
    (details (.object fields strict) (.object entries)).formErrors =
      if strict ∧ unknownKeys fields.keys entries ≠ [] then
        [codeMessage (.unrecognizedKeys (unknownKeys fields.keys entries))]
      else [] := by
  have hmessages (key : String) :
      fieldMessages key ((Schema.object fields strict).issues (.object entries)) =
        fieldMessages key (fields.issues entries) := by
    rw [Schema.issues_object, fieldMessages_append, fieldMessages_own, List.append_nil]
  refine ⟨?_, ?_, ?_⟩
  · intro key optional schema h
    rw [details, fieldErrors_flatten, hmessages, fieldMessages_issues hkeys h]
    refine ⟨rfl, ?_⟩
    rw [← fieldIssues_eq_nil]
    simp [errorEntry, ownMessages]
  · intro key h
    rw [details, fieldErrors_flatten, hmessages, fieldMessages_absent h]
    rfl
  · rw [details, formErrors_flatten, Schema.issues_object, List.filter_append,
      filter_fields_issues, List.nil_append, Schema.own_object]
    split
    · rfl
    · rfl

/-- No URL parses. -/
def noUrls : Platform := ⟨fun _ => none, fun _ _ => true, fun _ _ _ => none⟩

/-- A creation without a name and a retry policy, and with a URL that does not parse. -/
def poorCreation : List (String × Body) :=
  [("name", .string ""), ("cronExpression", .string "* * * * *"), ("callbackUrl", .string "x")]

theorem refusal_exact_create :
    (details (createBody noUrls) (.object poorCreation)).fieldErrors.lookup "callbackUrl" =
        some ["Invalid url"] ∧
      (details (createBody noUrls) (.object poorCreation)).fieldErrors.lookup "retryPolicy" =
        some ["Required"] ∧
      (details (createBody noUrls) (.object poorCreation)).formErrors = [] := by
  have hkeys : (createShape noUrls).keys.Nodup := by decide
  obtain ⟨hfields, _, hform⟩ := refusal_exact hkeys false poorCreation
  exact ⟨(hfields _ _ _ (.tail (.tail (.head _ _ _ _)))).1,
    (hfields _ _ _ (.tail (.tail (.tail (.head _ _ _ _))))).1, hform⟩

end CronHive
