import CronHive.Text.Fields

/-!
# API keys

`requireApiKey` reads the keys from `CRONHIVE_API_KEYS` at each request, and takes the request's
own from `Authorization: Bearer …` or, failing that, from `x-api-key`.
-/

namespace CronHive

set_option autoImplicit false

/-- What `String.prototype.trim` takes away: white space and line terminators. -/
def jsBlank (c : Char) : Bool :=
  c.val ∈ [0x9, 0xA, 0xB, 0xC, 0xD, 0x20, 0xA0, 0x1680, 0x2028, 0x2029, 0x202F, 0x205F, 0x3000,
    0xFEFF] || (0x2000 ≤ c.val && c.val ≤ 0x200A)

/-- The keys of the value of `CRONHIVE_API_KEYS`. -/
def parseKeys (apiKeys : String) : List String :=
  (Text.fields ',' jsBlank apiKeys.toList).map String.ofList

def authEnabled (apiKeys : String) : Bool := 0 < (parseKeys apiKeys).length

/-- Buffers of different lengths never reach `timingSafeEqual`. -/
def safeEqual (a b : String) : Bool :=
  if a.toUTF8.size ≠ b.toUTF8.size then false else a.toUTF8.data = b.toUTF8.data

structure KeyHeaders where
  authorization : Option String
  xApiKey : Option String
  deriving DecidableEq, Repr

def bearerScheme : List Char := "Bearer ".toList

def bearer (authorization : Option String) : Option String :=
  match authorization with
  | some header =>
      if bearerScheme.isPrefixOf header.toList then
        some (String.ofList (header.toList.drop 7))
      else none
  | none => none

/-- Whether `next()` is called; the answer is 401 otherwise. -/
def requireApiKey (apiKeys : String) (headers : KeyHeaders) : Bool :=
  let keys := parseKeys apiKeys
  if keys.length = 0 then true
  else
    match (bearer headers.authorization).or headers.xApiKey with
    | some provided => provided ≠ "" && keys.any fun k => safeEqual k provided
    | none => false

/-! ## What is accepted -/

theorem safeEqual_iff {a b : String} : safeEqual a b = true ↔ a = b := by
  unfold safeEqual
  constructor
  · intro h
    split at h
    · cases h
    · apply String.toByteArray_inj.mp
      exact ByteArray.ext (of_decide_eq_true h)
  · rintro rfl
    simp

/-- A bearer token stands before `x-api-key`, even a wrong one. -/
def KeyHeaders.Present (headers : KeyHeaders) (key : String) : Prop :=
  headers.authorization = some ("Bearer " ++ key) ∨
    (∀ token, headers.authorization ≠ some ("Bearer " ++ token)) ∧ headers.xApiKey = some key

theorem bearer_toList (token : String) :
    ("Bearer " ++ token).toList = bearerScheme ++ token.toList := String.toList_append

theorem bearer_iff {authorization : Option String} {key : String} :
    bearer authorization = some key ↔ authorization = some ("Bearer " ++ key) := by
  cases authorization with
  | none => simp [bearer]
  | some header =>
    simp only [bearer, Option.some.injEq]
    constructor
    · intro h
      split at h
      · rename_i hpre
        obtain ⟨rest, hrest⟩ := List.isPrefixOf_iff_prefix.mp hpre
        cases h
        apply String.toList_inj.mp
        rw [bearer_toList, ← hrest, String.toList_ofList]
        rfl
      · cases h
    · rintro rfl
      rw [bearer_toList, if_pos (List.isPrefixOf_iff_prefix.mpr (List.prefix_append _ _))]
      rw [show (bearerScheme ++ key.toList).drop 7 = key.toList from rfl, String.ofList_toList]

theorem present_iff {headers : KeyHeaders} {key : String} :
    (bearer headers.authorization).or headers.xApiKey = some key ↔ headers.Present key := by
  unfold KeyHeaders.Present
  rw [← bearer_iff]
  cases hbearer : bearer headers.authorization with
  | some token =>
    have hsome := bearer_iff.mp hbearer
    constructor
    · intro h
      exact Or.inl h
    · intro h
      rcases h with h | ⟨hnone, _⟩
      · exact h
      · exact absurd hsome (hnone token)
  | none =>
    constructor
    · intro h
      refine Or.inr ⟨fun token htoken => ?_, h⟩
      rw [bearer_iff.mpr htoken] at hbearer
      cases hbearer
    · intro h
      rcases h with h | ⟨_, h⟩
      · cases h
      · exact h

abbrev KeyPiece : Type := Text.Piece ',' jsBlank

theorem parseKeys_joined {pieces : List KeyPiece} (h : pieces ≠ []) {apiKeys : String}
    (hjoined : Text.joined pieces = apiKeys.toList) :
    parseKeys apiKeys = (Text.texts pieces).map String.ofList := by
  rw [parseKeys, ← hjoined, Text.fields_joined (by decide) h]

theorem not_empty_of_key {pieces : List KeyPiece} {key : String}
    (h : key.toList ∈ Text.texts pieces) : key ≠ "" := by
  rintro rfl
  obtain ⟨_, htext⟩ := List.mem_filter.mp h
  cases htext

/-- Every value of `CRONHIVE_API_KEYS` is keys with blanks around them and commas between them,
and however it is taken apart so, a request passes just if the value is of commas and blanks
only, or if the key that the request presents is one of these. -/
theorem requireApiKey_iff (apiKeys : String) :
    (∃ pieces : List KeyPiece, pieces ≠ [] ∧ Text.joined pieces = apiKeys.toList) ∧
      ∀ (pieces : List KeyPiece), pieces ≠ [] → Text.joined pieces = apiKeys.toList →
        ∀ headers : KeyHeaders, requireApiKey apiKeys headers = true ↔
          (∀ c ∈ apiKeys.toList, c = ',' ∨ jsBlank c = true) ∨
            ∃ key, headers.Present key ∧ key.toList ∈ Text.texts pieces := by
  refine ⟨Text.exists_joined apiKeys.toList, ?_⟩
  intro pieces hne hjoined headers
  have hkeys := parseKeys_joined hne hjoined
  rw [← hjoined, ← Text.texts_eq_nil_iff]
  simp only [requireApiKey, hkeys, List.length_map]
  by_cases hnil : Text.texts pieces = []
  · simp [hnil]
  · rw [if_neg (by simpa using hnil)]
    constructor
    · intro h
      right
      cases hprovided : (bearer headers.authorization).or headers.xApiKey with
      | none =>
        rw [hprovided] at h
        cases h
      | some provided =>
        rw [hprovided] at h
        obtain ⟨_, hany⟩ := Bool.and_eq_true_iff.mp h
        obtain ⟨k, hk, hequal⟩ := List.any_eq_true.mp hany
        obtain ⟨text, htext, rfl⟩ := List.mem_map.mp hk
        obtain rfl := safeEqual_iff.mp hequal
        exact ⟨_, present_iff.mp hprovided, by rwa [String.toList_ofList]⟩
    · intro h
      rcases h with h | ⟨key, hpresent, hkey⟩
      · exact absurd h hnil
      · rw [present_iff.mpr hpresent]
        refine Bool.and_eq_true_iff.mpr ⟨by simpa using not_empty_of_key hkey, ?_⟩
        refine List.any_eq_true.mpr ⟨key, ?_, safeEqual_iff.mpr rfl⟩
        exact List.mem_map.mpr ⟨key.toList, hkey, String.ofList_toList⟩

end CronHive
