import Mathlib.Data.List.DropRight

/-!
# Separated fields

A line of fields with a separator between any two of them and blanks around each. It is read by
splitting at every separator, trimming the pieces and dropping those that are left empty.
-/

namespace Text

set_option autoImplicit false

variable {α : Type}

/-! ## Trimming -/

def trim (blank : α → Bool) (l : List α) : List α := (l.dropWhile blank).rdropWhile blank

/-- No blank stands at either end. -/
structure Trimmed (blank : α → Bool) (l : List α) : Prop where
  head : ∀ a ∈ l.head?, blank a = false
  last : ∀ a ∈ l.getLast?, blank a = false

variable {blank : α → Bool}

theorem trim_of_trimmed {l : List α} (h : Trimmed blank l) : trim blank l = l := by
  cases l with
  | nil => rfl
  | cons a l =>
    have hhead : blank a = false := h.head a rfl
    have hlast : blank ((a :: l).getLast (List.cons_ne_nil a l)) = false :=
      h.last _ (List.getLast?_eq_some_getLast _)
    rw [trim, List.dropWhile_cons_of_neg (by simp [hhead]), List.rdropWhile_eq_self_iff]
    intro _
    rw [hlast]
    exact Bool.false_ne_true

theorem dropWhile_pad {pad l : List α} (h : ∀ a ∈ pad, blank a = true) :
    (pad ++ l).dropWhile blank = l.dropWhile blank := by
  induction pad with
  | nil => rfl
  | cons a pad ih =>
    rw [List.cons_append, List.dropWhile_cons_of_pos (h a List.mem_cons_self)]
    exact ih fun b hb => h b (List.mem_cons_of_mem a hb)

theorem rdropWhile_pad {pad l : List α} (h : ∀ a ∈ pad, blank a = true) :
    (l ++ pad).rdropWhile blank = l.rdropWhile blank := by
  rw [List.rdropWhile, List.reverse_append, dropWhile_pad, List.rdropWhile]
  intro a ha
  exact h a (List.mem_reverse.mp ha)

/-- Blanks around a text are gone once it is trimmed. -/
theorem trim_pad {before l after : List α} (hbefore : ∀ a ∈ before, blank a = true)
    (hafter : ∀ a ∈ after, blank a = true) (h : Trimmed blank l) :
    trim blank (before ++ l ++ after) = l := by
  rw [trim, List.append_assoc, dropWhile_pad hbefore]
  cases l with
  | nil =>
    rw [List.nil_append, List.dropWhile_eq_nil_iff.mpr hafter]
    rfl
  | cons a l =>
    have hhead : blank a = false := h.head a rfl
    rw [List.cons_append, List.dropWhile_cons_of_neg (by simp [hhead]), ← List.cons_append,
      rdropWhile_pad hafter]
    have htrim := trim_of_trimmed h
    rwa [trim, List.dropWhile_cons_of_neg (by simp [hhead])] at htrim

theorem trimmed_trim (blank : α → Bool) (l : List α) : Trimmed blank (trim blank l) := by
  constructor
  · intro a ha
    have hpre : trim blank l <+: l.dropWhile blank := List.rdropWhile_prefix blank _
    have ha' : a ∈ (l.dropWhile blank).head? := by
      cases htrim : trim blank l with
      | nil =>
        rw [htrim] at ha
        cases ha
      | cons b rest =>
        rw [htrim] at ha hpre
        obtain ⟨tail, htail⟩ := hpre
        rw [← htail]
        exact ha
    cases hdrop : l.dropWhile blank with
    | nil =>
      rw [hdrop] at ha'
      cases ha'
    | cons b rest =>
      have hne : l.dropWhile blank ≠ [] := by
        rw [hdrop]
        exact List.cons_ne_nil b rest
      have hhead := List.head_dropWhile_not blank hne
      rw [List.head?_eq_some_head hne] at ha'
      cases ha'
      simpa using hhead
  · intro a ha
    have hne : trim blank l ≠ [] := by
      intro hnil
      rw [hnil] at ha
      cases ha
    have hlast : ¬ blank ((trim blank l).getLast hne) = true :=
      List.rdropWhile_last_not blank _ hne
    rw [List.getLast?_eq_some_getLast hne] at ha
    cases ha
    simpa using hlast

/-- Trimming takes blanks away and nothing else. -/
theorem trim_spec (blank : α → Bool) (l : List α) : ∃ before after,
    l = before ++ trim blank l ++ after ∧ (∀ a ∈ before, blank a = true) ∧
      ∀ a ∈ after, blank a = true := by
  refine ⟨l.takeWhile blank, (l.dropWhile blank).rtakeWhile blank, ?_, ?_, ?_⟩
  · rw [trim, List.append_assoc, List.rdropWhile_append_rtakeWhile,
      List.takeWhile_append_dropWhile]
  · intro a ha
    exact List.mem_takeWhile_imp ha
  · intro a ha
    exact List.mem_rtakeWhile_imp ha

/-! ## Pieces -/

/-- One piece of a line: a text, which may be empty, with blanks around it. -/
structure Piece (sep : α) (blank : α → Bool) where
  before : List α
  text : List α
  after : List α
  before_blank : ∀ a ∈ before, blank a = true
  after_blank : ∀ a ∈ after, blank a = true
  trimmed : Trimmed blank text
  separate : sep ∉ text

variable {sep : α}

def Piece.written (p : Piece sep blank) : List α := p.before ++ p.text ++ p.after

def joined (pieces : List (Piece sep blank)) : List α :=
  [sep].intercalate (pieces.map Piece.written)

/-- The texts that are not empty. -/
def texts (pieces : List (Piece sep blank)) : List (List α) :=
  (pieces.map (·.text)).filter fun text => !text.isEmpty

theorem Piece.sep_notMem (hsep : blank sep = false) (p : Piece sep blank) :
    sep ∉ p.written := by
  intro hm
  rcases List.mem_append.mp hm with hm | hm
  · rcases List.mem_append.mp hm with hm | hm
    · rw [p.before_blank sep hm] at hsep
      cases hsep
    · exact p.separate hm
  · rw [p.after_blank sep hm] at hsep
    cases hsep

@[simp] theorem Piece.trim_written (p : Piece sep blank) : trim blank p.written = p.text :=
  trim_pad p.before_blank p.after_blank p.trimmed

/-- What stands between two separators, taken apart. -/
theorem exists_piece {seg : List α} (h : sep ∉ seg) :
    ∃ p : Piece sep blank, p.written = seg := by
  obtain ⟨before, after, hseg, hbefore, hafter⟩ := trim_spec blank seg
  refine ⟨⟨before, trim blank seg, after, hbefore, hafter, trimmed_trim blank seg, ?_⟩, hseg.symm⟩
  intro hm
  apply h
  rw [hseg]
  exact List.mem_append_left after (List.mem_append_right before hm)

theorem mem_joined {a : α} {pieces : List (Piece sep blank)} (h : a ∈ joined pieces) :
    a = sep ∨ ∃ p ∈ pieces, a ∈ p.written := by
  induction pieces with
  | nil => cases h
  | cons p pieces ih =>
    cases pieces with
    | nil =>
      rw [joined, List.map_singleton, List.intercalate_singleton] at h
      exact Or.inr ⟨p, List.mem_cons_self, h⟩
    | cons q pieces =>
      rw [joined, List.map_cons, List.map_cons, List.intercalate_cons_cons] at h
      rcases List.mem_append.mp h with h | h
      · rcases List.mem_append.mp h with h | h
        · exact Or.inr ⟨p, List.mem_cons_self, h⟩
        · exact Or.inl (List.mem_singleton.mp h)
      · rcases ih h with rfl | ⟨r, hr, ha⟩
        · exact Or.inl rfl
        · exact Or.inr ⟨r, List.mem_cons_of_mem p hr, ha⟩

theorem written_subset {p : Piece sep blank} {pieces : List (Piece sep blank)} (hp : p ∈ pieces) :
    p.written ⊆ joined pieces := by
  induction pieces with
  | nil => cases hp
  | cons q pieces ih =>
    cases pieces with
    | nil =>
      rw [joined, List.map_singleton, List.intercalate_singleton, List.mem_singleton.mp hp]
      exact List.Subset.refl _
    | cons r pieces =>
      rw [joined, List.map_cons, List.map_cons, List.intercalate_cons_cons]
      rcases List.mem_cons.mp hp with rfl | hp
      · exact List.subset_append_of_subset_left _ (List.subset_append_left _ _)
      · exact List.subset_append_of_subset_right _ (ih hp)

/-- There is no text on a line of separators and blanks only. -/
theorem texts_eq_nil_iff {pieces : List (Piece sep blank)} :
    texts pieces = [] ↔ ∀ a ∈ joined pieces, a = sep ∨ blank a = true := by
  constructor
  · intro h a ha
    rcases mem_joined ha with rfl | ⟨p, hp, ha⟩
    · exact Or.inl rfl
    · have htext : p.text = [] := by
        by_contra hne
        have hm : p.text ∈ texts pieces :=
          List.mem_filter.mpr ⟨List.mem_map_of_mem hp, by simpa using hne⟩
        rw [h] at hm
        cases hm
      right
      rcases List.mem_append.mp ha with ha | ha
      · rcases List.mem_append.mp ha with ha | ha
        · exact p.before_blank a ha
        · rw [htext] at ha
          cases ha
      · exact p.after_blank a ha
  · intro h
    apply List.filter_eq_nil_iff.mpr
    intro text hm htext
    obtain ⟨p, hp, rfl⟩ := List.mem_map.mp hm
    cases heq : p.text with
    | nil => simp [heq] at htext
    | cons a rest =>
      have ha : a ∈ p.text := by
        rw [heq]
        exact List.mem_cons_self
      rcases h a (written_subset hp
        (List.mem_append_left _ (List.mem_append_right _ ha))) with rfl | hblank
      · exact p.separate ha
      · rw [p.trimmed.head a (by rw [heq]; rfl)] at hblank
        cases hblank

/-! ## Fields -/

variable [DecidableEq α]

def fields (sep : α) (blank : α → Bool) (l : List α) : List (List α) :=
  ((l.splitOn sep).map (trim blank)).filter fun text => !text.isEmpty

/-- The texts of a line are read back, whatever blanks stand around them. -/
theorem fields_joined (hsep : blank sep = false) {pieces : List (Piece sep blank)}
    (h : pieces ≠ []) : fields sep blank (joined pieces) = texts pieces := by
  have hsplit : (joined pieces).splitOn sep = pieces.map Piece.written := by
    refine List.splitOn_intercalate sep ?_ (by simpa using h)
    intro l hl
    obtain ⟨p, _, rfl⟩ := List.mem_map.mp hl
    exact p.sep_notMem hsep
  have htrim : (pieces.map Piece.written).map (trim blank) = pieces.map (·.text) := by
    rw [List.map_map]
    exact List.map_congr_left fun p _ => p.trim_written
  rw [fields, hsplit, htrim, texts]

theorem sep_notMem_splitOn {l seg : List α} (h : seg ∈ l.splitOn sep) : sep ∉ seg := by
  induction l generalizing seg with
  | nil =>
    rw [List.splitOn_nil, List.mem_singleton] at h
    subst h
    exact List.not_mem_nil
  | cons a l ih =>
    rw [List.splitOn_cons_eq_if_modifyHead] at h
    split at h
    · rcases List.mem_cons.mp h with rfl | h
      · exact List.not_mem_nil
      · exact ih h
    · rename_i hne
      have hsep : sep ≠ a := fun heq => hne (by simp [heq])
      cases hsplit : l.splitOn sep with
      | nil => exact absurd hsplit (List.splitOn_ne_nil sep l)
      | cons first rest =>
        rw [hsplit, List.modifyHead_cons] at h
        rcases List.mem_cons.mp h with rfl | h
        · intro hm
          rcases List.mem_cons.mp hm with heq | hm
          · exact hsep heq
          · exact ih (hsplit ▸ List.mem_cons_self) hm
        · exact ih (hsplit ▸ List.mem_cons_of_mem first h)

/-- Every line is one of pieces. -/
theorem exists_joined (l : List α) : ∃ pieces : List (Piece sep blank),
    pieces ≠ [] ∧ joined pieces = l := by
  have hpieces (segs : List (List α)) (h : ∀ seg ∈ segs, sep ∉ seg) :
      ∃ pieces : List (Piece sep blank), pieces.map Piece.written = segs := by
    induction segs with
    | nil => exact ⟨[], rfl⟩
    | cons seg segs ih =>
      obtain ⟨p, hp⟩ : ∃ p : Piece sep blank, p.written = seg :=
        exists_piece (h seg List.mem_cons_self)
      obtain ⟨pieces, hrest⟩ := ih fun s hs => h s (List.mem_cons_of_mem seg hs)
      exact ⟨p :: pieces, by rw [List.map_cons, hp, hrest]⟩
  obtain ⟨pieces, hmap⟩ := hpieces (l.splitOn sep) fun _ => sep_notMem_splitOn
  refine ⟨pieces, ?_, ?_⟩
  · rintro rfl
    exact List.splitOn_ne_nil sep l hmap.symm
  · rw [joined, hmap, List.intercalate_splitOn]

end Text
