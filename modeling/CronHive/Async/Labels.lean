import CronHive.Async.Interleaving

/-!
# What a thread found when it began

A run may be accompanied by a list that says, thread by thread, what the world was like when the
thread began: one label for each thread, made once and never changed.
-/

namespace Async

set_option autoImplicit false

open Prog

variable {Op Loc : Type} {Res : Op → Type} {Val : Loc → Type} {ε α μ : Type}
variable {World Tag Choice Env : Type}

namespace Machine

/-- The labels of the threads, for the states that can be reached from `w₀`. -/
inductive Labelled (M : Machine Res Val ε α World Tag Choice Env) (label : Tag → World → μ)
    (w₀ : World) : State Res Val ε α World Tag Env → List μ → Prop where
  | fresh : Labelled M label w₀ (.fresh w₀) []
  | begin {s : State Res Val ε α World Tag Env} {labels : List μ} {t : Tag} {w : World}
      {p : Prog Res Val ε α} (h : Labelled M label w₀ s labels)
      (hstart : M.start t s.world = some (w, p)) :
      Labelled M label w₀ (M.spawned s t w p) (labels ++ [label t s.world])
  | other {s s' : State Res Val ε α World Tag Env} {labels : List μ} {e : Event Tag Choice Env ε}
      (h : Labelled M label w₀ s labels) (hs : M.Step s e s') (he : ∀ t, e ≠ .begin t) :
      Labelled M label w₀ s' labels

variable {M : Machine Res Val ε α World Tag Choice Env} {label : Tag → World → μ} {w₀ : World}
variable {s : State Res Val ε α World Tag Env} {labels : List μ}

/-- Every run can be accompanied so. -/
theorem Run.labelled {ok : State Res Val ε α World Tag Env → Event Tag Choice Env ε → Prop}
    (h : M.Run ok (.fresh w₀) s) : ∃ labels, M.Labelled label w₀ s labels := by
  induction h with
  | refl => exact ⟨[], .fresh⟩
  | tail _ _ hs ih =>
    obtain ⟨labels, h⟩ := ih
    cases hs with
    | begin hstart => exact ⟨_, .begin h hstart⟩
    | resume hi => exact ⟨labels, .other h (.resume hi) fun _ he => by cases he⟩
    | stop hi => exact ⟨labels, .other h (.stop hi) fun _ he => by cases he⟩
    | outside hx => exact ⟨labels, .other h (.outside hx) fun _ he => by cases he⟩

theorem Labelled.run (h : M.Labelled label w₀ s labels) : M.Run anyStep (.fresh w₀) s := by
  induction h with
  | fresh => exact .refl
  | begin _ hstart ih => exact .tail ih trivial (.begin hstart)
  | other _ hs _ ih => exact .tail ih trivial hs

theorem Labelled.length_eq (h : M.Labelled label w₀ s labels) :
    labels.length = s.threads.length := by
  induction h with
  | fresh => rfl
  | begin _ _ ih => simp [spawned, ih]
  | other _ hs he ih =>
    rw [ih]
    cases hs with
    | begin _ => exact absurd rfl (he _)
    | resume _ => simp [resumed]
    | stop _ => simp [halted]
    | outside _ => rfl

theorem Labelled.origin (h : M.Labelled label w₀ s labels) {i : Nat} {a : μ}
    (ha : labels[i]? = some a) :
    ∃ t w, a = label t w ∧ s.threads[i]?.map (·.tag) = some t := by
  induction h with
  | fresh => simp at ha
  | @begin s labels t w q h hstart ih =>
    rw [List.getElem?_append] at ha
    split at ha
    · obtain ⟨t', w', rfl, htag⟩ := ih ha
      exact ⟨t', w', rfl, Step.tag (.begin hstart) htag⟩
    · rename_i hlt
      obtain ⟨hi, rfl⟩ := List.getElem?_eq_some_iff.mp ha
      have hi : i = s.threads.length := by
        rw [List.length_singleton] at hi
        rw [← h.length_eq]
        omega
      refine ⟨t, s.world, by simp, ?_⟩
      simp [spawned, hi]
  | other _ hs _ ih =>
    obtain ⟨t, w, rfl, htag⟩ := ih ha
    exact ⟨t, w, rfl, hs.tag htag⟩

theorem Labelled.only {P : μ → Op → Prop}
    (begins : ∀ t w w' p, M.start t w = some (w', p) → p.Only (P (label t w)))
    (h : M.Labelled label w₀ s labels) {i : Nat} {tag : Tag} {p : Prog Res Val ε α}
    (hi : s.Live i tag p) : ∃ a, labels[i]? = some a ∧ p.Only (P a) := by
  induction h generalizing i tag p with
  | fresh => simp [State.Live, State.fresh] at hi
  | @begin s labels t w q h hstart ih =>
    rcases live_spawned hi with hi | ⟨rfl, _, rfl⟩
    · obtain ⟨a, ha, hp⟩ := ih hi
      exact ⟨a, by rw [List.getElem?_append_left (List.getElem?_eq_some_iff.mp ha).1, ha], hp⟩
    · refine ⟨label t s.world, ?_, (begins _ _ _ _ hstart).drain M.eval _⟩
      rw [← h.length_eq, List.getElem?_concat_length]
  | other _ hs he ih =>
    cases hs with
    | begin _ => exact absurd rfl (he _)
    | resume hlive =>
      rcases live_resumed hi with ⟨_, hi⟩ | ⟨rfl, _, rfl⟩
      · exact ih hi
      · obtain ⟨a, ha, hp⟩ := ih hlive
        exact ⟨a, ha, (hp.2 _).drain M.eval _⟩
    | stop _ => exact ih (live_halted hi).2
    | outside _ => exact ih hi

theorem Labelled.called_only {P : μ → Op → Prop}
    (begins : ∀ t w w' p, M.start t w = some (w', p) → p.Only (P (label t w)))
    (h : M.Labelled label w₀ s labels) {i : Nat} {op : Op} {reply : Option (Except ε (Res op))}
    {seen : Except ε (Res op)} (hm : Entry.called i op reply seen ∈ s.trace) :
    ∃ a, labels[i]? = some a ∧ P a op := by
  induction h with
  | fresh => simp [State.fresh] at hm
  | @begin s labels t w q h hstart ih =>
    rcases List.mem_append.mp hm with hm | hm
    · obtain ⟨a, ha, hP⟩ := ih hm
      exact ⟨a, by rw [List.getElem?_append_left (List.getElem?_eq_some_iff.mp ha).1, ha], hP⟩
    · cases List.mem_singleton.mp hm
  | other h hs he ih =>
    rcases hs.called hm with hm | ⟨tag, k, o, hi, rfl, rfl, _, _⟩
    · exact ih hm
    · obtain ⟨a, ha, hp⟩ := h.only begins hi
      exact ⟨a, ha, hp.1⟩

end Machine

/-! ## Where a label stands -/

/-- The threads with this label. -/
def labelledWith [BEq μ] (a : μ) (labels : List μ) : List Nat :=
  (labels.zipIdx.filter fun p => p.1 == a).map (·.2)

theorem mem_labelledWith [BEq μ] [LawfulBEq μ] {a : μ} {labels : List μ} {i : Nat} :
    i ∈ labelledWith a labels ↔ labels[i]? = some a := by
  rw [labelledWith, List.mem_map]
  constructor
  · intro h
    obtain ⟨⟨b, j⟩, hmem, rfl⟩ := h
    obtain ⟨hmem, hb⟩ := List.mem_filter.mp hmem
    rw [← eq_of_beq hb]
    exact List.mem_zipIdx_iff_getElem?.mp hmem
  · intro h
    exact ⟨(a, i), List.mem_filter.mpr ⟨List.mem_zipIdx_iff_getElem?.mpr h, by simp⟩, rfl⟩

theorem length_labelledWith [BEq μ] (a : μ) (labels : List μ) :
    (labelledWith a labels).length = labels.count a := by
  have hlabels : labels.zipIdx.map (·.1) = labels := List.zipIdx_map_fst 0 labels
  rw [labelledWith, List.length_map, ← List.countP_eq_length_filter]
  conv_rhs => rw [← hlabels]
  rw [List.count, List.countP_map]
  rfl

end Async
