import CronHive.Async.Solo

/-!
# One task after another

A task that is taken from its beginning to its end while nobody else moves changes the world as
its program does on its own. Tasks taken so in turn make a run of the machine, whatever its threads
are in the middle of.
-/

namespace Async

set_option autoImplicit false

variable {Op Loc : Type} {Res : Op → Type} {Val : Loc → Type} {ε α β : Type}
variable {World Tag Choice Env : Type}

/-- A task with what its calls come to, or a move from outside. -/
inductive Turn (Op ε Tag Choice Env : Type) where
  | task (t : Tag) (os : Op → Outcome Choice ε)
  | outside (x : Env)

namespace Machine

section Turns

variable (M : Machine Res Val ε α World Tag Choice Env)

def turn : Turn Op ε Tag Choice Env → World → Option World
  | .task t os, w => (M.start t w).map fun a => (M.solo os a.2 a.1).1
  | .outside x, w => M.outside x w

def turns : List (Turn Op ε Tag Choice Env) → World → Option World
  | [], w => some w
  | a :: l, w => (M.turn a w).bind (turns l)

theorem turns_append (l l' : List (Turn Op ε Tag Choice Env)) (w : World) :
    M.turns (l ++ l') w = (M.turns l w).bind (M.turns l') := by
  induction l generalizing w with
  | nil => rfl
  | cons a l ih =>
    simp only [List.cons_append, turns]
    cases M.turn a w with
    | none => rfl
    | some w' => exact ih w'

/-- The state after these turns: each task has run from its beginning to its end alone. -/
inductive TakesTurns : State Res Val ε α World Tag Env → List (Turn Op ε Tag Choice Env) →
    State Res Val ε α World Tag Env → Prop where
  | nil (s : State Res Val ε α World Tag Env) : TakesTurns s [] s
  | task {s s₁ s₂ s' : State Res Val ε α World Tag Env} {t : Tag} {os : Op → Outcome Choice ε}
      {r : Except ε α} {l : List (Turn Op ε Tag Choice Env)} (hbegin : M.Step s (.begin t) s₁)
      (halone : M.Run (alone os s.threads.length) s₁ s₂)
      (hdone : s₂.Live s.threads.length t (.done r)) (hrest : TakesTurns s₂ l s') :
      TakesTurns s (.task t os :: l) s'
  | outside {s s₁ s' : State Res Val ε α World Tag Env} {x : Env}
      {l : List (Turn Op ε Tag Choice Env)} (hmove : M.Step s (.outside x) s₁)
      (hrest : TakesTurns s₁ l s') : TakesTurns s (.outside x :: l) s'

variable {M}
variable {l : List (Turn Op ε Tag Choice Env)} {s s' : State Res Val ε α World Tag Env} {w : World}

/-- Turns that can be taken make a run, from any state. -/
theorem takesTurns_of_turns (h : M.turns l s.world = some w) :
    ∃ s', M.TakesTurns s l s' ∧ s'.world = w := by
  induction l generalizing s with
  | nil =>
    cases h
    exact ⟨s, .nil s, rfl⟩
  | cons a l ih =>
    obtain ⟨w₁, hturn, hrest⟩ := Option.bind_eq_some_iff.mp h
    cases a with
    | task t os =>
      obtain ⟨⟨w₂, p⟩, hstart, rfl⟩ := Option.map_eq_some_iff.mp hturn
      obtain ⟨s₁, s₂, hbegin, hrun, hworld, hdone⟩ : ∃ s₁ s₂, M.Step s (.begin t) s₁ ∧
          M.Run (alone os s.threads.length) s₁ s₂ ∧ s₂.world = (M.solo os p w₂).1 ∧
            s₂.Live s.threads.length t (.done (M.solo os p w₂).2) := begun_alone hstart
      obtain ⟨s', hs', hworld'⟩ := ih (s := s₂) (by rwa [hworld])
      exact ⟨s', .task hbegin hrun hdone hs', hworld'⟩
    | outside x =>
      have hmove : M.Step s (.outside x) (moved s x w₁) := .outside hturn
      obtain ⟨s', hs', hworld'⟩ := ih (s := moved s x w₁) hrest
      exact ⟨s', .outside hmove hs', hworld'⟩

theorem TakesTurns.run (h : M.TakesTurns s l s') : M.Run anyStep s s' := by
  induction h with
  | nil s => exact .refl
  | task hbegin halone _ _ ih =>
    exact .head trivial hbegin ((halone.mono fun _ _ _ => trivial).trans ih)
  | outside hmove _ ih => exact .head trivial hmove ih

end Turns

/-! ## What a program on its own ends with -/

section Ends

variable (M : Machine Res Val ε α World Tag Choice Env) (os : Op → Outcome Choice ε)

def Ends (p : Prog Res Val ε β) (w : World) (Q : World → Except ε β → Prop) : Prop :=
  Q (M.solo os p w).1 (M.solo os p w).2

variable {M os} {γ : Type} {p : Prog Res Val ε β} {w : World}

theorem Ends.mono {Q Q' : World → Except ε β → Prop} (h : M.Ends os p w Q)
    (hq : ∀ w r, Q w r → Q' w r) : M.Ends os p w Q' := hq _ _ h

theorem Ends.bind {f : β → Prog Res Val ε γ} {Q : World → Except ε γ → Prop}
    {P : World → Except ε β → Prop} (h : M.Ends os p w P)
    (hok : ∀ w' b, P w' (.ok b) → M.Ends os (f b) w' Q)
    (herror : ∀ w' e, P w' (.error e) → Q w' (.error e)) : M.Ends os (p.bind f) w Q := by
  unfold Ends at h ⊢
  rw [solo_bind]
  rcases hsolo : M.solo os p w with ⟨w', e | b⟩
  · rw [hsolo] at h
    exact herror w' e h
  · rw [hsolo] at h
    exact hok w' b h

theorem Ends.tryCatch {handle : ε → Prog Res Val ε β} {Q P : World → Except ε β → Prop}
    (h : M.Ends os p w P) (hok : ∀ w' b, P w' (.ok b) → Q w' (.ok b))
    (herror : ∀ w' e, P w' (.error e) → M.Ends os (handle e) w' Q) :
    M.Ends os (p.tryCatch handle) w Q := by
  unfold Ends at h ⊢
  rw [solo_tryCatch]
  rcases hsolo : M.solo os p w with ⟨w', e | b⟩
  · rw [hsolo] at h
    exact herror w' e h
  · rw [hsolo] at h
    exact hok w' b h

end Ends

end Machine

end Async
