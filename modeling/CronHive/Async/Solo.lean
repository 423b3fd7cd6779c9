import CronHive.Async.Interleaving

/-!
# A program on its own

`solo` runs a program to its end while nobody else takes a step; `os` says how each call comes
out. A thread of the machine that is left alone ends as `solo` says.
-/

namespace Async

set_option autoImplicit false

variable {Op Loc : Type} {Res : Op → Type} {Val : Loc → Type} {ε α β γ : Type}
variable {World Tag Choice Env : Type}

/-- The program of a function that has returned or thrown. -/
def Prog.done : Except ε α → Prog Res Val ε α
  | .ok a => .ret a
  | .error e => .fail e

namespace Machine

section Solo

variable (M : Machine Res Val ε γ World Tag Choice Env) (os : Op → Outcome Choice ε)

def solo : Prog Res Val ε α → World → World × Except ε α
  | .ret a, w => (w, .ok a)
  | .fail e, w => (w, .error e)
  | .await op k, w => solo (k (M.attend op (os op) w).2.2) (M.attend op (os op) w).1
  | .sync l k, w => solo (k (M.eval l w).2) (M.eval l w).1

@[simp] theorem solo_ret (a : α) (w : World) :
    M.solo os (.ret a : Prog Res Val ε α) w = (w, .ok a) := rfl

@[simp] theorem solo_fail (e : ε) (w : World) :
    M.solo os (.fail e : Prog Res Val ε α) w = (w, .error e) := rfl

@[simp] theorem solo_perform (op : Op) (w : World) :
    M.solo os (Prog.perform op : Prog Res Val ε (Res op)) w =
      ((M.attend op (os op) w).1, (M.attend op (os op) w).2.2) := by
  simp only [Prog.perform, solo]
  cases (M.attend op (os op) w).2.2 with
  | ok a => rfl
  | error e => rfl

@[simp] theorem solo_bind (p : Prog Res Val ε α) (f : α → Prog Res Val ε β) (w : World) :
    M.solo os (p.bind f) w = match M.solo os p w with
      | (w', .ok a) => M.solo os (f a) w'
      | (w', .error e) => (w', .error e) := by
  induction p generalizing w with
  | ret a => rfl
  | fail e => rfl
  | await op k ih => exact ih _ _
  | sync l k ih => exact ih _ _

@[simp] theorem solo_tryCatch (p : Prog Res Val ε α) (h : ε → Prog Res Val ε α) (w : World) :
    M.solo os (p.tryCatch h) w = match M.solo os p w with
      | (w', .ok a) => (w', .ok a)
      | (w', .error e) => M.solo os (h e) w' := by
  induction p generalizing w with
  | ret a => rfl
  | fail e => rfl
  | await op k ih => exact ih _ _
  | sync l k ih => exact ih _ _

/-- The machine with a record beside its world, which every executed call is noted in. -/
def recorded {γ Rec : Type} (M : Machine Res Val ε γ World Tag Choice Env)
    (note : (op : Op) → Except ε (Res op) → Rec → Rec) :
    Machine Res Val ε γ (World × Rec) Tag Choice Env where
  exec op c w := (((M.exec op c w.1).1, note op (M.exec op c w.1).2 w.2), (M.exec op c w.1).2)
  eval l w := (((M.eval l w.1).1, w.2), (M.eval l w.1).2)
  start t w := (M.start t w.1).map fun a => ((a.1, w.2), a.2)
  outside x w := (M.outside x w.1).map fun w' => (w', w.2)

variable {Rec : Type} (note : (op : Op) → Except ε (Res op) → Rec → Rec)

theorem recorded_attend (op : Op) (o : Outcome Choice ε) (w : World × Rec) :
    ((M.recorded note).attend op o w).1.1 = (M.attend op o w.1).1 ∧
      ((M.recorded note).attend op o w).2 = (M.attend op o w.1).2 := by
  cases o with
  | answered c => exact ⟨rfl, rfl⟩
  | rejected e => exact ⟨rfl, rfl⟩
  | lost c e => exact ⟨rfl, rfl⟩

/-- The record changes nothing else. -/
theorem recorded_solo (p : Prog Res Val ε α) (w : World × Rec) :
    ((M.recorded note).solo os p w).1.1 = (M.solo os p w.1).1 ∧
      ((M.recorded note).solo os p w).2 = (M.solo os p w.1).2 := by
  induction p generalizing w with
  | ret a => exact ⟨rfl, rfl⟩
  | fail e => exact ⟨rfl, rfl⟩
  | await op k ih =>
    obtain ⟨hworld, hreply⟩ := M.recorded_attend note op (os op) w
    simp only [solo]
    rw [← hworld, ← hreply]
    exact ih _ _
  | sync l k ih => exact ih _ _

end Solo

section Alone

variable {M : Machine Res Val ε α World Tag Choice Env} {os : Op → Outcome Choice ε}

/-- Thread `i` goes on, and its call comes out as `os` says. -/
def alone (os : Op → Outcome Choice ε) (i : Nat) (s : State Res Val ε α World Tag Env)
    (e : Event Tag Choice Env ε) : Prop :=
  ∃ op, s.Awaits i op ∧ e = .resume i (os op)

theorem drained_alone {p : Prog Res Val ε α} {w : World} {i : Nat} {tag : Tag}
    {s : State Res Val ε α World Tag Env} (hi : s.Live i tag (p.drain M.eval w).2)
    (hw : s.world = (p.drain M.eval w).1) :
    ∃ s', M.Run (alone os i) s s' ∧ s'.world = (M.solo os p w).1 ∧
      s'.Live i tag (.done (M.solo os p w).2) := by
  induction p generalizing w s with
  | ret a => exact ⟨s, .refl, hw, hi⟩
  | fail e => exact ⟨s, .refl, hw, hi⟩
  | await op k ih =>
    have hworld : s.world = w := hw
    subst hworld
    obtain ⟨s', hrun, hworld', hdone⟩ := ih _ (live_resumed_self (o := os op) hi) rfl
    exact ⟨s', .head ⟨op, ⟨tag, k, hi⟩, rfl⟩ (.resume hi) hrun, hworld', hdone⟩
  | sync l k ih => exact ih _ hi hw

/-- A task that is left alone from its beginning ends as its program does on its own. -/
theorem begun_alone {t : Tag} {w : World} {p : Prog Res Val ε α}
    {s : State Res Val ε α World Tag Env} (h : M.start t s.world = some (w, p)) :
    ∃ s₁ s', M.Step s (.begin t) s₁ ∧ M.Run (alone os s.threads.length) s₁ s' ∧
      s'.world = (M.solo os p w).1 ∧
        s'.Live s.threads.length t (.done (M.solo os p w).2) := by
  obtain ⟨s', hrun, hworld, hdone⟩ : ∃ s',
      M.Run (alone os s.threads.length) (M.spawned s t w p) s' ∧
        s'.world = (M.solo os p w).1 ∧ s'.Live s.threads.length t (.done (M.solo os p w).2) :=
    drained_alone live_spawned_self rfl
  exact ⟨_, s', .begin h, hrun, hworld, hdone⟩

end Alone

end Machine

end Async
