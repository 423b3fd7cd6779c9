import CronHive.Async.Tally

/-!
# What a thread hears between its calls

The trace of a run has the awaited calls only. A `Recorder` also takes down the local effects of a
thread, such as the readings of its clock; it is carried along the events of the run.
-/

namespace Async

set_option autoImplicit false

structure Recorder {Op Loc : Type} (Res : Op → Type) (Val : Loc → Type) (ε σ : Type) where
  call : σ → (op : Op) → Except ε (Res op) → σ
  effect : σ → (l : Loc) → Val l → σ

variable {Op Loc : Type} {Res : Op → Type} {Val : Loc → Type} {ε α β σ : Type}
variable (R : Recorder Res Val ε σ)

namespace Prog

/-- Whatever the program hears, it ends with a record that is `Q`. -/
def records : Prog Res Val ε α → σ → (σ → Except ε α → Prop) → Prop
  | .ret a, st, Q => Q st (.ok a)
  | .fail e, st, Q => Q st (.error e)
  | .await op k, st, Q => ∀ r, (k r).records (R.call st op r) Q
  | .sync l k, st, Q => ∀ v, (k v).records (R.effect st l v) Q

@[simp] theorem records_ret (a : α) (st : σ) (Q : σ → Except ε α → Prop) :
    (.ret a : Prog Res Val ε α).records R st Q ↔ Q st (.ok a) := Iff.rfl

@[simp] theorem records_fail (e : ε) (st : σ) (Q : σ → Except ε α → Prop) :
    (.fail e : Prog Res Val ε α).records R st Q ↔ Q st (.error e) := Iff.rfl

@[simp] theorem records_effect (l : Loc) (st : σ) (Q : σ → Except ε (Val l) → Prop) :
    (effect l : Prog Res Val ε (Val l)).records R st Q ↔ ∀ v, Q (R.effect st l v) (.ok v) :=
  Iff.rfl

@[simp] theorem records_perform (op : Op) (st : σ) (Q : σ → Except ε (Res op) → Prop) :
    (perform op : Prog Res Val ε (Res op)).records R st Q ↔ ∀ r, Q (R.call st op r) r := by
  refine forall_congr' fun r => ?_
  cases r <;> exact Iff.rfl

@[simp] theorem records_bind (p : Prog Res Val ε α) (f : α → Prog Res Val ε β) (st : σ)
    (Q : σ → Except ε β → Prop) : (p.bind f).records R st Q ↔
      p.records R st fun st' r => match r with
        | .ok a => (f a).records R st' Q
        | .error e => Q st' (.error e) := by
  induction p generalizing st with
  | ret a => exact Iff.rfl
  | fail e => exact Iff.rfl
  | await op k ih => exact forall_congr' fun r => ih r _
  | sync l k ih => exact forall_congr' fun v => ih v _

@[simp] theorem records_tryCatch (p : Prog Res Val ε α) (h : ε → Prog Res Val ε α) (st : σ)
    (Q : σ → Except ε α → Prop) : (p.tryCatch h).records R st Q ↔
      p.records R st fun st' r => match r with
        | .ok a => Q st' (.ok a)
        | .error e => (h e).records R st' Q := by
  induction p generalizing st with
  | ret a => exact Iff.rfl
  | fail e => exact Iff.rfl
  | await op k ih => exact forall_congr' fun r => ih r _
  | sync l k ih => exact forall_congr' fun v => ih v _

@[simp] theorem records_ite (c : Prop) [Decidable c] (p q : Prog Res Val ε α) (st : σ)
    (Q : σ → Except ε α → Prop) :
    (if c then p else q).records R st Q ↔ if c then p.records R st Q else q.records R st Q := by
  split <;> exact Iff.rfl

variable {R}

theorem records_mono {p : Prog Res Val ε α} {st : σ} {Q Q' : σ → Except ε α → Prop}
    (weaken : ∀ st' r, Q st' r → Q' st' r) (hp : p.records R st Q) : p.records R st Q' := by
  induction p generalizing st with
  | ret a => exact weaken _ _ hp
  | fail e => exact weaken _ _ hp
  | await op k ih => exact fun r => ih r (hp r)
  | sync l k ih => exact fun v => ih v (hp v)

theorem records_trivial (p : Prog Res Val ε α) (st : σ) : p.records R st fun _ _ => True := by
  induction p generalizing st with
  | ret a => trivial
  | fail e => trivial
  | await op k ih => exact fun r => ih r _
  | sync l k ih => exact fun v => ih v _

section Drain

variable (R)
variable {World : Type} (eval : (l : Loc) → World → World × Val l)

/-- The record once the program has run up to its next call. -/
def heard : Prog Res Val ε α → σ → World → σ
  | .sync l k, st, w => (k (eval l w).2).heard (R.effect st l (eval l w).2) (eval l w).1
  | .ret _, st, _ => st
  | .fail _, st, _ => st
  | .await _ _, st, _ => st

variable {R}

theorem records_drain {p : Prog Res Val ε α} {st : σ} {Q : σ → Except ε α → Prop}
    (hp : p.records R st Q) (w : World) :
    (p.drain eval w).2.records R (p.heard R eval st w) Q := by
  induction p generalizing st w with
  | ret a => exact hp
  | fail e => exact hp
  | await op k _ => exact hp
  | sync l k ih => exact ih _ (hp _) _

/-- What a recorder takes down of calls only, local effects do not change. -/
theorem map_heard {τ : Type} {f : σ → τ} (effect : ∀ st l v, f (R.effect st l v) = f st)
    (p : Prog Res Val ε α) (st : σ) (w : World) : f (p.heard R eval st w) = f st := by
  induction p generalizing st w with
  | ret a => rfl
  | fail e => rfl
  | await op k _ => rfl
  | sync l k ih => exact (ih _ _ _).trans (effect _ _ _)

end Drain

end Prog

variable {World Tag Choice Env : Type}

namespace Machine

variable (M : Machine Res Val ε α World Tag Choice Env)

/-- The record of thread `i` after one more event. -/
def hears (i : Nat) (st : σ) (s : State Res Val ε α World Tag Env) :
    Event Tag Choice Env ε → σ
  | .begin t =>
      if i = s.threads.length then
        match M.start t s.world with
        | some (w, p) => p.heard R M.eval st w
        | none => st
      else st
  | .resume j o =>
      if j = i then
        match s.threads[i]? with
        | some ⟨_, some (.await op k)⟩ =>
            let a := M.attend op o s.world
            (k a.2.2).heard R M.eval (R.call st op a.2.2) a.1
        | _ => st
      else st
  | _ => st

/-- The record of thread `i` after the events of a run. -/
def recordOf (i : Nat) (st : σ) (s : State Res Val ε α World Tag Env) :
    List (Event Tag Choice Env ε) → σ
  | [] => st
  | e :: es =>
      match M.step s e with
      | some s' => recordOf i (M.hears R i st s e) s' es
      | none => st

variable {M R}
variable {s₀ s s' : State Res Val ε α World Tag Env} {e : Event Tag Choice Env ε}
  {es : List (Event Tag Choice Env ε)} {i : Nat} {st : σ}

theorem recordOf_append_singleton (h : M.run s₀ es = some s) (hs : M.Step s e s') :
    M.recordOf R i st s₀ (es ++ [e]) = M.hears R i (M.recordOf R i st s₀ es) s e := by
  induction es generalizing s₀ st with
  | nil =>
    cases h
    simp [recordOf, step_iff.mpr hs]
  | cons e₁ es ih =>
    obtain ⟨s₁, h₁, h⟩ := Option.bind_eq_some_iff.mp h
    simp only [List.cons_append, recordOf, h₁]
    exact ih h

/-! ## One step of a record -/

theorem hears_begun {t : Tag} {w : World} {p : Prog Res Val ε α}
    (h : M.start t s.world = some (w, p)) :
    M.hears R s.threads.length st s (.begin t) = p.heard R M.eval st w := by
  simp only [hears, if_true, h]

theorem hears_resumed {tag : Tag} {op : Op} {k : Except ε (Res op) → Prog Res Val ε α}
    {o : Outcome Choice ε} (h : s.Live i tag (.await op k)) :
    M.hears R i st s (.resume i o) = (k (M.attend op o s.world).2.2).heard R M.eval
      (R.call st op (M.attend op o s.world).2.2) (M.attend op o s.world).1 := by
  rw [State.Live] at h
  simp only [hears, if_true, h]

/-- A thread hears nothing of the steps of others. -/
theorem hears_other {tag : Tag} {p : Prog Res Val ε α} (hi : s.Live i tag p)
    (hs : M.Step s e s') (hne : ∀ o, e ≠ .resume i o) : M.hears R i st s e = st := by
  cases hs with
  | begin h =>
    have hlt : i < s.threads.length := State.Alive.lt ⟨tag, p, hi⟩
    simp only [hears, if_neg (Nat.ne_of_lt hlt)]
  | @resume j tag' op k o h =>
    have hj : j ≠ i := by
      intro hj
      subst hj
      exact hne o rfl
    simp only [hears, if_neg hj]
  | stop h => rfl
  | outside h => rfl

/-- A thread that has not begun has heard nothing. -/
theorem recordOf_of_absent {w₀ : World} (h : M.run (.fresh w₀) es = some s)
    (hi : s.threads.length ≤ i) : M.recordOf R i st (.fresh w₀) es = st := by
  revert hi
  apply run_induction (M := M) (I := fun es s => s.threads.length ≤ i →
    M.recordOf R i st (.fresh w₀) es = st) _ _ h
  · intro _
    rfl
  · intro es s e s' hrun ih hs hi
    rw [recordOf_append_singleton hrun hs]
    cases hs with
    | begin h =>
      simp only [spawned, List.length_append, List.length_singleton] at hi
      have hne : i ≠ s.threads.length := by omega
      simp only [hears, if_neg hne]
      exact ih (by omega)
    | @resume j tag op k o h =>
      have hj : j < s.threads.length := State.Alive.lt ⟨tag, _, h⟩
      simp only [resumed, List.length_set] at hi
      have hne : j ≠ i := by omega
      simp only [hears, if_neg hne]
      exact ih hi
    | stop h =>
      simp only [halted, List.length_set] at hi
      exact ih hi
    | outside h => exact ih hi

/-- What a program says of its record when it begins, the rest of it says of what the thread has
heard. -/
theorem records_of_run {w₀ : World} {Q : Tag → σ → Except ε α → Prop}
    (begins : ∀ t w w' p, M.start t w = some (w', p) → p.records R st (Q t))
    (h : M.run (.fresh w₀) es = some s) {tag : Tag} {p : Prog Res Val ε α} (hi : s.Live i tag p) :
    p.records R (M.recordOf R i st (.fresh w₀) es) (Q tag) := by
  revert hi
  revert tag p
  apply run_induction (M := M) (I := fun es s => ∀ tag p, s.Live i tag p →
    p.records R (M.recordOf R i st (.fresh w₀) es) (Q tag)) _ _ h
  · intro tag p hi
    simp [State.Live, State.fresh] at hi
  · intro es s e s' hrun ih hs tag p hi
    rw [recordOf_append_singleton hrun hs]
    cases hs with
    | @begin t w q h =>
      rcases live_spawned hi with hi | ⟨rfl, rfl, rfl⟩
      · rw [hears_other hi (.begin h) (fun o heq => by cases heq)]
        exact ih _ _ hi
      · rw [hears_begun h, recordOf_of_absent hrun (Nat.le_refl _)]
        exact Prog.records_drain M.eval (begins _ _ _ _ h) _
    | @resume j tag' op k o h =>
      rcases live_resumed hi with ⟨hne, hi⟩ | ⟨rfl, rfl, rfl⟩
      · rw [hears_other hi (.resume h) (fun o' heq => hne (Event.resume.inj heq).1.symm)]
        exact ih _ _ hi
      · rw [hears_resumed h]
        exact Prog.records_drain M.eval (ih _ _ h _) _
    | stop h => exact ih _ _ (live_halted hi).2
    | outside h => exact ih _ _ hi

/-- A record of the calls alone is the state of a monitor. -/
theorem map_recordOf {τ : Type} {m : Monitor Res ε τ} {f : σ → τ} {w₀ : World}
    (call : ∀ st op r, f (R.call st op r) = m.next (f st) op r)
    (effect : ∀ st l v, f (R.effect st l v) = f st) (h : M.run (.fresh w₀) es = some s) :
    f (M.recordOf R i st (.fresh w₀) es) = m.stateAt i (f st) s.trace := by
  apply run_induction (M := M) (I := fun es s =>
    f (M.recordOf R i st (.fresh w₀) es) = m.stateAt i (f st) s.trace) _ _ h
  · rfl
  · intro es s e s' hrun ih hs
    rw [recordOf_append_singleton hrun hs]
    cases hs with
    | @begin t w p h =>
      simp only [spawned, Monitor.stateAt_append, Monitor.observe]
      by_cases hi : i = s.threads.length
      · subst hi
        rw [hears_begun h, Prog.map_heard M.eval effect]
        exact ih
      · simp only [hears, if_neg hi]
        exact ih
    | @resume j tag op k o h =>
      simp only [resumed, Monitor.stateAt_append, Monitor.observe]
      by_cases hj : j = i
      · subst hj
        rw [hears_resumed h, Prog.map_heard M.eval effect, call, ih, if_pos rfl]
      · simp only [hears, if_neg hj]
        exact ih
    | stop h =>
      simp only [halted, Monitor.stateAt_append, Monitor.observe]
      exact ih
    | outside h =>
      simp only [moved, Monitor.stateAt_append, Monitor.observe]
      exact ih

end Machine

end Async
