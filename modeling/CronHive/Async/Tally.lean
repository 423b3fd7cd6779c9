import CronHive.Async.Interleaving
import Mathlib.Data.Nat.Count

/-!
# Counting over runs and threads

What the steps of a run add up to, and how many threads a monitor has at a given point. A
run is the list of its events here, so that several counts can be taken over one run.
-/

namespace Async

set_option autoImplicit false

variable {Op Loc : Type} {Res : Op → Type} {Val : Loc → Type} {ε α : Type}
variable {World Tag Choice Env : Type}

/-- A call with a reply as `P` says, as its caller saw it. -/
def Entry.sees (P : (op : Op) → Except ε (Res op) → Bool) : Entry Res ε Tag Env → Bool
  | .called _ op _ seen => P op seen
  | _ => false

namespace Machine

variable (M : Machine Res Val ε α World Tag Choice Env)

/-- The sum of `f` over the steps of a run. -/
def tally (f : State Res Val ε α World Tag Env → Event Tag Choice Env ε →
    State Res Val ε α World Tag Env → Nat) (s : State Res Val ε α World Tag Env) :
    List (Event Tag Choice Env ε) → Nat
  | [] => 0
  | e :: es =>
      match M.step s e with
      | some s' => f s e s' + tally f s' es
      | none => 0

/-- Every event of a run meets `P` in the state before it. -/
def Along (P : State Res Val ε α World Tag Env → Event Tag Choice Env ε → Prop)
    (s : State Res Val ε α World Tag Env) : List (Event Tag Choice Env ε) → Prop
  | [] => True
  | e :: es => P s e ∧ ∀ s', M.step s e = some s' → Along P s' es

variable {M}
variable {s₀ s s' : State Res Val ε α World Tag Env} {e : Event Tag Choice Env ε}
  {es : List (Event Tag Choice Env ε)}

theorem run_induction {I : List (Event Tag Choice Env ε) → State Res Val ε α World Tag Env → Prop}
    (nil : I [] s₀)
    (step : ∀ es s e s', M.run s₀ es = some s → I es s → M.Step s e s' → I (es ++ [e]) s')
    (h : M.run s₀ es = some s) : I es s := by
  induction es using List.reverseRecOn generalizing s with
  | nil =>
    cases h
    exact nil
  | append_singleton es e ih =>
    obtain ⟨s₁, h, hs⟩ := run_append_singleton.mp h
    exact step es s₁ e s h (ih h) hs

theorem tally_append_singleton (f : State Res Val ε α World Tag Env → Event Tag Choice Env ε →
    State Res Val ε α World Tag Env → Nat) (h : M.run s₀ es = some s) (hs : M.Step s e s') :
    M.tally f s₀ (es ++ [e]) = M.tally f s₀ es + f s e s' := by
  induction es generalizing s₀ with
  | nil =>
    cases h
    simp [tally, step_iff.mpr hs]
  | cons e₁ es ih =>
    obtain ⟨s₁, h₁, h⟩ := Option.bind_eq_some_iff.mp h
    simp only [List.cons_append, tally, h₁]
    rw [ih h, Nat.add_assoc]

theorem along_append_singleton
    {P : State Res Val ε α World Tag Env → Event Tag Choice Env ε → Prop}
    (h : M.run s₀ es = some s) : M.Along P s₀ (es ++ [e]) ↔ M.Along P s₀ es ∧ P s e := by
  induction es generalizing s₀ with
  | nil =>
    cases h
    simp [Along]
  | cons e₁ es ih =>
    obtain ⟨s₁, h₁, h⟩ := Option.bind_eq_some_iff.mp h
    simp only [List.cons_append, Along, h₁, Option.some.injEq, forall_eq', ih h, and_assoc]

/-- Counting the events that miss `P` finds none exactly if every event meets it. -/
theorem tally_eq_zero {P : State Res Val ε α World Tag Env → Event Tag Choice Env ε → Prop}
    [∀ s e, Decidable (P s e)] (h : M.run s₀ es = some s) :
    M.tally (fun s e _ => if P s e then 0 else 1) s₀ es = 0 ↔ M.Along P s₀ es := by
  apply run_induction (M := M) (I := fun es _ =>
    M.tally (fun s e _ => if P s e then 0 else 1) s₀ es = 0 ↔ M.Along P s₀ es) _ _ h
  · simp [tally, Along]
  · intro es s e s' hrun ih hs
    rw [tally_append_singleton _ hrun hs, along_append_singleton hrun, ← ih]
    by_cases hp : P s e
    · simp [hp]
    · simp [hp]

end Machine

/-! ## Threads at one point of their programs -/

theorem count_exchange {p q : Nat → Prop} [DecidablePred p] [DecidablePred q] {n i : Nat}
    (hi : i < n) (h : ∀ k, k ≠ i → (p k ↔ q k)) :
    Nat.count q n + (if p i then 1 else 0) = Nat.count p n + (if q i then 1 else 0) := by
  induction n with
  | zero => omega
  | succ n ih =>
    rw [Nat.count_succ, Nat.count_succ]
    by_cases hin : i = n
    · subst hin
      have hbelow (k : Nat) (hk : k < i) : p k ↔ q k := h k (by omega)
      have hcount : Nat.count q i = Nat.count p i := by
        apply le_antisymm
        · exact Nat.count_mono_left fun k hk => (hbelow k hk).mpr
        · exact Nat.count_mono_left fun k hk => (hbelow k hk).mp
      omega
    · have hlt : i < n := by omega
      have hsame : (if p n then 1 else 0) = if q n then 1 else 0 := by
        simp only [h n (Ne.symm hin)]
      have hcount := ih hlt
      omega

section Population

variable {σ : Type} (m : Monitor Res ε σ) (st : σ) (p : σ → Prop) [DecidablePred p]

/-- How many threads stand at a point that is `p` for their monitors. -/
def State.population (s : State Res Val ε α World Tag Env) : Nat :=
  Nat.count (fun i => p (m.stateAt i st s.trace)) s.threads.length

variable {M : Machine Res Val ε α World Tag Choice Env} {s s' : State Res Val ε α World Tag Env}

theorem State.population_eq_zero (s : State Res Val ε α World Tag Env) :
    s.population m st p = 0 ↔ ∀ i < s.threads.length, ¬ p (m.stateAt i st s.trace) :=
  Nat.count_iff_forall_not

theorem Machine.population_resumed {i : Nat} {tag : Tag} {op : Op}
    {k : Except ε (Res op) → Prog Res Val ε α} {o : Outcome Choice ε}
    (hi : s.Live i tag (.await op k)) :
    (M.resumed s i tag op k o).population m st p +
        (if p (m.stateAt i st s.trace) then 1 else 0) =
      s.population m st p +
        if p (m.next (m.stateAt i st s.trace) op (M.attend op o s.world).2.2) then 1 else 0 := by
  have hlt : i < s.threads.length := (List.getElem?_eq_some_iff.mp hi).1
  have hself : m.stateAt i st (M.resumed s i tag op k o).trace =
      m.next (m.stateAt i st s.trace) op (M.attend op o s.world).2.2 := by
    simp [resumed, Monitor.observe]
  have hother (n : Nat) (hn : n ≠ i) : p (m.stateAt n st s.trace) ↔
      p (m.stateAt n st (M.resumed s i tag op k o).trace) := by
    simp [resumed, Monitor.observe, Ne.symm hn]
  have hlength : (M.resumed s i tag op k o).threads.length = s.threads.length := by
    simp [resumed]
  rw [← hself, State.population, State.population, hlength]
  exact count_exchange hlt hother

theorem Machine.population_kept {i : Nat} {tag : Tag} {op : Op}
    {k : Except ε (Res op) → Prog Res Val ε α} {o : Outcome Choice ε}
    (hi : s.Live i tag (.await op k)) (hbefore : ¬ p (m.stateAt i st s.trace))
    (hafter : ¬ p (m.next (m.stateAt i st s.trace) op (M.attend op o s.world).2.2)) :
    (M.resumed s i tag op k o).population m st p = s.population m st p := by
  have hmoved := population_resumed m st p (M := M) (o := o) hi
  rw [if_neg hbefore, if_neg hafter] at hmoved
  exact hmoved

/-- A step that brings no reply moves nobody, and a thread that begins counts as at `st`. -/
theorem Machine.Step.population_eq {e : Event Tag Choice Env ε} (hs : M.Step s e s')
    (hn : s.Numbered) (hst : ¬ p st) (he : ∀ i o, e ≠ .resume i o) :
    s'.population m st p = s.population m st p := by
  cases hs with
  | @begin t w q h =>
    have hsame (i : Nat) : m.stateAt i st (M.spawned s t w q).trace = m.stateAt i st s.trace := by
      simp [spawned, Monitor.observe]
    have hnew : m.stateAt s.threads.length st s.trace = st :=
      m.stateAt_of_absent st fun op reply seen hm =>
        absurd (hn _ op reply seen hm) (Nat.lt_irrefl _)
    simp only [State.population, hsame]
    simp [spawned, Nat.count_succ, hnew, hst]
  | resume h => exact absurd rfl (he _ _)
  | stop h => simp [State.population, halted, Monitor.observe]
  | outside h => simp [State.population, moved, Monitor.observe]

/-- Two kinds of replies, one that brings a thread to the points `p` and one that takes it away
again: the first have been seen as often as the second, but for the threads that stand there. -/
theorem Machine.Run.balance {ok : State Res Val ε α World Tag Env → Event Tag Choice Env ε → Prop}
    {w₀ : World} {A B : (op : Op) → Except ε (Res op) → Bool} (hst : ¬ p st)
    (moves : ∀ (s : State Res Val ε α World Tag Env) i tag op k o, M.Run ok (.fresh w₀) s →
      ok s (.resume i o) → s.Live i tag (.await op k) →
      (if A op (M.attend op o s.world).2.2 then 1 else 0) +
          (if p (m.stateAt i st s.trace) then 1 else 0) =
        (if B op (M.attend op o s.world).2.2 then 1 else 0) +
          if p (m.next (m.stateAt i st s.trace) op (M.attend op o s.world).2.2) then 1 else 0)
    (h : M.Run ok (.fresh w₀) s) :
    s.trace.countP (Entry.sees A) = s.trace.countP (Entry.sees B) + s.population m st p := by
  have quiet {s s' : State Res Val ε α World Tag Env} {e : Event Tag Choice Env ε}
      (hs : M.Step s e s') (hn : s.Numbered) (he : ∀ i o, e ≠ .resume i o)
      (hsees : ∀ P : (op : Op) → Except ε (Res op) → Bool,
        s'.trace.countP (Entry.sees P) = s.trace.countP (Entry.sees P))
      (ih : s.trace.countP (Entry.sees A) =
        s.trace.countP (Entry.sees B) + s.population m st p) :
      s'.trace.countP (Entry.sees A) = s'.trace.countP (Entry.sees B) + s'.population m st p := by
    rw [hsees, hsees, hs.population_eq m st p hn hst he]
    exact ih
  refine h.keeps (I := fun s => s.trace.countP (Entry.sees A) =
    s.trace.countP (Entry.sees B) + s.population m st p) rfl fun s e s' hr ih hok hs => ?_
  cases hs with
  | begin h =>
    refine quiet (.begin h) hr.numbered (fun _ _ he => by cases he) (fun P => ?_) ih
    simp [spawned, List.countP_append, Entry.sees]
  | @resume i tag op k o hi =>
    have hmoved := population_resumed m st p (M := M) (o := o) hi
    have hcalls := moves s i tag op k o hr hok hi
    have hsees (P : (op : Op) → Except ε (Res op) → Bool) :
        (M.resumed s i tag op k o).trace.countP (Entry.sees P) =
          s.trace.countP (Entry.sees P) + if P op (M.attend op o s.world).2.2 then 1 else 0 := by
      by_cases hP : P op (M.attend op o s.world).2.2 = true
      · simp [resumed, List.countP_append, Entry.sees, hP]
      · simp [resumed, List.countP_append, Entry.sees, hP]
    rw [hsees, hsees]
    omega
  | @stop i tag op k hi =>
    refine quiet (.stop hi) hr.numbered (fun _ _ he => by cases he) (fun P => ?_) ih
    simp [halted, List.countP_append, Entry.sees]
  | outside h =>
    refine quiet (.outside h) hr.numbered (fun _ _ he => by cases he) (fun P => ?_) ih
    simp [moved, List.countP_append, Entry.sees]

end Population

end Async
