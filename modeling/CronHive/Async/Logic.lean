import CronHive.Async.Program

/-!
# Preconditions of asynchronous programs

A `Monitor` watches the awaited calls of one program: in a state `σ` it permits some
calls, admits some replies, and moves on with each reply. `wp` says that every call the
program can ever make is permitted as long as every reply is admitted, and what holds when
it ends. The rules below follow the do-notation, so that a specification is proved once for
each function and cited by its callers.
-/

namespace Async

set_option autoImplicit false

structure Monitor {Op : Type} (Res : Op → Type) (ε σ : Type) where
  permits : σ → Op → Prop
  admits : σ → (op : Op) → Except ε (Res op) → Prop
  next : σ → (op : Op) → Except ε (Res op) → σ

/-- A call and what its caller saw. -/
structure Answer {Op : Type} (Res : Op → Type) (ε : Type) where
  op : Op
  seen : Except ε (Res op)

/-- The monitor that writes every call down. -/
def Monitor.log {Op : Type} {Res : Op → Type} {ε : Type} : Monitor Res ε (List (Answer Res ε)) where
  permits _ _ := True
  admits _ _ _ := True
  next calls op seen := calls ++ [⟨op, seen⟩]

namespace Prog

variable {Op Loc : Type} {Res : Op → Type} {Val : Loc → Type} {ε α β σ : Type}
variable (m : Monitor Res ε σ)

def wp : Prog Res Val ε α → σ → (σ → Except ε α → Prop) → Prop
  | .ret a, st, Q => Q st (.ok a)
  | .fail e, st, Q => Q st (.error e)
  | .await op k, st, Q =>
      m.permits st op ∧ ∀ r, m.admits st op r → (k r).wp (m.next st op r) Q
  | .sync _ k, st, Q => ∀ v, (k v).wp st Q

@[simp] theorem wp_ret (a : α) (st : σ) (Q : σ → Except ε α → Prop) :
    (.ret a : Prog Res Val ε α).wp m st Q ↔ Q st (.ok a) := Iff.rfl

@[simp] theorem wp_fail (e : ε) (st : σ) (Q : σ → Except ε α → Prop) :
    (.fail e : Prog Res Val ε α).wp m st Q ↔ Q st (.error e) := Iff.rfl

theorem forall_except {P : Except ε α → Prop} :
    (∀ r, P r) ↔ (∀ a, P (.ok a)) ∧ ∀ e, P (.error e) := by
  constructor
  · exact fun h => ⟨fun a => h (.ok a), fun e => h (.error e)⟩
  · rintro ⟨hok, herror⟩ (e | a)
    · exact herror e
    · exact hok a

@[simp] theorem wp_effect (l : Loc) (st : σ) (Q : σ → Except ε (Val l) → Prop) :
    (effect l : Prog Res Val ε (Val l)).wp m st Q ↔ ∀ v, Q st (.ok v) := Iff.rfl

@[simp] theorem wp_perform (op : Op) (st : σ) (Q : σ → Except ε (Res op) → Prop) :
    (perform op : Prog Res Val ε (Res op)).wp m st Q ↔
      m.permits st op ∧ ∀ r, m.admits st op r → Q (m.next st op r) r := by
  refine and_congr_right fun _ => forall_congr' fun r => ?_
  cases r <;> exact Iff.rfl

@[simp] theorem wp_bind (p : Prog Res Val ε α) (f : α → Prog Res Val ε β) (st : σ)
    (Q : σ → Except ε β → Prop) : (p.bind f).wp m st Q ↔
      p.wp m st fun st' r => match r with
        | .ok a => (f a).wp m st' Q
        | .error e => Q st' (.error e) := by
  induction p generalizing st with
  | ret a => exact Iff.rfl
  | fail e => exact Iff.rfl
  | await op k ih =>
    exact and_congr_right fun _ => forall_congr' fun r => imp_congr_right fun _ => ih r _
  | sync l k ih => exact forall_congr' fun v => ih v st

@[simp] theorem wp_tryCatch (p : Prog Res Val ε α) (h : ε → Prog Res Val ε α) (st : σ)
    (Q : σ → Except ε α → Prop) : (p.tryCatch h).wp m st Q ↔
      p.wp m st fun st' r => match r with
        | .ok a => Q st' (.ok a)
        | .error e => (h e).wp m st' Q := by
  induction p generalizing st with
  | ret a => exact Iff.rfl
  | fail e => exact Iff.rfl
  | await op k ih =>
    exact and_congr_right fun _ => forall_congr' fun r => imp_congr_right fun _ => ih r _
  | sync l k ih => exact forall_congr' fun v => ih v st

@[simp] theorem wp_ite (c : Prop) [Decidable c] (p q : Prog Res Val ε α) (st : σ)
    (Q : σ → Except ε α → Prop) :
    (if c then p else q).wp m st Q ↔ if c then p.wp m st Q else q.wp m st Q := by
  split <;> exact Iff.rfl

variable {m}

/-- The consequence rule. -/
theorem wp_mono {p : Prog Res Val ε α} {st : σ} {Q Q' : σ → Except ε α → Prop}
    (weaken : ∀ st' r, Q st' r → Q' st' r) (hp : p.wp m st Q) : p.wp m st Q' := by
  induction p generalizing st with
  | ret a => exact weaken _ _ hp
  | fail e => exact weaken _ _ hp
  | await op k ih => exact ⟨hp.1, fun r hr => ih r (hp.2 r hr)⟩
  | sync l k ih => exact fun v => ih v (hp v)

/-- What a strict monitor permits, one that permits more and moves alike permits as well. -/
theorem wp_weaken {m' : Monitor Res ε σ} (permits : ∀ st op, m.permits st op → m'.permits st op)
    (admits : ∀ st op r, m'.admits st op r → m.admits st op r)
    (next : ∀ st op r, m'.next st op r = m.next st op r) {p : Prog Res Val ε α} {st : σ}
    {Q : σ → Except ε α → Prop} (hp : p.wp m st Q) : p.wp m' st Q := by
  induction p generalizing st with
  | ret a => exact hp
  | fail e => exact hp
  | await op k ih =>
    refine ⟨permits st op hp.1, fun r hr => ?_⟩
    rw [next]
    exact ih r (hp.2 r (admits st op r hr))
  | sync l k ih => exact fun v => ih v (hp v)

theorem wp_drain {World : Type} (eval : (l : Loc) → World → World × Val l)
    {p : Prog Res Val ε α} {st : σ} {Q : σ → Except ε α → Prop} (hp : p.wp m st Q)
    (w : World) : (drain eval p w).2.wp m st Q := by
  induction p generalizing w with
  | ret a => exact hp
  | fail e => exact hp
  | await op k _ => exact hp
  | sync l k ih => exact ih _ (hp _) _

theorem wp_log (p : Prog Res Val ε α) (calls : List (Answer Res ε)) :
    p.wp Monitor.log calls fun _ _ => True := by
  induction p generalizing calls with
  | ret a => trivial
  | fail e => trivial
  | await op k ih => exact ⟨trivial, fun r _ => ih r _⟩
  | sync l k ih => exact fun v => ih v calls

/-! ## Footprints -/

/-- Every call the program can ever make satisfies `P`. -/
def Only (P : Op → Prop) : Prog Res Val ε α → Prop
  | .ret _ => True
  | .fail _ => True
  | .await op k => P op ∧ ∀ r, (k r).Only P
  | .sync _ k => ∀ v, (k v).Only P

variable {P : Op → Prop}

theorem only_ret (a : α) : (.ret a : Prog Res Val ε α).Only P := trivial

theorem only_fail (e : ε) : (.fail e : Prog Res Val ε α).Only P := trivial

theorem only_perform {op : Op} (h : P op) :
    (perform op : Prog Res Val ε (Res op)).Only P := by
  refine ⟨h, fun r => ?_⟩
  cases r <;> trivial

theorem only_effect (l : Loc) : (effect l : Prog Res Val ε (Val l)).Only P := fun _ => trivial

theorem Only.bind {p : Prog Res Val ε α} {f : α → Prog Res Val ε β} (hp : p.Only P)
    (hf : ∀ a, (f a).Only P) : (p.bind f).Only P := by
  induction p with
  | ret a => exact hf a
  | fail e => trivial
  | await op k ih => exact ⟨hp.1, fun r => ih r (hp.2 r)⟩
  | sync l k ih => exact fun v => ih v (hp v)

theorem Only.tryCatch {p : Prog Res Val ε α} {h : ε → Prog Res Val ε α} (hp : p.Only P)
    (hh : ∀ e, (h e).Only P) : (p.tryCatch h).Only P := by
  induction p with
  | ret a => trivial
  | fail e => exact hh e
  | await op k ih => exact ⟨hp.1, fun r => ih r (hp.2 r)⟩
  | sync l k ih => exact fun v => ih v (hp v)

theorem Only.mono {P' : Op → Prop} {p : Prog Res Val ε α} (hp : p.Only P)
    (weaken : ∀ op, P op → P' op) : p.Only P' := by
  induction p with
  | ret a => trivial
  | fail e => trivial
  | await op k ih => exact ⟨weaken op hp.1, fun r => ih r (hp.2 r)⟩
  | sync l k ih => exact fun v => ih v (hp v)

theorem Only.drain {World : Type} (eval : (l : Loc) → World → World × Val l)
    {p : Prog Res Val ε α} (hp : p.Only P) (w : World) : (p.drain eval w).2.Only P := by
  induction p generalizing w with
  | ret a => trivial
  | fail e => trivial
  | await op k _ => exact hp
  | sync l k ih => exact ih _ (hp _) _

/-- A program whose calls a monitor permits and ignores leaves it where it is. -/
theorem Only.wp {p : Prog Res Val ε α} (hp : p.Only P)
    {st : σ} (ignores : ∀ op, P op → m.permits st op ∧ ∀ r, m.next st op r = st) :
    p.wp m st fun st' _ => st' = st := by
  induction p with
  | ret a => rfl
  | fail e => rfl
  | await op k ih =>
    refine ⟨(ignores op hp.1).1, fun r _ => ?_⟩
    rw [(ignores op hp.1).2 r]
    exact ih r (hp.2 r)
  | sync l k ih => exact fun v => ih v (hp v)

theorem Only.wp_permitted {p : Prog Res Val ε α} (hp : p.Only P)
    (permitted : ∀ st op, P op → m.permits st op) (st : σ) : p.wp m st fun _ _ => True := by
  induction p generalizing st with
  | ret a => trivial
  | fail e => trivial
  | await op k ih => exact ⟨permitted st op hp.1, fun r _ => ih r (hp.2 r) _⟩
  | sync l k ih => exact fun v => ih v (hp v) st

/-! ## Transcripts -/

/-- The program ends with `r` after seeing exactly these answers. -/
inductive Ran : Prog Res Val ε α → List (Answer Res ε) → Except ε α → Prop where
  | ret (a : α) : Ran (.ret a) [] (.ok a)
  | fail (e : ε) : Ran (.fail e) [] (.error e)
  | await {op : Op} {k : Except ε (Res op) → Prog Res Val ε α} {seen : Except ε (Res op)}
      {calls : List (Answer Res ε)} {r : Except ε α} (h : Ran (k seen) calls r) :
      Ran (.await op k) (⟨op, seen⟩ :: calls) r
  | sync {l : Loc} {k : Val l → Prog Res Val ε α} {v : Val l} {calls : List (Answer Res ε)}
      {r : Except ε α} (h : Ran (k v) calls r) : Ran (.sync l k) calls r

/-- A monitor that writes every call down has the program's transcript at the end. -/
theorem Only.wp_ran {m : Monitor Res ε (List (Answer Res ε))} {p : Prog Res Val ε α}
    (hp : p.Only P) (permitted : ∀ calls op, P op → m.permits calls op)
    (logs : ∀ calls op r, m.next calls op r = calls ++ [⟨op, r⟩]) (calls : List (Answer Res ε)) :
    p.wp m calls fun calls' r => ∃ run, calls' = calls ++ run ∧ p.Ran run r := by
  induction p generalizing calls with
  | ret a => exact ⟨[], (List.append_nil calls).symm, .ret a⟩
  | fail e => exact ⟨[], (List.append_nil calls).symm, .fail e⟩
  | await op k ih =>
    refine ⟨permitted calls op hp.1, fun seen _ => ?_⟩
    refine wp_mono ?_ (ih seen (hp.2 seen) _)
    rintro calls' r ⟨run, rfl, hran⟩
    exact ⟨⟨op, seen⟩ :: run, by simp [logs], .await hran⟩
  | sync l k ih =>
    intro v
    refine wp_mono ?_ (ih v (hp v) calls)
    rintro calls' r ⟨run, hcalls, hran⟩
    exact ⟨run, hcalls, .sync hran⟩

end Prog

end Async
