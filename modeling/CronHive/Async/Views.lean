import CronHive.Async.Interleaving

/-!
# Programs seen through a view

A view is what one party relies on in the shared world: `shows w v` says that the world `w`
looks like `v`. A program that takes every world that looks like `v` through its calls to
one that looks like a `v'` with `Q v'` does so under any interference that the view does not
notice. `admits` restricts what the environment chooses for the party's own calls, and
`rests` is what the view must be like whenever the program waits.
-/

namespace Async

set_option autoImplicit false

variable {Op Loc : Type} {Res : Op → Type} {Val : Loc → Type} {ε α β : Type}
variable {World Tag Choice Env V : Type}

variable (M : Machine Res Val ε α World Tag Choice Env) (looks : World → V → Prop)
variable (admits : Op → Choice → Prop) (rests : V → Prop)

namespace Prog

variable (exec : (op : Op) → Choice → World → World × Except ε (Res op))
variable (eval : (l : Loc) → World → World × Val l)

/-- The weakest precondition over views. -/
def wpView : Prog Res Val ε α → V → (V → Except ε α → Prop) → Prop
  | .ret a, v, Q => Q v (.ok a)
  | .fail e, v, Q => Q v (.error e)
  | .await op k, v, Q => rests v ∧ ∀ w c, looks w v → admits op c →
      ∃ v', looks (exec op c w).1 v' ∧ (k (exec op c w).2).wpView v' Q
  | .sync l k, v, Q => ∀ w, looks w v →
      ∃ v', looks (eval l w).1 v' ∧ (k (eval l w).2).wpView v' Q

variable {looks admits rests exec eval}

theorem wpView_mono {p : Prog Res Val ε α} {v : V} {Q Q' : V → Except ε α → Prop}
    (weaken : ∀ v r, Q v r → Q' v r) (h : p.wpView looks admits rests exec eval v Q) :
    p.wpView looks admits rests exec eval v Q' := by
  induction p generalizing v with
  | ret a => exact weaken _ _ h
  | fail e => exact weaken _ _ h
  | await op k ih =>
    refine ⟨h.1, fun w c hw hc => ?_⟩
    obtain ⟨v', hv', hk⟩ := h.2 w c hw hc
    exact ⟨v', hv', ih _ hk⟩
  | sync l k ih =>
    intro w hw
    obtain ⟨v', hv', hk⟩ := h w hw
    exact ⟨v', hv', ih _ hk⟩

theorem wpView_bind {p : Prog Res Val ε α} {f : α → Prog Res Val ε β} {v : V}
    {Q : V → Except ε β → Prop}
    (h : p.wpView looks admits rests exec eval v fun v' r => match r with
      | .ok a => (f a).wpView looks admits rests exec eval v' Q
      | .error e => Q v' (.error e)) : (p.bind f).wpView looks admits rests exec eval v Q := by
  induction p generalizing v with
  | ret a => exact h
  | fail e => exact h
  | await op k ih =>
    refine ⟨h.1, fun w c hw hc => ?_⟩
    obtain ⟨v', hv', hk⟩ := h.2 w c hw hc
    exact ⟨v', hv', ih _ hk⟩
  | sync l k ih =>
    intro w hw
    obtain ⟨v', hv', hk⟩ := h w hw
    exact ⟨v', hv', ih _ hk⟩

theorem wpView_tryCatch {p : Prog Res Val ε α} {f : ε → Prog Res Val ε α} {v : V}
    {Q : V → Except ε α → Prop}
    (h : p.wpView looks admits rests exec eval v fun v' r => match r with
      | .ok a => Q v' (.ok a)
      | .error e => (f e).wpView looks admits rests exec eval v' Q) :
    (p.tryCatch f).wpView looks admits rests exec eval v Q := by
  induction p generalizing v with
  | ret a => exact h
  | fail e => exact h
  | await op k ih =>
    refine ⟨h.1, fun w c hw hc => ?_⟩
    obtain ⟨v', hv', hk⟩ := h.2 w c hw hc
    exact ⟨v', hv', ih _ hk⟩
  | sync l k ih =>
    intro w hw
    obtain ⟨v', hv', hk⟩ := h w hw
    exact ⟨v', hv', ih _ hk⟩

theorem wpView_perform {op : Op} {v : V} {Q : V → Except ε (Res op) → Prop} (hv : rests v)
    (h : ∀ w c, looks w v → admits op c →
      ∃ v', looks (exec op c w).1 v' ∧ Q v' (exec op c w).2) :
    (perform op : Prog Res Val ε (Res op)).wpView looks admits rests exec eval v Q := by
  refine ⟨hv, fun w c hw hc => ?_⟩
  obtain ⟨v', hv', hq⟩ := h w c hw hc
  refine ⟨v', hv', ?_⟩
  cases hr : (exec op c w).2 with
  | ok a =>
    rw [hr] at hq
    exact hq
  | error e =>
    rw [hr] at hq
    exact hq

/-- Local effects that the view does not notice. -/
theorem wpView_effect (hidden : ∀ l w v, looks w v → looks (eval l w).1 v) {l : Loc} {v : V}
    {Q : V → Except ε (Val l) → Prop} (h : ∀ a, Q v (.ok a)) :
    (effect l : Prog Res Val ε (Val l)).wpView looks admits rests exec eval v Q :=
  fun w hw => ⟨v, hidden l w v hw, h _⟩

theorem wpView_drain {p : Prog Res Val ε α} {v : V} {Q : V → Except ε α → Prop}
    (h : p.wpView looks admits rests exec eval v Q) {w : World} (hw : looks w v) :
    ∃ v', looks (p.drain eval w).1 v' ∧
      (p.drain eval w).2.wpView looks admits rests exec eval v' Q := by
  induction p generalizing v w with
  | ret a => exact ⟨v, hw, h⟩
  | fail e => exact ⟨v, hw, h⟩
  | await op k _ => exact ⟨v, hw, h⟩
  | sync l k ih =>
    obtain ⟨v', hv', hk⟩ := h w hw
    exact ih _ hk hv'

/-- How a program ended, if it did. -/
def ended : Prog Res Val ε α → Option (Except ε α)
  | .ret a => some (.ok a)
  | .fail e => some (.error e)
  | _ => none

end Prog

namespace Machine

open Prog

variable {M looks admits rests} {s : State Res Val ε α World Tag Env} {i : Nat} {tag : Tag}

/-- The thread's party sees the world as some `v` from which the rest of its program leads
to `Q`. -/
def Sees (M : Machine Res Val ε α World Tag Choice Env) (looks : World → V → Prop)
    (admits : Op → Choice → Prop) (rests : V → Prop) (w : World) (p : Prog Res Val ε α)
    (Q : V → Except ε α → Prop) : Prop :=
  ∃ v, looks w v ∧ p.wpView looks admits rests M.exec M.eval v Q

theorem Sees.unnoticed {w w' : World} {p : Prog Res Val ε α} {Q : V → Except ε α → Prop}
    (h : Sees M looks admits rests w p Q) (hw : ∀ v, looks w v → looks w' v) :
    Sees M looks admits rests w' p Q := by
  obtain ⟨v, hv, hp⟩ := h
  exact ⟨v, hw v hv, hp⟩

theorem Sees.answered {op : Op} {k : Except ε (Res op) → Prog Res Val ε α} {c : Choice}
    {Q : V → Except ε α → Prop} (h : Sees M looks admits rests s.world (.await op k) Q)
    (hc : admits op c) :
    Sees M looks admits rests (M.resumed s i tag op k (.answered c)).world
      ((k (M.exec op c s.world).2).drain M.eval (M.exec op c s.world).1).2 Q := by
  obtain ⟨v, hv, hp⟩ := h
  obtain ⟨v', hv', hk⟩ := hp.2 s.world c hv hc
  exact wpView_drain hk hv'

theorem Sees.at_rest {w : World} {op : Op} {k : Except ε (Res op) → Prog Res Val ε α}
    {Q : V → Except ε α → Prop} (h : Sees M looks admits rests w (.await op k) Q) :
    ∃ v, looks w v ∧ rests v := by
  obtain ⟨v, hv, hp⟩ := h
  exact ⟨v, hv, hp.1⟩

/-- Answers that are admitted to the live thread `i`. -/
def answersTo (admits : Op → Choice → Prop) (i : Nat) (tag : Tag)
    (s : State Res Val ε α World Tag Env) : Event Tag Choice Env ε → Prop
  | .resume i' (.answered c) =>
      i' = i ∧ (∃ p, s.Live i tag p) ∧ ∀ op, s.Awaits i op → admits op c
  | _ => False

theorem Live.set_self {p : Prog Res Val ε α} (hi : s.Live i tag p) :
    s.threads.set i ⟨tag, some p⟩ = s.threads := by
  obtain ⟨hlt, hget⟩ := List.getElem?_eq_some_iff.mp hi
  rw [← hget, List.set_getElem_self]

/-- Left to itself a thread runs to its end. The induction is on the program before its
local effects are drained. -/
theorem Sees.completes_drained (total : ∀ op, ∃ c, admits op c) (p : Prog Res Val ε α)
    {Q : V → Except ε α → Prop} {w : World} {s : State Res Val ε α World Tag Env}
    (hi : s.Live i tag (p.drain M.eval w).2)
    (h : Sees M looks admits rests s.world (p.drain M.eval w).2 Q) :
    ∃ s' p' r v, M.Run (answersTo admits i tag) s s' ∧ s'.threads = s.threads.set i ⟨tag, some p'⟩ ∧
      p'.ended = some r ∧ looks s'.world v ∧ Q v r := by
  induction p generalizing w s with
  | ret a =>
    obtain ⟨v, hv, hq⟩ := h
    exact ⟨s, _, _, v, .refl, (Live.set_self hi).symm, rfl, hv, hq⟩
  | fail e =>
    obtain ⟨v, hv, hq⟩ := h
    exact ⟨s, _, _, v, .refl, (Live.set_self hi).symm, rfl, hv, hq⟩
  | await op k ih =>
    obtain ⟨c, hc⟩ := total op
    have hstep : M.Step s (.resume i (.answered c)) (M.resumed s i tag op k (.answered c)) :=
      .resume hi
    have hanswers : answersTo admits i tag s (.resume i (.answered c)) :=
      ⟨rfl, ⟨_, hi⟩, fun op' hop' => Live.awaits_unique hi hop' ▸ hc⟩
    obtain ⟨s', p', r, v, hrun, hthreads, hended, hv, hq⟩ :=
      ih _ (live_resumed_self hi) (h.answered hc)
    refine ⟨s', p', r, v, hrun.head hanswers hstep, ?_, hended, hv, hq⟩
    rw [hthreads]
    simp [resumed]
  | sync l k ih => exact ih _ hi h

theorem Sees.completes (total : ∀ op, ∃ c, admits op c) {p : Prog Res Val ε α}
    {Q : V → Except ε α → Prop} (hp : p.Settled) (hi : s.Live i tag p)
    (h : Sees M looks admits rests s.world p Q) :
    ∃ s' p' r v, M.Run (answersTo admits i tag) s s' ∧ s'.threads = s.threads.set i ⟨tag, some p'⟩ ∧
      p'.ended = some r ∧ looks s'.world v ∧ Q v r := by
  have hdrain : (p.drain M.eval s.world).2 = p := by
    cases p with
    | sync l k => exact hp.elim
    | _ => rfl
  exact Sees.completes_drained total p (w := s.world) (hdrain.symm ▸ hi) (hdrain.symm ▸ h)

end Machine

end Async
