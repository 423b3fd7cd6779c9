import CronHive.Async.Interleaving
import Mathlib.Algebra.GroupWithZero.Nat

/-!
# Counters that local effects move

A counter that no call touches grows only between two awaits. A `Meter` says what each local
effect adds to it and what is due after each reply; a program spends what is due before it
awaits again.
-/

namespace Async

set_option autoImplicit false

structure Meter {Op : Type} (Res : Op → Type) (Loc ε : Type) where
  cost : Loc → Nat
  due : (op : Op) → Except ε (Res op) → Nat

variable {Op Loc : Type} {Res : Op → Type} {Val : Loc → Type} {ε α β : Type}
variable {World Tag Choice Env : Type} {m : Meter Res Loc ε}

namespace Prog

/-- The program adds `n` up to its next await or its end, and later what is due. -/
def Spends (m : Meter Res Loc ε) : Prog Res Val ε α → Nat → Prop
  | .ret _, n => n = 0
  | .fail _, n => n = 0
  | .await op k, n => n = 0 ∧ ∀ r, (k r).Spends m (m.due op r)
  | .sync l k, n => ∀ v, ∃ rest, n = m.cost l + rest ∧ (k v).Spends m rest

theorem spends_ret (a : α) : (.ret a : Prog Res Val ε α).Spends m 0 := rfl

theorem spends_fail (e : ε) : (.fail e : Prog Res Val ε α).Spends m 0 := rfl

theorem spends_perform {op : Op} (h : ∀ r, m.due op r = 0) :
    (perform op : Prog Res Val ε (Res op)).Spends m 0 := by
  refine ⟨rfl, fun r => ?_⟩
  rw [h r]
  cases r <;> rfl

theorem spends_effect (l : Loc) : (effect l : Prog Res Val ε (Val l)).Spends m (m.cost l) :=
  fun _ => ⟨0, rfl, rfl⟩

theorem Spends.bind {p : Prog Res Val ε α} {f : α → Prog Res Val ε β} {n : Nat}
    (hp : p.Spends m n) (hf : ∀ a, (f a).Spends m 0) : (p.bind f).Spends m n := by
  induction p generalizing n with
  | ret a =>
    cases hp
    exact hf a
  | fail e => exact hp
  | await op k ih => exact ⟨hp.1, fun r => ih r (hp.2 r)⟩
  | sync l k ih =>
    intro v
    obtain ⟨rest, hn, hk⟩ := hp v
    exact ⟨rest, hn, ih v hk⟩

theorem Spends.tryCatch {p : Prog Res Val ε α} {h : ε → Prog Res Val ε α} {n : Nat}
    (hp : p.Spends m n) (hh : ∀ e, (h e).Spends m 0) : (p.tryCatch h).Spends m n := by
  induction p generalizing n with
  | ret a => exact hp
  | fail e =>
    cases hp
    exact hh e
  | await op k ih => exact ⟨hp.1, fun r => ih r (hp.2 r)⟩
  | sync l k ih =>
    intro v
    obtain ⟨rest, hn, hk⟩ := hp v
    exact ⟨rest, hn, ih v hk⟩

/-- A call whose answer leaves something due to the rest. -/
theorem spends_perform_bind {op : Op} {f : Res op → Prog Res Val ε β}
    (hok : ∀ a, (f a).Spends m (m.due op (.ok a))) (herror : ∀ e, m.due op (.error e) = 0) :
    ((perform op).bind f).Spends m 0 := by
  refine ⟨rfl, fun r => ?_⟩
  cases r with
  | ok a => exact hok a
  | error e => exact herror e

theorem spends_effect_bind {l : Loc} {f : Val l → Prog Res Val ε β} {n : Nat}
    (hf : ∀ v, (f v).Spends m n) : ((effect l).bind f).Spends m (m.cost l + n) :=
  fun v => ⟨n, rfl, hf v⟩

/-- With `n` due the program adds what is due before each await and ends with `Q` of what it
still owes. -/
def pays (m : Meter Res Loc ε) : Prog Res Val ε α → Nat → (Except ε α → Nat → Prop) → Prop
  | .ret a, n, Q => Q (.ok a) n
  | .fail e, n, Q => Q (.error e) n
  | .await op k, n, Q => n = 0 ∧ ∀ r, (k r).pays m (m.due op r) Q
  | .sync l k, n, Q => ∀ v, ∃ rest, n = m.cost l + rest ∧ (k v).pays m rest Q

theorem spends_of_pays {p : Prog Res Val ε α} {n : Nat} (h : p.pays m n fun _ rest => rest = 0) :
    p.Spends m n := by
  induction p generalizing n with
  | ret a => exact h
  | fail e => exact h
  | await op k ih => exact ⟨h.1, fun r => ih r (h.2 r)⟩
  | sync l k ih =>
    intro v
    obtain ⟨rest, hn, hk⟩ := h v
    exact ⟨rest, hn, ih v hk⟩

section Rules

variable {n : Nat}

theorem pays_bind {p : Prog Res Val ε α} {f : α → Prog Res Val ε β}
    {Q : Except ε β → Nat → Prop} (h : p.pays m n fun r rest => match r with
      | .ok a => (f a).pays m rest Q
      | .error e => Q (.error e) rest) : (p.bind f).pays m n Q := by
  induction p generalizing n with
  | ret a => exact h
  | fail e => exact h
  | await op k ih => exact ⟨h.1, fun r => ih r (h.2 r)⟩
  | sync l k ih =>
    intro v
    obtain ⟨rest, hn, hk⟩ := h v
    exact ⟨rest, hn, ih v hk⟩

theorem pays_tryCatch {p : Prog Res Val ε α} {f : ε → Prog Res Val ε α}
    {Q : Except ε α → Nat → Prop} (h : p.pays m n fun r rest => match r with
      | .ok a => Q (.ok a) rest
      | .error e => (f e).pays m rest Q) : (p.tryCatch f).pays m n Q := by
  induction p generalizing n with
  | ret a => exact h
  | fail e => exact h
  | await op k ih => exact ⟨h.1, fun r => ih r (h.2 r)⟩
  | sync l k ih =>
    intro v
    obtain ⟨rest, hn, hk⟩ := h v
    exact ⟨rest, hn, ih v hk⟩

theorem pays_mono {p : Prog Res Val ε α} {Q Q' : Except ε α → Nat → Prop}
    (weaken : ∀ r rest, Q r rest → Q' r rest) (h : p.pays m n Q) : p.pays m n Q' := by
  induction p generalizing n with
  | ret a => exact weaken _ _ h
  | fail e => exact weaken _ _ h
  | await op k ih => exact ⟨h.1, fun r => ih r (h.2 r)⟩
  | sync l k ih =>
    intro v
    obtain ⟨rest, hn, hk⟩ := h v
    exact ⟨rest, hn, ih v hk⟩

theorem pays_perform {op : Op} {Q : Except ε (Res op) → Nat → Prop}
    (h : ∀ r, Q r (m.due op r)) : (perform op : Prog Res Val ε (Res op)).pays m 0 Q := by
  refine ⟨rfl, fun r => ?_⟩
  cases r with
  | ok a => exact h (.ok a)
  | error e => exact h (.error e)

end Rules

/-! ### Programs that no meter notices -/

/-- Every local effect the program can ever run satisfies `P`. -/
def Effects (P : Loc → Prop) : Prog Res Val ε α → Prop
  | .ret _ => True
  | .fail _ => True
  | .await _ k => ∀ r, (k r).Effects P
  | .sync l k => P l ∧ ∀ v, (k v).Effects P

section Effects

variable {P : Loc → Prop}

theorem effects_ret (a : α) : (.ret a : Prog Res Val ε α).Effects P := trivial

theorem effects_fail (e : ε) : (.fail e : Prog Res Val ε α).Effects P := trivial

theorem effects_perform (op : Op) : (perform op : Prog Res Val ε (Res op)).Effects P := by
  intro r
  cases r <;> trivial

theorem effects_effect {l : Loc} (h : P l) : (effect l : Prog Res Val ε (Val l)).Effects P :=
  ⟨h, fun _ => trivial⟩

theorem Effects.bind {p : Prog Res Val ε α} {f : α → Prog Res Val ε β} (hp : p.Effects P)
    (hf : ∀ a, (f a).Effects P) : (p.bind f).Effects P := by
  induction p with
  | ret a => exact hf a
  | fail e => trivial
  | await op k ih => exact fun r => ih r (hp r)
  | sync l k ih => exact ⟨hp.1, fun v => ih v (hp.2 v)⟩

theorem Effects.tryCatch {p : Prog Res Val ε α} {h : ε → Prog Res Val ε α} (hp : p.Effects P)
    (hh : ∀ e, (h e).Effects P) : (p.tryCatch h).Effects P := by
  induction p with
  | ret a => trivial
  | fail e => exact hh e
  | await op k ih => exact fun r => ih r (hp r)
  | sync l k ih => exact ⟨hp.1, fun v => ih v (hp.2 v)⟩

theorem Effects.spends {p : Prog Res Val ε α} (hp : p.Effects P) (hcost : ∀ l, P l → m.cost l = 0)
    (hdue : ∀ op r, m.due op r = 0) : p.Spends m 0 := by
  induction p with
  | ret a => rfl
  | fail e => rfl
  | await op k ih =>
    refine ⟨rfl, fun r => ?_⟩
    rw [hdue]
    exact ih r (hp r)
  | sync l k ih =>
    intro v
    refine ⟨0, ?_, ih v (hp.2 v)⟩
    rw [hcost l hp.1]

end Effects

theorem Spends.drain {eval : (l : Loc) → World → World × Val l} (counter : World → Nat)
    (heval : ∀ l w, counter (eval l w).1 = counter w + m.cost l) {p : Prog Res Val ε α} {n : Nat}
    (h : p.Spends m n) (w : World) :
    counter (p.drain eval w).1 = counter w + n ∧ (p.drain eval w).2.Spends m 0 := by
  induction p generalizing n w with
  | ret a =>
    cases h
    exact ⟨rfl, rfl⟩
  | fail e =>
    cases h
    exact ⟨rfl, rfl⟩
  | await op k _ =>
    obtain ⟨rfl, hk⟩ := h
    exact ⟨rfl, rfl, hk⟩
  | sync l k ih =>
    obtain ⟨rest, hn, hk⟩ := h (eval l w).2
    obtain ⟨hcounter, hsettled⟩ := ih _ hk (eval l w).1
    refine ⟨?_, hsettled⟩
    rw [drain_sync, hcounter, heval, hn]
    omega

end Prog

namespace Machine

variable {M : Machine Res Val ε α World Tag Choice Env} (counter : World → Nat)
variable {ok : State Res Val ε α World Tag Env → Event Tag Choice Env ε → Prop}
variable {w₀ : World} {s : State Res Val ε α World Tag Env}

/-- A thread that owes nothing when it begins owes nothing at any await. -/
theorem Run.spends {metered : Tag → Prop}
    (heval : ∀ l w, counter (M.eval l w).1 = counter w + m.cost l)
    (begins : ∀ t w w' p, metered t → M.start t w = some (w', p) → p.Spends m 0)
    (h : M.Run ok (.fresh w₀) s) {i : Nat} {tag : Tag} {p : Prog Res Val ε α}
    (htag : metered tag) (hi : s.Live i tag p) : p.Spends m 0 := by
  induction h generalizing i tag p with
  | refl => simp [State.Live, State.fresh] at hi
  | tail _ _ hs ih =>
    cases hs with
    | begin h =>
      rcases live_spawned hi with hi | ⟨_, rfl, rfl⟩
      · exact ih htag hi
      · exact ((begins _ _ _ _ htag h).drain counter heval _).2
    | resume h =>
      rcases live_resumed hi with ⟨_, hi⟩ | ⟨_, rfl, rfl⟩
      · exact ih htag hi
      · exact (((ih htag h).2 _).drain counter heval _).2
    | stop h => exact ih htag (live_halted hi).2
    | outside h => exact ih htag hi

theorem counter_spawned (heval : ∀ l w, counter (M.eval l w).1 = counter w + m.cost l) {t : Tag}
    {w : World} {p : Prog Res Val ε α} (hp : p.Spends m 0) :
    counter (M.spawned s t w p).world = counter w := (hp.drain counter heval w).1

/-- With a reply the counter grows by what is due. -/
theorem counter_resumed (heval : ∀ l w, counter (M.eval l w).1 = counter w + m.cost l)
    (hexec : ∀ op c w, counter (M.exec op c w).1 = counter w) {i : Nat} {tag : Tag} {op : Op}
    {k : Except ε (Res op) → Prog Res Val ε α} {o : Outcome Choice ε}
    (hp : (Prog.await op k).Spends m 0) :
    counter (M.resumed s i tag op k o).world =
      counter s.world + m.due op (M.attend op o s.world).2.2 := by
  have hattend : counter (M.attend op o s.world).1 = counter s.world := by
    rcases attend_cases (M := M) op o s.world with ⟨_, hw, _⟩ | ⟨c, hw, _⟩
    · rw [hw]
    · rw [hw, hexec]
  rw [← hattend]
  exact ((hp.2 _).drain counter heval _).1

end Machine

/-! ## The bill of a run -/

/-- What one entry of the trace has cost: a task's opening at its beginning, what its meter says
is due at each reply. -/
def State.bill (m : Tag → Meter Res Loc ε) (opening : Tag → Nat)
    (s : State Res Val ε α World Tag Env) : Entry Res ε Tag Env → Nat
  | .began _ t => opening t
  | .called i op _ seen =>
      match s.threads[i]?.map (·.tag) with
      | some t => (m t).due op seen
      | none => 0
  | .stopped _ => 0
  | .outside _ => 0

def State.billed (m : Tag → Meter Res Loc ε) (opening : Tag → Nat)
    (s : State Res Val ε α World Tag Env) : Nat := (s.trace.map (s.bill m opening)).sum

namespace Machine

variable {M : Machine Res Val ε α World Tag Choice Env} {m : Tag → Meter Res Loc ε}
variable {opening : Tag → Nat} (counter : World → Nat)
variable {ok : State Res Val ε α World Tag Env → Event Tag Choice Env ε → Prop}
variable {w₀ : World} {s s' : State Res Val ε α World Tag Env}

/-- Only local effects move the counter, and every task keeps to its meter. -/
structure Metered (M : Machine Res Val ε α World Tag Choice Env) (m : Tag → Meter Res Loc ε)
    (opening : Tag → Nat) (counter : World → Nat) : Prop where
  eval : ∀ t l w, counter (M.eval l w).1 = counter w + (m t).cost l
  exec : ∀ op c w, counter (M.exec op c w).1 = counter w
  start : ∀ t w w' p, M.start t w = some (w', p) → counter w' = counter w ∧
    p.Spends (m t) (opening t)
  outside : ∀ x w w', M.outside x w = some w' → counter w' = counter w

theorem Step.bill_eq {e : Event Tag Choice Env ε} (hs : M.Step s e s') (hn : s.Numbered)
    {x : Entry Res ε Tag Env} (hx : x ∈ s.trace) : s'.bill m opening x = s.bill m opening x := by
  cases x with
  | called i op reply seen =>
    obtain ⟨tag, htag⟩ : ∃ tag, s.threads[i]?.map (·.tag) = some tag :=
      ⟨_, by rw [List.getElem?_eq_getElem (hn i op reply seen hx)]; rfl⟩
    simp only [State.bill, htag, hs.tag htag]
  | _ => rfl

theorem Step.billed_eq {e : Event Tag Choice Env ε} (hs : M.Step s e s') (hn : s.Numbered)
    {x : Entry Res ε Tag Env} (hx : s'.trace = s.trace ++ [x]) :
    s'.billed m opening = s.billed m opening + s'.bill m opening x := by
  have hold : s.trace.map (s'.bill m opening) = s.trace.map (s.bill m opening) :=
    List.map_congr_left fun y hy => hs.bill_eq hn hy
  simp [State.billed, hx, hold]

/-- No thread owes anything at an await, and the counter shows what has been billed. -/
structure Settles (m : Tag → Meter Res Loc ε) (opening : Tag → Nat) (counter : World → Nat)
    (w₀ : World) (s : State Res Val ε α World Tag Env) : Prop where
  live : ∀ i tag p, s.Live i tag p → p.Spends (m tag) 0
  counter : counter s.world = counter w₀ + s.billed m opening

variable {counter}

theorem Settles.step (h : Settles m opening counter w₀ s) (hM : M.Metered m opening counter)
    (hn : s.Numbered) {e : Event Tag Choice Env ε} (hs : M.Step s e s') :
    Settles m opening counter w₀ s' := by
  cases hs with
  | @begin t w p hstart =>
    have hs : M.Step s (.begin t) (M.spawned s t w p) := .begin hstart
    obtain ⟨hw, hp⟩ := hM.start t s.world w p hstart
    have hdrain := hp.drain counter (hM.eval t) w
    constructor
    · intro i tag q hi
      rcases live_spawned hi with hi | ⟨_, rfl, rfl⟩
      · exact h.live i tag q hi
      · exact hdrain.2
    · have hworld : counter (M.spawned s t w p).world = counter s.world + opening t :=
        hdrain.1.trans (by rw [hw])
      rw [hworld, h.counter, hs.billed_eq hn rfl]
      simp only [State.bill]
      omega
  | @resume i tag op k o hi =>
    have hs : M.Step s (.resume i o) (M.resumed s i tag op k o) := .resume hi
    have hp := h.live i tag _ hi
    constructor
    · intro j tag' q hj
      rcases live_resumed hj with ⟨_, hj⟩ | ⟨_, rfl, rfl⟩
      · exact h.live j tag' q hj
      · exact ((hp.2 _).drain counter (hM.eval _) _).2
    · rw [counter_resumed counter (hM.eval tag) hM.exec hp, h.counter, hs.billed_eq hn rfl]
      have htag := hs.tag (Live.tag hi)
      simp only [State.bill, htag]
      omega
  | @stop i tag op k hi =>
    have hs : M.Step s (.stop i) (halted s i tag) := .stop hi
    constructor
    · intro j tag' q hj
      exact h.live j tag' q (live_halted hj).2
    · rw [hs.billed_eq hn rfl]
      exact h.counter
  | @outside x w hx =>
    have hs : M.Step s (.outside x) (moved s x w) := .outside hx
    constructor
    · exact h.live
    · rw [hs.billed_eq hn rfl]
      exact (hM.outside x s.world w hx).trans h.counter

/-- Whatever is interleaved, rejected or lost, the counter shows the bill of the run. -/
theorem Run.counter_eq (hM : M.Metered m opening counter) (h : M.Run ok (.fresh w₀) s) :
    counter s.world = counter w₀ + s.billed m opening := by
  have hsettles : Settles m opening counter w₀ s := by
    refine h.keeps ⟨?_, ?_⟩ fun s e s' hr ih _ hs => ih.step hM hr.numbered hs
    · intro i tag p hi
      simp [State.Live, State.fresh] at hi
    · simp [State.billed, State.fresh]
  exact hsettles.counter

end Machine

end Async
