import CronHive.Async.Logic
import Mathlib.Data.List.Induction
import Mathlib.Tactic.ByContra

/-!
# Interleavings of asynchronous programs

Any number of threads, each the remaining program of one call of an async function, run
over one shared world. A step delivers one reply and runs its thread to the next await. An
awaited call may be answered, may be rejected without effect, or may take effect and lose
its reply; a thread may stop for good at any await. The trace keeps what happened, so that
a property of a whole run is a property of the trace it leaves.
-/

namespace Async

set_option autoImplicit false

variable {Op Loc : Type} {Res : Op → Type} {Val : Loc → Type} {ε α : Type}
variable {World Tag Choice Env : Type}

instance {Op : Type} {Res : Op → Type} {ε : Type} [DecidableEq Op]
    [∀ op, DecidableEq (Res op)] [DecidableEq ε] : DecidableEq (Answer Res ε)
  | ⟨op, r⟩, ⟨op', r'⟩ =>
      if hop : op = op' then
        match op', hop, r' with
        | _, rfl, r' =>
          if hr : r = r' then isTrue (by rw [hr])
          else isFalse fun he => by
            cases he
            exact hr rfl
      else isFalse fun he => hop (Answer.mk.inj he).1

/-- `exec` is the effect of an awaited call under the environment's choice, `start` says
when a task may begin and with which program, `outside` is a move of the environment. -/
structure Machine {Op Loc : Type} (Res : Op → Type) (Val : Loc → Type)
    (ε α World Tag Choice Env : Type) where
  exec : (op : Op) → Choice → World → World × Except ε (Res op)
  eval : (l : Loc) → World → World × Val l
  start : Tag → World → Option (World × Prog Res Val ε α)
  outside : Env → World → Option World

/-- `prog` is `none` once the thread's process has stopped. -/
structure Thread {Op Loc : Type} (Res : Op → Type) (Val : Loc → Type) (ε α Tag : Type) where
  tag : Tag
  prog : Option (Prog Res Val ε α)

/-- `reply` is what the store answered, `none` if the call never reached it; `seen` is what
the caller saw. -/
inductive Entry {Op : Type} (Res : Op → Type) (ε Tag Env : Type) where
  | began (tid : Nat) (tag : Tag)
  | called (tid : Nat) (op : Op) (reply : Option (Except ε (Res op))) (seen : Except ε (Res op))
  | stopped (tid : Nat)
  | outside (x : Env)

namespace Entry

/-- A call whose caller saw the store's reply. -/
def answered {Op : Type} {Res : Op → Type} {ε Tag Env : Type} (tid : Nat) (op : Op)
    (r : Except ε (Res op)) : Entry Res ε Tag Env := .called tid op (some r) r

instance {Op : Type} {Res : Op → Type} {ε Tag Env : Type} [DecidableEq Op]
    [∀ op, DecidableEq (Res op)] [DecidableEq ε] [DecidableEq Tag] [DecidableEq Env] :
    DecidableEq (Entry Res ε Tag Env)
  | .began i t, .began i' t' =>
      if h : i = i' ∧ t = t' then isTrue (by rw [h.1, h.2])
      else isFalse fun he => h ⟨(began.inj he).1, (began.inj he).2⟩
  | .called i op reply seen, .called i' op' reply' seen' =>
      if hi : i = i' then
        if hop : op = op' then
          match op', hop, reply', seen' with
          | _, rfl, reply', seen' =>
            if h : reply = reply' ∧ seen = seen' then isTrue (by rw [hi, h.1, h.2])
            else isFalse fun he => by
              cases he
              exact h ⟨rfl, rfl⟩
        else isFalse fun he => hop (called.inj he).2.1
      else isFalse fun he => hi (called.inj he).1
  | .stopped i, .stopped i' =>
      if h : i = i' then isTrue (by rw [h]) else isFalse fun he => h (stopped.inj he)
  | .outside x, .outside x' =>
      if h : x = x' then isTrue (by rw [h]) else isFalse fun he => h (outside.inj he)
  | .began _ _, .called _ _ _ _ => isFalse nofun
  | .began _ _, .stopped _ => isFalse nofun
  | .began _ _, .outside _ => isFalse nofun
  | .called _ _ _ _, .began _ _ => isFalse nofun
  | .called _ _ _ _, .stopped _ => isFalse nofun
  | .called _ _ _ _, .outside _ => isFalse nofun
  | .stopped _, .began _ _ => isFalse nofun
  | .stopped _, .called _ _ _ _ => isFalse nofun
  | .stopped _, .outside _ => isFalse nofun
  | .outside _, .began _ _ => isFalse nofun
  | .outside _, .called _ _ _ _ => isFalse nofun
  | .outside _, .stopped _ => isFalse nofun

/-- The entry is a call of thread `i`. -/
def isCallOf {Op : Type} {Res : Op → Type} {ε Tag Env : Type} (i : Nat) :
    Entry Res ε Tag Env → Bool
  | .called tid _ _ _ => tid = i
  | _ => false

end Entry

structure State {Op Loc : Type} (Res : Op → Type) (Val : Loc → Type)
    (ε α World Tag Env : Type) where
  world : World
  threads : List (Thread Res Val ε α Tag)
  trace : List (Entry Res ε Tag Env)

inductive Outcome (Choice ε : Type) where
  | answered (c : Choice)
  | rejected (e : ε)
  | lost (c : Choice) (e : ε)

inductive Event (Tag Choice Env ε : Type) where
  | begin (t : Tag)
  | resume (tid : Nat) (o : Outcome Choice ε)
  | stop (tid : Nat)
  | outside (x : Env)

/-- A world before any thread has begun. -/
def State.fresh (w : World) : State Res Val ε α World Tag Env := ⟨w, [], []⟩

/-- The thread is still running: it has neither returned, thrown nor stopped. -/
def State.Live (s : State Res Val ε α World Tag Env) (i : Nat) (tag : Tag)
    (p : Prog Res Val ε α) : Prop := s.threads[i]? = some ⟨tag, some p⟩

/-- The thread awaits `op`. -/
def State.Awaits (s : State Res Val ε α World Tag Env) (i : Nat) (op : Op) : Prop :=
  ∃ tag k, s.Live i tag (.await op k)

/-- The call the thread awaits. -/
def State.awaiting (s : State Res Val ε α World Tag Env) (i : Nat) : Option Op :=
  match s.threads[i]? with
  | some ⟨_, some (.await op _)⟩ => some op
  | _ => none

theorem State.Awaits.awaiting {s : State Res Val ε α World Tag Env} {i : Nat} {op : Op}
    (h : s.Awaits i op) : s.awaiting i = some op := by
  obtain ⟨tag, k, hi⟩ := h
  unfold State.awaiting
  rw [hi]

theorem State.awaiting_iff {s : State Res Val ε α World Tag Env} {i : Nat} {op : Op} :
    s.awaiting i = some op ↔ s.Awaits i op := by
  constructor
  · intro h
    unfold State.awaiting at h
    split at h
    · rename_i tag op' k hi
      cases h
      exact ⟨tag, k, hi⟩
    · cases h
  · exact State.Awaits.awaiting

/-- The thread's process has not stopped. -/
def State.Alive (s : State Res Val ε α World Tag Env) (i : Nat) : Prop :=
  ∃ tag p, s.Live i tag p

theorem State.alive_iff {s : State Res Val ε α World Tag Env} {i : Nat} :
    s.Alive i ↔ (s.threads[i]?.bind (·.prog)).isSome := by
  constructor
  · rintro ⟨tag, p, hi⟩
    rw [hi]
    rfl
  · intro h
    obtain ⟨p, hp⟩ := Option.isSome_iff_exists.mp h
    obtain ⟨⟨tag, prog⟩, hi, rfl⟩ := Option.bind_eq_some_iff.mp hp
    exact ⟨tag, p, hi⟩

instance (s : State Res Val ε α World Tag Env) (i : Nat) : Decidable (s.Alive i) :=
  decidable_of_iff _ State.alive_iff.symm

theorem State.Alive.lt {s : State Res Val ε α World Tag Env} {i : Nat} (h : s.Alive i) :
    i < s.threads.length := by
  obtain ⟨tag, p, hi⟩ := h
  exact (List.getElem?_eq_some_iff.mp hi).1

/-- The thread has a call in flight. -/
def Thread.busy : Thread Res Val ε α Tag → Bool
  | ⟨_, some (.await _ _)⟩ => true
  | _ => false

/-- No thread awaits anything. -/
def State.Quiet (s : State Res Val ε α World Tag Env) : Prop :=
  s.threads.all fun t => !t.busy

instance (s : State Res Val ε α World Tag Env) : Decidable s.Quiet :=
  inferInstanceAs (Decidable (_ = true))

theorem State.Quiet.not_awaits {s : State Res Val ε α World Tag Env} (h : s.Quiet) (i : Nat)
    (op : Op) : ¬ s.Awaits i op := by
  rintro ⟨tag, k, hi⟩
  have hbusy := List.all_eq_true.mp h _ (List.mem_of_getElem? hi)
  simp [Thread.busy] at hbusy

namespace Machine

variable (M : Machine Res Val ε α World Tag Choice Env)

/-- The world after a call, the store's reply and what the caller sees of it. -/
def attend (op : Op) : Outcome Choice ε → World →
    World × Option (Except ε (Res op)) × Except ε (Res op)
  | .answered c, w => ((M.exec op c w).1, some (M.exec op c w).2, (M.exec op c w).2)
  | .rejected e, w => (w, none, .error e)
  | .lost c e, w => ((M.exec op c w).1, some (M.exec op c w).2, .error e)

def spawned (s : State Res Val ε α World Tag Env) (t : Tag) (w : World)
    (p : Prog Res Val ε α) : State Res Val ε α World Tag Env where
  world := (p.drain M.eval w).1
  threads := s.threads ++ [⟨t, some (p.drain M.eval w).2⟩]
  trace := s.trace ++ [.began s.threads.length t]

def resumed (s : State Res Val ε α World Tag Env) (i : Nat) (tag : Tag) (op : Op)
    (k : Except ε (Res op) → Prog Res Val ε α) (o : Outcome Choice ε) :
    State Res Val ε α World Tag Env :=
  let a := M.attend op o s.world
  let d := (k a.2.2).drain M.eval a.1
  { world := d.1
    threads := s.threads.set i ⟨tag, some d.2⟩
    trace := s.trace ++ [.called i op a.2.1 a.2.2] }

def halted (s : State Res Val ε α World Tag Env) (i : Nat) (tag : Tag) :
    State Res Val ε α World Tag Env :=
  { s with threads := s.threads.set i ⟨tag, none⟩, trace := s.trace ++ [.stopped i] }

def moved (s : State Res Val ε α World Tag Env) (x : Env) (w : World) :
    State Res Val ε α World Tag Env :=
  { s with world := w, trace := s.trace ++ [.outside x] }

def step (s : State Res Val ε α World Tag Env) :
    Event Tag Choice Env ε → Option (State Res Val ε α World Tag Env)
  | .begin t => (M.start t s.world).map fun a => M.spawned s t a.1 a.2
  | .resume i o =>
      match s.threads[i]? with
      | some ⟨tag, some (.await op k)⟩ => some (M.resumed s i tag op k o)
      | _ => none
  | .stop i =>
      match s.threads[i]? with
      | some ⟨tag, some (.await _ _)⟩ => some (halted s i tag)
      | _ => none
  | .outside x => (M.outside x s.world).map (moved s x)

/-- What a step can do, once for all invariants. -/
inductive Step (s : State Res Val ε α World Tag Env) :
    Event Tag Choice Env ε → State Res Val ε α World Tag Env → Prop where
  | begin {t : Tag} {w : World} {p : Prog Res Val ε α} (h : M.start t s.world = some (w, p)) :
      Step s (.begin t) (M.spawned s t w p)
  | resume {i : Nat} {tag : Tag} {op : Op} {k : Except ε (Res op) → Prog Res Val ε α}
      {o : Outcome Choice ε} (h : s.Live i tag (.await op k)) :
      Step s (.resume i o) (M.resumed s i tag op k o)
  | stop {i : Nat} {tag : Tag} {op : Op} {k : Except ε (Res op) → Prog Res Val ε α}
      (h : s.Live i tag (.await op k)) : Step s (.stop i) (halted s i tag)
  | outside {x : Env} {w : World} (h : M.outside x s.world = some w) :
      Step s (.outside x) (moved s x w)

variable {M}

theorem step_iff {s s' : State Res Val ε α World Tag Env} {e : Event Tag Choice Env ε} :
    M.step s e = some s' ↔ M.Step s e s' := by
  constructor
  · intro h
    cases e with
    | begin t =>
      obtain ⟨⟨w, p⟩, hw, rfl⟩ := Option.map_eq_some_iff.mp h
      exact .begin hw
    | resume i o =>
      simp only [step] at h
      split at h
      · rename_i tag op k hi
        cases h
        exact .resume hi
      · simp at h
    | stop i =>
      simp only [step] at h
      split at h
      · rename_i tag op k hi
        cases h
        exact .stop hi
      · simp at h
    | outside x =>
      obtain ⟨w, hw, rfl⟩ := Option.map_eq_some_iff.mp h
      exact .outside hw
  · intro h
    cases h with
    | begin h => simp [step, h]
    | resume h => simp only [State.Live] at h; simp [step, h]
    | stop h => simp only [State.Live] at h; simp [step, h]
    | outside h => simp [step, h]

/-- A rejected call leaves the world alone; any other takes effect, and its caller sees the
reply or a failure. -/
theorem attend_cases (op : Op) (o : Outcome Choice ε) (w : World) :
    ((∃ e, o = .rejected e ∧ (M.attend op o w).2.2 = .error e) ∧ (M.attend op o w).1 = w ∧
      (M.attend op o w).2.1 = none) ∨
    ∃ c, (M.attend op o w).1 = (M.exec op c w).1 ∧
      (M.attend op o w).2.1 = some (M.exec op c w).2 ∧
      ((M.attend op o w).2.2 = (M.exec op c w).2 ∨ ∃ e, (M.attend op o w).2.2 = .error e) := by
  cases o with
  | answered c => exact Or.inr ⟨c, rfl, rfl, Or.inl rfl⟩
  | rejected e => exact Or.inl ⟨⟨e, rfl, rfl⟩, rfl, rfl⟩
  | lost c e => exact Or.inr ⟨c, rfl, rfl, Or.inr ⟨e, rfl⟩⟩

theorem attend_seen {op : Op} {o : Outcome Choice ε} {w : World} {a : Res op}
    (h : (M.attend op o w).2.2 = .ok a) :
    ∃ c, (M.exec op c w).2 = .ok a ∧ (M.attend op o w).1 = (M.exec op c w).1 ∧
      (M.attend op o w).2.1 = some (.ok a) := by
  rcases attend_cases (M := M) op o w with ⟨⟨e, _, he⟩, _⟩ | ⟨c, hw, hreply, hseen | ⟨e, he⟩⟩
  · rw [he] at h
    cases h
  · have hexec : (M.exec op c w).2 = .ok a := hseen.symm.trans h
    exact ⟨c, hexec, hw, by rw [hreply, hexec]⟩
  · rw [he] at h
    cases h

theorem attend_ok {op : Op} {o : Outcome Choice ε} {w : World} {a : Res op}
    (h : (M.attend op o w).2.2 = .ok a) : (M.attend op o w).2.1 = some (.ok a) := by
  obtain ⟨_, _, _, hreply⟩ := attend_seen h
  exact hreply

/-- What the stores, the local effects and the environment all do, a step does. -/
theorem Step.world {R : World → World → Prop} (refl : ∀ w, R w w)
    (trans : ∀ w w' w'', R w w' → R w' w'' → R w w'')
    (exec : ∀ op c w, R w (M.exec op c w).1) (eval : ∀ l w, R w (M.eval l w).1)
    (start : ∀ t w w' p, M.start t w = some (w', p) → R w w')
    (outside : ∀ x w w', M.outside x w = some w' → R w w')
    {s s' : State Res Val ε α World Tag Env} {e : Event Tag Choice Env ε}
    (h : M.Step s e s') : R s.world s'.world := by
  have drain (w : World) (p : Prog Res Val ε α) : R w (p.drain M.eval w).1 :=
    Prog.drain_keeps M.eval (fun l w' hw => trans _ _ _ hw (eval l w')) p (refl w)
  cases h with
  | begin h => exact trans _ _ _ (start _ _ _ _ h) (drain _ _)
  | @resume i tag op k o h =>
    refine trans _ _ _ ?_ (drain _ _)
    rcases attend_cases (M := M) op o s.world with ⟨_, hw, _⟩ | ⟨c, hw, _⟩
    · rw [hw]
      exact refl _
    · rw [hw]
      exact exec op c _
  | stop h => exact refl _
  | outside h => exact outside _ _ _ h

/-! ## Threads after a step -/

theorem live_spawned {s : State Res Val ε α World Tag Env} {t : Tag} {w : World}
    {p : Prog Res Val ε α} {j : Nat} {tag : Tag} {q : Prog Res Val ε α}
    (h : (M.spawned s t w p).Live j tag q) :
    s.Live j tag q ∨
      (j = s.threads.length ∧ tag = t ∧ q = (p.drain M.eval w).2) := by
  simp only [State.Live, spawned, List.getElem?_append] at h
  split at h
  · exact Or.inl h
  · rename_i hj
    have hj' : j = s.threads.length := by
      by_contra hne
      rw [List.getElem?_eq_none (by simp; omega)] at h
      simp at h
    subst hj'
    simp at h
    exact Or.inr ⟨rfl, h.1.symm, h.2.symm⟩

theorem live_resumed {s : State Res Val ε α World Tag Env} {i : Nat} {tag : Tag} {op : Op}
    {k : Except ε (Res op) → Prog Res Val ε α} {o : Outcome Choice ε} {j : Nat} {tag' : Tag}
    {q : Prog Res Val ε α} (h : (M.resumed s i tag op k o).Live j tag' q) :
    (j ≠ i ∧ s.Live j tag' q) ∨
      (j = i ∧ tag' = tag ∧
        q = ((k (M.attend op o s.world).2.2).drain M.eval (M.attend op o s.world).1).2) := by
  simp only [State.Live, resumed, List.getElem?_set] at h
  split at h
  · rename_i hij
    split at h
    · simp at h
      exact Or.inr ⟨hij.symm, h.1.symm, h.2.symm⟩
    · simp at h
  · rename_i hij
    exact Or.inl ⟨Ne.symm hij, h⟩

theorem live_halted {s : State Res Val ε α World Tag Env} {i : Nat} {tag : Tag} {j : Nat}
    {tag' : Tag} {q : Prog Res Val ε α} (h : (halted s i tag).Live j tag' q) :
    j ≠ i ∧ s.Live j tag' q := by
  simp only [State.Live, halted, List.getElem?_set] at h
  split at h
  · split at h <;> simp at h
  · rename_i hij
    exact ⟨Ne.symm hij, h⟩

theorem live_spawned_of {s : State Res Val ε α World Tag Env} {t : Tag} {w : World}
    {p : Prog Res Val ε α} {j : Nat} {tag : Tag} {q : Prog Res Val ε α} (h : s.Live j tag q) :
    (M.spawned s t w p).Live j tag q := by
  have hj : j < s.threads.length := (List.getElem?_eq_some_iff.mp h).1
  simp only [State.Live, spawned, List.getElem?_append, if_pos hj]
  exact h

theorem live_append {s s' : State Res Val ε α World Tag Env} {th : Thread Res Val ε α Tag}
    (h : s'.threads = s.threads ++ [th]) {j : Nat} {tag : Tag} {q : Prog Res Val ε α} :
    s'.Live j tag q ↔ s.Live j tag q ∨ (j = s.threads.length ∧ th = ⟨tag, some q⟩) := by
  unfold State.Live
  rw [h]
  rcases Nat.lt_trichotomy j s.threads.length with hlt | heq | hgt
  · rw [List.getElem?_append_left hlt]
    simp [Nat.ne_of_lt hlt]
  · subst heq
    simp
  · rw [List.getElem?_eq_none (by simp; omega), List.getElem?_eq_none (by omega)]
    simp [Nat.ne_of_gt hgt]

theorem live_set {s s' : State Res Val ε α World Tag Env} {i : Nat} {th : Thread Res Val ε α Tag}
    (hi : i < s.threads.length) (h : s'.threads = s.threads.set i th) {j : Nat} {tag : Tag}
    {q : Prog Res Val ε α} :
    s'.Live j tag q ↔ (j ≠ i ∧ s.Live j tag q) ∨ (j = i ∧ th = ⟨tag, some q⟩) := by
  unfold State.Live
  rw [h]
  by_cases hij : j = i
  · subst hij
    simp [hi]
  · rw [List.getElem?_set_ne (Ne.symm hij)]
    simp [hij]

theorem live_spawned_self {s : State Res Val ε α World Tag Env} {t : Tag} {w : World}
    {p : Prog Res Val ε α} :
    (M.spawned s t w p).Live s.threads.length t (p.drain M.eval w).2 := by
  simp [State.Live, spawned]

theorem live_resumed_of {s : State Res Val ε α World Tag Env} {i : Nat} {tag : Tag} {op : Op}
    {k : Except ε (Res op) → Prog Res Val ε α} {o : Outcome Choice ε} {j : Nat} {tag' : Tag}
    {q : Prog Res Val ε α} (hne : j ≠ i) (h : s.Live j tag' q) :
    (M.resumed s i tag op k o).Live j tag' q := by
  simp only [State.Live, resumed, List.getElem?_set, if_neg (Ne.symm hne)]
  exact h

theorem live_resumed_self {s : State Res Val ε α World Tag Env} {i : Nat} {tag : Tag} {op : Op}
    {k : Except ε (Res op) → Prog Res Val ε α} {o : Outcome Choice ε}
    (h : s.Live i tag (.await op k)) : (M.resumed s i tag op k o).Live i tag
      ((k (M.attend op o s.world).2.2).drain M.eval (M.attend op o s.world).1).2 := by
  have hi : i < s.threads.length := (List.getElem?_eq_some_iff.mp h).1
  simp [State.Live, resumed, hi]

theorem live_halted_of {s : State Res Val ε α World Tag Env} {i : Nat} {tag : Tag} {j : Nat}
    {tag' : Tag} {q : Prog Res Val ε α} (hne : j ≠ i) (h : s.Live j tag' q) :
    (halted s i tag).Live j tag' q := by
  simp only [State.Live, halted, List.getElem?_set, if_neg (Ne.symm hne)]
  exact h

theorem Live.unique {s : State Res Val ε α World Tag Env} {i : Nat} {tag tag' : Tag}
    {p q : Prog Res Val ε α} (h : s.Live i tag p) (h' : s.Live i tag' q) :
    tag = tag' ∧ p = q := by
  have := h.symm.trans h'
  simpa using this

theorem Live.tag {s : State Res Val ε α World Tag Env} {i : Nat} {tag : Tag}
    {p : Prog Res Val ε α} (h : s.Live i tag p) : s.threads[i]?.map (·.tag) = some tag := by
  rw [h]
  rfl

theorem Live.awaits_unique {s : State Res Val ε α World Tag Env} {i : Nat} {tag : Tag}
    {op op' : Op} {k : Except ε (Res op) → Prog Res Val ε α}
    (h : s.Live i tag (.await op k)) (h' : s.Awaits i op') : op' = op := by
  obtain ⟨tag', k', h'⟩ := h'
  have heq := (Live.unique h h').2
  injection heq with hop _
  exact hop.symm

/-! ## The trace after a step -/

theorem called_resumed {s : State Res Val ε α World Tag Env} {i : Nat} {tag : Tag} {op : Op}
    {k : Except ε (Res op) → Prog Res Val ε α} {o : Outcome Choice ε}
    {reply : Option (Except ε (Res op))} (h : (M.attend op o s.world).2.1 = reply) :
    Entry.called i op reply (M.attend op o s.world).2.2 ∈ (M.resumed s i tag op k o).trace := by
  subst h
  exact List.mem_append_right _ (List.mem_singleton.mpr rfl)

theorem Step.trace_subset {s s' : State Res Val ε α World Tag Env} {e : Event Tag Choice Env ε}
    (h : M.Step s e s') : s.trace ⊆ s'.trace := by
  cases h with
  | _ => exact List.subset_append_left _ _

/-- A call in the trace was there before or is the step itself. -/
theorem Step.called {s s' : State Res Val ε α World Tag Env} {e : Event Tag Choice Env ε}
    (h : M.Step s e s') {i : Nat} {op : Op} {reply : Option (Except ε (Res op))}
    {seen : Except ε (Res op)} (hm : Entry.called i op reply seen ∈ s'.trace) :
    Entry.called i op reply seen ∈ s.trace ∨
      ∃ tag k o, s.Live i tag (.await op k) ∧ e = .resume i o ∧
        s' = M.resumed s i tag op k o ∧ (M.attend op o s.world).2.1 = reply ∧
        (M.attend op o s.world).2.2 = seen := by
  cases h with
  | begin h =>
    rcases List.mem_append.mp hm with hm | hm
    · exact Or.inl hm
    · cases List.mem_singleton.mp hm
  | @resume i' tag op' k o h =>
    rcases List.mem_append.mp hm with hm | hm
    · exact Or.inl hm
    · injection List.mem_singleton.mp hm with hi hop hreply hseen
      subst hi hop
      exact Or.inr ⟨tag, k, o, h, rfl, rfl, (eq_of_heq hreply).symm, (eq_of_heq hseen).symm⟩
  | stop h =>
    rcases List.mem_append.mp hm with hm | hm
    · exact Or.inl hm
    · cases List.mem_singleton.mp hm
  | outside h =>
    rcases List.mem_append.mp hm with hm | hm
    · exact Or.inl hm
    · cases List.mem_singleton.mp hm

theorem Step.began {s s' : State Res Val ε α World Tag Env} {e : Event Tag Choice Env ε}
    (h : M.Step s e s') {i : Nat} {t : Tag} (hm : Entry.began i t ∈ s'.trace) :
    Entry.began i t ∈ s.trace ∨ ∃ w p, M.start t s.world = some (w, p) ∧
      i = s.threads.length ∧ e = .begin t ∧ s' = M.spawned s t w p := by
  cases h with
  | begin h =>
    rcases List.mem_append.mp hm with hm | hm
    · exact Or.inl hm
    · cases List.mem_singleton.mp hm
      exact Or.inr ⟨_, _, h, rfl, rfl, rfl⟩
  | resume h =>
    rcases List.mem_append.mp hm with hm | hm
    · exact Or.inl hm
    · cases List.mem_singleton.mp hm
  | stop h =>
    rcases List.mem_append.mp hm with hm | hm
    · exact Or.inl hm
    · cases List.mem_singleton.mp hm
  | outside h =>
    rcases List.mem_append.mp hm with hm | hm
    · exact Or.inl hm
    · cases List.mem_singleton.mp hm

/-- A step leaves one entry; a call is the one of the step. -/
theorem Step.traced {s s' : State Res Val ε α World Tag Env} {e : Event Tag Choice Env ε}
    (h : M.Step s e s') : ∃ x, s'.trace = s.trace ++ [x] := by
  cases h with
  | _ => exact ⟨_, rfl⟩

theorem Step.traced_last {s s' : State Res Val ε α World Tag Env} {e : Event Tag Choice Env ε}
    (h : M.Step s e s') {x : Entry Res ε Tag Env} (hx : s'.trace.getLast? = some x) :
    s'.trace = s.trace ++ [x] := by
  obtain ⟨y, hy⟩ := h.traced
  rw [hy, List.getLast?_concat] at hx
  cases hx
  exact hy

theorem Step.traced_call {s s' : State Res Val ε α World Tag Env} {e : Event Tag Choice Env ε}
    (h : M.Step s e s') {i : Nat} {op : Op} {reply : Option (Except ε (Res op))}
    {seen : Except ε (Res op)} (hx : s'.trace = s.trace ++ [.called i op reply seen]) :
    ∃ tag k o, s.Live i tag (.await op k) ∧ e = .resume i o ∧
      s' = M.resumed s i tag op k o ∧ (M.attend op o s.world).2.1 = reply ∧
      (M.attend op o s.world).2.2 = seen := by
  cases h with
  | begin h => cases List.append_cancel_left hx
  | @resume i' tag op' k o h =>
    injection (List.cons.inj (List.append_cancel_left hx)).1 with hi hop hreply hseen
    subst hi hop
    exact ⟨tag, k, o, h, rfl, rfl, eq_of_heq hreply, eq_of_heq hseen⟩
  | stop h => cases List.append_cancel_left hx
  | outside h => cases List.append_cancel_left hx

theorem Step.traced_begin {s s' : State Res Val ε α World Tag Env} {e : Event Tag Choice Env ε}
    (h : M.Step s e s') {i : Nat} {t : Tag} (hx : s'.trace = s.trace ++ [.began i t]) :
    i = s.threads.length := by
  cases h with
  | begin h =>
    injection (List.cons.inj (List.append_cancel_left hx)).1 with hi
    exact hi.symm
  | resume h => cases List.append_cancel_left hx
  | stop h => cases List.append_cancel_left hx
  | outside h => cases List.append_cancel_left hx

theorem Step.tag {s s' : State Res Val ε α World Tag Env} {e : Event Tag Choice Env ε}
    (h : M.Step s e s') {i : Nat} {tag : Tag} (hi : s.threads[i]?.map (·.tag) = some tag) :
    s'.threads[i]?.map (·.tag) = some tag := by
  obtain ⟨th, hth, htag⟩ := Option.map_eq_some_iff.mp hi
  have hlt : i < s.threads.length := (List.getElem?_eq_some_iff.mp hth).1
  have hset (j : Nat) (tag' : Tag) (p q : Option (Prog Res Val ε α))
      (hj : s.threads[j]? = some ⟨tag', q⟩) :
      (s.threads.set j ⟨tag', p⟩)[i]?.map (·.tag) = some tag := by
    by_cases hij : j = i
    · subst hij
      rw [hj] at hi
      simpa [hlt] using hi
    · rw [List.getElem?_set_ne hij]
      exact hi
  cases h with
  | begin h =>
    simp only [spawned]
    rw [List.getElem?_append_left hlt]
    exact hi
  | resume h => exact hset _ _ _ _ h
  | stop h => exact hset _ _ _ _ h
  | outside h => exact hi

theorem Step.tag_cases {s s' : State Res Val ε α World Tag Env} {e : Event Tag Choice Env ε}
    (h : M.Step s e s') {i : Nat} {tag : Tag} (hi : s'.threads[i]?.map (·.tag) = some tag) :
    s.threads[i]?.map (·.tag) = some tag ∨ ∃ w p, M.start tag s.world = some (w, p) ∧
      i = s.threads.length ∧ e = .begin tag ∧ s' = M.spawned s tag w p := by
  by_cases hlt : i < s.threads.length
  · have hold : s.threads[i]?.map (·.tag) = some s.threads[i].tag := by
      rw [List.getElem?_eq_getElem hlt]
      rfl
    cases (h.tag hold).symm.trans hi
    exact Or.inl hold
  · have hnone (l : List (Thread Res Val ε α Tag)) (hl : l.length = s.threads.length) :
        l[i]?.map (·.tag) ≠ some tag := by
      rw [List.getElem?_eq_none (by omega)]
      nofun
    cases h with
    | @begin t w p h =>
      have hlast : i = s.threads.length := by
        obtain ⟨th, hth, _⟩ := Option.map_eq_some_iff.mp hi
        have hle := (List.getElem?_eq_some_iff.mp hth).1
        simp only [spawned, List.length_append, List.length_singleton] at hle
        omega
      subst hlast
      simp [spawned] at hi
      subst hi
      exact Or.inr ⟨w, p, h, rfl, rfl, rfl⟩
    | resume h => exact absurd hi (hnone _ (by simp [resumed]))
    | stop h => exact absurd hi (hnone _ (by simp [halted]))
    | outside h => exact absurd hi (hnone _ rfl)

/-! ## Runs -/

section Runs

variable (M)

/-- Runs from `s₀` each of whose steps meets `ok` in the state before it. -/
inductive Run (ok : State Res Val ε α World Tag Env → Event Tag Choice Env ε → Prop)
    (s₀ : State Res Val ε α World Tag Env) : State Res Val ε α World Tag Env → Prop where
  | refl : Run ok s₀ s₀
  | tail {s s' : State Res Val ε α World Tag Env} {e : Event Tag Choice Env ε} :
      Run ok s₀ s → ok s e → M.Step s e s' → Run ok s₀ s'

/-- Every step is allowed. -/
def anyStep : State Res Val ε α World Tag Env → Event Tag Choice Env ε → Prop :=
  fun _ _ => True

def run (s : State Res Val ε α World Tag Env) :
    List (Event Tag Choice Env ε) → Option (State Res Val ε α World Tag Env)
  | [] => some s
  | e :: es => (M.step s e).bind fun s' => run s' es

/-- The same for events that must each meet `ok` in the state they are met with. -/
def runChecked (ok : State Res Val ε α World Tag Env → Event Tag Choice Env ε → Prop)
    [∀ s e, Decidable (ok s e)] (s : State Res Val ε α World Tag Env) :
    List (Event Tag Choice Env ε) → Option (State Res Val ε α World Tag Env)
  | [] => some s
  | e :: es => if ok s e then (M.step s e).bind fun s' => runChecked ok s' es else none

variable {M}
variable {ok : State Res Val ε α World Tag Env → Event Tag Choice Env ε → Prop}
variable {s₀ s s' : State Res Val ε α World Tag Env}

theorem Run.head {e : Event Tag Choice Env ε} (hok : ok s₀ e) (hs : M.Step s₀ e s)
    (h : M.Run ok s s') : M.Run ok s₀ s' := by
  induction h with
  | refl => exact .tail .refl hok hs
  | tail _ hok' hs' ih => exact .tail ih hok' hs'

theorem Run.of_run {es : List (Event Tag Choice Env ε)} (h : M.run s₀ es = some s)
    (hok : ∀ e ∈ es, ∀ s', ok s' e) : M.Run ok s₀ s := by
  induction es generalizing s₀ with
  | nil =>
    cases h
    exact .refl
  | cons e es ih =>
    obtain ⟨s₁, h₁, h⟩ := Option.bind_eq_some_iff.mp h
    refine .head (hok e List.mem_cons_self s₀) (step_iff.mp h₁) (ih h fun e' he' => ?_)
    exact hok e' (List.mem_cons_of_mem e he')

theorem Run.of_runChecked [∀ s e, Decidable (ok s e)] {es : List (Event Tag Choice Env ε)}
    (h : M.runChecked ok s₀ es = some s) : M.Run ok s₀ s := by
  induction es generalizing s₀ with
  | nil =>
    cases h
    exact .refl
  | cons e es ih =>
    simp only [runChecked] at h
    split at h
    · rename_i hok
      obtain ⟨s₁, h₁, h⟩ := Option.bind_eq_some_iff.mp h
      exact .head hok (step_iff.mp h₁) (ih h)
    · cases h

theorem run_of_runChecked [∀ s e, Decidable (ok s e)] {es : List (Event Tag Choice Env ε)}
    (h : M.runChecked ok s₀ es = some s) : M.run s₀ es = some s := by
  induction es generalizing s₀ with
  | nil => exact h
  | cons e es ih =>
    simp only [runChecked] at h
    split at h
    · obtain ⟨s₁, h₁, h⟩ := Option.bind_eq_some_iff.mp h
      exact Option.bind_eq_some_iff.mpr ⟨s₁, h₁, ih h⟩
    · cases h

theorem run_append_singleton {e : Event Tag Choice Env ε} {es : List (Event Tag Choice Env ε)} :
    M.run s₀ (es ++ [e]) = some s' ↔ ∃ s, M.run s₀ es = some s ∧ M.Step s e s' := by
  induction es generalizing s₀ with
  | nil =>
    constructor
    · intro h
      obtain ⟨s₁, hs, h⟩ := Option.bind_eq_some_iff.mp h
      cases h
      exact ⟨s₀, rfl, step_iff.mp hs⟩
    · intro h
      obtain ⟨s, h, hs⟩ := h
      cases h
      exact Option.bind_eq_some_iff.mpr ⟨s', step_iff.mpr hs, rfl⟩
  | cons e₁ es ih =>
    constructor
    · intro h
      obtain ⟨s₁, h₁, h⟩ := Option.bind_eq_some_iff.mp h
      obtain ⟨s, h, hs⟩ := ih.mp h
      exact ⟨s, Option.bind_eq_some_iff.mpr ⟨s₁, h₁, h⟩, hs⟩
    · intro h
      obtain ⟨s, h, hs⟩ := h
      obtain ⟨s₁, h₁, h⟩ := Option.bind_eq_some_iff.mp h
      exact Option.bind_eq_some_iff.mpr ⟨s₁, h₁, ih.mpr ⟨s, h, hs⟩⟩

theorem Run.trans {s₁ : State Res Val ε α World Tag Env} (h : M.Run ok s₀ s₁)
    (h' : M.Run ok s₁ s) : M.Run ok s₀ s := by
  induction h' with
  | refl => exact h
  | tail _ hok hs ih => exact .tail ih hok hs

theorem Run.mono {ok' : State Res Val ε α World Tag Env → Event Tag Choice Env ε → Prop}
    (weaken : ∀ s e, ok s e → ok' s e) (h : M.Run ok s₀ s) : M.Run ok' s₀ s := by
  induction h with
  | refl => exact .refl
  | tail _ hok hs ih => exact .tail ih (weaken _ _ hok) hs

/-- The invariant rule. -/
theorem Run.keeps {I : State Res Val ε α World Tag Env → Prop} (h₀ : I s₀)
    (keeps : ∀ s e s', M.Run ok s₀ s → I s → ok s e → M.Step s e s' → I s')
    (h : M.Run ok s₀ s) : I s := by
  induction h with
  | refl => exact h₀
  | tail hr hok hs ih => exact keeps _ _ _ hr ih hok hs

theorem Run.settled {w₀ : World} (h : M.Run ok (.fresh w₀) s) {i : Nat} {tag : Tag}
    {p : Prog Res Val ε α} (hi : s.Live i tag p) : p.Settled := by
  induction h generalizing i tag p with
  | refl => simp [State.Live, State.fresh] at hi
  | tail _ _ hs ih =>
    cases hs with
    | begin h =>
      rcases live_spawned hi with hi | ⟨_, _, rfl⟩
      · exact ih hi
      · exact Prog.drain_settled M.eval _ _
    | resume h =>
      rcases live_resumed hi with ⟨_, hi⟩ | ⟨_, _, rfl⟩
      · exact ih hi
      · exact Prog.drain_settled M.eval _ _
    | stop h => exact ih (live_halted hi).2
    | outside h => exact ih hi

/-- Every live thread keeps to the footprint of its task. -/
theorem Run.only {P : Tag → Op → Prop} {w₀ : World}
    (begins : ∀ t w w' p, M.start t w = some (w', p) → p.Only (P t))
    (h : M.Run ok (.fresh w₀) s) {i : Nat} {tag : Tag} {p : Prog Res Val ε α}
    (hi : s.Live i tag p) : p.Only (P tag) := by
  induction h generalizing i tag p with
  | refl => simp [State.Live, State.fresh] at hi
  | tail _ _ hs ih =>
    cases hs with
    | begin h =>
      rcases live_spawned hi with hi | ⟨_, rfl, rfl⟩
      · exact ih hi
      · exact (begins _ _ _ _ h).drain M.eval _
    | resume h =>
      rcases live_resumed hi with ⟨_, hi⟩ | ⟨_, rfl, rfl⟩
      · exact ih hi
      · exact ((ih h).2 _).drain M.eval _
    | stop h => exact ih (live_halted hi).2
    | outside h => exact ih hi

theorem Run.called_only {P : Tag → Op → Prop} {w₀ : World}
    (begins : ∀ t w w' p, M.start t w = some (w', p) → p.Only (P t))
    (h : M.Run ok (.fresh w₀) s) {i : Nat} {op : Op} {reply : Option (Except ε (Res op))}
    {seen : Except ε (Res op)} (hm : Entry.called i op reply seen ∈ s.trace) :
    ∃ tag, s.threads[i]?.map (·.tag) = some tag ∧ P tag op := by
  induction h with
  | refl => simp [State.fresh] at hm
  | tail hr _ hs ih =>
    rcases hs.called hm with hm | ⟨tag, k, o, hi, rfl, rfl, _, _⟩
    · obtain ⟨tag, htag, hP⟩ := ih hm
      exact ⟨tag, hs.tag htag, hP⟩
    · refine ⟨tag, hs.tag ?_, (hr.only begins hi).1⟩
      rw [hi]
      rfl

theorem Run.seen_ok {w₀ : World} (h : M.Run ok (.fresh w₀) s) {i : Nat} {op : Op}
    {reply : Option (Except ε (Res op))} {a : Res op}
    (hm : Entry.called i op reply (.ok a) ∈ s.trace) : reply = some (.ok a) := by
  induction h with
  | refl => simp [State.fresh] at hm
  | tail _ _ hs ih =>
    rcases hs.called hm with hm | ⟨tag, k, o, _, rfl, rfl, hreply, hseen⟩
    · exact ih hm
    · exact hreply.symm.trans (attend_ok hseen)

end Runs

end Machine

/-! ## Monitored threads -/

section Monitored

variable {σ : Type} (m : Monitor Res ε σ)

/-- The monitor's move on one entry of the trace, seen from thread `i`. -/
def Monitor.observe (i : Nat) (st : σ) : Entry Res ε Tag Env → σ
  | .called j op _ seen => if j = i then m.next st op seen else st
  | _ => st

/-- The state of the monitor of thread `i` after a trace. -/
def Monitor.stateAt (i : Nat) (st : σ) (trace : List (Entry Res ε Tag Env)) : σ :=
  trace.foldl (m.observe i) st

@[simp] theorem Monitor.stateAt_append (i : Nat) (st : σ) (tr : List (Entry Res ε Tag Env))
    (e : Entry Res ε Tag Env) :
    m.stateAt i st (tr ++ [e]) = m.observe i (m.stateAt i st tr) e := by
  simp [Monitor.stateAt]

/-- What every move of a monitor keeps holds of its state after any trace. -/
theorem Monitor.stateAt_keeps {I : σ → Prop} (keeps : ∀ st op r, I st → I (m.next st op r))
    (i : Nat) {st : σ} (h : I st) (tr : List (Entry Res ε Tag Env)) : I (m.stateAt i st tr) := by
  induction tr using List.reverseRecOn with
  | nil => exact h
  | append_singleton tr e ih =>
    rw [Monitor.stateAt_append]
    cases e with
    | called j op reply seen =>
      by_cases hj : j = i
      · simp only [Monitor.observe, if_pos hj]
        exact keeps _ op seen ih
      · simp only [Monitor.observe, if_neg hj]
        exact ih
    | _ => exact ih

/-- The monitor of a thread moves with the thread's own calls only. -/
theorem Machine.Step.stateAt {M : Machine Res Val ε α World Tag Choice Env}
    {s s' : State Res Val ε α World Tag Env} {e : Event Tag Choice Env ε} (h : M.Step s e s')
    (i : Nat) (st : σ) : m.stateAt i st s'.trace = m.stateAt i st s.trace ∨
      ∃ tag op k o, s.Live i tag (.await op k) ∧ e = .resume i o ∧
        s' = M.resumed s i tag op k o ∧
        m.stateAt i st s'.trace =
          m.next (m.stateAt i st s.trace) op (M.attend op o s.world).2.2 := by
  cases h with
  | begin h => exact Or.inl (by simp [Machine.spawned, Monitor.observe])
  | @resume i' tag op k o h =>
    by_cases hii : i' = i
    · subst hii
      refine Or.inr ⟨tag, op, k, o, h, rfl, rfl, ?_⟩
      simp [Machine.resumed, Monitor.observe]
    · exact Or.inl (by simp [Machine.resumed, Monitor.observe, hii])
  | stop h => exact Or.inl (by simp [Machine.halted, Monitor.observe])
  | outside h => exact Or.inl (by simp [Machine.moved, Monitor.observe])

/-- A step of its own or a stop apart, a live thread stays where it is. -/
theorem Machine.Step.live {M : Machine Res Val ε α World Tag Choice Env}
    {s s' : State Res Val ε α World Tag Env} {e : Event Tag Choice Env ε} (h : M.Step s e s')
    {i : Nat} {tag : Tag} {p : Prog Res Val ε α} (hi : s.Live i tag p) (st : σ) :
    (s'.Live i tag p ∧ m.stateAt i st s'.trace = m.stateAt i st s.trace) ∨
      (∃ op k o, p = .await op k ∧ e = .resume i o ∧ s' = M.resumed s i tag op k o) ∨
      ∃ op k, p = .await op k ∧ e = .stop i := by
  cases h with
  | begin h =>
    refine Or.inl ⟨Machine.live_spawned_of hi, ?_⟩
    simp [Machine.spawned, Monitor.observe]
  | @resume i' tag' op k o h =>
    by_cases hii : i = i'
    · subst hii
      obtain ⟨rfl, rfl⟩ := Machine.Live.unique hi h
      exact Or.inr (Or.inl ⟨op, k, o, rfl, rfl, rfl⟩)
    · refine Or.inl ⟨Machine.live_resumed_of hii hi, ?_⟩
      simp [Machine.resumed, Monitor.observe, Ne.symm hii]
  | @stop i' tag' op k h =>
    by_cases hii : i = i'
    · subst hii
      obtain ⟨rfl, rfl⟩ := Machine.Live.unique hi h
      exact Or.inr (Or.inr ⟨op, k, rfl, rfl⟩)
    · refine Or.inl ⟨Machine.live_halted_of hii hi, ?_⟩
      simp [Machine.halted, Monitor.observe]
  | outside h =>
    refine Or.inl ⟨hi, ?_⟩
    simp [Machine.moved, Monitor.observe]

/-- A live thread was where it is before the step, or the step is its own, or begins it. -/
theorem Machine.Step.live_cases {M : Machine Res Val ε α World Tag Choice Env}
    {s s' : State Res Val ε α World Tag Env} {e : Event Tag Choice Env ε} (h : M.Step s e s')
    {i : Nat} {tag : Tag} {p : Prog Res Val ε α} (hi : s'.Live i tag p) :
    s.Live i tag p ∨
      (∃ op k o, s.Live i tag (.await op k) ∧ e = .resume i o ∧ s' = M.resumed s i tag op k o) ∨
      (i = s.threads.length ∧ e = .begin tag) := by
  cases h with
  | begin h =>
    rcases Machine.live_spawned hi with hi | ⟨rfl, rfl, _⟩
    · exact Or.inl hi
    · exact Or.inr (Or.inr ⟨rfl, rfl⟩)
  | resume h =>
    rcases Machine.live_resumed hi with ⟨_, hi⟩ | ⟨rfl, rfl, _⟩
    · exact Or.inl hi
    · exact Or.inr (Or.inl ⟨_, _, _, h, rfl, rfl⟩)
  | stop h => exact Or.inl (Machine.live_halted hi).2
  | outside h => exact Or.inl hi

/-- Entries of threads not yet begun do not exist, so a new monitor is in its first state. -/
def State.Numbered (s : State Res Val ε α World Tag Env) : Prop :=
  ∀ i op reply seen, Entry.called i op reply seen ∈ s.trace → i < s.threads.length

theorem Monitor.stateAt_of_absent {i : Nat} (st : σ) {tr : List (Entry Res ε Tag Env)}
    (h : ∀ op reply seen, Entry.called i op reply seen ∉ tr) : m.stateAt i st tr = st := by
  induction tr using List.reverseRecOn with
  | nil => rfl
  | append_singleton tr e ih =>
    rw [Monitor.stateAt_append, ih fun op reply seen hm =>
      h op reply seen (List.mem_append_left _ hm)]
    cases e with
    | called j op reply seen =>
      have hne : j ≠ i := by
        rintro rfl
        exact h op reply seen (by simp)
      simp [Monitor.observe, hne]
    | began j t => rfl
    | stopped j => rfl
    | outside x => rfl

namespace Machine

variable {M : Machine Res Val ε α World Tag Choice Env}
variable {ok : State Res Val ε α World Tag Env → Event Tag Choice Env ε → Prop}
variable {w₀ : World} {s : State Res Val ε α World Tag Env}

theorem Run.numbered (h : M.Run ok (.fresh w₀) s) : s.Numbered := by
  refine h.keeps (I := State.Numbered) ?_ ?_
  · intro i op reply seen hm
    simp [State.fresh] at hm
  · intro s e s' _ ih _ hs i op reply seen hm
    cases hs with
    | begin h =>
      simp only [spawned, List.mem_append, List.mem_singleton, reduceCtorEq, or_false] at hm
      have := ih i op reply seen hm
      simp only [spawned, List.length_append]
      omega
    | @resume j tag op' k o h =>
      have hj : j < s.threads.length := (List.getElem?_eq_some_iff.mp h).1
      simp only [resumed, List.mem_append, List.mem_singleton, List.length_set] at hm ⊢
      rcases hm with hm | hm
      · exact ih i op reply seen hm
      · cases hm
        exact hj
    | stop h =>
      simp only [halted, List.mem_append, List.mem_singleton, reduceCtorEq, or_false,
        List.length_set] at hm ⊢
      exact ih i op reply seen hm
    | outside h =>
      simp only [moved, List.mem_append, List.mem_singleton, reduceCtorEq, or_false] at hm ⊢
      exact ih i op reply seen hm

/-- Every thread keeps to its monitor in every run: what its program satisfied when it
began, the rest of it satisfies at the state its own calls have led to. -/
theorem Run.monitored_ok (st₀ : Tag → σ) (Q : Tag → σ → Except ε α → Prop)
    (begins : ∀ s t w p, ok s (.begin t) → M.start t s.world = some (w, p) → p.wp m (st₀ t) (Q t))
    (admits : ∀ s i tag op k o, M.Run ok (.fresh w₀) s → ok s (.resume i o) →
      s.Live i tag (.await op k) →
      m.admits (m.stateAt i (st₀ tag) s.trace) op (M.attend op o s.world).2.2)
    (h : M.Run ok (.fresh w₀) s) {i : Nat} {tag : Tag} {p : Prog Res Val ε α}
    (hi : s.Live i tag p) : p.wp m (m.stateAt i (st₀ tag) s.trace) (Q tag) := by
  induction h generalizing i tag p with
  | refl => simp [State.Live, State.fresh] at hi
  | @tail s s' e hr hok hs ih =>
    cases hs with
    | @begin t w q h =>
      simp only [spawned, Monitor.stateAt_append, Monitor.observe]
      rcases live_spawned hi with hi | ⟨rfl, rfl, rfl⟩
      · exact ih hi
      · rw [m.stateAt_of_absent _ fun op reply seen hm =>
          absurd (hr.numbered _ op reply seen hm) (Nat.lt_irrefl _)]
        exact Prog.wp_drain M.eval (begins _ _ _ _ hok h) _
    | @resume j tag' op k o h =>
      simp only [resumed, Monitor.stateAt_append, Monitor.observe]
      rcases live_resumed hi with ⟨hne, hi⟩ | ⟨rfl, rfl, rfl⟩
      · rw [if_neg (Ne.symm hne)]
        exact ih hi
      · rw [if_pos rfl]
        exact Prog.wp_drain M.eval ((ih h).2 _ (admits _ _ _ _ _ _ hr hok h)) _
    | stop h =>
      simp only [halted, Monitor.stateAt_append, Monitor.observe]
      exact ih (live_halted hi).2
    | outside h =>
      simp only [moved, Monitor.stateAt_append, Monitor.observe]
      exact ih hi

/-- The same for a monitor that needs nothing from the steps. -/
theorem Run.monitored (st₀ : Tag → σ) (Q : Tag → σ → Except ε α → Prop)
    (begins : ∀ t w w' p, M.start t w = some (w', p) → p.wp m (st₀ t) (Q t))
    (admits : ∀ s i tag op k o, M.Run ok (.fresh w₀) s → s.Live i tag (.await op k) →
      m.admits (m.stateAt i (st₀ tag) s.trace) op (M.attend op o s.world).2.2)
    (h : M.Run ok (.fresh w₀) s) {i : Nat} {tag : Tag} {p : Prog Res Val ε α}
    (hi : s.Live i tag p) : p.wp m (m.stateAt i (st₀ tag) s.trace) (Q tag) :=
  h.monitored_ok m st₀ Q (fun _ t _ p _ => begins t _ _ p)
    (fun s i tag op k o hr _ => admits s i tag op k o hr) hi

end Machine

end Monitored

end Async
