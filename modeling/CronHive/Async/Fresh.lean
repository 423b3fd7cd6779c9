import CronHive.Async.Interleaving
import Mathlib.Data.Set.Basic

/-!
# Fresh numbers

A local effect may draw a number that has never been drawn before. A program that puts a number
into a call only after drawing it itself shares none with another thread, whatever the two are
interleaved with.
-/

namespace Async

set_option autoImplicit false

/-- Which numbers a call carries and which a local effect with value `v` has drawn. -/
structure FreshDraws (Op : Type) {Loc : Type} (Val : Loc → Type) where
  carries : Op → Nat → Prop
  drawn : (l : Loc) → Val l → Nat → Prop

namespace Prog

variable {Op Loc : Type} {Res : Op → Type} {Val : Loc → Type} {ε α β : Type}
variable (D : FreshDraws Op Val)

/-- From the numbers it has, the program carries only those and what it draws on the way. -/
def owns : Prog Res Val ε α → Set Nat → (Set Nat → Except ε α → Prop) → Prop
  | .ret a, own, Q => Q own (.ok a)
  | .fail e, own, Q => Q own (.error e)
  | .await op k, own, Q => (∀ n, D.carries op n → n ∈ own) ∧ ∀ r, (k r).owns own Q
  | .sync l k, own, Q => ∀ v, (k v).owns (own ∪ {n | D.drawn l v n}) Q

theorem owns_perform {op : Op} {own : Set Nat} {Q : Set Nat → Except ε (Res op) → Prop}
    (hop : ∀ n, D.carries op n → n ∈ own) (hQ : ∀ r, Q own r) :
    (perform op : Prog Res Val ε (Res op)).owns D own Q := by
  refine ⟨hop, fun r => ?_⟩
  cases r with
  | ok a => exact hQ (.ok a)
  | error e => exact hQ (.error e)

theorem owns_effect {l : Loc} {own : Set Nat} {Q : Set Nat → Except ε (Val l) → Prop}
    (hQ : ∀ v, Q (own ∪ {n | D.drawn l v n}) (.ok v)) :
    (effect l : Prog Res Val ε (Val l)).owns D own Q := hQ

theorem owns_bind {p : Prog Res Val ε α} {f : α → Prog Res Val ε β} {own : Set Nat}
    {Q : Set Nat → Except ε β → Prop} (h : p.owns D own fun own' r => match r with
      | .ok a => (f a).owns D own' Q
      | .error e => Q own' (.error e)) : (p.bind f).owns D own Q := by
  induction p generalizing own with
  | ret a => exact h
  | fail e => exact h
  | await op k ih => exact ⟨h.1, fun r => ih r (h.2 r)⟩
  | sync l k ih => exact fun v => ih v (h v)

theorem owns_tryCatch {p : Prog Res Val ε α} {f : ε → Prog Res Val ε α} {own : Set Nat}
    {Q : Set Nat → Except ε α → Prop} (h : p.owns D own fun own' r => match r with
      | .ok a => Q own' (.ok a)
      | .error e => (f e).owns D own' Q) : (p.tryCatch f).owns D own Q := by
  induction p generalizing own with
  | ret a => exact h
  | fail e => exact h
  | await op k ih => exact ⟨h.1, fun r => ih r (h.2 r)⟩
  | sync l k ih => exact fun v => ih v (h v)

/-- The consequence rule; numbers are never given up. -/
theorem owns_mono {p : Prog Res Val ε α} {own : Set Nat} {Q Q' : Set Nat → Except ε α → Prop}
    (weaken : ∀ own' r, own ⊆ own' → Q own' r → Q' own' r) (h : p.owns D own Q) :
    p.owns D own Q' := by
  induction p generalizing own with
  | ret a => exact weaken own _ (Set.Subset.refl own) h
  | fail e => exact weaken own _ (Set.Subset.refl own) h
  | await op k ih => exact ⟨h.1, fun r => ih r weaken (h.2 r)⟩
  | sync l k ih =>
    intro v
    apply ih v _ (h v)
    intro own' r hsub
    exact weaken own' r (Set.Subset.trans Set.subset_union_left hsub)

theorem owns_superset {p : Prog Res Val ε α} {own own' : Set Nat} (hsub : own ⊆ own')
    (h : p.owns D own fun _ _ => True) : p.owns D own' fun _ _ => True := by
  induction p generalizing own own' with
  | ret a => trivial
  | fail e => trivial
  | await op k ih => exact ⟨fun n hn => hsub (h.1 n hn), fun r => ih r hsub (h.2 r)⟩
  | sync l k ih => exact fun v => ih v (Set.union_subset_union_left _ hsub) (h v)

theorem Only.owns {p : Prog Res Val ε α} (h : p.Only fun op => ∀ n, ¬ D.carries op n)
    (own : Set Nat) : p.owns D own fun _ _ => True := by
  induction p generalizing own with
  | ret a => trivial
  | fail e => trivial
  | await op k ih => exact ⟨fun n hn => absurd hn (h.1 n), fun r => ih r (h.2 r) own⟩
  | sync l k ih => exact fun v => ih v (h v) _

end Prog

variable {Op Loc : Type} {Res : Op → Type} {Val : Loc → Type} {ε α : Type}
variable {World Tag Choice Env : Type}
variable (M : Machine Res Val ε α World Tag Choice Env) (D : FreshDraws Op Val)

/-- The counter numbers are drawn from: it never falls, what an effect draws it passes, and
every task begins with no number. -/
structure Machine.DrawsFrom (counter : World → Nat) : Prop where
  exec : ∀ op c w, counter w ≤ counter (M.exec op c w).1
  eval : ∀ l w, counter w ≤ counter (M.eval l w).1
  drawn : ∀ l w n, D.drawn l (M.eval l w).2 n → counter w ≤ n ∧ n < counter (M.eval l w).1
  start : ∀ t w w' p, M.start t w = some (w', p) →
    counter w ≤ counter w' ∧ p.owns D ∅ fun _ _ => True
  outside : ∀ x w w', M.outside x w = some w' → counter w ≤ counter w'

/-- The numbers of each thread: drawn by it, by no other, and the only ones in its calls. -/
structure State.Owned (counter : World → Nat) (s : State Res Val ε α World Tag Env)
    (own : Nat → Set Nat) : Prop where
  below : ∀ i, ∀ n ∈ own i, n < counter s.world
  apart : ∀ i i' n, n ∈ own i → n ∈ own i' → i = i'
  live : ∀ i tag p, s.Live i tag p → p.owns D (own i) fun _ _ => True
  called : ∀ i op reply seen n, Entry.called i op reply seen ∈ s.trace → D.carries op n → n ∈ own i

namespace Machine

variable {M D} {counter : World → Nat}

theorem DrawsFrom.attend (h : M.DrawsFrom D counter) (op : Op) (o : Outcome Choice ε) (w : World) :
    counter w ≤ counter (M.attend op o w).1 := by
  rcases attend_cases (M := M) op o w with ⟨_, hw, _⟩ | ⟨c, hw, _⟩
  · rw [hw]
  · rw [hw]
    exact h.exec op c w

theorem DrawsFrom.drain (h : M.DrawsFrom D counter) {p : Prog Res Val ε α} {own : Set Nat}
    {Q : Set Nat → Except ε α → Prop} (hp : p.owns D own Q) (w : World) :
    counter w ≤ counter (p.drain M.eval w).1 ∧ ∃ own', own ⊆ own' ∧
      (p.drain M.eval w).2.owns D own' Q ∧
        ∀ n ∈ own', n ∈ own ∨ (counter w ≤ n ∧ n < counter (p.drain M.eval w).1) := by
  induction p generalizing own w with
  | ret a => exact ⟨Nat.le_refl _, own, Set.Subset.refl own, hp, fun n hn => Or.inl hn⟩
  | fail e => exact ⟨Nat.le_refl _, own, Set.Subset.refl own, hp, fun n hn => Or.inl hn⟩
  | await op k _ => exact ⟨Nat.le_refl _, own, Set.Subset.refl own, hp, fun n hn => Or.inl hn⟩
  | sync l k ih =>
    have heval := h.eval l w
    obtain ⟨hle, own', hsub, howns, hnew⟩ := ih (M.eval l w).2 (hp (M.eval l w).2) (M.eval l w).1
    refine ⟨Nat.le_trans heval hle, own', Set.Subset.trans Set.subset_union_left hsub, howns, ?_⟩
    intro n hn
    rcases hnew n hn with (hold | hdrawn) | ⟨hlow, hhigh⟩
    · exact Or.inl hold
    · obtain ⟨hlow, hhigh⟩ := h.drawn l w n hdrawn
      exact Or.inr ⟨hlow, Nat.lt_of_lt_of_le hhigh hle⟩
    · exact Or.inr ⟨Nat.le_trans heval hlow, hhigh⟩

end Machine

namespace State.Owned

variable {M D} {counter : World → Nat} {s s' : State Res Val ε α World Tag Env}
  {own : Nat → Set Nat}

theorem extend (h : s.Owned D counter own) {i : Nat} {new : Set Nat}
    (hle : counter s.world ≤ counter s'.world) (hsub : own i ⊆ new)
    (hnew : ∀ n ∈ new, n ∈ own i ∨ (counter s.world ≤ n ∧ n < counter s'.world))
    (hlive : ∀ i' tag p, s'.Live i' tag p → p.owns D (Function.update own i new i') fun _ _ => True)
    (hcalled : ∀ i' op reply seen n, Entry.called i' op reply seen ∈ s'.trace → D.carries op n →
      n ∈ Function.update own i new i') : s'.Owned D counter (Function.update own i new) := by
  refine ⟨fun i' n hn => ?_, fun i' i'' n hn hn' => ?_, hlive, hcalled⟩
  · by_cases hi : i' = i
    · subst hi
      rw [Function.update_self] at hn
      rcases hnew n hn with hold | ⟨_, hlt⟩
      · exact Nat.lt_of_lt_of_le (h.below i' n hold) hle
      · exact hlt
    · rw [Function.update_of_ne hi] at hn
      exact Nat.lt_of_lt_of_le (h.below i' n hn) hle
  · have hother {j : Nat} (hj : j ≠ i) (hn : n ∈ own j) (hmine : n ∈ new) : False := by
      rcases hnew n hmine with hold | ⟨hlow, _⟩
      · exact hj (h.apart j i n hn hold)
      · exact absurd (h.below j n hn) (Nat.not_lt.mpr hlow)
    by_cases hi : i' = i
    · subst hi
      by_cases hi' : i'' = i'
      · exact hi'.symm
      · rw [Function.update_self] at hn
        rw [Function.update_of_ne hi'] at hn'
        exact (hother hi' hn' hn).elim
    · rw [Function.update_of_ne hi] at hn
      by_cases hi' : i'' = i
      · subst hi'
        rw [Function.update_self] at hn'
        exact (hother hi hn hn').elim
      · rw [Function.update_of_ne hi'] at hn'
        exact h.apart i' i'' n hn hn'

theorem begin (h : s.Owned D counter own) (hD : M.DrawsFrom D counter) (hnum : s.Numbered)
    {t : Tag} {w : World} {p : Prog Res Val ε α} (hstart : M.start t s.world = some (w, p)) :
    ∃ own', (M.spawned s t w p).Owned D counter own' := by
  obtain ⟨hle, hp⟩ := hD.start t s.world w p hstart
  obtain ⟨hdrain, new, _, howns, hnew⟩ := hD.drain hp w
  have hle' : counter s.world ≤ counter (M.spawned s t w p).world := Nat.le_trans hle hdrain
  have hnew' (n : Nat) (hn : n ∈ new ∪ own s.threads.length) : n ∈ own s.threads.length ∨
      (counter s.world ≤ n ∧ n < counter (M.spawned s t w p).world) := by
    rcases hn with hn | hn
    · rcases hnew n hn with hnone | ⟨hlow, hhigh⟩
      · exact hnone.elim
      · exact Or.inr ⟨Nat.le_trans hle hlow, hhigh⟩
    · exact Or.inl hn
  refine ⟨_, h.extend hle' Set.subset_union_right hnew' ?_ ?_⟩
  · intro i tag q hi
    rcases Machine.live_spawned hi with hi | ⟨rfl, rfl, rfl⟩
    · have hne : i ≠ s.threads.length :=
        Nat.ne_of_lt (List.getElem?_eq_some_iff.mp hi).1
      rw [Function.update_of_ne hne]
      exact h.live i tag q hi
    · rw [Function.update_self]
      exact Prog.owns_superset D Set.subset_union_left howns
  · intro i op reply seen n hm hn
    rcases List.mem_append.mp hm with hm | hm
    · rw [Function.update_of_ne (Nat.ne_of_lt (hnum i op reply seen hm))]
      exact h.called i op reply seen n hm hn
    · cases List.mem_singleton.mp hm

theorem resume (h : s.Owned D counter own) (hD : M.DrawsFrom D counter) {i : Nat} {tag : Tag}
    {op : Op} {k : Except ε (Res op) → Prog Res Val ε α} (hi : s.Live i tag (.await op k))
    (o : Outcome Choice ε) : ∃ own', (M.resumed s i tag op k o).Owned D counter own' := by
  have hp := h.live i tag _ hi
  have hattend := hD.attend op o s.world
  obtain ⟨hdrain, new, hsub, howns, hnew⟩ :=
    hD.drain (hp.2 (M.attend op o s.world).2.2) (M.attend op o s.world).1
  have hnew' (n : Nat) (hn : n ∈ new) : n ∈ own i ∨
      (counter s.world ≤ n ∧ n < counter (M.resumed s i tag op k o).world) := by
    rcases hnew n hn with hold | ⟨hlow, hhigh⟩
    · exact Or.inl hold
    · exact Or.inr ⟨Nat.le_trans hattend hlow, hhigh⟩
  refine ⟨_, h.extend (Nat.le_trans hattend hdrain) hsub hnew' ?_ ?_⟩
  · intro i' tag' q hi'
    rcases Machine.live_resumed hi' with ⟨hne, hi'⟩ | ⟨rfl, rfl, rfl⟩
    · rw [Function.update_of_ne hne]
      exact h.live i' tag' q hi'
    · rw [Function.update_self]
      exact howns
  · intro i' op' reply seen n hm hn
    have hold (hown : n ∈ own i') : n ∈ Function.update own i new i' := by
      by_cases hne : i' = i
      · subst hne
        rw [Function.update_self]
        exact hsub hown
      · rw [Function.update_of_ne hne]
        exact hown
    apply hold
    rcases List.mem_append.mp hm with hm | hm
    · exact h.called i' op' reply seen n hm hn
    · cases List.mem_singleton.mp hm
      exact hp.1 n hn

theorem frame (h : s.Owned D counter own) (hle : counter s.world ≤ counter s'.world)
    (hlive : ∀ i tag p, s'.Live i tag p → s.Live i tag p)
    (hcalled : ∀ i op reply seen, Entry.called i op reply seen ∈ s'.trace →
      Entry.called i op reply seen ∈ s.trace) : s'.Owned D counter own where
  below i n hn := Nat.lt_of_lt_of_le (h.below i n hn) hle
  apart := h.apart
  live i tag p hi := h.live i tag p (hlive i tag p hi)
  called i op reply seen n hm hn := h.called i op reply seen n (hcalled i op reply seen hm) hn

theorem step (h : s.Owned D counter own) (hD : M.DrawsFrom D counter) (hnum : s.Numbered)
    {e : Event Tag Choice Env ε} (hs : M.Step s e s') : ∃ own', s'.Owned D counter own' := by
  have hsilent {x : Entry Res ε Tag Env} (hx : ∀ i op reply seen, x ≠ .called i op reply seen)
      {i : Nat} {op : Op} {reply : Option (Except ε (Res op))} {seen : Except ε (Res op)}
      (hm : Entry.called i op reply seen ∈ s.trace ++ [x]) :
      Entry.called i op reply seen ∈ s.trace := by
    rcases List.mem_append.mp hm with hm | hm
    · exact hm
    · exact absurd (List.mem_singleton.mp hm).symm (hx i op reply seen)
  cases hs with
  | begin hstart => exact h.begin hD hnum hstart
  | resume hi => exact h.resume hD hi _
  | stop hi =>
    refine ⟨own, h.frame (Nat.le_refl _) (fun i tag p hi => (Machine.live_halted hi).2) ?_⟩
    intro i op reply seen hm
    refine hsilent ?_ hm
    intro _ _ _ _ hentry
    cases hentry
  | @outside x w hx =>
    refine ⟨own, h.frame (hD.outside x s.world w hx) (fun i tag p hi => hi) ?_⟩
    intro i op reply seen hm
    refine hsilent ?_ hm
    intro _ _ _ _ hentry
    cases hentry

end State.Owned

/-- Thread `i` has made or awaits a call that carries the number. -/
def State.Carries (s : State Res Val ε α World Tag Env) (i n : Nat) : Prop :=
  (∃ op reply seen, Entry.called i op reply seen ∈ s.trace ∧ D.carries op n) ∨
    ∃ op, s.Awaits i op ∧ D.carries op n

namespace Machine

variable {M D} {counter : World → Nat}
variable {ok : State Res Val ε α World Tag Env → Event Tag Choice Env ε → Prop}
variable {w₀ : World} {s : State Res Val ε α World Tag Env}

theorem Run.owned (h : M.Run ok (.fresh w₀) s) (hD : M.DrawsFrom D counter) :
    ∃ own, s.Owned D counter own := by
  apply h.keeps
  · refine ⟨fun _ => ∅, fun i n hn => hn.elim, fun i i' n hn => hn.elim, ?_, ?_⟩
    · intro i tag p hi
      simp [State.Live, State.fresh] at hi
    · intro i op reply seen n hm
      simp [State.fresh] at hm
  · intro s e s' hr ih _ hs
    obtain ⟨own, hown⟩ := ih
    exact hown.step hD hr.numbered hs

/-- No two threads carry one number. -/
theorem Run.carries_unique (h : M.Run ok (.fresh w₀) s) (hD : M.DrawsFrom D counter) {i i' n : Nat}
    (hi : s.Carries D i n) (hi' : s.Carries D i' n) : i = i' := by
  obtain ⟨own, hown⟩ := h.owned hD
  have hmem {j : Nat} (hj : s.Carries D j n) : n ∈ own j := by
    rcases hj with ⟨op, reply, seen, hm, hn⟩ | ⟨op, ⟨tag, k, hi⟩, hn⟩
    · exact hown.called j op reply seen n hm hn
    · exact (hown.live j tag _ hi).1 n hn
  exact hown.apart i i' n (hmem hi) (hmem hi')

end Machine

end Async
