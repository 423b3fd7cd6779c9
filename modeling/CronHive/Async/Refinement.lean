import CronHive.Async.Solo
import Mathlib.Data.List.Basic

/-!
# A front over a machine

A second machine over the same stores, whose tasks either run a task of the first behind a
program of their own, or only read. Every run of the front is a run of the machine behind it,
with the same worlds, once the tasks that only read are left out.
-/

namespace Async

set_option autoImplicit false

variable {Op Loc : Type} {Res : Op → Type} {Val : Loc → Type} {ε α β : Type}
variable {World Tag Tag' Choice Env : Type}

namespace Prog

/-- `q` makes the calls of `p` and no others, and ends when `p` does, with a result that `R`
relates to the one of `p`. -/
def ServedBy (R : Except ε α → Except ε β → Prop) : Prog Res Val ε α → Prog Res Val ε β → Prop
  | .ret a, q => ∃ r, q = .done r ∧ R (.ok a) r
  | .fail e, q => ∃ r, q = .done r ∧ R (.error e) r
  | .await op k, q => ∃ k', q = .await op k' ∧ ∀ r, ServedBy R (k r) (k' r)
  | .sync l k, q => ∃ k', q = .sync l k' ∧ ∀ v, ServedBy R (k v) (k' v)

variable {R : Except ε α → Except ε β → Prop}

theorem ServedBy.refl (p : Prog Res Val ε α) : p.ServedBy Eq p := by
  induction p with
  | ret a => exact ⟨.ok a, rfl, rfl⟩
  | fail e => exact ⟨.error e, rfl, rfl⟩
  | await op k ih => exact ⟨k, rfl, ih⟩
  | sync l k ih => exact ⟨k, rfl, ih⟩

theorem ServedBy.mono {R' : Except ε α → Except ε β → Prop} {p : Prog Res Val ε α}
    {q : Prog Res Val ε β} (h : p.ServedBy R q) (weaken : ∀ r r', R r r' → R' r r') :
    p.ServedBy R' q := by
  induction p generalizing q with
  | ret a =>
    obtain ⟨r, hq, hr⟩ := h
    exact ⟨r, hq, weaken _ _ hr⟩
  | fail e =>
    obtain ⟨r, hq, hr⟩ := h
    exact ⟨r, hq, weaken _ _ hr⟩
  | await op k ih =>
    obtain ⟨k', hq, hk⟩ := h
    exact ⟨k', hq, fun r => ih r (hk r)⟩
  | sync l k ih =>
    obtain ⟨k', hq, hk⟩ := h
    exact ⟨k', hq, fun v => ih v (hk v)⟩

/-- The result is answered with, without a further call. -/
theorem ServedBy.bind {γ : Type} {R' : Except ε α → Except ε γ → Prop} {p : Prog Res Val ε α}
    {q : Prog Res Val ε β} (h : p.ServedBy R q) {f : β → Prog Res Val ε γ}
    (hok : ∀ r b, R r (.ok b) → ∃ r', f b = .done r' ∧ R' r r')
    (herror : ∀ r e, R r (.error e) → R' r (.error e)) : p.ServedBy R' (q.bind f) := by
  have ends (r : Except ε α) (x : Except ε β) (hx : R r x) :
      ∃ r', (Prog.done x : Prog Res Val ε β).bind f = .done r' ∧ R' r r' := by
    cases x with
    | ok b => exact hok r b hx
    | error e => exact ⟨.error e, rfl, herror r e hx⟩
  induction p generalizing q with
  | ret a =>
    obtain ⟨x, rfl, hx⟩ := h
    exact ends _ x hx
  | fail e =>
    obtain ⟨x, rfl, hx⟩ := h
    exact ends _ x hx
  | await op k ih =>
    obtain ⟨k', rfl, hk⟩ := h
    exact ⟨fun r => (k' r).bind f, rfl, fun r => ih r (hk r)⟩
  | sync l k ih =>
    obtain ⟨k', rfl, hk⟩ := h
    exact ⟨fun v => (k' v).bind f, rfl, fun v => ih v (hk v)⟩

/-- One program answered in two ways. -/
theorem servedBy_answers {γ : Type} (p : Prog Res Val ε γ) (f : γ → α) (g : γ → β)
    (hok : ∀ c, R (.ok (f c)) (.ok (g c))) (herror : ∀ e, R (.error e) (.error e)) :
    (p.bind fun c => .ret (f c)).ServedBy R (p.bind fun c => .ret (g c)) := by
  induction p with
  | ret c => exact ⟨.ok (g c), rfl, hok c⟩
  | fail e => exact ⟨.error e, rfl, herror e⟩
  | await op k ih => exact ⟨fun r => (k r).bind fun c => .ret (g c), rfl, ih⟩
  | sync l k ih => exact ⟨fun v => (k v).bind fun c => .ret (g c), rfl, ih⟩

/-- A failure is answered as well. -/
theorem ServedBy.tryCatch {R' : Except ε α → Except ε β → Prop} {p : Prog Res Val ε α}
    {q : Prog Res Val ε β} (h : p.ServedBy R q) {handle : ε → Prog Res Val ε β}
    (hok : ∀ r b, R r (.ok b) → R' r (.ok b))
    (herror : ∀ r e, R r (.error e) → ∃ r', handle e = .done r' ∧ R' r r') :
    p.ServedBy R' (q.tryCatch handle) := by
  have ends (r : Except ε α) (x : Except ε β) (hx : R r x) :
      ∃ r', (Prog.done x : Prog Res Val ε β).tryCatch handle = .done r' ∧ R' r r' := by
    cases x with
    | ok b => exact ⟨.ok b, rfl, hok r b hx⟩
    | error e => exact herror r e hx
  induction p generalizing q with
  | ret a =>
    obtain ⟨x, rfl, hx⟩ := h
    exact ends _ x hx
  | fail e =>
    obtain ⟨x, rfl, hx⟩ := h
    exact ends _ x hx
  | await op k ih =>
    obtain ⟨k', rfl, hk⟩ := h
    exact ⟨fun r => (k' r).tryCatch handle, rfl, fun r => ih r (hk r)⟩
  | sync l k ih =>
    obtain ⟨k', rfl, hk⟩ := h
    exact ⟨fun v => (k' v).tryCatch handle, rfl, fun v => ih v (hk v)⟩

theorem ServedBy.of_await {p : Prog Res Val ε α} {op : Op}
    {k : Except ε (Res op) → Prog Res Val ε β} (h : p.ServedBy R (.await op k)) :
    ∃ k₀, p = .await op k₀ ∧ ∀ r, (k₀ r).ServedBy R (k r) := by
  cases p with
  | ret a =>
    obtain ⟨r, hq, _⟩ := h
    cases r <;> cases hq
  | fail e =>
    obtain ⟨r, hq, _⟩ := h
    cases r <;> cases hq
  | await op₀ k₀ =>
    obtain ⟨k', hq, hk⟩ := h
    cases hq
    exact ⟨k₀, rfl, hk⟩
  | sync l k₀ =>
    obtain ⟨k', hq, _⟩ := h
    cases hq

theorem done_inj {r r' : Except ε β} (h : (.done r : Prog Res Val ε β) = .done r') : r = r' := by
  cases r with
  | ok b =>
    cases r' with
    | ok b' =>
      cases h
      rfl
    | error e' => cases h
  | error e =>
    cases r' with
    | ok b' => cases h
    | error e' =>
      cases h
      rfl

theorem ServedBy.of_done {p : Prog Res Val ε α} {r : Except ε β} (h : p.ServedBy R (.done r)) :
    ∃ r₀, p = .done r₀ ∧ R r₀ r := by
  cases p with
  | ret a =>
    obtain ⟨r', hq, hr⟩ := h
    cases done_inj hq
    exact ⟨.ok a, rfl, hr⟩
  | fail e =>
    obtain ⟨r', hq, hr⟩ := h
    cases done_inj hq
    exact ⟨.error e, rfl, hr⟩
  | await op k =>
    obtain ⟨k', hq, _⟩ := h
    cases r <;> cases hq
  | sync l k =>
    obtain ⟨k', hq, _⟩ := h
    cases r <;> cases hq

theorem drain_done (eval : (l : Loc) → World → World × Val l) (r : Except ε α) (w : World) :
    drain eval (.done r : Prog Res Val ε α) w = (w, .done r) := by
  cases r with
  | ok a => rfl
  | error e => rfl

/-- Both run the same local effects and stop at the same await. -/
theorem ServedBy.drain (eval : (l : Loc) → World → World × Val l) {p : Prog Res Val ε α}
    {q : Prog Res Val ε β} (h : p.ServedBy R q) (w : World) :
    (q.drain eval w).1 = (p.drain eval w).1 ∧
      (p.drain eval w).2.ServedBy R (q.drain eval w).2 := by
  induction p generalizing q w with
  | ret a =>
    obtain ⟨r, rfl, hr⟩ := h
    rw [drain_done]
    exact ⟨rfl, r, rfl, hr⟩
  | fail e =>
    obtain ⟨r, rfl, hr⟩ := h
    rw [drain_done]
    exact ⟨rfl, r, rfl, hr⟩
  | await op k _ =>
    obtain ⟨k', rfl, hk⟩ := h
    exact ⟨rfl, k', rfl, hk⟩
  | sync l k ih =>
    obtain ⟨k', rfl, hk⟩ := h
    exact ih _ (hk _) _

/-- The program makes calls in `reads` only, and has no local effect. -/
def Idle (reads : Op → Prop) : Prog Res Val ε β → Prop
  | .ret _ => True
  | .fail _ => True
  | .await op k => reads op ∧ ∀ r, (k r).Idle reads
  | .sync _ _ => False

theorem Idle.bind {γ : Type} {reads : Op → Prop} {q : Prog Res Val ε β}
    {f : β → Prog Res Val ε γ} (h : q.Idle reads) (hf : ∀ b, (f b).Idle reads) :
    (q.bind f).Idle reads := by
  induction q with
  | ret b => exact hf b
  | fail e => trivial
  | await op k ih => exact ⟨h.1, fun r => ih r (h.2 r)⟩
  | sync l k => cases h

theorem Idle.tryCatch {reads : Op → Prop} {q : Prog Res Val ε β} {handle : ε → Prog Res Val ε β}
    (h : q.Idle reads) (hhandle : ∀ e, (handle e).Idle reads) :
    (q.tryCatch handle).Idle reads := by
  induction q with
  | ret b => trivial
  | fail e => exact hhandle e
  | await op k ih => exact ⟨h.1, fun r => ih r (h.2 r)⟩
  | sync l k => cases h

theorem Idle.only {reads : Op → Prop} {q : Prog Res Val ε β} (h : q.Idle reads) :
    q.Only reads := by
  induction q with
  | ret b => trivial
  | fail e => trivial
  | await op k ih => exact ⟨h.1, fun r => ih r (h.2 r)⟩
  | sync l k => cases h

theorem only_of_forall {P : Op → Prop} {q : Prog Res Val ε β} (h : ∀ op, P op) : q.Only P := by
  induction q with
  | ret b => trivial
  | fail e => trivial
  | await op k ih => exact ⟨h op, ih⟩
  | sync l k ih => exact ih

theorem Idle.drain {reads : Op → Prop} (eval : (l : Loc) → World → World × Val l)
    {q : Prog Res Val ε β} (h : q.Idle reads) (w : World) : q.drain eval w = (w, q) := by
  cases q with
  | ret b => rfl
  | fail e => rfl
  | await op k => rfl
  | sync l k => cases h

end Prog

/-! ## Threads side by side -/

section Serving

variable (image : Tag' → Option Tag) (R : Tag' → Except ε α → Except ε β → Prop)
variable (reads : Op → Prop)

/-- Each thread of the front runs its task's program behind its own, or only reads. -/
inductive Serving :
    List (Thread Res Val ε β Tag') → List (Thread Res Val ε α Tag) → Prop where
  | nil : Serving [] []
  | idle {t : Tag'} {prog : Option (Prog Res Val ε β)} {ts : List (Thread Res Val ε β Tag')}
      {us : List (Thread Res Val ε α Tag)} (ht : image t = none)
      (hprog : ∀ q ∈ prog, q.Idle reads) (h : Serving ts us) : Serving (⟨t, prog⟩ :: ts) us
  | served {t : Tag'} {t' : Tag} {prog : Option (Prog Res Val ε β)}
      {prog' : Option (Prog Res Val ε α)} {ts : List (Thread Res Val ε β Tag')}
      {us : List (Thread Res Val ε α Tag)} (ht : image t = some t')
      (hprog : Option.Rel (fun p q => p.ServedBy (R t) q) prog' prog) (h : Serving ts us) :
      Serving (⟨t, prog⟩ :: ts) (⟨t', prog'⟩ :: us)

def served (tags : List Tag') (i : Nat) : Bool := (tags[i]?.bind image).isSome

/-- The number of a thread behind the front. -/
def rank (tags : List Tag') (i : Nat) : Nat := (tags.take i).countP fun t => (image t).isSome

variable {image} {R} {reads}
variable {ts ts' : List (Thread Res Val ε β Tag')} {us us' : List (Thread Res Val ε α Tag)}

theorem Serving.append (h : Serving image R reads ts us) (h' : Serving image R reads ts' us') :
    Serving image R reads (ts ++ ts') (us ++ us') := by
  induction h with
  | nil => exact h'
  | idle ht hprog _ ih => exact .idle ht hprog ih
  | served ht hprog _ ih => exact .served ht hprog ih

theorem Serving.length_eq (h : Serving image R reads ts us) :
    us.length = (ts.map (·.tag)).countP fun t => (image t).isSome := by
  induction h with
  | nil => rfl
  | idle ht hprog _ ih => simp [ht, ih]
  | served ht hprog _ ih => simp [ht, ih]

/-- What stands behind a thread, and that both may go on together. -/
theorem Serving.get (h : Serving image R reads ts us) {i : Nat} {t : Tag'}
    {prog : Option (Prog Res Val ε β)} (hi : ts[i]? = some ⟨t, prog⟩) :
    (image t = none ∧ (∀ q ∈ prog, q.Idle reads) ∧
      ∀ next : Option (Prog Res Val ε β), (∀ q ∈ next, q.Idle reads) →
        Serving image R reads (ts.set i ⟨t, next⟩) us) ∨
    ∃ t' prog', image t = some t' ∧ us[rank image (ts.map (·.tag)) i]? = some ⟨t', prog'⟩ ∧
      Option.Rel (fun p q => p.ServedBy (R t) q) prog' prog ∧
      ∀ next next', Option.Rel (fun p q => p.ServedBy (R t) q) next' next →
        Serving image R reads (ts.set i ⟨t, next⟩)
          (us.set (rank image (ts.map (·.tag)) i) ⟨t', next'⟩) := by
  induction h generalizing i with
  | nil => cases hi
  | idle ht hprog hrest ih =>
    cases i with
    | zero =>
      cases hi
      exact Or.inl ⟨ht, hprog, fun next hnext => .idle ht hnext hrest⟩
    | succ i =>
      rcases ih hi with ⟨hnone, hidle, hset⟩ | ⟨t', prog', hsome, hget, hrel, hset⟩
      · exact Or.inl ⟨hnone, hidle, fun next hnext => .idle ht hprog (hset next hnext)⟩
      · refine Or.inr ⟨t', prog', hsome, ?_, hrel, fun next next' hnext => ?_⟩
        · simpa [rank, ht] using hget
        · simpa [rank, ht] using Serving.idle ht hprog (hset next next' hnext)
  | @served t₁ t₁' _ prog₁' _ us₁ ht hprog hrest ih =>
    cases i with
    | zero =>
      cases hi
      exact Or.inr ⟨t₁', prog₁', ht, rfl, hprog, fun next next' hnext => .served ht hnext hrest⟩
    | succ i =>
      rcases ih hi with ⟨hnone, hidle, hset⟩ | ⟨t', prog', hsome, hget, hrel, hset⟩
      · exact Or.inl ⟨hnone, hidle, fun next hnext => .served ht hprog (hset next hnext)⟩
      · refine Or.inr ⟨t', prog', hsome, ?_, hrel, fun next next' hnext => ?_⟩
        · simpa [rank, ht] using hget
        · simpa [rank, ht] using Serving.served ht hprog (hset next next' hnext)

theorem rank_append {tags : List Tag'} {i : Nat} (h : i < tags.length) (t : Tag') :
    rank image (tags ++ [t]) i = rank image tags i := by
  rw [rank, rank, List.take_append_of_le_length (Nat.le_of_lt h)]

theorem served_append {tags : List Tag'} {i : Nat} (h : i < tags.length) (t : Tag') :
    served image (tags ++ [t]) i = served image tags i := by
  rw [served, served, List.getElem?_append_left h]

end Serving

/-! ## Traces side by side -/

namespace Entry

def tid? : Entry Res ε Tag Env → Option Nat
  | .began i _ => some i
  | .called i _ _ _ => some i
  | .stopped i => some i
  | .outside _ => none

/-- The entry as the machine behind the front leaves it; `none` if the thread only reads. -/
def behind (image : Tag' → Option Tag) (tags : List Tag') :
    Entry Res ε Tag' Env → Option (Entry Res ε Tag Env)
  | .began i t => (image t).map (.began (rank image tags i))
  | .called i op reply seen =>
      if served image tags i then some (.called (rank image tags i) op reply seen) else none
  | .stopped i => if served image tags i then some (.stopped (rank image tags i)) else none
  | .outside x => some (.outside x)

theorem behind_append {image : Tag' → Option Tag} {tags : List Tag'} {x : Entry Res ε Tag' Env}
    (h : ∀ i ∈ x.tid?, i < tags.length) (t : Tag') :
    x.behind image (tags ++ [t]) = x.behind image tags := by
  cases x with
  | began i t' => simp only [behind, rank_append (h i rfl)]
  | called i op reply seen => simp only [behind, rank_append (h i rfl), served_append (h i rfl)]
  | stopped i => simp only [behind, rank_append (h i rfl), served_append (h i rfl)]
  | outside x => rfl

end Entry

def State.tags (s : State Res Val ε α World Tag Env) : List Tag := s.threads.map (·.tag)

/-- Every entry of the trace is of a thread that has begun. -/
def State.Traced (s : State Res Val ε α World Tag Env) : Prop :=
  ∀ x ∈ s.trace, ∀ i ∈ x.tid?, i < s.threads.length

namespace Machine

section Traced

variable {M : Machine Res Val ε α World Tag Choice Env}
variable {s s' : State Res Val ε α World Tag Env} {e : Event Tag Choice Env ε}

theorem Live.tags_set {i : Nat} {tag : Tag} {p : Prog Res Val ε α} (h : s.Live i tag p)
    (next : Option (Prog Res Val ε α)) : (s.threads.set i ⟨tag, next⟩).map (·.tag) = s.tags := by
  rw [List.map_set, State.tags]
  have hget : (s.threads.map (·.tag))[i]? = some tag := by
    rw [List.getElem?_map, h]
    rfl
  obtain ⟨hi, htag⟩ := List.getElem?_eq_some_iff.mp hget
  calc (s.threads.map (·.tag)).set i tag
      = (s.threads.map (·.tag)).set i (s.threads.map (·.tag))[i] := by rw [htag]
    _ = s.threads.map (·.tag) := List.set_getElem_self hi

theorem Step.traced_threads (hs : M.Step s e s') (h : s.Traced) : s'.Traced := by
  have old (n : Nat) (hn : s.threads.length ≤ n) : ∀ x ∈ s.trace, ∀ i ∈ x.tid?, i < n :=
    fun x hx i hi => Nat.lt_of_lt_of_le (h x hx i hi) hn
  intro x hx i hi
  cases hs with
  | begin hstart =>
    simp only [spawned, List.length_append, List.length_singleton]
    rcases List.mem_append.mp hx with hx | hx
    · exact old _ (Nat.le_succ _) x hx i hi
    · cases List.mem_singleton.mp hx
      cases hi
      exact Nat.lt_succ_self _
  | resume hlive =>
    simp only [resumed, List.length_set]
    rcases List.mem_append.mp hx with hx | hx
    · exact h x hx i hi
    · cases List.mem_singleton.mp hx
      cases hi
      exact (List.getElem?_eq_some_iff.mp hlive).1
  | stop hlive =>
    simp only [halted, List.length_set]
    rcases List.mem_append.mp hx with hx | hx
    · exact h x hx i hi
    · cases List.mem_singleton.mp hx
      cases hi
      exact (List.getElem?_eq_some_iff.mp hlive).1
  | outside hmove =>
    rcases List.mem_append.mp hx with hx | hx
    · exact h x hx i hi
    · cases List.mem_singleton.mp hx
      cases hi

end Traced

/-- `M'` is a front of `M`: over the same stores, each of its tasks runs the task of `M` that is
its image behind a program of its own, or makes calls in `reads` only, which change nothing. -/
structure Refines (M' : Machine Res Val ε β World Tag' Choice Env)
    (M : Machine Res Val ε α World Tag Choice Env) (image : Tag' → Option Tag)
    (R : Tag' → Except ε α → Except ε β → Prop) (reads : Op → Prop) : Prop where
  exec : M'.exec = M.exec
  eval : M'.eval = M.eval
  outside : M'.outside = M.outside
  readsOnly : ∀ op, reads op → ∀ c w, (M.exec op c w).1 = w
  serves : ∀ t t' w w' q, image t = some t' → M'.start t w = some (w', q) →
    ∃ p, M.start t' w = some (w', p) ∧ p.ServedBy (R t) q
  idles : ∀ t w w' q, image t = none → M'.start t w = some (w', q) → w' = w ∧ q.Idle reads

/-- A state of the front and the state behind it. -/
structure Mirrors (image : Tag' → Option Tag) (R : Tag' → Except ε α → Except ε β → Prop)
    (reads : Op → Prop) (s : State Res Val ε β World Tag' Env)
    (s' : State Res Val ε α World Tag Env) : Prop where
  world : s'.world = s.world
  threads : Serving image R reads s.threads s'.threads
  trace : s'.trace = s.trace.filterMap (Entry.behind image s.tags)

/-- The event behind an event. -/
inductive Lowers (image : Tag' → Option Tag) :
    Event Tag' Choice Env ε → Event Tag Choice Env ε → Prop where
  | begin {t : Tag'} {t' : Tag} (h : image t = some t') : Lowers image (.begin t) (.begin t')
  | resume (i j : Nat) (o : Outcome Choice ε) : Lowers image (.resume i o) (.resume j o)
  | stop (i j : Nat) : Lowers image (.stop i) (.stop j)
  | outside (x : Env) : Lowers image (.outside x) (.outside x)

section Refinement

variable {M' : Machine Res Val ε β World Tag' Choice Env}
variable {M : Machine Res Val ε α World Tag Choice Env}
variable {image : Tag' → Option Tag} {R : Tag' → Except ε α → Except ε β → Prop}
variable {reads : Op → Prop}
variable {s s₁ : State Res Val ε β World Tag' Env} {s' : State Res Val ε α World Tag Env}
variable {e : Event Tag' Choice Env ε}

theorem Refines.attend (h : Refines M' M image R reads) (op : Op) (o : Outcome Choice ε)
    (w : World) : M'.attend op o w = M.attend op o w := by
  cases o with
  | answered c => simp only [Machine.attend, h.exec]
  | rejected e => rfl
  | lost c e => simp only [Machine.attend, h.exec]

theorem Refines.attend_reads (h : Refines M' M image R reads) {op : Op} (hop : reads op)
    (o : Outcome Choice ε) (w : World) : (M'.attend op o w).1 = w := by
  rw [h.attend]
  cases o with
  | answered c => exact h.readsOnly op hop c w
  | rejected e => rfl
  | lost c e => exact h.readsOnly op hop c w

theorem filterMap_append_of_none {γ δ : Type} {f : γ → Option δ} {l : List γ} {x : γ}
    (h : f x = none) : (l ++ [x]).filterMap f = l.filterMap f := by
  rw [List.filterMap_append, List.filterMap_cons_none h, List.filterMap_nil, List.append_nil]

theorem filterMap_append_of_some {γ δ : Type} {f : γ → Option δ} {l : List γ} {x : γ} {y : δ}
    (h : f x = some y) : (l ++ [x]).filterMap f = l.filterMap f ++ [y] := by
  rw [List.filterMap_append, List.filterMap_cons_some h, List.filterMap_nil]

theorem filterMap_behind_append (image : Tag' → Option Tag) (h : s.Traced) (t : Tag') :
    s.trace.filterMap (Entry.behind image (s.tags ++ [t])) =
      s.trace.filterMap (Entry.behind image s.tags) := by
  apply List.filterMap_congr
  intro x hx
  apply Entry.behind_append
  intro i hi
  have hlt := h x hx i hi
  simpa [State.tags] using hlt

theorem served_of_tag {tags : List Tag'} {i : Nat} {t : Tag'} (h : tags[i]? = some t) :
    served image tags i = (image t).isSome := by
  rw [served, h]
  rfl

theorem Live.tags {i : Nat} {tag : Tag'} {q : Prog Res Val ε β} (h : s.Live i tag q) :
    s.tags[i]? = some tag := by
  rw [State.tags, List.getElem?_map, h]
  rfl

/-- A task begins behind a task that has an image, and none behind one that has not. -/
theorem Refines.step_begin (h : Refines M' M image R reads) {t : Tag'} {w : World}
    {q : Prog Res Val ε β} (hstart : M'.start t s.world = some (w, q)) (htraced : s.Traced)
    (hm : Mirrors image R reads s s') :
    Mirrors image R reads (M'.spawned s t w q) s' ∨
      ∃ t' s₁', image t = some t' ∧ M.Step s' (.begin t') s₁' ∧
        Mirrors image R reads (M'.spawned s t w q) s₁' := by
  have htags : (M'.spawned s t w q).tags = s.tags ++ [t] := by
    simp [State.tags, spawned]
  have hold := filterMap_behind_append image htraced t
  cases himage : image t with
  | none =>
    left
    obtain ⟨rfl, hidle⟩ := h.idles t _ _ q himage hstart
    have hdrain := hidle.drain M'.eval s.world
    constructor
    · simp only [spawned, hdrain, hm.world]
    · have hone : Serving image R reads [⟨t, some q⟩] ([] : List (Thread Res Val ε α Tag)) := by
        refine .idle himage ?_ .nil
        intro q' hq'
        cases hq'
        exact hidle
      simpa [spawned, hdrain] using hm.threads.append hone
    · rw [htags, hm.trace, ← hold]
      exact (filterMap_append_of_none (by simp [Entry.behind, himage])).symm
  | some t' =>
    right
    obtain ⟨p, hp, hserved⟩ := h.serves t t' _ w q himage hstart
    obtain ⟨hworld, hrest⟩ := hserved.drain M.eval w
    refine ⟨t', M.spawned s' t' w p, rfl, .begin (by rwa [hm.world]), ?_⟩
    constructor
    · simp only [spawned, h.eval, hworld]
    · have hone : Serving image R reads
          [⟨t, some (q.drain M.eval w).2⟩] [⟨t', some (p.drain M.eval w).2⟩] :=
        .served himage (.some hrest) .nil
      simpa [spawned, h.eval] using hm.threads.append hone
    · rw [htags]
      have hnew : Entry.behind image (s.tags ++ [t])
          (.began s.threads.length t : Entry Res ε Tag' Env) =
            some (.began s'.threads.length t') := by
        rw [Entry.behind, himage, hm.threads.length_eq]
        simp [rank, State.tags]
      simp only [spawned]
      rw [filterMap_append_of_some hnew, hold, hm.trace]

/-- The thread behind makes the same call and is answered alike. -/
theorem Refines.step_resume (h : Refines M' M image R reads) {i : Nat} {t : Tag'} {op : Op}
    {k : Except ε (Res op) → Prog Res Val ε β} (hlive : s.Live i t (.await op k))
    (o : Outcome Choice ε) (hm : Mirrors image R reads s s') :
    Mirrors image R reads (M'.resumed s i t op k o) s' ∨
      ∃ j s₁', M.Step s' (.resume j o) s₁' ∧
        Mirrors image R reads (M'.resumed s i t op k o) s₁' := by
  have htags : (M'.resumed s i t op k o).tags = s.tags := Live.tags_set hlive _
  have hserved : served image s.tags i = (image t).isSome := served_of_tag (Live.tags hlive)
  rcases hm.threads.get hlive with ⟨hnone, hidle, hset⟩ | ⟨t', prog', hsome, hget, hrel, hset⟩
  · left
    obtain ⟨hop, hk⟩ := hidle _ rfl
    have hworld := h.attend_reads hop o s.world
    have hdrain := (hk (M'.attend op o s.world).2.2).drain M'.eval (M'.attend op o s.world).1
    constructor
    · simp only [resumed, hdrain]
      rw [hworld, hm.world]
    · simp only [resumed, hdrain]
      apply hset
      intro q hq
      cases hq
      exact hk _
    · rw [htags, hm.trace]
      exact (filterMap_append_of_none (by simp [Entry.behind, hserved, hnone])).symm
  · right
    cases hrel with
    | @some p _ hp =>
      obtain ⟨k₀, rfl, hk⟩ := hp.of_await
      obtain ⟨hworld, hrest⟩ := (hk (M.attend op o s.world).2.2).drain M.eval
        (M.attend op o s.world).1
      refine ⟨_, M.resumed s' _ t' op k₀ o, .resume hget, ?_⟩
      constructor
      · simp only [resumed, h.attend, h.eval, hm.world, hworld]
      · simp only [resumed, h.attend, h.eval, hm.world]
        exact hset _ _ (.some hrest)
      · have hnew : Entry.behind image s.tags (.called i op (M'.attend op o s.world).2.1
            (M'.attend op o s.world).2.2 : Entry Res ε Tag' Env) =
            some (.called (rank image s.tags i) op (M.attend op o s'.world).2.1
              (M.attend op o s'.world).2.2) := by
          rw [Entry.behind, hserved, hsome, h.attend, hm.world]
          rfl
        rw [htags]
        exact (congrArg (· ++ [_]) hm.trace).trans (filterMap_append_of_some hnew).symm

theorem Mirrors.step_stop (hm : Mirrors image R reads s s') {i : Nat} {t : Tag'} {op : Op}
    {k : Except ε (Res op) → Prog Res Val ε β} (hlive : s.Live i t (.await op k)) :
    Mirrors image R reads (halted s i t) s' ∨
      ∃ j s₁', M.Step s' (.stop j) s₁' ∧ Mirrors image R reads (halted s i t) s₁' := by
  have htags : (halted s i t).tags = s.tags := Live.tags_set hlive _
  have hserved : served image s.tags i = (image t).isSome := served_of_tag (Live.tags hlive)
  rcases hm.threads.get hlive with ⟨hnone, _, hset⟩ | ⟨t', prog', hsome, hget, hrel, hset⟩
  · left
    constructor
    · exact hm.world
    · apply hset
      intro q hq
      cases hq
    · rw [htags, hm.trace]
      exact (filterMap_append_of_none (by simp [Entry.behind, hserved, hnone])).symm
  · right
    cases hrel with
    | @some p _ hp =>
      obtain ⟨k₀, rfl, _⟩ := hp.of_await
      refine ⟨_, halted s' _ t', .stop hget, ?_⟩
      constructor
      · exact hm.world
      · exact hset _ _ .none
      · have hnew : Entry.behind image s.tags (.stopped i : Entry Res ε Tag' Env) =
            some (.stopped (rank image s.tags i)) := by
          rw [Entry.behind, hserved, hsome]
          rfl
        rw [htags]
        exact (congrArg (· ++ [_]) hm.trace).trans (filterMap_append_of_some hnew).symm

theorem Mirrors.step_outside (hm : Mirrors image R reads s s') (x : Env) (w : World) :
    Mirrors image R reads (moved s x w) (moved s' x w) := by
  constructor
  · rfl
  · exact hm.threads
  · have hnew : Entry.behind image s.tags (.outside x : Entry Res ε Tag' Env) =
        some (.outside x) := rfl
    exact (congrArg (· ++ [.outside x]) hm.trace).trans (filterMap_append_of_some hnew).symm

/-- A step of the front is a step behind it or changes nothing there. -/
theorem Refines.step (h : Refines M' M image R reads) (hs : M'.Step s e s₁) (htraced : s.Traced)
    (hm : Mirrors image R reads s s') :
    Mirrors image R reads s₁ s' ∨ ∃ e' s₁', Lowers image e e' ∧ M.Step s' e' s₁' ∧
      Mirrors image R reads s₁ s₁' := by
  cases hs with
  | begin hstart =>
    rcases h.step_begin hstart htraced hm with hm₁ | ⟨t', s₁', himage, hstep, hm₁⟩
    · exact Or.inl hm₁
    · exact Or.inr ⟨.begin t', s₁', .begin himage, hstep, hm₁⟩
  | @resume i _ _ _ o hlive =>
    rcases h.step_resume hlive o hm with hm₁ | ⟨j, s₁', hstep, hm₁⟩
    · exact Or.inl hm₁
    · exact Or.inr ⟨.resume j o, s₁', .resume i j o, hstep, hm₁⟩
  | @stop i _ _ _ hlive =>
    rcases hm.step_stop (M := M) hlive with hm₁ | ⟨j, s₁', hstep, hm₁⟩
    · exact Or.inl hm₁
    · exact Or.inr ⟨.stop j, s₁', .stop i j, hstep, hm₁⟩
  | @outside x w hmove =>
    right
    refine ⟨.outside x, moved s' x w, .outside x, .outside ?_, hm.step_outside x w⟩
    rw [← h.outside, hm.world]
    exact hmove

theorem mirrors_fresh (w : World) :
    Mirrors image R reads (.fresh w : State Res Val ε β World Tag' Env)
      (.fresh w : State Res Val ε α World Tag Env) :=
  ⟨rfl, .nil, rfl⟩

variable {ok' : State Res Val ε β World Tag' Env → Event Tag' Choice Env ε → Prop}
variable {ok : State Res Val ε α World Tag Env → Event Tag Choice Env ε → Prop}

theorem Run.traced {w₀ : World} (hr : M'.Run ok' (.fresh w₀) s) : s.Traced := by
  refine hr.keeps (I := State.Traced) ?_ fun _ _ _ _ ih _ hs => hs.traced_threads ih
  intro x hx
  cases hx

/-- Every run of the front is one of the machine behind it. -/
theorem Refines.run (h : Refines M' M image R reads)
    (hok : ∀ s s' e e', Mirrors image R reads s s' → ok' s e → Lowers image e e' → ok s' e')
    {w₀ : World} (hr : M'.Run ok' (.fresh w₀) s) :
    ∃ s', M.Run ok (.fresh w₀) s' ∧ Mirrors image R reads s s' := by
  induction hr with
  | refl => exact ⟨_, .refl, mirrors_fresh w₀⟩
  | tail hr hok' hs ih =>
    obtain ⟨s', hr', hm⟩ := ih
    rcases h.step hs hr.traced hm with hm | ⟨e', s₁', hlow, hs', hm'⟩
    · exact ⟨s', hr', hm⟩
    · exact ⟨s₁', .tail hr' (hok _ _ _ _ hm hok' hlow) hs', hm'⟩

/-- A thread of the front that has ended has the answer to what the thread behind it ended with. -/
theorem Mirrors.answered (hm : Mirrors image R reads s s') {i : Nat} {t : Tag'} {t' : Tag}
    (himage : image t = some t') {r : Except ε β} (hi : s.Live i t (.done r)) :
    ∃ r', s'.Live (rank image s.tags i) t' (.done r') ∧ R t r' r := by
  rcases hm.threads.get hi with ⟨hnone, _⟩ | ⟨t₁, prog', hsome, hget, hrel, _⟩
  · rw [himage] at hnone
    cases hnone
  · rw [himage] at hsome
    cases hsome
    cases hrel with
    | @some p _ hp =>
      obtain ⟨r₀, rfl, hr⟩ := hp.of_done
      exact ⟨r₀, hget, hr⟩

end Refinement

end Machine

end Async
