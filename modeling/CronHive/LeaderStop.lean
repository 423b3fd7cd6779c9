import CronHive.LeaderSafety

/-!
# Leadership after `stop()`

`stop()` releases the key and takes the flag down, provided that it finds the flag up and that
no acquisition outlives it.
-/

namespace CronHive

set_option autoImplicit false

open Async Async.Prog Async.Machine

variable {n : Nat} {env : Env} {s s' : LeaderState n} {e : LeaderEvent n} {i : Fin n}

/-- A call of `stop()` of the instance has got this far. -/
def StopAt (s : LeaderState n) (i : Fin n) (p : LeaderProgram n Unit) : Prop :=
  ∃ j, s.Live j (.stop i) p

/-- Every command of the instance is answered, none of its calls is abandoned, and it is
stopped once. -/
def stopsOnce (i : Fin n) (s : LeaderState n) : LeaderEvent n → Prop
  | .begin (.stop k) => k = i → s.world.stopped i = false
  | .resume j o => (∃ t p, s.Live j t p ∧ t.instance = i) → ∃ x, o = .answered x
  | .stop j => ∀ t p, s.Live j t p → t.instance ≠ i
  | _ => True

/-- Whoever stops knows whether it holds the key; once it has stopped, it is granted the key
only if its release is still to be executed, and told so only while it awaits the reply. -/
def acquiresBeforeStop (i : Fin n) (s : LeaderState n) : LeaderEvent n → Prop
  | .begin (.stop k) => k = i → s.world.leader i = false → s.world.redis.holder ≠ some i
  | .resume j _ => s.world.stopped i = true →
      (∀ t, s.Live j t (sent (.setNxPx i)) → s.world.redis.holder = none →
        StopAt s i (sent (.release i))) ∧
      ∀ t, s.Live j t (replied (.setNxPx i) true) →
        StopAt s i (sent (.release i)) ∨ ∃ r, StopAt s i (replied (.release i) r)
  | _ => True

/-- What holds of an instance that has been stopped. -/
structure Stopping (s : LeaderState n) (i : Fin n) : Prop where
  stopped : ∀ p, StopAt s i p → s.world.stopped i = true
  once : ∀ j j' p p', s.Live j (.stop i) p → s.Live j' (.stop i) p' → j = j'
  flag : s.world.stopped i = true → s.world.leader i = true →
    StopAt s i (sent (.release i)) ∨ ∃ r, StopAt s i (replied (.release i) r)
  held : s.world.stopped i = true → s.world.redis.holder = some i → StopAt s i (sent (.release i))

/-- A step that moves no call of `stop()` of the instance. -/
theorem Stopping.of_others (h : Stopping s i)
    (hlive : ∀ j p, s'.Live j (.stop i) p ↔ s.Live j (.stop i) p)
    (hstopped : s'.world.stopped i = s.world.stopped i)
    (hflag : s.world.stopped i = true → s'.world.leader i = true → s.world.leader i = true ∨
      StopAt s i (sent (.release i)) ∨ ∃ r, StopAt s i (replied (.release i) r))
    (hheld : s.world.stopped i = true → s'.world.redis.holder = some i →
      s.world.redis.holder = some i ∨ StopAt s i (sent (.release i))) : Stopping s' i := by
  have hat (p : LeaderProgram n Unit) : StopAt s' i p ↔ StopAt s i p :=
    exists_congr fun j => hlive j p
  constructor
  · intro p hp
    rw [hstopped]
    exact h.stopped p ((hat p).mp hp)
  · intro j j' p p' hj hj'
    exact h.once j j' p p' ((hlive j p).mp hj) ((hlive j' p').mp hj')
  · intro hs' hup
    rw [hstopped] at hs'
    simp only [hat]
    rcases hflag hs' hup with hup | hgoal
    · exact h.flag hs' hup
    · exact hgoal
  · intro hs' hin
    rw [hstopped] at hs'
    rw [hat]
    rcases hheld hs' hin with hin | hgoal
    · exact h.held hs' hin
    · exact hgoal

theorem stopping_stop {k : Fin n} (h : Stopping s i)
    (honce : k = i → s.world.stopped i = false)
    (hknows : k = i → s.world.leader i = false → s.world.redis.holder ≠ some i)
    (hw : s'.world = { s.world with stopped := Function.update s.world.stopped k true })
    (ht : s'.threads = s.threads ++ [⟨.stop k, some (if s.world.leader k then sent (.release k)
      else .ret ())⟩]) : Stopping s' i := by
  by_cases hk : k = i
  · subst hk
    have hnone (j : Nat) (p : LeaderProgram n Unit) : ¬ s.Live j (.stop k) p := by
      intro hj
      have hup := h.stopped p ⟨j, hj⟩
      rw [honce rfl] at hup
      cases hup
    have hsent (hup : s.world.leader k = true) : StopAt s' k (sent (.release k)) := by
      refine ⟨s.threads.length, (live_append ht).mpr (Or.inr ⟨rfl, ?_⟩)⟩
      rw [if_pos hup]
    constructor
    · intro _ _
      rw [hw]
      exact Function.update_self k true s.world.stopped
    · intro j j' p p' hj hj'
      rcases (live_append ht).mp hj with hj | ⟨hj, _⟩
      · exact absurd hj (hnone j p)
      · rcases (live_append ht).mp hj' with hj' | ⟨hj', _⟩
        · exact absurd hj' (hnone j' p')
        · rw [hj, hj']
    · intro _ hup
      rw [hw] at hup
      exact Or.inl (hsent hup)
    · intro _ hin
      rw [hw] at hin
      cases hup : s.world.leader k with
      | true => exact hsent hup
      | false => exact absurd hin (hknows rfl hup)
  · apply h.of_others
    · intro j p
      rw [live_append ht]
      constructor
      · intro hj
        rcases hj with hj | ⟨_, heq⟩
        · exact hj
        · cases heq
          exact absurd rfl hk
      · exact Or.inl
    · rw [hw]
      exact Function.update_of_ne (Ne.symm hk) true s.world.stopped
    · intro _ hup
      rw [hw] at hup
      exact Or.inl hup
    · intro _ hin
      rw [hw] at hin
      exact Or.inl hin

theorem live_set_other {j : Nat} {t : LeaderTask n} {p : LeaderProgram n Unit}
    {q : Option (LeaderProgram n Unit)} (hj : s.Live j t p) (htask : t ≠ .stop i)
    (ht : s'.threads = s.threads.set j ⟨t, q⟩) (j' : Nat) (p' : LeaderProgram n Unit) :
    s'.Live j' (.stop i) p' ↔ s.Live j' (.stop i) p' := by
  rw [live_set (live_lt hj) ht]
  constructor
  · intro hj'
    rcases hj' with ⟨_, hj'⟩ | ⟨_, heq⟩
    · exact hj'
    · cases heq
      exact absurd rfl htask
  · intro hj'
    refine Or.inl ⟨?_, hj'⟩
    intro heq
    subst heq
    exact htask (Live.unique hj hj').1

theorem Stopping.once_set {j : Nat} {p : LeaderProgram n Unit} {q : Option (LeaderProgram n Unit)}
    (h : Stopping s i) (hj : s.Live j (.stop i) p)
    (ht : s'.threads = s.threads.set j ⟨.stop i, q⟩) (j₁ j₂ : Nat) (p₁ p₂ : LeaderProgram n Unit)
    (hj₁ : s'.Live j₁ (.stop i) p₁) (hj₂ : s'.Live j₂ (.stop i) p₂) : j₁ = j₂ := by
  have hself {j' : Nat} {p' : LeaderProgram n Unit} (hj' : s'.Live j' (.stop i) p') : j' = j := by
    rcases (live_set (live_lt hj) ht).mp hj' with ⟨_, hj'⟩ | ⟨heq, _⟩
    · exact h.once j' j p' p hj' hj
    · exact heq
  rw [hself hj₁, hself hj₂]

/-- Nor is one of the instance itself if it is another's. -/
theorem Staged.instance_ne (hst : Staged s) {j : Nat} {t : LeaderTask n} {c : LeaderCommand n}
    {p : LeaderProgram n Unit} (hj : s.Live j t p) (hp : p = sent c ∨ ∃ r, p = replied c r)
    (hc : t.instance ≠ i) : c.token ≠ i ∧ t ≠ .stop i := by
  constructor
  · rw [(sends_of_staged hst hj hp).token]
    exact hc
  · intro ht
    subst ht
    exact hc rfl

theorem other_of_unanswered {j : Nat} {t : LeaderTask n} {p : LeaderProgram n Unit}
    {o : Outcome Unit Failure} (honce : stopsOnce i s (.resume j o)) (ho : ∀ x, o ≠ .answered x)
    (hj : s.Live j t p) : t.instance ≠ i := by
  intro heq
  obtain ⟨x, hx⟩ := honce ⟨t, p, hj, heq⟩
  exact ho x hx

theorem stopping_executed {j : Nat} {t : LeaderTask n} {c : LeaderCommand n} {x : Unit}
    (hst : Staged s) (h : Stopping s i)
    (hbefore : acquiresBeforeStop i s (.resume j (.answered x))) (hj : s.Live j t (sent c))
    (hw : s'.world = { s.world with redis := (s.world.redis.execute env c).1 })
    (ht : s'.threads = s.threads.set j ⟨t, some (replied c (s.world.redis.execute env c).2)⟩) :
    Stopping s' i := by
  by_cases hc : c = .release i ∧ t = .stop i
  · obtain ⟨rfl, rfl⟩ := hc
    constructor
    · intro _ _
      rw [hw]
      exact h.stopped _ ⟨j, hj⟩
    · exact h.once_set hj ht
    · intro _ _
      exact Or.inr ⟨_, j, (live_set (live_lt hj) ht).mpr (Or.inr ⟨rfl, rfl⟩)⟩
    · intro _ hin
      rw [hw] at hin
      have hfree : (s.world.redis.execute env (.release i)).1.holder ≠ some i :=
        KeyState.execute_release i
      exact absurd hin hfree
  · have htask : t ≠ .stop i := by
      intro heq
      subst heq
      exact hc ⟨sends_of_staged hst hj (Or.inl rfl), rfl⟩
    apply h.of_others (live_set_other hj htask ht)
    · rw [hw]
    · intro _ hup
      rw [hw] at hup
      exact Or.inl hup
    · intro hstopped hin
      rw [hw] at hin
      rcases KeyState.execute_gain hin with hin | ⟨rfl, htrue⟩
      · exact Or.inl hin
      · have hfree := (KeyState.execute_setNxPx_true htrue).1
        exact Or.inr ((hbefore hstopped).1 t hj hfree)

theorem stopping_arrived {j : Nat} {t : LeaderTask n} {c : LeaderCommand n} {r : Bool} {x : Unit}
    (hst : Staged s) (h : Stopping s i)
    (hbefore : acquiresBeforeStop i s (.resume j (.answered x))) (hj : s.Live j t (replied c r))
    (hw : s'.world = s.world.onReply c (.ok r))
    (ht : s'.threads = s.threads.set j ⟨t, some (.ret ())⟩) : Stopping s' i := by
  have hkey (hin : s'.world.redis.holder = some i) : s.world.redis.holder = some i := by
    rw [hw, onReply_redis] at hin
    exact hin
  by_cases hc : t = .stop i
  · subst hc
    have hrelease := sends_of_staged hst hj (Or.inr ⟨r, rfl⟩)
    simp only [LeaderTask.Sends] at hrelease
    subst hrelease
    have hdown : s'.world.leader i = false := by
      rw [hw]
      simp [LeaderWorld.onReply, LeaderCommand.token]
    constructor
    · intro _ _
      rw [hw, onReply_stopped]
      exact h.stopped _ ⟨j, hj⟩
    · exact h.once_set hj ht
    · intro _ hup
      rw [hdown] at hup
      cases hup
    · intro hstopped hin
      rw [hw, onReply_stopped] at hstopped
      -- the release of this call has been executed, and there is no other
      obtain ⟨j', hj'⟩ := h.held hstopped (hkey hin)
      have heq := h.once j j' _ _ hj hj'
      subst heq
      cases (Live.unique hj hj').2
  · apply h.of_others (live_set_other hj hc ht)
    · rw [hw, onReply_stopped]
    · intro hstopped hup
      rw [hw] at hup
      rcases onReply_leader hup with hup | ⟨rfl, rfl⟩
      · exact Or.inl hup
      · exact Or.inr ((hbefore hstopped).2 t hj)
    · intro _ hin
      exact Or.inl (hkey hin)

theorem stopping_step (hst : Staged s) (h : Stopping s i) (honce : stopsOnce i s e)
    (hbefore : acquiresBeforeStop i s e) (hs : (leadership env).Step s e s') :
    Stopping s' i := by
  cases leaderStep hst hs with
  | @campaign k hw ht =>
    apply h.of_others
    · intro j p
      rw [live_append ht]
      constructor
      · intro hj
        rcases hj with hj | ⟨_, heq⟩
        · exact hj
        · cases heq
      · exact Or.inl
    · rw [hw]
    · intro _ hup
      rw [hw] at hup
      exact Or.inl hup
    · intro _ hin
      rw [hw] at hin
      exact Or.inl hin
  | @stop k hw ht => exact stopping_stop h honce hbefore hw ht
  | @executed j t c x hj hw ht => exact stopping_executed hst h hbefore hj hw ht
  | @failed j t c o hj ho redis hredis hw ht =>
    obtain ⟨htoken, htask⟩ :=
      hst.instance_ne hj (Or.inl rfl) (other_of_unanswered honce ho hj)
    apply h.of_others (live_set_other hj htask ht)
    · rw [hw]
      rfl
    · intro _ hup
      rw [hw, withLeader_leader, if_neg (Ne.symm htoken)] at hup
      exact Or.inl hup
    · intro _ hin
      rw [hw] at hin
      rcases hredis with rfl | rfl
      · exact Or.inl hin
      · rcases KeyState.execute_gain hin with hin | ⟨rfl, _⟩
        · exact Or.inl hin
        · exact absurd rfl htoken
  | @arrived j t c r x hj hw ht => exact stopping_arrived hst h hbefore hj hw ht
  | @dropped j t c r o hj ho hw ht =>
    obtain ⟨htoken, htask⟩ :=
      hst.instance_ne hj (Or.inr ⟨r, rfl⟩) (other_of_unanswered honce ho hj)
    apply h.of_others (live_set_other hj htask ht)
    · rw [hw]
      rfl
    · intro _ hup
      rw [hw, withLeader_leader, if_neg (Ne.symm htoken)] at hup
      exact Or.inl hup
    · intro _ hin
      rw [hw] at hin
      exact Or.inl hin
  | @halted j t p hj hw ht =>
    have htask : t ≠ .stop i := by
      intro heq
      exact honce t p hj (congrArg LeaderTask.instance heq)
    apply h.of_others (live_set_other hj htask ht)
    · rw [hw]
    · intro _ hup
      rw [hw] at hup
      exact Or.inl hup
    · intro _ hin
      rw [hw] at hin
      exact Or.inl hin
  | @ticked t hle hw ht =>
    apply h.of_others
    · intro j p
      unfold State.Live
      rw [ht]
    · rw [hw]
    · intro _ hup
      rw [hw] at hup
      exact Or.inl hup
    · intro _ hin
      rw [hw] at hin
      obtain ⟨x, hkey, hnow⟩ := KeyState.holder_eq_some.mp hin
      exact Or.inl (KeyState.holder_eq_some.mpr ⟨x, hkey, Int.le_trans hle hnow⟩)

theorem stopping_run {redis : KeyState n}
    (h : (leadership env).Run (fun s e => stopsOnce i s e ∧ acquiresBeforeStop i s e)
      (.fresh ⟨redis, fun _ => false, fun _ => false⟩) s) : Stopping s i := by
  have hnone (j : Nat) (t : LeaderTask n) (p : LeaderProgram n Unit) :
      ¬ (State.fresh ⟨redis, fun _ => false, fun _ => false⟩ : LeaderState n).Live j t p := by
    simp [State.Live, State.fresh]
  apply h.keeps
  · constructor
    · rintro p ⟨j, hj⟩
      exact absurd hj (hnone j _ p)
    · intro j _ p _ hj
      exact absurd hj (hnone j _ p)
    · intro hstopped
      cases hstopped
    · intro hstopped
      cases hstopped
  · intro s e s' hr ih hok hs
    exact stopping_step (staged_run hr) ih hok.1 hok.2 hs

/-- From the moment `stop()` has returned, the instance does not take itself for the leader
and the key does not hold its token. -/
theorem leadership_ends_with_stop {redis : KeyState n}
    (h : (leadership env).Run (fun s e => stopsOnce i s e ∧ acquiresBeforeStop i s e)
      (.fresh ⟨redis, fun _ => false, fun _ => false⟩) s) {j : Nat}
    (hended : s.Live j (.stop i) (.ret ())) :
    s.world.leader i = false ∧ s.world.redis.holder ≠ some i := by
  have hinv := stopping_run h
  have hstopped := hinv.stopped _ ⟨j, hended⟩
  have hover {p : LeaderProgram n Unit} (hat : StopAt s i p) : p = .ret () := by
    obtain ⟨j', hj'⟩ := hat
    have heq := hinv.once j j' _ _ hended hj'
    subst heq
    exact (Live.unique hj' hended).2
  constructor
  · cases hup : s.world.leader i with
    | false => rfl
    | true =>
      rcases hinv.flag hstopped hup with hat | ⟨r, hat⟩
      · cases hover hat
      · cases hover hat
  · intro hheld
    cases hover (hinv.held hstopped hheld)

/-! ## Runs -/

/-- Every call is answered, and `stop()` is called once. -/
def answersOnly (i : Fin n) (s : LeaderState n) : LeaderEvent n → Prop
  | .begin (.stop _) => s.world.stopped i = false
  | .resume _ (.rejected _) => False
  | .resume _ (.lost _ _) => False
  | .stop _ => False
  | _ => True

/-- `stop()` finds the flag up, and no acquisition is under way then. -/
def acquiresNothing (i : Fin n) (s : LeaderState n) : LeaderEvent n → Prop
  | .begin (.stop _) => s.world.leader i = true
  | .resume j _ => s.world.stopped i = true → s.awaiting j ≠ some (.execute (.setNxPx i)) ∧
      s.awaiting j ≠ some (.reply (.setNxPx i) true)
  | _ => True

instance (s : LeaderState n) : DecidablePred (answersOnly i s) := fun e => by
  induction e using Async.Event.casesOn with
  | begin t => induction t using LeaderTask.casesOn <;> unfold answersOnly <;> infer_instance
  | resume j o => induction o using Async.Outcome.casesOn <;> unfold answersOnly <;> infer_instance
  | stop j => exact instDecidableFalse
  | outside t => exact instDecidableTrue

instance (s : LeaderState n) : DecidablePred (acquiresNothing i s) := fun e => by
  induction e using Async.Event.casesOn with
  | begin t => induction t using LeaderTask.casesOn <;> unfold acquiresNothing <;> infer_instance
  | resume j o =>
    unfold acquiresNothing
    infer_instance
  | _ => exact instDecidableTrue

theorem stopsOnce_of_answersOnly (h : answersOnly i s e) : stopsOnce i s e := by
  match e, h with
  | .begin (.stop _), h => exact fun _ => h
  | .begin (.campaign _), _ => trivial
  | .resume _ (.answered x), _ => exact fun _ => ⟨x, rfl⟩
  | .outside _, _ => trivial

theorem acquiresBeforeStop_of_acquiresNothing (h : acquiresNothing i s e) :
    acquiresBeforeStop i s e := by
  match e, h with
  | .begin (.stop _), h =>
    intro _ hdown
    rw [h] at hdown
    cases hdown
  | .begin (.campaign _), _ => trivial
  | .resume j _, h =>
    intro hstopped
    constructor
    · intro t hj
      exact absurd (State.Awaits.awaiting ⟨t, _, hj⟩) (h hstopped).1
    · intro t hj
      exact absurd (State.Awaits.awaiting ⟨t, _, hj⟩) (h hstopped).2
  | .stop _, _ => trivial
  | .outside _, _ => trivial

def oneScheduler : LeaderState 1 := .fresh (.initial 0)

/-- The instance acquires the key, and stops while it renews it. -/
def stopping : List (LeaderEvent 1) :=
  [.begin (.campaign 0), .resume 0 (.answered ()), .resume 0 (.answered ()), .outside 3333,
    .begin (.campaign 0), .begin (.stop 0), .resume 2 (.answered ()), .resume 1 (.answered ()),
    .resume 2 (.answered ()), .resume 1 (.answered ())]

theorem leadership_ends_with_stop_renewing : ∃ s,
    (leadership {}).run oneScheduler stopping = some s ∧ s.Live 2 (.stop 0) (.ret ()) ∧
      s.world.leader 0 = false ∧ s.world.redis.holder ≠ some 0 := by
  have hrun : ((leadership {}).runChecked (fun s e => answersOnly 0 s e ∧ acquiresNothing 0 s e)
      oneScheduler stopping).bind (fun s => s.threads[2]?) =
        some ⟨.stop 0, some (.ret ())⟩ := rfl
  obtain ⟨s, hs, hended⟩ := Option.bind_eq_some_iff.mp hrun
  have hstopping : (leadership {}).Run (fun s e => stopsOnce 0 s e ∧ acquiresBeforeStop 0 s e)
      oneScheduler s :=
    (Run.of_runChecked hs).mono fun s e h =>
      ⟨stopsOnce_of_answersOnly h.1, acquiresBeforeStop_of_acquiresNothing h.2⟩
  exact ⟨s, run_of_runChecked hs, hended, leadership_ends_with_stop hstopping hended⟩

/-- The first `SET NX` of the instance is under way when it stops. -/
def stoppingEarly : List (LeaderEvent 1) :=
  [.begin (.campaign 0), .begin (.stop 0), .resume 0 (.answered ()), .resume 0 (.answered ())]

/-- The grant makes it the leader after `stop()` has returned. -/
theorem leader_after_stop : ¬ ∀ s,
    (leadership {}).Run (stopsOnce 0) oneScheduler s → s.Quiet →
      ∀ j, s.Live j (.stop 0) (.ret ()) →
        s.world.leader 0 = false ∧ s.world.redis.holder ≠ some 0 := by
  have hrun : ((leadership {}).runChecked (answersOnly 0) oneScheduler stoppingEarly).bind
      (fun s => s.threads[1]?.map fun th => (th, s.world.leader 0, decide s.Quiet)) =
        some (⟨.stop 0, some (.ret ())⟩, true, true) := rfl
  obtain ⟨s, hs, hend⟩ := Option.bind_eq_some_iff.mp hrun
  obtain ⟨th, hth, hend⟩ := Option.map_eq_some_iff.mp hend
  injection hend with hended hworld
  injection hworld with hleader hquiet
  subst hended
  intro hdown
  have hreach := (Run.of_runChecked hs).mono fun _ _ => stopsOnce_of_answersOnly
  have hflag := (hdown s hreach (of_decide_eq_true hquiet) 1 hth).1
  rw [hleader] at hflag
  cases hflag

end CronHive
