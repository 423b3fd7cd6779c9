import CronHive.Leadership

/-!
# What `isLeader()` says

The flag of an instance follows the key at a distance. It says the truth as long as the
lease runs out on no instance that has been granted it and not yet been told otherwise.
-/

namespace CronHive

set_option autoImplicit false

open Async Async.Prog Async.Machine

variable {n : Nat} {env : Env} {s s' : LeaderState n} {e : LeaderEvent n}

@[simp] theorem withLeader_leader (w : LeaderWorld n) (i j : Fin n) (val : Bool) :
    (w.withLeader i val).leader j = if j = i then val else w.leader j := by
  simp [LeaderWorld.withLeader, Function.update_apply]

@[simp] theorem withLeader_redis (w : LeaderWorld n) (i : Fin n) (val : Bool) :
    (w.withLeader i val).redis = w.redis := rfl

@[simp] theorem withLeader_stopped (w : LeaderWorld n) (i : Fin n) (val : Bool) :
    (w.withLeader i val).stopped = w.stopped := rfl

/-- Only the reply to a grant raises a flag. -/
theorem onReply_leader {w : LeaderWorld n} {c : LeaderCommand n} {r : Bool} {i : Fin n}
    (h : (w.onReply c (.ok r)).leader i = true) :
    w.leader i = true ∨ (c = .setNxPx i ∧ r = true) := by
  match c, r with
  | .renew _, true => exact Or.inl h
  | .setNxPx _, false => exact Or.inl h
  | .setNxPx j, true =>
    by_cases hij : i = j
    · subst hij
      exact Or.inr ⟨rfl, rfl⟩
    · simp only [LeaderWorld.onReply, withLeader_leader, if_neg hij] at h
      exact Or.inl h
  | .renew j, false =>
    simp only [LeaderWorld.onReply, withLeader_leader] at h
    split at h
    · cases h
    · exact Or.inl h
  | .release j, _ =>
    simp only [LeaderWorld.onReply, withLeader_leader] at h
    split at h
    · cases h
    · exact Or.inl h

@[simp] theorem onReply_redis (w : LeaderWorld n) (c : LeaderCommand n)
    (r : Except Failure Bool) : (w.onReply c r).redis = w.redis := by
  unfold LeaderWorld.onReply
  split <;> rfl

@[simp] theorem onReply_stopped (w : LeaderWorld n) (c : LeaderCommand n)
    (r : Except Failure Bool) : (w.onReply c r).stopped = w.stopped := by
  unfold LeaderWorld.onReply
  split <;> rfl

/-! ## One leader -/

/-- Nobody stops. -/
def campaignsOnly : LeaderEvent n → Prop
  | .begin (.stop _) => False
  | _ => True

/-- The lease does not run out while its holder's flag is up or the reply that will raise it
is on its way. -/
def leaseLasts (s : LeaderState n) : LeaderEvent n → Prop
  | .outside t => ∀ i x, s.world.redis.key = some ⟨i, x⟩ → x < t →
      s.world.leader i = false ∧ ∀ j tag, ¬ s.Live j tag (replied (.setNxPx i) true)
  | _ => True

structure Truthful (s : LeaderState n) : Prop where
  flag : ∀ i, s.world.leader i = true → s.world.redis.holder = some i
  granted : ∀ j tag i, s.Live j tag (replied (.setNxPx i) true) → s.world.redis.holder = some i
  noStop : ∀ j i p, ¬ s.Live j (.stop i) p

/-- The instance takes itself for the leader, or the reply that will make it do so is on its
way. -/
def Elected (s : LeaderState n) (i : Fin n) : Prop :=
  s.world.leader i = true ∨ ∃ j tag, s.Live j tag (replied (.setNxPx i) true)

theorem Truthful.holder {i : Fin n} (h : Truthful s) (hi : Elected s i) :
    s.world.redis.holder = some i := by
  rcases hi with hup | ⟨j, tag, hj⟩
  · exact h.flag i hup
  · exact h.granted j tag i hj

/-- A step that takes the key from no elected instance, and elects none that does not hold
it. -/
theorem Truthful.of_holders (h : Truthful s)
    (hkeep : ∀ i, Elected s i → s'.world.redis.holder = some i)
    (hflag : ∀ i, s'.world.leader i = true → Elected s i)
    (hgranted : ∀ j tag i, s'.Live j tag (replied (.setNxPx i) true) →
      Elected s i ∨ s'.world.redis.holder = some i)
    (hstop : ∀ j i p, s'.Live j (.stop i) p → ∃ q, s.Live j (.stop i) q) : Truthful s' := by
  constructor
  · intro i hup
    exact hkeep i (hflag i hup)
  · intro j tag i hj
    rcases hgranted j tag i hj with hi | hholder
    · exact hkeep i hi
    · exact hholder
  · intro j i p hj
    obtain ⟨q, hj⟩ := hstop j i p hj
    exact h.noStop j i q hj

/-- A thread that has ended leaves nothing on its way. -/
theorem live_ended {j : Nat} {t : LeaderTask n} {q : LeaderProgram n Unit}
    {p : Option (LeaderProgram n Unit)} (hj : s.Live j t q) (hp : p = some (.ret ()) ∨ p = none)
    (ht : s'.threads = s.threads.set j ⟨t, p⟩) {j' : Nat} {t' : LeaderTask n}
    {q' : LeaderProgram n Unit} (hj' : s'.Live j' t' q') :
    (∃ q, s.Live j' t' q) ∧ (s.Live j' t' q' ∨ q' = .ret ()) := by
  rcases (Machine.live_set (live_lt hj) ht).mp hj' with ⟨_, hj'⟩ | ⟨rfl, heq⟩
  · exact ⟨⟨q', hj'⟩, Or.inl hj'⟩
  · cases heq
    rcases hp with hp | hp
    · cases hp
      exact ⟨⟨q, hj⟩, Or.inr rfl⟩
    · cases hp

theorem Truthful.of_ended {j : Nat} {t : LeaderTask n} {q : LeaderProgram n Unit}
    {p : Option (LeaderProgram n Unit)} (h : Truthful s) (hj : s.Live j t q)
    (hp : p = some (.ret ()) ∨ p = none) (ht : s'.threads = s.threads.set j ⟨t, p⟩)
    (hkeep : ∀ i, Elected s i → s'.world.redis.holder = some i)
    (hflag : ∀ i, s'.world.leader i = true → Elected s i) : Truthful s' := by
  apply h.of_holders hkeep hflag
  · intro j' tag i hj'
    rcases (live_ended hj hp ht hj').2 with hj' | heq
    · exact Or.inl (Or.inr ⟨j', tag, hj'⟩)
    · cases heq
  · intro j' i p hj'
    exact (live_ended hj hp ht hj').1

/-- Nothing but a call of `stop()` releases the key. -/
theorem Truthful.not_release (h : Truthful s) (hst : Staged s) {j : Nat} {t : LeaderTask n}
    {c : LeaderCommand n} (hj : s.Live j t (sent c)) (i : Fin n) : c ≠ .release i := by
  intro hc
  subst hc
  have hsends := sends_of_staged hst hj (Or.inl rfl)
  cases t with
  | campaign => rcases hsends with hsends | hsends <;> cases hsends
  | stop => exact h.noStop _ _ _ hj

theorem Truthful.execute {j : Nat} {t : LeaderTask n} {c : LeaderCommand n} (h : Truthful s)
    (hst : Staged s) (hj : s.Live j t (sent c)) {i : Fin n} (hi : Elected s i) :
    (s.world.redis.execute env c).1.holder = some i :=
  KeyState.execute_keep (h.holder hi) (h.not_release hst hj i)

theorem truthful_campaign {k : Fin n} (h : Truthful s) (hw : s'.world = s.world)
    (ht : s'.threads = s.threads ++ [⟨.campaign k, some (if s.world.stopped k then .ret ()
      else sent (if s.world.leader k then .renew k else .setNxPx k))⟩]) : Truthful s' := by
  apply h.of_holders
  · intro i hi
    rw [hw]
    exact h.holder hi
  · intro i hup
    rw [hw] at hup
    exact Or.inl hup
  · intro j tag i hj
    rcases (Machine.live_append ht).mp hj with hj | ⟨_, heq⟩
    · exact Or.inl (Or.inr ⟨j, tag, hj⟩)
    · injection heq with _ hprog
      split at hprog
      · cases hprog
      · cases hprog
  · intro j i p hj
    rcases (Machine.live_append ht).mp hj with hj | ⟨_, heq⟩
    · exact ⟨p, hj⟩
    · cases heq

theorem truthful_executed {j₀ : Nat} {t : LeaderTask n} {c : LeaderCommand n} (hst : Staged s)
    (h : Truthful s) (hj₀ : s.Live j₀ t (sent c))
    (hw : s'.world = { s.world with redis := (s.world.redis.execute env c).1 })
    (ht : s'.threads = s.threads.set j₀ ⟨t, some (replied c (s.world.redis.execute env c).2)⟩) :
    Truthful s' := by
  apply h.of_holders
  · intro i hi
    rw [hw]
    exact h.execute hst hj₀ hi
  · intro i hup
    rw [hw] at hup
    exact Or.inl hup
  · intro j tag i hj
    rcases (Machine.live_set (live_lt hj₀) ht).mp hj with ⟨_, hj⟩ | ⟨_, heq⟩
    · exact Or.inl (Or.inr ⟨j, tag, hj⟩)
    · simp only [replied, Thread.mk.injEq, Option.some.injEq, Prog.await.injEq,
        LeaderCall.reply.injEq] at heq
      obtain ⟨_, ⟨rfl, htrue⟩, _⟩ := heq
      rw [hw]
      exact Or.inr (KeyState.execute_setNxPx_true htrue).2
  · intro j i p hj
    rcases (Machine.live_set (live_lt hj₀) ht).mp hj with ⟨_, hj⟩ | ⟨rfl, heq⟩
    · exact ⟨p, hj⟩
    · cases heq
      exact ⟨_, hj₀⟩

/-- Time takes the key from no instance whose lease lasts. -/
theorem truthful_ticked {t : Int} (h : Truthful s) (hlasts : leaseLasts s (.outside t))
    (hw : s'.world = { s.world with redis := { s.world.redis with now := t } })
    (ht : s'.threads = s.threads) : Truthful s' := by
  have hlive (j : Nat) (tag : LeaderTask n) (p : LeaderProgram n Unit) :
      s'.Live j tag p ↔ s.Live j tag p := by
    unfold State.Live
    rw [ht]
  apply h.of_holders
  · intro i hi
    obtain ⟨x, hkey, hnow⟩ := KeyState.holder_eq_some.mp (h.holder hi)
    rw [hw]
    refine KeyState.holder_eq_some.mpr ⟨x, hkey, ?_⟩
    by_contra hlt
    obtain ⟨hdown, hnone⟩ := hlasts i x hkey (Int.not_le.mp hlt)
    rcases hi with hup | ⟨j, tag, hj⟩
    · rw [hdown] at hup
      cases hup
    · exact hnone j tag hj
  · intro i hup
    rw [hw] at hup
    exact Or.inl hup
  · intro j tag i hj
    exact Or.inl (Or.inr ⟨j, tag, (hlive j tag _).mp hj⟩)
  · intro j i p hj
    exact ⟨p, (hlive j _ p).mp hj⟩

theorem truthful_step (hst : Staged s) (h : Truthful s) (hcampaign : campaignsOnly e)
    (hlasts : leaseLasts s e) (hs : (leadership env).Step s e s') : Truthful s' := by
  cases leaderStep hst hs with
  | campaign hw ht => exact truthful_campaign h hw ht
  | stop hw ht => exact hcampaign.elim
  | executed hj₀ hw ht => exact truthful_executed hst h hj₀ hw ht
  | @failed j₀ t c o hj₀ ho redis hredis hw ht =>
    apply h.of_ended hj₀ (Or.inl rfl) ht
    · intro i hi
      rw [hw, withLeader_redis]
      rcases hredis with rfl | rfl
      · exact h.holder hi
      · exact h.execute hst hj₀ hi
    · intro i hup
      rw [hw, withLeader_leader] at hup
      split at hup
      · cases hup
      · exact Or.inl hup
  | @arrived j₀ t c r x hj₀ hw ht =>
    apply h.of_ended hj₀ (Or.inl rfl) ht
    · intro i hi
      rw [hw, onReply_redis]
      exact h.holder hi
    · intro i hup
      rw [hw] at hup
      rcases onReply_leader hup with hup | ⟨rfl, rfl⟩
      · exact Or.inl hup
      · exact Or.inr ⟨j₀, t, hj₀⟩
  | @dropped j₀ t c r o hj₀ ho hw ht =>
    apply h.of_ended hj₀ (Or.inl rfl) ht
    · intro i hi
      rw [hw, withLeader_redis]
      exact h.holder hi
    · intro i hup
      rw [hw, withLeader_leader] at hup
      split at hup
      · cases hup
      · exact Or.inl hup
  | @halted j₀ t p₀ hj₀ hw ht =>
    apply h.of_ended hj₀ (Or.inr rfl) ht
    · intro i hi
      rw [hw]
      exact h.holder hi
    · intro i hup
      rw [hw] at hup
      exact Or.inl hup
  | ticked hle hw ht => exact truthful_ticked h hlasts hw ht

theorem truthful_run {redis : KeyState n}
    (h : (leadership env).Run (fun s e => campaignsOnly e ∧ leaseLasts s e)
      (.fresh ⟨redis, fun _ => false, fun _ => false⟩) s) : Truthful s := by
  refine h.keeps ⟨fun i hi => ?_, fun j tag i hj => ?_, fun j i p hj => ?_⟩
    fun s e s' hr ih hok hs => truthful_step (staged_run hr) ih hok.1 hok.2 hs
  · cases hi
  · simp [State.Live, State.fresh] at hj
  · simp [State.Live, State.fresh] at hj

/-- While the lease lasts, who takes itself for the leader holds the key; so there is one
leader at most. -/
theorem leader_holds_key {redis : KeyState n}
    (h : (leadership env).Run (fun s e => campaignsOnly e ∧ leaseLasts s e)
      (.fresh ⟨redis, fun _ => false, fun _ => false⟩) s) :
    (∀ i, s.world.leader i = true → s.world.redis.holder = some i) ∧
      ∀ i j, s.world.leader i = true → s.world.leader j = true → i = j := by
  have hflag := (truthful_run h).flag
  refine ⟨hflag, fun i j hi hj => ?_⟩
  exact Option.some.inj ((hflag i hi).symm.trans (hflag j hj))

/-! ## Runs -/

/-- The lease has not run out when the clock goes on. -/
def beforeExpiry (s : LeaderState n) : LeaderEvent n → Prop
  | .outside t => ∀ lease ∈ s.world.redis.key, t ≤ lease.expireAt
  | _ => True

instance : DecidablePred (campaignsOnly (n := n)) := fun e => by
  induction e using Async.Event.casesOn with
  | begin t => induction t using LeaderTask.casesOn <;> unfold campaignsOnly <;> infer_instance
  | _ => exact instDecidableTrue

instance (s : LeaderState n) : DecidablePred (beforeExpiry s) := fun e => by
  induction e using Async.Event.casesOn <;> unfold beforeExpiry <;> infer_instance

theorem leaseLasts_of_beforeExpiry (h : beforeExpiry s e) : leaseLasts s e := by
  cases e with
  | outside t =>
    intro i x hkey hlt
    have hle : t ≤ x := h ⟨i, x⟩ hkey
    omega
  | _ => trivial

def twoSchedulers : LeaderState 2 := .fresh (.initial 0)

/-- Scheduler 0 acquires the lease, scheduler 1 does not, and 0 renews in time. -/
def renewing : List (LeaderEvent 2) :=
  [.begin (.campaign 0), .begin (.campaign 1), .resume 0 (.answered ()), .resume 1 (.answered ()),
    .resume 0 (.answered ()), .resume 1 (.answered ()), .outside 3333, .begin (.campaign 0),
    .resume 2 (.answered ()), .resume 2 (.answered ()), .outside 13000]

theorem leader_holds_key_renewing : ∃ s,
    (leadership {}).run twoSchedulers renewing = some s ∧ s.world.leader 0 = true ∧
      s.world.redis.now = 13000 ∧
      (∀ i, s.world.leader i = true → s.world.redis.holder = some i) ∧
      ∀ i j, s.world.leader i = true → s.world.leader j = true → i = j := by
  have hrun : ((leadership {}).runChecked (fun s e => campaignsOnly e ∧ beforeExpiry s e)
      twoSchedulers renewing).map (fun s => decide (s.world.leader 0 = true ∧
        s.world.redis.now = 13000)) = some true := by decide +kernel
  obtain ⟨s, hs, hend⟩ := Option.map_eq_some_iff.mp hrun
  obtain ⟨hleader, hnow⟩ := of_decide_eq_true hend
  have hlasting : (leadership {}).Run (fun s e => campaignsOnly e ∧ leaseLasts s e)
      twoSchedulers s :=
    (Run.of_runChecked hs).mono fun s e h => ⟨h.1, leaseLasts_of_beforeExpiry h.2⟩
  exact ⟨s, run_of_runChecked hs, hleader, hnow, leader_holds_key hlasting⟩

/-- The process of scheduler 0 is held up past its lease, and scheduler 1 takes over. -/
def overtaking : List (LeaderEvent 2) :=
  [.begin (.campaign 0), .resume 0 (.answered ()), .resume 0 (.answered ()), .outside 10001,
    .begin (.campaign 1), .resume 1 (.answered ()), .resume 1 (.answered ())]

/-- Both take themselves for the leader then. -/
theorem two_leaders : ¬ ∀ s, (leadership {}).Run (fun _ e => campaignsOnly e) twoSchedulers s →
    (∀ i, s.world.leader i = true → s.world.redis.holder = some i) ∧
      ∀ i j, s.world.leader i = true → s.world.leader j = true → i = j := by
  have hrun : ((leadership {}).runChecked (fun _ e => campaignsOnly e)
      twoSchedulers overtaking).map (fun s => decide (s.world.leader 0 = true ∧
        s.world.leader 1 = true)) = some true := by decide +kernel
  obtain ⟨s, hs, hend⟩ := Option.map_eq_some_iff.mp hrun
  obtain ⟨h₀, h₁⟩ := of_decide_eq_true hend
  intro hone
  have heq := (hone s (.of_runChecked hs)).2 0 1 h₀ h₁
  cases heq

end CronHive
