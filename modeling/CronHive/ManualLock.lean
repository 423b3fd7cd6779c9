import CronHive.Abandonment
import CronHive.Async.Lease
import CronHive.LockTokens
import CronHive.SlotLock
import CronHive.TriggerPhases

/-!
# The manual lock

A trigger is refused while the manual lock of its job is held: from a grant until the lock
expires or the trigger it was granted to releases it. Neither a worker nor the outcome of the
execution touches it.
-/

namespace CronHive

set_option autoImplicit false

open Async Async.Prog Async.Machine

/-- What an entry of the trace does to the manual lock of job `j`. -/
def manualMove (j : JobId) : TraceEntry → LeaseMove Nat
  | .called i (.redisSetNx key _ _) (some (.ok true)) _ =>
      if key = jobLockKey j .manual then .granted i else .neither
  | .called i (.redisRelease key _) (some _) _ =>
      if key = jobLockKey j .manual then .released i else .neither
  | .outside (.expire key) => if key = jobLockKey j .manual then .expired else .neither
  | _ => .neither

/-- The manual lock of job `j` has been granted to a trigger that has not released it, and it
has not expired since. -/
def ManualHeld (j : JobId) (tr : List TraceEntry) : Prop := ∃ i, HeldBy (manualMove j) i tr

section Moves

variable {j : JobId}

theorem manualMove_unreached (i : Nat) (c : Call) (seen : Except Failure c.Reply) :
    manualMove j (.called i c none seen) = .neither := by
  cases c with
  | _ => rfl

theorem manualMove_granted {i : Nat} {x : TraceEntry} (h : manualMove j x = .granted i) :
    ∃ v ttl seen,
      x = .called i (.redisSetNx (jobLockKey j .manual) v ttl) (some (.ok true)) seen := by
  unfold manualMove at h
  split at h
  · rename_i i' key v ttl seen
    split at h
    · rename_i hkey
      cases h
      exact ⟨v, ttl, seen, by rw [hkey]⟩
    · cases h
  · split at h <;> cases h
  · split at h <;> cases h
  · cases h

theorem manualMove_released {i : Nat} {x : TraceEntry} (h : manualMove j x = .released i) :
    ∃ t reply seen, x = .called i (.redisRelease (jobLockKey j .manual) t) reply seen := by
  unfold manualMove at h
  split at h
  · split at h <;> cases h
  · rename_i i' key t reply seen
    split at h
    · rename_i hkey
      cases h
      exact ⟨t, some reply, seen, by rw [hkey]⟩
    · cases h
  · split at h <;> cases h
  · cases h

theorem manualMove_expired {x : TraceEntry} (h : manualMove j x = .expired) :
    x = .outside (.expire (jobLockKey j .manual)) := by
  unfold manualMove at h
  split at h
  · split at h <;> cases h
  · split at h <;> cases h
  · split at h
    · rename_i hkey
      rw [hkey]
    · cases h
  · cases h

end Moves

section Runs

variable {S : Setup} {w₀ : World} {jobs : List Job} {hjobs : (jobs.map (·.id)).Nodup}
  {clock : Nat → Int} {s s' : SystemState} {j : JobId}

/-- What a step does to the key of the manual lock. -/
inductive ManualStep (j : JobId) (s s' : SystemState) : TraceEntry → Prop where
  | kept {x : TraceEntry} (hmove : manualMove j x = .neither)
      (h : s'.world.redis (jobLockKey j .manual) = s.world.redis (jobLockKey j .manual)) :
      ManualStep j s s' x
  | granted {i : Nat} {v : RedisValue} {ttl : Nat} {seen : Except Failure Bool}
      (hi : s.Awaits i (.redisSetNx (jobLockKey j .manual) v ttl))
      (h : s'.world.redis (jobLockKey j .manual) = some ⟨v, ttl⟩) :
      ManualStep j s s'
        (.called i (.redisSetNx (jobLockKey j .manual) v ttl) (some (.ok true)) seen)
  | released {i : Nat} {t : Token} {reply : Except Failure Unit} {seen : Except Failure Unit}
      (hi : s.Awaits i (.redisRelease (jobLockKey j .manual) t))
      (h : s'.world.redis = s.world.redis.releaseScript (jobLockKey j .manual) t) :
      ManualStep j s s' (.called i (.redisRelease (jobLockKey j .manual) t) (some reply) seen)
  | expired (h : s'.world.redis (jobLockKey j .manual) = none) :
      ManualStep j s s' (.outside (.expire (jobLockKey j .manual)))

theorem not_del_lock (hr : Reachable S w₀ s) {i : Nat} {slot : FireSlot} :
    ¬ s.Awaits i (.redisDel (jobLockKey j slot)) := by
  intro hawait
  obtain ⟨tag, k, hi⟩ := hawait
  have hcalls : tag.Calls (.redisDel (jobLockKey j slot)) :=
    (hr.only (P := Task.Calls) (fun _ _ _ _ => only_start) hi).1
  cases tag with
  | tick => exact hcalls
  | deliver m =>
    obtain ⟨b, hb⟩ := hcalls
    exact hb
  | trigger id => exact hcalls
  | _ =>
    obtain ⟨j', hkey⟩ := hcalls
    cases hkey

theorem manualStep_call (hr : Reachable S w₀ s) {i : Nat} {c : Call} (hi : s.Awaits i c)
    (x : Choice) (seen : Except Failure c.Reply)
    (hredis : s'.world.redis = (World.exec c x s.world).1.redis) :
    ManualStep j s s' (.called i c (some (World.exec c x s.world).2) seen) := by
  cases c with
  | redisSetNx key v ttl =>
    by_cases hkey : key = jobLockKey j .manual
    · subst hkey
      cases hreply : (World.exec (.redisSetNx (jobLockKey j .manual) v ttl) x s.world).2 with
      | error e =>
        refine .kept rfl ?_
        rw [hredis]
        exact Redis.setNxEx_other fun _ h => by cases h.symm.trans hreply
      | ok granted =>
        cases granted with
        | false =>
          refine .kept rfl ?_
          rw [hredis]
          exact Redis.setNxEx_other fun _ h => by cases h.symm.trans hreply
        | true =>
          refine .granted hi ?_
          rw [hredis]
          exact Redis.setNxEx_self hreply
    · refine .kept ?_ ?_
      · unfold manualMove
        split <;> simp_all
      · rw [hredis]
        exact Redis.setNxEx_other fun h => absurd h hkey
  | redisRelease key t =>
    by_cases hkey : key = jobLockKey j .manual
    · subst hkey
      exact .released hi hredis
    · refine .kept (if_neg hkey) ?_
      rw [hredis]
      exact Redis.releaseScript_other hkey
  | redisSet key v ttl =>
    have hkey : key ≠ jobLockKey j .manual := by
      intro h
      subst h
      exact not_set_lock hr hi
    refine .kept rfl ?_
    rw [hredis]
    exact Redis.setEx_other hkey
  | redisDel key =>
    have hkey : key ≠ jobLockKey j .manual := by
      intro h
      subst h
      exact not_del_lock hr hi
    refine .kept rfl ?_
    rw [hredis]
    exact Function.update_of_ne (Ne.symm hkey) _ _
  | _ =>
    refine .kept rfl ?_
    rw [hredis]
    rfl

theorem manualStep (hr : Reachable S w₀ s) {e : SystemEvent} (hs : (system S).Step s e s') :
    ∃ x, s'.trace = s.trace ++ [x] ∧ ManualStep j s s' x := by
  cases hs with
  | begin h =>
    refine ⟨_, rfl, .kept rfl ?_⟩
    rw [spawned_redis, (start_stores h).2.1]
  | @resume i tag c k o h =>
    refine ⟨_, rfl, ?_⟩
    rcases attend_cases (M := system S) c o s.world with ⟨_, hw, hreply⟩ | ⟨x, hw, hreply, _⟩
    · rw [hreply]
      refine .kept (manualMove_unreached ..) ?_
      rw [resumed_redis, hw]
    · rw [hreply]
      refine manualStep_call hr ⟨tag, k, h⟩ x _ ?_
      rw [resumed_redis, hw]
      rfl
  | stop h => exact ⟨_, rfl, .kept rfl rfl⟩
  | @outside x w h =>
    refine ⟨_, rfl, ?_⟩
    cases x with
    | stall m =>
      cases h
      exact .kept rfl rfl
    | expire key =>
      cases h
      by_cases hkey : key = jobLockKey j .manual
      · subst hkey
        exact .expired (Function.update_self ..)
      · exact .kept (if_neg hkey) (Function.update_of_ne (Ne.symm hkey) _ _)

/-! ## Who holds the lock -/

/-- Redis has the key under the token of the trigger that holds the lock by the trace. -/
inductive HolderHas (S : Setup) (j : JobId) (s : SystemState) : Option Nat → Prop where
  | free (h : s.world.redis (jobLockKey j .manual) = none) : HolderHas S j s none
  | held {i ttl : Nat} {token : Token} {stage : AskedStage}
      (h : s.world.redis (jobLockKey j .manual) = some ⟨.token token, ttl⟩)
      (ht : IsTrigger s i j) (hphase : triggerAt S.env j s.trace i = .asked j token stage) :
      HolderHas S j s (some i)

theorem HolderHas.isSome {o : Option Nat} (h : HolderHas S j s o) :
    o.isSome ↔ s.world.redis (jobLockKey j .manual) ≠ none := by
  cases h with
  | free h => simp [h]
  | held h _ _ => simp [h]

theorem carries_of_asked (hr : Reachable S w₀ s) {i : Nat} {token : Token} {stage : AskedStage}
    (ht : IsTrigger s i j) (hphase : triggerAt S.env j s.trace i = .asked j token stage) :
    s.Carries lockTokens i token := by
  obtain ⟨ttl, reply, seen, hm⟩ := asked_told hr ht hphase
  exact Or.inl ⟨_, reply, seen, hm, rfl⟩

theorem asked_step (hr : Reachable S w₀ s) {e : SystemEvent} (hs : (system S).Step s e s') {i : Nat}
    (ht : IsTrigger s i j) {token : Token} {stage : AskedStage}
    (hphase : triggerAt S.env j s.trace i = .asked j token stage) :
    ∃ stage', triggerAt S.env j s'.trace i = .asked j token stage' := by
  rcases triggerAt_step hr hs ht with hsame | ⟨tag, c, k, o, _, _, _, hnext⟩
  · exact ⟨stage, hsame.trans hphase⟩
  · rw [hphase] at hnext
    exact ⟨_, hnext⟩

theorem HolderHas.frame {o : Option Nat} (h : HolderHas S j s o) (hr : Reachable S w₀ s)
    {e : SystemEvent} (hs : (system S).Step s e s')
    (hredis : s'.world.redis (jobLockKey j .manual) = s.world.redis (jobLockKey j .manual)) :
    HolderHas S j s' o := by
  cases h with
  | free h => exact .free (hredis.trans h)
  | held h ht hphase =>
    obtain ⟨stage', hphase'⟩ := asked_step hr hs ht hphase
    exact .held (hredis.trans h) (ht.step hs) hphase'

/-- A release takes the lock from its holder and from nobody else. -/
theorem HolderHas.release {o : Option Nat} (h : HolderHas S j s o) (hr : Reachable S w₀ s)
    {e : SystemEvent} (hs : (system S).Step s e s') {i : Nat} {t : Token}
    (hi : s.Awaits i (.redisRelease (jobLockKey j .manual) t))
    (hredis : s'.world.redis = s.world.redis.releaseScript (jobLockKey j .manual) t) :
    HolderHas S j s' ((LeaseMove.released i).onto o) := by
  cases h with
  | free h =>
    refine .free (by_contra fun hheld => ?_)
    rw [hredis] at hheld
    exact hheld ((Redis.releaseScript_le hheld).trans h)
  | @held i₀ ttl token stage h ht hphase =>
    by_cases hself : i₀ = i
    · subst hself
      obtain ⟨tag, k, hi⟩ := hi
      have hcall := trigger_call hr hi ht
      rw [hphase] at hcall
      cases hcall
      have hget : s.world.redis.get (jobLockKey j .manual) = some (.token t) := by
        simp [Redis.get, h]
      simp only [LeaseMove.onto, if_true]
      refine .free ?_
      rw [hredis, Redis.releaseScript, if_pos hget]
      exact Function.update_self ..
    · have hother : t ≠ token := by
        intro hsame
        subst hsame
        have hcarries : s.Carries lockTokens i t := Or.inr ⟨_, hi, rfl⟩
        exact hself (lock_token_unique hr (carries_of_asked hr ht hphase) hcarries)
      have hget : s.world.redis.get (jobLockKey j .manual) ≠ some (.token t) := by
        simp [Redis.get, h, Ne.symm hother]
      have hne : some i₀ ≠ some i := fun hsame => hself (Option.some.inj hsame)
      simp only [LeaseMove.onto, if_neg hne]
      refine (HolderHas.held h ht hphase).frame hr hs ?_
      rw [hredis, Redis.releaseScript, if_neg hget]

theorem HolderHas.step (h : HolderHas S j s (holder (manualMove j) s.trace))
    (hr : Reachable S w₀ s) {e : SystemEvent} (hs : (system S).Step s e s') :
    HolderHas S j s' (holder (manualMove j) s'.trace) := by
  obtain ⟨x, hx, hstep⟩ := manualStep (j := j) hr hs
  have hr' : Reachable S w₀ s' := hr.tail trivial hs
  rw [hx, holder_append_singleton]
  cases hstep with
  | kept hmove hredis =>
    rw [hmove]
    exact h.frame hr hs hredis
  | @granted i v ttl seen hi hredis =>
    have hm : Entry.called i (.redisSetNx (jobLockKey j .manual) v ttl) (some (.ok true)) seen ∈
        s'.trace := by
      rw [hx]
      exact List.mem_append_right _ (List.mem_singleton.mpr rfl)
    obtain ⟨ht, _, token, stage, rfl, hphase, _⟩ := setNx_told hr' hm
    simp only [manualMove, if_true, LeaseMove.onto]
    exact .held hredis ht hphase
  | released hi hredis =>
    simp only [manualMove, if_true]
    exact h.release hr hs hi hredis
  | expired hredis =>
    simp only [manualMove, if_true, LeaseMove.onto]
    exact .free hredis

theorem holderHas (hr : Reachable S (.initial jobs hjobs clock) s) :
    HolderHas S j s (holder (manualMove j) s.trace) := by
  induction hr with
  | refl => exact .free rfl
  | tail hr _ hs ih => exact ih.step hr hs

theorem answer_of_held (hr : Reachable S (.initial jobs hjobs clock) s) {pre post : List TraceEntry}
    {i ttl : Nat} {v : RedisValue} {r : Bool} {seen : Except Failure Bool}
    (htrace : s.trace =
      pre ++ .called i (.redisSetNx (jobLockKey j .manual) v ttl) (some (.ok r)) seen :: post) :
    r = !(holder (manualMove j) pre).isSome := by
  induction hr generalizing post with
  | refl => simp [State.fresh] at htrace
  | @tail s s' e hr _ hs ih =>
    obtain ⟨x, hx⟩ := hs.traced
    rcases append_singleton_split (hx.symm.trans htrace) with ⟨rfl, rfl, _⟩ | ⟨post', _, hbefore⟩
    · obtain ⟨tag, k, o, hi, _, _, hreply, _⟩ := hs.traced_call hx
      have hheld := (holderHas (j := j) hr).isSome
      rcases attend_cases (M := system S) (.redisSetNx (jobLockKey j .manual) v ttl) o s.world
        with ⟨_, _, hnone⟩ | ⟨c, _, hsome, _⟩
      · cases hnone.symm.trans hreply
      · have hexec : (s.world.redis.setNxEx (jobLockKey j .manual) v ttl).2 = .ok r :=
          Option.some.inj (hsome.symm.trans hreply)
        cases r with
        | false => simpa using hheld.mpr (Redis.setNxEx_false hexec)
        | true => simpa [Redis.setNxEx_true hexec] using hheld
    · exact ih hbefore

theorem manual_exclusive (hr : Reachable S (.initial jobs hjobs clock) s) :
    Exclusive (manualMove j) s.trace := by
  intro pre x post i htrace hx
  obtain ⟨v, ttl, seen, rfl⟩ := manualMove_granted hx
  simpa using answer_of_held hr htrace

theorem answer_iff (hr : Reachable S (.initial jobs hjobs clock) s) {pre post : List TraceEntry}
    {i ttl : Nat} {v : RedisValue} {r : Bool} {seen : Except Failure Bool}
    (htrace : s.trace =
      pre ++ .called i (.redisSetNx (jobLockKey j .manual) v ttl) (some (.ok r)) seen :: post) :
    r = false ↔ ManualHeld j pre := by
  have hexclusive : Exclusive (manualMove j) pre := by
    have hall := manual_exclusive (j := j) hr
    rw [htrace] at hall
    exact Exclusive.of_append hall
  rw [answer_of_held hr htrace, ManualHeld, ← holder_isSome_iff hexclusive]
  simp

theorem asked_follows (hr : Reachable S w₀ s) {i : Nat} (ht : IsTrigger s i j) {id : JobId}
    {token : Token} {stage : AskedStage}
    (hphase : triggerAt S.env j s.trace i = .asked id token stage) : ∃ v ttl reply seen,
      Entry.called i (.redisSetNx (jobLockKey j .manual) v ttl) reply seen ∈ s.trace ∧
        stage.follows seen := by
  have hnames := triggerAt_names S.env j s.trace i
  rw [hphase] at hnames
  cases hnames
  obtain ⟨ttl, reply, seen, hm⟩ := asked_told hr ht hphase
  obtain ⟨_, _, token', stage', _, hsame, hfollows⟩ := setNx_told hr hm
  cases hphase.symm.trans hsame
  exact ⟨_, ttl, reply, seen, hm, hfollows⟩

theorem replied_locked_iff (hr : Reachable S (.initial jobs hjobs clock) s)
    {pre post : List TraceEntry} {i ttl : Nat} {v : RedisValue} {r : Bool} (htrace : s.trace =
      pre ++ .answered i (.redisSetNx (jobLockKey j .manual) v ttl) (.ok r) :: post) :
    Replied s i .locked ↔ ManualHeld j pre := by
  have hm : Entry.answered i (.redisSetNx (jobLockKey j .manual) v ttl) (.ok r) ∈ s.trace := by
    rw [htrace]
    exact List.mem_append_right _ List.mem_cons_self
  obtain ⟨ht, _, token, stage, _, hphase, hfollows⟩ := setNx_told hr hm
  rw [← answer_iff hr htrace]
  constructor
  · intro hlocked
    obtain ⟨id, token', hend⟩ := (hlocked.endsWith hr ht).1.mp rfl
    cases hphase.symm.trans hend
    exact Except.ok.inj hfollows
  · intro hfalse
    subst hfalse
    exact replied_of_false hr hm

theorem release_follows (hr : Reachable S w₀ s) {pre post : List TraceEntry} {i : Nat} {t : Token}
    {reply : Option (Except Failure Unit)} {seen : Except Failure Unit}
    (htrace : s.trace =
      pre ++ .called i (.redisRelease (jobLockKey j .manual) t) reply seen :: post) :
    IsTrigger s i j ∧ StartFailed j i pre ∧ ∃ ttl,
      .answered i (.redisSetNx (jobLockKey j .manual) (.token t) ttl) (.ok true) ∈ pre := by
  induction hr generalizing post with
  | refl => simp [State.fresh] at htrace
  | @tail s s' e hr _ hs ih =>
    obtain ⟨x, hx⟩ := hs.traced
    rcases append_singleton_split (hx.symm.trans htrace) with ⟨rfl, rfl, _⟩ | ⟨post', _, hbefore⟩
    · obtain ⟨tag, k, o, hi, _⟩ := hs.traced_call hx
      have ht : IsTrigger s i j := trigger_of_onLock hr ⟨tag, k, hi⟩ rfl
      have hcall := trigger_call hr hi ht
      generalize hphase : triggerAt S.env j s.trace i = st at hcall
      cases hcall with
      | releases =>
        refine ⟨ht.step hs, releasing_told hr ht hphase, ?_⟩
        obtain ⟨ttl, reply', granted, hm⟩ := asked_told hr ht hphase
        obtain ⟨_, _, token, stage, hv, hsame, hfollows⟩ := setNx_told hr hm
        cases hphase.symm.trans hsame
        have hgranted : granted = .ok true := hfollows
        subst hgranted
        cases hr.seen_ok hm
        exact ⟨ttl, hm⟩
    · obtain ⟨ht, hrest⟩ := ih hbefore
      exact ⟨ht.step hs, hrest⟩

theorem not_released_of_accepted (hr : Reachable S w₀ s) {i : Nat} (ht : IsTrigger s i j)
    {x : Execution} (h : Replied s i (.accepted x)) (t : Token)
    (reply : Option (Except Failure Unit)) (seen : Except Failure Unit) :
    Entry.called i (.redisRelease (jobLockKey j .manual) t) reply seen ∉ s.trace := by
  intro hm
  obtain ⟨id, token, hend⟩ := (h.endsWith hr ht).2 x rfl
  obtain ⟨token', hover⟩ := release_told hr ht hm
  cases hend.symm.trans hover

theorem held_of_accepted (hr : Reachable S w₀ s) {i : Nat} {x : Execution}
    (h : Replied s i (.accepted x)) {pre mid post : List TraceEntry} {v : RedisValue} {ttl : Nat}
    (htrace : s.trace =
      (pre ++ .answered i (.redisSetNx (jobLockKey j .manual) v ttl) (.ok true) :: mid) ++ post)
    (hexpire : .outside (.expire (jobLockKey j .manual)) ∉ mid) :
    ManualHeld j
      (pre ++ .answered i (.redisSetNx (jobLockKey j .manual) v ttl) (.ok true) :: mid) := by
  have hm : Entry.answered i (.redisSetNx (jobLockKey j .manual) v ttl) (.ok true) ∈ s.trace := by
    rw [htrace]
    exact List.mem_append_left _ (List.mem_append_right _ List.mem_cons_self)
  obtain ⟨ht, _⟩ := setNx_told hr hm
  refine ⟨i, pre, _, mid, rfl, if_pos rfl, ?_⟩
  intro y hy
  constructor
  · intro hmove
    cases manualMove_expired hmove
    exact hexpire hy
  · intro hmove
    obtain ⟨t, reply, seen, rfl⟩ := manualMove_released hmove
    refine not_released_of_accepted hr ht h t reply seen ?_
    rw [htrace]
    exact List.mem_append_left _ (List.mem_append_right _ (List.mem_cons_of_mem _ hy))

end Runs

/-- The manual lock of job `j` over a run. -/
structure ManualLockRule (S : Setup) (j : JobId) (s : SystemState) : Prop where
  /-- Only a trigger that has found the job enabled asks for the lock. -/
  asked : ∀ i v ttl reply seen,
    .called i (.redisSetNx (jobLockKey j .manual) v ttl) reply seen ∈ s.trace →
      IsTrigger s i j ∧ ∃ job, job.enabled ∧
        .answered i (.jobFindUnique j) (.ok (some job)) ∈ s.trace ∧
          ttl = computeJobLockTtlSeconds S.env job
  /-- One whose request is answered is refused exactly if the lock is held just then. -/
  refused : ∀ pre post i v ttl r, s.trace =
      pre ++ .answered i (.redisSetNx (jobLockKey j .manual) v ttl) (.ok r) :: post →
    (Replied s i .locked ↔ ManualHeld j pre)
  /-- No other trigger answers that it was refused. -/
  locked : ∀ i, IsTrigger s i j → Replied s i .locked → ∃ v ttl,
    .answered i (.redisSetNx (jobLockKey j .manual) v ttl) (.ok false) ∈ s.trace
  /-- One that has accepted was granted the lock and has not released it. -/
  accepted : ∀ i x, IsTrigger s i j → Replied s i (.accepted x) →
    (∃ v ttl, .answered i (.redisSetNx (jobLockKey j .manual) v ttl) (.ok true) ∈ s.trace) ∧
      ∀ t reply seen, .called i (.redisRelease (jobLockKey j .manual) t) reply seen ∉ s.trace
  /-- It is released only by a trigger that was granted it and whose own insert or enqueueing has
  failed since it began. -/
  releases : ∀ pre post i t reply seen, s.trace =
      pre ++ .called i (.redisRelease (jobLockKey j .manual) t) reply seen :: post →
    IsTrigger s i j ∧ StartFailed j i pre ∧ ∃ ttl,
      .answered i (.redisSetNx (jobLockKey j .manual) (.token t) ttl) (.ok true) ∈ pre
  /-- From then on every request answered before the lock expires is refused. -/
  blocks : ∀ pre mid post i x v ttl i' v' ttl' r, Replied s i (.accepted x) →
    s.trace = pre ++ .answered i (.redisSetNx (jobLockKey j .manual) v ttl) (.ok true) :: (mid ++
      .answered i' (.redisSetNx (jobLockKey j .manual) v' ttl') (.ok r) :: post) →
    .outside (.expire (jobLockKey j .manual)) ∉ mid → Replied s i' .locked

theorem manual_lock_rule {S : Setup} {jobs : List Job} {hjobs : (jobs.map (·.id)).Nodup}
    {clock : Nat → Int} {s : SystemState} (hr : Reachable S (.initial jobs hjobs clock) s)
    (j : JobId) : ManualLockRule S j s := by
  constructor
  · intro i v ttl reply seen hm
    obtain ⟨ht, hjob, _⟩ := setNx_told hr hm
    exact ⟨ht, hjob⟩
  · intro pre post i v ttl r htrace
    exact replied_locked_iff hr htrace
  · intro i ht hlocked
    obtain ⟨id, token, hend⟩ := (hlocked.endsWith hr ht).1.mp rfl
    obtain ⟨v, ttl, reply, seen, hm, hfollows⟩ := asked_follows hr ht hend
    have hseen : seen = .ok false := hfollows
    subst hseen
    cases hr.seen_ok hm
    exact ⟨v, ttl, hm⟩
  · intro i x ht hreplied
    refine ⟨?_, not_released_of_accepted hr ht hreplied⟩
    obtain ⟨id, token, hend⟩ := (hreplied.endsWith hr ht).2 x rfl
    obtain ⟨v, ttl, reply, seen, hm, hfollows⟩ := asked_follows hr ht hend
    have hseen : seen = .ok true := hfollows
    subst hseen
    cases hr.seen_ok hm
    exact ⟨v, ttl, hm⟩
  · intro pre post i t reply seen htrace
    exact release_follows hr htrace
  · intro pre mid post i x v ttl i' v' ttl' r hreplied htrace hexpire
    rw [← List.cons_append, ← List.append_assoc] at htrace
    exact (replied_locked_iff hr htrace).mpr (held_of_accepted hr hreplied htrace hexpire)

/-! ## Two triggers of one job -/

/-- What thread `i`, a trigger, has answered. -/
def reply? (s : SystemState) (i : Nat) : Option TriggerReply :=
  match s.threads[i]? with
  | some ⟨.trigger _, some (.ret (.triggered reply))⟩ => some reply
  | _ => none

theorem replied_iff {s : SystemState} {i : Nat} {reply : TriggerReply} :
    Replied s i reply ↔ reply? s i = some reply := by
  constructor
  · intro h
    obtain ⟨id, hi⟩ := h
    unfold reply?
    rw [hi]
  · intro h
    unfold reply? at h
    split at h
    · rename_i id reply' hi
      cases h
      exact ⟨id, hi⟩
    · cases h

instance (s : SystemState) (i : Nat) (reply : TriggerReply) : Decidable (Replied s i reply) :=
  decidable_of_iff _ replied_iff.symm

/-- The calls of a trigger of the sample job up to its acceptance. -/
def acceptedTrigger (i : Nat) : List SystemEvent :=
  .begin (.trigger "job-1") :: List.replicate 4 (Sample.answered i)

def refusedTrigger : List SystemEvent :=
  acceptedTrigger 0 ++ [.begin (.trigger "job-1"), Sample.answered 1, Sample.answered 1]

theorem manual_lock_rule_refused : ∃ s,
    (system Sample.setup).run (.fresh Sample.world) refusedTrigger = some s ∧
      Replied s 1 .locked ∧ ManualLockRule Sample.setup "job-1" s := by
  have hrun : ((system Sample.setup).run (.fresh Sample.world) refusedTrigger).map
      (fun s => decide (Replied s 1 .locked)) = some true := by decide +kernel
  obtain ⟨s, hs, hlocked⟩ := Option.map_eq_some_iff.mp hrun
  have hr : Reachable Sample.setup Sample.world s := .of_run hs fun _ _ _ => trivial
  exact ⟨s, hs, of_decide_eq_true hlocked, manual_lock_rule hr "job-1"⟩

/-- A trigger whose request is answered in the step to `s'` is refused exactly if an execution
that another has accepted is open. -/
def RefusesWhileActive (j : JobId) (s s' : SystemState) : Prop :=
  ∀ i v ttl r, s'.trace =
      s.trace ++ [.answered i (.redisSetNx (jobLockKey j .manual) v ttl) (.ok r)] →
    (Replied s' i .locked ↔
      ∃ i' x, IsTrigger s i' j ∧ Replied s i' (.accepted x) ∧ OpenRow s x.id)

/-- The accepted execution ends in SUCCESS and the job is triggered again. -/
def triggeredAgain : List SystemEvent :=
  acceptedTrigger 0 ++ [.begin (.deliver 0)] ++ List.replicate 5 (Sample.answered 1) ++
    [.resume 1 (.answered { exchange := ⟨[], .response 200⟩ })] ++
    List.replicate 4 (Sample.answered 1) ++ [.begin (.trigger "job-1"), Sample.answered 2]

/-- The lock expires before the accepted execution has begun and the job is triggered again. -/
def triggeredEarly : List SystemEvent :=
  acceptedTrigger 0 ++ [.outside (.expire (jobLockKey "job-1" .manual)),
    .begin (.trigger "job-1"), Sample.answered 1]

def lockAnswer (i : Nat) (token : Token) (granted : Bool) : TraceEntry :=
  .answered i (.redisSetNx (jobLockKey "job-1" .manual) (.token token) 137) (.ok granted)

/-- A finished execution blocks the next trigger, and an expired lock lets a second execution in
beside an open one. -/
theorem manual_lock_outlives_execution :
    (∃ s s' e, Reachable Sample.setup Sample.world s ∧ (system Sample.setup).Step s e s' ∧
      Replied s' 2 .locked ∧ ¬ RefusesWhileActive "job-1" s s') ∧
    ∃ s s' e, Reachable Sample.setup Sample.world s ∧ (system Sample.setup).Step s e s' ∧
      ¬ Replied s' 1 .locked ∧ ¬ RefusesWhileActive "job-1" s s' := by
  constructor
  · have hrun : ((system Sample.setup).run (.fresh Sample.world) triggeredAgain).bind
        (fun s => ((system Sample.setup).step s (Sample.answered 2)).map fun s' =>
          decide (s'.trace.getLast? = some (lockAnswer 2 2 false) ∧ Replied s' 2 .locked ∧
            ∀ x ∈ s.world.db.executions, x.status.terminal)) = some true := by decide +kernel
    obtain ⟨s, hs, hrest⟩ := Option.bind_eq_some_iff.mp hrun
    obtain ⟨s', hs', hsum⟩ := Option.map_eq_some_iff.mp hrest
    obtain ⟨hlast, hlocked, hover⟩ := of_decide_eq_true hsum
    have hstep := step_iff.mp hs'
    refine ⟨s, s', _, .of_run hs fun _ _ _ => trivial, hstep, hlocked, fun h => ?_⟩
    obtain ⟨i', x, _, _, y, hy, _, hopen⟩ := (h _ _ _ _ (hstep.traced_last hlast)).mp hlocked
    exact hopen (hover y hy)
  · have hrun : ((system Sample.setup).run (.fresh Sample.world) triggeredEarly).bind
        (fun s => ((system Sample.setup).step s (Sample.answered 1)).map fun s' =>
          decide (s'.trace.getLast? = some (lockAnswer 1 1 true) ∧ ¬ Replied s' 1 .locked ∧
            IsTrigger s 0 "job-1" ∧ ∃ x ∈ s.world.db.executions,
              Replied s 0 (.accepted x) ∧ ¬ x.status.terminal)) = some true := by decide +kernel
    obtain ⟨s, hs, hrest⟩ := Option.bind_eq_some_iff.mp hrun
    obtain ⟨s', hs', hsum⟩ := Option.map_eq_some_iff.mp hrest
    obtain ⟨hlast, hgranted, ht, x, hx, haccepted, hopen⟩ := of_decide_eq_true hsum
    have hstep := step_iff.mp hs'
    refine ⟨s, s', _, .of_run hs fun _ _ _ => trivial, hstep, hgranted, fun h => ?_⟩
    exact hgranted ((h _ _ _ _ (hstep.traced_last hlast)).mpr
      ⟨0, x, ht, haccepted, x, hx, rfl, hopen⟩)

end CronHive
