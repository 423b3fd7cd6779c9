import CronHive.Services

/-!
# Owner-token locks

Any number of clients of `lock.ts` on one Redis, keyed by the strings that are sent. Keys
expire when they like, and releases come when they like and as often as they like.
-/

namespace CronHive

set_option autoImplicit false

open Async Async.Prog Async.Machine

/-! ## Redis by name -/

abbrev NamedKeys := String → Option RedisEntry

namespace NamedKeys

/-- `SET … EX s NX` -/
def setNxEx (keys : NamedKeys) (name : String) (value : RedisValue) (s : Nat) :
    NamedKeys × Except Failure Bool :=
  if Redis.validExpire s then
    match keys name with
    | none => (Function.update keys name (some ⟨value, s⟩), .ok true)
    | some _ => (keys, .ok false)
  else (keys, .error (.store "ERR invalid expire time in 'set' command"))

/-- `RELEASE_SCRIPT` -/
def releaseScript (keys : NamedKeys) (name : String) (token : Token) : NamedKeys :=
  if (keys name).map (·.value) = some (.token token) then Function.update keys name none else keys

variable {keys : NamedKeys} {name name' : String} {value : RedisValue} {s : Nat} {token : Token}

theorem setNxEx_true (h : (keys.setNxEx name value s).2 = .ok true) :
    keys name = none ∧ (keys.setNxEx name value s).1 name = some ⟨value, s⟩ := by
  unfold setNxEx at h ⊢
  split at h
  · rename_i hs
    rw [if_pos hs]
    cases hkey : keys name with
    | none => simp
    | some entry =>
      rw [hkey] at h
      cases h
  · cases h

theorem setNxEx_held {entry : RedisEntry} (h : keys name = some entry) :
    (keys.setNxEx name value s).1 = keys ∧ (keys.setNxEx name value s).2 ≠ .ok true := by
  unfold setNxEx
  split
  · rw [h]
    exact ⟨rfl, nofun⟩
  · exact ⟨rfl, nofun⟩

theorem setNxEx_other (h : name' ≠ name) : (keys.setNxEx name value s).1 name' = keys name' := by
  unfold setNxEx
  split
  · split
    · exact Function.update_of_ne h _ _
    · rfl
  · rfl

theorem releaseScript_stale (h : (keys name).map (·.value) ≠ some (.token token)) :
    keys.releaseScript name token = keys := if_neg h

theorem releaseScript_other (h : name' ≠ name) :
    keys.releaseScript name token name' = keys name' := by
  unfold releaseScript
  split
  · exact Function.update_of_ne h _ _
  · rfl

end NamedKeys

/-- Every key holds what its name holds. -/
def Redis.SentAs (r : Redis) (keys : NamedKeys) : Prop := ∀ key : RedisKey, keys key.text = r key

theorem Redis.SentAs.update {r : Redis} {keys : NamedKeys} (h : r.SentAs keys) (key : RedisKey)
    (entry : Option RedisEntry) :
    SentAs (Function.update r key entry) (Function.update keys key.text entry) := by
  intro key'
  by_cases hkey : key' = key
  · subst hkey
    simp
  · have hname : key'.text ≠ key.text := fun heq => hkey (RedisKey.text_injective heq)
    rw [Function.update_of_ne hname, Function.update_of_ne hkey]
    exact h key'

/-- The lock commands do by name what they do by key. -/
theorem Redis.SentAs.lockCommands {r : Redis} {keys : NamedKeys} (h : r.SentAs keys)
    (key : RedisKey) (value : RedisValue) (s : Nat) (token : Token) :
    (SentAs (r.setNxEx key value s).1 (keys.setNxEx key.text value s).1 ∧
        (keys.setNxEx key.text value s).2 = (r.setNxEx key value s).2) ∧
      SentAs (r.releaseScript key token) (keys.releaseScript key.text token) := by
  constructor
  · unfold Redis.setNxEx NamedKeys.setNxEx
    rw [h key]
    split
    · cases r key with
      | none => exact ⟨h.update key _, rfl⟩
      | some entry => exact ⟨h, rfl⟩
    · exact ⟨h, rfl⟩
  · unfold Redis.releaseScript NamedKeys.releaseScript Redis.get
    rw [h key]
    split
    · exact h.update key none
    · exact h

/-! ## The clients -/

/-- `keys` is Redis; what else a process needs is `rest`. -/
structure LockWorld where
  rest : World
  keys : NamedKeys

inductive LockTask where
  | acquire (jobId : JobId) (fireSlot : FireSlot) (ttlSeconds : Nat)
  | release (lock : JobLock)
  deriving DecidableEq, Repr

namespace LockWorld

/-- The lock functions send these two commands only. -/
def exec : (c : Call) → Choice → LockWorld → LockWorld × Except Failure c.Reply
  | .redisSetNx key value s, _, w =>
      ({ w with keys := (w.keys.setNxEx key.text value s).1 }, (w.keys.setNxEx key.text value s).2)
  | .redisRelease key token, _, w =>
      ({ w with keys := w.keys.releaseScript key.text token }, .ok ())
  | c, x, w => ({ w with rest := (World.exec c x w.rest).1 }, (World.exec c x w.rest).2)

def eval (l : Local) (w : LockWorld) : LockWorld × l.Value :=
  ({ w with rest := (World.eval l w.rest).1 }, (World.eval l w.rest).2)

@[simp] theorem eval_keys (l : Local) (w : LockWorld) : (eval l w).1.keys = w.keys := rfl

end LockWorld

/-- From outside, a key expires. -/
def lockClients : Machine Call.Reply Local.Value Failure (Option JobLock) LockWorld LockTask
    Choice String where
  exec := LockWorld.exec
  eval := LockWorld.eval
  start
    | .acquire jobId fireSlot ttlSeconds, w => some (w, acquireJobLock jobId fireSlot ttlSeconds)
    | .release lock, w => some (w, do releaseJobLock lock; pure none)
  outside name w := some { w with keys := Function.update w.keys name none }

abbrev LockState : Type :=
  Async.State Call.Reply Local.Value Failure (Option JobLock) LockWorld LockTask String

abbrev LockEvent : Type := Async.Event LockTask Choice String Failure

/-! ## A lock that is held -/

variable {s s' : LockState} {e : LockEvent} {key : RedisKey} {t : Token}

/-- Redis has the key under the token. -/
def LockWorld.Holds (w : LockWorld) (key : RedisKey) (t : Token) : Prop :=
  ∃ ttl, w.keys key.text = some ⟨.token t, ttl⟩

/-- The key does not expire and its release with the token is not executed. -/
def leavesLock (key : RedisKey) (t : Token) (s : LockState) : LockEvent → Prop
  | .outside name => name ≠ key.text
  | .resume _ (.rejected _) => True
  | .resume i _ => ¬ s.Awaits i (.redisRelease key t)
  | _ => True

/-- What a step does to one key. -/
inductive KeyStep (s s' : LockState) (key : RedisKey) : LockEvent → Prop where
  | silent {e : LockEvent} (h : s'.world.keys key.text = s.world.keys key.text) : KeyStep s s' key e
  | setNx {i : Nat} {o : Async.Outcome Choice Failure} {value : RedisValue} {n : Nat}
      (hi : s.Awaits i (.redisSetNx key value n)) (ho : ∀ f, o ≠ .rejected f)
      (h : s'.world.keys = (s.world.keys.setNxEx key.text value n).1) :
      KeyStep s s' key (.resume i o)
  | release {i : Nat} {o : Async.Outcome Choice Failure} {t : Token}
      (hi : s.Awaits i (.redisRelease key t)) (ho : ∀ f, o ≠ .rejected f)
      (h : s'.world.keys = s.world.keys.releaseScript key.text t) : KeyStep s s' key (.resume i o)
  | expired (h : s'.world.keys key.text = none) : KeyStep s s' key (.outside key.text)

@[simp] theorem spawned_keys (tag : LockTask) (w : LockWorld) (p : Promise (Option JobLock)) :
    (lockClients.spawned s tag w p).world.keys = w.keys :=
  drain_frame _ LockWorld.keys LockWorld.eval_keys p w

@[simp] theorem resumed_keys (i : Nat) (tag : LockTask) (c : Call)
    (k : Except Failure c.Reply → Promise (Option JobLock)) (o : Async.Outcome Choice Failure) :
    (lockClients.resumed s i tag c k o).world.keys = (lockClients.attend c o s.world).1.keys :=
  drain_frame _ LockWorld.keys LockWorld.eval_keys _ _

/-- Commands on other keys are silent: no two keys have one name. -/
theorem keyStep (key : RedisKey) (hs : lockClients.Step s e s') : KeyStep s s' key e := by
  cases hs with
  | @begin tag w p h =>
    cases tag with
    | _ =>
      cases h
      exact .silent (by rw [spawned_keys])
  | @resume i tag c k o h =>
    have hkeys := resumed_keys (s := s) i tag c k o
    rcases attend_cases (M := lockClients) c o s.world with ⟨_, hw, _⟩ | ⟨x, hw, hreply, _⟩
    · rw [hw] at hkeys
      exact .silent (by rw [hkeys])
    · have ho (f : Failure) : o ≠ .rejected f := by
        intro heq
        subst heq
        cases hreply
      rw [hw] at hkeys
      cases c with
      | redisSetNx key' value n =>
        by_cases hkey : key' = key
        · subst hkey
          exact .setNx ⟨tag, k, h⟩ ho hkeys
        · have hname : key.text ≠ key'.text := fun heq => hkey (RedisKey.text_injective heq).symm
          exact .silent (by rw [hkeys]; exact NamedKeys.setNxEx_other hname)
      | redisRelease key' token =>
        by_cases hkey : key' = key
        · subst hkey
          exact .release ⟨tag, k, h⟩ ho hkeys
        · have hname : key.text ≠ key'.text := fun heq => hkey (RedisKey.text_injective heq).symm
          exact .silent (by rw [hkeys]; exact NamedKeys.releaseScript_other hname)
      | _ => exact .silent (by rw [hkeys]; rfl)
  | stop h => exact .silent rfl
  | @outside name w h =>
    cases h
    by_cases hname : name = key.text
    · subst hname
      exact .expired (Function.update_self ..)
    · exact .silent (Function.update_of_ne (Ne.symm hname) _ _)

/-- A lock that is held stays as it is, whatever arrives but its own release. -/
theorem holds_step {ttl : Nat} (h : s.world.keys key.text = some ⟨.token t, ttl⟩)
    (hleaves : leavesLock key t s e) (hs : lockClients.Step s e s') :
    s'.world.keys key.text = some ⟨.token t, ttl⟩ := by
  cases keyStep key hs with
  | silent hsame => rw [hsame, h]
  | setNx hi ho hkeys => rw [hkeys, (NamedKeys.setNxEx_held h).1, h]
  | @release i o t' hi ho hkeys =>
    have hother : t' ≠ t := by
      intro heq
      subst heq
      cases o with
      | answered x => exact hleaves hi
      | rejected f => exact ho f rfl
      | lost x f => exact hleaves hi
    rw [hkeys, NamedKeys.releaseScript_stale, h]
    rw [h]
    intro heq
    cases heq
    exact hother rfl
  | expired _ => exact absurd rfl hleaves

/-! ## Whose token -/

/-- What `acquireJobLock` does once it has drawn its token. -/
def acquiring (jobId : JobId) (fireSlot : FireSlot) (ttlSeconds : Nat) (token : Token) :
    Promise (Option JobLock) :=
  (await (.redisSetNx (jobLockKey jobId fireSlot) (.token token)
    (if ttlSeconds < 1 then 1 else ttlSeconds))).bind fun granted =>
      pure (if granted then some ⟨jobId, fireSlot, token⟩ else none)

/-- The call has drawn the token and may still return a lock with it. -/
inductive Draws (t : Token) : LockTask → Promise (Option JobLock) → Prop where
  | acquiring (jobId : JobId) (fireSlot : FireSlot) (ttlSeconds : Nat) :
      Draws t (.acquire jobId fireSlot ttlSeconds) (acquiring jobId fireSlot ttlSeconds t)
  | granted (jobId : JobId) (fireSlot : FireSlot) (ttlSeconds : Nat) :
      Draws t (.acquire jobId fireSlot ttlSeconds) (.ret (some ⟨jobId, fireSlot, t⟩))

/-- How far a call has got. -/
inductive LockStage : LockTask → Promise (Option JobLock) → Prop where
  | drawn {t : Token} {tag : LockTask} {p : Promise (Option JobLock)} (h : Draws t tag p) :
      LockStage tag p
  | releasing (lock : JobLock) :
      LockStage (.release lock) ((releaseJobLock lock).bind fun _ => pure none)
  | none (tag : LockTask) : LockStage tag (.ret none)
  | failed (tag : LockTask) (e : Failure) : LockStage tag (.fail e)

theorem draws_acquiring {t' : Token} {jobId : JobId} {fireSlot : FireSlot} {ttlSeconds : Nat}
    (h : Draws t (.acquire jobId fireSlot ttlSeconds)
      (acquiring jobId fireSlot ttlSeconds t')) : t = t' := by
  generalize hp : acquiring jobId fireSlot ttlSeconds t' = p at h
  cases h with
  | acquiring =>
    unfold acquiring at hp
    injection hp with hcall _
    injection hcall with _ hvalue _
    injection hvalue with ht
    exact ht.symm
  | granted => cases hp

theorem not_draws_none {tag : LockTask} : ¬ Draws t tag (.ret none) := by
  intro h
  cases h

theorem not_draws_fail {tag : LockTask} {e : Failure} : ¬ Draws t tag (.fail e) := by
  intro h
  cases h

/-- A reply takes a call on with the token it has, or ends it. -/
theorem lockStage_reply {tag : LockTask} {c : Call}
    {k : Except Failure c.Reply → Promise (Option JobLock)} (h : LockStage tag (.await c k))
    (r : Except Failure c.Reply) (w : LockWorld) :
    LockStage tag ((k r).drain LockWorld.eval w).2 ∧
      ∀ t, Draws t tag ((k r).drain LockWorld.eval w).2 → Draws t tag (.await c k) := by
  generalize hp : Prog.await c k = p at h ⊢
  cases h with
  | @drawn t tag p h =>
    cases h with
    | acquiring jobId fireSlot ttlSeconds =>
      unfold acquiring at hp ⊢
      cases hp
      cases r with
      | error e => exact ⟨.failed _ e, fun _ hd => absurd hd not_draws_fail⟩
      | ok granted =>
        cases granted with
        | false => exact ⟨.none _, fun _ hd => absurd hd not_draws_none⟩
        | true =>
          refine ⟨.drawn (.granted jobId fireSlot ttlSeconds), fun t' hd => ?_⟩
          cases hd
          exact .acquiring jobId fireSlot ttlSeconds
    | granted _ _ _ => cases hp
  | releasing lock =>
    cases hp
    cases r with
    | error e => exact ⟨.failed _ e, fun _ hd => absurd hd not_draws_fail⟩
    | ok u => exact ⟨.none _, fun _ hd => absurd hd not_draws_none⟩
  | none _ => cases hp
  | failed _ _ => cases hp

/-- The tokens drawn so far, each by one call. -/
structure TokensDrawn (s : LockState) : Prop where
  staged : ∀ i tag p, s.Live i tag p → LockStage tag p
  drawn : ∀ i tag p t, s.Live i tag p → Draws t tag p → t < s.world.rest.nextToken
  once : ∀ i i' tag tag' p p' t, s.Live i tag p → s.Live i' tag' p' → Draws t tag p →
    Draws t tag' p' → i = i'

/-- Who has a token after a step had it before, or has just drawn it. -/
structure TokenStep (s s' : LockState) : Prop where
  staged : ∀ i tag p, s'.Live i tag p → LockStage tag p
  token : s.world.rest.nextToken ≤ s'.world.rest.nextToken
  old : ∀ i tag p t, s'.Live i tag p → Draws t tag p → (∃ q, s.Live i tag q ∧ Draws t tag q) ∨
    (i = s.threads.length ∧ t = s.world.rest.nextToken ∧ t < s'.world.rest.nextToken)

theorem exec_nextToken (c : Call) (x : Choice) (w : LockWorld) :
    (LockWorld.exec c x w).1.rest.nextToken = w.rest.nextToken := by
  cases c with
  | _ => rfl

theorem eval_nextToken (l : Local) (w : LockWorld) :
    w.rest.nextToken ≤ (LockWorld.eval l w).1.rest.nextToken := by
  cases l with
  | randomUUID => exact Nat.le_succ _
  | _ => exact Nat.le_refl _

theorem step_nextToken (hs : lockClients.Step s e s') :
    s.world.rest.nextToken ≤ s'.world.rest.nextToken := by
  apply hs.world (R := fun w w' => w.rest.nextToken ≤ w'.rest.nextToken)
  · intro w
    exact Nat.le_refl _
  · intro w w' w'' h h'
    exact Nat.le_trans h h'
  · intro c x w
    exact Nat.le_of_eq (exec_nextToken c x w).symm
  · exact eval_nextToken
  · intro tag w w' p h
    cases tag with
    | _ =>
      cases h
      exact Nat.le_refl _
  · intro name w w' h
    cases h
    exact Nat.le_refl _

theorem tokenStep (hst : ∀ i tag p, s.Live i tag p → LockStage tag p)
    (hs : lockClients.Step s e s') : TokenStep s s' := by
  have hnext := step_nextToken hs
  cases hs with
  | @begin tag w p h =>
    cases tag with
    | acquire jobId fireSlot ttlSeconds =>
      cases h
      refine ⟨fun i tag p hi => ?_, hnext, fun i tag p t hi hd => ?_⟩
      · rcases live_spawned hi with hi | ⟨_, rfl, rfl⟩
        · exact hst i tag p hi
        · exact .drawn (.acquiring jobId fireSlot ttlSeconds)
      · rcases live_spawned hi with hi | ⟨rfl, rfl, rfl⟩
        · exact Or.inl ⟨p, hi, hd⟩
        · have ht : t = s.world.rest.nextToken := draws_acquiring hd
          exact Or.inr ⟨rfl, ht, ht ▸ Nat.lt_succ_self _⟩
    | release lock =>
      cases h
      refine ⟨fun i tag p hi => ?_, hnext, fun i tag p t hi hd => ?_⟩
      · rcases live_spawned hi with hi | ⟨_, rfl, rfl⟩
        · exact hst i tag p hi
        · exact .releasing lock
      · rcases live_spawned hi with hi | ⟨_, rfl, rfl⟩
        · exact Or.inl ⟨p, hi, hd⟩
        · generalize hp : Prod.snd _ = q at hd
          cases hd
  | @resume i tag c k o h =>
    refine ⟨fun j tag' p hj => ?_, hnext, fun j tag' p t hj hd => ?_⟩
    · rcases live_resumed hj with ⟨_, hj⟩ | ⟨rfl, rfl, rfl⟩
      · exact hst j tag' p hj
      · exact (lockStage_reply (hst _ _ _ h) _ _).1
    · rcases live_resumed hj with ⟨_, hj⟩ | ⟨rfl, rfl, rfl⟩
      · exact Or.inl ⟨p, hj, hd⟩
      · exact Or.inl ⟨_, h, (lockStage_reply (hst _ _ _ h) _ _).2 t hd⟩
  | stop h =>
    refine ⟨fun j tag' p hj => hst j tag' p (live_halted hj).2, hnext, fun j tag' p t hj hd => ?_⟩
    exact Or.inl ⟨p, (live_halted hj).2, hd⟩
  | outside h => exact ⟨hst, hnext, fun j tag' p t hj hd => Or.inl ⟨p, hj, hd⟩⟩

theorem tokensDrawn_step (h : TokensDrawn s) (hs : lockClients.Step s e s') : TokensDrawn s' := by
  have hstep := tokenStep h.staged hs
  refine ⟨hstep.staged, fun i tag p t hi hd => ?_, fun i i' tag tag' p p' t hi hi' hd hd' => ?_⟩
  · rcases hstep.old i tag p t hi hd with ⟨q, hi, hd⟩ | ⟨_, _, hlt⟩
    · exact Nat.lt_of_lt_of_le (h.drawn i tag q t hi hd) hstep.token
    · exact hlt
  · rcases hstep.old i tag p t hi hd with ⟨q, hq, hdq⟩ | ⟨hnew, ht, _⟩
    · rcases hstep.old i' tag' p' t hi' hd' with ⟨q', hq', hdq'⟩ | ⟨_, ht', _⟩
      · exact h.once i i' tag tag' q q' t hq hq' hdq hdq'
      · have hlt := h.drawn i tag q t hq hdq
        exact absurd ht' (Nat.ne_of_lt hlt)
    · rcases hstep.old i' tag' p' t hi' hd' with ⟨q', hq', hdq'⟩ | ⟨hnew', _, _⟩
      · have hlt := h.drawn i' tag' q' t hq' hdq'
        exact absurd ht (Nat.ne_of_lt hlt)
      · rw [hnew, hnew']

theorem tokensDrawn_run {w₀ : LockWorld} (h : lockClients.Run anyStep (.fresh w₀) s) :
    TokensDrawn s := by
  apply h.keeps
  · constructor
    · intro i tag p hi
      simp [State.Live, State.fresh] at hi
    · intro i tag p t hi
      simp [State.Live, State.fresh] at hi
    · intro i i' tag tag' p p' t hi
      simp [State.Live, State.fresh] at hi
  · intro s e s' _ ih _ hs
    exact tokensDrawn_step ih hs

theorem token_kept {i : Nat} (hlt : t < s.world.rest.nextToken)
    (hown : ∀ j tag p, s.Live j tag p → Draws t tag p → j = i)
    (hst : ∀ j tag p, s.Live j tag p → LockStage tag p) (hs : lockClients.Step s e s') :
    ∀ j tag p, s'.Live j tag p → Draws t tag p → j = i := by
  intro j tag p hj hd
  rcases (tokenStep hst hs).old j tag p t hj hd with ⟨q, hq, hdq⟩ | ⟨_, ht, _⟩
  · exact hown j tag q hq hdq
  · exact absurd ht (Nat.ne_of_lt hlt)

/-! ## Grants -/

/-- The step grants the lock of a slot to the token: Redis answers the acquisition of thread
`i` with OK. -/
def Grants (s s' : LockState) (i : Nat) (key : RedisKey) (t : Token) : Prop :=
  ∃ n seen, s'.trace = s.trace ++ [.called i (.redisSetNx key (.token t) n) (some (.ok true)) seen]

theorem grants_step {i : Nat} (hs : lockClients.Step s e s') (h : Grants s s' i key t) :
    s.world.keys key.text = none ∧ s'.world.Holds key t ∧
      ∃ n, s.Awaits i (.redisSetNx key (.token t) n) := by
  obtain ⟨n, seen, htrace⟩ := h
  obtain ⟨tag, k, o, hi, rfl, rfl, hreply, _⟩ := hs.traced_call htrace
  rcases attend_cases (M := lockClients) (.redisSetNx key (.token t) n) o s.world
    with ⟨_, _, hnone⟩ | ⟨x, hw, hsome, _⟩
  · rw [hnone] at hreply
    cases hreply
  · have hok : (s.world.keys.setNxEx key.text (.token t) n).2 = .ok true :=
      Option.some.inj (hsome.symm.trans hreply)
    obtain ⟨hfree, hset⟩ := NamedKeys.setNxEx_true hok
    refine ⟨hfree, ⟨n, ?_⟩, n, tag, k, hi⟩
    rw [resumed_keys, hw]
    exact hset

/-- The call that is granted a lock has drawn its token, alone. -/
theorem granted_token {i : Nat} (h : TokensDrawn s) (hs : lockClients.Step s e s')
    (hgrant : Grants s s' i key t) :
    t < s.world.rest.nextToken ∧ ∀ j tag p, s.Live j tag p → Draws t tag p → j = i := by
  obtain ⟨_, _, n, tag, k, hi⟩ := grants_step hs hgrant
  have hdraws : Draws t tag (.await (.redisSetNx key (.token t) n) k) := by
    have hstage := h.staged i tag _ hi
    generalize hp : Prog.await (Call.redisSetNx key (.token t) n) k = p at hstage ⊢
    cases hstage with
    | @drawn t' _ _ hd =>
      cases hd with
      | acquiring jobId fireSlot ttlSeconds =>
        unfold acquiring at hp
        injection hp with hcall _
        injection hcall with _ hvalue _
        injection hvalue with ht
        subst ht
        exact .acquiring jobId fireSlot ttlSeconds
      | granted => cases hp
    | releasing lock => cases hp
    | none => cases hp
    | failed => cases hp
  refine ⟨h.drawn i tag _ t hi hdraws, fun j tag' p hj hd => ?_⟩
  exact h.once j i tag' tag p _ t hj hi hd hdraws

/-- A key changes by a command on it or by its expiry: no two locks have one name. -/
def OwnCommand (s : LockState) (key : RedisKey) (e : LockEvent) : Prop :=
  e = .outside key.text ∨ ∃ i o, e = .resume i o ∧
    ((∃ value n, s.Awaits i (.redisSetNx key value n)) ∨ ∃ t, s.Awaits i (.redisRelease key t))

theorem ownCommand_of_changed (hs : lockClients.Step s e s')
    (hchanged : s'.world.keys key.text ≠ s.world.keys key.text) : OwnCommand s key e := by
  cases keyStep key hs with
  | silent hsame => exact absurd hsame hchanged
  | setNx hi _ _ => exact Or.inr ⟨_, _, rfl, Or.inl ⟨_, _, hi⟩⟩
  | release hi _ _ => exact Or.inr ⟨_, _, rfl, Or.inr ⟨_, hi⟩⟩
  | expired _ => exact Or.inl rfl

/-- From the grant of a lock until it expires or its own release is executed: it is held, no
other acquisition of it is granted, and whatever else arrives, such as a release with another
token or of another lock, leaves its key as it is; and nobody but the call that was granted it
has a handle with its token. Any lock's key is changed by commands on that lock only. -/
theorem owner_token_lock_safety {w₀ : LockWorld} {s₀ s₁ s₂ s₃ : LockState} {e₀ : LockEvent}
    {i : Nat} {jobId : JobId} {fireSlot : FireSlot}
    (hr : lockClients.Run anyStep (.fresh w₀) s₀) (hs₀ : lockClients.Step s₀ e₀ s₁)
    (hgrant : Grants s₀ s₁ i (jobLockKey jobId fireSlot) t)
    (h : lockClients.Run (leavesLock (jobLockKey jobId fireSlot) t) s₁ s₂)
    (hs : lockClients.Step s₂ e s₃) :
    s₂.world.Holds (jobLockKey jobId fireSlot) t ∧
      (∀ i' t', ¬ Grants s₂ s₃ i' (jobLockKey jobId fireSlot) t') ∧
      (leavesLock (jobLockKey jobId fireSlot) t s₂ e →
        s₃.world.keys (jobLockKey jobId fireSlot).text =
          s₂.world.keys (jobLockKey jobId fireSlot).text) ∧
      (∀ j tag lock, s₂.Live j tag (.ret (some lock)) → lock.token = t → j = i) ∧
      ∀ jobId' fireSlot', s₃.world.keys (jobLockKey jobId' fireSlot').text ≠
        s₂.world.keys (jobLockKey jobId' fireSlot').text →
          OwnCommand s₂ (jobLockKey jobId' fireSlot') e := by
  obtain ⟨_, ⟨ttl, hheld₁⟩, _⟩ := grants_step hs₀ hgrant
  have htokens₀ := tokensDrawn_run hr
  have htokens₁ := tokensDrawn_step htokens₀ hs₀
  obtain ⟨hlt₀, hown₀⟩ := granted_token htokens₀ hs₀ hgrant
  have hheld₂ : s₂.world.keys (jobLockKey jobId fireSlot).text = some ⟨.token t, ttl⟩ := by
    apply h.keeps hheld₁
    intro s e s' _ ih hleaves hs
    exact holds_step ih hleaves hs
  have htokens₂ : TokensDrawn s₂ ∧ t < s₂.world.rest.nextToken ∧
      ∀ j tag p, s₂.Live j tag p → Draws t tag p → j = i := by
    apply h.keeps
    · exact ⟨htokens₁, Nat.lt_of_lt_of_le hlt₀ (step_nextToken hs₀),
        token_kept hlt₀ hown₀ htokens₀.staged hs₀⟩
    · intro s e s' _ ih _ hs
      obtain ⟨htokens, hlt, hown⟩ := ih
      exact ⟨tokensDrawn_step htokens hs, Nat.lt_of_lt_of_le hlt (step_nextToken hs),
        token_kept hlt hown htokens.staged hs⟩
  refine ⟨⟨ttl, hheld₂⟩, ?_, ?_, ?_, ?_⟩
  · intro i' t' hgrant'
    have hfree := (grants_step hs hgrant').1
    rw [hheld₂] at hfree
    cases hfree
  · intro hleaves
    rw [holds_step hheld₂ hleaves hs, hheld₂]
  · intro j tag lock hj htoken
    apply htokens₂.2.2 j tag _ hj
    have hstage := htokens₂.1.staged j tag _ hj
    cases hstage with
    | drawn hd =>
      cases hd with
      | granted jobId' fireSlot' ttlSeconds =>
        subst htoken
        exact .granted jobId' fireSlot' ttlSeconds
  · intro jobId' fireSlot' hchanged
    exact ownCommand_of_changed hs hchanged

/-! ## A stale release -/

/-- `leavesLock`, looked up. -/
def leavesLockAt (key : RedisKey) (t : Token) (s : LockState) : LockEvent → Prop
  | .outside name => name ≠ key.text
  | .resume i _ => s.awaiting i ≠ some (.redisRelease key t)
  | _ => True

instance (s : LockState) : DecidablePred (leavesLockAt key t s) := fun e => by
  induction e using Async.Event.casesOn <;> unfold leavesLockAt <;> infer_instance

theorem leavesLock_of_leavesLockAt (h : leavesLockAt key t s e) : leavesLock key t s e := by
  cases e with
  | resume i o =>
    cases o with
    | rejected f => trivial
    | answered x => exact fun hi => h hi.awaiting
    | lost x f => exact fun hi => h hi.awaiting
  | outside name => exact h
  | _ => trivial

def noLocks : LockState := .fresh ⟨.initial [] List.nodup_nil fun _ => 0, fun _ => none⟩

/-- Client 0 loses its lock by expiry while client 1 asks for it. -/
def expiring : List LockEvent :=
  [.begin (.acquire "job-1" .manual 30), .resume 0 (.answered {}),
    .outside "lock:job:job-1:manual", .begin (.acquire "job-1" .manual 30)]

/-- Once client 1 has it, client 0 releases twice and client 2 asks for it. -/
def staleReleases : List LockEvent :=
  [.begin (.release ⟨"job-1", .manual, 0⟩), .begin (.release ⟨"job-1", .manual, 0⟩),
    .resume 2 (.answered {}), .resume 3 (.answered {}), .begin (.acquire "job-1" .manual 30)]

theorem owner_token_lock_safety_stale : ∃ s₂ s₃,
    lockClients.step s₂ (.resume 4 (.answered {})) = some s₃ ∧
      s₂.world.Holds (jobLockKey "job-1" .manual) 1 ∧
      ∀ i' t', ¬ Grants s₂ s₃ i' (jobLockKey "job-1" .manual) t' := by
  have hrun : ((lockClients.run noLocks expiring).bind fun s₀ =>
      (lockClients.step s₀ (.resume 1 (.answered {}))).bind fun s₁ =>
        if s₁.trace = s₀.trace ++ [.called 1
            (.redisSetNx (jobLockKey "job-1" .manual) (.token 1) 30)
            (some (.ok true)) (.ok true)] then
          (lockClients.runChecked (leavesLockAt (jobLockKey "job-1" .manual) 1) s₁
            staleReleases).bind fun s₂ =>
              (lockClients.step s₂ (.resume 4 (.answered {}))).map fun _ => true
        else none) = some true := by decide +kernel
  obtain ⟨s₀, hs₀, hrun⟩ := Option.bind_eq_some_iff.mp hrun
  obtain ⟨s₁, hs₁, hrun⟩ := Option.bind_eq_some_iff.mp hrun
  split at hrun
  · rename_i hgrant
    obtain ⟨s₂, hs₂, hrun⟩ := Option.bind_eq_some_iff.mp hrun
    obtain ⟨s₃, hs₃, _⟩ := Option.map_eq_some_iff.mp hrun
    have hleaves := (Run.of_runChecked hs₂).mono fun _ _ => leavesLock_of_leavesLockAt
    obtain ⟨hholds, hnone, _⟩ := owner_token_lock_safety
      (.of_run hs₀ fun _ _ _ => trivial) (step_iff.mp hs₁) ⟨_, _, hgrant⟩ hleaves
      (step_iff.mp hs₃)
    exact ⟨s₂, s₃, hs₃, hholds, hnone⟩
  · cases hrun

end CronHive
