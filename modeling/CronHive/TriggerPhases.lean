import CronHive.Footprints

/-!
# The phases of a trigger

A trigger looks its job up, asks for the manual lock, inserts its execution and enqueues it; it
releases the lock only when its insert or its enqueueing has failed. The phase it has come to
says what it may call next and what it answers.
-/

namespace CronHive

set_option autoImplicit false

open Async Async.Prog Async.Machine

/-- Where a trigger stands that has asked for the lock. -/
inductive AskedStage where
  | refused
  | inserting
  | enqueueing (x : Execution)
  | accepted (x : Execution)
  | releasing
  | ended
  deriving DecidableEq, Repr

/-- Where a trigger stands: before its lookup, past it with an enabled job, or past its request
for the lock with a token. -/
inductive TriggerPhase where
  | elsewhere
  | looking (id : JobId)
  | found (id : JobId) (job : Job)
  | ended
  | asked (id : JobId) (token : Token) (stage : AskedStage)
  deriving DecidableEq, Repr

def TriggerPhase.permits (env : Env) : TriggerPhase → Call → Prop
  | .elsewhere, _ => True
  | .looking id, c => c = .jobFindUnique id
  | .found id job, c => ∃ token, c = .redisSetNx (jobLockKey id .manual) (.token token)
      (computeJobLockTtlSeconds env job)
  | .asked id _ .inserting, c => c = .executionCreate ⟨id, none, .manual⟩
  | .asked id _ (.enqueueing x), c => ∃ opts, c = .queueAdd ⟨x.id, id, .manual⟩ opts
  | .asked id token .releasing, c => c = .redisRelease (jobLockKey id .manual) token
  | _, _ => False

def AskedStage.next : AskedStage → (c : Call) → Except Failure c.Reply → AskedStage
  | .inserting, .executionCreate _, .ok x => .enqueueing x
  | .inserting, _, _ => .releasing
  | .enqueueing x, _, .ok _ => .accepted x
  | .enqueueing _, _, .error _ => .releasing
  | _, _, _ => .ended

/-- What the reply to the request for the lock means to its sender. -/
def AskedStage.first : Except Failure Bool → AskedStage
  | .ok true => .inserting
  | .ok false => .refused
  | .error _ => .ended

def TriggerPhase.next : TriggerPhase → (c : Call) → Except Failure c.Reply → TriggerPhase
  | .elsewhere, _, _ => .elsewhere
  | .looking id, .jobFindUnique _, .ok (some job) => if job.enabled then .found id job else .ended
  | .found id _, .redisSetNx _ (.token token) _, granted => .asked id token (.first granted)
  | .asked id token stage, c, r => .asked id token (stage.next c r)
  | _, _, _ => .ended

/-- A lookup finds an enabled job or leaves the trigger nothing more to call. -/
theorem looking_next (id id' : JobId) (r : Except Failure (Option Job)) :
    (TriggerPhase.looking id).next (.jobFindUnique id') r = .ended ∨
      ∃ job, job.enabled ∧ r = .ok (some job) ∧
        (TriggerPhase.looking id).next (.jobFindUnique id') r = .found id job := by
  rcases r with e | _ | job
  · exact Or.inl rfl
  · exact Or.inl rfl
  · by_cases henabled : job.enabled
    · exact Or.inr ⟨job, henabled, rfl, if_pos henabled⟩
    · exact Or.inl (if_neg henabled)

/-- The job a trigger is for. -/
def TriggerPhase.names (id : JobId) : TriggerPhase → Prop
  | .elsewhere => False
  | .looking id' => id' = id
  | .found id' _ => id' = id
  | .ended => True
  | .asked id' _ _ => id' = id

theorem names_next {id : JobId} {st : TriggerPhase} (c : Call) (r : Except Failure c.Reply)
    (h : st.names id) : (st.next c r).names id := by
  unfold TriggerPhase.next
  split
  · exact h
  · split
    · exact h
    · trivial
  · exact h
  · exact h
  · trivial

def triggers (env : Env) : Monitor Call.Reply Failure TriggerPhase where
  permits := TriggerPhase.permits env
  admits _
    | .jobFindUnique id => fun r => ∀ job, r = .ok (some job) → job.id = id
    | _ => fun _ => True
  next := TriggerPhase.next

/-- What a trigger answers tells where it has ended. -/
def EndsWith (st : TriggerPhase) (r : Except Failure TriggerReply) : Prop :=
  (r = .ok .locked ↔ ∃ id token, st = .asked id token .refused) ∧
    ∀ x, r = .ok (.accepted x) → ∃ id token, st = .asked id token (.accepted x)

/-- The answers that have nothing to do with the lock. -/
def TriggerReply.early : Except Failure TriggerReply → Prop
  | .ok .locked => False
  | .ok (.accepted _) => False
  | _ => True

theorem endsWith_over {id : JobId} {token : Token} {e : Failure} :
    EndsWith (.asked id token .ended) (.error e) := by
  refine ⟨⟨nofun, fun h => ?_⟩, fun x h => ?_⟩
  · obtain ⟨id', token', h⟩ := h
    cases h
  · cases h

theorem endsWith_early {r : Except Failure TriggerReply} (h : TriggerReply.early r) :
    EndsWith .ended r := by
  refine ⟨⟨fun hr => ?_, fun hst => ?_⟩, fun x hr => ?_⟩
  · subst hr
    exact h.elim
  · obtain ⟨id, token, hst⟩ := hst
    cases hst
  · subst hr
    exact h.elim

theorem triggers_giveUp (env : Env) (id : JobId) (token : Token) (e : Failure) :
    ((releaseJobLock ⟨id, .manual, token⟩).bind fun _ => (.fail e : Promise TriggerReply)).wp
      (triggers env) (.asked id token .releasing) EndsWith := by
  exact (wp_call_bind ..).mpr ⟨rfl, fun _ _ => endsWith_over, fun _ _ => endsWith_over⟩

theorem triggers_locked (env : Env) (job : Job) (token : Token) (opts : JobsOptions) :
    (((await (.executionCreate ⟨job.id, none, .manual⟩)).bind fun x =>
      (await (.queueAdd ⟨x.id, job.id, .manual⟩ opts)).bind fun _ =>
        (.ret (.accepted x) : Promise TriggerReply)).tryCatch fun e =>
          (releaseJobLock ⟨job.id, .manual, token⟩).bind fun _ => .fail e).wp
      (triggers env) (.asked job.id token .inserting) EndsWith := by
  refine (wp_tryCatch ..).mpr ((wp_call_bind ..).mpr ⟨rfl, fun x _ => ?_, fun e _ => ?_⟩)
  · refine (wp_call_bind ..).mpr ⟨⟨_, rfl⟩, fun _ _ => ?_, fun e _ => ?_⟩
    · show EndsWith (.asked job.id token (.accepted x)) (.ok (.accepted x))
      refine ⟨⟨nofun, fun h => ?_⟩, fun y hy => ?_⟩
      · obtain ⟨id, token, h⟩ := h
        cases h
      · cases hy
        exact ⟨_, _, rfl⟩
    · exact triggers_giveUp env job.id token e
  · exact triggers_giveUp env job.id token e

theorem triggers_triggerJob (S : Setup) (id : JobId) :
    (triggerJob S id).wp (triggers S.env) (.looking id) EndsWith := by
  refine (wp_call_bind ..).mpr ⟨rfl, fun found hfound => ?_, fun e _ => ?_⟩
  · cases found with
    | none =>
      show EndsWith .ended (.ok .notFound)
      exact endsWith_early trivial
    | some job =>
      have hid : job.id = id := hfound job rfl
      subst hid
      dsimp only
      split
      · rename_i hdisabled
        have hover : (triggers S.env).next (.looking job.id) (.jobFindUnique job.id)
            (.ok (some job)) = .ended := if_neg (by simpa using hdisabled)
        rw [hover]
        exact endsWith_early trivial
      · rename_i henabled
        have hnext : (triggers S.env).next (.looking job.id) (.jobFindUnique job.id)
            (.ok (some job)) = .found job.id job := if_pos (by simpa using henabled)
        rw [hnext]
        refine (wp_bind ..).mpr ((wp_bind ..).mpr fun token => ?_)
        refine (wp_call_bind ..).mpr ⟨⟨token, ?_⟩, fun granted _ => ?_, fun e _ => ?_⟩
        · have hpos : ¬ computeJobLockTtlSeconds S.env job < 1 :=
            Nat.not_lt.mpr (Nat.le_max_left ..)
          rw [if_neg hpos]
        · cases granted with
          | false =>
            show EndsWith (.asked job.id token .refused) (.ok .locked)
            refine ⟨⟨fun _ => ⟨_, _, rfl⟩, fun _ => rfl⟩, fun x h => ?_⟩
            cases h
          | true => exact triggers_locked S.env job token (executionJobOptions job)
        · show EndsWith (.asked job.id token .ended) (.error e)
          exact endsWith_over
  · show EndsWith .ended (.error e)
    exact endsWith_early trivial

/-- Where the thread of a task begins. -/
def Task.triggerPhase : Task → TriggerPhase
  | .trigger id => .looking id
  | _ => .elsewhere

/-- What the thread of a task ends with. -/
def Task.endsWith : Task → TriggerPhase → Except Failure Response → Prop
  | .trigger _, st, .ok (.triggered reply) => EndsWith st (.ok reply)
  | .trigger _, _, .ok _ => False
  | .trigger _, st, .error e => EndsWith st (.error e)
  | _, _, _ => True

theorem triggers_begin {S : Setup} (t : Task) (w w' : World) (p : Promise Response)
    (h : start S t w = some (w', p)) :
    p.wp (triggers S.env) t.triggerPhase t.endsWith := by
  have hother (hphase : t.triggerPhase = .elsewhere) (hends : ∀ st r, t.endsWith st r) :
      p.wp (triggers S.env) t.triggerPhase t.endsWith := by
    rw [hphase]
    refine wp_mono (fun st r _ => hends st r) ((only_start h).wp ?_)
    exact fun c _ => ⟨trivial, fun _ => rfl⟩
  cases t with
  | trigger id =>
    cases h
    refine (wp_bind ..).mpr (wp_mono ?_ (triggers_triggerJob S id))
    intro st r hends
    cases r with
    | ok reply => exact hends
    | error e => exact hends
  | _ => exact hother rfl fun _ _ => trivial

/-! ## Triggers in a run -/

def IsTrigger (s : SystemState) (i : Nat) (id : JobId) : Prop :=
  s.threads[i]?.map (·.tag) = some (.trigger id)

instance (s : SystemState) (i : Nat) (id : JobId) : Decidable (IsTrigger s i id) :=
  inferInstanceAs (Decidable (_ = _))

/-- The phase of thread `i` if it is a trigger of `id`. -/
def triggerAt (env : Env) (id : JobId) (tr : List TraceEntry) (i : Nat) : TriggerPhase :=
  (triggers env).stateAt i (.looking id) tr

/-- Thread `i` is a trigger that has answered. -/
def Replied (s : SystemState) (i : Nat) (reply : TriggerReply) : Prop :=
  ∃ id, s.Live i (.trigger id) (.ret (.triggered reply))

section Runs

variable {S : Setup} {w₀ : World} {s s' : SystemState} {j : JobId}

theorem IsTrigger.step {e : SystemEvent} (hs : (system S).Step s e s') {i : Nat} {id : JobId}
    (h : IsTrigger s i id) : IsTrigger s' i id := hs.tag h

theorem IsTrigger.before {e : SystemEvent} (hs : (system S).Step s e s') {i : Nat} {tag : Task}
    (htag : s.threads[i]?.map (·.tag) = some tag) {id : JobId} (h : IsTrigger s' i id) :
    IsTrigger s i id := by
  have hsame : some tag = some (.trigger id) := (hs.tag htag).symm.trans h
  cases hsame
  exact htag

theorem trigger_wp (hr : Reachable S w₀ s) {i : Nat} {id : JobId} {p : Promise Response}
    (hi : s.Live i (.trigger id) p) : p.wp (triggers S.env) (triggerAt S.env id s.trace i)
      (Task.endsWith (.trigger id)) := by
  refine hr.monitored (triggers S.env) Task.triggerPhase Task.endsWith triggers_begin ?_ hi
  intro s i tag c k o _ _
  cases c with
  | jobFindUnique id' =>
    intro job hjob
    obtain ⟨_, hexec, _⟩ := attend_seen hjob
    exact (Postgres.job?_eq_some.mp (Except.ok.inj hexec)).2
  | _ => trivial

theorem trigger_permits (hr : Reachable S w₀ s) {i : Nat} {tag : Task} {c : Call}
    {k : Except Failure c.Reply → Promise Response} (hi : s.Live i tag (.await c k)) {id : JobId}
    (ht : IsTrigger s i id) : (triggerAt S.env id s.trace i).permits S.env c := by
  cases (Live.tag hi).symm.trans ht
  exact (trigger_wp hr hi).1

theorem triggerAt_names (env : Env) (id : JobId) (tr : List TraceEntry) (i : Nat) :
    (triggerAt env id tr i).names id := by
  have hbegin : (TriggerPhase.looking id).names id := rfl
  exact (triggers env).stateAt_keeps (fun _ c r => names_next c r) i hbegin tr

theorem triggerAt_resumed (id : JobId) (i : Nat) (tag : Task) (c : Call)
    (k : Except Failure c.Reply → Promise Response) (o : Outcome Choice Failure) :
    triggerAt S.env id ((system S).resumed s i tag c k o).trace i =
      (triggerAt S.env id s.trace i).next c ((system S).attend c o s.world).2.2 := by
  simp [triggerAt, resumed, Monitor.observe, triggers]

/-- The call a trigger awaits in each phase. -/
inductive TriggerCall (env : Env) (j : JobId) : TriggerPhase → Call → Prop where
  | looks : TriggerCall env j (.looking j) (.jobFindUnique j)
  | asks {job : Job} {token : Token} : TriggerCall env j (.found j job)
      (.redisSetNx (jobLockKey j .manual) (.token token) (computeJobLockTtlSeconds env job))
  | inserts {token : Token} :
      TriggerCall env j (.asked j token .inserting) (.executionCreate ⟨j, none, .manual⟩)
  | enqueues {token : Token} {x : Execution} {opts : JobsOptions} :
      TriggerCall env j (.asked j token (.enqueueing x)) (.queueAdd ⟨x.id, j, .manual⟩ opts)
  | releases {token : Token} : TriggerCall env j (.asked j token .releasing)
      (.redisRelease (jobLockKey j .manual) token)

theorem trigger_call (hr : Reachable S w₀ s) {i : Nat} {tag : Task} {c : Call}
    {k : Except Failure c.Reply → Promise Response} (hi : s.Live i tag (.await c k))
    (ht : IsTrigger s i j) : TriggerCall S.env j (triggerAt S.env j s.trace i) c := by
  have hpermits := trigger_permits hr hi ht
  have hnames := triggerAt_names S.env j s.trace i
  generalize triggerAt S.env j s.trace i = st at hpermits hnames ⊢
  cases st with
  | elsewhere => exact hnames.elim
  | looking id =>
    cases hpermits
    cases hnames
    exact .looks
  | found id job =>
    obtain ⟨token, rfl⟩ := hpermits
    cases hnames
    exact .asks
  | ended => exact hpermits.elim
  | asked id token stage =>
    cases hnames
    cases stage with
    | inserting =>
      cases hpermits
      exact .inserts
    | enqueueing x =>
      obtain ⟨opts, rfl⟩ := hpermits
      exact .enqueues
    | releasing =>
      cases hpermits
      exact .releases
    | _ => exact hpermits.elim

/-- Commands that take a lock or give it back. -/
def Call.onLock (key : RedisKey) : Call → Prop
  | .redisSetNx key' _ _ => key' = key
  | .redisRelease key' _ => key' = key
  | _ => False

/-- Only triggers of a job take its manual lock or give it back. -/
theorem trigger_of_onLock (hr : Reachable S w₀ s) {i : Nat} {c : Call} (hi : s.Awaits i c)
    (hc : c.onLock (jobLockKey j .manual)) : IsTrigger s i j := by
  obtain ⟨tag, k, hi⟩ := hi
  have hcalls : tag.Calls c := (hr.only (fun _ _ _ _ => only_start) hi).1
  cases tag with
  | trigger id =>
    have ht : IsTrigger s i id := Live.tag hi
    have hcall := trigger_call hr hi ht
    generalize triggerAt S.env id s.trace i = st at hcall
    cases hcall with
    | asks =>
      cases hc
      exact ht
    | releases =>
      cases hc
      exact ht
    | _ => exact hc.elim
  | tick =>
    cases c with
    | redisSetNx key v n =>
      obtain ⟨j', t, hkey⟩ := hcalls
      cases hkey.symm.trans hc
    | redisRelease key t =>
      obtain ⟨j', t', hkey⟩ := hcalls
      cases hkey.symm.trans hc
    | _ => exact hc.elim
  | deliver m =>
    obtain ⟨b, hb⟩ := hcalls
    cases c with
    | redisSetNx key v n => exact hb.elim
    | redisRelease key t => exact hb.elim
    | _ => exact hc.elim
  | _ =>
    cases c with
    | redisSetNx key v n => exact hcalls.elim
    | redisRelease key t => exact hcalls.elim
    | _ => exact hc.elim

theorem IsTrigger.cases (hr : Reachable S w₀ s) {e : SystemEvent} (hs : (system S).Step s e s')
    {i : Nat} (h : IsTrigger s' i j) :
    IsTrigger s i j ∨ triggerAt S.env j s'.trace i = .looking j := by
  rcases hs.tag_cases h with h | ⟨w, p, _, rfl, _, rfl⟩
  · exact Or.inl h
  · refine Or.inr ((triggers S.env).stateAt_of_absent _ fun op reply seen hm => ?_)
    rcases List.mem_append.mp hm with hm | hm
    · exact absurd (hr.numbered _ op reply seen hm) (Nat.lt_irrefl _)
    · cases List.mem_singleton.mp hm

/-- The phase of a trigger moves with its own calls only. -/
theorem triggerAt_step (hr : Reachable S w₀ s) {e : SystemEvent} (hs : (system S).Step s e s')
    {i : Nat} (ht : IsTrigger s i j) :
    triggerAt S.env j s'.trace i = triggerAt S.env j s.trace i ∨
      ∃ tag c k o, s.Live i tag (.await c k) ∧ s' = (system S).resumed s i tag c k o ∧
        TriggerCall S.env j (triggerAt S.env j s.trace i) c ∧
        triggerAt S.env j s'.trace i = (triggerAt S.env j s.trace i).next c
          ((system S).attend c o s.world).2.2 := by
  rcases hs.stateAt (triggers S.env) i (.looking j) with hsame | ⟨tag, c, k, o, hi, _, hs', hnext⟩
  · exact Or.inl hsame
  · exact Or.inr ⟨tag, c, k, o, hi, hs', trigger_call hr hi ht, hnext⟩

/-! ## What a phase tells of the trace -/

/-- What a trigger must have called to come to some phases, the trace tells. -/
theorem phase_told {Q : TriggerPhase → Prop} {P : List TraceEntry → Prop} {i : Nat}
    (hmono : ∀ tr tr', tr ⊆ tr' → P tr → P tr') (hlooking : ¬ Q (.looking j))
    (hentered : ∀ st c reply (seen : Except Failure c.Reply) tr, TriggerCall S.env j st c →
      Q (st.next c seen) → (∀ a, seen = .ok a → reply = some (.ok a)) →
        .called i c reply seen ∈ tr → Q st ∨ P tr)
    (hr : Reachable S w₀ s) (ht : IsTrigger s i j) (hphase : Q (triggerAt S.env j s.trace i)) :
    P s.trace := by
  induction hr with
  | refl => simp [IsTrigger, State.fresh] at ht
  | @tail s s' e hr _ hs ih =>
    rcases ht.cases hr hs with hbefore | hbegins
    · rcases triggerAt_step hr hs hbefore with hsame | ⟨tag, c, k, o, _, rfl, hcall, hnext⟩
      · exact hmono _ _ hs.trace_subset (ih hbefore (hsame ▸ hphase))
      · rcases hentered _ c _ _ _ hcall (hnext ▸ hphase) (fun _ => attend_ok)
          (called_resumed rfl) with hold | hnew
        · exact hmono _ _ hs.trace_subset (ih hbefore hold)
        · exact hnew
    · rw [hbegins] at hphase
      exact absurd hphase hlooking

theorem found_told (hr : Reachable S w₀ s) {i : Nat} {job : Job} (ht : IsTrigger s i j)
    (hphase : triggerAt S.env j s.trace i = .found j job) :
    job.enabled ∧ Entry.answered i (.jobFindUnique j) (.ok (some job)) ∈ s.trace := by
  refine phase_told (Q := fun st => st = .found j job)
    (P := fun tr => job.enabled ∧ Entry.answered i (.jobFindUnique j) (.ok (some job)) ∈ tr)
    ?_ (fun h => by cases h) ?_ hr ht hphase
  · intro tr tr' hsub h
    obtain ⟨henabled, hm⟩ := h
    exact ⟨henabled, hsub hm⟩
  · intro st c reply seen tr hcall hfound hok hm
    cases hcall with
    | looks =>
      rcases looking_next j j seen with hover | ⟨job', henabled, rfl, hnext⟩
      · cases hover.symm.trans hfound
      · cases hnext.symm.trans hfound
        cases hok _ rfl
        exact Or.inr ⟨henabled, hm⟩
    | _ => cases hfound

theorem asked_told (hr : Reachable S w₀ s) {i : Nat} {token : Token} {stage : AskedStage}
    (ht : IsTrigger s i j) (hphase : triggerAt S.env j s.trace i = .asked j token stage) :
    ∃ ttl reply seen, Entry.called i (.redisSetNx (jobLockKey j .manual) (.token token) ttl) reply
      seen ∈ s.trace := by
  refine phase_told (Q := fun st => ∃ stage, st = .asked j token stage)
    (P := fun tr => ∃ ttl reply seen, Entry.called i
      (.redisSetNx (jobLockKey j .manual) (.token token) ttl) reply seen ∈ tr)
    ?_ (fun h => by cases h.choose_spec) ?_ hr ht ⟨stage, hphase⟩
  · intro tr tr' hsub h
    obtain ⟨ttl, reply, seen, hm⟩ := h
    exact ⟨ttl, reply, seen, hsub hm⟩
  · intro st c reply seen tr hcall hasked _ hm
    obtain ⟨stage', hasked⟩ := hasked
    cases hcall with
    | looks =>
      rcases looking_next j j seen with hover | ⟨job, _, _, hfound⟩
      · cases hover.symm.trans hasked
      · cases hfound.symm.trans hasked
    | asks =>
      cases hasked
      exact Or.inr ⟨_, _, _, hm⟩
    | _ =>
      cases hasked
      exact Or.inl ⟨_, rfl⟩

/-- What the stage of a trigger says of the reply to its request. -/
def AskedStage.follows (seen : Except Failure Bool) : AskedStage → Prop
  | .refused => seen = .ok false
  | .ended => seen ≠ .ok false
  | _ => seen = .ok true

theorem follows_first (seen : Except Failure Bool) : (AskedStage.first seen).follows seen := by
  rcases seen with e | _ | _
  · exact nofun
  · rfl
  · rfl

/-- Every request for the lock is a trigger's that found the job enabled, and its reply is what
the trigger has gone by since. -/
theorem setNx_told (hr : Reachable S w₀ s) {i : Nat} {v : RedisValue} {ttl : Nat}
    {reply : Option (Except Failure Bool)} {seen : Except Failure Bool}
    (hm : Entry.called i (.redisSetNx (jobLockKey j .manual) v ttl) reply seen ∈ s.trace) :
    IsTrigger s i j ∧
      (∃ job, job.enabled ∧ Entry.answered i (.jobFindUnique j) (.ok (some job)) ∈ s.trace ∧
        ttl = computeJobLockTtlSeconds S.env job) ∧
      ∃ token stage, v = .token token ∧ triggerAt S.env j s.trace i = .asked j token stage ∧
        stage.follows seen := by
  induction hr with
  | refl => simp [State.fresh] at hm
  | @tail s s' e hr _ hs ih =>
    rcases hs.called hm with hm | ⟨tag, k, o, hi, rfl, rfl, _, rfl⟩
    · obtain ⟨ht, ⟨job, henabled, hfound, httl⟩, token, stage, hv, hphase, hfollows⟩ := ih hm
      refine ⟨ht.step hs, ⟨job, henabled, hs.trace_subset hfound, httl⟩, token, ?_⟩
      rcases triggerAt_step hr hs ht with hsame | ⟨tag, c, k, o, hi, rfl, hcall, hnext⟩
      · exact ⟨stage, hv, hsame.trans hphase, hfollows⟩
      · rw [hphase] at hcall hnext
        refine ⟨_, hv, hnext, ?_⟩
        cases hcall with
        | inserts =>
          cases ((system S).attend (.executionCreate ⟨j, none, .manual⟩) o s.world).2.2 with
          | ok x => exact hfollows
          | error e => exact hfollows
        | @enqueues _ x opts =>
          cases ((system S).attend (.queueAdd ⟨x.id, j, .manual⟩ opts) o s.world).2.2 with
          | ok u => exact hfollows
          | error e => exact hfollows
        | releases =>
          have hgranted : seen = .ok true := hfollows
          subst hgranted
          intro hseen
          cases hseen
    · have ht : IsTrigger s i j := trigger_of_onLock hr ⟨tag, k, hi⟩ rfl
      have hcall := trigger_call hr hi ht
      have hnext := triggerAt_resumed (S := S) (s := s) j i tag
        (.redisSetNx (jobLockKey j .manual) v ttl) k o
      generalize hst : triggerAt S.env j s.trace i = st at hcall hnext
      cases hcall with
      | @asks job token =>
        obtain ⟨henabled, hfound⟩ := found_told hr ht hst
        exact ⟨ht.step hs, ⟨job, henabled, hs.trace_subset hfound, rfl⟩, token, _, rfl, hnext,
          follows_first _⟩

/-- The insert of thread `i` for its own execution, or the enqueueing of it, has come back to it
as a failure. -/
def StartFailed (j : JobId) (i : Nat) (tr : List TraceEntry) : Prop :=
  (∃ reply e, .called i (.executionCreate ⟨j, none, .manual⟩) reply (.error e) ∈ tr) ∨
    ∃ id opts reply e, .called i (.queueAdd ⟨id, j, .manual⟩ opts) reply (.error e) ∈ tr

theorem StartFailed.mono {i : Nat} {tr tr' : List TraceEntry} (hsub : tr ⊆ tr')
    (h : StartFailed j i tr) : StartFailed j i tr' := by
  rcases h with ⟨reply, e, hm⟩ | ⟨id, opts, reply, e, hm⟩
  · exact Or.inl ⟨reply, e, hsub hm⟩
  · exact Or.inr ⟨id, opts, reply, e, hsub hm⟩

/-- The call that sends a trigger to its release is its insert or its `queue.add`, and it fails. -/
theorem next_releasing {env : Env} {st : TriggerPhase} {c : Call} {r : Except Failure c.Reply}
    {token : Token} (hcall : TriggerCall env j st c)
    (h : st.next c r = .asked j token .releasing) :
    ∃ e, r = .error e ∧ (c = .executionCreate ⟨j, none, .manual⟩ ∨
      ∃ id opts, c = .queueAdd ⟨id, j, .manual⟩ opts) := by
  cases hcall with
  | looks =>
    rcases looking_next j j r with hover | ⟨job, _, _, hfound⟩
    · cases hover.symm.trans h
    · cases hfound.symm.trans h
  | asks =>
    rcases r with e | _ | _
    · cases h
    · cases h
    · cases h
  | inserts =>
    rcases r with e | x
    · exact ⟨e, rfl, Or.inl rfl⟩
    · cases h
  | enqueues =>
    rcases r with e | u
    · exact ⟨e, rfl, Or.inr ⟨_, _, rfl⟩⟩
    · cases h
  | releases => cases h

theorem releasing_told (hr : Reachable S w₀ s) {i : Nat} {token : Token} (ht : IsTrigger s i j)
    (hphase : triggerAt S.env j s.trace i = .asked j token .releasing) :
    StartFailed j i s.trace := by
  refine phase_told (Q := fun st => st = .asked j token .releasing)
    (fun _ _ hsub h => h.mono hsub) (fun h => by cases h) ?_ hr ht hphase
  intro st c reply seen tr hcall hreleasing _ hm
  obtain ⟨e, rfl, hwhich⟩ := next_releasing hcall hreleasing
  rcases hwhich with rfl | ⟨id, opts, rfl⟩
  · exact Or.inr (Or.inl ⟨_, e, hm⟩)
  · exact Or.inr (Or.inr ⟨id, opts, _, e, hm⟩)

theorem release_told (hr : Reachable S w₀ s) {i : Nat} (ht : IsTrigger s i j) {t : Token}
    {reply : Option (Except Failure Unit)} {seen : Except Failure Unit}
    (hm : Entry.called i (.redisRelease (jobLockKey j .manual) t) reply seen ∈ s.trace) :
    ∃ token, triggerAt S.env j s.trace i = .asked j token .ended := by
  induction hr with
  | refl => simp [State.fresh] at hm
  | @tail s s' e hr _ hs ih =>
    rcases hs.called hm with hm | ⟨tag, k, o, hi, rfl, rfl, _, rfl⟩
    · obtain ⟨tag, htag, _⟩ := hr.called_only (fun _ _ _ _ => only_start) hm
      have ht₀ : IsTrigger s i j := ht.before hs htag
      obtain ⟨token, hphase⟩ := ih ht₀ hm
      rcases triggerAt_step hr hs ht₀ with hsame | ⟨tag, c, k, o, hi, rfl, hcall, hnext⟩
      · exact ⟨token, hsame.trans hphase⟩
      · rw [hphase] at hcall
        cases hcall
    · have ht₀ : IsTrigger s i j := ht.before hs (Live.tag hi)
      have hcall := trigger_call hr hi ht₀
      have hnext := triggerAt_resumed (S := S) (s := s) j i tag
        (.redisRelease (jobLockKey j .manual) t) k o
      generalize triggerAt S.env j s.trace i = st at hcall hnext
      cases hcall with
      | releases => exact ⟨_, hnext⟩

/-! ## What a trigger has answered -/

theorem Replied.step {i : Nat} {reply : TriggerReply} (h : Replied s i reply) {e : SystemEvent}
    (hs : (system S).Step s e s') : Replied s' i reply := by
  obtain ⟨id, hi⟩ := h
  rcases hs.live (triggers S.env) hi (.looking id) with ⟨hi', _⟩ | ⟨c, k, o, hp, _⟩ | ⟨c, k, hp, _⟩
  · exact ⟨id, hi'⟩
  · cases hp
  · cases hp

theorem Replied.endsWith (hr : Reachable S w₀ s) {i : Nat} (ht : IsTrigger s i j)
    {reply : TriggerReply} (h : Replied s i reply) :
    EndsWith (triggerAt S.env j s.trace i) (.ok reply) := by
  obtain ⟨id, hi⟩ := h
  cases (Live.tag hi).symm.trans ht
  exact trigger_wp hr hi

theorem replied_of_refused (hr : Reachable S w₀ s) {i : Nat} (ht : IsTrigger s i j)
    (halive : s.Alive i) {token : Token}
    (hphase : triggerAt S.env j s.trace i = .asked j token .refused) : Replied s i .locked := by
  obtain ⟨tag, p, hi⟩ := halive
  cases (Live.tag hi).symm.trans ht
  have hwp := trigger_wp hr hi
  rw [hphase] at hwp
  cases p with
  | ret r =>
    cases r with
    | triggered reply =>
      cases hwp.1.mpr ⟨j, token, rfl⟩
      exact ⟨j, hi⟩
    | _ => exact hwp.elim
  | fail e => cases hwp.1.mpr ⟨j, token, rfl⟩
  | await c k => exact hwp.1.elim
  | sync l k => exact (hr.settled hi).elim

theorem replied_of_false (hr : Reachable S w₀ s) {i : Nat} {v : RedisValue} {ttl : Nat}
    {reply : Option (Except Failure Bool)} (hm : Entry.called i
      (.redisSetNx (jobLockKey j .manual) v ttl) reply (.ok false) ∈ s.trace) :
    Replied s i .locked := by
  induction hr with
  | refl => simp [State.fresh] at hm
  | @tail s s' e hr _ hs ih =>
    have hr' : Reachable S w₀ s' := hr.tail trivial hs
    obtain ⟨ht, _, token, stage, _, hphase, hfollows⟩ := setNx_told hr' hm
    rcases hs.called hm with hm | ⟨tag, k, o, hi, rfl, rfl, _, _⟩
    · exact (ih hm).step hs
    · have hrefused : stage = .refused := by
        cases stage with
        | refused => rfl
        | ended => exact absurd rfl hfollows
        | _ => cases hfollows
      subst hrefused
      exact replied_of_refused hr' ht ⟨tag, _, live_resumed_self hi⟩ hphase

end Runs

end CronHive
