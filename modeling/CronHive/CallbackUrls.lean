import CronHive.Footprints

/-!
# Where a fetched URL comes from

A worker fetches the URL of a job that it read from the config cache or from the Job table.
Both hold only what requests stored: in a run from an empty table, every URL in the table, in
the cache, in the hands of a thread and in a request was stored by a request of the run.
-/

namespace CronHive

set_option autoImplicit false

open Async Async.Prog Async.Machine

/-- Collects the callback URLs that a thread has read: it caches and fetches no other. -/
def urls : Monitor Call.Reply Failure (List String) where
  permits known
    | .redisSet _ value _ => ∀ job, value = .job job → job.callbackUrl ∈ known
    | .fetch url _ _ => url ∈ known
    | _ => True
  admits _ _ _ := True
  next known
    | .jobFindUnique _ => fun
      | .ok (some job) => job.callbackUrl :: known
      | _ => known
    | .jobCreate _ => fun
      | .ok job => job.callbackUrl :: known
      | .error _ => known
    | .jobUpdate _ _ => fun
      | .ok job => job.callbackUrl :: known
      | .error _ => known
    | .redisGet _ => fun
      | .ok (some (.job job)) => job.callbackUrl :: known
      | _ => known
    | _ => fun _ => known

theorem urls_succeedExecution (b : BullJob) (statusCode : Nat) (durationMs : Int)
    (known : List String) :
    (succeedExecution b statusCode durationMs).wp urls known fun _ _ => True := by
  unfold succeedExecution resetDeadStreak publishEvent
  simp [urls, forall_except]

theorem urls_failAttempt (env : Env) (b : BullJob) (kind : FailureKind)
    (statusCode : Option Nat) (message : String) (durationMs : Int) (known : List String) :
    (failAttempt env b kind statusCode message durationMs).wp urls known fun _ _ => True := by
  unfold failAttempt deadLetter applyCircuitBreaker publishEvent
  simp [urls, forall_except]

theorem urls_runAttempt (env : Env) (b : BullJob) (job : Job) (execution : Execution)
    {known : List String} (h : job.callbackUrl ∈ known) :
    (runAttempt env b job execution).wp urls known fun _ _ => True := by
  unfold runAttempt publishEvent
  rw [bind_eq, wp_bind]
  intro now
  refine (wp_call_bind ..).mpr ⟨trivial, fun _ _ => ?_, fun _ _ => trivial⟩
  refine (wp_call_bind ..).mpr ⟨trivial, fun _ _ => ?_, fun _ _ => trivial⟩
  rw [bind_eq, wp_bind]
  refine wp_invokeCallback h fun r _ result _ => ?_
  cases result with
  | ok statusCode durationMs => exact urls_succeedExecution b _ _ _
  | failed kind statusCode message durationMs => exact urls_failAttempt env b _ _ _ _ _

theorem urls_lookupJob (jobId : JobId) (known : List String) :
    (lookupJob jobId).wp urls known fun known' r =>
      ∀ job, r = .ok (some job) → job.callbackUrl ∈ known' := by
  unfold lookupJob getCachedJob
  rw [bind_eq, wp_bind]
  refine (wp_call_bind ..).mpr ⟨trivial, fun value _ => ?_, fun _ _ => nofun⟩
  have hfind : (await (.jobFindUnique jobId)).wp urls known fun known' r =>
      ∀ job, r = .ok (some job) → job.callbackUrl ∈ known' := by
    rw [wp_call]
    refine ⟨trivial, fun r _ => ?_⟩
    rintro job rfl
    exact List.mem_cons_self
  rcases value with _ | (token | job)
  · exact hfind
  · exact hfind
  · rintro job' heq
    cases heq
    exact List.mem_cons_self

theorem urls_processExecutionJob (env : Env) (b : BullJob) (known : List String) :
    (processExecutionJob env b).wp urls known fun _ _ => True := by
  unfold processExecutionJob
  rw [bind_eq, wp_bind]
  refine wp_mono ?_ (urls_lookupJob b.data.jobId known)
  intro known' r hr
  rcases r with e | (_ | job)
  · trivial
  · trivial
  · dsimp only
    split
    · trivial
    · refine (wp_call_bind ..).mpr ⟨trivial, fun execution _ => ?_, fun _ _ => trivial⟩
      cases execution with
      | none => trivial
      | some execution => exact urls_runAttempt env b job execution (hr job rfl)

theorem urls_deliver (env : Env) (message : Nat) (token : Token) (b : BullJob) :
    (deliver env message token b).wp urls [] fun _ _ => True := by
  have hreport (returned : Bool) (known : List String) :
      (if returned then await (.moveToCompleted message token)
        else await (.moveToFailed message token)).wp urls known fun _ _ => True := by
    split <;> exact (wp_call ..).mpr ⟨trivial, fun _ _ => trivial⟩
  unfold deliver
  rw [bind_eq, wp_bind, tryCatch_eq, wp_tryCatch, bind_eq, wp_bind]
  refine wp_mono ?_ (urls_processExecutionJob env b [])
  rintro known (e | _) _
  · exact hreport false known
  · exact hreport true known

theorem urls_cacheJobConfig (job : Job) {known : List String} (h : job.callbackUrl ∈ known) :
    (cacheJobConfig job).wp urls known fun _ _ => True := by
  unfold cacheJobConfig
  refine (wp_call ..).mpr ⟨?_, fun _ _ => trivial⟩
  intro job' heq
  cases heq
  exact h

theorem urls_check {α : Type} {p : Promise α} (hp : p.Only Call.ofCheck) (known : List String) :
    p.wp urls known fun _ _ => True := by
  refine hp.wp_permitted (fun known c hc => ?_) known
  cases c <;> trivial

theorem urls_createJob (S : Setup) (input : CreateJobInput) :
    (createJob S input).wp urls [] fun _ _ => True := by
  unfold createJob
  rw [bind_eq, wp_bind]
  refine wp_mono ?_ (urls_check (only_assertValidCron S _ _) [])
  rintro known (e | _) _
  · trivial
  rw [bind_eq, wp_bind]
  refine wp_mono ?_ (urls_check (only_ensureSafeCallback S _) known)
  rintro known (e | _) _
  · trivial
  refine (wp_call_bind ..).mpr ⟨trivial, fun job _ => ?_, fun _ _ => trivial⟩
  rw [bind_eq, wp_bind]
  refine wp_mono ?_ (urls_cacheJobConfig job List.mem_cons_self)
  rintro known (e | _) _ <;> trivial

theorem urls_updateJob (S : Setup) (id : JobId) (data : UpdateJobInput) :
    (updateJob S id data).wp urls [] fun _ _ => True := by
  unfold updateJob
  rw [bind_eq, wp_bind]
  refine wp_mono ?_ (urls_check (only_checkCronUpdate S id data) [])
  rintro known (e | found) _
  · trivial
  dsimp only
  split
  · rw [bind_eq, wp_bind]
    refine wp_mono ?_ (urls_check (only_ensureSafeUpdate S data) known)
    rintro known (e | _) _
    · trivial
    rw [tryCatch_eq, wp_tryCatch]
    refine (wp_call_bind ..).mpr ⟨trivial, fun job _ => ?_, fun _ _ => trivial⟩
    refine (wp_call_bind ..).mpr ⟨trivial, fun _ _ => ?_, fun _ _ => trivial⟩
    rw [bind_eq, wp_bind]
    refine wp_mono ?_ (urls_cacheJobConfig job List.mem_cons_self)
    rintro known (e | _) _ <;> trivial
  · trivial

theorem urls_begin {S : Setup} (t : Task) (w w' : World) (p : Promise Response)
    (h : start S t w = some (w', p)) : p.wp urls [] fun _ _ => True := by
  have hbind {α : Type} (q : Promise α) (f : α → Response)
      (hq : q.wp urls [] fun _ _ => True) :
      (q.bind fun a => .ret (f a)).wp urls [] fun _ _ => True := by
    rw [wp_bind]
    refine wp_mono ?_ hq
    rintro st (e | a) _ <;> trivial
  have hother (hcalls : ∀ c, t.Calls c → ∀ known, urls.permits known c) :
      p.wp urls [] fun _ _ => True :=
    (only_start h).wp_permitted (fun known c hc => hcalls c hc known) []
  cases t with
  | createJob input =>
    cases h
    exact hbind _ _ (urls_createJob S input)
  | updateJob id data =>
    cases h
    exact hbind _ _ (urls_updateJob S id data)
  | setPaused id paused =>
    cases h
    exact hbind _ _ (urls_updateJob S id _)
  | deliver m =>
    simp only [start] at h
    split at h
    · cases h
      exact hbind _ (fun _ => .done) (urls_deliver S.env m _ _)
    · cases h
  | _ =>
    refine hother fun c hc known => ?_
    cases c <;> trivial

/-- A request of the run stored this URL. -/
def StoredBy (tr : List TraceEntry) (i : Nat) (url : String) : Prop :=
  (∃ data job seen, Entry.called i (.jobCreate data) (some (.ok job)) seen ∈ tr ∧
    data.callbackUrl = url) ∨
  ∃ id data job seen, Entry.called i (.jobUpdate id data) (some (.ok job)) seen ∈ tr ∧
    data.callbackUrl = some url

theorem StoredBy.mono {tr tr' : List TraceEntry} {i : Nat} {url : String}
    (h : StoredBy tr i url) (hsub : tr ⊆ tr') : StoredBy tr' i url := by
  rcases h with ⟨data, job, seen, hm, hurl⟩ | ⟨id, data, job, seen, hm, hurl⟩
  · exact Or.inl ⟨data, job, seen, hsub hm, hurl⟩
  · exact Or.inr ⟨id, data, job, seen, hsub hm, hurl⟩

def Stored (tr : List TraceEntry) (url : String) : Prop := ∃ i, StoredBy tr i url

structure Provenance (s : SystemState) : Prop where
  row : ∀ job ∈ s.world.db.jobs, Stored s.trace job.callbackUrl
  cached : ∀ j job n, s.world.redis (jobConfigKey j) = some ⟨.job job, n⟩ →
    Stored s.trace job.callbackUrl
  known : ∀ i, ∀ url ∈ urls.stateAt i [] s.trace, Stored s.trace url
  fetched : ∀ f ∈ s.world.fetches, Stored s.trace f.url

section Runs

variable {S : Setup} {w₀ : World} {s s' : SystemState}

theorem urls_permits (hr : Reachable S w₀ s) {i : Nat} {c : Call} (hi : s.Awaits i c) :
    urls.permits (urls.stateAt i [] s.trace) c := by
  obtain ⟨tag, k, hi⟩ := hi
  exact (hr.monitored urls (fun _ => []) (fun _ _ _ => True) urls_begin
    (fun _ _ _ _ _ _ _ _ => trivial) hi).1

/-- The config cache is read and written under its own keys. -/
theorem config_key (hr : Reachable S w₀ s) {i : Nat} {c : Call} (hi : s.Awaits i c) :
    match c with
    | .redisSetNx key _ _ => ∀ j, key ≠ jobConfigKey j
    | .redisGet key => ∃ j, key = jobConfigKey j
    | _ => True := by
  obtain ⟨tag, k, hi⟩ := hi
  have hcalls : tag.Calls c := (hr.only (P := Task.Calls) (fun _ _ _ _ => only_start) hi).1
  cases c with
  | redisSetNx key v n =>
    intro j hkey
    subst hkey
    cases tag with
    | tick =>
      obtain ⟨_, _, hkey⟩ := hcalls
      cases hkey
    | trigger id =>
      obtain ⟨_, hkey⟩ := hcalls
      cases hkey
    | deliver m =>
      obtain ⟨_, hb⟩ := hcalls
      exact hb
    | _ => exact hcalls
  | redisGet key =>
    cases tag with
    | deliver m =>
      obtain ⟨b, hb⟩ := hcalls
      exact ⟨b.data.jobId, hb⟩
    | _ => exact hcalls.elim
  | _ => trivial

namespace Provenance

/-- Only stores and replies of this step can bring in a URL. -/
theorem attend_row (h : Provenance s) {i : Nat} {tag : Task} {op : Call}
    {k : Except Failure op.Reply → Promise Response} {o : Outcome Choice Failure} {job : Job}
    (hjob : job ∈ ((system S).attend op o s.world).1.db.jobs) :
    Stored ((system S).resumed s i tag op k o).trace job.callbackUrl := by
  have hold : ∀ url, Stored s.trace url → Stored ((system S).resumed s i tag op k o).trace url := by
    intro url hurl
    obtain ⟨i', hurl⟩ := hurl
    exact ⟨i', hurl.mono (List.subset_append_left _ _)⟩
  rcases attend_cases (M := system S) op o s.world with ⟨_, hw, _⟩ | ⟨c, hw, hreply, _⟩
  · rw [hw] at hjob
    exact hold _ (h.row job hjob)
  · rw [hw] at hjob
    cases World.exec_jobs hjob with
    | kept hjob => exact hold _ (h.row job hjob)
    | @created data hc _ hrow hok =>
      subst hc
      refine ⟨i, Or.inl ⟨data, job, _, called_resumed ?_, by rw [hrow]; rfl⟩⟩
      rw [hreply]
      exact congrArg some hok
    | @updated j data hj hc hrow hok =>
      subst hc
      cases hurl : data.callbackUrl with
      | none =>
        have hsame : job.callbackUrl = j.callbackUrl := by simp [hrow, JobUpdate.apply, hurl]
        rw [hsame]
        exact hold _ (h.row j hj)
      | some url =>
        have hsame : job.callbackUrl = url := by simp [hrow, JobUpdate.apply, hurl]
        rw [hsame]
        refine ⟨i, Or.inr ⟨j.id, data, job, _, called_resumed ?_, hurl⟩⟩
        rw [hreply]
        exact congrArg some hok
    | @switched j _ _ hj _ _ hrow =>
      rw [hrow]
      exact hold _ (h.row j hj)

theorem known_step (h : Provenance s) (hr : Reachable S w₀ s) {i : Nat} {tag : Task} {op : Call}
    {k : Except Failure op.Reply → Promise Response} {o : Outcome Choice Failure}
    (hi : s.Live i tag (.await op k)) {url : String}
    (hurl : url ∈ urls.next (urls.stateAt i [] s.trace) op ((system S).attend op o s.world).2.2) :
    Stored ((system S).resumed s i tag op k o).trace url := by
  have hold : ∀ url, Stored s.trace url → Stored ((system S).resumed s i tag op k o).trace url := by
    intro url hurl
    obtain ⟨i', hurl⟩ := hurl
    exact ⟨i', hurl.mono (List.subset_append_left _ _)⟩
  have hcons : ∀ job, (job ∈ s.world.db.jobs ∨ job ∈ ((system S).attend op o s.world).1.db.jobs) →
      url ∈ job.callbackUrl :: urls.stateAt i [] s.trace →
      Stored ((system S).resumed s i tag op k o).trace url := by
    intro job hjob hmem
    rcases List.mem_cons.mp hmem with rfl | hmem
    · rcases hjob with hjob | hjob
      · exact hold _ (h.row job hjob)
      · exact h.attend_row hjob
    · exact hold _ (h.known i url hmem)
  cases hseen : ((system S).attend op o s.world).2.2 with
  | error e =>
    rw [hseen] at hurl
    cases op <;> exact hold _ (h.known i url hurl)
  | ok a =>
    obtain ⟨c, hexec, hw, _⟩ := attend_seen hseen
    rw [hseen] at hurl
    cases op with
    | jobFindUnique id =>
      have ha : a = s.world.db.job? id := (Except.ok.inj hexec).symm
      cases a with
      | none => exact hold _ (h.known i url hurl)
      | some job => exact hcons job (Or.inl (Postgres.job?_eq_some.mp ha.symm).1) hurl
    | jobCreate data =>
      obtain ⟨_, _, hjobs⟩ := Postgres.jobCreate_ok hexec
      refine hcons a (Or.inr ?_) hurl
      rw [hw]
      exact hjobs ▸ List.mem_append_right _ (List.mem_singleton.mpr rfl)
    | jobUpdate id data =>
      obtain ⟨j, hj, rfl, hjobs⟩ := Postgres.jobUpdate_ok hexec
      obtain ⟨hmem, hid⟩ := Postgres.job?_eq_some.mp hj
      refine hcons _ (Or.inr ?_) hurl
      rw [hw]
      refine hjobs ▸ List.mem_map.mpr ⟨j, hmem, ?_⟩
      rw [Postgres.updateJobRow, if_pos hid]
    | redisGet key =>
      obtain ⟨j, rfl⟩ := config_key hr ⟨tag, k, hi⟩
      have ha : a = s.world.redis.get (jobConfigKey j) := (Except.ok.inj hexec).symm
      rcases a with _ | (token | job)
      · exact hold _ (h.known i url hurl)
      · exact hold _ (h.known i url hurl)
      · obtain ⟨entry, hentry, hvalue⟩ := Option.map_eq_some_iff.mp ha.symm
        rcases List.mem_cons.mp hurl with rfl | hurl
        · refine hold _ (h.cached j job entry.expireSeconds ?_)
          rw [hentry, ← hvalue]
        · exact hold _ (h.known i url hurl)
    | _ => exact hold _ (h.known i url hurl)

theorem step (h : Provenance s) (hr : Reachable S w₀ s) {e : SystemEvent}
    (hs : (system S).Step s e s') : Provenance s' := by
  have hold : ∀ url, Stored s.trace url → Stored s'.trace url := by
    intro url hurl
    obtain ⟨i', hurl⟩ := hurl
    exact ⟨i', hurl.mono hs.trace_subset⟩
  have hknown : ∀ i, ∀ url ∈ urls.stateAt i [] s'.trace, Stored s'.trace url := by
    intro i url hurl
    rcases hs.stateAt urls i [] with heq | ⟨tag, op, k, o, hi, rfl, rfl, heq⟩
    · exact hold _ (h.known i url (heq ▸ hurl))
    · exact h.known_step hr hi (heq ▸ hurl)
  cases hs with
  | begin hstart =>
    obtain ⟨hdb, hredis, hfetches⟩ := start_stores hstart
    refine ⟨?_, ?_, hknown, ?_⟩
    · rw [spawned_db, hdb]
      exact fun job hjob => hold _ (h.row job hjob)
    · rw [spawned_redis, hredis]
      exact fun j job n hj => hold _ (h.cached j job n hj)
    · rw [spawned_fetches, hfetches]
      exact fun f hf => hold _ (h.fetched f hf)
  | @resume i tag op k o hi =>
    refine ⟨?_, ?_, hknown, ?_⟩
    · rw [resumed_db]
      exact fun job hjob => h.attend_row hjob
    · rw [resumed_redis]
      intro j job n hj
      rcases attend_cases (M := system S) op o s.world with ⟨_, hw, _⟩ | ⟨c, hw, _⟩
      · rw [hw] at hj
        exact hold _ (h.cached j job n hj)
      · rw [hw] at hj
        rcases World.exec_redis hj with hj | ⟨v, n', rfl, _⟩ | ⟨v, n', rfl, hentry⟩
        · exact hold _ (h.cached j job n hj)
        · exact absurd rfl (config_key hr ⟨tag, k, hi⟩ j)
        · cases hentry
          exact hold _ (h.known i _ (urls_permits hr ⟨tag, k, hi⟩ job rfl))
    · rw [resumed_fetches]
      intro f hf
      rcases attend_cases (M := system S) op o s.world with ⟨_, hw, _⟩ | ⟨c, hw, _⟩
      · rw [hw] at hf
        exact hold _ (h.fetched f hf)
      · rw [hw] at hf
        cases op with
        | fetch url body timeoutMs =>
          rcases List.mem_append.mp hf with hf | hf
          · exact hold _ (h.fetched f hf)
          · cases List.mem_singleton.mp hf
            exact hold _ (h.known i _ (urls_permits hr ⟨tag, k, hi⟩))
        | _ => exact hold _ (h.fetched f hf)
  | stop _ =>
    exact ⟨fun job hjob => hold _ (h.row job hjob), fun j job n hj => hold _ (h.cached j job n hj),
      hknown, fun f hf => hold _ (h.fetched f hf)⟩
  | @outside x w hx =>
    cases x with
    | expire key =>
      cases hx
      refine ⟨fun job hjob => hold _ (h.row job hjob), ?_, hknown,
        fun f hf => hold _ (h.fetched f hf)⟩
      intro j job n hj
      refine hold _ (h.cached j job n ?_)
      exact (Redis.del_le (fun hnone => by cases hnone.symm.trans hj)).symm.trans hj
    | stall m =>
      cases hx
      exact ⟨fun job hjob => hold _ (h.row job hjob),
        fun j job n hj => hold _ (h.cached j job n hj), hknown, fun f hf => hold _ (h.fetched f hf)⟩

theorem of_reachable {clock : Nat → Int}
    (h : Reachable S (.initial [] List.nodup_nil clock) s) : Provenance s := by
  refine h.keeps ⟨?_, ?_, ?_, ?_⟩ fun s e s' hr ih _ hs => ih.step hr hs
  · intro job hjob
    cases hjob
  · intro j job n hj
    cases hj
  · intro i url hurl
    cases hurl
  · intro f hf
    cases hf

end Provenance

end Runs

end CronHive
