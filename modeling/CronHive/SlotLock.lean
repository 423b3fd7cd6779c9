import CronHive.Ledger
import CronHive.ExactlyOnce

/-!
# The slot lock as a fast path

A refused lock is taken to mean that the holder claims the slot. That is so as long as every
holder gets as far as its insert: then a slot whose lock was ever asked for has a row, or
its job is gone, or the holder is about to insert.
-/

namespace CronHive

set_option autoImplicit false

open Async Async.Prog Async.Machine

/-! ## Only known jobs are locked -/

/-- The ids a thread has read from the Job table. -/
def scans : Monitor Call.Reply Failure (List JobId) where
  permits ids
    | .redisSetNx key _ _ => ∀ j t, key = jobLockKey j (.time t) → j ∈ ids
    | _ => True
  admits _ _ _ := True
  next ids
    | .jobFindMany => fun
      | .ok jobs => ids ++ jobs.map (·.id)
      | .error _ => ids
    | _ => fun _ => ids

theorem scans_claimSlot (job : Job) (slot : Int) (lock : JobLock) (ids : List JobId) :
    (claimSlot job slot lock).wp scans ids fun ids' _ => ids' = ids := by
  unfold claimSlot createScheduledExecution releaseJobLock
  simp [scans, forall_except]

theorem scans_tickIteration (S : Setup) (job : Job) {ids : List JobId} (h : job.id ∈ ids) :
    (tickIteration S job).wp scans ids fun ids' _ => ids' = ids := by
  simp only [tickIteration, bind_eq, wp_bind, wp_dateNow]
  intro now
  split
  · rfl
  · rename_i slot _
    simp only [fireSlot, acquireJobLock, bind_eq, wp_bind, wp_randomUUID, wp_call]
    refine fun token => ⟨?_, fun granted _ => ?_⟩
    · intro j t hkey
      cases hkey
      exact h
    · cases granted with
      | error e => rfl
      | ok granted =>
        cases granted with
        | false => exact fun _ => rfl
        | true => exact scans_claimSlot job slot _ ids

theorem scans_tickLoop (S : Setup) (jobs : List Job) {ids : List JobId}
    (h : ∀ job ∈ jobs, job.id ∈ ids) :
    (tickLoop S jobs).wp scans ids fun _ _ => True := by
  induction jobs with
  | nil => trivial
  | cons job jobs ih =>
    simp only [tickLoop, bind_eq, wp_bind]
    refine wp_mono ?_ (scans_tickIteration S job (h job List.mem_cons_self))
    rintro ids' (e | _) rfl
    · trivial
    · exact ih fun job' h' => h job' (List.mem_cons_of_mem job h')

theorem scans_tick (S : Setup) : (tick S).wp scans [] fun _ _ => True := by
  simp only [tick, bind_eq, wp_bind, wp_inc, wp_call]
  refine ⟨trivial, fun jobs _ => ?_⟩
  cases jobs with
  | error e => trivial
  | ok jobs =>
    refine scans_tickLoop S jobs fun job hjob => ?_
    exact List.mem_append_right _ (List.mem_map_of_mem hjob)

theorem scans_begin {S : Setup} (t : Task) (w w' : World) (p : Promise Response)
    (h : start S t w = some (w', p)) : p.wp scans [] fun _ _ => True := by
  refine monitored_begin (scans_tick S) (fun _ _ _ h => h) ?_ (fun _ => trivial) t w w' p h
  intro c hc
  cases c with
  | jobFindMany => exact hc.elim
  | redisSetNx key value s =>
    refine ⟨?_, fun _ => rfl⟩
    intro j t hkey
    exact absurd hkey (hc j t)
  | _ => exact ⟨trivial, fun _ => rfl⟩

section Runs

variable {S : Setup} {w₀ : World} {s s' : SystemState}

theorem scanned_known (h : Reachable S w₀ s) :
    ∀ i, ∀ j ∈ scans.stateAt i [] s.trace, j ∈ s.world.db.jobIds := by
  refine h.keeps (I := fun s => ∀ i, ∀ j ∈ scans.stateAt i [] s.trace, j ∈ s.world.db.jobIds)
    (fun i j hj => by cases hj) ?_
  intro s e s' _ ih _ hs i j hj
  rcases hs.stateAt scans i [] with heq | ⟨tag, op, k, o, _, _, _, heq⟩
  · exact (step_evolves hs).jobIds j (ih i j (heq ▸ hj))
  · refine (step_evolves hs).jobIds j ?_
    rw [heq] at hj
    cases op with
    | jobFindMany =>
      cases hseen : ((system S).attend .jobFindMany o s.world).2.2 with
      | error e =>
        rw [hseen] at hj
        exact ih i j hj
      | ok jobs =>
        rw [hseen] at hj
        rcases List.mem_append.mp hj with hj | hj
        · exact ih i j hj
        · obtain ⟨job, hjob, rfl⟩ := List.mem_map.mp hj
          obtain ⟨c, hexec, _, _⟩ := attend_seen hseen
          have hjobs : jobs = s.world.db.jobFindMany := (Except.ok.inj hexec).symm
          rw [hjobs] at hjob
          exact s.world.db.job_known job (List.mem_of_mem_filter hjob)
    | _ => exact ih i j hj

theorem locked_known (h : Reachable S w₀ s) {i : Nat} {j : JobId} {t : Int} {v : RedisValue}
    {n : Nat} (hi : s.Awaits i (.redisSetNx (jobLockKey j (.time t)) v n)) :
    j ∈ s.world.db.jobIds := by
  obtain ⟨tag, k, hi⟩ := hi
  have hwp := h.monitored scans (fun _ => []) (fun _ _ _ => True) scans_begin
    (fun _ _ _ _ _ _ _ _ => trivial) hi
  exact scanned_known h i j (hwp.1 j t rfl)

/-! ## What a held lock stands for -/

/-- The store answered a request for the slot's lock: it is held now or was held then. -/
def LockSeen (tr : List TraceEntry) (j : JobId) (t : Int) : Prop :=
  ∃ i v n r seen, Entry.called i (.redisSetNx (jobLockKey j (.time t)) v n) (some (.ok r)) seen ∈ tr

/-- No holder of a slot's lock fails or stops before its insert, and no lock is taken without
its taker knowing. -/
def holderInserts (s : SystemState) : SystemEvent → Prop
  | .resume i (.rejected _) => ∀ j t, phaseAt s.trace i ≠ .locked j t
  | .resume i (.lost _ _) => ∀ j t v n, s.Awaits i (.redisSetNx (jobLockKey j (.time t)) v n) →
      s.world.redis (jobLockKey j (.time t)) ≠ none
  | .stop i => ∀ j t, phaseAt s.trace i ≠ .locked j t
  | _ => True

structure LockKept (s : SystemState) : Prop where
  seen : ∀ j t, s.world.redis (jobLockKey j (.time t)) ≠ none → LockSeen s.trace j t
  known : ∀ j t, LockSeen s.trace j t → j ∈ s.world.db.jobIds
  row : ∀ j t, LockSeen s.trace j t → s.world.db.Claimed j t ∨ ¬ s.world.db.hasJob j ∨
    ∃ i tag p, s.Live i tag p ∧ phaseAt s.trace i = .locked j t

/-- `SET` without NX is for the config cache only. -/
theorem not_set_lock (hr : Reachable S w₀ s) {i : Nat} {j : JobId} {slot : FireSlot}
    {v : RedisValue} {n : Nat} : ¬ s.Awaits i (.redisSet (jobLockKey j slot) v n) := by
  rintro ⟨tag, k, hi⟩
  have hcalls : tag.Calls (.redisSet (jobLockKey j slot) v n) :=
    (hr.only (P := Task.Calls) (fun _ _ _ _ => only_start) hi).1
  cases tag with
  | tick => exact hcalls
  | deliver m =>
    obtain ⟨b, hb⟩ := hcalls
    exact hb
  | trigger id => exact hcalls
  | deleteJob id => exact hcalls
  | bulkSetEnabled ids enabled => exact hcalls
  | _ =>
    obtain ⟨j', hkey⟩ := hcalls
    cases hkey

/-- A lock that is held after a step was held before it or has just been granted. -/
theorem held_step (hr : Reachable S w₀ s) {e : SystemEvent} (hs : (system S).Step s e s')
    {j : JobId} {t : Int} (h : s'.world.redis (jobLockKey j (.time t)) ≠ none) :
    s.world.redis (jobLockKey j (.time t)) ≠ none ∨ LockSeen s'.trace j t := by
  cases hs with
  | begin hstart =>
    rw [spawned_redis, (start_stores hstart).2.1] at h
    exact Or.inl h
  | @resume i tag op k o hi =>
    rw [resumed_redis] at h
    rcases attend_cases (M := system S) op o s.world with ⟨_, hw, _⟩ | ⟨c, hw, hreply, _⟩
    · rw [hw] at h
      exact Or.inl h
    · rw [hw] at h
      obtain ⟨entry, hentry⟩ := Option.ne_none_iff_exists'.mp h
      rcases World.exec_redis hentry with hsame | ⟨v, n, rfl, _, hok⟩ | ⟨v, n, rfl, _⟩
      · exact Or.inl fun hnone => by rw [hnone] at hsame; cases hsame
      · have hreply' : ((system S).attend (.redisSetNx (jobLockKey j (.time t)) v n) o
            s.world).2.1 = some (.ok true) := hreply.trans (congrArg some hok)
        exact Or.inr ⟨i, v, n, true, _, called_resumed hreply'⟩
      · exact absurd ⟨tag, k, hi⟩ (not_set_lock hr)
  | stop _ => exact Or.inl h
  | @outside x w hx =>
    cases x <;> cases hx
    · exact Or.inl fun hnone => h ((Redis.del_le h).trans hnone)
    · exact Or.inl h

namespace LockKept

theorem row_step (h : LockKept s) (hr : Reachable S w₀ s) {e : SystemEvent}
    (hok : holderInserts s e) (hs : (system S).Step s e s') {j : JobId} {t : Int}
    (hseen : LockSeen s.trace j t) : s'.world.db.Claimed j t ∨ ¬ s'.world.db.hasJob j ∨
      ∃ i tag p, s'.Live i tag p ∧ phaseAt s'.trace i = .locked j t := by
  have hev := step_evolves hs
  by_cases hj : s'.world.db.hasJob j
  · rcases h.row j t hseen with hc | hgone | ⟨i, tag, p, hi, hp⟩
    · exact Or.inl (hev.claimed hc hj)
    · exact absurd (hev.gone j (h.known j t hseen) hj) hgone
    · rcases hs.live phases hi .idle with ⟨hi', hp'⟩ | ⟨op, k, o, rfl, rfl, rfl⟩ | ⟨op, k, _, rfl⟩
      · exact Or.inr (Or.inr ⟨i, tag, p, hi', hp'.trans hp⟩)
      · -- the holder's insert is answered, or takes effect unseen
        have hop := phase_permits hr ⟨tag, k, hi⟩
        rw [hp] at hop
        cases hop
        rw [resumed_db] at hj ⊢
        rcases attend_cases (M := system S) (.executionCreate ⟨j, some t, .schedule⟩) o s.world
          with ⟨⟨e, rfl, _⟩, _⟩ | ⟨c, hw, _⟩
        · exact absurd hp (hok j t)
        · rw [hw] at hj ⊢
          have hinsert : (⟨j, some t, .schedule⟩ : ExecutionCreate).scheduledFor = some t := rfl
          rcases s.world.db.executionCreate_claims hinsert (s.world.clock s.world.readings)
            with hc | hgone
          · exact Or.inl hc
          · exact absurd hj hgone
      · exact absurd hp (hok j t)
  · exact Or.inr (Or.inl hj)

theorem step (h : LockKept s) (hr : Reachable S w₀ s) {e : SystemEvent}
    (hok : holderInserts s e) (hs : (system S).Step s e s') : LockKept s' := by
  have hold : ∀ j t, LockSeen s.trace j t → LockSeen s'.trace j t := by
    rintro j t ⟨i, v, n, r, seen, hm⟩
    exact ⟨i, v, n, r, seen, hs.trace_subset hm⟩
  constructor
  · intro j t hheld
    rcases held_step hr hs hheld with hheld | hseen
    · exact hold j t (h.seen j t hheld)
    · exact hseen
  · rintro j t ⟨i, v, n, r, seen, hm⟩
    refine (step_evolves hs).jobIds j ?_
    rcases hs.called hm with hm | ⟨tag, k, o, hi, _⟩
    · exact h.known j t ⟨i, v, n, r, seen, hm⟩
    · exact locked_known hr ⟨tag, k, hi⟩
  · rintro j t ⟨i, v, n, r, seen, hm⟩
    rcases hs.called hm with hm | ⟨tag, k, o, hi, rfl, rfl, hreply, hseen⟩
    · exact h.row_step hr hok hs ⟨i, v, n, r, seen, hm⟩
    · rcases attend_cases (M := system S) (.redisSetNx (jobLockKey j (.time t)) v n) o s.world
        with ⟨_, _, hnone⟩ | ⟨c, _, hsome, _⟩
      · rw [hnone] at hreply
        cases hreply
      · have hexec : (s.world.redis.setNxEx (jobLockKey j (.time t)) v n).2 = .ok r :=
          Option.some.inj (hsome.symm.trans hreply)
        cases r with
        | false => exact h.row_step hr hok hs (h.seen j t (Redis.setNxEx_false hexec))
        | true =>
          refine Or.inr (Or.inr ⟨i, tag, _, live_resumed_self hi, ?_⟩)
          simp only [resumed, phaseAt_called, ↓reduceIte]
          cases o with
          | answered c' =>
            have hgranted : ((system S).attend (.redisSetNx (jobLockKey j (.time t)) v n)
                (.answered c') s.world).2.2 = .ok true := Option.some.inj hreply
            rw [hgranted]
            rfl
          | rejected e => cases hreply
          | lost c' e =>
            exact absurd (Redis.setNxEx_true hexec) (hok j t v n ⟨tag, k, hi⟩)

theorem of_run {jobs : List Job} {hjobs : (jobs.map (·.id)).Nodup} {clock : Nat → Int}
    (h : (system S).Run holderInserts (.fresh (.initial jobs hjobs clock)) s) : LockKept s := by
  refine h.keeps ⟨?_, ?_, ?_⟩ fun s e s' hr ih hok hs =>
    ih.step (hr.mono fun _ _ _ => trivial) hok hs
  · intro j t hheld
    exact absurd rfl hheld
  · rintro j t ⟨i, v, n, r, seen, hm⟩
    cases hm
  · rintro j t ⟨i, v, n, r, seen, hm⟩
    cases hm

end LockKept

end Runs

/-- A slot that a clean iteration evaluated has its row, unless another iteration for it is
still under way or the job is gone. -/
def LockHarmless (s : SystemState) : Prop :=
  ∀ i j t locked, Finished s.trace i j t locked → ¬ InFlight s j t → s.world.db.hasJob j →
    s.world.db.Claimed j t

theorem Finished.lockSeen {tr : List TraceEntry} {i : Nat} {j : JobId} {t : Int} {locked : Bool}
    (h : Finished tr i j t locked) : LockSeen tr j t := by
  obtain ⟨calls, hcalls, hm⟩ := h.mem
  cases hcalls with
  | enqueued token ttl x opts => exact ⟨i, _, ttl, true, _, hm _ List.mem_cons_self⟩
  | deduped token ttl => exact ⟨i, _, ttl, true, _, hm _ List.mem_cons_self⟩
  | refused token ttl => exact ⟨i, _, ttl, false, _, hm _ List.mem_cons_self⟩

/-- Where every holder reaches its insert, the lock turns no slot into a missed one. -/
theorem lock_is_fast_path {S : Setup} {jobs : List Job} {hjobs : (jobs.map (·.id)).Nodup}
    {clock : Nat → Int} {s : SystemState}
    (h : (system S).Run holderInserts (.fresh (.initial jobs hjobs clock)) s) :
    LockHarmless s := by
  intro i j t locked hfin hquiet hj
  have hr : Reachable S (.initial jobs hjobs clock) s := h.mono fun _ _ _ => trivial
  rcases (LockKept.of_run h).row j t hfin.lockSeen with hc | hgone | ⟨i', tag, p, hi, hp⟩
  · exact hc
  · exact absurd hj hgone
  · obtain ⟨c, hawait, hperm⟩ := phase_awaits hr hi (by rw [hp]; nofun)
    rw [hp] at hperm
    cases hperm
    exact absurd ⟨i', _, hawait, rfl, rfl⟩ hquiet

/-- The calls of a tick over the sample slot that is refused the lock. -/
def refusedCalls : List TraceEntry :=
  [.answered 1 .jobFindMany (.ok [Sample.job]),
    .answered 1 (.redisSetNx (jobLockKey "job-1" (.time 60000)) (.token 1) 137) (.ok false)]

theorem finished_of_refusedCalls {s : SystemState}
    (h : s.trace.filter (Entry.isCallOf 1) = refusedCalls) :
    Finished s.trace 1 "job-1" 60000 false := by
  refine ⟨_, .refused 1 137, ?_⟩
  rw [h]
  exact ⟨[.answered 1 .jobFindMany (.ok [Sample.job])], [], rfl⟩

/-- The second tick is refused while the first still has its insert to make. -/
def refusedTicks : List SystemEvent :=
  [.begin .tick, Sample.answered 0, Sample.answered 0, .begin .tick, Sample.answered 1,
    Sample.answered 1, Sample.answered 0, Sample.answered 0]

theorem lock_is_fast_path_refused :
    ∃ s, (system Sample.setup).run (.fresh Sample.world) refusedTicks = some s ∧
      Finished s.trace 1 "job-1" 60000 false ∧ LockHarmless s := by
  have hrun : ((system Sample.setup).run (.fresh Sample.world) refusedTicks).map
      (·.trace.filter (Entry.isCallOf 1)) = some refusedCalls := by decide +kernel
  obtain ⟨s, hs, hcalls⟩ := Option.map_eq_some_iff.mp hrun
  refine ⟨s, hs, finished_of_refusedCalls hcalls, lock_is_fast_path (.of_run hs ?_)⟩
  simp [refusedTicks, holderInserts, Sample.answered]

/-- The first tick stops with the lock in hand. -/
def orphanedLockTicks : List SystemEvent :=
  [.begin .tick, Sample.answered 0, Sample.answered 0, .stop 0,
    .begin .tick, Sample.answered 1, Sample.answered 1]

/-- The second tick is refused by a lock nobody holds and the slot has no row. -/
theorem orphaned_lock_misses_slot :
    ∃ s, Reachable Sample.setup Sample.world s ∧ ¬ LockHarmless s := by
  have hrun : ((system Sample.setup).run (.fresh Sample.world) orphanedLockTicks).map
      (fun s => ((s.threads.all fun t => !t.busy, s.world.db.jobs.map (·.id),
        s.world.db.executions.length), s.trace.filter (Entry.isCallOf 1))) =
      some ((true, ["job-1"], 0), refusedCalls) := by
    decide +kernel
  obtain ⟨s, hs, hsum⟩ := Option.map_eq_some_iff.mp hrun
  simp only [Prod.mk.injEq] at hsum
  obtain ⟨⟨hquiet, hjobs, hrows⟩, hcalls⟩ := hsum
  refine ⟨s, .of_run hs fun _ _ _ => trivial, fun h => ?_⟩
  have hidle : ¬ InFlight s "job-1" 60000 := by
    rintro ⟨i, c, hawait, _⟩
    exact State.Quiet.not_awaits hquiet i c hawait
  obtain ⟨x, hx, _⟩ := h 1 "job-1" 60000 false (finished_of_refusedCalls hcalls) hidle
    (by simp [Postgres.hasJob, hjobs])
  rw [List.length_eq_zero_iff.mp hrows] at hx
  cases hx

end CronHive
