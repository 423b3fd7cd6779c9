import CronHive.Async.Streak
import CronHive.Footprints

/-!
# The circuit breaker

`applyCircuitBreaker` disables the job in the table and leaves the config cache alone, and
workers ask the cache first. An open circuit stops callbacks as long as no delivery is
served an enabled entry of the job meanwhile.
-/

namespace CronHive

set_option autoImplicit false

open Async Async.Prog Async.Machine

/-- Holds the job that a delivery has looked up: the one it may call back. -/
def lookups : Monitor Call.Reply Failure (Option Job) where
  permits st
    | .fetch _ body _ => ∃ job, st = some job ∧ job.enabled ∧ body.jobId = job.id
    | _ => True
  admits _ _ _ := True
  next st
    | .redisGet _ => fun
      | .ok (some (.job job)) => some job
      | _ => st
    | .jobFindUnique _ => fun
      | .ok (some job) => some job
      | _ => st
    | _ => fun _ => st

def Call.isFetch : Call → Prop
  | .fetch _ _ _ => True
  | _ => False

theorem lookups_permitted (st : Option Job) (c : Call) (h : ¬ c.isFetch) :
    lookups.permits st c := by
  cases c with
  | fetch url body timeoutMs => exact absurd trivial h
  | _ => trivial

section Delivery

variable (env : Env) (b : BullJob)

theorem lookups_succeedExecution (statusCode : Nat) (durationMs : Int) (st : Option Job) :
    (succeedExecution b statusCode durationMs).wp lookups st fun _ _ => True := by
  unfold succeedExecution resetDeadStreak publishEvent
  simp [lookups, forall_except]

theorem lookups_failAttempt (kind : FailureKind) (statusCode : Option Nat) (message : String)
    (durationMs : Int) (st : Option Job) :
    (failAttempt env b kind statusCode message durationMs).wp lookups st fun _ _ => True := by
  unfold failAttempt deadLetter applyCircuitBreaker publishEvent
  simp [lookups, forall_except]

theorem lookups_runAttempt {job : Job} (h : job.enabled) (execution : Execution) :
    (runAttempt env b job execution).wp lookups (some job) fun _ _ => True := by
  intro now
  refine (wp_call_bind ..).mpr ⟨trivial, fun _ _ => ?_, fun _ _ => trivial⟩
  refine (wp_call_bind ..).mpr ⟨trivial, fun _ _ => ?_, fun _ _ => trivial⟩
  refine (wp_bind ..).mpr (wp_invokeCallback ⟨job, rfl, h, rfl⟩ fun _ _ result _ => ?_)
  cases result with
  | ok statusCode durationMs => exact lookups_succeedExecution b _ _ _
  | failed kind statusCode message durationMs => exact lookups_failAttempt env b _ _ _ _ _

theorem lookups_lookupJob (jobId : JobId) :
    (lookupJob jobId).wp lookups none fun st r => ∀ job, r = .ok (some job) → st = some job := by
  have hfind : (await (.jobFindUnique jobId)).wp lookups none fun st r =>
      ∀ job, r = .ok (some job) → st = some job := by
    refine (wp_call ..).mpr ⟨trivial, fun r _ job hr => ?_⟩
    subst hr
    rfl
  refine (wp_bind ..).mpr ((wp_call_bind ..).mpr ⟨trivial, fun value _ => ?_, fun _ _ => nofun⟩)
  rcases value with _ | (token | job)
  · exact hfind
  · exact hfind
  · intro job' hr
    cases hr
    rfl

theorem lookups_processExecutionJob :
    (processExecutionJob env b).wp lookups none fun _ _ => True := by
  refine (wp_bind ..).mpr (wp_mono ?_ (lookups_lookupJob b.data.jobId))
  intro st r hr
  rcases r with e | _ | job
  · trivial
  · trivial
  · cases hr job rfl
    dsimp only
    split
    · trivial
    · rename_i henabled
      refine (wp_call_bind ..).mpr ⟨trivial, fun found _ => ?_, fun _ _ => trivial⟩
      cases found with
      | none => trivial
      | some execution => exact lookups_runAttempt env b (by simpa using henabled) execution

theorem lookups_deliver (message : Nat) (token : Token) (b : BullJob) :
    (deliver env message token b).wp lookups none fun _ _ => True := by
  refine (wp_bind ..).mpr ((wp_tryCatch ..).mpr ((wp_bind ..).mpr ?_))
  refine wp_mono ?_ (lookups_processExecutionJob env b)
  intro st r _
  cases r with
  | ok _ => exact (wp_call ..).mpr ⟨trivial, fun _ _ => trivial⟩
  | error e => exact (wp_call ..).mpr ⟨trivial, fun _ _ => trivial⟩

end Delivery

theorem Task.not_fetch {t : Task} (ht : ∀ m, t ≠ .deliver m) {c : Call} (h : t.Calls c) :
    ¬ c.isFetch := by
  cases t with
  | deliver m => exact absurd rfl (ht m)
  | _ => cases c <;> first | exact id | exact h.elim

theorem lookups_begin {S : Setup} (t : Task) (w w' : World) (p : Promise Response)
    (h : start S t w = some (w', p)) : p.wp lookups none fun _ _ => True :=
  delivered_begin (lookups_deliver S.env)
    (fun t ht c hc st => lookups_permitted st c (t.not_fetch ht hc)) t w w' p h

/-! ## Open circuits -/

/-- An API request writes enabled = true. -/
def Enables (j : JobId) : TraceEntry → Prop
  | .called _ (.jobUpdate id data) (some (.ok _)) _ => id = j ∧ data.enabled = some true
  | .called _ (.jobUpdateMany ids true) (some _) _ => j ∈ ids
  | _ => False

/-- A worker's circuit breaker has disabled `j`, `post` is what happened since, and no request
has enabled `j` again. -/
structure OpenSince (tr : List TraceEntry) (j : JobId) (post : List TraceEntry) : Prop where
  opened : ∃ pre i m row seen, Entry.began i (.deliver m) ∈ pre ∧
    tr = pre ++ .called i (.jobUpdate j { enabled := some false }) (some (.ok row)) seen :: post
  closed : ∀ e ∈ post, ¬ Enables j e

instance (j : JobId) (e : TraceEntry) : Decidable (Enables j e) := by
  induction e using Async.Entry.casesOn with
  | called i c reply seen =>
    induction c using Call.casesOn with
    | jobUpdate id data =>
      induction reply using Option.casesOn with
      | none => exact instDecidableFalse
      | some r => induction r using Except.casesOn <;> unfold Enables <;> infer_instance
    | jobUpdateMany ids enabled =>
      induction enabled using Bool.casesOn <;> induction reply using Option.casesOn <;>
        unfold Enables <;> infer_instance
    | _ => exact instDecidableFalse
  | _ => exact instDecidableFalse

theorem OpenSince.of_getElem {tr : List TraceEntry} {n i m : Nat} {j : JobId} {row : Job}
    {seen : Except Failure Job}
    (h : tr[n]? = some (.called i (.jobUpdate j { enabled := some false }) (some (.ok row)) seen))
    (hm : Entry.began i (.deliver m) ∈ tr.take n) (hclosed : ∀ e ∈ tr.drop (n + 1), ¬ Enables j e) :
    OpenSince tr j (tr.drop (n + 1)) := by
  obtain ⟨hn, hget⟩ := List.getElem?_eq_some_iff.mp h
  refine ⟨⟨tr.take n, i, m, row, seen, hm, ?_⟩, hclosed⟩
  rw [← hget, ← List.drop_eq_getElem_cons hn, List.take_append_drop]

/-- No delivery that begins while the circuit of `j` is open invokes its callback. -/
def CircuitHolds (tr : List TraceEntry) : Prop :=
  ∀ j post, OpenSince tr j post → ∀ i m, Entry.began i (.deliver m) ∈ post →
    ∀ url body timeoutMs reply seen,
      Entry.called i (.fetch url body timeoutMs) reply seen ∈ post → body.jobId ≠ j

theorem OpenSince.step {tr : List TraceEntry} {x : TraceEntry} {j : JobId}
    {post : List TraceEntry} (h : OpenSince (tr ++ [x]) j post) :
    (post = [] ∧ ∃ i row seen,
      x = .called i (.jobUpdate j { enabled := some false }) (some (.ok row)) seen) ∨
    ∃ post₀, post = post₀ ++ [x] ∧ OpenSince tr j post₀ ∧ ¬ Enables j x := by
  obtain ⟨⟨pre, i, m, row, seen, hm, htr⟩, hclosed⟩ := h
  rcases append_singleton_split htr with ⟨_, hx, hpost⟩ | ⟨post₀, rfl, htr₀⟩
  · exact Or.inl ⟨hpost, i, row, seen, hx.symm⟩
  · refine Or.inr ⟨post₀, rfl, ⟨⟨pre, i, m, row, seen, hm, htr₀⟩, ?_⟩, ?_⟩
    · exact fun e he => hclosed e (List.mem_append_left _ he)
    · exact hclosed x (List.mem_append_right _ (List.mem_singleton.mpr rfl))

theorem OpenSince.subset {tr : List TraceEntry} {j : JobId} {post : List TraceEntry}
    (h : OpenSince tr j post) : post ⊆ tr := by
  obtain ⟨pre, i, m, row, seen, _, htr⟩ := h.opened
  intro e he
  rw [htr]
  exact List.mem_append_right _ (List.mem_cons_of_mem _ he)

/-- No delivery is served an enabled entry of a job whose circuit is open. -/
def servesNoOpen (s : SystemState) : SystemEvent → Prop
  | .resume i (.answered _) => ∀ key job, s.Awaits i (.redisGet key) →
      s.world.redis.get key = some (.job job) → job.enabled →
        ∀ post, ¬ OpenSince s.trace job.id post
  | _ => True

/-- While the circuit is open the row is disabled, and so is what the deliveries that began
since have looked up. -/
structure CircuitOpen (s : SystemState) (j : JobId) (post : List TraceEntry) : Prop where
  row : ∀ job ∈ s.world.db.jobs, job.id = j → job.enabled = false
  known : j ∈ s.world.db.jobIds
  found : ∀ i t, Entry.began i t ∈ post → ∀ job, lookups.stateAt i none s.trace = some job →
    job.id = j → job.enabled = false
  silent : ∀ i t, Entry.began i t ∈ post → ∀ url body timeoutMs reply seen,
    Entry.called i (.fetch url body timeoutMs) reply seen ∈ post → body.jobId ≠ j

section Steps

variable {S : Setup} {w₀ : World} {s s' : SystemState} {j : JobId}

theorem lookups_permits (hr : Reachable S w₀ s) {i : Nat} {tag : Task} {c : Call}
    {k : Except Failure c.Reply → Promise Response} (hi : s.Live i tag (.await c k)) :
    lookups.permits (lookups.stateAt i none s.trace) c :=
  (hr.monitored lookups (fun _ => none) (fun _ _ _ => True) lookups_begin
    (fun _ _ _ _ _ _ _ _ => trivial) hi).1

theorem circuitOpen_opened {e : SystemEvent} (hs : (system S).Step s e s') {i : Nat} {row : Job}
    {seen : Except Failure Job} (hx : s'.trace = s.trace ++
      [.called i (.jobUpdate j { enabled := some false }) (some (.ok row)) seen]) :
    CircuitOpen s' j [] := by
  obtain ⟨tag, k, o, hi, rfl, rfl, hreply, _⟩ := hs.traced_call hx
  have hev := step_evolves hs
  rcases attend_cases (M := system S) (.jobUpdate j { enabled := some false }) o s.world with
    ⟨_, _, hnone⟩ | ⟨c, hw, hreply', _⟩
  · rw [hnone] at hreply
    cases hreply
  · have hok : (s.world.db.jobUpdate j { enabled := some false }).2 = .ok row :=
      Option.some.inj (hreply'.symm.trans hreply)
    obtain ⟨job₀, hjob₀, _, hjobs⟩ := Postgres.jobUpdate_ok hok
    obtain ⟨hmem, hid⟩ := Postgres.job?_eq_some.mp hjob₀
    have hknown : j ∈ s.world.db.jobIds := hid ▸ s.world.db.job_known job₀ hmem
    refine ⟨?_, hev.jobIds j hknown, fun _ _ hm => absurd hm List.not_mem_nil,
      fun _ _ hm => absurd hm List.not_mem_nil⟩
    intro job hjob hjid
    rw [resumed_db, hw] at hjob
    have hjob' : job ∈ s.world.db.jobs.map
        (Postgres.updateJobRow j { enabled := some false }) := hjobs ▸ hjob
    obtain ⟨job₁, _, rfl⟩ := List.mem_map.mp hjob'
    rw [Postgres.updateJobRow_id] at hjid
    rw [Postgres.updateJobRow, if_pos hjid]
    rfl

/-- Without a request that enables it the row stays disabled. -/
theorem disabled_step (hknown : j ∈ s.world.db.jobIds)
    (h : ∀ job ∈ s.world.db.jobs, job.id = j → job.enabled = false)
    {e : SystemEvent} (hs : (system S).Step s e s') {x : TraceEntry}
    (hx : s'.trace = s.trace ++ [x]) (hclosed : ¬ Enables j x) :
    ∀ job ∈ s'.world.db.jobs, job.id = j → job.enabled = false := by
  intro job hjob hid
  cases step_stores hs with
  | silent hdb _ => exact h job (hdb ▸ hjob) hid
  | expired hdb _ => exact h job (hdb ▸ hjob) hid
  | @call i tag c k o a hi hs' hreply hdb _ =>
    rw [hdb] at hjob
    have hentry : x = .called i c (some (World.exec c a s.world).2)
        ((system S).attend c o s.world).2.2 := by
      rw [hs'] at hx
      rw [← hreply]
      exact (List.cons.inj (List.append_cancel_left hx)).1.symm
    cases World.exec_jobs hjob with
    | kept hjob => exact h job hjob hid
    | created _ hnew hrow _ =>
      have hnewid : job.id = a.jobId := by rw [hrow]; rfl
      have hj : j = a.jobId := hid.symm.trans hnewid
      exact absurd (hj ▸ hknown) hnew
    | @updated job₀ data hjob₀ hc hrow hok =>
      subst hc hrow
      have hold : job₀.enabled = false := h job₀ hjob₀ hid
      cases hdata : data.enabled with
      | none => simp [JobUpdate.apply, hdata, hold]
      | some enabled =>
        cases enabled with
        | false => simp [JobUpdate.apply, hdata]
        | true =>
          have hexec : (World.exec (.jobUpdate job₀.id data) a s.world).2 =
            .ok (data.apply job₀) := hok
          rw [hexec] at hentry
          rw [hentry] at hclosed
          exact absurd ⟨hid, hdata⟩ hclosed
    | @switched job₀ ids enabled hjob₀ hc hmem hrow =>
      subst hc hrow
      cases enabled with
      | false => rfl
      | true =>
        rw [hentry] at hclosed
        have hmem' : j ∈ ids := hid ▸ hmem
        exact absurd hmem' hclosed

/-- A thread looks up nothing that is enabled while the circuit is open. -/
theorem CircuitOpen.found_step {post : List TraceEntry}
    (hopen : OpenSince s.trace j post) (h : CircuitOpen s j post) {e : SystemEvent}
    (hok : servesNoOpen s e) (hs : (system S).Step s e s') {i : Nat} {job : Job}
    (hold : ∀ job, lookups.stateAt i none s.trace = some job → job.id = j → job.enabled = false)
    (hfound : lookups.stateAt i none s'.trace = some job) (hid : job.id = j) :
    job.enabled = false := by
  rcases hs.stateAt lookups i none with hsame | ⟨tag, c, k, o, hi, rfl, rfl, hnext⟩
  · exact hold job (hsame ▸ hfound) hid
  · rw [hnext] at hfound
    cases hseen : ((system S).attend c o s.world).2.2 with
    | error e =>
      rw [hseen] at hfound
      cases c <;> exact hold job hfound hid
    | ok a =>
      rw [hseen] at hfound
      cases c with
      | redisGet key =>
        rcases a with _ | (token | job')
        · exact hold job hfound hid
        · exact hold job hfound hid
        · cases hfound
          cases o with
          | answered x =>
            have hget : s.world.redis.get key = some (.job job) := Except.ok.inj hseen
            by_contra henabled
            refine hok key job ⟨tag, k, hi⟩ hget (by simpa using henabled) post ?_
            rw [hid]
            exact hopen
          | rejected e => cases hseen
          | lost x e => cases hseen
      | jobFindUnique id =>
        cases a with
        | none => exact hold job hfound hid
        | some job' =>
          cases hfound
          obtain ⟨x, hexec, _⟩ := attend_seen hseen
          have hrow : s.world.db.job? id = some job := Except.ok.inj hexec
          exact h.row job (Postgres.job?_eq_some.mp hrow).1 hid
      | _ => exact hold job hfound hid

theorem CircuitOpen.step (hr : Reachable S w₀ s) {post : List TraceEntry}
    (hopen : OpenSince s.trace j post) (h : CircuitOpen s j post) {e : SystemEvent}
    (hok : servesNoOpen s e) (hs : (system S).Step s e s') {x : TraceEntry}
    (hx : s'.trace = s.trace ++ [x]) (hclosed : ¬ Enables j x) :
    CircuitOpen s' j (post ++ [x]) where
  row := disabled_step h.known h.row hs hx hclosed
  known := (step_evolves hs).jobIds j h.known
  found i t hm job hfound hid := by
    refine h.found_step hopen hok hs (fun job' hfound' => ?_) hfound hid
    rcases List.mem_append.mp hm with hm | hm
    · exact h.found i t hm job' hfound'
    · cases List.mem_singleton.mp hm
      have hi : i = s.threads.length := hs.traced_begin hx
      rw [lookups.stateAt_of_absent none fun op reply seen hcall =>
        absurd (hr.numbered _ op reply seen hcall) (by omega)] at hfound'
      cases hfound'
  silent i t hm url body timeoutMs reply seen hcall hid := by
    rcases List.mem_append.mp hcall with hbefore | hnow
    · rcases List.mem_append.mp hm with hm | hm
      · exact h.silent i t hm url body timeoutMs reply seen hbefore hid
      · cases List.mem_singleton.mp hm
        have hi : i = s.threads.length := hs.traced_begin hx
        have hlt := hr.numbered _ _ _ _ (hopen.subset hbefore)
        omega
    · cases List.mem_singleton.mp hnow
      rcases List.mem_append.mp hm with hm | hm
      · obtain ⟨tag, k, o, hi, _⟩ := hs.traced_call hx
        obtain ⟨job, hstate, henabled, hbody⟩ := lookups_permits hr hi
        have hdisabled := h.found i t hm job hstate (hbody.symm.trans hid)
        rw [hdisabled] at henabled
        cases henabled
      · cases List.mem_singleton.mp hm

theorem circuitOpen_of_run (h : (system S).Run servesNoOpen (.fresh w₀) s) :
    ∀ j post, OpenSince s.trace j post → CircuitOpen s j post := by
  refine h.keeps (I := fun s => ∀ j post, OpenSince s.trace j post → CircuitOpen s j post) ?_ ?_
  · intro j post hopen
    obtain ⟨pre, i, m, row, seen, _, htr⟩ := hopen.opened
    simp [State.fresh] at htr
  · intro s e s' hrun ih hok hs j post hopen
    have hr : Reachable S w₀ s := hrun.mono fun _ _ _ => trivial
    obtain ⟨x, hx⟩ := hs.traced
    rw [hx] at hopen
    rcases hopen.step with ⟨rfl, i, row, seen, rfl⟩ | ⟨post₀, rfl, hopen₀, hclosed⟩
    · exact circuitOpen_opened hs hx
    · exact (ih j post₀ hopen₀).step hr hopen₀ hok hs hx hclosed

end Steps

/-- Where no delivery is served an enabled entry of a job whose circuit is open, an open
circuit stops callbacks. -/
theorem open_circuit_stops_callbacks {S : Setup} {w₀ : World} {s : SystemState}
    (h : (system S).Run servesNoOpen (.fresh w₀) s) : CircuitHolds s.trace :=
  fun j post hopen i m hm => (circuitOpen_of_run h j post hopen).silent i (.deliver m) hm

/-- One DEAD execution opens the circuit. -/
def breakerSetup : Setup :=
  { Sample.setup with
    env := { Sample.setup.env with
      circuitBreakerConsecutiveDead := 1
      circuitBreaker_pos := Nat.one_pos } }

def breakerWorld : World :=
  .initial [{ Sample.job with maxRetries := 0 }] (by decide) fun _ => 60010

/-- A triggered and a scheduled execution are enqueued and the first is delivered, by threads
`i`, `i + 1` and `i + 2`; it ends DEAD and opens the circuit. The delivery takes `calls` calls
up to its callback. -/
def openingRun (i calls : Nat) : List SystemEvent :=
  [.begin (.trigger "job-1")] ++ List.replicate 4 (Sample.answered i) ++
    [.begin .tick] ++ List.replicate 4 (Sample.answered (i + 1)) ++
    [.begin (.deliver 0)] ++ List.replicate calls (Sample.answered (i + 2)) ++
    [.resume (i + 2) (.answered { exchange := ⟨[], .response 500⟩ })] ++
    List.replicate 8 (Sample.answered (i + 2))

/-- Then the second is delivered; the cache is empty throughout. -/
def openCircuitRun : List SystemEvent :=
  openingRun 0 5 ++ [.begin (.deliver 1)] ++ List.replicate 3 (Sample.answered 3)

/-- Config lookups that find nothing in the cache. -/
def servesNothing (s : SystemState) : SystemEvent → Prop
  | .resume i (.answered _) =>
      match s.awaiting i with
      | some (.redisGet key) => s.world.redis.get key = none
      | _ => True
  | _ => True

instance (s : SystemState) (e : SystemEvent) : Decidable (servesNothing s e) := by
  induction e using Async.Event.casesOn with
  | resume i o =>
    induction o using Async.Outcome.casesOn with
    | answered a =>
      dsimp only [servesNothing]
      generalize s.awaiting i = c
      induction c using Option.casesOn with
      | none => exact instDecidableTrue
      | some c => induction c using Call.casesOn <;> dsimp only <;> infer_instance
    | _ => exact instDecidableTrue
  | _ => exact instDecidableTrue

theorem servesNoOpen_of_servesNothing (s : SystemState) (e : SystemEvent)
    (h : servesNothing s e) : servesNoOpen s e := by
  cases e with
  | resume i o =>
    cases o with
    | answered x =>
      intro key job hawait hget
      simp only [servesNothing, hawait.awaiting] at h
      rw [h] at hget
      cases hget
    | _ => trivial
  | _ => trivial

/-- The row as the circuit breaker leaves it. -/
def brokenJob : Job :=
  { Sample.job with maxRetries := 0, enabled := false, consecutiveDeadCount := 1 }

def opening (i : Nat) : TraceEntry :=
  .answered i (.jobUpdate "job-1" { enabled := some false }) (.ok brokenJob)

theorem open_circuit_stops_callbacks_uncached : ∃ s,
    (system breakerSetup).run (.fresh breakerWorld) openCircuitRun = some s ∧
      opening 2 ∈ s.trace ∧ Entry.began 3 (.deliver 1) ∈ s.trace ∧ CircuitHolds s.trace := by
  have hrun : ((system breakerSetup).runChecked servesNothing (.fresh breakerWorld)
      openCircuitRun).map (fun s => decide (opening 2 ∈ s.trace ∧
        Entry.began 3 (.deliver 1) ∈ s.trace)) = some true := by decide +kernel
  obtain ⟨s, hs, hsum⟩ := Option.map_eq_some_iff.mp hrun
  obtain ⟨hopening, hbegan⟩ := of_decide_eq_true hsum
  have hokay : (system breakerSetup).Run servesNoOpen (.fresh breakerWorld) s :=
    (Run.of_runChecked hs).mono servesNoOpen_of_servesNothing
  exact ⟨s, run_of_runChecked hs, hopening, hbegan, open_circuit_stops_callbacks hokay⟩

/-- The job is created, which caches it, and runs into the circuit breaker; then its second
message is delivered. -/
def cachedCircuitRun : List SystemEvent :=
  [.begin (.createJob {
      name := "every minute"
      cronExpression := "* * * * *"
      callbackUrl := "https://hooks.example.com/run"
      maxRetries := 0
      backoffMs := 1000 }),
    .resume 0 (.answered { addresses := ["93.184.216.34"] }),
    .resume 0 (.answered { jobId := "job-1" }), Sample.answered 0] ++
    openingRun 1 4 ++ [.begin (.deliver 1)] ++ List.replicate 4 (Sample.answered 4) ++
    [.resume 4 (.answered { exchange := ⟨[], .response 200⟩ })]

def cachedFetch : TraceEntry :=
  .answered 4 (.fetch "https://hooks.example.com/run" ⟨"job-1", "every minute", 1, 1, 60010⟩ 30000)
    (.ok 200)

theorem cached_job_outlives_breaker :
    ∃ s, Reachable breakerSetup (.initial [] List.nodup_nil fun _ => 60010) s ∧
      ¬ CircuitHolds s.trace := by
  have hrun : ((system breakerSetup).run
      (.fresh (.initial [] List.nodup_nil fun _ => 60010)) cachedCircuitRun).map
      (fun s => decide (s.trace[23]? = some (opening 3) ∧
        Entry.began 3 (.deliver 0) ∈ s.trace.take 23 ∧
        (∀ e ∈ s.trace.drop 24, ¬ Enables "job-1" e) ∧
        Entry.began 4 (.deliver 1) ∈ s.trace.drop 24 ∧ cachedFetch ∈ s.trace.drop 24)) =
      some true := by decide +kernel
  obtain ⟨s, hs, hsum⟩ := Option.map_eq_some_iff.mp hrun
  obtain ⟨hopening, hworker, hclosed, hbegan, hfetch⟩ := of_decide_eq_true hsum
  have hr : Reachable breakerSetup (.initial [] List.nodup_nil fun _ => 60010) s :=
    .of_run hs fun _ _ _ => trivial
  refine ⟨s, hr, fun h => ?_⟩
  exact h "job-1" _ (.of_getElem hopening hworker hclosed) 4 1 hbegan _ _ _ _ _ hfetch rfl

end CronHive
