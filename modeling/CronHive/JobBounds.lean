import CronHive.Attempts
import CronHive.Schemas

/-!
# The bounds of the job rows

Runs in which every request has passed its schema. What the schemas bound stays bounded in the
table, through every merge of updates, and with it the number of callbacks of an execution.
-/

namespace CronHive

set_option autoImplicit false

open Async Async.Prog Async.Machine

/-- A task that the schemas let through. -/
def Task.Within (P : Platform) : Task → Prop
  | .createJob input => input.Within P
  | .updateJob _ data => data.Within P
  | .bulkSetEnabled ids _ =>
      1 ≤ ids.length ∧ ids.length ≤ 500 ∧ ∀ id ∈ ids, 1 ≤ utf16Length id
  | _ => True

/-- Only such tasks begin. -/
def Schemed (S : Setup) : SystemState → SystemEvent → Prop :=
  fun _ e => ∀ t, e = .begin t → t.Within S.platform

/-- A timeout within bounds, or the default of the environment. -/
def TimeoutWithin (env : Env) (ms : Nat) : Prop :=
  (1000 ≤ ms ∧ ms ≤ 300000) ∨ ms = env.defaultCallbackTimeoutMs

structure Job.Within (S : Setup) (job : Job) : Prop where
  name : 1 ≤ utf16Length job.name ∧ utf16Length job.name ≤ 200
  cronExpression : 1 ≤ utf16Length job.cronExpression
  callbackUrl : (S.platform.parseUrl job.callbackUrl).isSome = true
  timezone : 1 ≤ utf16Length job.timezone
  maxRetries : job.maxRetries ≤ 50
  backoffMs : 100 ≤ job.backoffMs ∧ job.backoffMs ≤ 3600000
  callbackTimeoutMs : TimeoutWithin S.env job.callbackTimeoutMs

def Call.Bounded (S : Setup) : Call → Prop
  | .jobCreate data => ∀ id, (data.row id).Within S
  | .jobUpdate _ data => data.toUpdateJobInput.Within S.platform
  | _ => True

/-- A value that is there or an old one, both of which satisfy `P`. -/
theorem getD_of {α : Type} {P : α → Prop} {o : Option α} {a : α} (ho : ∀ b ∈ o, P b) (ha : P a) :
    P (o.getD a) := by
  cases o with
  | none => exact ha
  | some b => exact ho b rfl

section Rows

variable {S : Setup}

theorem CreateJobInput.Within.row {input : CreateJobInput} (h : input.Within S.platform)
    (id : JobId) : ((input.data S.env).row id).Within S where
  name := h.name
  cronExpression := h.cronExpression
  callbackUrl := h.callbackUrl
  timezone := getD_of h.timezone (by decide)
  maxRetries := h.maxRetries
  backoffMs := h.backoffMs
  callbackTimeoutMs := getD_of (P := TimeoutWithin S.env)
    (fun ms hms => Or.inl (h.callbackTimeoutMs ms hms)) (Or.inr rfl)

theorem Job.Within.update {job : Job} (h : job.Within S) {data : JobUpdate}
    (hdata : data.toUpdateJobInput.Within S.platform) : (data.apply job).Within S where
  name := getD_of hdata.name h.name
  cronExpression := getD_of hdata.cronExpression h.cronExpression
  callbackUrl := getD_of hdata.callbackUrl h.callbackUrl
  timezone := getD_of hdata.timezone h.timezone
  maxRetries := getD_of hdata.maxRetries h.maxRetries
  backoffMs := getD_of hdata.backoffMs h.backoffMs
  callbackTimeoutMs := getD_of (P := TimeoutWithin S.env)
    (fun ms hms => Or.inl (hdata.callbackTimeoutMs ms hms)) h.callbackTimeoutMs

/-- An update of other columns than those that are bounded. -/
theorem within_of_none {data : UpdateJobInput} (hname : data.name = none)
    (hcron : data.cronExpression = none) (hurl : data.callbackUrl = none)
    (htz : data.timezone = none) (hmax : data.maxRetries = none)
    (hbackoff : data.backoffMs = none) (htimeout : data.callbackTimeoutMs = none) :
    data.Within S.platform := by
  constructor <;> simp [*]

theorem bounded_of_ofDelivery {b : BullJob} {c : Call} (h : c.ofDelivery b) : c.Bounded S := by
  cases c with
  | jobUpdate id data =>
    rcases h.2 with rfl | rfl | rfl
    · exact within_of_none rfl rfl rfl rfl rfl rfl rfl
    · exact within_of_none rfl rfl rfl rfl rfl rfl rfl
    · exact within_of_none rfl rfl rfl rfl rfl rfl rfl
  | jobCreate data => cases h
  | _ => trivial

theorem bounded_of_ofCheck (c : Call) (h : c.ofCheck) : c.Bounded S := by
  cases c <;> trivial

theorem bounded_createJob {input : CreateJobInput} (h : input.Within S.platform) :
    (createJob S input).Only (Call.Bounded S) := by
  refine Only.bind ((only_assertValidCron S _ _).mono bounded_of_ofCheck) fun _ => ?_
  refine Only.bind ((only_ensureSafeCallback S _).mono bounded_of_ofCheck) fun _ => ?_
  refine Only.bind (only_await h.row) fun job => ?_
  exact Only.bind (only_await trivial) fun _ => only_ret _

theorem bounded_updateJob (id : JobId) {data : UpdateJobInput} (h : data.Within S.platform) :
    (updateJob S id data).Only (Call.Bounded S) := by
  refine Only.bind ((only_checkCronUpdate S id data).mono bounded_of_ofCheck) fun found => ?_
  split
  · refine Only.bind ((only_ensureSafeUpdate S data).mono bounded_of_ofCheck) fun _ => ?_
    refine Only.tryCatch ?_ fun _ => only_ret _
    refine Only.bind (only_await h) fun job => Only.bind (only_await trivial) fun _ => ?_
    exact Only.bind (only_await trivial) fun _ => only_ret _
  · exact only_ret _

/-- A task that the schemas let through stores nothing out of bounds. -/
theorem bounded_start {t : Task} {w w' : World} {p : Promise Response}
    (h : start S t w = some (w', p)) (ht : t.Within S.platform) : p.Only (Call.Bounded S) := by
  cases t with
  | createJob input =>
    cases h
    exact Only.bind (bounded_createJob ht) fun _ => only_ret _
  | updateJob id data =>
    cases h
    exact Only.bind (bounded_updateJob id ht) fun _ => only_ret _
  | setPaused id paused =>
    cases h
    exact Only.bind (bounded_updateJob id (within_of_none rfl rfl rfl rfl rfl rfl rfl))
      fun _ => only_ret _
  | tick =>
    refine (only_start h).mono fun c hc => ?_
    have hc : c.ofTick := hc
    cases c <;> trivial
  | deliver m =>
    refine (only_start h).mono fun c hc => ?_
    obtain ⟨b, hb⟩ := hc
    exact bounded_of_ofDelivery hb
  | trigger id =>
    refine (only_start h).mono fun c hc => ?_
    have hc : c.ofTrigger := hc
    cases c <;> trivial
  | deleteJob id =>
    refine (only_start h).mono fun c hc => ?_
    have hc : c.ofSwitching := hc
    cases c <;> trivial
  | bulkSetEnabled ids enabled =>
    refine (only_start h).mono fun c hc => ?_
    have hc : c.ofSwitching := hc
    cases c <;> trivial

end Rows

/-! ## The table in a run -/

/-- The rows are within bounds, those of the table and all that have been read from it. -/
structure RowsWithin (S : Setup) (s : SystemState) : Prop where
  rows : ∀ job ∈ s.world.db.jobs, job.Within S
  read : ∀ i job, ReadBy i s.trace job → job.Within S

section Runs

variable {S : Setup} {w₀ : World} {s s' : SystemState}

/-- Permits the calls within bounds. -/
def bounding (S : Setup) : Monitor Call.Reply Failure Unit where
  permits _ c := c.Bounded S
  admits _ _ _ := True
  next _ _ _ := ()

theorem bounded_of_live (hr : (system S).Run (Schemed S) (.fresh w₀) s) {i : Nat} {t : Task}
    {c : Call} {k : Except Failure c.Reply → Promise Response} (hi : s.Live i t (.await c k)) :
    c.Bounded S := by
  refine (hr.monitored_ok (bounding S) (fun _ => ()) (fun _ _ _ => True) ?_ ?_ hi).1
  · intro s t w p hok hstart
    exact (bounded_start hstart (hok t rfl)).wp_permitted (fun _ _ hc => hc) ()
  · intro _ _ _ _ _ _ _ _ _
    trivial

theorem within_of_exec (h : ∀ job ∈ s.world.db.jobs, job.Within S) {c : Call}
    (hc : c.Bounded S) {x : Choice} {job : Job} (hjob : job ∈ (World.exec c x s.world).1.db.jobs) :
    job.Within S := by
  cases World.exec_jobs hjob with
  | kept hjob => exact h job hjob
  | created hcall _ hrow _ =>
    subst hcall hrow
    exact hc _
  | @updated j data hj hcall hrow _ =>
    subst hcall hrow
    exact (h j hj).update hc
  | @switched j _ _ hj _ _ hrow =>
    subst hrow
    obtain ⟨hname, hcron, hurl, htz, hmax, hbackoff, htimeout⟩ := h j hj
    exact ⟨hname, hcron, hurl, htz, hmax, hbackoff, htimeout⟩

theorem rows_of_step (h : RowsWithin S s) (hr : (system S).Run (Schemed S) (.fresh w₀) s)
    {e : SystemEvent} (hs : (system S).Step s e s') : ∀ job ∈ s'.world.db.jobs, job.Within S := by
  cases step_stores hs with
  | silent hdb _ =>
    rw [hdb]
    exact h.rows
  | expired hdb _ =>
    rw [hdb]
    exact h.rows
  | @call i tag c k o x hi hs' hreply hdb _ =>
    rw [hdb]
    exact fun job hjob => within_of_exec h.rows (bounded_of_live hr hi) hjob

/-- What is read from the table is a row of it. -/
theorem read_of_step (h : RowsWithin S s) {e : SystemEvent} (hs : (system S).Step s e s')
    {i : Nat} {job : Job} (hread : ReadBy i s'.trace job) : job.Within S := by
  rcases hread with ⟨reply, rows, hm, hjob⟩ | ⟨id, reply, hm⟩
  · rcases hs.called hm with hm | ⟨tag, k, o, _, _, _, _, hseen⟩
    · exact h.read i job (Or.inl ⟨reply, rows, hm, hjob⟩)
    · obtain ⟨x, hexec, _⟩ := attend_seen hseen
      have hrows : s.world.db.jobFindMany = rows := Except.ok.inj hexec
      rw [← hrows] at hjob
      exact h.rows job (List.mem_of_mem_filter hjob)
  · rcases hs.called hm with hm | ⟨tag, k, o, _, _, _, _, hseen⟩
    · exact h.read i job (Or.inr ⟨id, reply, hm⟩)
    · obtain ⟨x, hexec, _⟩ := attend_seen hseen
      have hrow : s.world.db.job? id = some job := Except.ok.inj hexec
      exact h.rows job (Postgres.job?_eq_some.mp hrow).1

theorem RowsWithin.of_run {jobs : List Job} {hjobs : (jobs.map (·.id)).Nodup}
    {clock : Nat → Int} (hwithin : ∀ job ∈ jobs, job.Within S)
    (hr : (system S).Run (Schemed S) (.fresh (.initial jobs hjobs clock)) s) : RowsWithin S s := by
  refine hr.keeps ⟨hwithin, ?_⟩ ?_
  · intro i job hread
    rcases hread with ⟨reply, rows, hm, _⟩ | ⟨id, reply, hm⟩
    · cases hm
    · cases hm
  · intro s e s' hr ih _ hs
    exact ⟨rows_of_step ih hr hs, fun i job hread => read_of_step ih hs hread⟩

/-! ## Requests to callback URLs -/

def Fetch.of (e : ExecutionId) (f : Fetch) : Bool := f.body.executionId = e

theorem exec_fetches (c : Call) (x : Choice) (w : World) (e : ExecutionId) :
    (World.exec c x w).1.fetches.countP (Fetch.of e) =
      w.fetches.countP (Fetch.of e) + if c.callsBack e then 1 else 0 := by
  cases c with
  | fetch url body timeoutMs =>
    simp [World.exec, Fetch.of, Call.callsBack, List.countP_append, List.countP_cons]
  | _ => rfl

theorem attend_fetches (c : Call) (o : Outcome Choice Failure) (w : World) (e : ExecutionId) :
    ((system S).attend c o w).1.fetches.countP (Fetch.of e) ≤
      w.fetches.countP (Fetch.of e) + if c.callsBack e then 1 else 0 := by
  cases o with
  | answered x => exact Nat.le_of_eq (exec_fetches c x w e)
  | rejected failure => exact Nat.le_add_right _ _
  | lost x failure => exact Nat.le_of_eq (exec_fetches c x w e)

/-- Each request was made by a callback. -/
theorem fetches_le_callbacks (hr : Reachable S w₀ s) (hw₀ : w₀.fetches = []) (e : ExecutionId) :
    s.world.fetches.countP (Fetch.of e) ≤ callbacks e s.trace := by
  refine hr.keeps (I := fun s => s.world.fetches.countP (Fetch.of e) ≤ callbacks e s.trace) ?_ ?_
  · exact Nat.le_of_eq (congrArg (List.countP (Fetch.of e)) hw₀)
  · intro s e' s' _ ih _ hs
    cases hs with
    | begin hstart =>
      rw [spawned_fetches, (start_stores hstart).2.2]
      simpa [callbacks, spawned, Entry.calls] using ih
    | @resume i tag c k o hi =>
      have htrace : callbacks e ((system S).resumed s i tag c k o).trace =
          callbacks e s.trace + if c.callsBack e then 1 else 0 := by
        cases hcall : c.callsBack e with
        | true => simp [callbacks, resumed, Entry.calls, hcall]
        | false => simp [callbacks, resumed, Entry.calls, hcall]
      rw [resumed_fetches, htrace]
      exact (attend_fetches c o s.world e).trans (Nat.add_le_add_right ih _)
    | stop hi => simpa [callbacks, halted, Entry.calls] using ih
    | @outside x w hmove =>
      cases x <;> cases hmove <;> simpa [callbacks, moved, Entry.calls] using ih

/-- In runs of requests that passed their schemas every row keeps to the bounds, and an execution
is called back at most 51 times, and once more for each time its message is found stalled. -/
theorem callbacks_within {jobs : List Job} {hjobs : (jobs.map (·.id)).Nodup} {clock : Nat → Int}
    (hwithin : ∀ job ∈ jobs, job.Within S)
    (hr : (system S).Run (Schemed S) (.fresh (.initial jobs hjobs clock)) s) (e : ExecutionId) :
    s.world.fetches.countP (Fetch.of e) = 0 ∨ ∃ m x, s.world.queue[m]? = some x ∧
      x.data.executionId = e ∧
        s.world.fetches.countP (Fetch.of e) ≤ 51 + stalls m s.trace := by
  have hreach : Reachable S (.initial jobs hjobs clock) s := hr.mono fun _ _ _ => trivial
  have hle := fetches_le_callbacks hreach rfl e
  by_cases hnone : s.world.fetches.countP (Fetch.of e) = 0
  · exact Or.inl hnone
  · right
    obtain ⟨m, x, job, hx, hid, henqueued, _, hattempts, hcalls⟩ :=
      callbacks_le_budget hreach e fun h => hnone (Nat.le_zero.mp (h ▸ hle))
    obtain ⟨i, hread⟩ := henqueued.readBy
    have hmax := ((RowsWithin.of_run hwithin hr).read i job hread).maxRetries
    exact ⟨m, x, hx, hid, by omega⟩

end Runs

end CronHive
