import CronHive.Footprints

/-!
# Execution rows

The columns of an execution agree with its status. Deliveries of one execution may overlap
and their updates come in any order, so each update restores the whole of it.
-/

namespace CronHive

set_option autoImplicit false

open Async Async.Prog Async.Machine

/-- An attempt has ended, for good or not. -/
def ExecutionStatus.ended : ExecutionStatus → Bool
  | .SUCCESS => true
  | .FAILED => true
  | .DEAD => true
  | _ => false

structure Execution.Consistent (x : Execution) : Prop where
  finishedAt : x.finishedAt.isSome ↔ x.status.ended
  startedAt : x.startedAt.isSome ↔ x.status ≠ .PENDING
  success : x.status = .SUCCESS → x.errorMessage = none ∧ x.durationMs.isSome ∧
    ∃ code, x.responseCode = some code ∧ responseOk code = true
  failure : x.status = .FAILED ∨ x.status = .DEAD → x.errorMessage.isSome ∧ x.durationMs.isSome ∧
    ∀ code, x.responseCode = some code → responseOk code = false

/-- The update makes any row consistent that has been started, and unless it starts the row
itself it needs that. -/
structure ExecutionUpdate.Restores (data : ExecutionUpdate) : Prop where
  consistent : ∀ x : Execution, data.status = .RUNNING ∨ x.startedAt.isSome →
    (data.apply x).Consistent
  started : ∀ x : Execution, x.startedAt.isSome → (data.apply x).startedAt.isSome

theorem ExecutionCreate.row_consistent (data : ExecutionCreate) (id : ExecutionId) (now : Int) :
    (data.row id now).Consistent := by
  constructor
  · exact ⟨nofun, nofun⟩
  · exact ⟨nofun, fun h => absurd rfl h⟩
  · exact nofun
  · exact nofun

/-! ## The four updates of a delivery -/

theorem running_restores (startedAt : Int) (attemptNumber : Option Nat) :
    ({ status := .RUNNING
       startedAt := some (some startedAt)
       attemptNumber := attemptNumber
       finishedAt := some none } : ExecutionUpdate).Restores := by
  constructor
  · intro x _
    constructor
    · exact ⟨nofun, nofun⟩
    · exact ⟨fun _ => nofun, fun _ => rfl⟩
    · exact nofun
    · exact nofun
  · intro x _
    rfl

theorem success_restores (finishedAt durationMs : Int) {statusCode : Nat}
    (h : responseOk statusCode = true) :
    ({ status := .SUCCESS
       finishedAt := some (some finishedAt)
       responseCode := some (some statusCode)
       durationMs := some (some durationMs)
       errorMessage := some none } : ExecutionUpdate).Restores := by
  constructor
  · intro x hx
    have hstarted : x.startedAt.isSome := hx.resolve_left nofun
    constructor
    · exact ⟨fun _ => rfl, fun _ => rfl⟩
    · exact ⟨fun _ => nofun, fun _ => hstarted⟩
    · intro _
      exact ⟨rfl, rfl, statusCode, rfl, h⟩
    · exact nofun
  · exact fun x h => h

/-- FAILED and DEAD are written alike. -/
theorem failure_restores {status : ExecutionStatus} (hstatus : status = .FAILED ∨ status = .DEAD)
    (finishedAt durationMs : Int) (errMsg : String) {statusCode : Option Nat}
    (h : ∀ code ∈ statusCode, responseOk code = false) :
    ({ status := status
       finishedAt := some (some finishedAt)
       responseCode := some statusCode
       durationMs := some (some durationMs)
       errorMessage := some (some errMsg) } : ExecutionUpdate).Restores := by
  constructor
  · intro x hx
    have hstarted : x.startedAt.isSome := by
      rcases hx with hrunning | hx
      · have heq : status = .RUNNING := hrunning
        subst heq
        rcases hstatus with hstatus | hstatus <;> cases hstatus
      · exact hx
    constructor
    · refine ⟨fun _ => ?_, fun _ => rfl⟩
      rcases hstatus with rfl | rfl
      · rfl
      · rfl
    · refine ⟨fun _ heq => ?_, fun _ => hstarted⟩
      have hpending : status = .PENDING := heq
      subst hpending
      rcases hstatus with hstatus | hstatus <;> cases hstatus
    · intro heq
      have hsuccess : status = .SUCCESS := heq
      subst hsuccess
      rcases hstatus with hstatus | hstatus <;> cases hstatus
    · intro _
      exact ⟨rfl, rfl, h⟩
  · exact fun x h => h

/-! ## A delivery starts the row it ends -/

/-- Holds the execution that the delivery has moved to RUNNING. -/
def writers : Monitor Call.Reply Failure (Option ExecutionId) where
  permits st
    | .executionUpdate id data => data.Restores ∧ (data.status = .RUNNING ∨ st = some id)
    | _ => True
  admits _ _ _ := True
  next st
    | .executionUpdate id data => fun
      | .ok _ => if data.status = .RUNNING then some id else st
      | .error _ => st
    | _ => fun _ => st

def Call.isExecutionUpdate : Call → Prop
  | .executionUpdate _ _ => True
  | _ => False

theorem writers_permitted (st : Option ExecutionId) (c : Call) (h : ¬ c.isExecutionUpdate) :
    writers.permits st c := by
  cases c with
  | executionUpdate id data => exact absurd trivial h
  | _ => trivial

theorem wp_readsOnly {α : Type} {p : Promise α} (hp : p.Only fun c => ¬ c.isExecutionUpdate)
    (st : Option ExecutionId) : p.wp writers st fun _ _ => True :=
  hp.wp_permitted writers_permitted st

section Delivery

variable (env : Env) (b : BullJob)

theorem writers_succeedExecution {statusCode : Nat} (h : responseOk statusCode = true)
    (durationMs : Int) : (succeedExecution b statusCode durationMs).wp writers
      (some b.data.executionId) fun _ _ => True := by
  intro now
  refine (wp_call_bind ..).mpr ⟨⟨success_restores now durationMs h, Or.inr rfl⟩, fun _ _ => ?_,
    fun _ _ => trivial⟩
  refine wp_readsOnly ?_ _
  refine Only.bind (Only.bind (only_await id) fun _ => only_ret _) fun _ => ?_
  exact Only.bind (only_inc _) fun _ => Only.bind (only_inc _) fun _ => only_await id

theorem writers_deadLetter (errMsg : String) {statusCode : Option Nat}
    (h : ∀ code ∈ statusCode, responseOk code = false) (durationMs : Int) :
    (deadLetter env b.data.executionId b.data.jobId b.attemptNumber errMsg statusCode
      durationMs).wp writers (some b.data.executionId) fun _ _ => True := by
  intro now
  refine (wp_call_bind ..).mpr ⟨⟨failure_restores (Or.inr rfl) now durationMs errMsg h,
    Or.inr rfl⟩, fun _ _ => ?_, fun _ _ => trivial⟩
  refine wp_readsOnly ?_ _
  refine Only.bind (only_await id) fun _ => Only.bind (only_inc _) fun _ => ?_
  refine Only.bind ?_ fun _ => Only.bind (only_await id) fun _ => only_await id
  refine Only.bind (only_await id) fun job => ?_
  split
  · refine Only.bind (only_await id) fun _ => ?_
    exact Only.bind (only_inc _) fun _ => only_await id
  · exact only_ret _

theorem writers_failAttempt (kind : FailureKind) {statusCode : Option Nat}
    (h : ∀ code ∈ statusCode, responseOk code = false) (message : String) (durationMs : Int) :
    (failAttempt env b kind statusCode message durationMs).wp writers
      (some b.data.executionId) fun _ _ => True := by
  intro _
  dsimp only
  split
  · exact writers_deadLetter env b _ h _
  · intro now
    refine (wp_call_bind ..).mpr ⟨⟨failure_restores (Or.inl rfl) now durationMs _ h, Or.inr rfl⟩,
      fun _ _ => wp_readsOnly ?_ _, fun _ _ => trivial⟩
    exact Only.bind (only_await id) fun _ => only_fail _

theorem writers_runAttempt (job : Job) (execution : Execution) (st : Option ExecutionId) :
    (runAttempt env b job execution).wp writers st fun _ _ => True := by
  intro now
  refine (wp_call_bind ..).mpr ⟨⟨running_restores _ _, Or.inl rfl⟩, fun _ _ => ?_,
    fun _ _ => trivial⟩
  refine (wp_call_bind ..).mpr ⟨trivial, fun _ _ => ?_, fun _ _ => trivial⟩
  refine (wp_bind ..).mpr (wp_invokeCallback trivial fun _ _ result hsound => ?_)
  cases result with
  | ok statusCode durationMs => exact writers_succeedExecution b hsound _
  | failed kind statusCode message durationMs => exact writers_failAttempt env b _ hsound _ _

theorem writers_processExecutionJob :
    (processExecutionJob env b).wp writers none fun _ _ => True := by
  have hlookup : (lookupJob b.data.jobId).Only fun c => ¬ c.isExecutionUpdate := by
    refine Only.bind (Only.bind (only_await id) fun value => ?_) fun cached => ?_
    · split
      · exact only_ret _
      · exact only_ret _
    · cases cached with
      | some job => exact only_ret _
      | none => exact only_await id
  refine (wp_bind ..).mpr (wp_mono ?_ (wp_readsOnly hlookup none))
  intro st r _
  rcases r with e | _ | job
  · trivial
  · trivial
  · dsimp only
    split
    · trivial
    · refine (wp_call_bind ..).mpr ⟨trivial, fun found _ => ?_, fun _ _ => trivial⟩
      cases found with
      | none => trivial
      | some execution => exact writers_runAttempt env b job execution _

theorem writers_deliver (message : Nat) (token : Token) (b : BullJob) :
    (deliver env message token b).wp writers none fun _ _ => True := by
  refine (wp_bind ..).mpr ((wp_tryCatch ..).mpr ((wp_bind ..).mpr ?_))
  refine wp_mono ?_ (writers_processExecutionJob env b)
  intro st r _
  cases r with
  | ok _ => exact (wp_call ..).mpr ⟨trivial, fun _ _ => trivial⟩
  | error e => exact (wp_call ..).mpr ⟨trivial, fun _ _ => trivial⟩

end Delivery

theorem Task.not_executionUpdate {t : Task} (ht : ∀ m, t ≠ .deliver m) {c : Call}
    (h : t.Calls c) : ¬ c.isExecutionUpdate := by
  cases t with
  | deliver m => exact absurd rfl (ht m)
  | _ => cases c <;> first | exact id | exact h.elim

theorem writers_begin {S : Setup} (t : Task) (w w' : World) (p : Promise Response)
    (h : start S t w = some (w', p)) : p.wp writers none fun _ _ => True :=
  delivered_begin (writers_deliver S.env)
    (fun t ht c hc st => writers_permitted st c (t.not_executionUpdate ht hc)) t w w' p h

/-! ## Rows in a run -/

/-- The execution has been started, if it still exists. -/
def Postgres.Started (db : Postgres) (id : ExecutionId) : Prop :=
  id < db.nextExecution ∧ ∀ x ∈ db.executions, x.id = id → x.startedAt.isSome

section Calls

variable {c : Call} {a : Choice} {w : World} {id : ExecutionId}

theorem exec_started (hc : ∀ id data, c = .executionUpdate id data → data.Restores)
    (h : w.db.Started id) : (World.exec c a w).1.db.Started id := by
  constructor
  · exact Nat.lt_of_lt_of_le h.1 (World.exec_evolves c a w).nextExecution
  · intro y hy hid
    rcases World.exec_executions hy with hy | ⟨data, _, rfl⟩ | ⟨data, z, hz, hupdate, rfl⟩
    · exact h.2 y hy hid
    · have hnew : w.db.nextExecution = id := hid
      exact absurd h.1 (Nat.not_lt.mpr (Nat.le_of_eq hnew))
    · exact (hc z.id data hupdate).started z (h.2 z hz hid)

theorem exec_starts (a : Choice) {data : ExecutionUpdate} (hdata : data.Restores)
    (hrunning : data.status = .RUNNING) {x : Execution}
    (hok : (w.db.executionUpdate id data).2 = .ok x) :
    (World.exec (.executionUpdate id data) a w).1.db.Started id := by
  cases hfind : w.db.execution? id with
  | none =>
    simp only [Postgres.executionUpdate, hfind] at hok
    cases hok
  | some row =>
    have hmem : row ∈ w.db.executions := List.mem_of_find?_eq_some hfind
    have hrow : row.id = id := by simpa using List.find?_some hfind
    have hrows : (World.exec (.executionUpdate id data) a w).1.db.executions =
        w.db.executions.map (Postgres.updateExecutionRow id data) := by
      simp only [World.exec, World.withDb, Postgres.executionUpdate, hfind]
      rfl
    constructor
    · have hlt := w.db.execution_known row hmem
      rw [hrow] at hlt
      exact Nat.lt_of_lt_of_le hlt (World.exec_evolves _ a w).nextExecution
    · intro y hy hid
      rw [hrows] at hy
      obtain ⟨z, hz, rfl⟩ := List.mem_map.mp hy
      have hzid : z.id = id := by
        rw [← hid]
        exact (Postgres.updateExecutionRow_keys id data z).1.symm
      rw [Postgres.updateExecutionRow, if_pos hzid]
      apply (hdata.consistent z (Or.inl hrunning)).startedAt.mpr
      rw [ExecutionUpdate.apply_status, hrunning]
      intro hpending
      cases hpending

theorem exec_consistent (h : ∀ x ∈ w.db.executions, x.Consistent)
    (hc : ∀ id data, c = .executionUpdate id data →
      data.Restores ∧ (data.status = .RUNNING ∨ w.db.Started id)) :
    ∀ x ∈ (World.exec c a w).1.db.executions, x.Consistent := by
  intro y hy
  rcases World.exec_executions hy with hy | ⟨data, _, rfl⟩ | ⟨data, z, hz, hupdate, rfl⟩
  · exact h y hy
  · exact data.row_consistent _ _
  · obtain ⟨hdata, hstarted⟩ := hc z.id data hupdate
    apply hdata.consistent
    rcases hstarted with hrunning | hstarted
    · exact Or.inl hrunning
    · exact Or.inr (hstarted.2 z hz rfl)

/-- A delivery has started an execution before the call, or does so by it. -/
theorem writers_next {st : Option ExecutionId} {r : Except Failure c.Reply}
    (h : writers.next st c r = some id) : st = some id ∨
      ∃ data x, c = .executionUpdate id data ∧ data.status = .RUNNING ∧
        HEq r (Except.ok (ε := Failure) (x : Execution)) := by
  cases c with
  | executionUpdate id' data =>
    cases r with
    | error e => exact Or.inl h
    | ok x =>
      simp only [writers] at h
      split at h
      · rename_i hrunning
        cases h
        exact Or.inr ⟨data, x, rfl, hrunning, .rfl⟩
      · exact Or.inl h
  | _ => exact Or.inl h

end Calls

structure RowsConsistent (s : SystemState) : Prop where
  rows : ∀ x ∈ s.world.db.executions, x.Consistent
  started : ∀ i id, writers.stateAt i none s.trace = some id → s.world.db.Started id

section Runs

variable {S : Setup} {w₀ : World} {s s' : SystemState}

theorem writers_permits (hr : Reachable S w₀ s) {i : Nat} {id : ExecutionId}
    {data : ExecutionUpdate} (hi : s.Awaits i (.executionUpdate id data)) :
    data.Restores ∧ (data.status = .RUNNING ∨ writers.stateAt i none s.trace = some id) := by
  obtain ⟨tag, k, hi⟩ := hi
  exact (hr.monitored writers (fun _ => none) (fun _ _ _ => True) writers_begin
    (fun _ _ _ _ _ _ _ _ => trivial) hi).1

theorem started_step (hr : Reachable S w₀ s) {e : SystemEvent} (hs : (system S).Step s e s')
    {id : ExecutionId} (h : s.world.db.Started id) : s'.world.db.Started id := by
  cases step_stores hs with
  | silent hdb _ =>
    rw [hdb]
    exact h
  | expired hdb _ =>
    rw [hdb]
    exact h
  | @call i tag c k o a hi _ _ hdb _ =>
    rw [hdb]
    apply exec_started _ h
    intro id' data hc
    subst hc
    exact (writers_permits hr ⟨tag, k, hi⟩).1

theorem rowsConsistent_step (hr : Reachable S w₀ s) (h : RowsConsistent s) {e : SystemEvent}
    (hs : (system S).Step s e s') : RowsConsistent s' := by
  constructor
  · cases step_stores hs with
    | silent hdb _ =>
      rw [hdb]
      exact h.rows
    | expired hdb _ =>
      rw [hdb]
      exact h.rows
    | @call i tag c k o a hi _ _ hdb _ =>
      rw [hdb]
      apply exec_consistent h.rows
      intro id data hc
      subst hc
      obtain ⟨hdata, hstarted⟩ := writers_permits hr ⟨tag, k, hi⟩
      rcases hstarted with hrunning | hstarted
      · exact ⟨hdata, Or.inl hrunning⟩
      · exact ⟨hdata, Or.inr (h.started i id hstarted)⟩
  · intro i id hstate
    rcases hs.stateAt writers i none with hsame | ⟨tag, c, k, o, hi, rfl, rfl, hnext⟩
    · rw [hsame] at hstate
      exact started_step hr hs (h.started i id hstate)
    · rw [hnext] at hstate
      rcases writers_next hstate with hold | ⟨data, x, rfl, hrunning, hseen⟩
      · exact started_step hr hs (h.started i id hold)
      · obtain ⟨a, hexec, hw, _⟩ := attend_seen (eq_of_heq hseen)
        rw [resumed_db, hw]
        exact exec_starts a (writers_permits hr ⟨tag, k, hi⟩).1 hrunning hexec

/-- Every row is consistent in every state of every run: overlapping deliveries, lost replies
and workers that stop between two statements included. -/
theorem rows_consistent {jobs : List Job} {hjobs : (jobs.map (·.id)).Nodup}
    {clock : Nat → Int} (hr : Reachable S (.initial jobs hjobs clock) s) :
    ∀ x ∈ s.world.db.executions, x.Consistent := by
  have hinv : RowsConsistent s := by
    apply hr.keeps
    · constructor
      · intro x hx
        cases hx
      · intro i id hstate
        cases hstate
    · intro s e s' hr ih _ hs
      exact rowsConsistent_step hr ih hs
  exact hinv.rows

/-- A tick enqueues the slot and the first attempt of its delivery fails. -/
def retriedRun : List SystemEvent :=
  [.begin .tick, Sample.answered 0, Sample.answered 0, Sample.answered 0, Sample.answered 0,
    .begin (.deliver 0), Sample.answered 1, Sample.answered 1, Sample.answered 1,
    Sample.answered 1, Sample.answered 1,
    .resume 1 (.answered { exchange := ⟨[], .response 500⟩ }), Sample.answered 1]

theorem rows_consistent_failed : ∃ s, Reachable Sample.setup Sample.world s ∧
    s.world.db.executions.map (·.status) = [.FAILED] ∧
      ∀ x ∈ s.world.db.executions, x.Consistent := by
  have hrun : ((system Sample.setup).run (.fresh Sample.world) retriedRun).map
      (fun s => s.world.db.executions.map (·.status)) = some [.FAILED] := by decide +kernel
  obtain ⟨s, hs, hstatus⟩ := Option.map_eq_some_iff.mp hrun
  have hr : Reachable Sample.setup Sample.world s := .of_run hs fun _ _ _ => trivial
  exact ⟨s, hr, hstatus, rows_consistent hr⟩

end Runs

end CronHive
