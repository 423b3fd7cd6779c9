import CronHive.Ledger
import Mathlib.Data.List.Infix

/-!
# Messages and their deliveries

A message stays in the queue with the data it was added with, so a delivery is for one
execution of one job for the whole of its life, and the row of that execution, as long as it
is there, belongs to that job.
-/

namespace CronHive

set_option autoImplicit false

open Async Async.Prog Async.Machine

/-! ## What a thread delivers -/

theorem World.exec_queue (c : Call) (a : Choice) (w : World) :
    w.queue.map (·.data) <+: (World.exec c a w).1.queue.map (·.data) := by
  cases c with
  | queueAdd data opts =>
    simp only [World.exec, Bull.add, List.map_append]
    exact List.prefix_append _ _
  | moveToCompleted m token =>
    rw [World.exec, Bull.modify_data (Bull.completed_data token)]
  | moveToFailed m token =>
    rw [World.exec, Bull.modify_data (Bull.failed_data token)]
  | _ => exact List.prefix_rfl

/-- The message thread `i` delivers. -/
def delivering (s : SystemState) (i : Nat) : Option ExecutionJobData :=
  match s.threads[i]? with
  | some ⟨.deliver m, _⟩ => s.world.queue[m]?.map (·.data)
  | _ => none

theorem start_deliver_message {S : Setup} {m : Nat} {w w' : World} {p : Promise Response}
    (h : start S (.deliver m) w = some (w', p)) : ∃ token b,
      w.queue[m]?.map (·.data) = some b.data ∧
        p = (deliver S.env m token b).bind fun _ => .ret .done := by
  simp only [start] at h
  split at h
  · rename_i data attempts backoffDelay attemptsMade stalledCount hm
    cases h
    exact ⟨w.nextToken, ⟨data, attemptsMade, some attempts⟩, by rw [hm]; rfl, rfl⟩
  · cases h

section Steps

variable {S : Setup} {w₀ : World} {s s' : SystemState}

theorem step_queue {e : SystemEvent} (hs : (system S).Step s e s') :
    s.world.queue.map (·.data) <+: s'.world.queue.map (·.data) := by
  cases hs with
  | begin h =>
    rw [spawned_queue, start_queue_data h]
  | @resume i tag c k o h =>
    rw [resumed_queue]
    rcases attend_cases (M := system S) c o s.world with ⟨_, hw, _⟩ | ⟨a, hw, _⟩
    · rw [hw]
    · rw [hw]
      exact World.exec_queue c a s.world
  | stop h => exact List.prefix_rfl
  | @outside x w h =>
    cases x with
    | expire key =>
      cases h
      exact List.prefix_rfl
    | stall m =>
      cases h
      rw [moved, Bull.modify_data Bull.stalled_data]

theorem message_step {e : SystemEvent} (hs : (system S).Step s e s') {m : Nat}
    {d : ExecutionJobData} (h : s.world.queue[m]?.map (·.data) = some d) :
    s'.world.queue[m]?.map (·.data) = some d := by
  obtain ⟨rest, hrest⟩ := step_queue hs
  rw [← List.getElem?_map] at h ⊢
  obtain ⟨hm, hget⟩ := List.getElem?_eq_some_iff.mp h
  rw [← hrest, List.getElem?_append_left hm]
  exact h

/-- A message that was added is there. -/
theorem queued_of_added (hr : Reachable S w₀ s) {i : Nat} {d : ExecutionJobData}
    {opts : JobsOptions} {seen : Except Failure Unit}
    (hm : Entry.called i (.queueAdd d opts) (some (.ok ())) seen ∈ s.trace) :
    d ∈ s.world.queue.map (·.data) := by
  revert hm
  refine hr.keeps (I := fun s => Entry.called i (.queueAdd d opts) (some (.ok ())) seen ∈ s.trace →
    d ∈ s.world.queue.map (·.data)) (fun hm => by cases hm) ?_
  intro s e s' _ ih _ hs hm
  rcases hs.called hm with hm | ⟨tag, k, o, _, _, rfl, hreply, _⟩
  · exact (step_queue hs).subset (ih hm)
  · rcases attend_cases (M := system S) (.queueAdd d opts) o s.world with
      ⟨_, _, hnone⟩ | ⟨c, hw, _⟩
    · rw [hnone] at hreply
      cases hreply
    · rw [resumed_queue, hw]
      simp [system, World.exec, Bull.add]

theorem delivering_iff {i : Nat} {d : ExecutionJobData} : delivering s i = some d ↔
    ∃ m, s.threads[i]?.map (·.tag) = some (.deliver m) ∧
      s.world.queue[m]?.map (·.data) = some d := by
  constructor
  · intro h
    unfold delivering at h
    split at h
    · rename_i m prog hi
      exact ⟨m, by rw [hi]; rfl, h⟩
    · cases h
  · intro h
    obtain ⟨m, hm, h⟩ := h
    obtain ⟨⟨tag, prog⟩, hi, htag⟩ := Option.map_eq_some_iff.mp hm
    cases htag
    unfold delivering
    rw [hi]
    exact h

theorem delivering_step {e : SystemEvent} (hs : (system S).Step s e s') {i : Nat}
    {d : ExecutionJobData} (h : delivering s i = some d) : delivering s' i = some d := by
  obtain ⟨m, hm, hd⟩ := delivering_iff.mp h
  exact delivering_iff.mpr ⟨m, hs.tag hm, message_step hs hd⟩

theorem delivering_of_tag (hr : Reachable S w₀ s) {i m : Nat}
    (hi : s.threads[i]?.map (·.tag) = some (.deliver m)) : ∃ d, delivering s i = some d := by
  induction hr generalizing i m with
  | refl => simp [State.fresh] at hi
  | tail hr _ hs ih =>
    rcases hs.tag_cases hi with hi | ⟨w, p, hstart, rfl, rfl, rfl⟩
    · obtain ⟨d, hd⟩ := ih hi
      exact ⟨d, delivering_step hs hd⟩
    · obtain ⟨token, b, hb, _⟩ := start_deliver_message hstart
      exact ⟨b.data, delivering_iff.mpr ⟨m, hi, message_step hs hb⟩⟩

theorem delivering_before (hr : Reachable S w₀ s) {e : SystemEvent} (hs : (system S).Step s e s')
    {i m : Nat} (hi : s.threads[i]?.map (·.tag) = some (.deliver m)) {d : ExecutionJobData}
    (hd : delivering s' i = some d) : delivering s i = some d := by
  obtain ⟨d', hd'⟩ := delivering_of_tag hr hi
  cases (delivering_step hs hd').symm.trans hd
  exact hd'

theorem delivering_old (hr : Reachable S w₀ s) {e : SystemEvent} (hs : (system S).Step s e s')
    {i : Nat} (hi : i < s.threads.length) : delivering s' i = delivering s i := by
  refine Option.ext fun d => ⟨fun h => ?_, delivering_step hs⟩
  obtain ⟨m, hm, _⟩ := delivering_iff.mp h
  have htag : s.threads[i]?.map (·.tag) = some (.deliver m) := by
    rcases hs.tag_cases hm with htag | ⟨_, _, _, hlast, _⟩
    · exact htag
    · exact absurd hlast (Nat.ne_of_lt hi)
  exact delivering_before hr hs htag h

/-- A delivery keeps to a monitor that knows its message. -/
theorem delivered_monitored {σ : Type} (M : ExecutionJobData → Monitor Call.Reply Failure σ)
    (st₀ : σ) (Q : σ → Prop) (hadmits : ∀ d st c r, (M d).admits st c r)
    (hdeliver : ∀ m token b, (deliver S.env m token b).wp (M b.data) st₀ fun st _ => Q st)
    (hr : Reachable S w₀ s) {i m : Nat} {p : Promise Response} (hi : s.Live i (.deliver m) p)
    {d : ExecutionJobData} (hd : delivering s i = some d) :
    p.wp (M d) ((M d).stateAt i st₀ s.trace) fun st _ => Q st := by
  induction hr generalizing i m p d with
  | refl => simp [State.Live, State.fresh] at hi
  | @tail s s' e hr _ hs ih =>
    cases hs with
    | @begin t w q h =>
      have hs : (system S).Step s (.begin t) _ := .begin h
      simp only [spawned, Monitor.stateAt_append, Monitor.observe]
      rcases live_spawned hi with hi | ⟨rfl, rfl, rfl⟩
      · exact ih hi (delivering_before hr hs (Live.tag hi) hd)
      · obtain ⟨token, b, hb, rfl⟩ := start_deliver_message h
        have hdata : d = b.data := by
          have hself := delivering_iff.mpr ⟨m, Live.tag live_spawned_self, message_step hs hb⟩
          exact Option.some.inj (hd.symm.trans hself)
        subst hdata
        rw [(M b.data).stateAt_of_absent _ fun op reply seen hm =>
          absurd (hr.numbered _ op reply seen hm) (Nat.lt_irrefl _)]
        refine wp_drain _ ((wp_bind ..).mpr (wp_mono ?_ (hdeliver m token b))) _
        intro st r hQ
        cases r <;> exact hQ
    | @resume j tag c k o h =>
      have hs : (system S).Step s (.resume j o) _ := .resume h
      simp only [resumed, Monitor.stateAt_append, Monitor.observe]
      rcases live_resumed hi with ⟨hne, hi⟩ | ⟨rfl, rfl, rfl⟩
      · rw [if_neg (Ne.symm hne)]
        exact ih hi (delivering_before hr hs (Live.tag hi) hd)
      · rw [if_pos rfl]
        exact wp_drain _ ((ih h (delivering_before hr hs (Live.tag h) hd)).2 _ (hadmits ..)) _
    | @stop j tag c k h =>
      have hs : (system S).Step s (.stop j) _ := .stop h
      simp only [halted, Monitor.stateAt_append, Monitor.observe]
      have hold := (live_halted hi).2
      exact ih hold (delivering_before hr hs (Live.tag hold) hd)
    | @outside x w h =>
      have hs : (system S).Step s (.outside x) _ := .outside h
      simp only [moved, Monitor.stateAt_append, Monitor.observe]
      have hold : s.Live i (.deliver m) p := hi
      exact ih hold (delivering_before hr hs (Live.tag hold) hd)

end Steps

/-! ## What a message is about -/

/-- Holds the row a tick or a trigger has inserted last: the one it may enqueue. -/
def orders : Monitor Call.Reply Failure (Option Execution) where
  permits st
    | .queueAdd data _ => ∃ x, st = some x ∧ x.id = data.executionId ∧ x.jobId = data.jobId
    | _ => True
  admits _
    | .executionCreate data => fun r => ∀ x, r = .ok x → x.jobId = data.jobId
    | _ => fun _ => True
  next st
    | .executionCreate _ => fun
      | .ok x => some x
      | .error _ => none
    | _ => fun _ => st

def Call.offOrders : Call → Prop
  | .queueAdd _ _ => False
  | _ => True

theorem orders_permitted (st : Option Execution) (c : Call) (h : c.offOrders) :
    orders.permits st c := by
  cases c with
  | queueAdd data opts => exact h.elim
  | _ => trivial

theorem orders_claimSlot (job : Job) (slot : Int) (lock : JobLock) (st : Option Execution) :
    (claimSlot job slot lock).wp orders st fun _ _ => True := by
  unfold claimSlot createScheduledExecution releaseJobLock
  simp [orders, forall_except]

theorem orders_tickIteration (S : Setup) (job : Job) (st : Option Execution) :
    (tickIteration S job).wp orders st fun _ _ => True := by
  simp only [tickIteration, bind_eq, wp_bind, wp_dateNow]
  intro now
  split
  · trivial
  · rename_i slot _
    simp only [fireSlot, acquireJobLock, bind_eq, wp_bind, wp_randomUUID, wp_call]
    refine fun token => ⟨trivial, fun granted _ => ?_⟩
    cases granted with
    | error e => trivial
    | ok granted =>
      cases granted with
      | false => exact fun _ => trivial
      | true => exact orders_claimSlot job slot _ st

theorem orders_tickLoop (S : Setup) (jobs : List Job) (st : Option Execution) :
    (tickLoop S jobs).wp orders st fun _ _ => True := by
  induction jobs generalizing st with
  | nil => trivial
  | cons job jobs ih =>
    simp only [tickLoop, bind_eq, wp_bind]
    refine wp_mono ?_ (orders_tickIteration S job st)
    intro st r _
    cases r with
    | error e => trivial
    | ok _ => exact ih st

theorem orders_tick (S : Setup) (st : Option Execution) :
    (tick S).wp orders st fun _ _ => True := by
  simp only [tick, bind_eq, wp_bind, wp_inc, wp_call]
  refine ⟨trivial, fun jobs _ => ?_⟩
  cases jobs with
  | error e => trivial
  | ok jobs => exact orders_tickLoop S jobs st

theorem orders_triggerJob (S : Setup) (id : JobId) (st : Option Execution) :
    (triggerJob S id).wp orders st fun _ _ => True := by
  refine (wp_call_bind ..).mpr ⟨trivial, fun job _ => ?_, fun _ _ => trivial⟩
  cases job with
  | none => trivial
  | some job =>
    dsimp only
    split
    · trivial
    · simp only [acquireJobLock, bind_eq, wp_bind, wp_randomUUID, wp_call]
      refine fun token => ⟨trivial, fun granted _ => ?_⟩
      cases granted with
      | error e => trivial
      | ok granted =>
        cases granted with
        | false => trivial
        | true => simp [createExecution, releaseJobLock, orders, forall_except]

/-- Only ticks and triggers enqueue. -/
theorem Task.offOrders {t : Task} (htick : t ≠ .tick) (htrigger : ∀ id, t ≠ .trigger id) {c : Call}
    (h : t.Calls c) : c.offOrders := by
  cases t with
  | tick => exact absurd rfl htick
  | trigger id => exact absurd rfl (htrigger id)
  | deliver m =>
    obtain ⟨b, hb⟩ := h
    cases c <;> first | exact hb.elim | trivial
  | _ => cases c <;> first | exact h.elim | trivial

theorem orders_begin {S : Setup} (t : Task) (w w' : World) (p : Promise Response)
    (h : start S t w = some (w', p)) : p.wp orders none fun _ _ => True := by
  by_cases htick : t = .tick
  · subst htick
    cases h
    refine (wp_bind ..).mpr (wp_mono ?_ (orders_tick S none))
    intro st r _
    cases r <;> trivial
  · by_cases htrigger : ∃ id, t = .trigger id
    · obtain ⟨id, rfl⟩ := htrigger
      cases h
      refine (wp_bind ..).mpr (wp_mono ?_ (orders_triggerJob S id none))
      intro st r _
      cases r <;> trivial
    · apply (only_start h).wp_permitted
      intro st c hc
      exact orders_permitted st c (t.offOrders htick (fun id hid => htrigger ⟨id, hid⟩) hc)

/-- The rows in the trace, the table and the queue agree on which job an execution is of. -/
structure RowsNamed (s : SystemState) : Prop where
  inserted : ∀ i x, Inserted s.trace i x → x.id < s.world.db.nextExecution ∧
    ∀ y ∈ s.world.db.executions, y.id = x.id → y.jobId = x.jobId
  ordered : ∀ i x, orders.stateAt i none s.trace = some x → Inserted s.trace i x
  queued : ∀ d ∈ s.world.queue.map (·.data),
    ∃ i x, Inserted s.trace i x ∧ x.id = d.executionId ∧ x.jobId = d.jobId

section Rows

variable {S : Setup} {w₀ : World} {s s' : SystemState}

theorem orders_permits (hr : Reachable S w₀ s) {i : Nat} {tag : Task} {c : Call}
    {k : Except Failure c.Reply → Promise Response} (hi : s.Live i tag (.await c k)) :
    orders.permits (orders.stateAt i none s.trace) c := by
  refine (hr.monitored orders (fun _ => none) (fun _ _ _ => True) orders_begin ?_ hi).1
  intro s i tag c k o _ _
  cases c with
  | executionCreate data =>
    intro x hx
    obtain ⟨_, hrow, _⟩ := attend_insert (attend_ok hx)
    rw [hrow]
    rfl
  | _ => trivial

theorem RowsNamed.inserted_step (h : RowsNamed s) {e : SystemEvent}
    (hs : (system S).Step s e s') {i : Nat} {x : Execution} (hx : Inserted s'.trace i x) :
    x.id < s'.world.db.nextExecution ∧
      ∀ y ∈ s'.world.db.executions, y.id = x.id → y.jobId = x.jobId := by
  have hev := step_evolves hs
  rcases hx.step hs with hx | ⟨tag, data, k, o, _, _, rfl, hreply⟩
  · obtain ⟨hlt, hrows⟩ := h.inserted i x hx
    refine ⟨Nat.lt_of_lt_of_le hlt hev.nextExecution, fun y hy hid => ?_⟩
    obtain ⟨y₀, hy₀, hsame, hjob, _⟩ := hev.old y hy (hid ▸ hlt)
    rw [← hjob]
    exact hrows y₀ hy₀ (hsame.trans hid)
  · obtain ⟨_, hrow, hexecs, _⟩ := attend_insert hreply
    have hmem :
        x ∈ ((system S).resumed s i tag (.executionCreate data) k o).world.db.executions := by
      rw [resumed_db, hexecs]
      exact List.mem_append_right _ (List.mem_singleton.mpr rfl)
    constructor
    · exact Postgres.execution_known _ x hmem
    · intro y hy hid
      rw [List.inj_on_of_nodup_map (Postgres.execution_pkey _) hy hmem hid]

theorem orders_next {st : Option Execution} {c : Call} {r : Except Failure c.Reply}
    {x : Execution} (h : orders.next st c r = some x) :
    st = some x ∨ ∃ data, c = .executionCreate data ∧ HEq r (Except.ok (ε := Failure) x) := by
  cases c with
  | executionCreate data =>
    cases r with
    | error e => cases h
    | ok x' =>
      cases h
      exact Or.inr ⟨data, rfl, .rfl⟩
  | _ => exact Or.inl h

theorem RowsNamed.ordered_step (h : RowsNamed s) {e : SystemEvent}
    (hs : (system S).Step s e s') {i : Nat} {x : Execution}
    (hx : orders.stateAt i none s'.trace = some x) : Inserted s'.trace i x := by
  rcases hs.stateAt orders i none with hsame | ⟨tag, c, k, o, hi, rfl, rfl, hnext⟩
  · exact (h.ordered i x (hsame.symm.trans hx)).mono hs.trace_subset
  · rcases orders_next (hnext.symm.trans hx) with hold | ⟨data, rfl, hseen⟩
    · exact (h.ordered i x hold).mono hs.trace_subset
    · exact ⟨data, _, called_resumed (attend_ok (eq_of_heq hseen))⟩

theorem RowsNamed.queued_step (hr : Reachable S w₀ s) (h : RowsNamed s) {e : SystemEvent}
    (hs : (system S).Step s e s') {d : ExecutionJobData}
    (hd : d ∈ s'.world.queue.map (·.data)) :
    ∃ i x, Inserted s'.trace i x ∧ x.id = d.executionId ∧ x.jobId = d.jobId := by
  have hold (hd : d ∈ s.world.queue.map (·.data)) :
      ∃ i x, Inserted s'.trace i x ∧ x.id = d.executionId ∧ x.jobId = d.jobId := by
    obtain ⟨i, x, hx, hnames⟩ := h.queued d hd
    exact ⟨i, x, hx.mono hs.trace_subset, hnames⟩
  cases hs with
  | begin hstart =>
    rw [spawned_queue, start_queue_data hstart] at hd
    exact hold hd
  | @resume i tag c k o hi =>
    rw [resumed_queue] at hd
    rcases attend_cases (M := system S) c o s.world with ⟨_, hw, _⟩ | ⟨a, hw, _⟩
    · rw [hw] at hd
      exact hold hd
    · rw [hw] at hd
      rcases exec_queue_data hd with hd | ⟨opts, rfl⟩
      · exact hold hd
      · obtain ⟨x, hst, hnames⟩ := orders_permits hr hi
        exact ⟨i, x, (h.ordered i x hst).mono (Step.resume hi).trace_subset, hnames⟩
  | stop _ => exact hold hd
  | @outside x w hx =>
    cases x with
    | expire key =>
      cases hx
      exact hold hd
    | stall m =>
      cases hx
      rw [moved, Bull.modify_data Bull.stalled_data] at hd
      exact hold hd

theorem rowsNamed_of_reachable {jobs : List Job} {hjobs : (jobs.map (·.id)).Nodup}
    {clock : Nat → Int} (hr : Reachable S (.initial jobs hjobs clock) s) : RowsNamed s := by
  apply hr.keeps
  · constructor
    · intro i x hx
      obtain ⟨data, seen, hm⟩ := hx
      cases hm
    · intro i x hx
      cases hx
    · intro d hd
      cases hd
  · intro s e s' hr ih _ hs
    constructor
    · intro i x hx
      exact ih.inserted_step hs hx
    · intro i x hx
      exact ih.ordered_step hs hx
    · intro d hd
      exact ih.queued_step hr hs hd

/-- The execution a delivery is for belongs to the job the message names. -/
theorem delivering_row {jobs : List Job} {hjobs : (jobs.map (·.id)).Nodup} {clock : Nat → Int}
    (hr : Reachable S (.initial jobs hjobs clock) s) {i : Nat} {d : ExecutionJobData}
    (hd : delivering s i = some d) {y : Execution} (hy : y ∈ s.world.db.executions)
    (hid : y.id = d.executionId) : y.jobId = d.jobId := by
  have hnamed := rowsNamed_of_reachable hr
  obtain ⟨m, _, hm⟩ := delivering_iff.mp hd
  have hmem : d ∈ s.world.queue.map (·.data) := by
    rw [← List.getElem?_map] at hm
    exact List.mem_of_getElem? hm
  obtain ⟨i', x, hx, hxid, hxjob⟩ := hnamed.queued d hmem
  rw [← hxjob]
  exact (hnamed.inserted i' x hx).2 y hy (hid.trans hxid.symm)

end Rows

end CronHive
