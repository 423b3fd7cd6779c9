import CronHive.DeliveryProtocol
import CronHive.RetryProtocol

/-!
# How often a callback is made

The queue holds one message for each execution, with the attempts its job's row allowed, and each
delivery of a message makes one callback. A delivery that fails uses up an attempt and a stalled
one may be repeated once, so an execution is called back at most once for each attempt, and once
more if its message stalls.
-/

namespace CronHive

set_option autoImplicit false

open Async Async.Prog Async.Machine

/-! ## What is enqueued -/

/-- What a tick or a trigger has read and inserted, up to its next `queue.add`. -/
structure Sender where
  read : List Job
  pending : Option ExecutionId

/-- A message is for the row just inserted, with the options of a job that was read. -/
def senders : Monitor Call.Reply Failure Sender where
  permits st
    | .queueAdd data opts => st.pending = some data.executionId ∧
        ∃ job ∈ st.read, job.id = data.jobId ∧ opts = executionJobOptions job
    | _ => True
  admits _ _ _ := True
  next st
    | .jobFindMany => fun
      | .ok rows => { st with read := rows }
      | .error _ => st
    | .jobFindUnique _ => fun
      | .ok (some row) => { st with read := [row] }
      | _ => st
    | .executionCreate _ => fun
      | .ok x => { st with pending := some x.id }
      | .error _ => st
    | .queueAdd _ _ => fun _ => { st with pending := none }
    | _ => fun _ => st

/-- Thread `i` has read the row from the Job table. -/
def ReadBy (i : Nat) (tr : List TraceEntry) (job : Job) : Prop :=
  (∃ reply rows, Entry.called i .jobFindMany reply (.ok rows) ∈ tr ∧ job ∈ rows) ∨
    ∃ id reply, Entry.called i (.jobFindUnique id) reply (.ok (some job)) ∈ tr

theorem ReadBy.mono {i : Nat} {tr tr' : List TraceEntry} {job : Job} (h : ReadBy i tr job)
    (hsub : tr ⊆ tr') : ReadBy i tr' job := by
  rcases h with ⟨reply, rows, hm, hjob⟩ | ⟨id, reply, hm⟩
  · exact Or.inl ⟨reply, rows, hsub hm, hjob⟩
  · exact Or.inr ⟨id, reply, hsub hm⟩

/-- The message was added with the options of a row that its thread had read before. -/
def EnqueuedFor (tr : List TraceEntry) (data : ExecutionJobData) (job : Job) : Prop :=
  ∃ i pre seen post,
    tr = pre ++ Entry.called i (.queueAdd data (executionJobOptions job)) (some (.ok ())) seen ::
      post ∧ ReadBy i pre job

theorem EnqueuedFor.append {tr : List TraceEntry} {data : ExecutionJobData} {job : Job}
    (h : EnqueuedFor tr data job) (x : TraceEntry) : EnqueuedFor (tr ++ [x]) data job := by
  obtain ⟨i, pre, seen, post, rfl, hread⟩ := h
  exact ⟨i, pre, seen, post ++ [x], by simp, hread⟩

theorem EnqueuedFor.readBy {tr : List TraceEntry} {data : ExecutionJobData} {job : Job}
    (h : EnqueuedFor tr data job) : ∃ i, ReadBy i tr job := by
  obtain ⟨i, pre, seen, post, rfl, hread⟩ := h
  exact ⟨i, hread.mono (List.subset_append_left _ _)⟩

section Programs

variable {st : Sender}

theorem senders_claimSlot {job : Job} (hjob : job ∈ st.read) (slot : Int) (lock : JobLock) :
    (claimSlot job slot lock).wp senders st fun st' _ => st'.read = st.read := by
  have hrelease (st' : Sender) (hst : st'.read = st.read) :
      (releaseJobLock lock).wp senders st' fun st'' _ => st''.read = st.read :=
    (wp_call ..).mpr ⟨trivial, fun _ _ => hst⟩
  have hrethrow (st' : Sender) (e : Failure) (hst : st'.read = st.read) :
      ((releaseJobLock lock).bind fun _ => (.fail e : Promise Unit)).wp senders st'
        fun st'' _ => st''.read = st.read := by
    refine (wp_bind ..).mpr (wp_mono ?_ (hrelease st' hst))
    intro st'' r hr
    cases r <;> exact hr
  unfold claimSlot createScheduledExecution
  refine (wp_tryCatch ..).mpr ((wp_bind ..).mpr ((wp_tryCatch ..).mpr ((wp_bind ..).mpr ?_)))
  refine (wp_call ..).mpr ⟨trivial, fun r _ => ?_⟩
  cases r with
  | ok x =>
    refine (wp_bind ..).mpr ((wp_call ..).mpr ⟨⟨rfl, job, hjob, rfl, rfl⟩, fun r _ => ?_⟩)
    cases r with
    | ok _ => exact fun _ => rfl
    | error e => exact hrethrow _ e rfl
  | error e =>
    dsimp only
    split
    · intro _
      refine wp_mono ?_ (hrelease _ rfl)
      intro st' r hr
      cases r with
      | ok _ => exact hr
      | error e => exact hrethrow _ e hr
    · exact hrethrow _ e rfl

theorem senders_tickIteration (S : Setup) {job : Job} (hjob : job ∈ st.read) :
    (tickIteration S job).wp senders st fun st' _ => st'.read = st.read := by
  simp only [tickIteration, bind_eq, wp_bind, wp_dateNow]
  intro now
  split
  · rfl
  · rename_i slot _
    simp only [fireSlot, acquireJobLock, bind_eq, wp_bind, wp_randomUUID, wp_call]
    refine fun token => ⟨trivial, fun granted _ => ?_⟩
    cases granted with
    | error e => rfl
    | ok granted =>
      cases granted with
      | false => exact fun _ => rfl
      | true => exact senders_claimSlot hjob slot _

theorem senders_tickLoop (S : Setup) {jobs : List Job} (hjobs : ∀ job ∈ jobs, job ∈ st.read) :
    (tickLoop S jobs).wp senders st fun _ _ => True := by
  induction jobs generalizing st with
  | nil => trivial
  | cons job jobs ih =>
    simp only [tickLoop, bind_eq, wp_bind]
    refine wp_mono ?_ (senders_tickIteration S (hjobs job List.mem_cons_self))
    intro st' r hst
    cases r with
    | error e => trivial
    | ok _ =>
      apply ih
      intro job' hjob'
      rw [hst]
      exact hjobs job' (List.mem_cons_of_mem _ hjob')

theorem senders_tick (S : Setup) : (tick S).wp senders st fun _ _ => True := by
  simp only [tick, bind_eq, wp_bind, wp_inc, wp_call]
  refine ⟨trivial, fun r _ => ?_⟩
  cases r with
  | error e => trivial
  | ok jobs => exact senders_tickLoop S fun _ hjob => hjob

theorem senders_triggerJob (S : Setup) (id : JobId) :
    (triggerJob S id).wp senders st fun _ _ => True := by
  refine (wp_call_bind ..).mpr ⟨trivial, fun row _ => ?_, fun _ _ => trivial⟩
  cases row with
  | none => trivial
  | some job =>
    dsimp only
    split
    · trivial
    · simp only [acquireJobLock, bind_eq, wp_bind, wp_randomUUID, wp_call]
      refine fun token => ⟨trivial, fun granted _ => ?_⟩
      cases granted with
      | error e => trivial
      | ok granted =>
        cases granted with
        | false => trivial
        | true =>
          refine ⟨trivial, fun r _ => ?_⟩
          cases r with
          | error e => exact ⟨trivial, fun r _ => by cases r <;> trivial⟩
          | ok x =>
            refine ⟨⟨rfl, job, List.mem_singleton.mpr rfl, rfl, rfl⟩, fun r _ => ?_⟩
            cases r with
            | error e => exact ⟨trivial, fun r _ => by cases r <;> trivial⟩
            | ok _ => trivial

theorem senders_begin {S : Setup} (t : Task) (w w' : World) (p : Promise Response)
    (h : start S t w = some (w', p)) : p.wp senders ⟨[], none⟩ fun _ _ => True := by
  by_cases htick : t = .tick
  · subst htick
    cases h
    refine (wp_bind ..).mpr (wp_mono ?_ (senders_tick S))
    intro st r _
    cases r <;> trivial
  · by_cases htrigger : ∃ id, t = .trigger id
    · obtain ⟨id, rfl⟩ := htrigger
      cases h
      refine (wp_bind ..).mpr (wp_mono ?_ (senders_triggerJob S id))
      intro st r _
      cases r <;> trivial
    · apply (only_start h).wp_permitted
      intro st c hc
      have hoff := t.offOrders htick (fun id hid => htrigger ⟨id, hid⟩) hc
      cases c with
      | queueAdd data opts => exact hoff.elim
      | _ => trivial

end Programs

/-! ## One message for each execution -/

def senderAt (tr : List TraceEntry) (i : Nat) : Sender := senders.stateAt i ⟨[], none⟩ tr

/-- The executions that messages are for. -/
def messageIds (w : World) : List ExecutionId := (w.queue.map (·.data)).map (·.executionId)

/-- What a thread has pending it has inserted itself, and nobody has enqueued it. -/
structure SentOnce (s : SystemState) : Prop where
  read : ∀ i, ∀ job ∈ (senderAt s.trace i).read, ReadBy i s.trace job
  pending : ∀ i id, (senderAt s.trace i).pending = some id →
    (∃ x, Inserted s.trace i x ∧ x.id = id) ∧ id ∉ messageIds s.world
  inserted : ∀ i x i' x', Inserted s.trace i x → Inserted s.trace i' x' → x.id = x'.id → i = i'
  nodup : (messageIds s.world).Nodup
  options : ∀ msg ∈ s.world.queue, ∃ job, EnqueuedFor s.trace msg.data job ∧
    job.id = msg.data.jobId ∧ msg.attempts = job.maxRetries + 1

section Sent

variable {S : Setup} {w₀ : World} {s s' : SystemState}

theorem senders_permits (hr : Reachable S w₀ s) {i : Nat} {tag : Task} {c : Call}
    {k : Except Failure c.Reply → Promise Response} (hi : s.Live i tag (.await c k)) :
    senders.permits (senderAt s.trace i) c :=
  (hr.monitored senders (fun _ => ⟨[], none⟩) (fun _ _ _ => True) senders_begin
    (fun _ _ _ _ _ _ _ _ => trivial) hi).1

theorem senders_read {st : Sender} {c : Call} {r : Except Failure c.Reply} {job : Job}
    (h : job ∈ (senders.next st c r).read) : job ∈ st.read ∨
      (∃ rows : List Job, job ∈ rows ∧ c = .jobFindMany ∧ HEq r (Except.ok (ε := Failure) rows)) ∨
      ∃ id, c = .jobFindUnique id ∧ HEq r (Except.ok (ε := Failure) (some job)) := by
  cases c with
  | jobFindMany =>
    cases r with
    | ok rows => exact Or.inr (Or.inl ⟨rows, h, rfl, .rfl⟩)
    | error e => exact Or.inl h
  | jobFindUnique id =>
    cases r with
    | ok row =>
      cases row with
      | none => exact Or.inl h
      | some row =>
        cases List.mem_singleton.mp h
        exact Or.inr (Or.inr ⟨id, rfl, .rfl⟩)
    | error e => exact Or.inl h
  | executionCreate data => cases r <;> exact Or.inl h
  | _ => exact Or.inl h

theorem senders_pending {st : Sender} {c : Call} {r : Except Failure c.Reply} {id : ExecutionId}
    (h : (senders.next st c r).pending = some id) :
    (st.pending = some id ∧ ∀ data opts, c ≠ .queueAdd data opts) ∨
      ∃ data, ∃ x : Execution, c = .executionCreate data ∧ HEq r (Except.ok (ε := Failure) x) ∧
        x.id = id := by
  cases c with
  | executionCreate data =>
    cases r with
    | ok x =>
      cases h
      exact Or.inr ⟨data, x, rfl, .rfl, rfl⟩
    | error e => exact Or.inl ⟨h, fun _ _ hc => by cases hc⟩
  | queueAdd data opts => cases h
  | jobFindMany => cases r <;> exact Or.inl ⟨h, fun _ _ hc => by cases hc⟩
  | jobFindUnique id' =>
    refine Or.inl ⟨?_, fun _ _ hc => by cases hc⟩
    cases r with
    | ok row => cases row <;> exact h
    | error e => exact h
  | _ => exact Or.inl ⟨h, fun _ _ hc => by cases hc⟩

/-- A message keeps its data and its attempts. -/
def SameOrder (x y : Message) : Prop := y.data = x.data ∧ y.attempts = x.attempts

theorem sameOrder_modify {q : Bull} {m : Nat} {f : Message → Message}
    (hf : ∀ x, SameOrder x (f x)) : ∀ y ∈ q.modify m f, ∃ x ∈ q, SameOrder x y := by
  intro y hy
  obtain ⟨n, hn⟩ := List.getElem?_of_mem hy
  rw [Bull.modify, List.getElem?_modify] at hn
  obtain ⟨x, hx, rfl⟩ := Option.map_eq_some_iff.mp hn
  refine ⟨x, List.mem_of_getElem? hx, ?_⟩
  split
  · exact hf x
  · exact ⟨rfl, rfl⟩

theorem Bull.completed_order (token : Token) (x : Message) : SameOrder x (completed token x) := by
  unfold completed
  split <;> exact ⟨rfl, rfl⟩

theorem Bull.failed_order (token : Token) (x : Message) : SameOrder x (failed token x) := by
  unfold failed
  split
  · split <;> exact ⟨rfl, rfl⟩
  · exact ⟨rfl, rfl⟩

theorem Bull.stalled_order (x : Message) : SameOrder x (stalled x) := by
  unfold stalled
  split
  · split <;> exact ⟨rfl, rfl⟩
  · exact ⟨rfl, rfl⟩

/-- How a message comes to be in the queue. -/
theorem exec_messages {c : Call} {a : Choice} {w : World} {y : Message}
    (h : y ∈ (World.exec c a w).1.queue) : (∃ x ∈ w.queue, SameOrder x y) ∨
      ∃ data opts, c = .queueAdd data opts ∧ y.data = data ∧ y.attempts = opts.attempts := by
  cases c with
  | queueAdd data opts =>
    rcases List.mem_append.mp h with h | h
    · exact Or.inl ⟨y, h, rfl, rfl⟩
    · cases List.mem_singleton.mp h
      exact Or.inr ⟨data, opts, rfl, rfl, rfl⟩
  | moveToCompleted m token => exact Or.inl (sameOrder_modify (Bull.completed_order token) y h)
  | moveToFailed m token => exact Or.inl (sameOrder_modify (Bull.failed_order token) y h)
  | _ => exact Or.inl ⟨y, h, rfl, rfl⟩

theorem start_messages {t : Task} {w w' : World} {p : Promise Response}
    (h : start S t w = some (w', p)) : ∀ y ∈ w'.queue, ∃ x ∈ w.queue, SameOrder x y := by
  intro y hy
  cases t with
  | deliver m =>
    simp only [start] at h
    split at h
    · cases h
      exact sameOrder_modify (f := fun x => { x with state := .active w.nextToken })
        (fun x => ⟨rfl, rfl⟩) y hy
    · cases h
  | _ =>
    cases h
    exact ⟨y, hy, rfl, rfl⟩

/-- How a message comes to be in the queue, in a step. -/
theorem step_messages (hr : Reachable S w₀ s) {e : SystemEvent} (hs : (system S).Step s e s')
    {y : Message} (hy : y ∈ s'.world.queue) : (∃ x ∈ s.world.queue, SameOrder x y) ∨
      ∃ i, ∃ job ∈ (senderAt s.trace i).read, job.id = y.data.jobId ∧
        y.attempts = job.maxRetries + 1 ∧ ∃ seen, s'.trace = s.trace ++
          [.called i (.queueAdd y.data (executionJobOptions job)) (some (.ok ())) seen] := by
  cases hs with
  | begin hstart =>
    rw [spawned_queue] at hy
    exact Or.inl (start_messages hstart y hy)
  | @resume i tag c k o hi =>
    rw [resumed_queue] at hy
    rcases attend_cases (M := system S) c o s.world with ⟨_, hw, _⟩ | ⟨a, hw, hreply, _⟩
    · rw [hw] at hy
      exact Or.inl ⟨y, hy, rfl, rfl⟩
    · rw [hw] at hy
      rcases exec_messages hy with hold | ⟨data, opts, rfl, rfl, hattempts⟩
      · exact Or.inl hold
      · obtain ⟨_, job, hjob, hid, rfl⟩ := senders_permits hr hi
        refine Or.inr ⟨i, job, hjob, hid, hattempts, ((system S).attend _ o s.world).2.2, ?_⟩
        simp only [resumed, hreply]
        rfl
  | stop _ => exact Or.inl ⟨y, hy, rfl, rfl⟩
  | @outside x w hx =>
    cases x with
    | expire key =>
      cases hx
      exact Or.inl ⟨y, hy, rfl, rfl⟩
    | stall m =>
      cases hx
      exact Or.inl (sameOrder_modify Bull.stalled_order y hy)

/-- A step adds a message only for what its thread has pending, and then nothing is pending. -/
theorem step_messageIds (hr : Reachable S w₀ s) {e : SystemEvent} (hs : (system S).Step s e s') :
    messageIds s'.world = messageIds s.world ∨
      ∃ i id, (senderAt s.trace i).pending = some id ∧ (senderAt s'.trace i).pending = none ∧
        messageIds s'.world = messageIds s.world ++ [id] := by
  have hsame {w w' : World} (h : w'.queue.map (·.data) = w.queue.map (·.data)) :
      messageIds w' = messageIds w := by rw [messageIds, h, messageIds]
  cases hs with
  | begin hstart => exact Or.inl (hsame (by rw [spawned_queue, start_queue_data hstart]))
  | @resume i tag c k o hi =>
    rcases attend_cases (M := system S) c o s.world with ⟨_, hw, _⟩ | ⟨a, hw, _⟩
    · exact Or.inl (hsame (by rw [resumed_queue, hw]))
    · by_cases hadd : ∃ data opts, c = .queueAdd data opts
      · obtain ⟨data, opts, rfl⟩ := hadd
        obtain ⟨hpending, _⟩ := senders_permits hr hi
        refine Or.inr ⟨i, data.executionId, hpending, ?_, ?_⟩
        · simp only [senderAt, resumed, Monitor.stateAt_append, Monitor.observe, if_true]
          rfl
        · simp only [messageIds, resumed_queue, hw]
          simp [system, World.exec, Bull.add]
      · refine Or.inl (hsame ?_)
        rw [resumed_queue, hw]
        cases c with
        | queueAdd data opts => exact absurd ⟨data, opts, rfl⟩ hadd
        | moveToCompleted m token => exact Bull.modify_data (Bull.completed_data token)
        | moveToFailed m token => exact Bull.modify_data (Bull.failed_data token)
        | _ => rfl
  | stop _ => exact Or.inl rfl
  | @outside x w hx =>
    cases x with
    | expire key =>
      cases hx
      exact Or.inl rfl
    | stall m =>
      cases hx
      exact Or.inl (hsame (Bull.modify_data Bull.stalled_data))

namespace SentOnce

theorem read_step (h : SentOnce s) {e : SystemEvent} (hs : (system S).Step s e s') {i : Nat}
    {job : Job} (hjob : job ∈ (senderAt s'.trace i).read) : ReadBy i s'.trace job := by
  rcases hs.stateAt senders i ⟨[], none⟩ with hsame | ⟨tag, c, k, o, hi, rfl, rfl, hnext⟩
  · rw [senderAt, hsame] at hjob
    exact (h.read i job hjob).mono hs.trace_subset
  · rw [senderAt, hnext] at hjob
    rcases senders_read hjob with hold | ⟨rows, hmem, rfl, hseen⟩ | ⟨id, rfl, hseen⟩
    · exact (h.read i job hold).mono hs.trace_subset
    · refine Or.inl ⟨((system S).attend .jobFindMany o s.world).2.1, rows, ?_, hmem⟩
      rw [← eq_of_heq hseen]
      exact called_resumed rfl
    · refine Or.inr ⟨id, ((system S).attend (.jobFindUnique id) o s.world).2.1, ?_⟩
      rw [← eq_of_heq hseen]
      exact called_resumed rfl

/-- The id of a row that a step inserts is in no message. -/
theorem fresh (hn : RowsNamed s) {data : ExecutionCreate} {o : Outcome Choice Failure}
    {x : Execution}
    (hx : ((system S).attend (.executionCreate data) o s.world).2.1 = some (.ok x)) :
    x.id = s.world.db.nextExecution ∧ x.id ∉ messageIds s.world := by
  obtain ⟨_, hrow, _⟩ := attend_insert hx
  have hid : x.id = s.world.db.nextExecution := by
    rw [hrow]
    rfl
  refine ⟨hid, fun hm => ?_⟩
  obtain ⟨d, hd, hdid⟩ := List.mem_map.mp hm
  obtain ⟨i, y, hy, hyid, _⟩ := hn.queued d hd
  have hlt := (hn.inserted i y hy).1
  rw [hyid, hdid, hid] at hlt
  exact Nat.lt_irrefl _ hlt

theorem inserted_step (h : SentOnce s) (hn : RowsNamed s) {e : SystemEvent}
    (hs : (system S).Step s e s') {i i' : Nat} {x x' : Execution} (hx : Inserted s'.trace i x)
    (hx' : Inserted s'.trace i' x') (hid : x.id = x'.id) : i = i' := by
  have hnew {j j' : Nat} {y y' : Execution} (hy : Inserted s.trace j y) {tag : Task}
      {data : ExecutionCreate} {k : Except Failure Execution → Promise Response}
      {o : Outcome Choice Failure} (_ : s.Live j' tag (.await (.executionCreate data) k))
      (hy' : ((system S).attend (.executionCreate data) o s.world).2.1 = some (.ok y')) :
      y.id ≠ y'.id := by
    intro heq
    have hlt := (hn.inserted j y hy).1
    rw [heq, (fresh hn hy').1] at hlt
    exact Nat.lt_irrefl _ hlt
  rcases hx.step hs with hx | ⟨tag, data, k, o, hi, he, _, hreply⟩
  · rcases hx'.step hs with hx' | ⟨tag, data, k, o, hi, _, _, hreply⟩
    · exact h.inserted i x i' x' hx hx' hid
    · exact absurd hid (hnew hx hi hreply)
  · rcases hx'.step hs with hx' | ⟨_, _, _, _, _, he', _, _⟩
    · exact absurd hid.symm (hnew hx' hi hreply)
    · rw [he] at he'
      injection he'

theorem pending_step (hr : Reachable S w₀ s) (h : SentOnce s) (hn : RowsNamed s) {e : SystemEvent}
    (hs : (system S).Step s e s') {i : Nat} {id : ExecutionId}
    (hid : (senderAt s'.trace i).pending = some id) :
    (∃ x, Inserted s'.trace i x ∧ x.id = id) ∧ id ∉ messageIds s'.world := by
  have hinserted : (senderAt s.trace i).pending = some id ∨
      ∃ tag data k o x, s.Live i tag (.await (.executionCreate data) k) ∧ e = .resume i o ∧
        s' = (system S).resumed s i tag (.executionCreate data) k o ∧
        ((system S).attend (.executionCreate data) o s.world).2.2 = .ok x ∧ x.id = id := by
    rcases hs.stateAt senders i ⟨[], none⟩ with hsame | ⟨tag, c, k, o, hi, he, hs', hnext⟩
    · rw [senderAt, hsame] at hid
      exact Or.inl hid
    · rw [senderAt, hnext] at hid
      rcases senders_pending hid with ⟨hold, _⟩ | ⟨data, x, rfl, hseen, hx⟩
      · exact Or.inl hold
      · exact Or.inr ⟨tag, data, k, o, x, hi, he, hs', eq_of_heq hseen, hx⟩
  have hfree (hfree : id ∉ messageIds s.world)
      (hone : ∀ j, (senderAt s.trace j).pending = some id → j = i) :
      id ∉ messageIds s'.world := by
    rcases step_messageIds hr hs with hids | ⟨j, id', hj, hnone, hids⟩
    · rwa [hids]
    · rw [hids]
      intro hm
      rcases List.mem_append.mp hm with hm | hm
      · exact hfree hm
      · cases List.mem_singleton.mp hm
        rw [hone j hj, hid] at hnone
        cases hnone
  rcases hinserted with hold | ⟨tag, data, k, o, x, hi, rfl, rfl, hseen, rfl⟩
  · obtain ⟨⟨x, hx, hxid⟩, hout⟩ := h.pending i id hold
    refine ⟨⟨x, hx.mono hs.trace_subset, hxid⟩, hfree hout fun j hj => ?_⟩
    obtain ⟨⟨y, hy, hyid⟩, _⟩ := h.pending j id hj
    exact h.inserted j y i x hy hx (hyid.trans hxid.symm)
  · have hreply := attend_ok hseen
    refine ⟨⟨x, ⟨data, _, called_resumed hreply⟩, rfl⟩, hfree (fresh hn hreply).2 fun j hj => ?_⟩
    obtain ⟨⟨y, hy, hyid⟩, _⟩ := h.pending j x.id hj
    have hlt := (hn.inserted j y hy).1
    rw [hyid, (fresh hn hreply).1] at hlt
    exact absurd hlt (Nat.lt_irrefl _)

theorem step (hr : Reachable S w₀ s) (h : SentOnce s) (hn : RowsNamed s) {e : SystemEvent}
    (hs : (system S).Step s e s') : SentOnce s' where
  read i job hjob := h.read_step hs hjob
  pending i id hid := pending_step hr h hn hs hid
  inserted i x i' x' hx hx' hid := h.inserted_step hn hs hx hx' hid
  nodup := by
    rcases step_messageIds hr hs with hids | ⟨i, id, hid, _, hids⟩
    · rw [hids]
      exact h.nodup
    · rw [hids]
      have hout := (h.pending i id hid).2
      exact List.nodup_append.mpr ⟨h.nodup, List.nodup_singleton id,
        fun a ha b hb heq => hout (List.mem_singleton.mp hb ▸ heq ▸ ha)⟩
  options y hy := by
    rcases step_messages hr hs hy with ⟨x, hx, hdata, hattempts⟩ |
      ⟨i, job, hjob, hid, hattempts, seen, htrace⟩
    · obtain ⟨job, hjob, hid, hmax⟩ := h.options x hx
      obtain ⟨entry, htrace⟩ := hs.traced
      rw [htrace, hdata]
      exact ⟨job, hjob.append entry, hid, by rw [hattempts, hmax]⟩
    · rw [htrace]
      exact ⟨job, ⟨i, s.trace, seen, [], rfl, h.read i job hjob⟩, hid, hattempts⟩

theorem of_reachable {jobs : List Job} {hjobs : (jobs.map (·.id)).Nodup} {clock : Nat → Int}
    (hr : Reachable S (.initial jobs hjobs clock) s) : SentOnce s := by
  refine hr.keeps ⟨?_, ?_, ?_, ?_, ?_⟩ fun s e s' hr ih _ hs =>
    ih.step hr (rowsNamed_of_reachable hr) hs
  · intro i job hjob
    cases hjob
  · intro i id hid
    cases hid
  · intro i x i' x' hx
    obtain ⟨data, seen, hm⟩ := hx
    cases hm
  · exact List.nodup_nil
  · intro msg hmsg
    cases hmsg

end SentOnce

end Sent

/-! ## One delivery for each attempt and the first stall -/

/-- How often BullMQ has found message `m` stalled. -/
def stalls (m : Nat) (tr : List TraceEntry) : Nat := tr.count (.outside (.stall m))

/-- The attempts of a message that its deliveries have used up, or the one under way uses. -/
def Message.spent (x : Message) : Nat :=
  match x.state with
  | .waiting => x.attemptsMade
  | .active _ => x.attemptsMade + 1
  | .completed => x.attempts
  | .failed => x.attempts

/-- The deliveries that stalls have given back. -/
def Message.recovered (x : Message) : Nat := min x.stalledCount maxStalledCount

/-- A message that is not settled has attempts left. -/
def Message.Open (x : Message) : Prop :=
  match x.state with
  | .waiting => x.attemptsMade < x.attempts
  | .active _ => x.attemptsMade < x.attempts
  | .completed => True
  | .failed => True

theorem Message.Open.spent_le {x : Message} (h : x.Open) : x.spent ≤ x.attempts := by
  unfold Message.Open at h
  unfold Message.spent
  cases hx : x.state <;> simp only [hx] at h ⊢ <;> omega

section Moves

variable {x : Message}

theorem Message.open_active (h : x.Open) (hx : x.state = .waiting) (token : Token) :
    { x with state := .active token }.Open ∧ x.spent + x.recovered + 1 =
      { x with state := .active token }.spent + { x with state := .active token }.recovered := by
  simp only [Message.Open, hx] at h
  refine ⟨h, ?_⟩
  simp only [Message.spent, Message.recovered, hx]
  omega

theorem Message.open_completed (h : x.Open) (token : Token) :
    (Bull.completed token x).Open ∧ x.spent ≤ (Bull.completed token x).spent ∧
      (Bull.completed token x).stalledCount = x.stalledCount := by
  unfold Bull.completed
  split
  · exact ⟨trivial, h.spent_le, rfl⟩
  · exact ⟨h, Nat.le_refl _, rfl⟩

theorem Message.open_failed (h : x.Open) (token : Token) :
    (Bull.failed token x).Open ∧ x.spent ≤ (Bull.failed token x).spent ∧
      (Bull.failed token x).stalledCount = x.stalledCount := by
  unfold Bull.failed
  split
  · rename_i hx
    split
    · rename_i hmore
      simp only [Message.Open, Message.spent, hx]
      exact ⟨hmore, Nat.le_refl _, trivial⟩
    · exact ⟨trivial, h.spent_le, rfl⟩
  · exact ⟨h, Nat.le_refl _, rfl⟩

/-- The first stall gives a delivery back, the second one fails the message. -/
theorem Message.open_stalled (h : x.Open) : (Bull.stalled x).Open ∧
    x.spent + x.recovered ≤ (Bull.stalled x).spent + (Bull.stalled x).recovered ∧
      (Bull.stalled x).stalledCount ≤ x.stalledCount + 1 := by
  unfold Bull.stalled
  split
  · rename_i token hx
    simp only [Message.Open, hx] at h
    split
    · simp only [Message.Open, Message.spent, Message.recovered, hx]
      exact ⟨h, by omega, Nat.le_refl _⟩
    · simp only [Message.Open, Message.spent, Message.recovered, hx]
      exact ⟨trivial, by omega, Nat.le_refl _⟩
  · exact ⟨h, Nat.le_refl _, Nat.le_succ _⟩

end Moves

/-- A message's deliveries are paid for by its attempts and its first stall. -/
structure Budget (s : SystemState) : Prop where
  within : ∀ m x, s.world.queue[m]? = some x → x.Open ∧
    deliveries m s.trace ≤ x.spent + x.recovered ∧ x.stalledCount ≤ stalls m s.trace
  beyond : ∀ m, s.world.queue.length ≤ m → deliveries m s.trace = 0

namespace Budget

variable {S : Setup} {w₀ : World} {s s' : SystemState}

/-- One message changes, `begun` deliveries begin and `stalled` stalls are found. -/
theorem change (h : Budget s) {m : Nat} {f : Message → Message} (begun stalled : Nat)
    (hqueue : s'.world.queue = s.world.queue.modify m f)
    (hbegun : ∀ k, deliveries k s'.trace = deliveries k s.trace + if k = m then begun else 0)
    (hstalled : ∀ k, stalls k s'.trace = stalls k s.trace + if k = m then stalled else 0)
    (hf : ∀ x, s.world.queue[m]? = some x → x.Open → (f x).Open ∧
      x.spent + x.recovered + begun ≤ (f x).spent + (f x).recovered ∧
        (f x).stalledCount ≤ x.stalledCount + stalled)
    (hm : m < s.world.queue.length ∨ begun = 0) : Budget s' where
  within k y hy := by
    rw [hqueue, Bull.modify, List.getElem?_modify] at hy
    obtain ⟨x, hx, rfl⟩ := Option.map_eq_some_iff.mp hy
    obtain ⟨hopen, hle, hcount⟩ := h.within k x hx
    rw [hbegun, hstalled]
    by_cases hk : m = k
    · subst hk
      obtain ⟨hopen', hspent, hcount'⟩ := hf x hx hopen
      simp only [if_true]
      exact ⟨hopen', by omega, by omega⟩
    · simp only [if_neg hk, if_neg (Ne.symm hk)]
      exact ⟨hopen, hle, hcount⟩
  beyond k hk := by
    rw [hqueue, Bull.modify, List.length_modify] at hk
    rw [hbegun, h.beyond k hk]
    split
    · rename_i hkm
      rcases hm with hm | hm
      · omega
      · rw [hm]
    · rfl

/-- Nothing happens to any message. -/
theorem frame (h : Budget s) (hqueue : s'.world.queue = s.world.queue)
    (hbegun : ∀ k, deliveries k s'.trace = deliveries k s.trace)
    (hstalled : ∀ k, stalls k s'.trace = stalls k s.trace) : Budget s' where
  within k x hx := by
    rw [hqueue] at hx
    rw [hbegun, hstalled]
    exact h.within k x hx
  beyond k hk := by
    rw [hqueue] at hk
    rw [hbegun]
    exact h.beyond k hk

theorem stalls_append (m : Nat) (tr : List TraceEntry) (x : TraceEntry) :
    stalls m (tr ++ [x]) = stalls m tr + if x = .outside (.stall m) then 1 else 0 := by
  unfold stalls
  rw [List.count_append, List.count_singleton]
  simp only [beq_iff_eq]

/-- A message that is added may be delivered as often as its options say. -/
theorem add (h : Budget s) {data : ExecutionJobData} {opts : JobsOptions}
    (hattempts : 0 < opts.attempts) (hqueue : s'.world.queue = s.world.queue.add data opts)
    (hbegun : ∀ k, deliveries k s'.trace = deliveries k s.trace)
    (hstalled : ∀ k, stalls k s'.trace = stalls k s.trace) : Budget s' where
  within k x hx := by
    rw [hbegun, hstalled]
    rw [hqueue, Bull.add] at hx
    by_cases hk : k < s.world.queue.length
    · rw [List.getElem?_append_left hk] at hx
      exact h.within k x hx
    · have hnew : x = ⟨data, opts.attempts, opts.backoffDelay, 0, 0, .waiting⟩ := by
        rw [List.getElem?_append_right (by omega)] at hx
        exact List.mem_singleton.mp (List.mem_of_getElem? hx)
      subst hnew
      rw [h.beyond k (by omega)]
      exact ⟨hattempts, Nat.zero_le _, Nat.zero_le _⟩
  beyond k hk := by
    rw [hqueue, Bull.add, List.length_append] at hk
    rw [hbegun]
    exact h.beyond k (by omega)

theorem call (hr : Reachable S w₀ s) (h : Budget s) {i : Nat} {tag : Task} {c : Call}
    {k : Except Failure c.Reply → Promise Response} {o : Outcome Choice Failure}
    (hi : s.Live i tag (.await c k)) : Budget ((system S).resumed s i tag c k o) := by
  have hbegun (n : Nat) :
      deliveries n ((system S).resumed s i tag c k o).trace = deliveries n s.trace :=
    deliveries_append _ _
  have hstalled (n : Nat) :
      stalls n ((system S).resumed s i tag c k o).trace = stalls n s.trace :=
    (stalls_append n _ _).trans (by rw [if_neg (fun heq => by cases heq), Nat.add_zero])
  have hmodify {m : Nat} {f : Message → Message} (hf : ∀ x : Message, x.Open →
      (f x).Open ∧ x.spent ≤ (f x).spent ∧ (f x).stalledCount = x.stalledCount)
      (hqueue : ((system S).resumed s i tag c k o).world.queue = s.world.queue.modify m f) :
      Budget ((system S).resumed s i tag c k o) := by
    refine h.change 0 0 hqueue (fun n => by rw [hbegun, ite_self, Nat.add_zero])
      (fun n => by rw [hstalled, ite_self, Nat.add_zero]) (fun x _ hopen => ?_) (Or.inr rfl)
    obtain ⟨hopen', hspent, hcount⟩ := hf x hopen
    simp only [Message.recovered, hcount]
    exact ⟨hopen', by omega, Nat.le_refl _⟩
  rcases attend_cases (M := system S) c o s.world with ⟨_, hw, _⟩ | ⟨a, hw, _⟩
  · exact h.frame (by rw [resumed_queue, hw]) hbegun hstalled
  · have hqueue : ((system S).resumed s i tag c k o).world.queue =
        (World.exec c a s.world).1.queue := by
      rw [resumed_queue, hw]
      rfl
    cases c with
    | queueAdd data opts =>
      obtain ⟨_, job, _, _, rfl⟩ := senders_permits hr hi
      exact h.add (Nat.succ_pos _) hqueue hbegun hstalled
    | moveToCompleted m token => exact hmodify (fun x hx => Message.open_completed hx token) hqueue
    | moveToFailed m token => exact hmodify (fun x hx => Message.open_failed hx token) hqueue
    | _ => exact h.frame hqueue hbegun hstalled

theorem step (hr : Reachable S w₀ s) (h : Budget s) {e : SystemEvent}
    (hs : (system S).Step s e s') : Budget s' := by
  cases hs with
  | @begin t w p hstart =>
    have hstalled (k : Nat) : stalls k ((system S).spawned s t w p).trace = stalls k s.trace :=
      (stalls_append k _ _).trans (by rw [if_neg (fun heq => by cases heq), Nat.add_zero])
    by_cases hdeliver : ∃ m, t = .deliver m
    · obtain ⟨m, rfl⟩ := hdeliver
      simp only [system, start] at hstart
      split at hstart
      · rename_i data attempts delay made stalledCount hm
        cases hstart
        refine h.change 1 0 (spawned_queue ..) ?_ ?_ ?_ ?_
        · intro k
          refine (deliveries_append _ _).trans ?_
          simp only [isDelivery, decide_eq_true_eq, @eq_comm _ m]
        · intro k
          rw [ite_self, Nat.add_zero]
          exact hstalled k
        · intro x hx hopen
          cases hm.symm.trans hx
          obtain ⟨hopen', hspent⟩ := Message.open_active hopen rfl s.world.nextToken
          exact ⟨hopen', Nat.le_of_eq hspent, Nat.le_refl _⟩
        · exact Or.inl (List.getElem?_eq_some_iff.mp hm).1
      · cases hstart
    · refine h.frame ?_ ?_ hstalled
      · rw [spawned_queue]
        cases t with
        | deliver m => exact absurd ⟨m, rfl⟩ hdeliver
        | _ =>
          cases hstart
          rfl
      · intro k
        refine (deliveries_append _ _).trans ?_
        cases t with
        | deliver m => exact absurd ⟨m, rfl⟩ hdeliver
        | _ => rfl
  | resume hi => exact h.call hr hi
  | stop hi =>
    refine h.frame rfl (fun k => deliveries_append _ _) fun k => ?_
    exact (stalls_append k _ _).trans (by rw [if_neg (fun heq => by cases heq), Nat.add_zero])
  | @outside x w hx =>
    have hbegun (k : Nat) : deliveries k (moved s x w).trace = deliveries k s.trace :=
      deliveries_append _ _
    cases x with
    | expire key =>
      cases hx
      refine h.frame rfl hbegun fun k => ?_
      exact (stalls_append k _ _).trans (by rw [if_neg (fun heq => by cases heq), Nat.add_zero])
    | stall m =>
      cases hx
      refine h.change 0 1 rfl (fun k => by rw [hbegun, ite_self, Nat.add_zero]) ?_
        (fun x _ hopen => Message.open_stalled hopen) (Or.inr rfl)
      intro k
      refine (stalls_append k _ _).trans ?_
      simp only [Entry.outside.injEq, Outside.stall.injEq, eq_comm]

theorem of_reachable {jobs : List Job} {hjobs : (jobs.map (·.id)).Nodup} {clock : Nat → Int}
    (hr : Reachable S (.initial jobs hjobs clock) s) : Budget s := by
  refine hr.keeps ⟨?_, fun _ _ => rfl⟩ fun s e s' hr ih _ hs => ih.step hr hs
  intro m x hx
  simp [State.fresh, World.initial] at hx

end Budget

/-! ## One callback for each delivery -/

/-- A callback for execution `e`. -/
def Call.callsBack (e : ExecutionId) : Call → Bool
  | .fetch _ body _ => body.executionId = e
  | _ => false

/-- How many callbacks have been made for `e`. -/
def callbacks (e : ExecutionId) (tr : List TraceEntry) : Nat :=
  tr.countP (Entry.calls (Call.callsBack e))

/-- The callback is still to be made. -/
def DeliveryPhase.uncalled : DeliveryPhase → Bool
  | .looking => true
  | .allowed _ => true
  | .ready _ _ => true
  | .marked _ _ _ => true
  | .started _ _ _ => true
  | _ => false

section Callbacks

variable {env : Env} {d : ExecutionJobData} {st : DeliveryPhase} {c : Call}

theorem DeliveryPhase.Permits.uncalled_of_fetch {e : ExecutionId} (h : st.Permits env d c)
    (hc : c.callsBack e = true) : st.uncalled = true ∧ d.executionId = e ∧
      ∀ r, (st.next c r).uncalled = false := by
  cases h with
  | callback job execution n =>
    refine ⟨rfl, by simpa [Call.callsBack] using hc, fun r => ?_⟩
    cases r <;> rfl
  | _ => cases hc

theorem DeliveryPhase.Permits.called_next (h : st.Permits env d c) (hst : st.uncalled = false)
    (r : Except Failure c.Reply) : (st.next c r).uncalled = false := by
  cases h with
  | cache => cases hst
  | job => cases hst
  | execution job => cases hst
  | running job execution n now => cases hst
  | started job execution n => cases hst
  | callback job execution n => cases hst
  | _ => cases r <;> rfl

/-- A delivery makes one callback at most. -/
theorem one_callback {calls : List (Answer Call.Reply Failure)} (e : ExecutionId)
    (h : (protocol env d).Follows .looking calls) :
    (calls.countP fun a => a.op.callsBack e) ≤ 1 := by
  have hkeeps := h.keeps (R := fun st calls => (calls.countP fun a => a.op.callsBack e) ≤ 1 ∧
    (st.uncalled = true → (calls.countP fun a => a.op.callsBack e) = 0)) ⟨by simp, fun _ => rfl⟩ ?_
  · exact hkeeps.1
  · intro st calls a ih ha
    rw [List.countP_append, List.countP_singleton]
    by_cases hc : a.op.callsBack e = true
    · obtain ⟨huncalled, _, hnext⟩ := ha.uncalled_of_fetch hc
      rw [ih.2 huncalled, if_pos hc]
      refine ⟨Nat.le_refl _, fun hst => ?_⟩
      cases (hnext a.seen).symm.trans hst
    · rw [if_neg hc, Nat.add_zero]
      refine ⟨ih.1, fun hst => ih.2 ?_⟩
      by_contra huncalled
      have hcalled := ha.called_next (by simpa using huncalled) a.seen
      cases hcalled.symm.trans hst

end Callbacks

section Runs

variable {S : Setup} {s : SystemState}

/-- Two messages are never for one execution. -/
theorem SentOnce.message_unique (h : SentOnce s) {m m' : Nat} {x x' : Message}
    (hx : s.world.queue[m]? = some x) (hx' : s.world.queue[m']? = some x')
    (hid : x.data.executionId = x'.data.executionId) : m = m' := by
  have hget {n : Nat} {y : Message} (hy : s.world.queue[n]? = some y) :
      (messageIds s.world)[n]? = some y.data.executionId := by
    simp [messageIds, hy]
  have hlt : m < (messageIds s.world).length := (List.getElem?_eq_some_iff.mp (hget hx)).1
  exact (List.getElem?_inj hlt h.nodup).mp (by rw [hget hx, hget hx', hid])

theorem only_delivery_fetches {e : ExecutionId} {c : Call} (hc : c.callsBack e = true) (t : Task)
    (h : t.Calls c) : ∃ m, t = .deliver m := by
  cases c with
  | fetch url body timeoutMs =>
    cases t with
    | deliver m => exact ⟨m, rfl⟩
    | _ => exact h.elim
  | _ => cases hc

/-- A callback is made by a delivery of the message for its execution. -/
theorem callback_delivers {w₀ : World} (hr : Reachable S w₀ s) {e : ExecutionId} {i : Nat}
    (hi : i ∈ callers (Call.callsBack e) s.trace) : ∃ m x, s.world.queue[m]? = some x ∧
      x.data.executionId = e ∧ s.threads[i]?.map (·.tag) = some (.deliver m) := by
  obtain ⟨c, reply, seen, hm, hc⟩ := mem_callers.mp hi
  obtain ⟨tag, htag, hcalls⟩ := hr.called_only (fun _ _ _ _ => only_start) hm
  obtain ⟨m, rfl⟩ := only_delivery_fetches hc tag hcalls
  obtain ⟨d, hd⟩ := delivering_of_tag hr htag
  obtain ⟨calls, post, hsplit⟩ := List.append_of_mem (mem_transcript.mpr ⟨reply, hm⟩)
  have hfollows := delivery_follows hr hd
  rw [hsplit] at hfollows
  obtain ⟨_, hid, _⟩ := hfollows.permits.2.uncalled_of_fetch hc
  obtain ⟨m', hm', hdata⟩ := delivering_iff.mp hd
  cases htag.symm.trans hm'
  obtain ⟨x, hx, rfl⟩ := Option.map_eq_some_iff.mp hdata
  exact ⟨m, x, hx, hid, htag⟩

theorem callbacks_le_deliveries {jobs : List Job} {hjobs : (jobs.map (·.id)).Nodup}
    {clock : Nat → Int} (hr : Reachable S (.initial jobs hjobs clock) s) {m : Nat} {x : Message}
    (hx : s.world.queue[m]? = some x) :
    callbacks x.data.executionId s.trace ≤ deliveries m s.trace := by
  have hlength : (beginners (.deliver m) s.trace).length = deliveries m s.trace := by
    rw [length_beginners, deliveries]
    refine List.countP_congr fun y _ => ?_
    cases y with
    | began i t => cases t <;> simp [isDelivery]
    | _ => simp [isDelivery]
  rw [← hlength]
  refine countP_calls_le (fun i => ?_) fun i hi => ?_
  · by_cases hcalls : (transcript i s.trace).countP (fun a => a.op.callsBack x.data.executionId) = 0
    · omega
    · obtain ⟨a, ha, hcall⟩ := List.countP_pos_iff.mp (Nat.pos_of_ne_zero hcalls)
      obtain ⟨reply, hm⟩ := mem_transcript.mp ha
      obtain ⟨m', _, _, _, htag⟩ := callback_delivers hr (mem_callers.mpr ⟨_, _, _, hm, hcall⟩)
      obtain ⟨d, hd⟩ := delivering_of_tag hr htag
      exact one_callback _ (delivery_follows hr hd)
  · obtain ⟨m', x', hx', hid, htag⟩ := callback_delivers hr hi
    cases (SentOnce.of_reachable hr).message_unique hx' hx hid
    exact mem_beginners (hr.began htag)

end Runs

theorem callbacks_le_budget {S : Setup} {jobs : List Job} {hjobs : (jobs.map (·.id)).Nodup}
    {clock : Nat → Int} {s : SystemState} (hr : Reachable S (.initial jobs hjobs clock) s)
    (e : ExecutionId) (hcalled : callbacks e s.trace ≠ 0) : ∃ m x job,
      s.world.queue[m]? = some x ∧ x.data.executionId = e ∧ EnqueuedFor s.trace x.data job ∧
        job.id = x.data.jobId ∧ x.attempts = job.maxRetries + 1 ∧
          callbacks e s.trace ≤ x.attempts + min (stalls m s.trace) 1 := by
  have hpos : 0 < (callers (Call.callsBack e) s.trace).length := by
    rw [length_callers]
    exact Nat.pos_of_ne_zero hcalled
  obtain ⟨i, hi⟩ := List.exists_mem_of_length_pos hpos
  obtain ⟨m, x, hx, rfl, _⟩ := callback_delivers hr hi
  obtain ⟨job, hread, hid, hattempts⟩ :=
    (SentOnce.of_reachable hr).options x (List.mem_of_getElem? hx)
  obtain ⟨hopen, hbudget, hstalls⟩ := (Budget.of_reachable hr).within m x hx
  have hle := callbacks_le_deliveries hr hx
  have hspent := hopen.spent_le
  simp only [Message.recovered, maxStalledCount] at hbudget
  exact ⟨m, x, job, hx, rfl, hread, hid, hattempts, by omega⟩

/-- In every run an execution is called back at most `maxRetries + 1` times, as the row of its job
said that was read to enqueue it, and once more if BullMQ finds its message stalled. -/
theorem callbacks_bounded {S : Setup} {jobs : List Job} {hjobs : (jobs.map (·.id)).Nodup}
    {clock : Nat → Int} {s : SystemState} (hr : Reachable S (.initial jobs hjobs clock) s)
    (e : ExecutionId) : callbacks e s.trace = 0 ∨ ∃ m x job, s.world.queue[m]? = some x ∧
      x.data.executionId = e ∧ EnqueuedFor s.trace x.data job ∧ job.id = x.data.jobId ∧
        x.attempts = job.maxRetries + 1 ∧
          callbacks e s.trace ≤ job.maxRetries + 1 + min (stalls m s.trace) 1 := by
  by_cases hnone : callbacks e s.trace = 0
  · exact Or.inl hnone
  · obtain ⟨m, x, job, hx, he, hread, hid, hattempts, hle⟩ := callbacks_le_budget hr e hnone
    exact Or.inr ⟨m, x, job, hx, he, hread, hid, hattempts, hattempts ▸ hle⟩

/-- A first delivery is found stalled while its callback is under way, and a second one calls
back as well. -/
def stalledRun : List SystemEvent :=
  [.begin .tick] ++ List.replicate 4 (Sample.answered 0) ++
    [.begin (.deliver 0)] ++ List.replicate 6 (Sample.answered 1) ++ [.outside (.stall 0)] ++
      [.begin (.deliver 0)] ++ List.replicate 6 (Sample.answered 2)

theorem callbacks_bounded_stalled : ∃ s : SystemState, callbacks 0 s.trace = 2 ∧
    ∃ m x job, s.world.queue[m]? = some x ∧ x.data.executionId = 0 ∧
      EnqueuedFor s.trace x.data job ∧ job.id = x.data.jobId ∧ x.attempts = job.maxRetries + 1 ∧
        callbacks 0 s.trace ≤ job.maxRetries + 1 + min (stalls m s.trace) 1 := by
  have hrun : ((system Sample.setup).run (.fresh Sample.world) stalledRun).map
      (fun s => callbacks 0 s.trace) = some 2 := by decide +kernel
  obtain ⟨s, hs, hcalls⟩ := Option.map_eq_some_iff.mp hrun
  have hr : Reachable Sample.setup Sample.world s := .of_run hs fun _ _ _ => trivial
  refine ⟨s, hcalls, (callbacks_bounded hr 0).resolve_left ?_⟩
  rw [hcalls]
  exact Nat.succ_ne_zero 1

end CronHive
