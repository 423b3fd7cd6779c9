import CronHive.Footprints

/-!
# Terminal execution states

`processExecutionJob` moves its execution to RUNNING whatever the row says, so a message
that is delivered again after its execution ended runs it again. SUCCESS and DEAD are final
where no delivery looks its execution up after that, and none still runs it at that moment.
-/

namespace CronHive

set_option autoImplicit false

open Async Async.Prog Async.Machine

/-- Where a delivery stands: before its lookup, between the lookup and the last status it
writes, or past that. -/
inductive Attempt where
  | looking
  | running (executionId : ExecutionId)
  | closed
  deriving DecidableEq

def Attempt.next (st : Attempt) : (c : Call) → Except Failure c.Reply → Attempt
  | .executionFindUnique id => fun found =>
      match found with
      | .ok (some _) => .running id
      | _ => st
  | .executionUpdate _ data => fun updated =>
      match updated with
      | .ok _ => if data.status = .RUNNING then st else .closed
      | .error _ => .closed
  | .redisPublish _ => fun published =>
      match published with
      | .ok _ => st
      | .error _ => .closed
  | _ => fun _ => st

/-- An execution is looked up once, and only a running one is written or called back. -/
def Attempt.permits (st : Attempt) : Call → Prop
  | .executionFindUnique _ => st = .looking
  | .executionUpdate id _ => st = .running id
  | .fetch _ body _ => st = .running body.executionId
  | _ => True

def attempts : Monitor Call.Reply Failure Attempt where
  permits := Attempt.permits
  admits _ _ _ := True
  next := Attempt.next

def Call.offAttempt : Call → Prop
  | .executionFindUnique _ => False
  | .executionUpdate _ _ => False
  | .fetch _ _ _ => False
  | _ => True

theorem attempts_permitted (st : Attempt) (c : Call) (h : c.offAttempt) :
    attempts.permits st c := by
  cases c with
  | executionFindUnique id => exact h.elim
  | executionUpdate id data => exact h.elim
  | fetch url body timeoutMs => exact h.elim
  | _ => trivial

theorem wp_offAttempt {α : Type} {p : Promise α} (hp : p.Only Call.offAttempt) (st : Attempt) :
    p.wp attempts st fun _ _ => True :=
  hp.wp_permitted attempts_permitted st

theorem Task.offAttempt {t : Task} (ht : ∀ m, t ≠ .deliver m) {c : Call} (h : t.Calls c) :
    c.offAttempt := by
  cases t with
  | deliver m => exact absurd rfl (ht m)
  | _ => cases c <;> trivial

/-! ## A delivery keeps to its attempt -/

section Delivery

variable (env : Env) (b : BullJob)

theorem offAttempt_of_ofBreaker {jobId : JobId} (c : Call) (h : c.ofBreaker jobId) :
    c.offAttempt := by
  cases c with
  | jobUpdate id data => trivial
  | redisPublish msg => trivial
  | _ => exact h.elim

theorem wp_succeedExecution (statusCode : Nat) (durationMs : Int) :
    (succeedExecution b statusCode durationMs).wp attempts (.running b.data.executionId)
      fun _ _ => True := by
  intro now
  refine (wp_call_bind ..).mpr ⟨rfl, fun _ _ => wp_offAttempt ?_ _, fun _ _ => trivial⟩
  refine Only.bind (Only.bind (only_await trivial) fun _ => only_ret _) fun _ => ?_
  refine Only.bind (only_inc _) fun _ => Only.bind (only_inc _) fun _ => ?_
  exact only_await trivial

theorem wp_deadLetter (errMsg : String) (statusCode : Option Nat) (durationMs : Int) :
    (deadLetter env b.data.executionId b.data.jobId b.attemptNumber errMsg statusCode
      durationMs).wp attempts (.running b.data.executionId) fun _ _ => True := by
  intro now
  refine (wp_call_bind ..).mpr ⟨rfl, fun _ _ => wp_offAttempt ?_ _, fun _ _ => trivial⟩
  refine Only.bind (only_await trivial) fun _ => Only.bind (only_inc _) fun _ => ?_
  refine Only.bind ((only_applyCircuitBreaker env _ _).mono offAttempt_of_ofBreaker) fun _ => ?_
  exact Only.bind (only_await trivial) fun _ => only_await trivial

theorem wp_failAttempt (kind : FailureKind) (statusCode : Option Nat) (message : String)
    (durationMs : Int) :
    (failAttempt env b kind statusCode message durationMs).wp attempts
      (.running b.data.executionId) fun _ _ => True := by
  intro _
  dsimp only
  split
  · exact wp_deadLetter env b _ _ _
  · intro now
    refine (wp_call_bind ..).mpr ⟨rfl, fun _ _ => wp_offAttempt ?_ _, fun _ _ => trivial⟩
    exact Only.bind (only_await trivial) fun _ => only_fail _

theorem wp_runAttempt (job : Job) (execution : Execution) :
    (runAttempt env b job execution).wp attempts (.running b.data.executionId)
      fun _ _ => True := by
  intro now
  refine (wp_call_bind ..).mpr ⟨rfl, fun _ _ => ?_, fun _ _ => trivial⟩
  refine (wp_call_bind ..).mpr ⟨trivial, fun _ _ => ?_, fun _ _ => trivial⟩
  refine (wp_bind ..).mpr (wp_invokeCallback rfl fun _ _ result _ => ?_)
  cases result with
  | ok statusCode durationMs => exact wp_succeedExecution b _ _
  | failed kind statusCode message durationMs => exact wp_failAttempt env b _ _ _ _

theorem wp_lookupJob (jobId : JobId) :
    (lookupJob jobId).wp attempts .looking fun st _ => st = .looking := by
  refine Only.wp (P := fun c => ∃ key id, c = .redisGet key ∨ c = .jobFindUnique id) ?_ ?_
  · refine Only.bind (Only.bind (only_await ⟨_, "", Or.inl rfl⟩) fun value => ?_) fun cached => ?_
    · split <;> exact only_ret _
    · cases cached with
      | some job => exact only_ret _
      | none => exact only_await ⟨jobConfigKey jobId, jobId, Or.inr rfl⟩
  · rintro c ⟨key, id, rfl | rfl⟩
    · exact ⟨trivial, fun _ => rfl⟩
    · exact ⟨trivial, fun _ => rfl⟩

theorem wp_processExecutionJob :
    (processExecutionJob env b).wp attempts .looking fun _ _ => True := by
  refine (wp_bind ..).mpr (wp_mono ?_ (wp_lookupJob b.data.jobId))
  intro st r hst
  subst hst
  cases r with
  | error e => trivial
  | ok job =>
    cases job with
    | none => trivial
    | some job =>
      dsimp only
      split
      · trivial
      · refine (wp_call_bind ..).mpr ⟨rfl, fun found _ => ?_, fun _ _ => trivial⟩
        cases found with
        | none => trivial
        | some execution => exact wp_runAttempt env b job execution

theorem wp_deliver (message : Nat) (token : Token) (b : BullJob) :
    (deliver env message token b).wp attempts .looking fun _ _ => True := by
  refine (wp_bind ..).mpr ((wp_tryCatch ..).mpr ((wp_bind ..).mpr ?_))
  refine wp_mono ?_ (wp_processExecutionJob env b)
  intro st r _
  cases r with
  | ok _ => exact wp_offAttempt (only_await (c := .moveToCompleted message token) trivial) st
  | error e => exact wp_offAttempt (only_await (c := .moveToFailed message token) trivial) st

end Delivery

theorem attempts_begin {S : Setup} (t : Task) (w w' : World) (p : Promise Response)
    (h : start S t w = some (w', p)) : p.wp attempts .looking fun _ _ => True :=
  delivered_begin (wp_deliver S.env · · ·)
    (fun t ht c hc st => attempts_permitted st c (t.offAttempt ht hc)) t w w' p h

/-! ## Attempts in a run -/

/-- The attempt of thread `i`. -/
def attemptAt (tr : List TraceEntry) (i : Nat) : Attempt := attempts.stateAt i .looking tr

/-- A live thread that is running `id`. -/
def Running (s : SystemState) (i : Nat) (id : ExecutionId) : Prop :=
  s.Alive i ∧ attemptAt s.trace i = .running id

instance (s : SystemState) (i : Nat) (id : ExecutionId) : Decidable (Running s i id) :=
  inferInstanceAs (Decidable (_ ∧ _))

section Steps

variable {S : Setup} {w₀ : World} {s s' : SystemState}

theorem attempt_permits (hr : Reachable S w₀ s) {i : Nat} {tag : Task} {c : Call}
    {k : Except Failure c.Reply → Promise Response} (hi : s.Live i tag (.await c k)) :
    (attemptAt s.trace i).permits c :=
  (hr.monitored attempts (fun _ => .looking) (fun _ _ _ => True) attempts_begin
    (fun _ _ _ _ _ _ _ _ => trivial) hi).1

theorem attemptAt_resumed (i : Nat) (tag : Task) (c : Call)
    (k : Except Failure c.Reply → Promise Response) (o : Outcome Choice Failure) :
    attemptAt ((system S).resumed s i tag c k o).trace i =
      (attemptAt s.trace i).next c ((system S).attend c o s.world).2.2 := by
  simp [attemptAt, resumed, Monitor.observe, attempts]

/-- A call takes a thread into an execution only if it looks the execution up. -/
theorem next_running {st : Attempt} {c : Call} {r : Except Failure c.Reply} {id : ExecutionId}
    (h : st.next c r = .running id) :
    st = .running id ∨ ∃ x, c = .executionFindUnique id ∧
      HEq r (Except.ok (ε := Failure) (some (x : Execution))) := by
  cases c with
  | executionFindUnique id' =>
    rcases r with e | _ | x
    · exact Or.inl h
    · exact Or.inl h
    · cases h
      exact Or.inr ⟨x, rfl, .rfl⟩
  | executionUpdate id' data =>
    simp only [Attempt.next] at h
    split at h
    · split at h
      · exact Or.inl h
      · cases h
    · cases h
  | redisPublish msg =>
    simp only [Attempt.next] at h
    split at h
    · exact Or.inl h
    · cases h
  | _ => exact Or.inl h

/-- A thread was running the execution before the step, or the step is its lookup. -/
theorem running_step (hr : Reachable S w₀ s) {e : SystemEvent} (hs : (system S).Step s e s')
    {i : Nat} {id : ExecutionId} (h : Running s' i id) : Running s i id ∨
      ∃ c, s.Awaits i (.executionFindUnique id) ∧ e = .resume i (.answered c) ∧
        ∃ x ∈ s.world.db.executions, x.id = id := by
  obtain ⟨⟨tag, p, hi⟩, hat⟩ := h
  rcases hs.stateAt attempts i .looking with hsame | ⟨tag', op, k, o, hlive, rfl, rfl, -⟩
  · have hat' : attemptAt s.trace i = .running id := hsame.symm.trans hat
    rcases hs.live_cases hi with hi | ⟨op, k, o, hi, _⟩ | ⟨rfl, _⟩
    · exact Or.inl ⟨⟨tag, p, hi⟩, hat'⟩
    · exact Or.inl ⟨⟨tag, _, hi⟩, hat'⟩
    · have hnew : attemptAt s.trace s.threads.length = .looking :=
        attempts.stateAt_of_absent _ fun op reply seen hm =>
          absurd (hr.numbered _ op reply seen hm) (Nat.lt_irrefl _)
      cases hnew.symm.trans hat'
  · rw [attemptAt_resumed] at hat
    rcases next_running hat with hat | ⟨x, rfl, hseen⟩
    · exact Or.inl ⟨⟨tag', _, hlive⟩, hat⟩
    · cases o with
      | answered c =>
        have hfound : s.world.db.execution? id = some x := by
          have := eq_of_heq hseen
          exact Except.ok.inj this
        refine Or.inr ⟨c, ⟨tag', k, hlive⟩, rfl, x, List.mem_of_find?_eq_some hfound, ?_⟩
        simpa using List.find?_some hfound
      | rejected e => cases eq_of_heq hseen
      | lost c e => cases eq_of_heq hseen

/-- A call that takes effect on the tables. -/
def Effective (i : Nat) : SystemEvent → Prop
  | .resume i' (.answered _) => i' = i
  | .resume i' (.lost _ _) => i' = i
  | _ => False

/-- How a step comes to leave the row `y`. -/
inductive RowStep (s : SystemState) (e : SystemEvent) (y : Execution) : Prop where
  | kept (h : y ∈ s.world.db.executions)
  | inserted (hid : y.id = s.world.db.nextExecution) (hstatus : y.status = .PENDING)
  | updated {i : Nat} {data : ExecutionUpdate} {z : Execution} (hz : z ∈ s.world.db.executions)
      (hawait : s.Awaits i (.executionUpdate z.id data)) (heffect : Effective i e)
      (hy : y = data.apply z)

theorem step_rows {e : SystemEvent} (hs : (system S).Step s e s') {y : Execution}
    (hy : y ∈ s'.world.db.executions) : RowStep s e y := by
  cases hs with
  | begin h =>
    rw [spawned_db, (start_stores h).1] at hy
    exact .kept hy
  | @resume i tag op k o h =>
    rw [resumed_db] at hy
    have hexec (c : Choice) (hy : y ∈ (World.exec op c s.world).1.db.executions)
        (ho : Effective i (.resume i o)) : RowStep s (.resume i o) y := by
      rcases World.exec_executions hy with hy | ⟨data, rfl, rfl⟩ | ⟨data, z, hz, rfl, rfl⟩
      · exact .kept hy
      · exact .inserted rfl rfl
      · exact .updated hz ⟨tag, k, h⟩ ho rfl
    cases o with
    | answered c => exact hexec c hy rfl
    | rejected e => exact .kept hy
    | lost c e => exact hexec c hy rfl
  | stop h => exact .kept hy
  | @outside x w h =>
    have hdb : w.db = s.world.db := by cases x <;> cases h <;> rfl
    exact .kept (hdb ▸ hy)

end Steps

/-! ## Final states -/

def TerminalRow (s : SystemState) (id : ExecutionId) : Prop :=
  ∃ x ∈ s.world.db.executions, x.id = id ∧ x.status.terminal

instance (s : SystemState) (id : ExecutionId) : Decidable (TerminalRow s id) :=
  inferInstanceAs (Decidable (∃ x ∈ s.world.db.executions, _))

/-- From `s` to `s'` no terminal status changes, and no delivery that begins after `s`
invokes the callback of an execution that was terminal. -/
def TerminalFinal (s s' : SystemState) : Prop :=
  ∀ x ∈ s.world.db.executions, x.status.terminal →
    (∀ y ∈ s'.world.db.executions, y.id = x.id → y.status = x.status) ∧
    ∀ i url body timeoutMs reply seen, s.threads.length ≤ i →
      Entry.called i (.fetch url body timeoutMs) reply seen ∈ s'.trace → body.executionId ≠ x.id

/-- No lookup of an execution that has ended. -/
def FindsOpen (s : SystemState) : Option Call → Prop
  | some (.executionFindUnique id) => ¬ TerminalRow s id
  | _ => True

/-- No execution ends while another delivery is running it. -/
def EndsAlone (s : SystemState) (i : Nat) : Option Call → Prop
  | some (.executionUpdate id data) =>
      data.status.terminal → (∃ x ∈ s.world.db.executions, x.id = id) →
        ∀ i' < s.threads.length, Running s i' id → i' = i
  | _ => True

def endsOnce (s : SystemState) : SystemEvent → Prop
  | .resume i (.answered _) => FindsOpen s (s.awaiting i) ∧ EndsAlone s i (s.awaiting i)
  | .resume i (.lost _ _) => EndsAlone s i (s.awaiting i)
  | _ => True

instance (s : SystemState) (c : Option Call) : Decidable (FindsOpen s c) := by
  induction c using Option.casesOn with
  | none => exact instDecidableTrue
  | some c => induction c using Call.casesOn <;> unfold FindsOpen <;> infer_instance

instance (s : SystemState) (i : Nat) (c : Option Call) : Decidable (EndsAlone s i c) := by
  induction c using Option.casesOn with
  | none => exact instDecidableTrue
  | some c => induction c using Call.casesOn <;> unfold EndsAlone <;> infer_instance

instance (s : SystemState) (e : SystemEvent) : Decidable (endsOnce s e) := by
  induction e using Async.Event.casesOn with
  | resume i o => induction o using Async.Outcome.casesOn <;> unfold endsOnce <;> infer_instance
  | _ => exact instDecidableTrue

/-- The execution has ended with `status` and nobody runs it. -/
structure Ended (s : SystemState) (id : ExecutionId) (status : ExecutionStatus) : Prop where
  rows : ∀ y ∈ s.world.db.executions, y.id = id → y.status = status
  known : id < s.world.db.nextExecution
  idle : ∀ i, ¬ Running s i id

/-- Whoever runs an execution finds it open. -/
def RunsOpen (s : SystemState) : Prop :=
  ∀ x ∈ s.world.db.executions, x.status.terminal → ∀ i, ¬ Running s i x.id

section Runs

variable {S : Setup} {w₀ : World} {s s' : SystemState}

theorem RunsOpen.ended (h : RunsOpen s) {x : Execution} (hx : x ∈ s.world.db.executions)
    (ht : x.status.terminal) : Ended s x.id x.status where
  rows y hy hid := by
    rw [List.inj_on_of_nodup_map s.world.db.execution_pkey hy hx hid]
  known := s.world.db.execution_known x hx
  idle := h x hx ht

theorem Ended.not_running_step (hr : Reachable S w₀ s) {id : ExecutionId}
    {status : ExecutionStatus} (h : Ended s id status) (ht : status.terminal) {e : SystemEvent}
    (hok : endsOnce s e) (hs : (system S).Step s e s') (i : Nat) : ¬ Running s' i id := by
  intro hrun
  rcases running_step hr hs hrun with hrun | ⟨c, hawait, rfl, x, hx, hid⟩
  · exact h.idle i hrun
  · have hopen : ¬ TerminalRow s id := by
      have hfinds := hok.1
      rw [hawait.awaiting] at hfinds
      exact hfinds
    refine hopen ⟨x, hx, hid, ?_⟩
    rw [h.rows x hx hid]
    exact ht

theorem Ended.step (hr : Reachable S w₀ s) {id : ExecutionId} {status : ExecutionStatus}
    (h : Ended s id status) (ht : status.terminal) {e : SystemEvent} (hok : endsOnce s e)
    (hs : (system S).Step s e s') : Ended s' id status where
  rows y hy hid := by
    cases step_rows hs hy with
    | kept hy => exact h.rows y hy hid
    | inserted hnew _ => exact absurd (hid.symm.trans hnew) (Nat.ne_of_lt h.known)
    | @updated i data z hz hawait _ hyz =>
      obtain ⟨tag, k, hi⟩ := hawait
      have hid' : z.id = id := by rw [← hid, hyz, ExecutionUpdate.apply_id]
      exact absurd ⟨⟨tag, _, hi⟩, hid' ▸ attempt_permits hr hi⟩ (h.idle i)
  known := Nat.lt_of_lt_of_le h.known (step_evolves hs).nextExecution
  idle := h.not_running_step hr ht hok hs

/-- Whoever writes a terminal status is done with the execution. -/
theorem not_running_of_terminal {e : SystemEvent} (hs : (system S).Step s e s') {i : Nat}
    {id : ExecutionId} {data : ExecutionUpdate} (hawait : s.Awaits i (.executionUpdate id data))
    (heffect : Effective i e) (ht : data.status.terminal) : ¬ Running s' i id := by
  rintro ⟨_, hat⟩
  cases hs with
  | @resume i' tag op k o hi =>
    have hi' : i' = i := by
      cases o with
      | answered c => exact heffect
      | rejected e => exact heffect.elim
      | lost c e => exact heffect
    subst hi'
    cases Live.awaits_unique hi hawait
    rw [attemptAt_resumed] at hat
    simp only [Attempt.next] at hat
    split at hat
    · split at hat
      · rename_i hrunning
        rw [hrunning] at ht
        cases ht
      · cases hat
    · cases hat
  | _ => exact heffect.elim

theorem endsOnce.endsAlone {e : SystemEvent} (hok : endsOnce s e) {i i' : Nat}
    {id : ExecutionId} {data : ExecutionUpdate} (heffect : Effective i e)
    (hawait : s.Awaits i (.executionUpdate id data)) (ht : data.status.terminal)
    (hrow : ∃ x ∈ s.world.db.executions, x.id = id) (hrun : Running s i' id) : i' = i := by
  have halone : EndsAlone s i (some (.executionUpdate id data)) := by
    rw [← hawait.awaiting]
    cases e with
    | resume i₀ o =>
      cases o with
      | answered c => exact heffect ▸ hok.2
      | rejected e => exact heffect.elim
      | lost c e => exact heffect ▸ hok
    | _ => exact heffect.elim
  exact halone ht hrow i' hrun.1.lt hrun

theorem runsOpen_step (hr : Reachable S w₀ s) (h : RunsOpen s) {e : SystemEvent}
    (hok : endsOnce s e) (hs : (system S).Step s e s') : RunsOpen s' := by
  intro x hx ht i hrun
  cases step_rows hs hx with
  | kept hx => exact (h.ended hx ht).not_running_step hr ht hok hs i hrun
  | inserted _ hnew =>
    rw [hnew] at ht
    cases ht
  | @updated i₀ data z hz hawait heffect hxz =>
    subst hxz
    rcases running_step hr hs hrun with hrun' | ⟨c, hfind, rfl, _⟩
    · have hi : i = i₀ := hok.endsAlone heffect hawait ht ⟨z, hz, rfl⟩ hrun'
      subst hi
      exact not_running_of_terminal hs hawait heffect ht hrun
    · have hi : i = i₀ := heffect
      subst hi
      cases hfind.awaiting.symm.trans hawait.awaiting

theorem runsOpen_of_run (h : (system S).Run endsOnce (.fresh w₀) s) : RunsOpen s := by
  refine h.keeps (I := RunsOpen) ?_ fun s e s' hr ih hok hs =>
    runsOpen_step (hr.mono fun _ _ _ => trivial) ih hok hs
  intro x _ _ i hrun
  obtain ⟨⟨tag, p, hi⟩, _⟩ := hrun
  simp [State.Live, State.fresh] at hi

/-- Once an execution has ended, nobody calls its callback. -/
theorem Ended.no_fetch_step (hr : Reachable S w₀ s) {id : ExecutionId}
    {status : ExecutionStatus} (h : Ended s id status) {e : SystemEvent}
    (hs : (system S).Step s e s') {i : Nat} {url : String} {body : CallbackBody}
    {timeoutMs : Nat} {reply : Option (Except Failure Nat)} {seen : Except Failure Nat}
    (hm : Entry.called i (.fetch url body timeoutMs) reply seen ∈ s'.trace) :
    Entry.called i (.fetch url body timeoutMs) reply seen ∈ s.trace ∨ body.executionId ≠ id := by
  rcases hs.called hm with hm | ⟨tag, k, o, hi, _⟩
  · exact Or.inl hm
  · refine Or.inr fun hid => h.idle i ⟨⟨tag, _, hi⟩, ?_⟩
    exact hid ▸ attempt_permits hr hi

end Runs

/-- Where executions are neither looked up after they ended nor ended while another delivery
runs them, terminal states are final. -/
theorem terminal_states_final {S : Setup} {w₀ : World} {s s' : SystemState}
    (h : (system S).Run endsOnce (.fresh w₀) s) (h' : (system S).Run endsOnce s s') :
    TerminalFinal s s' := by
  intro x hx ht
  suffices hall : Ended s' x.id x.status ∧
      ∀ i url body timeoutMs reply seen, s.threads.length ≤ i →
        Entry.called i (.fetch url body timeoutMs) reply seen ∈ s'.trace →
          body.executionId ≠ x.id from ⟨hall.1.rows, hall.2⟩
  induction h' with
  | refl =>
    refine ⟨(runsOpen_of_run h).ended hx ht, ?_⟩
    intro i url body timeoutMs reply seen hi hm
    have hr : Reachable S w₀ s := h.mono fun _ _ _ => trivial
    exact absurd (hr.numbered _ _ _ _ hm) (Nat.not_lt.mpr hi)
  | tail h'' hok hs ih =>
    have hr : Reachable S w₀ _ := (h.trans h'').mono fun _ _ _ => trivial
    refine ⟨ih.1.step hr ht hok hs, ?_⟩
    intro i url body timeoutMs reply seen hi hm
    rcases ih.1.no_fetch_step hr hs hm with hm | hne
    · exact ih.2 i url body timeoutMs reply seen hi hm
    · exact hne

/-- A tick enqueues the slot and a delivery of its message writes SUCCESS. -/
def succeededRun : List SystemEvent :=
  [.begin .tick, Sample.answered 0, Sample.answered 0, Sample.answered 0, Sample.answered 0,
    .begin (.deliver 0), Sample.answered 1, Sample.answered 1, Sample.answered 1,
    Sample.answered 1, Sample.answered 1,
    .resume 1 (.answered { exchange := ⟨[], .response 200⟩ }), Sample.answered 1]

def statuses (s : SystemState) : List (ExecutionId × ExecutionStatus) :=
  s.world.db.executions.map fun x => (x.id, x.status)

/-- The rest of that delivery. -/
def reporting : List SystemEvent := [Sample.answered 1, Sample.answered 1, Sample.answered 1]

theorem terminal_states_final_succeeded : ∃ s s',
    (system Sample.setup).run (.fresh Sample.world) succeededRun = some s ∧
      (system Sample.setup).run s reporting = some s' ∧
      statuses s = [(0, .SUCCESS)] ∧ TerminalFinal s s' := by
  have hrun : (((system Sample.setup).runChecked endsOnce (.fresh Sample.world) succeededRun).bind
      fun s => ((system Sample.setup).runChecked endsOnce s reporting).map
        fun _ => statuses s) = some [(0, .SUCCESS)] := by decide +kernel
  obtain ⟨s, hs, hrest⟩ := Option.bind_eq_some_iff.mp hrun
  obtain ⟨s', hs', hstatus⟩ := Option.map_eq_some_iff.mp hrest
  exact ⟨s, s', run_of_runChecked hs, run_of_runChecked hs', hstatus,
    terminal_states_final (.of_runChecked hs) (.of_runChecked hs')⟩

/-- SUCCESS is written, the counter's reset is rejected, and BullMQ delivers again. -/
def redelivery : List SystemEvent :=
  [.resume 1 (.rejected (.store "Connection terminated unexpectedly")), Sample.answered 1,
    .begin (.deliver 0), Sample.answered 2, Sample.answered 2, Sample.answered 2,
    Sample.answered 2, Sample.answered 2, .resume 2 (.answered { exchange := ⟨[], .response 200⟩ })]

theorem redelivered_success_runs_again : ∃ s s', Reachable Sample.setup Sample.world s ∧
    (system Sample.setup).Run anyStep s s' ∧ ¬ TerminalFinal s s' := by
  have hrun : (((system Sample.setup).run (.fresh Sample.world) succeededRun).bind
      fun s => ((system Sample.setup).run s redelivery).map
        fun s' => (statuses s, statuses s')) = some ([(0, .SUCCESS)], [(0, .RUNNING)]) := by
    decide +kernel
  obtain ⟨s, hs, hrest⟩ := Option.bind_eq_some_iff.mp hrun
  obtain ⟨s', hs', hsum⟩ := Option.map_eq_some_iff.mp hrest
  have hmem : (0, .SUCCESS) ∈ statuses s := by simp [(Prod.mk.inj hsum).1]
  have hmem' : (0, .RUNNING) ∈ statuses s' := by simp [(Prod.mk.inj hsum).2]
  obtain ⟨x, hx, hxs⟩ := List.mem_map.mp hmem
  obtain ⟨y, hy, hys⟩ := List.mem_map.mp hmem'
  refine ⟨s, s', .of_run hs fun _ _ _ => trivial, .of_run hs' fun _ _ _ => trivial, fun h => ?_⟩
  obtain ⟨hxid, hxstatus⟩ := Prod.mk.inj hxs
  obtain ⟨hyid, hystatus⟩ := Prod.mk.inj hys
  have hsame : y.status = x.status :=
    (h x hx (by rw [hxstatus]; rfl)).1 y hy (hyid.trans hxid.symm)
  rw [hxstatus, hystatus] at hsame
  cases hsame

end CronHive
