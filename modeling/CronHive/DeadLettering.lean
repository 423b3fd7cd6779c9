import CronHive.Async.Stages
import CronHive.Abandonment
import CronHive.DeadStreak

/-!
# Dead-lettering

`deadLetter` writes the row, the dead-letter queue and the counter of the job one after the
other, without a transaction and without looking at the status it overwrites. The three are
had all or none where a delivery that has begun comes through and a DEAD row is left alone.
-/

namespace CronHive

set_option autoImplicit false

open Async Async.Prog Async.Machine

/-- Where a delivery is in `deadLetter`: before the row is written or past the counter, past
the row, or past the queue too. -/
inductive DeadPhase where
  | idle
  | adding
  | counting
  deriving DecidableEq, Repr

def DeadPhase.index : DeadPhase → Nat
  | .idle => 0
  | .adding => 1
  | .counting => 2

def DeadPhase.next : DeadPhase → (c : Call) → Except Failure c.Reply → DeadPhase
  | .idle, .executionUpdate _ data, .ok _ => if data.status = .DEAD then .adding else .idle
  | .adding, .deadLetterAdd _, .ok _ => .counting
  | _, _, _ => .idle

/-- The delivery of a message dead-letters its own execution, in one order. -/
def deadPhases (d : ExecutionJobData) : Monitor Call.Reply Failure DeadPhase where
  permits
    | .idle, .executionUpdate id _ => id = d.executionId
    | .idle, .deadLetterAdd _ => False
    | .idle, .jobUpdate _ data => data ≠ countDead
    | .idle, _ => True
    | .adding, c => ∃ data, c = .deadLetterAdd data ∧ data.executionId = d.executionId
    | .counting, c => c = .jobUpdate d.jobId countDead
  admits _ _ _ := True
  next := DeadPhase.next

section Delivery

variable (env : Env) (b : BullJob)

theorem deadPhases_off (c : Call) (hc : c.offDeadLetter b) :
    (deadPhases b.data).permits .idle c ∧ ∀ r, (deadPhases b.data).next .idle c r = .idle := by
  cases c with
  | executionUpdate id data =>
    refine ⟨hc.1, fun r => ?_⟩
    cases r with
    | ok x => exact if_neg hc.2
    | error e => rfl
  | deadLetterAdd data => exact hc.elim
  | jobUpdate id data =>
    have hdata : data = clearDead := hc
    subst hdata
    refine ⟨?_, fun _ => rfl⟩
    intro h
    cases h
  | _ => exact ⟨trivial, fun _ => rfl⟩

theorem deadPhases_applyCircuitBreaker :
    (applyCircuitBreaker env b.data.jobId b.data.executionId).wp (deadPhases b.data) .counting
      fun st _ => st = .idle := by
  refine (wp_call_bind ..).mpr ⟨rfl, fun row _ => ?_, fun _ _ => rfl⟩
  split
  · refine (wp_call_bind ..).mpr ⟨nofun, fun _ _ => ?_, fun _ _ => rfl⟩
    intro _
    exact (wp_call ..).mpr ⟨trivial, fun _ _ => rfl⟩
  · rfl

theorem deadPhases_deadLetter (errMsg : String) (statusCode : Option Nat) (durationMs : Int) :
    (deadLetter env b.data.executionId b.data.jobId b.attemptNumber errMsg statusCode
      durationMs).wp (deadPhases b.data) .idle fun st _ => st = .idle := by
  intro now
  refine (wp_call_bind ..).mpr ⟨rfl, fun _ _ => ?_, fun _ _ => rfl⟩
  refine (wp_call_bind ..).mpr ⟨⟨_, rfl, rfl⟩, fun _ _ => ?_, fun _ _ => rfl⟩
  refine (wp_bind ..).mpr ((wp_inc ..).mpr ?_)
  refine (wp_bind ..).mpr (wp_mono ?_ (deadPhases_applyCircuitBreaker env b))
  intro st r hst
  subst hst
  cases r with
  | error e => rfl
  | ok _ =>
    apply Only.wp _ (deadPhases_off b)
    exact Only.bind (only_await trivial) fun _ => only_await trivial

theorem deadPhases_deliver (message : Nat) (token : Token) :
    (deliver env message token b).wp (deadPhases b.data) .idle fun st _ => st = .idle :=
  wp_deliver_deadLetter env b (fun c hc => deadPhases_off b c hc.offDeadLetter)
    (deadPhases_deadLetter env b) message token

end Delivery

/-! ## All or nothing -/

def DeadRow (s : SystemState) (e : ExecutionId) : Prop :=
  ∃ x ∈ s.world.db.executions, x.id = e ∧ x.status = .DEAD

instance (s : SystemState) (e : ExecutionId) : Decidable (DeadRow s e) :=
  inferInstanceAs (Decidable (∃ x ∈ s.world.db.executions, _))

def deadLettersOf (s : SystemState) (e : ExecutionId) : Nat :=
  s.world.deadLetters.countP fun x => x.executionId = e

/-- The entry is an increment of the dead streak of `j` by a delivery of `e`. -/
def CountsFor (s : SystemState) (e : ExecutionId) (j : JobId) : TraceEntry → Prop
  | .called i (.jobUpdate id data) (some (.ok _)) _ =>
      id = j ∧ data = countDead ∧ ∃ d ∈ delivering s i, d.executionId = e
  | _ => False

instance (s : SystemState) (e : ExecutionId) (j : JobId) (x : TraceEntry) :
    Decidable (CountsFor s e j x) := by
  induction x using Async.Entry.casesOn with
  | called i c reply seen =>
    induction c using Call.casesOn with
    | jobUpdate id data =>
      induction reply using Option.casesOn with
      | none => exact instDecidableFalse
      | some r => induction r using Except.casesOn <;> unfold CountsFor <;> infer_instance
    | _ => exact instDecidableFalse
  | _ => exact instDecidableFalse

def timesCounted (s : SystemState) (e : ExecutionId) (j : JobId) : Nat :=
  s.trace.countP fun x => CountsFor s e j x

/-- No delivery of `e` is in flight or still to come. -/
def DeliveriesOver (s : SystemState) (e : ExecutionId) : Prop :=
  (∀ m ∈ s.world.queue, m.data.executionId = e → m.state = .completed ∨ m.state = .failed) ∧
    ∀ i < s.threads.length, (∃ d ∈ delivering s i, d.executionId = e) → s.awaiting i = none

instance (s : SystemState) (e : ExecutionId) : Decidable (DeliveriesOver s e) :=
  inferInstanceAs (Decidable (_ ∧ _))

/-- Once its deliveries are over, an execution is DEAD just if it has one dead-letter entry,
and a DEAD execution has been counted once. -/
def AllOrNothing (s : SystemState) : Prop :=
  ∀ x ∈ s.world.db.executions, DeliveriesOver s x.id →
    (x.status = .DEAD ↔ deadLettersOf s x.id = 1) ∧
      (x.status = .DEAD → timesCounted s x.id x.jobId = 1)

def DeliversRow (s : SystemState) (i : Nat) : Prop :=
  ∃ d ∈ delivering s i, ∃ x ∈ s.world.db.executions, x.id = d.executionId

/-- A DEAD execution is not written again. -/
def KeepsDead (s : SystemState) : Option Call → Prop
  | some (.executionUpdate id _) => ¬ DeadRow s id
  | _ => True

def Call.afterDead : Call → Bool
  | .deadLetterAdd _ => true
  | .jobUpdate _ data => data = countDead
  | _ => false

def Call.beforeCount : Call → Bool
  | .executionUpdate _ data => data.status = .DEAD
  | .deadLetterAdd _ => true
  | _ => false

/-- `deadLetter` comes through: a DEAD execution is not written again, and once an execution is
DEAD the next two writes of its delivery take effect. -/
def comesThrough (s : SystemState) : SystemEvent → Prop
  | .resume i (.answered _) => KeepsDead s (s.awaiting i)
  | .resume i (.rejected _) => DeliversRow s i → ∀ c ∈ s.awaiting i, c.afterDead = false
  | .resume i (.lost _ _) => KeepsDead s (s.awaiting i) ∧
      (DeliversRow s i → ∀ c ∈ s.awaiting i, c.beforeCount = false)
  | .stop i => DeliversRow s i → ∀ c ∈ s.awaiting i, c.afterDead = false
  | _ => True

instance (s : SystemState) (i : Nat) : Decidable (DeliversRow s i) :=
  inferInstanceAs (Decidable (∃ d ∈ delivering s i, _))

instance (s : SystemState) (c : Option Call) : Decidable (KeepsDead s c) := by
  induction c using Option.casesOn with
  | none => exact instDecidableTrue
  | some c => induction c using Call.casesOn <;> unfold KeepsDead <;> infer_instance

instance (s : SystemState) (e : SystemEvent) : Decidable (comesThrough s e) := by
  induction e using Async.Event.casesOn with
  | resume i o => induction o using Async.Outcome.casesOn <;> unfold comesThrough <;> infer_instance
  | stop i =>
    unfold comesThrough
    infer_instance
  | _ => exact instDecidableTrue

/-! ## The stages of a dead-lettering -/

/-- The phase of thread `i` if it delivers `d`. -/
def deadPhaseAt (d : ExecutionJobData) (tr : List TraceEntry) (i : Nat) : DeadPhase :=
  (deadPhases d).stateAt i .idle tr

/-- How far thread `i` is with `e`. -/
def deadPhaseOf (s : SystemState) (e : ExecutionId) (i : Nat) : DeadPhase :=
  match delivering s i with
  | some d => if d.executionId = e ∧ s.Alive i then deadPhaseAt d s.trace i else .idle
  | none => .idle

/-- The three effects for `e` and the threads on their way through them. -/
def deadStages (s : SystemState) (e : ExecutionId) (j : JobId) : Stages where
  count
    | 0 => if DeadRow s e then 1 else 0
    | 1 => deadLettersOf s e
    | 2 => timesCounted s e j
    | _ => 0
  phase i := (deadPhaseOf s e i).index

/-- `e` is the id of an execution of `j` or has not been given out yet. -/
def Named (s : SystemState) (e : ExecutionId) (j : JobId) : Prop :=
  (∃ x ∈ s.world.db.executions, x.id = e ∧ x.jobId = j) ∨ s.world.db.nextExecution ≤ e

section Runs

variable {S : Setup} {jobs : List Job} {hjobs : (jobs.map (·.id)).Nodup} {clock : Nat → Int}
  {s s' : SystemState} {e : ExecutionId} {j : JobId}

theorem named_step {ev : SystemEvent} (hs : (system S).Step s ev s') (h : Named s' e j) :
    Named s e j := by
  rcases h with ⟨y, hy, rfl, rfl⟩ | h
  · cases step_rows hs hy with
    | kept hy => exact Or.inl ⟨y, hy, rfl, rfl⟩
    | inserted hid _ => exact Or.inr (Nat.le_of_eq hid.symm)
    | @updated i data z hz _ _ hyz =>
      subst hyz
      exact Or.inl ⟨z, hz, rfl, rfl⟩
  · exact Or.inr (Nat.le_trans (step_evolves hs).nextExecution h)

theorem named_delivering (hr : Reachable S (.initial jobs hjobs clock) s) (h : Named s e j)
    {i : Nat} {d : ExecutionJobData} (hd : delivering s i = some d) (he : d.executionId = e) :
    DeliversRow s i ∧ d.jobId = j := by
  subst he
  rcases h with ⟨x, hx, hid, rfl⟩ | h
  · exact ⟨⟨d, hd, x, hx, hid⟩, (delivering_row hr hd hx hid).symm⟩
  · exact absurd (delivering_known hr hd) (Nat.not_lt.mpr h)

theorem dead_permits (hr : Reachable S (.initial jobs hjobs clock) s) {i : Nat} {tag : Task}
    {c : Call} {k : Except Failure c.Reply → Promise Response} (hi : s.Live i tag (.await c k))
    {d : ExecutionJobData} (hd : delivering s i = some d) :
    (deadPhases d).permits (deadPhaseAt d s.trace i) c := by
  obtain ⟨m, hm, _⟩ := delivering_iff.mp hd
  cases (Live.tag hi).symm.trans hm
  exact (delivered_monitored deadPhases .idle (· = .idle) (fun _ _ _ _ => trivial)
    (fun m token b => deadPhases_deliver S.env b m token) hr hi hd).1

theorem own_write (hr : Reachable S (.initial jobs hjobs clock) s) {i : Nat} {c : Call}
    (h : s.Awaits i c) (hc : (∃ data, c = .executionUpdate e data) ∨
      ∃ data, c = .deadLetterAdd data ∧ data.executionId = e) :
    ∃ d, delivering s i = some d ∧ d.executionId = e := by
  obtain ⟨tag, k, hi⟩ := h
  have hcalls : tag.Calls c := (hr.only (fun _ _ _ _ => only_start) hi).1
  have htag : ∃ m, tag = .deliver m := by
    cases tag with
    | deliver m => exact ⟨m, rfl⟩
    | _ =>
      rcases hc with ⟨data, rfl⟩ | ⟨data, rfl, _⟩
      · exact hcalls.elim
      · exact hcalls.elim
  obtain ⟨m, rfl⟩ := htag
  obtain ⟨d, hd⟩ := delivering_of_tag hr (Live.tag hi)
  have hpermits := dead_permits hr hi hd
  refine ⟨d, hd, ?_⟩
  cases hphase : deadPhaseAt d s.trace i with
  | idle =>
    rw [hphase] at hpermits
    rcases hc with ⟨data, rfl⟩ | ⟨data, rfl, _⟩
    · exact hpermits.symm
    · exact hpermits.elim
  | adding =>
    rw [hphase] at hpermits
    obtain ⟨data, rfl, hid⟩ := hpermits
    rcases hc with ⟨data', hdata⟩ | ⟨data', hdata, he⟩
    · cases hdata
    · cases hdata
      exact hid.symm.trans he
  | counting =>
    rw [hphase] at hpermits
    have hcount : c = .jobUpdate d.jobId countDead := hpermits
    subst hcount
    rcases hc with ⟨data, hdata⟩ | ⟨data, hdata, _⟩
    · cases hdata
    · cases hdata

end Runs

end CronHive
