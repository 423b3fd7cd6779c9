import CronHive.Deliveries
import CronHive.TerminalStates

/-!
# Executions that are left open

When `processExecutionJob` returns, BullMQ is done with the message. It returns when it finds
no job, a disabled job or no execution, and when it has ended the execution. A job that is
disabled while its execution is open leaves the execution open for good.
-/

namespace CronHive

set_option autoImplicit false

open Async Async.Prog Async.Machine

/-- Why a delivery may return now. -/
inductive Verdict where
  | pending
  | refused
  | jobless
  | missing
  | concluded
  deriving DecidableEq, Repr

def Verdict.next : Verdict → (c : Call) → Except Failure c.Reply → Verdict
  | _, .redisGet _, .ok (some (.job job)) => if job.enabled then .pending else .refused
  | _, .jobFindUnique _, .ok (some job) => if job.enabled then .pending else .refused
  | _, .jobFindUnique _, .ok none => .jobless
  | _, .executionFindUnique _, .ok none => .missing
  | _, .executionUpdate _ data, .ok _ => if data.status.terminal then .concluded else .pending
  | .concluded, .deadLetterAdd _, .ok _ => .concluded
  | .concluded, .jobUpdate _ _, .ok _ => .concluded
  | .concluded, .redisPublish _, .ok _ => .concluded
  | _, _, _ => .pending

/-- The delivery of a message keeps to the rows it names and returns for a reason. -/
def verdicts (d : ExecutionJobData) : Monitor Call.Reply Failure Verdict where
  permits st
    | .jobFindUnique id => id = d.jobId
    | .executionFindUnique id => id = d.executionId
    | .executionUpdate id _ => id = d.executionId ∧ st ≠ .concluded
    | .moveToCompleted _ _ => st ≠ .pending
    | _ => True
  admits _ _ _ := True
  next := Verdict.next

section Delivery

variable (env : Env) (b : BullJob)

theorem verdicts_publishEvent (msg : SocketEvent) :
    (publishEvent msg).wp (verdicts b.data) .concluded
      fun st r => ∀ u, r = .ok u → st = .concluded := by
  refine (wp_call ..).mpr ⟨trivial, fun r _ u hr => ?_⟩
  subst hr
  rfl

theorem verdicts_succeedExecution (statusCode : Nat) (durationMs : Int) :
    (succeedExecution b statusCode durationMs).wp (verdicts b.data) .pending
      fun st r => ∀ u, r = .ok u → st = .concluded := by
  intro now
  refine (wp_call_bind ..).mpr ⟨⟨rfl, nofun⟩, fun _ _ => ?_, fun _ _ => nofun⟩
  refine (wp_bind ..).mpr ((wp_call_bind ..).mpr ⟨trivial, fun _ _ => ?_, fun _ _ => nofun⟩)
  refine (wp_bind ..).mpr ((wp_inc ..).mpr ?_)
  refine (wp_bind ..).mpr ((wp_inc ..).mpr ?_)
  exact verdicts_publishEvent b _

theorem verdicts_applyCircuitBreaker :
    (applyCircuitBreaker env b.data.jobId b.data.executionId).wp (verdicts b.data) .concluded
      fun st r => ∀ u, r = .ok u → st = .concluded := by
  refine (wp_call_bind ..).mpr ⟨trivial, fun row _ => ?_, fun _ _ => nofun⟩
  split
  · refine (wp_call_bind ..).mpr ⟨trivial, fun _ _ => ?_, fun _ _ => nofun⟩
    refine (wp_bind ..).mpr ((wp_inc ..).mpr ?_)
    exact verdicts_publishEvent b _
  · intro u _
    rfl

theorem verdicts_deadLetter (errMsg : String) (statusCode : Option Nat) (durationMs : Int) :
    (deadLetter env b.data.executionId b.data.jobId b.attemptNumber errMsg statusCode
      durationMs).wp (verdicts b.data) .pending fun st r => ∀ u, r = .ok u → st = .concluded := by
  intro now
  refine (wp_call_bind ..).mpr ⟨⟨rfl, nofun⟩, fun _ _ => ?_, fun _ _ => nofun⟩
  refine (wp_call_bind ..).mpr ⟨trivial, fun _ _ => ?_, fun _ _ => nofun⟩
  refine (wp_bind ..).mpr ((wp_inc ..).mpr ?_)
  refine (wp_bind ..).mpr (wp_mono ?_ (verdicts_applyCircuitBreaker env b))
  intro st r hr
  cases r with
  | error e => exact nofun
  | ok u =>
    cases hr u rfl
    refine (wp_bind ..).mpr (wp_mono ?_ (verdicts_publishEvent b _))
    intro st r hr
    cases r with
    | error e => exact nofun
    | ok u =>
      cases hr u rfl
      exact verdicts_publishEvent b _

theorem verdicts_failAttempt (kind : FailureKind) (statusCode : Option Nat) (message : String)
    (durationMs : Int) :
    (failAttempt env b kind statusCode message durationMs).wp (verdicts b.data) .pending
      fun st r => ∀ u, r = .ok u → st = .concluded := by
  refine (wp_bind ..).mpr ((wp_inc ..).mpr ?_)
  dsimp only
  split
  · exact verdicts_deadLetter env b _ _ _
  · intro now
    refine (wp_call_bind ..).mpr ⟨⟨rfl, nofun⟩, fun _ _ => ?_, fun _ _ => nofun⟩
    exact (wp_call_bind ..).mpr ⟨trivial, fun _ _ => nofun, fun _ _ => nofun⟩

theorem verdicts_runAttempt (job : Job) (execution : Execution) :
    (runAttempt env b job execution).wp (verdicts b.data) .pending
      fun st r => ∀ u, r = .ok u → st = .concluded := by
  intro now
  refine (wp_call_bind ..).mpr ⟨⟨rfl, nofun⟩, fun _ _ => ?_, fun _ _ => nofun⟩
  refine (wp_call_bind ..).mpr ⟨trivial, fun _ _ => ?_, fun _ _ => nofun⟩
  refine (wp_bind ..).mpr (wp_invokeCallback trivial fun r _ result _ => ?_)
  have hpending : ∀ st, (verdicts b.data).next st (.fetch job.callbackUrl ⟨job.id, job.name,
      b.data.executionId, b.attemptNumber, execution.triggeredAt⟩ job.callbackTimeoutMs) r =
      .pending := by
    intro st
    cases st <;> cases r <;> rfl
  cases result with
  | ok statusCode durationMs =>
    dsimp only
    rw [hpending]
    exact verdicts_succeedExecution b _ _
  | failed kind statusCode message durationMs =>
    dsimp only
    rw [hpending]
    exact verdicts_failAttempt env b _ _ _ _

theorem verdicts_lookupJob :
    (lookupJob b.data.jobId).wp (verdicts b.data) .pending fun st r =>
      (r = .ok none → st = .jobless) ∧
        ∀ job, r = .ok (some job) → st = if job.enabled then .pending else .refused := by
  have hfind : (await (.jobFindUnique b.data.jobId)).wp (verdicts b.data) .pending fun st r =>
      (r = .ok none → st = .jobless) ∧
        ∀ job, r = .ok (some job) → st = if job.enabled then .pending else .refused := by
    refine (wp_call ..).mpr ⟨rfl, fun r _ => ⟨?_, ?_⟩⟩
    · intro hr
      subst hr
      rfl
    · intro job hr
      subst hr
      rfl
  refine (wp_bind ..).mpr ((wp_call_bind ..).mpr ⟨trivial, fun value _ => ?_, fun _ _ => ?_⟩)
  · rcases value with _ | (token | job)
    · exact hfind
    · exact hfind
    · refine ⟨nofun, fun job' hr => ?_⟩
      cases hr
      rfl
  · exact ⟨nofun, nofun⟩

theorem verdicts_processExecutionJob :
    (processExecutionJob env b).wp (verdicts b.data) .pending
      fun st r => ∀ u, r = .ok u → st ≠ .pending := by
  refine (wp_bind ..).mpr (wp_mono ?_ (verdicts_lookupJob b))
  intro st r hr
  rcases r with e | _ | job
  · exact nofun
  · intro u _
    rw [hr.1 rfl]
    nofun
  · have hst := hr.2 job rfl
    dsimp only
    split
    · rename_i hdisabled
      intro u _
      rw [hst, if_neg (by simpa using hdisabled)]
      nofun
    · rename_i henabled
      rw [if_pos (by simpa using henabled)] at hst
      subst hst
      refine (wp_call_bind ..).mpr ⟨rfl, fun found _ => ?_, fun _ _ => nofun⟩
      cases found with
      | none => exact fun _ _ => nofun
      | some execution =>
        refine wp_mono ?_ (verdicts_runAttempt env b job execution)
        intro st r hr u hu
        rw [hr u hu]
        nofun

theorem verdicts_deliver (message : Nat) (token : Token) :
    (deliver env message token b).wp (verdicts b.data) .pending fun _ _ => True := by
  refine (wp_bind ..).mpr ((wp_tryCatch ..).mpr ((wp_bind ..).mpr ?_))
  refine wp_mono ?_ (verdicts_processExecutionJob env b)
  intro st r hr
  cases r with
  | ok u => exact (wp_call ..).mpr ⟨hr u rfl, fun _ _ => trivial⟩
  | error e => exact (wp_call ..).mpr ⟨trivial, fun _ _ => trivial⟩

end Delivery

/-! ## Returns -/

/-- The verdict of thread `i` if it delivers `d`. -/
def verdictAt (d : ExecutionJobData) (tr : List TraceEntry) (i : Nat) : Verdict :=
  (verdicts d).stateAt i .pending tr

def Call.isCompletion : Call → Bool
  | .moveToCompleted _ _ => true
  | _ => false

/-- `processExecutionJob` has returned in thread `i`, which is about to tell BullMQ. -/
def Returned (s : SystemState) (i : Nat) : Prop := ∃ c ∈ s.awaiting i, c.isCompletion

def OpenRow (s : SystemState) (id : ExecutionId) : Prop :=
  ∃ x ∈ s.world.db.executions, x.id = id ∧ ¬ x.status.terminal

instance (s : SystemState) (id : ExecutionId) : Decidable (OpenRow s id) :=
  inferInstanceAs (Decidable (∃ x ∈ s.world.db.executions, _))

/-- If `processExecutionJob` returns in the step to `s'`, its execution is over or gone. -/
def LeavesNoneOpen (s' : SystemState) : SystemEvent → Prop
  | .resume i _ => Returned s' i → ∀ d ∈ delivering s' i, ¬ OpenRow s' d.executionId
  | _ => True

/-- The config-cache entry of a disabled job. -/
def RedisValue.refuses : RedisValue → Bool
  | .job row => !row.enabled
  | _ => false

/-- No delivery is told that its job is disabled while its execution is open. -/
def RefusesEnded (s : SystemState) (i : Nat) : Option Call → Prop
  | some (.redisGet key) => ∀ v ∈ s.world.redis.get key, v.refuses →
      ∀ d ∈ delivering s i, ¬ OpenRow s d.executionId
  | some (.jobFindUnique id) => ∀ job ∈ s.world.db.job? id, job.enabled = false →
      ∀ d ∈ delivering s i, ¬ OpenRow s d.executionId
  | _ => True

/-- Thread `i` has ended the execution and has not returned yet. -/
def Concluding (s : SystemState) (i : Nat) (id : ExecutionId) : Prop :=
  s.Alive i ∧ ¬ Returned s i ∧
    ∃ d ∈ delivering s i, d.executionId = id ∧ verdictAt d s.trace i = .concluded

/-- No delivery reopens an execution that another has ended and not returned from yet. -/
def ReopensNone (s : SystemState) (i : Nat) : Option Call → Prop
  | some (.executionUpdate id data) => ¬ data.status.terminal →
      ∀ i' < s.threads.length, Concluding s i' id → i' = i
  | _ => True

def concludes (s : SystemState) : SystemEvent → Prop
  | .resume i (.answered _) => RefusesEnded s i (s.awaiting i) ∧ ReopensNone s i (s.awaiting i)
  | .resume i (.lost _ _) => ReopensNone s i (s.awaiting i)
  | _ => True

instance (s : SystemState) (i : Nat) : Decidable (Returned s i) :=
  inferInstanceAs (Decidable (∃ c ∈ s.awaiting i, _))

instance (s : SystemState) (i : Nat) (id : ExecutionId) : Decidable (Concluding s i id) :=
  inferInstanceAs (Decidable (_ ∧ _ ∧ ∃ d ∈ delivering s i, _))

instance (s : SystemState) (i : Nat) (c : Option Call) : Decidable (RefusesEnded s i c) := by
  induction c using Option.casesOn with
  | none => exact instDecidableTrue
  | some c => induction c using Call.casesOn <;> unfold RefusesEnded <;> infer_instance

instance (s : SystemState) (i : Nat) (c : Option Call) : Decidable (ReopensNone s i c) := by
  induction c using Option.casesOn with
  | none => exact instDecidableTrue
  | some c => induction c using Call.casesOn <;> unfold ReopensNone <;> infer_instance

instance (s : SystemState) (e : SystemEvent) : Decidable (concludes s e) := by
  induction e using Async.Event.casesOn with
  | resume i o => induction o using Async.Outcome.casesOn <;> unfold concludes <;> infer_instance
  | _ => exact instDecidableTrue

theorem Returned.awaits {s : SystemState} {i : Nat} (h : Returned s i) :
    ∃ m token, s.Awaits i (.moveToCompleted m token) := by
  obtain ⟨c, hc, hcompletion⟩ := h
  have hawait := State.awaiting_iff.mp hc
  cases c with
  | moveToCompleted m token => exact ⟨m, token, hawait⟩
  | _ => cases hcompletion

theorem returned_of_awaits {s : SystemState} {i m : Nat} {token : Token}
    (h : s.Awaits i (.moveToCompleted m token)) : Returned s i :=
  ⟨_, h.awaiting, rfl⟩

/-! ## What a verdict rests on -/

/-- The calls of a delivery between the end of its execution and its return. -/
def Call.reports : Call → Prop
  | .deadLetterAdd _ => True
  | .jobUpdate _ _ => True
  | .redisPublish _ => True
  | _ => False

theorem next_refused {st : Verdict} {c : Call} {r : Except Failure c.Reply}
    (h : st.next c r = .refused) : ∃ job : Job, job.enabled = false ∧
      ((∃ key, c = .redisGet key ∧ HEq r (Except.ok (ε := Failure) (some (RedisValue.job job)))) ∨
        ∃ id, c = .jobFindUnique id ∧ HEq r (Except.ok (ε := Failure) (some job))) := by
  unfold Verdict.next at h
  split at h
  · rename_i key job
    split at h
    · cases h
    · rename_i hdisabled
      exact ⟨job, by simpa using hdisabled, Or.inl ⟨key, rfl, .rfl⟩⟩
  · rename_i id job
    split at h
    · cases h
    · rename_i hdisabled
      exact ⟨job, by simpa using hdisabled, Or.inr ⟨id, rfl, .rfl⟩⟩
  · cases h
  · cases h
  · split at h <;> cases h
  all_goals cases h

theorem next_jobless {st : Verdict} {c : Call} {r : Except Failure c.Reply}
    (h : st.next c r = .jobless) : ∃ id, c = .jobFindUnique id ∧
      HEq r (Except.ok (ε := Failure) (none : Option Job)) := by
  unfold Verdict.next at h
  split at h
  · split at h <;> cases h
  · split at h <;> cases h
  · rename_i id
    exact ⟨id, rfl, .rfl⟩
  · cases h
  · split at h <;> cases h
  all_goals cases h

theorem next_missing {st : Verdict} {c : Call} {r : Except Failure c.Reply}
    (h : st.next c r = .missing) : ∃ id, c = .executionFindUnique id ∧
      HEq r (Except.ok (ε := Failure) (none : Option Execution)) := by
  unfold Verdict.next at h
  split at h
  · split at h <;> cases h
  · split at h <;> cases h
  · cases h
  · rename_i id
    exact ⟨id, rfl, .rfl⟩
  · split at h <;> cases h
  all_goals cases h

theorem next_concluded {st : Verdict} {c : Call} {r : Except Failure c.Reply}
    (h : st.next c r = .concluded) :
    (∃ id data, ∃ x : Execution, c = .executionUpdate id data ∧ data.status.terminal ∧
      HEq r (Except.ok (ε := Failure) x)) ∨
    (st = .concluded ∧ c.reports) := by
  unfold Verdict.next at h
  split at h
  · split at h <;> cases h
  · split at h <;> cases h
  · cases h
  · cases h
  · rename_i id data x
    split at h
    · rename_i hterminal
      exact Or.inl ⟨id, data, x, rfl, hterminal, .rfl⟩
    · cases h
  · exact Or.inr ⟨rfl, trivial⟩
  · exact Or.inr ⟨rfl, trivial⟩
  · exact Or.inr ⟨rfl, trivial⟩
  · cases h

theorem next_completed {st : Verdict} {m : Nat} {token : Token} {r : Except Failure Unit}
    (h : st.next (.moveToCompleted m token) r = .concluded) : False := by
  rcases next_concluded h with ⟨id, data, x, hc, _⟩ | ⟨_, hc⟩
  · cases hc
  · exact hc

section Runs

variable {S : Setup} {jobs : List Job} {hjobs : (jobs.map (·.id)).Nodup} {clock : Nat → Int}
  {s s' : SystemState}

theorem verdict_permits (hr : Reachable S (.initial jobs hjobs clock) s) {i : Nat} {tag : Task}
    {c : Call} {k : Except Failure c.Reply → Promise Response} (hi : s.Live i tag (.await c k))
    {d : ExecutionJobData} (hd : delivering s i = some d) :
    (verdicts d).permits (verdictAt d s.trace i) c := by
  obtain ⟨m, hm, _⟩ := delivering_iff.mp hd
  cases (Live.tag hi).symm.trans hm
  exact (delivered_monitored verdicts .pending (fun _ => True) (fun _ _ _ _ => trivial)
    (fun m token b => verdicts_deliver S.env b m token) hr hi hd).1

theorem verdictAt_resumed (d : ExecutionJobData) (i : Nat) (tag : Task) (c : Call)
    (k : Except Failure c.Reply → Promise Response) (o : Outcome Choice Failure) :
    verdictAt d ((system S).resumed s i tag c k o).trace i =
      (verdictAt d s.trace i).next c ((system S).attend c o s.world).2.2 := by
  simp [verdictAt, resumed, Monitor.observe, verdicts]

/-- A thread that concludes has delivered before the step. -/
theorem concluded_alive (hr : Reachable S (.initial jobs hjobs clock) s) {e : SystemEvent}
    (hs : (system S).Step s e s') {i : Nat} (halive : s'.Alive i) {d : ExecutionJobData}
    (hv : verdictAt d s.trace i = .concluded) : s.Alive i := by
  obtain ⟨tag, p, hi⟩ := halive
  rcases hs.live_cases hi with hi | ⟨c, k, o, hi, _⟩ | ⟨rfl, _⟩
  · exact ⟨tag, p, hi⟩
  · exact ⟨tag, _, hi⟩
  · have hnew : verdictAt d s.trace s.threads.length = .pending :=
      (verdicts d).stateAt_of_absent _ fun op reply seen hm =>
        absurd (hr.numbered _ op reply seen hm) (Nat.lt_irrefl _)
    cases hnew.symm.trans hv

theorem delivering_known (hr : Reachable S (.initial jobs hjobs clock) s) {i : Nat}
    {d : ExecutionJobData} (hd : delivering s i = some d) :
    d.executionId < s.world.db.nextExecution := by
  have hnamed := rowsNamed_of_reachable hr
  obtain ⟨m, _, hm⟩ := delivering_iff.mp hd
  have hmem : d ∈ s.world.queue.map (·.data) := by
    rw [← List.getElem?_map] at hm
    exact List.mem_of_getElem? hm
  obtain ⟨i', x, hx, hxid, _⟩ := hnamed.queued d hmem
  rw [← hxid]
  exact (hnamed.inserted i' x hx).1

theorem concludes.own {e : SystemEvent} (hok : concludes s e) {i i' : Nat} {id : ExecutionId}
    {data : ExecutionUpdate} (heffect : Effective i' e)
    (hawait : s.Awaits i' (.executionUpdate id data)) (hopen : ¬ data.status.terminal)
    (hconcluding : Concluding s i id) : i = i' := by
  have hreopens : ReopensNone s i' (some (.executionUpdate id data)) := by
    rw [← hawait.awaiting]
    cases e with
    | resume i₀ o =>
      cases o with
      | answered c => exact heffect ▸ hok.2
      | rejected e => exact heffect.elim
      | lost c e => exact heffect ▸ hok
    | _ => exact heffect.elim
  exact hreopens hopen i hconcluding.1.lt hconcluding

/-- While a thread concludes an execution and others keep off it, it stays over. -/
theorem Concluding.kept (hr : Reachable S (.initial jobs hjobs clock) s) {i : Nat}
    {d : ExecutionJobData} (h : Concluding s i d.executionId) (hd : delivering s i = some d)
    (hv : verdictAt d s.trace i = .concluded) (hover : ¬ OpenRow s d.executionId)
    {e : SystemEvent} (hok : concludes s e) (hs : (system S).Step s e s') :
    ¬ OpenRow s' d.executionId := by
  intro hopen
  obtain ⟨y, hy, hid, hstatus⟩ := hopen
  cases step_rows hs hy with
  | kept hy => exact hover ⟨y, hy, hid, hstatus⟩
  | inserted hnew _ =>
    exact absurd (hid.symm.trans hnew) (Nat.ne_of_lt (delivering_known hr hd))
  | @updated i' data z hz hawait heffect hyz =>
    subst hyz
    have hidz : z.id = d.executionId := hid
    rw [hidz] at hawait
    have hself : i = i' := hok.own heffect hawait hstatus h
    subst hself
    obtain ⟨tag, k, hi⟩ := hawait
    exact (verdict_permits hr hi hd).2 hv

theorem updated_status {id : ExecutionId} {data : ExecutionUpdate} {o : Outcome Choice Failure}
    {x : Execution} (hseen : ((system S).attend (.executionUpdate id data) o s.world).2.2 = .ok x)
    {y : Execution}
    (hy : y ∈ ((system S).attend (.executionUpdate id data) o s.world).1.db.executions)
    (hid : y.id = id) : y.status = data.status := by
  obtain ⟨a, _, hw, _⟩ := attend_seen hseen
  rw [hw] at hy
  exact Postgres.executionUpdate_status hy hid

/-- The step that takes a thread to its conclusion, or any step while it concludes. -/
theorem over_of_concluded (hr : Reachable S (.initial jobs hjobs clock) s)
    (ih : ∀ i id, Concluding s i id → ¬ OpenRow s id) {e : SystemEvent} (hok : concludes s e)
    (hs : (system S).Step s e s') {i : Nat} (halive : s'.Alive i) (hreturned : ¬ Returned s i)
    {d : ExecutionJobData} (hd : delivering s' i = some d)
    (hv : verdictAt d s'.trace i = .concluded) : ¬ OpenRow s' d.executionId := by
  have hwhile (hbefore : delivering s i = some d) (hold : verdictAt d s.trace i = .concluded) :
      ¬ OpenRow s' d.executionId := by
    have hconcluding : Concluding s i d.executionId :=
      ⟨concluded_alive hr hs halive hold, hreturned, d, hbefore, rfl, hold⟩
    exact hconcluding.kept hr hbefore hold (ih i _ hconcluding) hok hs
  have hbefore : delivering s i = some d := by
    obtain ⟨m, hm, _⟩ := delivering_iff.mp hd
    rcases hs.tag_cases hm with hm | ⟨w, p, _, rfl, rfl, rfl⟩
    · exact delivering_before hr hs hm hd
    · have hnew : verdictAt d ((system S).spawned s (.deliver m) w p).trace s.threads.length =
          .pending :=
        (verdicts d).stateAt_of_absent _ fun op reply seen hcalled => by
          rcases List.mem_append.mp hcalled with hcalled | hcalled
          · exact absurd (hr.numbered _ op reply seen hcalled) (Nat.lt_irrefl _)
          · cases List.mem_singleton.mp hcalled
      cases hnew.symm.trans hv
  rcases hs.stateAt (verdicts d) i .pending with hsame | ⟨tag, c, k, o, hi, rfl, rfl, hnext⟩
  · exact hwhile hbefore (hsame.symm.trans hv)
  · rcases next_concluded (hnext.symm.trans hv) with
      ⟨id, data, x, rfl, hterminal, hseen⟩ | ⟨hold, _⟩
    · intro hopen
      obtain ⟨y, hy, hid, hstatus⟩ := hopen
      have hnamed : id = d.executionId := (verdict_permits hr hi hbefore).1
      rw [resumed_db] at hy
      rw [updated_status (eq_of_heq hseen) hy (hid.trans hnamed.symm)] at hstatus
      exact hstatus hterminal
    · exact hwhile hbefore hold

theorem over_of_run (h : (system S).Run concludes (.fresh (.initial jobs hjobs clock)) s) :
    ∀ i id, Concluding s i id → ¬ OpenRow s id := by
  apply h.keeps
  · intro i id hconcluding
    obtain ⟨⟨tag, p, hi⟩, _⟩ := hconcluding
    simp [State.Live, State.fresh] at hi
  · intro s e s' h ih hok hs i id hconcluding
    have hr : Reachable S (.initial jobs hjobs clock) s := h.mono fun _ _ _ => trivial
    obtain ⟨halive, hreturned, d, hd, rfl, hv⟩ := hconcluding
    refine over_of_concluded hr ih hok hs halive ?_ hd hv
    intro hbefore
    obtain ⟨m, token, tag, k, hi⟩ := hbefore.awaits
    rcases hs.live (verdicts d) hi .pending with
      ⟨hi', _⟩ | ⟨c, k', o, hp, rfl, rfl⟩ | ⟨c, k', hp, rfl⟩
    · exact hreturned (returned_of_awaits ⟨tag, k, hi'⟩)
    · cases hp
      rw [verdictAt_resumed] at hv
      cases next_completed hv
    · obtain ⟨tag', p, hi'⟩ := halive
      cases hs with
      | stop _ => exact (live_halted hi').1 rfl

theorem answered_of_seen {c : Call} {o : Outcome Choice Failure} {w : World} {a : c.Reply}
    (h : ((system S).attend c o w).2.2 = .ok a) : ∃ x, o = .answered x := by
  cases o with
  | answered x => exact ⟨x, rfl⟩
  | rejected e => cases h
  | lost x e => cases h

/-- A delivery that finds its job disabled finds its execution over. -/
theorem over_of_refused {i : Nat} {tag : Task} {c : Call}
    {k : Except Failure c.Reply → Promise Response} {o : Outcome Choice Failure}
    (hi : s.Live i tag (.await c k)) (hok : concludes s (.resume i o)) {st : Verdict}
    (hv : st.next c ((system S).attend c o s.world).2.2 = .refused) {d : ExecutionJobData}
    (hd : delivering s i = some d) :
    ¬ OpenRow ((system S).resumed s i tag c k o) d.executionId := by
  have hawait : s.awaiting i = some c := State.Awaits.awaiting ⟨tag, k, hi⟩
  obtain ⟨job, hdisabled, ⟨key, rfl, hseen⟩ | ⟨id, rfl, hseen⟩⟩ := next_refused hv
  · have hanswer := eq_of_heq hseen
    obtain ⟨x, rfl⟩ := answered_of_seen hanswer
    have hrefuses := hok.1
    rw [hawait] at hrefuses
    unfold OpenRow
    rw [resumed_db]
    have hrefused : (RedisValue.job job).refuses := by simp [RedisValue.refuses, hdisabled]
    exact hrefuses _ (Except.ok.inj hanswer) hrefused d hd
  · have hanswer := eq_of_heq hseen
    obtain ⟨x, rfl⟩ := answered_of_seen hanswer
    have hrefuses := hok.1
    rw [hawait] at hrefuses
    unfold OpenRow
    rw [resumed_db]
    exact hrefuses job (Except.ok.inj hanswer) hdisabled d hd

/-- A job that is gone has taken its executions with it. -/
theorem over_of_jobless (hr : Reachable S (.initial jobs hjobs clock) s) {i : Nat} {tag : Task}
    {c : Call} {k : Except Failure c.Reply → Promise Response} {o : Outcome Choice Failure}
    (hi : s.Live i tag (.await c k)) {st : Verdict}
    (hv : st.next c ((system S).attend c o s.world).2.2 = .jobless) {d : ExecutionJobData}
    (hd : delivering s i = some d) :
    ¬ OpenRow ((system S).resumed s i tag c k o) d.executionId := by
  obtain ⟨id, rfl, hseen⟩ := next_jobless hv
  have hanswer := eq_of_heq hseen
  obtain ⟨x, rfl⟩ := answered_of_seen hanswer
  have hid : id = d.jobId := verdict_permits hr hi hd
  have hgone : ¬ s.world.db.hasJob d.jobId := by
    rw [← hid]
    exact Postgres.job?_eq_none.mp (Except.ok.inj hanswer)
  unfold OpenRow
  rw [resumed_db]
  intro hopen
  obtain ⟨y, hy, hyid, _⟩ := hopen
  have hjob : y.jobId = d.jobId := delivering_row hr hd hy hyid
  exact hgone (hjob ▸ s.world.db.job_fkey y hy)

theorem over_of_missing (hr : Reachable S (.initial jobs hjobs clock) s) {i : Nat} {tag : Task}
    {c : Call} {k : Except Failure c.Reply → Promise Response} {o : Outcome Choice Failure}
    (hi : s.Live i tag (.await c k)) {st : Verdict}
    (hv : st.next c ((system S).attend c o s.world).2.2 = .missing) {d : ExecutionJobData}
    (hd : delivering s i = some d) :
    ¬ OpenRow ((system S).resumed s i tag c k o) d.executionId := by
  obtain ⟨id, rfl, hseen⟩ := next_missing hv
  have hanswer := eq_of_heq hseen
  obtain ⟨x, rfl⟩ := answered_of_seen hanswer
  have hid : id = d.executionId := verdict_permits hr hi hd
  have hnone : s.world.db.execution? id = none := Except.ok.inj hanswer
  unfold OpenRow
  rw [resumed_db]
  intro hopen
  obtain ⟨y, hy, hyid, _⟩ := hopen
  exact List.find?_eq_none.mp hnone y hy (by simpa using hyid.trans hid.symm)

end Runs

/-- Where no delivery is told that its job is disabled while its execution is open, and none
reopens an execution that another is concluding, `processExecutionJob` returns only when the
execution is over. -/
theorem no_execution_abandoned {S : Setup} {jobs : List Job} {hjobs : (jobs.map (·.id)).Nodup}
    {clock : Nat → Int} {s s' : SystemState}
    (h : (system S).Run concludes (.fresh (.initial jobs hjobs clock)) s) {e : SystemEvent}
    (hok : concludes s e) (hs : (system S).Step s e s') : LeavesNoneOpen s' e := by
  have hr : Reachable S (.initial jobs hjobs clock) s := h.mono fun _ _ _ => trivial
  have hr' : Reachable S (.initial jobs hjobs clock) s' := hr.tail trivial hs
  cases hs with
  | @resume i tag c k o hi =>
    intro hreturned d hd'
    have hs : (system S).Step s (.resume i o) _ := .resume hi
    have halive : ((system S).resumed s i tag c k o).Alive i := ⟨tag, _, live_resumed_self hi⟩
    obtain ⟨m, token, tag', k', hi'⟩ := hreturned.awaits
    have hverdict : verdictAt d ((system S).resumed s i tag c k o).trace i ≠ .pending :=
      verdict_permits hr' hi' hd'
    have hd : delivering s i = some d := by
      obtain ⟨m', hm, _⟩ := delivering_iff.mp hd'
      have htag : tag = .deliver m' := by
        have hboth := (hs.tag (Live.tag hi)).symm.trans hm
        exact Option.some.inj hboth
      subst htag
      exact delivering_before hr hs (Live.tag hi) hd'
    cases hv : verdictAt d ((system S).resumed s i tag c k o).trace i with
    | pending => exact absurd hv hverdict
    | refused =>
      rw [verdictAt_resumed] at hv
      exact over_of_refused hi hok hv hd
    | jobless =>
      rw [verdictAt_resumed] at hv
      exact over_of_jobless hr hi hv hd
    | missing =>
      rw [verdictAt_resumed] at hv
      exact over_of_missing hr hi hv hd
    | concluded =>
      refine over_of_concluded hr (over_of_run h) hok hs halive ?_ hd' hv
      intro hbefore
      obtain ⟨m', token', hawait⟩ := hbefore.awaits
      cases Live.awaits_unique hi hawait
      rw [verdictAt_resumed] at hv
      cases next_completed hv
  | _ => trivial

/-- After SUCCESS is written the counter is reset; the next answer ends `succeededRun`'s
delivery. -/
def almostReturned : List SystemEvent := succeededRun ++ [Sample.answered 1]

theorem no_execution_abandoned_succeeded : ∃ s s',
    (system Sample.setup).run (.fresh Sample.world) almostReturned = some s ∧
      (system Sample.setup).step s (Sample.answered 1) = some s' ∧ Returned s' 1 ∧
      statuses s' = [(0, .SUCCESS)] ∧ LeavesNoneOpen s' (Sample.answered 1) := by
  have hrun : ((system Sample.setup).runChecked concludes (.fresh Sample.world)
      almostReturned).bind (fun s => ((system Sample.setup).step s (Sample.answered 1)).map
        fun s' => decide (concludes s (Sample.answered 1) ∧ Returned s' 1 ∧
          statuses s' = [(0, .SUCCESS)])) = some true := by decide +kernel
  obtain ⟨s, hs, hrest⟩ := Option.bind_eq_some_iff.mp hrun
  obtain ⟨s', hs', hsum⟩ := Option.map_eq_some_iff.mp hrest
  obtain ⟨hok, hreturned, hstatus⟩ := of_decide_eq_true hsum
  refine ⟨s, s', run_of_runChecked hs, hs', hreturned, hstatus, ?_⟩
  exact no_execution_abandoned (.of_runChecked hs) hok (step_iff.mp hs')

/-- A tick enqueues an execution and the job is disabled before its delivery. -/
def disablingRun : List SystemEvent :=
  [.begin .tick] ++ List.replicate 4 (Sample.answered 0) ++
    [.begin (.bulkSetEnabled ["job-1"] false)] ++ List.replicate 2 (Sample.answered 1) ++
    [.begin (.deliver 0), Sample.answered 2]

theorem disabled_job_abandons_execution : ∃ s s' e, Reachable Sample.setup Sample.world s ∧
    (system Sample.setup).Step s e s' ∧ ¬ LeavesNoneOpen s' e := by
  have hrun : ((system Sample.setup).run (.fresh Sample.world) disablingRun).bind
      (fun s => ((system Sample.setup).step s (Sample.answered 2)).map
        fun s' => decide (Returned s' 2 ∧ ∃ d ∈ delivering s' 2, OpenRow s' d.executionId)) =
      some true := by decide +kernel
  obtain ⟨s, hs, hrest⟩ := Option.bind_eq_some_iff.mp hrun
  obtain ⟨s', hs', hsum⟩ := Option.map_eq_some_iff.mp hrest
  obtain ⟨hreturned, d, hd, hopen⟩ := of_decide_eq_true hsum
  refine ⟨s, s', Sample.answered 2, .of_run hs fun _ _ _ => trivial, step_iff.mp hs', ?_⟩
  intro h
  exact h hreturned d hd hopen

end CronHive
