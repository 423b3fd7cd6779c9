import CronHive.System

/-!
# Which calls each task makes

One footprint for each kind of task and one lemma for each function that it is made of. An
invariant about some calls then needs no look at the tasks that make none of them.
-/

namespace CronHive

set_option autoImplicit false

open Async.Prog

def Call.ofTick : Call → Prop
  | .jobFindMany => True
  | .redisSetNx key _ _ => ∃ j t, key = jobLockKey j (.time t)
  | .redisRelease key _ => ∃ j t, key = jobLockKey j (.time t)
  | .executionCreate data => ∃ t, data.scheduledFor = some t
  | .queueAdd data _ => ∃ t, data.fireSlot = .time t
  | _ => False

def Call.ofBreaker (jobId : JobId) : Call → Prop
  | .jobUpdate id data => id = jobId ∧
      (data = { consecutiveDeadCount := some (.increment 1) } ∨ data = { enabled := some false })
  | .redisPublish _ => True
  | _ => False

def Call.ofDelivery (b : BullJob) : Call → Prop
  | .redisGet key => key = jobConfigKey b.data.jobId
  | .jobFindUnique id => id = b.data.jobId
  | .executionFindUnique id => id = b.data.executionId
  | .executionUpdate id _ => id = b.data.executionId
  | .jobUpdate id data => id = b.data.jobId ∧
      (data = { consecutiveDeadCount := some (.increment 1) } ∨ data = { enabled := some false } ∨
        data = { consecutiveDeadCount := some (.set 0) })
  | .fetch _ body _ =>
      body.executionId = b.data.executionId ∧ body.attemptNumber = b.attemptNumber
  | .redisPublish _ => True
  | .deadLetterAdd data => data.executionId = b.data.executionId ∧ data.jobId = b.data.jobId
  | .moveToCompleted _ _ => True
  | .moveToFailed _ _ => True
  | _ => False

/-- The checks before a job is stored. -/
def Call.ofCheck : Call → Prop
  | .jobFindUnique _ => True
  | .dnsLookup _ => True
  | _ => False

/-- Requests that store a job. -/
def Call.ofStoring : Call → Prop
  | .jobFindUnique _ => True
  | .jobCreate _ => True
  | .jobUpdate _ data => data.consecutiveDeadCount = none
  | .redisSet key _ _ => ∃ j, key = jobConfigKey j
  | .redisDel key => ∃ j, key = jobConfigKey j
  | .dnsLookup _ => True
  | _ => False

/-- Requests that delete, enable or disable jobs. -/
def Call.ofSwitching : Call → Prop
  | .jobDelete _ => True
  | .jobUpdateMany _ _ => True
  | .redisDel key => ∃ j, key = jobConfigKey j
  | _ => False

def Call.ofTrigger : Call → Prop
  | .jobFindUnique _ => True
  | .redisSetNx key _ _ => ∃ j, key = jobLockKey j .manual
  | .redisRelease key _ => ∃ j, key = jobLockKey j .manual
  | .executionCreate data => data.scheduledFor = none
  | .queueAdd data _ => data.fireSlot = .manual
  | _ => False

/-! ## The tick -/

/-- What follows the request for a lock is refused or has a lock of that slot. -/
theorem only_acquireJobLock {P : Call → Prop} {α : Type} {j : JobId} {slot : FireSlot} {ttl : Nat}
    {f : Option JobLock → Promise α}
    (h : ∀ token s, P (.redisSetNx (jobLockKey j slot) (.token token) s))
    (hrefused : (f none).Only P) (hgranted : ∀ token, (f (some ⟨j, slot, token⟩)).Only P) :
    ((acquireJobLock j slot ttl).bind f).Only P := by
  intro token
  refine ⟨h token _, fun granted => ?_⟩
  rcases granted with e | _ | _
  · exact only_fail e
  · exact hrefused
  · exact hgranted token

theorem only_claimSlot (job : Job) (slot : Int) (token : Token) :
    (claimSlot job slot ⟨job.id, .time slot, token⟩).Only Call.ofTick := by
  have hrelease : (releaseJobLock ⟨job.id, .time slot, token⟩).Only Call.ofTick :=
    only_await ⟨job.id, slot, rfl⟩
  refine Only.tryCatch (Only.bind ?_ fun ex => ?_) fun e => ?_
  · refine Only.tryCatch (Only.bind (only_await ⟨slot, rfl⟩) fun _ => only_ret _) fun e => ?_
    split
    · exact only_ret _
    · exact only_fail _
  · cases ex with
    | none => exact Only.bind (only_inc _) fun _ => hrelease
    | some ex => exact Only.bind (only_await ⟨slot, rfl⟩) fun _ => only_inc _
  · exact Only.bind hrelease fun _ => only_fail _

theorem only_tickIteration (S : Setup) (job : Job) :
    (tickIteration S job).Only Call.ofTick := by
  refine Only.bind only_dateNow fun now => ?_
  split
  · exact only_ret _
  · rename_i slot _
    refine only_acquireJobLock (fun _ _ => ⟨job.id, slot, rfl⟩) (only_inc _) fun token => ?_
    exact only_claimSlot job slot token

theorem only_tickLoop (S : Setup) (jobs : List Job) : (tickLoop S jobs).Only Call.ofTick := by
  induction jobs with
  | nil => exact only_ret _
  | cons job jobs ih => exact Only.bind (only_tickIteration S job) fun _ => ih

theorem only_tick (S : Setup) : (tick S).Only Call.ofTick :=
  Only.bind (only_inc _) fun _ => Only.bind (only_await trivial) fun jobs => only_tickLoop S jobs

/-! ## A delivery -/

section Delivery

variable (env : Env) (b : BullJob)

theorem only_publishEvent (msg : SocketEvent) : (publishEvent msg).Only (Call.ofDelivery b) :=
  only_await trivial

theorem only_applyCircuitBreaker (jobId : JobId) (executionId : ExecutionId) :
    (applyCircuitBreaker env jobId executionId).Only (Call.ofBreaker jobId) := by
  refine Only.bind (only_await ⟨rfl, Or.inl rfl⟩) fun job => ?_
  split
  · refine Only.bind (only_await ⟨rfl, Or.inr rfl⟩) fun _ => ?_
    exact Only.bind (only_inc _) fun _ => only_await trivial
  · exact only_ret _

theorem ofDelivery_of_ofBreaker (c : Call) (h : c.ofBreaker b.data.jobId) : c.ofDelivery b := by
  cases c with
  | jobUpdate id data => exact ⟨h.1, h.2.imp_right Or.inl⟩
  | redisPublish msg => trivial
  | _ => exact h.elim

theorem only_deadLetter (errMsg : String) (statusCode : Option Nat) (durationMs : Int) :
    (deadLetter env b.data.executionId b.data.jobId b.attemptNumber errMsg statusCode
      durationMs).Only (Call.ofDelivery b) := by
  refine Only.bind only_dateNow fun now => Only.bind (only_await rfl) fun _ => ?_
  refine Only.bind (only_await ⟨rfl, rfl⟩) fun _ => Only.bind (only_inc _) fun _ => ?_
  refine Only.bind ((only_applyCircuitBreaker env _ _).mono (ofDelivery_of_ofBreaker b)) fun _ => ?_
  exact Only.bind (only_publishEvent b _) fun _ => only_publishEvent b _

theorem only_succeedExecution (statusCode : Nat) (durationMs : Int) :
    (succeedExecution b statusCode durationMs).Only (Call.ofDelivery b) := by
  refine Only.bind only_dateNow fun now => Only.bind (only_await rfl) fun _ => ?_
  refine Only.bind (Only.bind (only_await ⟨rfl, Or.inr (Or.inr rfl)⟩) fun _ => only_ret _)
    fun _ => ?_
  refine Only.bind (only_inc _) fun _ => Only.bind (only_inc _) fun _ => ?_
  exact only_publishEvent b _

theorem only_failAttempt (kind : FailureKind) (statusCode : Option Nat) (message : String)
    (durationMs : Int) :
    (failAttempt env b kind statusCode message durationMs).Only (Call.ofDelivery b) := by
  refine Only.bind (only_inc _) fun _ => ?_
  split
  · exact only_deadLetter env b _ _ _
  · refine Only.bind only_dateNow fun now => Only.bind (only_await rfl) fun _ => ?_
    exact Only.bind (only_publishEvent b _) fun _ => only_fail _

theorem only_invokeCallback (url : String) (body : CallbackBody) (timeoutMs : Nat)
    (h : body.executionId = b.data.executionId ∧ body.attemptNumber = b.attemptNumber) :
    (invokeCallback url body timeoutMs).Only (Call.ofDelivery b) := by
  refine Only.bind only_dateNow fun started => Only.tryCatch ?_ fun e => ?_
  · refine Only.bind (only_await h) fun status => Only.bind only_dateNow fun finished => ?_
    split <;> exact only_ret _
  · refine Only.bind only_dateNow fun finished => ?_
    split <;> exact only_ret _

theorem only_runAttempt (job : Job) (execution : Execution) :
    (runAttempt env b job execution).Only (Call.ofDelivery b) := by
  refine Only.bind only_dateNow fun now => Only.bind (only_await rfl) fun _ => ?_
  refine Only.bind (only_publishEvent b _) fun _ => ?_
  refine Only.bind (only_invokeCallback b _ _ _ ⟨rfl, rfl⟩) fun result => ?_
  cases result with
  | ok statusCode durationMs => exact only_succeedExecution b _ _
  | failed kind statusCode message durationMs => exact only_failAttempt env b _ _ _ _

theorem only_lookupJob : (lookupJob b.data.jobId).Only (Call.ofDelivery b) := by
  refine Only.bind (Only.bind (only_await rfl) fun value => ?_) fun cached => ?_
  · split <;> exact only_ret _
  · cases cached with
    | some job => exact only_ret _
    | none => exact only_await rfl

theorem only_processExecutionJob :
    (processExecutionJob env b).Only (Call.ofDelivery b) := by
  refine Only.bind (only_lookupJob b) fun job => ?_
  cases job with
  | none => exact only_ret _
  | some job =>
    dsimp only
    split
    · exact only_ret _
    · refine Only.bind (only_await rfl) fun execution => ?_
      cases execution with
      | none => exact only_ret _
      | some execution => exact only_runAttempt env b job execution

theorem only_deliver (message : Nat) (token : Token) :
    (deliver env message token b).Only (Call.ofDelivery b) := by
  refine Only.bind (Only.tryCatch ?_ fun e => only_ret _) fun returned => ?_
  · exact Only.bind (only_processExecutionJob env b) fun _ => only_ret _
  · split <;> exact only_await trivial

/-! ### Outside `deadLetter` -/

/-- What a delivery calls outside `deadLetter`. -/
def Call.offDeadLetter (b : BullJob) : Call → Prop
  | .executionUpdate id data => id = b.data.executionId ∧ data.status ≠ .DEAD
  | .jobUpdate _ data => data = { consecutiveDeadCount := some (.set 0) }
  | .deadLetterAdd _ => False
  | _ => True

/-- The alert that the circuit of `j` has opened. -/
def SocketEvent.announces (j : JobId) : SocketEvent → Prop
  | .jobAlert payload => payload.kind = .circuitOpen ∧ payload.jobId = j
  | _ => False

instance (j : JobId) (msg : SocketEvent) : Decidable (msg.announces j) := by
  cases msg <;> unfold SocketEvent.announces <;> infer_instance

/-- The same without the alerts of `applyCircuitBreaker`. -/
def Call.offBreaker (b : BullJob) : Call → Prop
  | .redisPublish msg => ∀ j, ¬ msg.announces j
  | c => c.offDeadLetter b

variable {b} in
theorem Call.offBreaker.offDeadLetter {c : Call} (h : c.offBreaker b) : c.offDeadLetter b := by
  cases c with
  | redisPublish msg => trivial
  | _ => exact h

variable {σ : Type} {m : Async.Monitor Call.Reply Failure σ} {idle : σ}
  (hoff : ∀ c, c.offBreaker b → m.permits idle c ∧ ∀ r, m.next idle c r = idle)
  (hdead : ∀ errMsg statusCode durationMs, (deadLetter env b.data.executionId b.data.jobId
    b.attemptNumber errMsg statusCode durationMs).wp m idle fun st _ => st = idle)

include hoff

theorem wp_offBreaker {c : Call} (hc : c.offBreaker b) {α : Type} {f : c.Reply → Promise α}
    (h : ∀ a, (f a).wp m idle fun st _ => st = idle) :
    ((await c).bind f).wp m idle fun st _ => st = idle := by
  obtain ⟨hpermits, hnext⟩ := hoff c hc
  refine (wp_call_bind ..).mpr ⟨hpermits, fun a _ => ?_, fun e _ => hnext _⟩
  rw [hnext]
  exact h a

include hdead

theorem wp_failAttempt_deadLetter (kind : FailureKind) (statusCode : Option Nat)
    (message : String) (durationMs : Int) :
    (failAttempt env b kind statusCode message durationMs).wp m idle fun st _ => st = idle := by
  refine (wp_bind ..).mpr ((wp_inc ..).mpr ?_)
  dsimp only
  split
  · exact hdead _ _ _
  · apply Only.wp _ hoff
    refine Only.bind only_dateNow fun now => Only.bind (only_await ⟨rfl, nofun⟩) fun _ => ?_
    exact Only.bind (only_await fun _ => id) fun _ => only_fail _

theorem wp_runAttempt_deadLetter (job : Job) (execution : Execution) :
    (runAttempt env b job execution).wp m idle fun st _ => st = idle := by
  intro now
  apply wp_offBreaker b hoff
  · exact ⟨rfl, nofun⟩
  intro _
  apply wp_offBreaker b hoff
  · exact fun _ => id
  intro _
  apply (wp_bind ..).mpr
  have hfetch (url : String) (body : CallbackBody) (timeoutMs : Nat) :=
    hoff (.fetch url body timeoutMs) trivial
  refine wp_invokeCallback (hfetch ..).1 fun r _ result _ => ?_
  rw [(hfetch ..).2]
  cases result with
  | ok statusCode durationMs =>
    apply Only.wp _ hoff
    refine Only.bind only_dateNow fun now => Only.bind (only_await ⟨rfl, nofun⟩) fun _ => ?_
    refine Only.bind (Only.bind (only_await rfl) fun _ => only_ret _) fun _ => ?_
    refine Only.bind (only_inc _) fun _ => Only.bind (only_inc _) fun _ => ?_
    exact only_await fun _ => id
  | failed kind statusCode message durationMs =>
    exact wp_failAttempt_deadLetter env b hoff hdead _ _ _ _

/-- A monitor that only `deadLetter` moves, and moves back, ends every delivery where it
began. -/
theorem wp_deliver_deadLetter (message : Nat) (token : Token) :
    (deliver env message token b).wp m idle fun st _ => st = idle := by
  have hlookup : (lookupJob b.data.jobId).Only (Call.offBreaker b) := by
    refine Only.bind (Only.bind (only_await trivial) fun value => ?_) fun cached => ?_
    · split <;> exact only_ret _
    · cases cached with
      | some job => exact only_ret _
      | none => exact only_await trivial
  have hprocess : (processExecutionJob env b).wp m idle fun st _ => st = idle := by
    refine (wp_bind ..).mpr (wp_mono ?_ (hlookup.wp hoff))
    intro st r hst
    subst hst
    cases r with
    | error e => rfl
    | ok job =>
      cases job with
      | none => rfl
      | some job =>
        dsimp only
        split
        · rfl
        · apply wp_offBreaker b hoff
          · trivial
          intro found
          cases found with
          | none => rfl
          | some execution => exact wp_runAttempt_deadLetter env b hoff hdead job execution
  refine (wp_bind ..).mpr ((wp_tryCatch ..).mpr ((wp_bind ..).mpr (wp_mono ?_ hprocess)))
  intro st r hst
  subst hst
  have hmove {c : Call} (hc : c.offBreaker b) : (await c).wp m st fun st' _ => st' = st :=
    (wp_call ..).mpr ⟨(hoff c hc).1, fun r _ => (hoff c hc).2 r⟩
  cases r with
  | ok _ => exact hmove (c := .moveToCompleted message token) trivial
  | error e => exact hmove (c := .moveToFailed message token) trivial

end Delivery

/-! ## Requests -/

section Requests

variable (S : Setup)

theorem only_assertSafeCallbackUrl (url : String) (allowPrivate : Bool) :
    (assertSafeCallbackUrl S.platform url allowPrivate).Only Call.ofCheck := by
  unfold assertSafeCallbackUrl
  split
  · exact only_ret _
  · split
    · exact only_ret _
    · split
      · exact only_ret _
      · refine Only.bind (Only.tryCatch ?_ fun _ => only_ret _) fun _ => only_ret _
        exact Only.bind (only_await trivial) fun _ => only_ret _

theorem only_ensureSafeCallback (url : String) :
    (ensureSafeCallback S url).Only Call.ofCheck := by
  refine Only.bind (only_assertSafeCallbackUrl S url _) fun result => ?_
  split
  · exact only_ret _
  · exact only_fail _

theorem only_assertValidCron (cronExpression timezone : String) :
    (assertValidCron S.platform cronExpression timezone).Only Call.ofCheck := by
  unfold assertValidCron
  split
  · exact only_ret _
  · exact only_fail _

theorem only_checkCronUpdate (id : JobId) (data : UpdateJobInput) :
    (checkCronUpdate S id data).Only Call.ofCheck := by
  unfold checkCronUpdate
  split
  · refine Only.bind (only_await trivial) fun existing => ?_
    cases existing with
    | none => exact only_ret _
    | some existing => exact Only.bind (only_assertValidCron S _ _) fun _ => only_ret _
  · exact only_ret _

theorem only_ensureSafeUpdate (data : UpdateJobInput) :
    (ensureSafeUpdate S data).Only Call.ofCheck := by
  unfold ensureSafeUpdate
  split
  · exact only_ensureSafeCallback S _
  · exact only_ret _

theorem ofStoring_of_ofCheck (c : Call) (h : c.ofCheck) : c.ofStoring := by
  cases c <;> trivial

theorem only_createJob (input : CreateJobInput) : (createJob S input).Only Call.ofStoring := by
  refine Only.bind ((only_assertValidCron S _ _).mono ofStoring_of_ofCheck) fun _ => ?_
  refine Only.bind ((only_ensureSafeCallback S _).mono ofStoring_of_ofCheck) fun _ => ?_
  refine Only.bind (only_await trivial) fun job => ?_
  exact Only.bind (only_await ⟨job.id, rfl⟩) fun _ => only_ret _

theorem only_updateJob (id : JobId) (data : UpdateJobInput) :
    (updateJob S id data).Only Call.ofStoring := by
  refine Only.bind ((only_checkCronUpdate S id data).mono ofStoring_of_ofCheck) fun found => ?_
  split
  · refine Only.bind ((only_ensureSafeUpdate S data).mono ofStoring_of_ofCheck) fun _ => ?_
    refine Only.tryCatch ?_ fun _ => only_ret _
    refine Only.bind (only_await rfl) fun job => Only.bind (only_await ⟨id, rfl⟩) fun _ => ?_
    exact Only.bind (only_await ⟨job.id, rfl⟩) fun _ => only_ret _
  · exact only_ret _

theorem only_deleteJob (id : JobId) : (deleteJob id).Only Call.ofSwitching := by
  refine Only.tryCatch ?_ fun _ => only_ret _
  refine Only.bind (only_await trivial) fun _ => ?_
  exact Only.bind (only_await ⟨id, rfl⟩) fun _ => only_ret _

theorem only_invalidateAll (ids : List JobId) : (invalidateAll ids).Only Call.ofSwitching := by
  induction ids with
  | nil => exact only_ret _
  | cons id ids ih =>
    refine Only.bind (Only.tryCatch ?_ fun _ => only_ret _) fun first => ?_
    · exact Only.bind (only_await ⟨id, rfl⟩) fun _ => only_ret _
    · refine Only.bind ih fun _ => ?_
      cases first with
      | none => exact only_ret _
      | some e => exact only_fail _

theorem only_bulkSetEnabled (ids : List JobId) (enabled : Bool) :
    (bulkSetEnabled ids enabled).Only Call.ofSwitching :=
  Only.bind (only_await trivial) fun _ => Only.bind (only_invalidateAll ids) fun _ => only_ret _

theorem only_triggerJob (id : JobId) : (triggerJob S id).Only Call.ofTrigger := by
  refine Only.bind (only_await trivial) fun job => ?_
  cases job with
  | none => exact only_ret _
  | some job =>
    dsimp only
    split
    · exact only_ret _
    · refine only_acquireJobLock (fun _ _ => ⟨job.id, rfl⟩) (only_ret _) fun token => ?_
      refine Only.tryCatch ?_ fun e => ?_
      · refine Only.bind (only_await rfl) fun ex => ?_
        exact Only.bind (only_await rfl) fun _ => only_ret _
      · exact Only.bind (only_await ⟨job.id, rfl⟩) fun _ => only_fail _

end Requests

/-- The footprint of a task's thread. A delivery's message is fixed when it begins. -/
def Task.Calls (t : Task) (c : Call) : Prop :=
  match t with
  | .tick => c.ofTick
  | .deliver _ => ∃ b, c.ofDelivery b
  | .trigger _ => c.ofTrigger
  | .deleteJob _ => c.ofSwitching
  | .bulkSetEnabled _ _ => c.ofSwitching
  | _ => c.ofStoring

theorem only_start {S : Setup} {t : Task} {w w' : World} {p : Promise Response}
    (h : start S t w = some (w', p)) : p.Only t.Calls := by
  cases t with
  | tick =>
    cases h
    exact Only.bind (only_tick S) fun _ => only_ret _
  | deliver m =>
    simp only [start] at h
    split at h
    · rename_i data attempts _ attemptsMade _
      cases h
      exact Only.bind ((only_deliver S.env _ m _).mono fun c hc => ⟨_, hc⟩) fun _ => only_ret _
    · cases h
  | createJob input =>
    cases h
    exact Only.bind (only_createJob S input) fun _ => only_ret _
  | updateJob id data =>
    cases h
    exact Only.bind (only_updateJob S id data) fun _ => only_ret _
  | setPaused id paused =>
    cases h
    exact Only.bind (only_updateJob S id _) fun _ => only_ret _
  | deleteJob id =>
    cases h
    exact Only.bind (only_deleteJob id) fun _ => only_ret _
  | bulkSetEnabled ids enabled =>
    cases h
    exact Only.bind (only_bulkSetEnabled ids enabled) fun _ => only_ret _
  | trigger id =>
    cases h
    exact Only.bind (only_triggerJob S id) fun _ => only_ret _

/-! ## Calls that only a tick makes -/

def Call.offTick : Call → Prop
  | .jobFindMany => False
  | .redisSetNx key _ _ => ∀ j t, key ≠ jobLockKey j (.time t)
  | .executionCreate data => data.scheduledFor = none
  | .queueAdd data _ => data.fireSlot = .manual
  | _ => True

theorem Call.offTick_of_ofStoring {c : Call} (h : c.ofStoring) : c.offTick := by
  cases c <;> trivial

theorem Call.offTick_of_ofSwitching {c : Call} (h : c.ofSwitching) : c.offTick := by
  cases c <;> trivial

theorem Call.offTick_of_ofDelivery {c : Call} {b : BullJob} (h : c.ofDelivery b) :
    c.offTick := by
  cases c <;> trivial

theorem Call.offTick_of_ofTrigger {c : Call} (h : c.ofTrigger) : c.offTick := by
  cases c with
  | redisSetNx key value s =>
    obtain ⟨j', rfl⟩ := h
    intro j t hkey
    cases hkey
  | executionCreate data => exact h
  | queueAdd data opts => exact h
  | _ => trivial

theorem Task.offTick {t : Task} (ht : t ≠ .tick) {c : Call} (h : t.Calls c) : c.offTick := by
  cases t with
  | tick => exact absurd rfl ht
  | deliver m =>
    obtain ⟨b, hb⟩ := h
    exact Call.offTick_of_ofDelivery hb
  | trigger id => exact Call.offTick_of_ofTrigger h
  | deleteJob id => exact Call.offTick_of_ofSwitching h
  | bulkSetEnabled ids enabled => exact Call.offTick_of_ofSwitching h
  | _ => exact Call.offTick_of_ofStoring h

/-- What a monitor makes of ticks is what it makes of all tasks, if it ignores the others. -/
theorem monitored_begin {S : Setup} {σ : Type} {m : Async.Monitor Call.Reply Failure σ} {st : σ}
    {Q : σ → Except Failure Unit → Prop} {Q' : σ → Except Failure Response → Prop}
    (htick : (tick S).wp m st Q) (hQ : ∀ st' r r', Q st' r → Q' st' r')
    (ignores : ∀ c, c.offTick → m.permits st c ∧ ∀ r, m.next st c r = st)
    (hst : ∀ r, Q' st r) (t : Task) (w w' : World) (p : Promise Response)
    (h : start S t w = some (w', p)) : p.wp m st Q' := by
  by_cases ht : t = .tick
  · subst ht
    cases h
    simp only [bind_eq, wp_bind]
    refine wp_mono ?_ htick
    rintro st' (e | _) hst'
    · exact hQ _ _ _ hst'
    · exact hQ _ _ _ hst'
  · refine wp_mono ?_ ((only_start h).wp fun c hc => ignores c (t.offTick ht hc))
    rintro st' r rfl
    exact hst r

/-- The same for deliveries and a monitor that permits all calls of the other tasks. -/
theorem delivered_begin {S : Setup} {σ : Type} {m : Async.Monitor Call.Reply Failure σ} {st : σ}
    (hdeliver : ∀ message token b, (deliver S.env message token b).wp m st fun _ _ => True)
    (permitted : ∀ t : Task, (∀ message, t ≠ .deliver message) → ∀ c, t.Calls c →
      ∀ st, m.permits st c)
    (t : Task) (w w' : World) (p : Promise Response) (h : start S t w = some (w', p)) :
    p.wp m st fun _ _ => True := by
  by_cases ht : ∃ message, t = .deliver message
  · obtain ⟨message, rfl⟩ := ht
    simp only [start] at h
    split at h
    · cases h
      refine (wp_bind ..).mpr (wp_mono ?_ (hdeliver ..))
      intro st r _
      cases r <;> trivial
    · cases h
  · refine (only_start h).wp_permitted (fun st c hc => ?_) st
    exact permitted t (fun message hm => ht ⟨message, hm⟩) c hc st

end CronHive
