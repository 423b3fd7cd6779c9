import CronHive.Async.Receipts
import CronHive.DeliveryProtocol
import CronHive.TickIsolation

/-!
# What the dashboard hears

Every event on the Redis channel comes from a delivery that has done what the event says: the
row was written with the same outcome before, after a callback that ended so. The events of
one delivery are the beginning of one of four scripts.
-/

namespace CronHive

set_option autoImplicit false

open Async Async.Prog Async.Machine

/-! ## What a delivery has done -/

section Claims

variable (d : ExecutionJobData) (calls : CallLog)

/-- The job was found enabled, in the cache or in its table. -/
structure Admitted (job : Job) : Prop where
  enabled : job.enabled = true
  read : ⟨.redisGet (jobConfigKey d.jobId), .ok (some (.job job))⟩ ∈ calls ∨
    ⟨.jobFindUnique d.jobId, .ok (some job)⟩ ∈ calls

/-- The execution was found and marked RUNNING for attempt `n`. -/
structure Marked (job : Job) (execution : Execution) (n : Nat) : Prop where
  admitted : Admitted d calls job
  found : ⟨.executionFindUnique d.executionId, .ok (some execution)⟩ ∈ calls
  running : ∃ now row, ⟨.executionUpdate d.executionId
    { status := .RUNNING
      startedAt := some (some (execution.startedAt.getD now))
      attemptNumber := some n
      finishedAt := some none }, .ok row⟩ ∈ calls

/-- Attempt `n` was announced and its callback made, which ended with `r`. -/
inductive Called (n : Nat) (r : Except Failure Nat) : Prop where
  | mk (job : Job) (execution : Execution) (marked : Marked d calls job execution n)
      (announced : ⟨.redisPublish (.jobStarted ⟨d.jobId, d.executionId, n,
        execution.triggerSource⟩), .ok ()⟩ ∈ calls)
      (fetched : ⟨.fetch job.callbackUrl ⟨job.id, job.name, d.executionId, n,
        execution.triggeredAt⟩ job.callbackTimeoutMs, r⟩ ∈ calls)

/-- The attempt's callback ended as the report says, and the row was written so. -/
inductive Recorded (report : Report) : Prop where
  | mk (r : Except Failure Nat) (about : report.Of r)
      (called : Called d calls report.attemptNumber r) (now : Int) (row : Execution)
      (written : ⟨.executionUpdate d.executionId (report.update now), .ok row⟩ ∈ calls)

/-- A DEAD was recorded and has its dead letter. -/
structure Buried (report : Report) : Prop where
  recorded : Recorded d calls report
  dead : report.status = .DEAD
  deadLetter : ⟨.deadLetterAdd (report.deadLetter d), .ok ()⟩ ∈ calls

/-- The job was disabled, with its dead streak at the threshold. -/
inductive Opened (env : Env) : Prop where
  | mk (counted row : Job)
      (streak : env.circuitBreakerConsecutiveDead ≤ counted.consecutiveDeadCount)
      (incremented : ⟨.jobUpdate d.jobId { consecutiveDeadCount := some (.increment 1) },
        .ok counted⟩ ∈ calls)
      (disabled : ⟨.jobUpdate d.jobId { enabled := some false }, .ok row⟩ ∈ calls)

variable {d calls} {calls' : CallLog}

theorem Admitted.mono {job : Job} (h : Admitted d calls job) (hsub : calls ⊆ calls') :
    Admitted d calls' job :=
  ⟨h.enabled, h.read.imp (fun hread => hsub hread) fun hread => hsub hread⟩

theorem Marked.mono {job : Job} {execution : Execution} {n : Nat}
    (h : Marked d calls job execution n) (hsub : calls ⊆ calls') :
    Marked d calls' job execution n := by
  obtain ⟨now, row, hrunning⟩ := h.running
  exact ⟨h.admitted.mono hsub, hsub h.found, now, row, hsub hrunning⟩

theorem Called.mono {n : Nat} {r : Except Failure Nat} (h : Called d calls n r)
    (hsub : calls ⊆ calls') : Called d calls' n r := by
  obtain ⟨job, execution, hmarked, hannounced, hfetched⟩ := h
  exact ⟨job, execution, hmarked.mono hsub, hsub hannounced, hsub hfetched⟩

theorem Recorded.mono {report : Report} (h : Recorded d calls report) (hsub : calls ⊆ calls') :
    Recorded d calls' report := by
  obtain ⟨r, habout, hcalled, now, row, hwritten⟩ := h
  exact ⟨r, habout, hcalled.mono hsub, now, row, hsub hwritten⟩

theorem Buried.mono {report : Report} (h : Buried d calls report) (hsub : calls ⊆ calls') :
    Buried d calls' report :=
  ⟨h.recorded.mono hsub, h.dead, hsub h.deadLetter⟩

theorem Opened.mono {env : Env} (h : Opened d calls env) (hsub : calls ⊆ calls') :
    Opened d calls' env := by
  obtain ⟨counted, row, hstreak, hincremented, hdisabled⟩ := h
  exact ⟨counted, row, hstreak, hsub hincremented, hsub hdisabled⟩

end Claims

/-- What a delivery has done when it stands at a phase. -/
def DeliveryPhase.Claims (env : Env) (d : ExecutionJobData) : DeliveryPhase → CallLog → Prop
  | .looking, _ => True
  | .allowed job, calls => Admitted d calls job
  | .ready job execution, calls => Admitted d calls job ∧
      ⟨.executionFindUnique d.executionId, .ok (some execution)⟩ ∈ calls
  | .marked job execution n, calls => Marked d calls job execution n
  | .started job execution n, calls => Marked d calls job execution n ∧
      ⟨.redisPublish (.jobStarted ⟨d.jobId, d.executionId, n, execution.triggerSource⟩), .ok ()⟩ ∈
        calls
  | .called n r, calls => Called d calls n r
  | .recorded report, calls => Recorded d calls report
  | .cleared report, calls => Recorded d calls report ∧ report.status = .SUCCESS
  | .buried report, calls => Buried d calls report
  | .counted report row, calls => Buried d calls report ∧
      ⟨.jobUpdate d.jobId { consecutiveDeadCount := some (.increment 1) }, .ok row⟩ ∈ calls
  | .opened report, calls => Buried d calls report ∧ Opened d calls env
  | .settled report, calls => Buried d calls report
  | .mourned report, calls => Buried d calls report ∧
      ⟨.redisPublish (.jobFailed (report.payload d)), .ok ()⟩ ∈ calls
  | .finished _, _ => True
  | .closed, _ => True

section Transcripts

variable {env : Env} {d : ExecutionJobData}

/-- Every call of a delivery adds what the next phase claims. -/
theorem claims_next {st : DeliveryPhase} {calls : CallLog} {a : Answer Call.Reply Failure}
    (h : st.Claims env d calls) (ha : st.Permits env d a.op) :
    (st.next a.op a.seen).Claims env d (calls ++ [a]) := by
  have hsub : calls ⊆ calls ++ [a] := List.subset_append_left _ _
  have hlast : a ∈ calls ++ [a] := List.mem_append_right _ (List.mem_singleton.mpr rfl)
  obtain ⟨op, seen⟩ := a
  cases ha with
  | cache =>
    rcases seen with e | _ | (token | job)
    · trivial
    · trivial
    · trivial
    · change (DeliveryPhase.ofJob job).Claims env d _
      unfold DeliveryPhase.ofJob
      split
      · rename_i henabled
        exact ⟨henabled, Or.inl hlast⟩
      · trivial
  | job =>
    rcases seen with e | _ | job
    · trivial
    · trivial
    · change (DeliveryPhase.ofJob job).Claims env d _
      unfold DeliveryPhase.ofJob
      split
      · rename_i henabled
        exact ⟨henabled, Or.inr hlast⟩
      · trivial
  | execution job =>
    rcases seen with e | _ | execution
    · trivial
    · trivial
    · exact ⟨h.mono hsub, hlast⟩
  | running job execution n now =>
    cases seen with
    | error e => trivial
    | ok row => exact ⟨h.1.mono hsub, hsub h.2, now, row, hlast⟩
  | started job execution n =>
    cases seen with
    | error e => trivial
    | ok u => exact ⟨h.mono hsub, hlast⟩
  | callback job execution n =>
    cases seen with
    | error e => exact ⟨job, execution, h.1.mono hsub, hsub h.2, hlast⟩
    | ok code => exact ⟨job, execution, h.1.mono hsub, hsub h.2, hlast⟩
  | outcome hof now =>
    cases seen with
    | error e => trivial
    | ok row => exact ⟨_, hof, h.mono hsub, now, row, hlast⟩
  | reset hstatus =>
    cases seen with
    | error e => trivial
    | ok row => exact ⟨h.mono hsub, hstatus⟩
  | success report => cases seen <;> trivial
  | failed hstatus => cases seen <;> trivial
  | deadLetter hstatus =>
    cases seen with
    | error e => trivial
    | ok u => exact ⟨h.mono hsub, hstatus, hlast⟩
  | increment report =>
    cases seen with
    | error e => trivial
    | ok row => exact ⟨h.mono hsub, hlast⟩
  | disable report hstreak =>
    cases seen with
    | error e => trivial
    | ok row => exact ⟨h.1.mono hsub, _, row, hstreak, hsub h.2, hlast⟩
  | circuitAlert report =>
    cases seen with
    | error e => trivial
    | ok u => exact h.1.mono hsub
  | closed report hstreak =>
    cases seen with
    | error e => trivial
    | ok u => exact ⟨h.1.mono hsub, hlast⟩
  | dead report =>
    cases seen with
    | error e => trivial
    | ok u => exact ⟨h.mono hsub, hlast⟩
  | deadAlert report => cases seen <;> trivial
  | completed m token => trivial
  | thrown m token => trivial

theorem claims_of_follows {calls : CallLog} (h : (protocol env d).Follows .looking calls) :
    ((protocol env d).after .looking calls).Claims env d calls :=
  h.keeps (R := fun st calls => st.Claims env d calls) trivial fun _ _ _ => claims_next

end Transcripts

/-! ## Scripts -/

def Call.announcement : Call → Option SocketEvent
  | .redisPublish msg => some msg
  | _ => none

def Call.burial : Call → Option DeadLetterJobData
  | .deadLetterAdd data => some data
  | _ => none

def beginning (d : ExecutionJobData) (n : Nat) (source : TriggerSource) : SocketEvent :=
  .jobStarted ⟨d.jobId, d.executionId, n, source⟩

/-- The events of a delivery that runs to its end, all for one attempt. -/
inductive Script (env : Env) (d : ExecutionJobData) : List SocketEvent → Prop where
  | success {report : Report} (h : report.status = .SUCCESS) (source : TriggerSource) :
      Script env d [beginning d report.attemptNumber source, .jobSuccess (report.payload d)]
  | failed {report : Report} (h : report.status = .FAILED) (source : TriggerSource) :
      Script env d [beginning d report.attemptNumber source, .jobFailed (report.payload d)]
  | dead {report : Report} (h : report.status = .DEAD) (source : TriggerSource) :
      Script env d [beginning d report.attemptNumber source, .jobFailed (report.payload d),
        .jobAlert (report.deadAlert d)]
  | opened {report : Report} (h : report.status = .DEAD) (source : TriggerSource) :
      Script env d [beginning d report.attemptNumber source, .jobAlert (circuitAlert env d),
        .jobFailed (report.payload d), .jobAlert (report.deadAlert d)]

/-- The events are the beginning of some script. -/
def Scripted (env : Env) (d : ExecutionJobData) (events : List SocketEvent) : Prop :=
  ∃ script, Script env d script ∧ events <+: script

/-- What a delivery has announced when it stands at a phase. -/
inductive DeliveryPhase.Announced (env : Env) (d : ExecutionJobData) :
    DeliveryPhase → List SocketEvent → Prop where
  | looking : Announced env d .looking []
  | allowed (job : Job) : Announced env d (.allowed job) []
  | ready (job : Job) (execution : Execution) : Announced env d (.ready job execution) []
  | marked (job : Job) (execution : Execution) (n : Nat) :
      Announced env d (.marked job execution n) []
  | started (job : Job) (execution : Execution) (n : Nat) (source : TriggerSource) :
      Announced env d (.started job execution n) [beginning d n source]
  | called (n : Nat) (r : Except Failure Nat) (source : TriggerSource) :
      Announced env d (.called n r) [beginning d n source]
  | recorded (report : Report) (source : TriggerSource) :
      Announced env d (.recorded report) [beginning d report.attemptNumber source]
  | cleared {report : Report} (h : report.status = .SUCCESS) (source : TriggerSource) :
      Announced env d (.cleared report) [beginning d report.attemptNumber source]
  | buried {report : Report} (h : report.status = .DEAD) (source : TriggerSource) :
      Announced env d (.buried report) [beginning d report.attemptNumber source]
  | counted {report : Report} (h : report.status = .DEAD) (row : Job) (source : TriggerSource) :
      Announced env d (.counted report row) [beginning d report.attemptNumber source]
  | opened {report : Report} (h : report.status = .DEAD) (source : TriggerSource) :
      Announced env d (.opened report) [beginning d report.attemptNumber source]
  | settled {report : Report} (h : report.status = .DEAD) (source : TriggerSource) :
      Announced env d (.settled report)
        [beginning d report.attemptNumber source, .jobAlert (circuitAlert env d)]
  | mourned {report : Report} (h : report.status = .DEAD) (source : TriggerSource) :
      Announced env d (.mourned report)
        [beginning d report.attemptNumber source, .jobFailed (report.payload d)]
  | mournedOpen {report : Report} (h : report.status = .DEAD) (source : TriggerSource) :
      Announced env d (.mourned report)
        [beginning d report.attemptNumber source, .jobAlert (circuitAlert env d),
          .jobFailed (report.payload d)]
  | finished {events : List SocketEvent} (h : Scripted env d events) (returned : Bool) :
      Announced env d (.finished returned) events
  | closed {events : List SocketEvent} (h : Scripted env d events) :
      Announced env d .closed events

section Scripts

variable {env : Env} {d : ExecutionJobData}

theorem scripted_begun {events : List SocketEvent} {n : Nat} {source : TriggerSource}
    (h : events <+: [beginning d n source]) : Scripted env d events := by
  have hscript := @Script.success env d ⟨n, .SUCCESS, none, 0, none⟩ rfl source
  exact ⟨_, hscript, h.trans (List.prefix_append _ [_])⟩

theorem DeliveryPhase.Announced.scripted {st : DeliveryPhase} {events : List SocketEvent}
    (h : st.Announced env d events) : Scripted env d events := by
  cases h with
  | looking => exact scripted_begun (List.nil_prefix (l := [beginning d 0 .manual]))
  | allowed job => exact scripted_begun (List.nil_prefix (l := [beginning d 0 .manual]))
  | ready job execution => exact scripted_begun (List.nil_prefix (l := [beginning d 0 .manual]))
  | marked job execution n => exact scripted_begun (List.nil_prefix (l := [beginning d 0 .manual]))
  | started job execution n source => exact scripted_begun List.prefix_rfl
  | called n r source => exact scripted_begun List.prefix_rfl
  | recorded report source => exact scripted_begun List.prefix_rfl
  | cleared h source => exact scripted_begun List.prefix_rfl
  | buried h source => exact scripted_begun List.prefix_rfl
  | counted h row source => exact scripted_begun List.prefix_rfl
  | opened h source => exact scripted_begun List.prefix_rfl
  | settled h source => exact ⟨_, .opened h source, [_, _], rfl⟩
  | mourned h source => exact ⟨_, .dead h source, [_], rfl⟩
  | mournedOpen h source => exact ⟨_, .opened h source, [_], rfl⟩
  | finished h returned => exact h
  | closed h => exact h

/-- Every call of a delivery leads to the next phase with what it announces. -/
theorem announced_next {st : DeliveryPhase} {events : List SocketEvent} {c : Call}
    (h : st.Announced env d events) (hc : st.Permits env d c) (r : Except Failure c.Reply) :
    (st.next c r).Announced env d (events ++ c.announcement.toList) := by
  have hquiet (hfinished : st.next c r = .finished false) (hnone : c.announcement = none) :
      (st.next c r).Announced env d (events ++ c.announcement.toList) := by
    rw [hfinished, hnone]
    exact .finished (by simpa using h.scripted) false
  cases hc with
  | cache =>
    cases h
    rcases r with e | _ | (token | job)
    · exact hquiet rfl rfl
    · exact .looking
    · exact .looking
    · change (DeliveryPhase.ofJob job).Announced env d []
      unfold DeliveryPhase.ofJob
      split
      · exact .allowed job
      · exact .finished DeliveryPhase.Announced.looking.scripted true
  | job =>
    cases h
    rcases r with e | _ | job
    · exact hquiet rfl rfl
    · exact .finished DeliveryPhase.Announced.looking.scripted true
    · change (DeliveryPhase.ofJob job).Announced env d []
      unfold DeliveryPhase.ofJob
      split
      · exact .allowed job
      · exact .finished DeliveryPhase.Announced.looking.scripted true
  | execution job =>
    cases h
    rcases r with e | _ | execution
    · exact hquiet rfl rfl
    · exact .finished DeliveryPhase.Announced.looking.scripted true
    · exact .ready job execution
  | running job execution n now =>
    cases h
    cases r with
    | error e => exact hquiet rfl rfl
    | ok row => exact .marked job execution n
  | started job execution n =>
    cases h
    cases r with
    | error e => exact .finished (scripted_begun List.prefix_rfl) false
    | ok u => exact .started job execution n execution.triggerSource
  | callback job execution n =>
    cases h with
    | started _ _ _ source => cases r <;> exact .called n _ source
  | outcome hof now =>
    cases h with
    | called _ _ source =>
      cases r with
      | error e => exact hquiet rfl rfl
      | ok row => exact .recorded _ source
  | reset hstatus =>
    cases h with
    | recorded _ source =>
      cases r with
      | error e => exact hquiet rfl rfl
      | ok row => exact .cleared hstatus source
  | success report =>
    cases h with
    | cleared hstatus source =>
      cases r <;> exact .finished ⟨_, .success hstatus source, List.prefix_rfl⟩ _
  | failed hstatus =>
    cases h with
    | recorded _ source =>
      cases r <;> exact .finished ⟨_, .failed hstatus source, List.prefix_rfl⟩ _
  | deadLetter hstatus =>
    cases h with
    | recorded _ source =>
      cases r with
      | error e => exact hquiet rfl rfl
      | ok u => exact .buried hstatus source
  | increment report =>
    cases h with
    | buried hstatus source =>
      cases r with
      | error e => exact hquiet rfl rfl
      | ok row => exact .counted hstatus row source
  | disable report hstreak =>
    cases h with
    | counted hstatus row source =>
      cases r with
      | error e => exact hquiet rfl rfl
      | ok row => exact .opened hstatus source
  | circuitAlert report =>
    cases h with
    | opened hstatus source =>
      cases r with
      | error e => exact .finished (DeliveryPhase.Announced.settled hstatus source).scripted false
      | ok u => exact .settled hstatus source
  | closed report hstreak =>
    cases h with
    | counted hstatus row source =>
      cases r with
      | error e => exact .finished (DeliveryPhase.Announced.mourned hstatus source).scripted false
      | ok u => exact .mourned hstatus source
  | dead report =>
    cases h with
    | settled hstatus source =>
      cases r with
      | error e =>
        exact .finished (DeliveryPhase.Announced.mournedOpen hstatus source).scripted false
      | ok u => exact .mournedOpen hstatus source
  | deadAlert report =>
    cases h with
    | mourned hstatus source =>
      cases r <;> exact .finished ⟨_, .dead hstatus source, List.prefix_rfl⟩ _
    | mournedOpen hstatus source =>
      cases r <;> exact .finished ⟨_, .opened hstatus source, List.prefix_rfl⟩ _
  | completed m token =>
    cases h with
    | finished h returned => exact .closed (by simpa [Call.announcement] using h)
  | thrown m token =>
    cases h with
    | finished h returned => exact .closed (by simpa [Call.announcement] using h)

end Scripts

/-! ## The channel and the dead-letter queue -/

theorem logs_published (S : Setup) : (system S).Logs Call.announcement World.published where
  exec c x w := by
    cases c with
    | redisPublish msg => rfl
    | _ =>
      simp only [Call.announcement, Option.toList_none]
      split <;> exact (List.append_nil _).symm
  eval l w := by cases l <;> rfl
  start t w w' p h := by
    cases t with
    | deliver m =>
      simp only [system, start] at h
      split at h
      · cases h
        rfl
      · cases h
    | _ =>
      cases h
      rfl
  outside x w w' h := by cases x <;> cases h <;> rfl

theorem logs_deadLetters (S : Setup) : (system S).Logs Call.burial World.deadLetters where
  exec c x w := by
    cases c with
    | deadLetterAdd data => rfl
    | _ =>
      simp only [Call.burial, Option.toList_none]
      split <;> exact (List.append_nil _).symm
  eval l w := World.eval_deadLetters l w
  start _ _ _ _ h := start_deadLetters h
  outside x w w' h := by cases x <;> cases h <;> rfl

/-- The events of thread `i` that reached the channel. -/
def publishedBy (i : Nat) (tr : List TraceEntry) : List SocketEvent :=
  (tr.filter (Entry.isCallOf i)).filterMap (Entry.logged Call.announcement)

/-- The processor makes no more calls. -/
def DeliveryPhase.over : DeliveryPhase → Prop
  | .finished _ => True
  | .closed => True
  | _ => False

section Permits

variable {env : Env} {d : ExecutionJobData} {st : DeliveryPhase}

theorem DeliveryPhase.Permits.not_over {msg : SocketEvent}
    (h : st.Permits env d (.redisPublish msg)) : ¬ st.over := by
  cases h with
  | _ => exact id

theorem DeliveryPhase.Permits.over_of_error {msg : SocketEvent}
    (h : st.Permits env d (.redisPublish msg)) (e : Failure) :
    (st.next (.redisPublish msg) (.error e)).over := by
  cases h with
  | _ => trivial

theorem DeliveryPhase.Permits.over_next {c : Call} (h : st.Permits env d c) (hst : st.over)
    (r : Except Failure c.Reply) : (st.next c r).over := by
  cases h with
  | completed m token => trivial
  | thrown m token => trivial
  | _ => exact hst.elim

end Permits

section Runs

variable {S : Setup} {w₀ : World} {s s' : SystemState}

theorem publishedBy_append (i : Nat) (tr : List TraceEntry) (e : TraceEntry) :
    publishedBy i (tr ++ [e]) = publishedBy i tr ++
      if e.isCallOf i then (e.logged Call.announcement).toList else [] := by
  unfold publishedBy
  rw [List.filter_append, List.filterMap_append]
  congr 1
  split
  · rename_i he
    rw [List.filter_cons_of_pos he]
    cases hlogged : e.logged Call.announcement with
    | none => simp [hlogged]
    | some a => simp [hlogged]
  · rename_i he
    rw [List.filter_cons_of_neg he]
    rfl

/-- What a delivery has put on the channel is what it has announced; a failed attempt to
announce is its last. -/
def InOrder (env : Env) (d : ExecutionJobData) (i : Nat) (tr : List TraceEntry) : Prop :=
  ∃ events, ((protocol env d).after .looking (transcript i tr)).Announced env d events ∧
    publishedBy i tr <+: events ∧
    (((protocol env d).after .looking (transcript i tr)).over ∨ publishedBy i tr = events)

theorem inOrder_call {env : Env} {d : ExecutionJobData} {i : Nat} {tr : List TraceEntry}
    (h : InOrder env d i tr) {c : Call} {o : Outcome Choice Failure} {w : World}
    (hc : ((protocol env d).after .looking (transcript i tr)).Permits env d c) :
    InOrder env d i
      (tr ++ [.called i c ((system S).attend c o w).2.1 ((system S).attend c o w).2.2]) := by
  obtain ⟨events, hannounced, hpre, hsame⟩ := h
  have hafter : (protocol env d).after .looking (transcript i
      (tr ++ [.called i c ((system S).attend c o w).2.1 ((system S).attend c o w).2.2])) =
      ((protocol env d).after .looking (transcript i tr)).next c
        ((system S).attend c o w).2.2 := by
    rw [transcript_own]
    exact Monitor.after_append _ _ _ _
  refine ⟨events ++ c.announcement.toList, ?_, ?_⟩
  · rw [hafter]
    exact announced_next hannounced hc _
  · rw [hafter, publishedBy_append, if_pos (by simp [Entry.isCallOf])]
    by_cases hpublish : ∃ msg, c = .redisPublish msg
    · obtain ⟨msg, rfl⟩ := hpublish
      have heq := hsame.resolve_left hc.not_over
      rw [heq]
      rcases attend_cases (M := system S) (.redisPublish msg) o w with
        ⟨⟨e, _, hseen⟩, _, hreply⟩ | ⟨a, _, hreply, _⟩
      · rw [hreply, hseen]
        exact ⟨by simp [Entry.logged], Or.inl (hc.over_of_error e)⟩
      · rw [hreply]
        exact ⟨List.prefix_rfl, Or.inr rfl⟩
    · have hnone : c.announcement = none := by
        cases c with
        | redisPublish msg => exact absurd ⟨msg, rfl⟩ hpublish
        | _ => rfl
      have hquiet (reply : Option (Except Failure c.Reply)) (seen : Except Failure c.Reply) :
          Entry.logged Call.announcement (.called i c reply seen : TraceEntry) = none := by
        refine Option.eq_none_iff_forall_ne_some.mpr fun msg hmsg => ?_
        cases hnone.symm.trans (Entry.item_of_logged hmsg)
      rw [hquiet, hnone]
      simp only [Option.toList_none, List.append_nil]
      exact ⟨hpre, hsame.imp_left fun hover => hc.over_next hover _⟩

theorem inOrder_frame {env : Env} {d : ExecutionJobData} {i : Nat} {tr : List TraceEntry}
    (h : InOrder env d i tr) {x : TraceEntry} (hx : x.isCallOf i = false) :
    InOrder env d i (tr ++ [x]) := by
  have hsame : publishedBy i (tr ++ [x]) = publishedBy i tr := by
    rw [publishedBy_append, hx]
    exact List.append_nil _
  unfold InOrder
  rw [transcript_other hx, hsame]
  exact h

theorem inOrder_begun {env : Env} {d : ExecutionJobData} {i : Nat} {tr : List TraceEntry}
    (h : ∀ op reply seen, Entry.called i op reply seen ∉ tr) : InOrder env d i tr := by
  have hcalls : transcript i tr = [] := Monitor.log.stateAt_of_absent [] h
  have hfilter : tr.filter (Entry.isCallOf i) = [] := by
    refine List.filter_eq_nil_iff.mpr fun e he hcall => ?_
    cases e with
    | called j op reply seen =>
      have hj : j = i := by simpa [Entry.isCallOf] using hcall
      subst hj
      exact h op reply seen he
    | _ => cases hcall
  have hnone : publishedBy i tr = [] := by
    rw [publishedBy, hfilter]
    rfl
  unfold InOrder
  rw [hcalls, hnone]
  exact ⟨[], .looking, List.prefix_rfl, Or.inr rfl⟩

theorem inOrder_of_reachable (hr : Reachable S w₀ s) {i : Nat} {d : ExecutionJobData}
    (hd : delivering s i = some d) : InOrder S.env d i s.trace := by
  induction hr generalizing i d with
  | refl => simp [delivering, State.fresh] at hd
  | @tail s s' e hr _ hs ih =>
    have hr' : Reachable S w₀ s' := hr.tail trivial hs
    obtain ⟨x, hx⟩ := hs.traced
    by_cases hnew : i < s.threads.length
    · have hbefore := (delivering_old hr hs hnew).symm.trans hd
      rw [hx]
      cases hcall : x.isCallOf i with
      | false => exact inOrder_frame (ih hbefore) hcall
      | true =>
        cases x with
        | called j op reply seen =>
          have hj : j = i := by simpa [Entry.isCallOf] using hcall
          subst hj
          obtain ⟨tag, k, o, _, _, _, rfl, rfl⟩ := hs.traced_call hx
          have hfollows := delivery_follows hr' hd
          rw [hx, transcript_own] at hfollows
          exact inOrder_call (ih hbefore) ((Monitor.follows_append _).mp hfollows).2
        | _ => cases hcall
    · obtain ⟨m, hm, _⟩ := delivering_iff.mp hd
      rcases hs.tag_cases hm with htag | ⟨w, p, _, hi, _, rfl⟩
      · obtain ⟨th, hth, _⟩ := Option.map_eq_some_iff.mp htag
        exact absurd (List.getElem?_eq_some_iff.mp hth).1 hnew
      · refine inOrder_begun fun op reply seen hm => ?_
        rcases hs.called hm with hm | ⟨_, _, _, hlive, _⟩
        · exact absurd (hr.numbered _ _ _ _ hm) hnew
        · exact absurd (List.getElem?_eq_some_iff.mp hlive).1 hnew

/-! ## Witnessed events -/

/-- What an event of a delivery of `d` says, the delivery has done. -/
def Witnessed (env : Env) (d : ExecutionJobData) (calls : CallLog) : SocketEvent → Prop
  | .jobStarted p => ∃ job execution, Marked d calls job execution p.attemptNumber ∧
      p = ⟨d.jobId, d.executionId, p.attemptNumber, execution.triggerSource⟩
  | .jobSuccess p => ∃ report, Recorded d calls report ∧ report.status = .SUCCESS ∧
      p = report.payload d
  | .jobFailed p => ∃ report, Recorded d calls report ∧ p = report.payload d ∧
      (report.status = .FAILED ∨ Buried d calls report)
  | .jobAlert p => (p = circuitAlert env d ∧ Opened d calls env) ∨
      ∃ report, Buried d calls report ∧ p = report.deadAlert d ∧
        ⟨.redisPublish (.jobFailed (report.payload d)), .ok ()⟩ ∈ calls

theorem witnessed_of_claims {env : Env} {d : ExecutionJobData} {st : DeliveryPhase}
    {calls : CallLog} {msg : SocketEvent} (h : st.Claims env d calls)
    (hc : st.Permits env d (.redisPublish msg)) : Witnessed env d calls msg := by
  cases hc with
  | started job execution n => exact ⟨job, execution, h, rfl⟩
  | success report => exact ⟨report, h.1, h.2, rfl⟩
  | failed hstatus => exact ⟨_, h, rfl, Or.inl hstatus⟩
  | circuitAlert report => exact Or.inl ⟨rfl, h.2⟩
  | closed report _ => exact ⟨report, h.1.recorded, rfl, Or.inr h.1⟩
  | dead report => exact ⟨report, h.recorded, rfl, Or.inr h⟩
  | deadAlert report => exact Or.inr ⟨report, h.1, rfl, h.2⟩

theorem buried_of_claims {env : Env} {d : ExecutionJobData} {st : DeliveryPhase} {calls : CallLog}
    {data : DeadLetterJobData} (h : st.Claims env d calls)
    (hc : st.Permits env d (.deadLetterAdd data)) :
    ∃ report, Recorded d calls report ∧ report.status = .DEAD ∧ data = report.deadLetter d := by
  cases hc with
  | deadLetter hstatus => exact ⟨_, h, hstatus, rfl⟩

/-- A call that only deliveries make, made by thread `i` after the calls before it. -/
theorem call_of_delivery (hr : Reachable S w₀ s) {i : Nat} {c : Call}
    {reply : Option (Except Failure c.Reply)} {seen : Except Failure c.Reply}
    (hm : Entry.called i c reply seen ∈ s.trace) (honly : ∀ t : Task, t.Calls c →
      ∃ m, t = .deliver m) : ∃ d calls post, delivering s i = some d ∧
      transcript i s.trace = calls ++ ⟨c, seen⟩ :: post ∧
      ((protocol S.env d).after .looking calls).Claims S.env d calls ∧
      ((protocol S.env d).after .looking calls).Permits S.env d c := by
  obtain ⟨tag, htag, hcalls⟩ := hr.called_only (fun _ _ _ _ => only_start) hm
  obtain ⟨m, rfl⟩ := honly tag hcalls
  obtain ⟨d, hd⟩ := delivering_of_tag hr htag
  obtain ⟨calls, post, hsplit⟩ := List.append_of_mem (mem_transcript.mpr ⟨reply, hm⟩)
  have hfollows := delivery_follows hr hd
  rw [hsplit] at hfollows
  exact ⟨d, calls, post, hd, hsplit, claims_of_follows hfollows.permits.1, hfollows.permits.2⟩

theorem only_delivery_announces {msg : SocketEvent} (t : Task) (h : t.Calls (.redisPublish msg)) :
    ∃ m, t = .deliver m := by
  cases t with
  | deliver m => exact ⟨m, rfl⟩
  | _ => exact h.elim

theorem only_delivery_buries {data : DeadLetterJobData} (t : Task)
    (h : t.Calls (.deadLetterAdd data)) : ∃ m, t = .deliver m := by
  cases t with
  | deliver m => exact ⟨m, rfl⟩
  | _ => exact h.elim

end Runs

/-! ## What holds in every run -/

/-- An event on the channel was put there by a delivery that had done what it says. -/
theorem events_truthful {S : Setup} {jobs : List Job} {hjobs : (jobs.map (·.id)).Nodup}
    {clock : Nat → Int} {s : SystemState} (hr : Reachable S (.initial jobs hjobs clock) s)
    {msg : SocketEvent} (hmsg : msg ∈ s.world.published) :
    ∃ i d calls seen post, delivering s i = some d ∧
      transcript i s.trace = calls ++ ⟨.redisPublish msg, seen⟩ :: post ∧
      Witnessed S.env d calls msg := by
  rw [hr.log_eq (logs_published S)] at hmsg
  obtain ⟨i, c, r, seen, hm, hc⟩ := Entry.called_of_logged hmsg
  cases c with
  | redisPublish msg' =>
    cases hc
    obtain ⟨d, calls, post, hd, hsplit, hclaims, hpermits⟩ :=
      call_of_delivery hr hm only_delivery_announces
    exact ⟨i, d, calls, seen, post, hd, hsplit, witnessed_of_claims hclaims hpermits⟩
  | _ => cases hc

/-- A dead letter was added by a delivery that had recorded the DEAD it reports. -/
theorem dead_letters_truthful {S : Setup} {jobs : List Job} {hjobs : (jobs.map (·.id)).Nodup}
    {clock : Nat → Int} {s : SystemState} (hr : Reachable S (.initial jobs hjobs clock) s)
    {data : DeadLetterJobData} (hdata : data ∈ s.world.deadLetters) :
    ∃ i d calls seen post report, delivering s i = some d ∧
      transcript i s.trace = calls ++ ⟨.deadLetterAdd data, seen⟩ :: post ∧
      Recorded d calls report ∧ report.status = .DEAD ∧ data = report.deadLetter d := by
  rw [hr.log_eq (logs_deadLetters S)] at hdata
  obtain ⟨i, c, r, seen, hm, hc⟩ := Entry.called_of_logged hdata
  cases c with
  | deadLetterAdd data' =>
    cases hc
    obtain ⟨d, calls, post, hd, hsplit, hclaims, hpermits⟩ :=
      call_of_delivery hr hm only_delivery_buries
    obtain ⟨report, hrecorded, hdead, hdata⟩ := buried_of_claims hclaims hpermits
    exact ⟨i, d, calls, seen, post, report, hd, hsplit, hrecorded, hdead, hdata⟩
  | _ => cases hc

/-- The channel carries what the threads have put on it, in that order, and each thread's part
is the beginning of a script of the message it delivers. -/
theorem events_in_order {S : Setup} {jobs : List Job} {hjobs : (jobs.map (·.id)).Nodup}
    {clock : Nat → Int} {s : SystemState} (hr : Reachable S (.initial jobs hjobs clock) s) :
    s.world.published = s.trace.filterMap (Entry.logged Call.announcement) ∧
      ∀ i, publishedBy i s.trace ≠ [] → ∃ d, delivering s i = some d ∧
        Scripted S.env d (publishedBy i s.trace) := by
  refine ⟨hr.log_eq (logs_published S), fun i hi => ?_⟩
  obtain ⟨msg, hmsg⟩ := List.exists_mem_of_ne_nil _ hi
  obtain ⟨e, he, hlogged⟩ := List.mem_filterMap.mp hmsg
  obtain ⟨hm, hcall⟩ := List.mem_filter.mp he
  cases e with
  | called j c reply seen =>
    have hj : j = i := by simpa [Entry.isCallOf] using hcall
    subst hj
    have hsome := Entry.item_of_logged hlogged
    cases c with
    | redisPublish msg' =>
      obtain ⟨d, _, _, hd, _⟩ := call_of_delivery hr hm only_delivery_announces
      obtain ⟨events, hannounced, hpre, _⟩ := inOrder_of_reachable hr hd
      obtain ⟨script, hscript, hevents⟩ := hannounced.scripted
      exact ⟨d, hd, script, hscript, hpre.trans hevents⟩
    | _ => cases hsome
  | _ => cases hcall

/-- A job with a single attempt, which fails. -/
def singleAttemptWorld : World :=
  .initial [{ Sample.job with maxRetries := 0 }] (List.nodup_singleton _) fun _ => 60010

def singleAttemptRun : List SystemEvent :=
  [.begin .tick] ++ List.replicate 4 (Sample.answered 0) ++
    [.begin (.deliver 0)] ++ List.replicate 12 (Sample.answered 1)

def deadEvent : SocketEvent := .jobFailed ⟨"job-1", 0, .DEAD, none, 0, 1⟩

def fetchFailedLetter : DeadLetterJobData :=
  ⟨0, "job-1", "max_retries_exceeded", "network: fetch failed"⟩

theorem events_truthful_dead : ∃ s, deadEvent ∈ s.world.published ∧
    ∃ i d calls seen post, delivering s i = some d ∧
      transcript i s.trace = calls ++ ⟨.redisPublish deadEvent, seen⟩ :: post ∧
      Witnessed Sample.setup.env d calls deadEvent := by
  have hrun : ((system Sample.setup).run (.fresh singleAttemptWorld) singleAttemptRun).map
      (fun s => decide (deadEvent ∈ s.world.published)) = some true := by decide +kernel
  obtain ⟨s, hs, hmem⟩ := Option.map_eq_some_iff.mp hrun
  have hr : Reachable Sample.setup singleAttemptWorld s := .of_run hs fun _ _ _ => trivial
  exact ⟨s, of_decide_eq_true hmem, events_truthful hr (of_decide_eq_true hmem)⟩

theorem dead_letters_truthful_dead : ∃ s, fetchFailedLetter ∈ s.world.deadLetters ∧
    ∃ i d calls seen post report, delivering s i = some d ∧
      transcript i s.trace = calls ++ ⟨.deadLetterAdd fetchFailedLetter, seen⟩ :: post ∧
      Recorded d calls report ∧ report.status = .DEAD ∧
        fetchFailedLetter = report.deadLetter d := by
  have hrun : ((system Sample.setup).run (.fresh singleAttemptWorld) singleAttemptRun).map
      (fun s => decide (fetchFailedLetter ∈ s.world.deadLetters)) = some true := by decide +kernel
  obtain ⟨s, hs, hmem⟩ := Option.map_eq_some_iff.mp hrun
  have hr : Reachable Sample.setup singleAttemptWorld s := .of_run hs fun _ _ _ => trivial
  exact ⟨s, of_decide_eq_true hmem, dead_letters_truthful hr (of_decide_eq_true hmem)⟩

theorem events_in_order_dead : ∃ s, s.world.published.length = 3 ∧
    s.world.published = s.trace.filterMap (Entry.logged Call.announcement) ∧
      ∀ i, publishedBy i s.trace ≠ [] → ∃ d, delivering s i = some d ∧
        Scripted Sample.setup.env d (publishedBy i s.trace) := by
  have hrun : ((system Sample.setup).run (.fresh singleAttemptWorld) singleAttemptRun).map
      (fun s => s.world.published.length) = some 3 := by decide +kernel
  obtain ⟨s, hs, hlength⟩ := Option.map_eq_some_iff.mp hrun
  have hr : Reachable Sample.setup singleAttemptWorld s := .of_run hs fun _ _ _ => trivial
  exact ⟨s, hlength, events_in_order hr⟩

end CronHive
