import CronHive.Footprints

/-!
# The phases of a tick iteration

Between its lock and the end of its iteration a thread is in a phase that fixes its next
call: with the lock it inserts, with the row it enqueues. The monitor follows the phases of
one thread through its calls, so that in every run the phase of a thread, read off the
trace, says what the thread awaits.
-/

namespace CronHive

set_option autoImplicit false

open Async Async.Prog Async.Machine

inductive Phase where
  | idle
  | locked (jobId : JobId) (slot : Int)
  | claimed (jobId : JobId) (slot : Int) (executionId : ExecutionId)

def Phase.next (st : Phase) : (c : Call) → Except Failure c.Reply → Phase
  | .redisSetNx key _ _ => fun granted =>
      match key, granted with
      | .lock j (.time t), .ok true => .locked j t
      | _, _ => st
  | .executionCreate data => fun inserted =>
      match data.scheduledFor, inserted with
      | some t, .ok x => .claimed data.jobId t x.id
      | some _, .error _ => .idle
      | none, _ => st
  | .queueAdd data _ => fun _ =>
      match data.fireSlot with
      | .time _ => .idle
      | .manual => st
  | _ => fun _ => st

/-- Scheduled inserts and scheduled messages belong to a phase of their own. -/
def Phase.permits : Phase → Call → Prop
  | .idle, .executionCreate data => data.scheduledFor = none
  | .idle, .queueAdd data _ => data.fireSlot = .manual
  | .idle, _ => True
  | .locked j t, c => c = .executionCreate ⟨j, some t, .schedule⟩
  | .claimed j t id, c => ∃ opts, c = .queueAdd ⟨id, j, .time t⟩ opts

def phases : Monitor Call.Reply Failure Phase where
  permits := Phase.permits
  admits _ _ _ := True
  next := Phase.next

theorem wp_claimSlot (job : Job) (slot : Int) (lock : JobLock) :
    (claimSlot job slot lock).wp phases (.locked job.id slot) fun st _ => st = .idle := by
  unfold claimSlot createScheduledExecution releaseJobLock
  simp [phases, forall_except, Phase.next, Phase.permits]

theorem wp_tickIteration (S : Setup) (job : Job) :
    (tickIteration S job).wp phases .idle fun st _ => st = .idle := by
  simp only [tickIteration, bind_eq, wp_bind, wp_dateNow]
  intro now
  split
  · rfl
  · rename_i slot _
    simp only [fireSlot, acquireJobLock, bind_eq, wp_bind, wp_randomUUID, wp_call]
    refine fun token => ⟨trivial, fun granted _ => ?_⟩
    cases granted with
    | error e => rfl
    | ok granted =>
      cases granted with
      | false => exact fun _ => rfl
      | true => exact wp_claimSlot job slot _

theorem wp_tickLoop (S : Setup) (jobs : List Job) :
    (tickLoop S jobs).wp phases .idle fun st _ => st = .idle := by
  induction jobs with
  | nil => rfl
  | cons job jobs ih =>
    simp only [tickLoop, bind_eq, wp_bind]
    refine wp_mono ?_ (wp_tickIteration S job)
    rintro st (e | _) rfl
    · rfl
    · exact ih

theorem wp_tick (S : Setup) : (tick S).wp phases .idle fun st _ => st = .idle := by
  simp only [tick, bind_eq, wp_bind, wp_inc, wp_call]
  refine ⟨trivial, fun jobs _ => ?_⟩
  cases jobs with
  | error e => rfl
  | ok jobs => exact wp_tickLoop S jobs

/-- Only ticks leave the idle phase. -/
theorem phases_ignore (c : Call) (hc : c.offTick) :
    phases.permits .idle c ∧ ∀ r, phases.next .idle c r = .idle := by
  cases c with
  | executionCreate data =>
    refine ⟨hc, fun r => ?_⟩
    simp only [phases, Phase.next, show data.scheduledFor = none from hc]
  | queueAdd data opts =>
    refine ⟨hc, fun r => ?_⟩
    simp only [phases, Phase.next, show data.fireSlot = .manual from hc]
  | redisSetNx key value s =>
    refine ⟨trivial, fun r => ?_⟩
    simp only [phases, Phase.next]
    split
    · exact absurd rfl (hc _ _)
    · rfl
  | _ => exact ⟨trivial, fun _ => rfl⟩

theorem phases_begin {S : Setup} (t : Task) (w w' : World) (p : Promise Response)
    (h : start S t w = some (w', p)) : p.wp phases .idle fun st _ => st = .idle :=
  monitored_begin (wp_tick S) (fun _ _ _ h => h) phases_ignore (fun _ => rfl) t w w' p h

/-! ## Phases in a run -/

/-- The phase of thread `i`. -/
def phaseAt (tr : List TraceEntry) (i : Nat) : Phase := phases.stateAt i .idle tr

theorem phaseAt_called (tr : List TraceEntry) (i i' : Nat) (c : Call)
    (reply : Option (Except Failure c.Reply)) (seen : Except Failure c.Reply) :
    phaseAt (tr ++ [.called i' c reply seen]) i =
      if i' = i then (phaseAt tr i).next c seen else phaseAt tr i := by
  simp only [phaseAt, Monitor.stateAt_append, Monitor.observe]
  rfl

@[simp] theorem phaseAt_began (tr : List TraceEntry) (i i' : Nat) (t : Task) :
    phaseAt (tr ++ [.began i' t]) i = phaseAt tr i := by
  simp [phaseAt, Monitor.observe]

@[simp] theorem phaseAt_stopped (tr : List TraceEntry) (i i' : Nat) :
    phaseAt (tr ++ [.stopped i']) i = phaseAt tr i := by
  simp [phaseAt, Monitor.observe]

@[simp] theorem phaseAt_outside (tr : List TraceEntry) (i : Nat) (x : Outside) :
    phaseAt (tr ++ [.outside x]) i = phaseAt tr i := by
  simp [phaseAt, Monitor.observe]

/-- The claimed phase is entered by a scheduled insert that its thread saw succeed. -/
theorem next_insert_claimed {st : Phase} {data : ExecutionCreate}
    {r : Except Failure Execution} {j : JobId} {t : Int} {id : ExecutionId}
    (h : st.next (.executionCreate data) r = .claimed j t id) :
    st = .claimed j t id ∨
      ∃ x, r = .ok x ∧ data.jobId = j ∧ data.scheduledFor = some t ∧ x.id = id := by
  cases hslot : data.scheduledFor with
  | none =>
    simp only [Phase.next, hslot] at h
    exact Or.inl h
  | some t' =>
    cases r with
    | error e =>
      simp only [Phase.next, hslot] at h
      cases h
    | ok x =>
      simp only [Phase.next, hslot, Phase.claimed.injEq] at h
      obtain ⟨hj, rfl, hid⟩ := h
      exact Or.inr ⟨x, rfl, hj, rfl, hid⟩

theorem next_claimed {st : Phase} {c : Call} {r : Except Failure c.Reply} {j : JobId} {t : Int}
    {id : ExecutionId} (hc : ∀ data, c ≠ .executionCreate data)
    (h : st.next c r = .claimed j t id) : st = .claimed j t id := by
  cases c with
  | executionCreate data => exact absurd rfl (hc data)
  | redisSetNx key value s =>
    simp only [Phase.next] at h
    split at h
    · cases h
    · exact h
  | queueAdd data opts =>
    simp only [Phase.next] at h
    split at h
    · cases h
    · exact h
  | _ => exact h

section Runs

variable {S : Setup} {w₀ : World} {s : SystemState} {i : Nat}

theorem phase_wp (h : Reachable S w₀ s) {tag : Task} {p : Promise Response}
    (hi : s.Live i tag p) : p.wp phases (phaseAt s.trace i) fun st _ => st = .idle :=
  h.monitored phases (fun _ => .idle) (fun _ st _ => st = .idle) phases_begin
    (fun _ _ _ _ _ _ _ _ => trivial) hi

theorem phase_permits (h : Reachable S w₀ s) {c : Call} (hi : s.Awaits i c) :
    (phaseAt s.trace i).permits c := by
  obtain ⟨tag, k, hi⟩ := hi
  exact (phase_wp h hi).1

theorem phase_awaits (h : Reachable S w₀ s) {tag : Task} {p : Promise Response}
    (hi : s.Live i tag p) (hne : phaseAt s.trace i ≠ .idle) :
    ∃ c, s.Awaits i c ∧ (phaseAt s.trace i).permits c := by
  cases p with
  | ret a => exact absurd (phase_wp h hi) hne
  | fail e => exact absurd (phase_wp h hi) hne
  | await c k => exact ⟨c, ⟨tag, k, hi⟩, (phase_wp h hi).1⟩
  | sync l k => exact (h.settled hi).elim

end Runs

/-! ## Iterations in a trace -/

/-- The calls of an iteration of thread `i` for slot `t` of job `j` that ended without a
failure. The flag tells whether it got the lock. -/
inductive CleanIteration (i : Nat) (j : JobId) (t : Int) : Bool → List TraceEntry → Prop where
  | enqueued (token : Token) (ttl : Nat) (x : Execution) (opts : JobsOptions) :
      CleanIteration i j t true
        [.answered i (.redisSetNx (jobLockKey j (.time t)) (.token token) ttl) (.ok true),
          .answered i (.executionCreate ⟨j, some t, .schedule⟩) (.ok x),
          .answered i (.queueAdd ⟨x.id, j, .time t⟩ opts) (.ok ())]
  | deduped (token : Token) (ttl : Nat) :
      CleanIteration i j t true
        [.answered i (.redisSetNx (jobLockKey j (.time t)) (.token token) ttl) (.ok true),
          .answered i (.executionCreate ⟨j, some t, .schedule⟩) (.error .p2002),
          .answered i (.redisRelease (jobLockKey j (.time t)) token) (.ok ())]
  | refused (token : Token) (ttl : Nat) :
      CleanIteration i j t false
        [.answered i (.redisSetNx (jobLockKey j (.time t)) (.token token) ttl) (.ok false)]

/-- Thread `i` has finished such an iteration: its calls stand in the trace one after the
other, with calls of other threads in between. -/
def Finished (tr : List TraceEntry) (i : Nat) (j : JobId) (t : Int) (locked : Bool) : Prop :=
  ∃ calls, CleanIteration i j t locked calls ∧ calls <:+: tr.filter (Entry.isCallOf i)

/-- The calls an iteration makes for one slot. -/
def Call.ofSlot (j : JobId) (t : Int) : Call → Prop
  | .redisSetNx key _ _ => key = jobLockKey j (.time t)
  | .redisRelease key _ => key = jobLockKey j (.time t)
  | .executionCreate data => data.jobId = j ∧ data.scheduledFor = some t
  | .queueAdd data _ => data.jobId = j ∧ data.fireSlot = .time t
  | _ => False

/-- Some thread is in the middle of an iteration for the slot. -/
def InFlight (s : SystemState) (j : JobId) (t : Int) : Prop := ∃ i c, s.Awaits i c ∧ c.ofSlot j t

/-- The entry is a `queue.add` for the slot that took effect. -/
def isFiring (j : JobId) (t : Int) : TraceEntry → Bool
  | .called _ (.queueAdd data _) (some (.ok _)) _ => data.jobId = j ∧ data.fireSlot = .time t
  | _ => false

/-- A `queue.add` for the slot has taken effect. -/
def Fired (tr : List TraceEntry) (j : JobId) (t : Int) : Prop := ∃ e ∈ tr, isFiring j t e

instance (tr : List TraceEntry) (j : JobId) (t : Int) : Decidable (Fired tr j t) :=
  inferInstanceAs (Decidable (∃ e ∈ tr, isFiring j t e))

theorem Finished.mem {tr : List TraceEntry} {i : Nat} {j : JobId} {t : Int} {locked : Bool}
    (h : Finished tr i j t locked) :
    ∃ calls, CleanIteration i j t locked calls ∧ ∀ e ∈ calls, e ∈ tr := by
  obtain ⟨calls, hc, hsub⟩ := h
  exact ⟨calls, hc, fun e he => List.mem_of_mem_filter (hsub.subset he)⟩

end CronHive
