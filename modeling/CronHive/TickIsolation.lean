import CronHive.Async.Recorder
import CronHive.Async.Transcript
import CronHive.Deliveries

/-!
# What a tick does for each job

The loop of `tick` goes through the jobs one by one and ends with the first iteration that
rejects: a job is served only if no job before it in the scan fails. Each iteration reads the
clock for itself, so the slot that is due is the one at its own reading.
-/

namespace CronHive

set_option autoImplicit false

open Async Async.Prog Async.Machine

abbrev CallLog : Type := List (Answer Call.Reply Failure)

def callsOf (tr : List TraceEntry) (i : Nat) : CallLog := Monitor.log.stateAt i [] tr

/-! ## The diary of a thread -/

inductive Act where
  | read (now : Int)
  | call (a : Answer Call.Reply Failure)
  deriving DecidableEq

def Act.answer? : Act → Option (Answer Call.Reply Failure)
  | .read _ => none
  | .call a => some a

def Act.ofLocal : (l : Local) → l.Value → List Act
  | .dateNow, now => [.read now]
  | _, _ => []

/-- Takes down the calls and the readings of the clock. -/
def diary : Recorder Call.Reply Local.Value Failure (List Act) where
  call acts op seen := acts ++ [.call ⟨op, seen⟩]
  effect acts l v := acts ++ Act.ofLocal l v

/-- What thread `i` has called and read in a run, in its order. -/
def actsOf (S : Setup) (w₀ : World) (es : List SystemEvent) (i : Nat) : List Act :=
  (system S).recordOf diary i [] (.fresh w₀) es

theorem answers_actsOf {S : Setup} {w₀ : World} {es : List SystemEvent} {s : SystemState}
    (h : (system S).run (.fresh w₀) es = some s) (i : Nat) :
    (actsOf S w₀ es i).filterMap Act.answer? = callsOf s.trace i := by
  refine map_recordOf (m := Monitor.log) (f := List.filterMap Act.answer?) ?_ ?_ h
  · intro acts op r
    simp [diary, Monitor.log, Act.answer?]
  · intro acts l v
    cases l <;> simp [diary, Act.ofLocal, Act.answer?]

/-! ## One iteration -/

section Calls

variable (S : Setup) (job : Job) (slot : Int)

abbrev lockCall (token : Token) : Call :=
  .redisSetNx (jobLockKey job.id (.time slot)) (.token token)
    (if computeJobLockTtlSeconds S.env job < 1 then 1 else computeJobLockTtlSeconds S.env job)

abbrev insertCall : Call := .executionCreate ⟨job.id, some slot, .schedule⟩

abbrev addCall (x : Execution) : Call :=
  .queueAdd ⟨x.id, job.id, .time slot⟩ (executionJobOptions job)

abbrev releaseCall (token : Token) : Call := .redisRelease (jobLockKey job.id (.time slot)) token

/-- The job's due slot at an instant. -/
abbrev dueSlot (now : Int) : Option Int := dueFireSlot S job.cronExpression job.timezone now

end Calls

/-- An iteration that ends without a failure: at its reading of the clock the job has no due slot,
or the slot's lock is another's, or the slot has its row already, or it gets its row and its
message. -/
inductive JobServed (S : Setup) (job : Job) : List Act → Prop where
  | notDue {now : Int} (h : dueSlot S job now = none) : JobServed S job [.read now]
  | refused {now slot : Int} (h : dueSlot S job now = some slot) (token : Token) :
      JobServed S job [.read now, .call ⟨lockCall S job slot token, .ok false⟩]
  | deduped {now slot : Int} (h : dueSlot S job now = some slot) (token : Token) :
      JobServed S job [.read now, .call ⟨lockCall S job slot token, .ok true⟩,
        .call ⟨insertCall job slot, .error .p2002⟩, .call ⟨releaseCall job slot token, .ok ()⟩]
  | enqueued {now slot : Int} (h : dueSlot S job now = some slot) (token : Token) (x : Execution) :
      JobServed S job [.read now, .call ⟨lockCall S job slot token, .ok true⟩,
        .call ⟨insertCall job slot, .ok x⟩, .call ⟨addCall job slot x, .ok ()⟩]

/-- An iteration that rejects: the lock, the insert, the release after a duplicate or the
`queue.add` fails; but for the first, the lock is then released. -/
inductive JobRejected (S : Setup) (job : Job) : List Act → Prop where
  | lock {now slot : Int} (h : dueSlot S job now = some slot) (token : Token) (e : Failure) :
      JobRejected S job [.read now, .call ⟨lockCall S job slot token, .error e⟩]
  | insert {now slot : Int} (h : dueSlot S job now = some slot) (token : Token) {e : Failure}
      (he : e ≠ .p2002) (r : Except Failure Unit) :
      JobRejected S job [.read now, .call ⟨lockCall S job slot token, .ok true⟩,
        .call ⟨insertCall job slot, .error e⟩, .call ⟨releaseCall job slot token, r⟩]
  | release {now slot : Int} (h : dueSlot S job now = some slot) (token : Token) (e : Failure)
      (r : Except Failure Unit) :
      JobRejected S job [.read now, .call ⟨lockCall S job slot token, .ok true⟩,
        .call ⟨insertCall job slot, .error .p2002⟩, .call ⟨releaseCall job slot token, .error e⟩,
        .call ⟨releaseCall job slot token, r⟩]
  | add {now slot : Int} (h : dueSlot S job now = some slot) (token : Token) (x : Execution)
      (e : Failure) (r : Except Failure Unit) :
      JobRejected S job [.read now, .call ⟨lockCall S job slot token, .ok true⟩,
        .call ⟨insertCall job slot, .ok x⟩, .call ⟨addCall job slot x, .error e⟩,
        .call ⟨releaseCall job slot token, r⟩]

theorem records_claimSlot {S : Setup} {job : Job} {now slot : Int}
    (hdue : dueSlot S job now = some slot) (token : Token) (acts : List Act) :
    (claimSlot job slot ⟨job.id, .time slot, token⟩).records diary
      (acts ++ [.read now, .call ⟨lockCall S job slot token, .ok true⟩])
      fun acts' r => match r with
        | .ok _ => ∃ its, JobServed S job its ∧ acts' = acts ++ its
        | .error _ => ∃ its, JobRejected S job its ∧ acts' = acts ++ its := by
  unfold claimSlot createScheduledExecution releaseJobLock
  simp [diary, Act.ofLocal, forall_except, await, inc]
  constructor
  · intro x
    refine ⟨fun _ => .enqueued hdue token x, fun e => ?_⟩
    exact ⟨fun r => .add hdue token x e (.ok r), fun e' => .add hdue token x e (.error e')⟩
  · intro e
    split
    · rename_i he
      subst he
      refine ⟨fun _ => .deduped hdue token, fun e => ?_⟩
      exact ⟨fun r => .release hdue token e (.ok r), fun e' => .release hdue token e (.error e')⟩
    · rename_i he
      exact ⟨fun r => .insert hdue token he (.ok r),
        fun e' => .insert hdue token he (.error e')⟩

theorem records_tickIteration (S : Setup) (job : Job) (acts : List Act) :
    (tickIteration S job).records diary acts fun acts' r => match r with
      | .ok _ => ∃ its, JobServed S job its ∧ acts' = acts ++ its
      | .error _ => ∃ its, JobRejected S job its ∧ acts' = acts ++ its := by
  simp only [tickIteration, dateNow, bind_eq, records_bind, records_effect]
  intro now
  split
  · rename_i hdue
    exact ⟨_, .notDue hdue, rfl⟩
  · rename_i slot hdue
    simp only [fireSlot, acquireJobLock, randomUUID, await, bind_eq, records_bind, records_effect,
      records_perform]
    intro token granted
    have hacts : diary.call (diary.effect (diary.effect acts .dateNow now) .randomUUID token)
        (lockCall S job slot token) granted =
        acts ++ [.read now, .call ⟨lockCall S job slot token, granted⟩] := by
      simp [diary, Act.ofLocal]
    rw [hacts]
    cases granted with
    | error e => exact ⟨_, .lock hdue token e, rfl⟩
    | ok granted =>
      cases granted with
      | false => exact fun _ => ⟨_, .refused hdue token, by simp [diary, Act.ofLocal]⟩
      | true => exact records_claimSlot hdue token acts

/-! ## The loop -/

/-- An iteration that has been run to its end. -/
structure Iteration (S : Setup) where
  job : Job
  acts : List Act
  rejected : Bool
  ran : match rejected with
    | true => JobRejected S job acts
    | false => JobServed S job acts

/-- The iterations of the loop over the jobs, up to the first that rejects. -/
inductive LoopRun (S : Setup) : List Job → List (Iteration S) → Prop where
  | nil : LoopRun S [] []
  | next {job : Job} {it : Iteration S} {jobs : List Job} {its : List (Iteration S)}
      (hjob : it.job = job) (hit : it.rejected = false) (h : LoopRun S jobs its) :
      LoopRun S (job :: jobs) (it :: its)
  | rejects {job : Job} {it : Iteration S} (hjob : it.job = job) (hit : it.rejected = true)
      (jobs : List Job) : LoopRun S (job :: jobs) [it]

theorem records_tickLoop (S : Setup) (jobs : List Job) (acts : List Act) :
    (tickLoop S jobs).records diary acts fun acts' _ =>
      ∃ its, LoopRun S jobs its ∧ acts' = acts ++ its.flatMap (·.acts) := by
  induction jobs generalizing acts with
  | nil => exact ⟨[], .nil, (List.append_nil acts).symm⟩
  | cons job jobs ih =>
    simp only [tickLoop, bind_eq, records_bind]
    refine records_mono ?_ (records_tickIteration S job acts)
    intro acts' r hr
    cases r with
    | error e =>
      obtain ⟨made, hmade, rfl⟩ := hr
      let it : Iteration S := ⟨job, made, true, hmade⟩
      have hjob : it.job = job := rfl
      exact ⟨[it], .rejects hjob rfl jobs, by simp [it]⟩
    | ok u =>
      obtain ⟨made, hmade, rfl⟩ := hr
      refine records_mono ?_ (ih (acts ++ made))
      intro acts'' _ hloop
      obtain ⟨its, hits, rfl⟩ := hloop
      let it : Iteration S := ⟨job, made, false, hmade⟩
      have hjob : it.job = job := rfl
      exact ⟨it :: its, .next hjob rfl hits, by simp [it]⟩

theorem records_tick (S : Setup) : (tick S).records diary [] fun acts _ =>
    (∃ e, acts = [.call ⟨.jobFindMany, .error e⟩]) ∨
      ∃ jobs its, LoopRun S jobs its ∧
        acts = .call ⟨.jobFindMany, .ok jobs⟩ :: its.flatMap (·.acts) := by
  simp only [tick, inc, await, bind_eq, records_bind, records_effect, records_perform]
  intro _ r
  cases r with
  | error e => exact Or.inl ⟨e, rfl⟩
  | ok jobs =>
    refine records_mono ?_ (records_tickLoop S jobs [.call ⟨.jobFindMany, .ok jobs⟩])
    intro acts _ hloop
    obtain ⟨its, hits, rfl⟩ := hloop
    exact Or.inr ⟨jobs, its, hits, rfl⟩

/-! ## Who is served -/

/-- Thread `i` has inserted the slot's execution and put its message into the queue. -/
def EnqueuedBy (s : SystemState) (i : Nat) (job : Job) (slot : Int) : Prop :=
  ∃ x, Inserted s.trace i x ∧ x.jobId = job.id ∧ x.scheduledFor = some slot ∧
    x.status = .PENDING ∧ ∃ msg ∈ s.world.queue, msg.data = ⟨x.id, job.id, .time slot⟩

/-- In the iteration the slot's lock was another's, or the slot had its row. -/
def TakenBefore (S : Setup) (job : Job) (slot : Int) (acts : List Act) : Prop :=
  (∃ token, .call ⟨lockCall S job slot token, .ok false⟩ ∈ acts) ∨
    .call ⟨insertCall job slot, .error .p2002⟩ ∈ acts

/-- Every job whose iteration does not reject has its iteration in tick `i`: if it has a due slot
when the iteration reads the clock, the slot gets its row and its message, unless it is taken. -/
def ServesOthers {S : Setup} (s : SystemState) (i : Nat) (rejecting : Set Job) (jobs : List Job)
    (its : List (Iteration S)) : Prop :=
  ∀ (k : Nat) (job : Job), jobs[k]? = some job → job ∉ rejecting →
    ∃ it : Iteration S, its[k]? = some it ∧ it.job = job ∧
      ∃ now, it.acts.head? = some (.read now) ∧ ∀ slot, dueSlot S job now = some slot →
        EnqueuedBy s i job slot ∨ TakenBefore S job slot it.acts

def ActedBy (s : SystemState) (i : Nat) (acts : List Act) : Prop :=
  acts.filterMap Act.answer? ⊆ callsOf s.trace i

theorem ActedBy.called {s : SystemState} {i : Nat} {acts : List Act} (h : ActedBy s i acts)
    {c : Call} {seen : Except Failure c.Reply} (hc : .call ⟨c, seen⟩ ∈ acts) :
    ∃ reply, Entry.called i c reply seen ∈ s.trace :=
  mem_transcript.mp (h (List.mem_filterMap.mpr ⟨_, hc, rfl⟩))

theorem enqueuedBy_of_acts {S : Setup} {w₀ : World} {s : SystemState} (hr : Reachable S w₀ s)
    {i : Nat} {acts : List Act} (h : ActedBy s i acts) {job : Job} {slot : Int} {x : Execution}
    (hinsert : .call ⟨insertCall job slot, .ok x⟩ ∈ acts)
    (hadd : .call ⟨addCall job slot x, .ok ()⟩ ∈ acts) : EnqueuedBy s i job slot := by
  obtain ⟨reply, hinserted⟩ := h.called hinsert
  obtain rfl := hr.seen_ok hinserted
  obtain ⟨reply, hadded⟩ := h.called hadd
  obtain rfl := hr.seen_ok hadded
  obtain ⟨id, now, rfl⟩ := inserted_row hr hinserted
  obtain ⟨msg, hmsg, hdata⟩ := List.mem_map.mp (queued_of_added hr hadded)
  exact ⟨_, ⟨_, _, hinserted⟩, rfl, rfl, rfl, msg, hmsg, hdata⟩

theorem JobServed.serves {S : Setup} {w₀ : World} {s : SystemState} (hr : Reachable S w₀ s)
    {i : Nat} {job : Job} {acts : List Act} (hacts : ActedBy s i acts)
    (h : JobServed S job acts) : ∃ now, acts.head? = some (.read now) ∧
      ∀ slot, dueSlot S job now = some slot →
        EnqueuedBy s i job slot ∨ TakenBefore S job slot acts := by
  cases h with
  | @notDue now hdue =>
    refine ⟨now, rfl, fun slot hslot => ?_⟩
    rw [hdue] at hslot
    cases hslot
  | @refused now slot hdue token =>
    refine ⟨now, rfl, fun slot' hslot => Or.inr (Or.inl ⟨token, ?_⟩)⟩
    rw [hdue] at hslot
    cases hslot
    simp
  | @deduped now slot hdue token =>
    refine ⟨now, rfl, fun slot' hslot => Or.inr (Or.inr ?_)⟩
    rw [hdue] at hslot
    cases hslot
    simp
  | @enqueued now slot hdue token x =>
    refine ⟨now, rfl, fun slot' hslot => Or.inl ?_⟩
    rw [hdue] at hslot
    cases hslot
    exact enqueuedBy_of_acts (x := x) hr hacts (by simp) (by simp)

/-- No job whose iteration does not reject stands behind one whose iteration does. -/
def RejectingLast (rejecting : Set Job) (jobs : List Job) : Prop :=
  jobs.Pairwise fun a b => a ∈ rejecting → b ∈ rejecting

/-- The iterations that have been run reject just for the jobs in the set. -/
def RejectsFor {S : Setup} (rejecting : Set Job) (its : List (Iteration S)) : Prop :=
  ∀ it ∈ its, it.rejected = true ↔ it.job ∈ rejecting

theorem rejectingLast_cons {rejecting : Set Job} {job : Job} {jobs : List Job}
    (hnot : job ∉ rejecting) :
    RejectingLast rejecting (job :: jobs) ↔ RejectingLast rejecting jobs := by
  unfold RejectingLast
  rw [List.pairwise_cons]
  constructor
  · intro h
    exact h.2
  · intro h
    exact ⟨fun b _ hmem => absurd hmem hnot, h⟩

theorem servesOthers_iff {S : Setup} {w₀ : World} {s : SystemState} (hr : Reachable S w₀ s)
    {i : Nat} {rejecting : Set Job} {jobs : List Job} {its : List (Iteration S)}
    (h : LoopRun S jobs its) (hacts : ∀ it ∈ its, ActedBy s i it.acts)
    (hits : RejectsFor rejecting its) :
    ServesOthers s i rejecting jobs its ↔ RejectingLast rejecting jobs := by
  induction h with
  | nil =>
    constructor
    · intro _
      exact .nil
    · intro _
      unfold ServesOthers
      simp
  | @next job it jobs its hjob hit _ ih =>
    have hserved : JobServed S job it.acts := by
      have hran := it.ran
      rw [hit, hjob] at hran
      exact hran
    have hnot : job ∉ rejecting := by
      intro hmem
      have hup := (hits it List.mem_cons_self).mpr (hjob ▸ hmem)
      rw [hit] at hup
      cases hup
    have hrest := ih (fun it' hit' => hacts it' (List.mem_cons_of_mem it hit'))
      fun it' hit' => hits it' (List.mem_cons_of_mem it hit')
    rw [rejectingLast_cons hnot, ← hrest]
    constructor
    · intro h k job' hk hjob'
      exact h (k + 1) job' hk hjob'
    · intro h k job' hk hjob'
      cases k with
      | zero =>
        cases hk
        exact ⟨it, rfl, hjob, hserved.serves hr (hacts it List.mem_cons_self)⟩
      | succ k => exact h k job' hk hjob'
  | @rejects job it hjob hit jobs =>
    have hmem : job ∈ rejecting := hjob ▸ (hits it List.mem_cons_self).mp hit
    constructor
    · intro h
      have hbehind (b : Job) (hb : b ∈ jobs) : b ∈ rejecting := by
        by_contra hnot
        obtain ⟨k, hk⟩ := List.getElem?_of_mem hb
        obtain ⟨it', hit', _⟩ := h (k + 1) b hk hnot
        cases hit'
      unfold RejectingLast
      rw [List.pairwise_cons]
      constructor
      · intro b hb _
        exact hbehind b hb
      · exact List.pairwise_of_forall_mem_list fun a _ b hb _ => hbehind b hb
    · intro h k job' hk hjob'
      have hall := (List.pairwise_cons.mp h).1
      cases k with
      | zero =>
        cases hk
        exact absurd hmem hjob'
      | succ k => exact absurd (hall job' (List.mem_of_getElem? hk) hmem) hjob'

section Run

variable {S : Setup} {w₀ : World} {es : List SystemEvent} {s : SystemState} {i : Nat}
  {p : Promise Response} {jobs : List Job}

/-- A tick that has ended failed at its scan or has run the loop over the jobs it scanned. -/
theorem loopRun_of_ended (hrun : (system S).run (.fresh w₀) es = some s) (hi : s.Live i .tick p)
    (hended : ∀ c, ¬ s.Awaits i c) :
    (∃ e, actsOf S w₀ es i = [.call ⟨.jobFindMany, .error e⟩]) ∨
      ∃ jobs its, LoopRun S jobs its ∧
        actsOf S w₀ es i = .call ⟨.jobFindMany, .ok jobs⟩ :: its.flatMap (·.acts) := by
  have hr : Reachable S w₀ s := .of_run hrun fun _ _ _ => trivial
  have hrecords : p.records diary (actsOf S w₀ es i) fun acts _ => Task.tick = .tick →
      (∃ e, acts = [.call ⟨.jobFindMany, .error e⟩]) ∨ ∃ jobs its, LoopRun S jobs its ∧
        acts = .call ⟨.jobFindMany, .ok jobs⟩ :: its.flatMap (·.acts) := by
    refine records_of_run (Q := fun tag acts _ => tag = .tick →
      (∃ e, acts = [.call ⟨.jobFindMany, .error e⟩]) ∨ ∃ jobs its, LoopRun S jobs its ∧
        acts = .call ⟨.jobFindMany, .ok jobs⟩ :: its.flatMap (·.acts)) ?_ hrun hi
    intro tag w w' q hstart
    by_cases htag : tag = .tick
    · subst htag
      cases hstart
      simp only [bind_eq, records_bind]
      refine records_mono ?_ (records_tick S)
      intro acts r hacts
      cases r with
      | error e => exact fun _ => hacts
      | ok u => exact fun _ => hacts
    · exact records_mono (fun _ _ _ heq => absurd heq htag) (records_trivial q [])
  cases p with
  | ret a => exact hrecords rfl
  | fail e => exact hrecords rfl
  | await c k => exact absurd ⟨.tick, k, hi⟩ (hended c)
  | sync l k => exact (hr.settled hi).elim

theorem actsOf_loop {its : List (Iteration S)} {a : Act}
    (hrun : (system S).run (.fresh w₀) es = some s)
    (hacts : actsOf S w₀ es i = a :: its.flatMap (·.acts)) :
    ∀ it ∈ its, ActedBy s i it.acts := by
  intro it hit c hc
  obtain ⟨act, hact, hanswer⟩ := List.mem_filterMap.mp hc
  rw [← answers_actsOf hrun i, hacts]
  refine List.mem_filterMap.mpr ⟨act, ?_, hanswer⟩
  exact List.mem_cons_of_mem _ (List.mem_flatMap.mpr ⟨it, hit, hact⟩)

/-- A tick that has ended has run the loop over the jobs it scanned, and it has served every
job whose iteration does not reject just if none of them stands behind one whose iteration
does. -/
theorem tick_serves_others_iff (hrun : (system S).run (.fresh w₀) es = some s)
    (hi : s.Live i .tick p) (hended : ∀ c, ¬ s.Awaits i c)
    (hscan : (actsOf S w₀ es i).head? = some (.call ⟨.jobFindMany, .ok jobs⟩)) :
    ∃ its : List (Iteration S), LoopRun S jobs its ∧
      actsOf S w₀ es i = .call ⟨.jobFindMany, .ok jobs⟩ :: its.flatMap (·.acts) ∧
      ∀ rejecting : Set Job, RejectsFor rejecting its →
        (ServesOthers s i rejecting jobs its ↔ RejectingLast rejecting jobs) := by
  have hr : Reachable S w₀ s := .of_run hrun fun _ _ _ => trivial
  rcases loopRun_of_ended hrun hi hended with ⟨e, hacts⟩ | ⟨jobs', its, hloop, hacts⟩
  · rw [hacts] at hscan
    cases hscan
  · rw [hacts] at hscan
    cases hscan
    exact ⟨its, hloop, hacts, fun rejecting hits =>
      servesOthers_iff hr hloop (actsOf_loop hrun hacts) hits⟩

end Run

/-! ## A tick over two jobs -/

namespace Sample

def secondJob : Job := { job with id := "job-2", name := "every minute too" }

def twoJobs : World := .initial [job, secondJob] (by decide) fun _ => 60010

end Sample

def failingFirst : List SystemEvent :=
  [.begin .tick, Sample.answered 0, .resume 0 (.rejected (.store "Connection is closed."))]

def failingLast : List SystemEvent :=
  [.begin .tick, Sample.answered 0, Sample.answered 0, Sample.answered 0, Sample.answered 0,
    .resume 0 (.rejected (.store "Connection is closed."))]

theorem tick_serves_others_iff_last : ∃ s : SystemState,
    (system Sample.setup).run (.fresh Sample.twoJobs) failingLast = some s ∧
      ∃ its : List (Iteration Sample.setup),
        LoopRun Sample.setup [Sample.job, Sample.secondJob] its ∧
          ∀ rejecting : Set Job, RejectsFor rejecting its →
            (ServesOthers s 0 rejecting [Sample.job, Sample.secondJob] its ↔
              RejectingLast rejecting [Sample.job, Sample.secondJob]) := by
  have hrun : ((system Sample.setup).run (.fresh Sample.twoJobs) failingLast).bind
      (fun s => s.threads[0]?) =
        some ⟨.tick, some (.fail (.store "Connection is closed."))⟩ := by rfl
  have hhead : (actsOf Sample.setup Sample.twoJobs failingLast 0).head? =
      some (.call ⟨.jobFindMany, .ok [Sample.job, Sample.secondJob]⟩) := by rfl
  obtain ⟨s, hs, hth⟩ := Option.bind_eq_some_iff.mp hrun
  have hended (c : Call) : ¬ s.Awaits 0 c := by
    intro ⟨tag, k, hawait⟩
    cases (Live.unique hth hawait).2
  obtain ⟨its, hits, _, hiff⟩ := tick_serves_others_iff hs hth hended hhead
  exact ⟨s, hs, its, hits, hiff⟩

/-- The second job has a due slot and gets nothing from a tick that fails at the first. -/
theorem failing_job_starves_next : ∃ (s : SystemState) (p : Promise Response)
    (its : List (Iteration Sample.setup)),
    (system Sample.setup).run (.fresh Sample.twoJobs) failingFirst = some s ∧
      s.Live 0 .tick p ∧ (∀ c, ¬ s.Awaits 0 c) ∧
      LoopRun Sample.setup [Sample.job, Sample.secondJob] its ∧
      actsOf Sample.setup Sample.twoJobs failingFirst 0 =
        .call ⟨.jobFindMany, .ok [Sample.job, Sample.secondJob]⟩ :: its.flatMap (·.acts) ∧
      RejectsFor {Sample.job} its ∧
      ¬ ServesOthers s 0 {Sample.job} [Sample.job, Sample.secondJob] its ∧
      (∀ n, dueSlot Sample.setup Sample.secondJob (Sample.twoJobs.clock n) = some 60000) ∧
      s.world.db.executions = [] ∧ s.world.queue = [] := by
  have hrun : ((system Sample.setup).run (.fresh Sample.twoJobs) failingFirst).bind
      (fun s => s.threads[0]?.map fun th => (th, s.world.db.executions, s.world.queue)) =
        some (⟨.tick, some (.fail (.store "Connection is closed."))⟩, [], []) := by rfl
  have hacts : actsOf Sample.setup Sample.twoJobs failingFirst 0 =
      [.call ⟨.jobFindMany, .ok [Sample.job, Sample.secondJob]⟩, .read 60010,
        .call ⟨lockCall Sample.setup Sample.job 60000 0,
          .error (.store "Connection is closed.")⟩] := by decide +kernel
  obtain ⟨s, hs, hend⟩ := Option.bind_eq_some_iff.mp hrun
  obtain ⟨th, hth, hend⟩ := Option.map_eq_some_iff.mp hend
  obtain ⟨rfl, hrows, hqueue⟩ := (by simpa using hend : _ ∧ _ ∧ _)
  have hended (c : Call) : ¬ s.Awaits 0 c := by
    intro ⟨tag, k, hawait⟩
    cases (Live.unique hth hawait).2
  have hdue : dueSlot Sample.setup Sample.job 60010 = some 60000 := by decide +kernel
  have hnext : dueSlot Sample.setup Sample.secondJob 60010 = some 60000 := by decide +kernel
  let it : Iteration Sample.setup := ⟨Sample.job, _, true,
    .lock hdue 0 (.store "Connection is closed.")⟩
  have hjob : it.job = Sample.job := rfl
  have hits : LoopRun Sample.setup [Sample.job, Sample.secondJob] [it] :=
    .rejects hjob rfl [Sample.secondJob]
  have hrejects : RejectsFor {Sample.job} [it] := by
    intro it' hit'
    cases List.mem_singleton.mp hit'
    exact ⟨fun _ => rfl, fun _ => rfl⟩
  refine ⟨s, _, [it], hs, hth, hended, hits, hacts, hrejects, ?_, fun _ => hnext, hrows, hqueue⟩
  intro hserves
  have hid : Sample.secondJob ∉ ({Sample.job} : Set Job) := by
    intro hmem
    have hid : "job-2" = "job-1" := congrArg Job.id hmem
    exact absurd hid (by decide)
  obtain ⟨it', hit', _⟩ := hserves 1 Sample.secondJob rfl hid
  cases hit'

end CronHive
