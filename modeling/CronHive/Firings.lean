import CronHive.Uninterrupted

/-!
# What a tick fires

A tick that is not interrupted fires each due job whose slot nobody has, in the table's order, up
to the first due job whose lock Redis refuses; there it ends, and the jobs behind are not reached.
-/

namespace CronHive

set_option autoImplicit false

open Async Async.Prog Async.Machine

def dueAt (S : Setup) (now : Int) (job : Job) : Option Int :=
  dueFireSlot S job.cronExpression job.timezone now

/-- The job is due and Redis refuses the lifetime of its lock. -/
def refusesLock (S : Setup) (now : Int) (job : Job) : Bool :=
  (dueAt S now job).isSome && !Redis.validExpire (computeJobLockTtlSeconds S.env job)

/-- The slot's lock is free and no execution has the slot. -/
def freeSlot (w : World) (job : Job) (slot : Int) : Bool :=
  (w.redis (jobLockKey job.id (.time slot))).isNone &&
    !w.db.executions.any fun x => x.jobId = job.id && x.scheduledFor = some slot

/-- The slot that a tick fires the job for, if it gets to it. -/
def firing (S : Setup) (w : World) (now : Int) (job : Job) : Option Int :=
  (dueAt S now job).filter (freeSlot w job)

/-- The jobs that a tick gets to, looking at each at its own instant. -/
def reached (S : Setup) (now : JobId → Int) (jobs : List Job) : List Job :=
  jobs.takeWhile fun job => !refusesLock S (now job.id) job

def firings (S : Setup) (w : World) (now : JobId → Int) (jobs : List Job) : List (Job × Int) :=
  (reached S now jobs).filterMap fun job =>
    (firing S w (now job.id) job).map fun slot => (job, slot)

/-- A message for each firing, with the executions' ids from `next` on. -/
def messagesFrom (next : ExecutionId) : List (Job × Int) → List Message
  | [] => []
  | (job, slot) :: rest =>
      ⟨⟨next, job.id, .time slot⟩, (executionJobOptions job).attempts,
        (executionJobOptions job).backoffDelay, 0, 0, .waiting⟩ :: messagesFrom (next + 1) rest

/-- The row of an execution that has just been scheduled, and its message. -/
structure ScheduledAs (x : Execution) (msg : Message) : Prop where
  id : msg.data.executionId = x.id
  jobId : msg.data.jobId = x.jobId
  slot : ∃ slot, x.scheduledFor = some slot ∧ msg.data.fireSlot = .time slot
  status : x.status = .PENDING

/-- Time has passed, and nothing else. -/
structure Later (w w' : World) : Prop where
  clock : w'.clock = w.clock
  readings : w.readings ≤ w'.readings

theorem Later.trans {w w₁ w' : World} (h : Later w w₁) (h' : Later w₁ w') : Later w w' :=
  ⟨h'.clock.trans h.clock, Nat.le_trans h.readings h'.readings⟩

/-! ## One iteration -/

/-- The slot of the job now has its row and its message. -/
structure Scheduled (job : Job) (slot : Int) (w w' : World) : Prop where
  queue : w'.queue = w.queue ++ messagesFrom w.db.nextExecution [(job, slot)]
  row : ∃ y, w'.db.executions = w.db.executions ++ [y] ∧ y.id = w.db.nextExecution ∧
    y.jobId = job.id ∧ y.scheduledFor = some slot ∧ y.status = .PENDING
  next : w'.db.nextExecution = w.db.nextExecution + 1
  jobs : w'.db.jobs = w.db.jobs

/-- How an iteration ends that looked at its job at `now`. -/
inductive Iterated (S : Setup) (job : Job) (now : Int) (w w' : World) :
    Except Failure Unit → Prop where
  | passed (hrefuses : refusesLock S now job = false) (hfiring : firing S w now job = none)
      (h : SameStores w w') : Iterated S job now w w' (.ok ())
  | fired (slot : Int) (hrefuses : refusesLock S now job = false)
      (hfiring : firing S w now job = some slot) (h : Scheduled job slot w w')
      (hredis : ∃ entry, w'.redis =
        Function.update w.redis (jobLockKey job.id (.time slot)) (some entry)) :
      Iterated S job now w w' (.ok ())
  | refused (e : Failure) (hrefuses : refusesLock S now job = true) (h : SameStores w w') :
      Iterated S job now w w' (.error e)

theorem not_sameSlot_of_free {db : Postgres} {j : JobId} {slot : Int} (h : ¬ db.Claimed j slot)
    (now : Int) : ¬ ∃ y ∈ db.executions,
      SameSlot y (ExecutionCreate.row ⟨j, some slot, .schedule⟩ db.nextExecution now) := by
  intro hex
  obtain ⟨y, hy, hjob, _, hslot⟩ := hex
  exact h ⟨y, hy, hjob, hslot⟩

/-- The insert of a scheduled execution for a job that is there. -/
theorem executionCreate_scheduled {db : Postgres} {j : JobId} (hj : db.hasJob j) (slot now : Int) :
    (db.Claimed j slot ∧
      db.executionCreate ⟨j, some slot, .schedule⟩ now = (db, .error .p2002)) ∨
    (¬ db.Claimed j slot ∧ ∃ db', db.executionCreate ⟨j, some slot, .schedule⟩ now =
        (db', .ok (ExecutionCreate.row ⟨j, some slot, .schedule⟩ db.nextExecution now)) ∧
      db'.executions = db.executions ++
        [ExecutionCreate.row ⟨j, some slot, .schedule⟩ db.nextExecution now] ∧
      db'.nextExecution = db.nextExecution + 1 ∧ db'.jobs = db.jobs) := by
  have hj' : j ∈ db.jobs.map (·.id) := hj
  by_cases hclaimed : db.Claimed j slot
  · left
    refine ⟨hclaimed, ?_⟩
    obtain ⟨y, hy, hjob, hslot⟩ := hclaimed
    have htaken : ∃ y ∈ db.executions,
        SameSlot y (ExecutionCreate.row ⟨j, some slot, .schedule⟩ db.nextExecution now) :=
      ⟨y, hy, hjob, by rw [hslot]; rfl, hslot⟩
    simp only [Postgres.executionCreate, dif_pos hj', dif_pos htaken]
  · right
    refine ⟨hclaimed, ?_⟩
    simp only [Postgres.executionCreate, dif_pos hj', dif_neg (not_sameSlot_of_free hclaimed now)]
    exact ⟨_, rfl, rfl, rfl, rfl⟩

section Iteration

variable {S : Setup} {x : Choice} {w : World} {job : Job}

theorem freeSlot_iff {slot : Int} : freeSlot w job slot = true ↔
    w.redis (jobLockKey job.id (.time slot)) = none ∧ ¬ w.db.Claimed job.id slot := by
  simp [freeSlot, Postgres.Claimed]

/-- The insert of the slot's row: the slot has one, and `refusal` is the answer, or it gets one. -/
inductive Inserting (job : Job) (slot : Int) (w w' : World)
    (refusal : Except Failure (Option Execution)) : Except Failure (Option Execution) → Prop where
  | claimed (hclaimed : w.db.Claimed job.id slot) (hworld : w' = w) :
      Inserting job slot w w' refusal refusal
  | inserted (db' : Postgres) (row : Execution) (hclaimed : ¬ w.db.Claimed job.id slot)
      (hworld : w' = { w with db := db' })
      (hrow : row = ExecutionCreate.row ⟨job.id, some slot, .schedule⟩ w.db.nextExecution
        (w.clock w.readings))
      (hexecs : db'.executions = w.db.executions ++ [row])
      (hnext : db'.nextExecution = w.db.nextExecution + 1) (hjobs : db'.jobs = w.db.jobs) :
      Inserting job slot w w' refusal (.ok (some row))

theorem ends_createScheduledExecution (slot : Int) (hjob : w.db.hasJob job.id) :
    (system S).Ends (answers x) (createScheduledExecution job.id slot) w fun w' r =>
      Inserting job slot w w' (.ok none) r := by
  have hinsert := executionCreate_scheduled hjob slot (w.clock w.readings)
  refine Ends.tryCatch (P := fun w' r => Inserting job slot w w' (.error .p2002) r) ?_ ?_ ?_
  · refine (ends_await _).bind ?_ ?_
    · intro w' row h
      obtain ⟨rfl, hrow⟩ := h
      simp only [World.exec, World.withDb] at hrow ⊢
      rcases hinsert with ⟨_, heq⟩ | ⟨hclaimed, db', heq, hexecs, hnext, hjobs⟩
      · rw [heq] at hrow
        cases hrow
      · rw [heq] at hrow ⊢
        cases hrow
        exact .inserted db' _ hclaimed rfl rfl hexecs hnext hjobs
    · intro w' e h
      obtain ⟨rfl, he⟩ := h
      simp only [World.exec, World.withDb] at he ⊢
      rcases hinsert with ⟨hclaimed, heq⟩ | ⟨_, db', heq, _⟩
      · rw [heq] at he ⊢
        cases he
        exact .claimed hclaimed rfl
      · rw [heq] at he
        cases he
  · intro w' found h
    cases h with
    | inserted db' row hclaimed hworld hrow hexecs hnext hjobs =>
      exact .inserted db' row hclaimed hworld hrow hexecs hnext hjobs
  · intro w' e h
    cases h with
    | claimed hclaimed hworld => exact .claimed hclaimed hworld

/-- What `acquireJobLock` comes to; it has drawn a token in any case. -/
inductive Locking (job : Job) (slot : Int) (ttl : Nat) (w w' : World) :
    Except Failure (Option JobLock) → Prop where
  | refused (e : Failure) (hvalid : Redis.validExpire ttl = false)
      (hworld : w' = { w with nextToken := w.nextToken + 1 }) : Locking job slot ttl w w' (.error e)
  | held (hvalid : Redis.validExpire ttl = true)
      (hkey : w.redis (jobLockKey job.id (.time slot)) ≠ none)
      (hworld : w' = { w with nextToken := w.nextToken + 1 }) : Locking job slot ttl w w' (.ok none)
  | granted (hvalid : Redis.validExpire ttl = true)
      (hkey : w.redis (jobLockKey job.id (.time slot)) = none)
      (hworld : w' = { w with
        nextToken := w.nextToken + 1
        redis := Function.update w.redis (jobLockKey job.id (.time slot))
          (some ⟨.token w.nextToken, ttl⟩) }) :
      Locking job slot ttl w w' (.ok (some ⟨job.id, .time slot, w.nextToken⟩))

theorem ends_acquireJobLock (slot : Int) {ttl : Nat} (httl : 1 ≤ ttl) :
    (system S).Ends (answers x) (acquireJobLock job.id (.time slot) ttl) w
      (Locking job slot ttl w) := by
  have hsent : (if ttl < 1 then 1 else ttl) = ttl := if_neg (Nat.not_lt.mpr httl)
  unfold acquireJobLock
  rw [hsent]
  refine Ends.bind (P := fun w' token => w' = { w with nextToken := w.nextToken + 1 } ∧
    token = .ok w.nextToken) ⟨rfl, rfl⟩ ?_ fun _ _ h => by cases h.2
  intro w₁ token h
  obtain ⟨rfl, h⟩ := h
  cases h
  refine (ends_await _).bind ?_ ?_
  · intro w' granted h
    obtain ⟨rfl, hgranted⟩ := h
    simp only [World.exec, World.withRedis, Redis.setNxEx] at hgranted ⊢
    cases hvalid : Redis.validExpire ttl with
    | false => simp [hvalid] at hgranted
    | true =>
      simp only [hvalid, if_true] at hgranted ⊢
      cases hkey : w.redis (jobLockKey job.id (.time slot)) with
      | none =>
        simp only [hkey] at hgranted ⊢
        cases hgranted
        exact .granted hvalid hkey rfl
      | some entry =>
        simp only [hkey] at hgranted ⊢
        cases hgranted
        exact .held hvalid (by rw [hkey]; exact Option.some_ne_none entry) rfl
  · intro w' e h
    obtain ⟨rfl, he⟩ := h
    simp only [World.exec, World.withRedis, Redis.setNxEx] at he ⊢
    cases hvalid : Redis.validExpire ttl with
    | false => exact .refused e hvalid (by simp)
    | true =>
      simp only [hvalid, if_true] at he
      split at he
      · cases he
      · cases he

/-- What comes of a slot once its lock is held. -/
inductive Claiming (job : Job) (slot : Int) (w w' : World) : Prop where
  | claimed (hclaimed : w.db.Claimed job.id slot) (hdb : w'.db = w.db)
      (hqueue : w'.queue = w.queue) (hfinished : w'.finished = w.finished)
      (hredis : w'.redis = Function.update w.redis (jobLockKey job.id (.time slot)) none) :
      Claiming job slot w w'
  | scheduled (hclaimed : ¬ w.db.Claimed job.id slot) (hredis : w'.redis = w.redis)
      (h : Scheduled job slot w w') : Claiming job slot w w'

theorem ends_claimSlot {slot : Int} {token : Token} {ttl : Nat} (hjob : w.db.hasJob job.id)
    (hlock : w.redis (jobLockKey job.id (.time slot)) = some ⟨.token token, ttl⟩) :
    (system S).Ends (answers x) (claimSlot job slot ⟨job.id, .time slot, token⟩) w fun w' r =>
      r = .ok () ∧ Later w w' ∧ Claiming job slot w w' := by
  refine Ends.tryCatch (P := fun w' r => r = .ok () ∧ Later w w' ∧ Claiming job slot w w') ?_
    (fun _ _ h => h) (fun _ _ h => by cases h.1)
  refine (ends_createScheduledExecution slot hjob).bind ?_ ?_
  · intro w₁ found h
    cases h with
    | claimed hclaimed hworld =>
      subst hworld
      have hget : w₁.redis.get (jobLockKey job.id (.time slot)) = some (.token token) := by
        rw [Redis.get, hlock]
        rfl
      refine ⟨rfl, ⟨rfl, Nat.le_refl _⟩, .claimed hclaimed rfl rfl rfl ?_⟩
      change Redis.releaseScript w₁.redis (jobLockKey job.id (.time slot)) token = _
      rw [Redis.releaseScript, if_pos hget]
      rfl
    | inserted db' row hclaimed hworld hrow hexecs hnext hjobs =>
      subst hworld hrow
      refine ⟨rfl, ⟨rfl, Nat.le_refl _⟩, .scheduled hclaimed rfl ⟨rfl, ?_, hnext, hjobs⟩⟩
      exact ⟨_, hexecs, rfl, rfl, rfl, rfl⟩
  · intro w₁ e h
    cases h

theorem ends_fireSlot {slot now : Int} (hdue : dueAt S now job = some slot)
    (hjob : w.db.hasJob job.id) :
    (system S).Ends (answers x) (fireSlot S.env job slot) w fun w' r =>
      Later w w' ∧ Iterated S job now w w' r := by
  have hfiring (h : freeSlot w job slot = true) : firing S w now job = some slot := by
    simp only [firing, hdue, Option.filter_some, h, if_true]
  have hnothing (h : ¬ freeSlot w job slot = true) : firing S w now job = none := by
    simp only [firing, hdue, Option.filter_some, h, Bool.false_eq_true, if_false]
  have hrefuses : refusesLock S now job =
      !Redis.validExpire (computeJobLockTtlSeconds S.env job) := by
    simp [refusesLock, hdue]
  refine (ends_acquireJobLock slot (Nat.le_max_left 1 _)).bind ?_ ?_
  · intro w₁ lock h
    cases h with
    | held hvalid hkey hworld =>
      subst hworld
      refine ⟨⟨rfl, Nat.le_refl _⟩, .passed ?_ (hnothing ?_) ⟨rfl, rfl, rfl, rfl⟩⟩
      · rw [hrefuses]
        exact congrArg not hvalid
      · intro hfree
        exact hkey (freeSlot_iff.mp hfree).1
    | granted hvalid hkey hworld =>
      have hvalid : refusesLock S now job = false := by
        rw [hrefuses]
        exact congrArg not hvalid
      have hlocked : w₁.redis (jobLockKey job.id (.time slot)) =
          some ⟨.token w.nextToken, computeJobLockTtlSeconds S.env job⟩ := by
        rw [hworld]
        exact Function.update_self ..
      have hjob₁ : w₁.db.hasJob job.id := by
        rw [hworld]
        exact hjob
      subst hworld
      refine (ends_claimSlot hjob₁ hlocked).mono fun w' r h => ?_
      obtain ⟨rfl, hlater, h⟩ := h
      refine ⟨⟨hlater.clock, hlater.readings⟩, ?_⟩
      cases h with
      | claimed hclaimed hdb hqueue hfinished hredis =>
        refine .passed hvalid (hnothing fun hfree => (freeSlot_iff.mp hfree).2 hclaimed)
          ⟨hdb, ?_, hqueue, hfinished⟩
        rw [hredis, Function.update_idem, ← hkey, Function.update_eq_self]
      | scheduled hclaimed hredis h =>
        exact .fired slot hvalid (hfiring (freeSlot_iff.mpr ⟨hkey, hclaimed⟩))
          ⟨h.queue, h.row, h.next, h.jobs⟩ ⟨_, hredis⟩
  · intro w₁ e h
    cases h with
    | refused _ hvalid hworld =>
      subst hworld
      refine ⟨⟨rfl, Nat.le_refl _⟩, .refused e ?_ ⟨rfl, rfl, rfl, rfl⟩⟩
      rw [hrefuses]
      exact congrArg not hvalid

theorem ends_tickIteration (hjob : w.db.hasJob job.id) :
    (system S).Ends (answers x) (tickIteration S job) w fun w' r =>
      Later w w' ∧ w.readings < w'.readings ∧ Iterated S job (w.clock w.readings) w w' r := by
  refine Ends.bind (P := fun w₁ now => w₁ = { w with readings := w.readings + 1 } ∧
    now = .ok (w.clock w.readings)) ⟨rfl, rfl⟩ ?_ fun _ _ h => by cases h.2
  intro w₁ now h
  obtain ⟨rfl, h⟩ := h
  cases h
  split
  · rename_i hdue
    have hdue : dueAt S (w.clock w.readings) job = none := hdue
    refine ⟨⟨rfl, Nat.le_succ _⟩, Nat.lt_succ_self _, .passed ?_ ?_ ⟨rfl, rfl, rfl, rfl⟩⟩
    · simp [refusesLock, hdue]
    · simp [firing, hdue]
  · rename_i slot hdue
    refine Ends.mono (ends_fireSlot (w := { w with readings := w.readings + 1 }) hdue hjob)
      fun w' r h => ⟨⟨h.1.clock, Nat.le_trans (Nat.le_succ _) h.1.readings⟩, ?_, ?_⟩
    · exact Nat.lt_of_lt_of_le (Nat.lt_succ_self _) h.1.readings
    · cases h.2 with
      | passed hrefuses hfiring hsame =>
        exact .passed hrefuses hfiring ⟨hsame.db, hsame.redis, hsame.queue, hsame.finished⟩
      | fired slot hrefuses hfiring hs hredis =>
        exact .fired slot hrefuses hfiring ⟨hs.queue, hs.row, hs.next, hs.jobs⟩ hredis
      | refused e hrefuses hsame =>
        exact .refused e hrefuses ⟨hsame.db, hsame.redis, hsame.queue, hsame.finished⟩

end Iteration

/-! ## The whole loop -/

section Loop

variable {S : Setup} {x : Choice} {w w' : World} {now now' : JobId → Int} {jobs : List Job}

theorem reached_congr (h : ∀ job ∈ jobs, now job.id = now' job.id) :
    reached S now jobs = reached S now' jobs := by
  induction jobs with
  | nil => rfl
  | cons job jobs ih =>
    have hrest := ih fun job' hjob' => h job' (List.mem_cons_of_mem _ hjob')
    unfold reached at hrest ⊢
    rw [List.takeWhile_cons, List.takeWhile_cons, h job List.mem_cons_self, hrest]

theorem mem_reached {job : Job} (h : job ∈ reached S now jobs) : job ∈ jobs :=
  (List.takeWhile_sublist _).subset h

theorem firings_congr (h : ∀ job ∈ jobs, now job.id = now' job.id)
    (hfree : ∀ job ∈ jobs, ∀ slot, freeSlot w job slot = freeSlot w' job slot) :
    firings S w now jobs = firings S w' now' jobs := by
  unfold firings
  rw [reached_congr h]
  apply List.filterMap_congr
  intro job hjob
  have hmem := mem_reached hjob
  rw [firing, firing, h job hmem, funext (hfree job hmem)]

theorem reached_cons {job : Job} (h : refusesLock S (now job.id) job = false) :
    reached S now (job :: jobs) = job :: reached S now jobs := by
  simp [reached, h]

theorem firings_cons {job : Job} (h : refusesLock S (now job.id) job = false) :
    firings S w now (job :: jobs) =
      ((firing S w (now job.id) job).map fun slot => (job, slot)).toList ++
        firings S w now jobs := by
  rw [firings, reached_cons h, List.filterMap_cons, firings]
  cases firing S w (now job.id) job with
  | none => rfl
  | some slot => rfl

/-- What the loop over `jobs` has done when it is over. -/
structure Ticked (S : Setup) (now : JobId → Int) (jobs : List Job) (w w' : World)
    (r : Except Failure Unit) : Prop where
  queue : w'.queue = w.queue ++ messagesFrom w.db.nextExecution (firings S w now jobs)
  rows : ∃ rows, w'.db.executions = w.db.executions ++ rows ∧
    List.Forall₂ ScheduledAs rows (messagesFrom w.db.nextExecution (firings S w now jobs))
  table : w'.db.jobs = w.db.jobs
  locked : ∀ p ∈ firings S w now jobs, w'.redis (jobLockKey p.1.id (.time p.2)) ≠ none
  others : ∀ key, (∀ p ∈ firings S w now jobs, key ≠ jobLockKey p.1.id (.time p.2)) →
    w'.redis key = w.redis key
  outcome : r = .ok () ↔ reached S now jobs = jobs

/-- The instants at which the loop looks at the jobs are readings of the clock between the two. -/
def ReadFrom (w w' : World) (jobs : List Job) (now : JobId → Int) : Prop :=
  ∀ job ∈ jobs, ∃ n, w.readings ≤ n ∧ n < w'.readings ∧ now job.id = w.clock n

theorem freeSlot_of_same (h : SameStores w w') (job : Job) (slot : Int) :
    freeSlot w' job slot = freeSlot w job slot := by
  simp only [freeSlot, h.redis, h.db]

theorem lockKey_ne {job job' : Job} (h : job'.id ≠ job.id) (slot slot' : Int) :
    jobLockKey job'.id (.time slot') ≠ jobLockKey job.id (.time slot) := by
  intro heq
  exact h (RedisKey.lock.inj heq).1

theorem freeSlot_of_scheduled {job job' : Job} {slot : Int} (h : Scheduled job slot w w')
    (hredis : ∃ entry, w'.redis =
      Function.update w.redis (jobLockKey job.id (.time slot)) (some entry))
    (hne : job'.id ≠ job.id) (slot' : Int) :
    freeSlot w' job' slot' = freeSlot w job' slot' := by
  obtain ⟨entry, hredis⟩ := hredis
  obtain ⟨y, hexecs, _, hjob, _, _⟩ := h.row
  simp [freeSlot, hredis, hexecs, hjob, Function.update_of_ne (lockKey_ne hne slot slot'),
    Ne.symm hne]

theorem Ticked.of_refused {job : Job} {e : Failure}
    (hrefuses : refusesLock S (now job.id) job = true) (h : SameStores w w') :
    Ticked S now (job :: jobs) w w' (.error e) := by
  have hreached : reached S now (job :: jobs) = [] := by simp [reached, hrefuses]
  have hfirings : firings S w now (job :: jobs) = [] := by simp [firings, hreached]
  constructor
  · rw [hfirings, h.queue]
    exact (List.append_nil _).symm
  · rw [hfirings, h.db]
    exact ⟨[], (List.append_nil _).symm, .nil⟩
  · rw [h.db]
  · intro p hp
    rw [hfirings] at hp
    cases hp
  · intro key _
    rw [h.redis]
  · rw [hreached]
    exact iff_of_false nofun nofun

theorem Ticked.of_passed {job : Job} {w₁ : World} {r : Except Failure Unit}
    (hrefuses : refusesLock S (now job.id) job = false)
    (hfiring : firing S w (now job.id) job = none) (h : SameStores w w₁)
    (hrest : Ticked S now jobs w₁ w' r) : Ticked S now (job :: jobs) w w' r := by
  have hfirings : firings S w now (job :: jobs) = firings S w₁ now jobs := by
    rw [firings_cons hrefuses, hfiring]
    exact firings_congr (fun _ _ => rfl) fun job _ slot => (freeSlot_of_same h job slot).symm
  constructor
  · rw [hfirings, hrest.queue, h.queue, h.db]
  · rw [hfirings, ← h.db]
    exact hrest.rows
  · rw [hrest.table, h.db]
  · rw [hfirings]
    exact hrest.locked
  · intro key hkey
    rw [hfirings] at hkey
    rw [hrest.others key hkey, h.redis]
  · rw [hrest.outcome, reached_cons hrefuses]
    exact (List.cons_inj_right job).symm

theorem Ticked.of_fired {job : Job} {slot : Int} {w₁ : World} {r : Except Failure Unit}
    (hrefuses : refusesLock S (now job.id) job = false)
    (hfiring : firing S w (now job.id) job = some slot) (h : Scheduled job slot w w₁)
    (hredis : ∃ entry, w₁.redis =
      Function.update w.redis (jobLockKey job.id (.time slot)) (some entry))
    (hne : ∀ job' ∈ jobs, job'.id ≠ job.id)
    (hrest : Ticked S now jobs w₁ w' r) : Ticked S now (job :: jobs) w w' r := by
  have hfirings : firings S w now (job :: jobs) = (job, slot) :: firings S w₁ now jobs := by
    rw [firings_cons hrefuses, hfiring]
    refine congrArg (_ :: ·) (firings_congr (fun _ _ => rfl) fun job' hjob' slot' => ?_)
    exact (freeSlot_of_scheduled h hredis (hne job' hjob') slot').symm
  have hother (p : Job × Int) (hp : p ∈ firings S w₁ now jobs) :
      jobLockKey job.id (.time slot) ≠ jobLockKey p.1.id (.time p.2) := by
    obtain ⟨job', hjob', hsome⟩ := List.mem_filterMap.mp hp
    obtain ⟨slot', _, rfl⟩ := Option.map_eq_some_iff.mp hsome
    exact lockKey_ne (Ne.symm (hne job' (mem_reached hjob'))) _ _
  have hmessages : messagesFrom w.db.nextExecution (firings S w now (job :: jobs)) =
      messagesFrom w.db.nextExecution [(job, slot)] ++
        messagesFrom w₁.db.nextExecution (firings S w₁ now jobs) := by
    rw [hfirings, h.next]
    rfl
  obtain ⟨entry, hredis⟩ := hredis
  constructor
  · rw [hmessages, hrest.queue, h.queue, List.append_assoc]
  · obtain ⟨y, hexecs, hid, hjob, hslot, hstatus⟩ := h.row
    obtain ⟨rows, hrows, hall⟩ := hrest.rows
    refine ⟨y :: rows, by rw [hrows, hexecs, List.append_assoc]; rfl, ?_⟩
    rw [hmessages]
    exact .cons ⟨hid.symm, hjob.symm, ⟨slot, hslot, rfl⟩, hstatus⟩ hall
  · rw [hrest.table, h.jobs]
  · intro p hp
    rw [hfirings] at hp
    rcases List.mem_cons.mp hp with rfl | hp
    · rw [hrest.others _ hother, hredis, Function.update_self]
      exact Option.some_ne_none entry
    · exact hrest.locked p hp
  · intro key hkey
    rw [hfirings] at hkey
    rw [hrest.others key fun p hp => hkey p (List.mem_cons_of_mem _ hp), hredis,
      Function.update_of_ne (hkey (job, slot) List.mem_cons_self)]
  · rw [hrest.outcome, reached_cons hrefuses]
    exact (List.cons_inj_right job).symm

theorem Ticked.congr {r : Except Failure Unit} (h : Ticked S now jobs w w' r)
    (hnow : ∀ job ∈ jobs, now' job.id = now job.id) : Ticked S now' jobs w w' r := by
  have hfirings : firings S w now' jobs = firings S w now jobs :=
    firings_congr hnow fun _ _ _ => rfl
  obtain ⟨hqueue, hrows, htable, hlocked, hothers, houtcome⟩ := h
  rw [← hfirings] at hqueue hrows hlocked hothers
  rw [← reached_congr hnow] at houtcome
  exact ⟨hqueue, hrows, htable, hlocked, hothers, houtcome⟩

theorem ReadFrom.cons {job : Job} {w₁ : World} (hlater : Later w w₁)
    (hread : w.readings < w₁.readings) (hlater' : Later w₁ w')
    (hne : ∀ job' ∈ jobs, job'.id ≠ job.id) (h : ReadFrom w₁ w' jobs now) :
    ReadFrom w w' (job :: jobs) (Function.update now job.id (w.clock w.readings)) := by
  intro job' hjob'
  rcases List.mem_cons.mp hjob' with rfl | hjob'
  · refine ⟨w.readings, Nat.le_refl _, ?_, Function.update_self ..⟩
    exact Nat.lt_of_lt_of_le hread hlater'.readings
  · obtain ⟨n, hle, hlt, hn⟩ := h job' hjob'
    refine ⟨n, Nat.le_trans hlater.readings hle, hlt, ?_⟩
    rw [Function.update_of_ne (hne job' hjob'), hn, hlater.clock]

theorem ends_tickLoop (hids : (jobs.map (·.id)).Nodup)
    (hjobs : ∀ job ∈ jobs, w.db.hasJob job.id) :
    (system S).Ends (answers x) (tickLoop S jobs) w fun w' r => Later w w' ∧
      ∃ now, ReadFrom w w' jobs now ∧ Ticked S now jobs w w' r := by
  induction jobs generalizing w with
  | nil =>
    refine ⟨⟨rfl, Nat.le_refl _⟩, fun _ => 0, fun job hjob => (by cases hjob), ?_⟩
    refine ⟨(List.append_nil _).symm, ⟨[], (List.append_nil _).symm, .nil⟩, rfl,
      fun p hp => (by cases hp), fun _ _ => rfl, iff_of_true rfl rfl⟩
  | cons job jobs ih =>
    obtain ⟨hnew, hids⟩ := List.nodup_cons.mp hids
    have hne (job' : Job) (hjob' : job' ∈ jobs) : job'.id ≠ job.id :=
      fun heq => hnew (List.mem_map.mpr ⟨job', hjob', heq⟩)
    have hrest (w₁ : World) (htable : w₁.db.jobs = w.db.jobs) (job' : Job) (hjob' : job' ∈ jobs) :
        w₁.db.hasJob job'.id := by
      rw [Postgres.hasJob, htable]
      exact hjobs job' (List.mem_cons_of_mem _ hjob')
    have hsame (now : JobId → Int) (job' : Job) (hjob' : job' ∈ jobs) :
        Function.update now job.id (w.clock w.readings) job'.id = now job'.id :=
      Function.update_of_ne (hne job' hjob') ..
    have hfirst (now : JobId → Int) :
        Function.update now job.id (w.clock w.readings) job.id = w.clock w.readings :=
      Function.update_self ..
    refine (ends_tickIteration (hjobs job List.mem_cons_self)).bind ?_ ?_
    · intro w₁ _ h
      obtain ⟨hlater, hstrict, hiter⟩ := h
      cases hiter with
      | passed hrefuses hfiring h =>
        refine (ih hids (hrest w₁ (by rw [h.db]))).mono fun w' r hloop => ?_
        obtain ⟨hlater', now, hread, hticked⟩ := hloop
        refine ⟨hlater.trans hlater', _, hread.cons hlater hstrict hlater' hne, ?_⟩
        exact .of_passed (by rwa [hfirst]) (by rwa [hfirst]) h (hticked.congr (hsame now))
      | fired slot hrefuses hfiring h hredis =>
        refine (ih hids (hrest w₁ h.jobs)).mono fun w' r hloop => ?_
        obtain ⟨hlater', now, hread, hticked⟩ := hloop
        refine ⟨hlater.trans hlater', _, hread.cons hlater hstrict hlater' hne, ?_⟩
        exact .of_fired (by rwa [hfirst]) (by rwa [hfirst]) h hredis hne
          (hticked.congr (hsame now))
    · intro w₁ e h
      obtain ⟨hlater, hstrict, hiter⟩ := h
      cases hiter with
      | refused _ hrefuses h =>
        refine ⟨hlater, fun _ => w.clock w.readings,
          fun _ _ => ⟨_, Nat.le_refl _, hstrict, rfl⟩, ?_⟩
        exact .of_refused hrefuses h

end Loop

theorem ends_tick (S : Setup) (x : Choice) (w : World) :
    (system S).Ends (answers x) (tick S) w fun w' r =>
      ∃ now, ReadFrom w w' w.db.jobFindMany now ∧ Ticked S now w.db.jobFindMany w w' r := by
  have hids : (w.db.jobFindMany.map (·.id)).Nodup :=
    w.db.job_pkey.sublist (List.filter_sublist.map _)
  have hjobs (job : Job) (hjob : job ∈ w.db.jobFindMany) : w.db.hasJob job.id :=
    List.mem_map_of_mem (List.mem_of_mem_filter hjob)
  refine Ends.bind (P := fun w₁ r => w₁ = (World.eval (.inc .schedulerTicks) w).1 ∧ r = .ok ())
    ⟨rfl, rfl⟩ ?_ fun _ _ h => by cases h.2
  intro w₁ _ h
  obtain ⟨rfl, _⟩ := h
  refine ends_call (a := w.db.jobFindMany) rfl ?_
  refine Ends.mono (ends_tickLoop (w := (World.eval (.inc .schedulerTicks) w).1) hids hjobs) ?_
  intro w' r h
  obtain ⟨_, now, hread, hqueue, hrows, htable, hlocked, hothers, houtcome⟩ := h
  exact ⟨now, hread, hqueue, hrows, htable, hlocked, hothers, houtcome⟩

/-- From every state, whatever the other threads are in the middle of, a tick that is not
interrupted fires exactly the due jobs it gets to whose slot has neither a lock nor an execution,
in the order of the table. It gets to all of them unless Redis refuses the lock of one that is due;
there the tick ends with an error. -/
theorem tick_fires (S : Setup) (x : Choice) (s : SystemState) : ∃ s' r now,
    (system S).TakesTurns s [.task .tick (answers x)] s' ∧
      s'.Live s.threads.length .tick (.done (r.map fun _ => Response.done)) ∧
      ReadFrom s.world s'.world s.world.db.jobFindMany now ∧
        Ticked S now s.world.db.jobFindMany s.world s'.world r := by
  obtain ⟨now, hread, hticked⟩ := ends_tick S x s.world
  obtain ⟨s₁, s', hbegin, hrun, hworld, hdone⟩ : ∃ s₁ s',
      (system S).Step s (.begin .tick) s₁ ∧
      (system S).Run (alone (answers x) s.threads.length) s₁ s' ∧
      s'.world = ((system S).solo (answers x) (do tick S; pure Response.done) s.world).1 ∧
      s'.Live s.threads.length .tick (.done ((system S).solo (answers x)
        (do tick S; pure Response.done) s.world).2) := begun_alone rfl
  rw [bind_eq, solo_bind] at hworld hdone
  have hworld' : s'.world = ((system S).solo (answers x) (tick S) s.world).1 := by
    rw [hworld]
    rcases (system S).solo (answers x) (tick S) s.world with ⟨w, e | u⟩ <;> rfl
  refine ⟨s', ((system S).solo (answers x) (tick S) s.world).2, now,
    .task hbegin hrun hdone (.nil s'), ?_, hworld' ▸ hread, hworld' ▸ hticked⟩
  rcases hsolo : (system S).solo (answers x) (tick S) s.world with ⟨w, e | u⟩
  · rw [hsolo] at hdone
    exact hdone
  · rw [hsolo] at hdone
    exact hdone

end CronHive
