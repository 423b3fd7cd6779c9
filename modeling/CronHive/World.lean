import CronHive.Async.Interleaving
import CronHive.Bull
import CronHive.Postgres
import CronHive.Redis

/-!
# The shared world and the awaited calls

Every await of the program is a `Call` to Postgres, Redis, BullMQ, the resolver or an HTTP
server. What the outside decides (a fresh job id, an answer of the resolver, the exchange
behind a `fetch`) comes in as a `Choice`.
-/

namespace CronHive

set_option autoImplicit false

/-- The body `invokeCallback` sends. -/
structure CallbackBody where
  jobId : JobId
  jobName : String
  executionId : ExecutionId
  attemptNumber : Nat
  triggeredAt : Int
  deriving DecidableEq, Repr

/-- One HTTP request: the URL it is for and the address its host resolved to just then. -/
structure Hop where
  url : String
  address : String
  deriving DecidableEq, Repr

inductive HttpOutcome where
  | response (status : Nat)
  | aborted
  | failed (message : String)
  deriving DecidableEq, Repr

/-- The requests one `fetch` causes, the later ones following redirects, and how it ends. -/
structure Exchange where
  hops : List Hop
  outcome : HttpOutcome
  deriving DecidableEq, Repr

structure Fetch where
  url : String
  body : CallbackBody
  hops : List Hop
  deriving DecidableEq, Repr

inductive Metric where
  | schedulerTicks
  | slotsEnqueued
  | slotsDeduped
  | executions (status : ExecutionStatus)
  | callbackAttempts (outcome : String)
  | circuitOpen
  deriving DecidableEq, Repr

/-- `clock` is what every clock of every process will show, reading by reading: arbitrary,
so that clocks may be skewed and may jump. -/
structure World where
  db : Postgres
  redis : Redis
  queue : Bull
  finished : FinishedJobs
  deadLetters : List DeadLetterJobData
  published : List SocketEvent
  fetches : List Fetch
  clock : Nat → Int
  readings : Nat
  nextToken : Token
  metrics : Metric → Nat

inductive Call where
  | jobFindMany
  | jobFindUnique (id : JobId)
  | jobCreate (data : JobCreate)
  | jobUpdate (id : JobId) (data : JobUpdate)
  | jobDelete (id : JobId)
  | jobUpdateMany (ids : List JobId) (enabled : Bool)
  | executionCreate (data : ExecutionCreate)
  | executionFindUnique (id : ExecutionId)
  | executionUpdate (id : ExecutionId) (data : ExecutionUpdate)
  | redisSetNx (key : RedisKey) (value : RedisValue) (expireSeconds : Nat)
  | redisSet (key : RedisKey) (value : RedisValue) (expireSeconds : Nat)
  | redisGet (key : RedisKey)
  | redisDel (key : RedisKey)
  | redisRelease (key : RedisKey) (token : Token)
  | redisPublish (msg : SocketEvent)
  | queueAdd (data : ExecutionJobData) (opts : JobsOptions)
  | deadLetterAdd (data : DeadLetterJobData)
  | fetch (url : String) (body : CallbackBody) (timeoutMs : Nat)
  | dnsLookup (hostname : String)
  | moveToCompleted (message : Nat) (token : Token)
  | moveToFailed (message : Nat) (token : Token)
  deriving DecidableEq, Repr

@[reducible] def Call.Reply : Call → Type
  | .jobFindMany => List Job
  | .jobFindUnique _ => Option Job
  | .jobCreate _ => Job
  | .jobUpdate _ _ => Job
  | .jobDelete _ => Unit
  | .jobUpdateMany _ _ => Nat
  | .executionCreate _ => Execution
  | .executionFindUnique _ => Option Execution
  | .executionUpdate _ _ => Execution
  | .redisSetNx _ _ _ => Bool
  | .redisSet _ _ _ => Unit
  | .redisGet _ => Option RedisValue
  | .redisDel _ => Unit
  | .redisRelease _ _ => Unit
  | .redisPublish _ => Unit
  | .queueAdd _ _ => Unit
  | .deadLetterAdd _ => Unit
  | .fetch _ _ _ => Nat
  | .dnsLookup _ => List String
  | .moveToCompleted _ _ => Unit
  | .moveToFailed _ _ => Unit

instance (c : Call) : DecidableEq c.Reply := by
  cases c <;> infer_instance

/-- Local effects: the clock, `randomUUID` and the process's metrics. -/
inductive Local where
  | dateNow
  | randomUUID
  | inc (m : Metric)
  deriving DecidableEq, Repr

@[reducible] def Local.Value : Local → Type
  | .dateNow => Int
  | .randomUUID => Token
  | .inc _ => Unit

abbrev Promise (α : Type) : Type := Async.Prog Call.Reply Local.Value Failure α

structure Choice where
  jobId : JobId := ""
  addresses : List String := []
  exchange : Exchange := ⟨[], .failed "fetch failed"⟩

/-- The first request of a `fetch` is for the URL it was given. -/
def Exchange.hopsFrom (x : Exchange) (url : String) : List Hop :=
  match x.hops with
  | [] => []
  | h :: hs => { h with url := url } :: hs

def Exchange.reply (x : Exchange) : Except Failure Nat :=
  match x.outcome with
  | .response status => .ok status
  | .aborted => .error .abortError
  | .failed message => .error (.fetchFailed message)

namespace World

def withDb {α : Type} (w : World) (r : Postgres × α) : World × α :=
  ({ w with db := r.1 }, r.2)

def withRedis {α : Type} (w : World) (r : Redis × α) : World × α :=
  ({ w with redis := r.1 }, r.2)

/-- The effect of each call. -/
def exec : (c : Call) → Choice → World → World × Except Failure c.Reply
  | .jobFindMany, _, w => (w, .ok w.db.jobFindMany)
  | .jobFindUnique id, _, w => (w, .ok (w.db.job? id))
  | .jobCreate data, x, w => w.withDb (w.db.jobCreate x.jobId data)
  | .jobUpdate id data, _, w => w.withDb (w.db.jobUpdate id data)
  | .jobDelete id, _, w => w.withDb (w.db.jobDelete id)
  | .jobUpdateMany ids enabled, _, w =>
      w.withDb ((w.db.jobUpdateMany ids enabled).1, .ok (w.db.jobUpdateMany ids enabled).2)
  | .executionCreate data, _, w =>
      w.withDb (w.db.executionCreate data (w.clock w.readings))
  | .executionFindUnique id, _, w => (w, .ok (w.db.execution? id))
  | .executionUpdate id data, _, w => w.withDb (w.db.executionUpdate id data)
  | .redisSetNx key value s, _, w => w.withRedis (w.redis.setNxEx key value s)
  | .redisSet key value s, _, w => w.withRedis (w.redis.setEx key value s)
  | .redisGet key, _, w => (w, .ok (w.redis.get key))
  | .redisDel key, _, w => w.withRedis (w.redis.del key, .ok ())
  | .redisRelease key token, _, w => w.withRedis (w.redis.releaseScript key token, .ok ())
  | .redisPublish msg, _, w => ({ w with published := w.published ++ [msg] }, .ok ())
  | .queueAdd data opts, _, w => ({ w with queue := w.queue.add data opts }, .ok ())
  | .deadLetterAdd data, _, w => ({ w with deadLetters := w.deadLetters ++ [data] }, .ok ())
  | .fetch url body _, x, w =>
      ({ w with fetches := w.fetches ++ [⟨url, body, x.exchange.hopsFrom url⟩] },
        x.exchange.reply)
  | .dnsLookup _, x, w => (w, .ok x.addresses)
  | .moveToCompleted m token, _, w =>
      ({ w with
          queue := w.queue.modify m (Bull.completed token)
          finished := w.finished.after w.queue m (Bull.completed token) }, .ok ())
  | .moveToFailed m token, _, w =>
      ({ w with
          queue := w.queue.modify m (Bull.failed token)
          finished := w.finished.after w.queue m (Bull.failed token) }, .ok ())

def eval : (l : Local) → World → World × l.Value
  | .dateNow, w => ({ w with readings := w.readings + 1 }, w.clock w.readings)
  | .randomUUID, w => ({ w with nextToken := w.nextToken + 1 }, w.nextToken)
  | .inc m, w => ({ w with metrics := Function.update w.metrics m (w.metrics m + 1) }, ())

/-- Stores before the first process starts: some jobs, nothing else. -/
def initial (jobs : List Job) (h : (jobs.map (·.id)).Nodup) (clock : Nat → Int) : World where
  db := .ofJobs jobs h
  redis := fun _ => none
  queue := []
  finished := ⟨[], []⟩
  deadLetters := []
  published := []
  fetches := []
  clock := clock
  readings := 0
  nextToken := 0
  metrics := fun _ => 0

/-! ## What local effects leave alone -/

@[simp] theorem eval_db (l : Local) (w : World) : (eval l w).1.db = w.db := by
  cases l <;> rfl

@[simp] theorem eval_redis (l : Local) (w : World) : (eval l w).1.redis = w.redis := by
  cases l <;> rfl

@[simp] theorem eval_queue (l : Local) (w : World) : (eval l w).1.queue = w.queue := by
  cases l <;> rfl

@[simp] theorem eval_finished (l : Local) (w : World) :
    (eval l w).1.finished = w.finished := by
  cases l <;> rfl

@[simp] theorem eval_deadLetters (l : Local) (w : World) :
    (eval l w).1.deadLetters = w.deadLetters := by
  cases l <;> rfl

@[simp] theorem eval_fetches (l : Local) (w : World) : (eval l w).1.fetches = w.fetches := by
  cases l <;> rfl

/-- Every call takes the tables through their statements. -/
theorem exec_evolves (c : Call) (x : Choice) (w : World) :
    Postgres.Evolves w.db (exec c x w).1.db := by
  cases c with
  | jobCreate data => exact Postgres.evolves_jobCreate w.db x.jobId data
  | jobUpdate id data => exact Postgres.evolves_jobUpdate w.db id data
  | jobDelete id => exact Postgres.evolves_jobDelete w.db id
  | jobUpdateMany ids enabled => exact Postgres.evolves_jobUpdateMany w.db ids enabled
  | executionCreate data => exact Postgres.evolves_executionCreate w.db data _
  | executionUpdate id data => exact Postgres.evolves_executionUpdate w.db id data
  | _ => exact .refl w.db

/-- How an entry comes to be in Redis. -/
theorem exec_redis {c : Call} {x : Choice} {w : World} {key : RedisKey} {entry : RedisEntry}
    (h : (exec c x w).1.redis key = some entry) :
    w.redis key = some entry ∨
      (∃ v n, c = .redisSetNx key v n ∧ entry = ⟨v, n⟩ ∧
        (w.redis.setNxEx key v n).2 = .ok true) ∨
      ∃ v n, c = .redisSet key v n ∧ entry = ⟨v, n⟩ := by
  cases c with
  | redisSetNx key' v n =>
    by_cases hk : key' = key ∧ (w.redis.setNxEx key' v n).2 = .ok true
    · obtain ⟨rfl, hok⟩ := hk
      have hself := (Redis.setNxEx_self hok).symm.trans h
      cases hself
      exact Or.inr (Or.inl ⟨v, n, rfl, rfl, hok⟩)
    · exact Or.inl ((Redis.setNxEx_other fun heq hok => hk ⟨heq, hok⟩).symm.trans h)
  | redisSet key' v n =>
    by_cases hk : key' = key
    · subst hk
      rcases Redis.setEx_self with hself | hself
      · cases hself.symm.trans h
        exact Or.inr (Or.inr ⟨v, n, rfl, rfl⟩)
      · exact Or.inl (hself.symm.trans h)
    · exact Or.inl ((Redis.setEx_other hk).symm.trans h)
  | redisDel key' =>
    refine Or.inl ((Redis.del_le ?_).symm.trans h)
    exact fun hnone => by cases hnone.symm.trans h
  | redisRelease key' token =>
    refine Or.inl ((Redis.releaseScript_le ?_).symm.trans h)
    exact fun hnone => by cases hnone.symm.trans h
  | _ => exact Or.inl h

/-- How a row comes to be in the Job table. -/
inductive JobRow (c : Call) (x : Choice) (w : World) (job : Job) : Prop where
  | kept (h : job ∈ w.db.jobs)
  | created {data : JobCreate} (hc : c = .jobCreate data) (hnew : x.jobId ∉ w.db.jobIds)
      (hrow : job = data.row x.jobId) (hok : (w.db.jobCreate x.jobId data).2 = .ok job)
  | updated {j : Job} {data : JobUpdate} (hj : j ∈ w.db.jobs) (hc : c = .jobUpdate j.id data)
      (hrow : job = data.apply j) (hok : (w.db.jobUpdate j.id data).2 = .ok job)
  | switched {j : Job} {ids : List JobId} {enabled : Bool} (hj : j ∈ w.db.jobs)
      (hc : c = .jobUpdateMany ids enabled) (hid : j.id ∈ ids)
      (hrow : job = { j with enabled := enabled })

theorem exec_jobs {c : Call} {x : Choice} {w : World} {job : Job}
    (h : job ∈ (exec c x w).1.db.jobs) : JobRow c x w job := by
  cases c with
  | jobCreate data =>
    cases hr : (w.db.jobCreate x.jobId data).2 with
    | error e =>
      simp only [exec, withDb, Postgres.jobCreate_error hr] at h
      exact .kept h
    | ok row =>
      obtain ⟨hnew, hrow, hjobs⟩ := Postgres.jobCreate_ok hr
      simp only [exec, withDb, hjobs, List.mem_append, List.mem_singleton] at h
      rcases h with h | h
      · exact .kept h
      · subst h
        exact .created rfl hnew hrow hr
  | jobUpdate id data =>
    cases hr : (w.db.jobUpdate id data).2 with
    | error e =>
      simp only [exec, withDb, Postgres.jobUpdate_error hr] at h
      exact .kept h
    | ok row =>
      obtain ⟨j, hj, hrow, hjobs⟩ := Postgres.jobUpdate_ok hr
      simp only [exec, withDb, hjobs] at h
      obtain ⟨j', hj', rfl⟩ := List.mem_map.mp h
      unfold Postgres.updateJobRow
      split
      · rename_i hid
        have hsame : j' = j := by
          have := Postgres.job?_eq_some.mpr ⟨hj', hid⟩
          exact Option.some.inj (this.symm.trans hj)
        subst hsame
        exact .updated hj' (by rw [hid]) rfl (by rw [hid, hr, hrow])
      · exact .kept hj'
  | jobUpdateMany ids enabled =>
    obtain ⟨j, hj, rfl⟩ := List.mem_map.mp h
    unfold Postgres.enableRow
    split
    · rename_i hid
      exact .switched hj rfl hid rfl
    · exact .kept hj
  | jobDelete id =>
    simp only [exec, withDb, Postgres.jobDelete] at h
    split at h
    · exact .kept h
    · exact .kept (List.mem_of_mem_filter h)
  | executionCreate data =>
    simp only [exec, withDb, Postgres.executionCreate] at h
    split at h
    · split at h <;> exact .kept h
    · exact .kept h
  | executionUpdate id data =>
    simp only [exec, withDb, Postgres.executionUpdate] at h
    split at h <;> exact .kept h
  | _ => exact .kept h

/-- The call is a statement on the Job row `j`. -/
def writesJob (c : Call) (x : Choice) (j : JobId) : Prop :=
  match c with
  | .jobCreate _ => x.jobId = j
  | .jobUpdate id _ => id = j
  | .jobDelete id => id = j
  | .jobUpdateMany ids _ => j ∈ ids
  | _ => False

theorem exec_jobs_kept {c : Call} {x : Choice} {w : World} {row : Job} (hrow : row ∈ w.db.jobs)
    (h : ¬ writesJob c x row.id) : row ∈ (exec c x w).1.db.jobs := by
  cases c with
  | jobCreate data =>
    simp only [exec, withDb, Postgres.jobCreate]
    split
    · exact hrow
    · exact List.mem_append_left _ hrow
  | jobUpdate id data =>
    simp only [exec, withDb, Postgres.jobUpdate]
    split
    · exact hrow
    · refine List.mem_map.mpr ⟨row, hrow, ?_⟩
      rw [Postgres.updateJobRow, if_neg fun hid => h hid.symm]
  | jobDelete id =>
    simp only [exec, withDb, Postgres.jobDelete]
    split
    · exact hrow
    · exact List.mem_filter.mpr ⟨hrow, by simpa using fun hid => h hid.symm⟩
  | jobUpdateMany ids enabled =>
    have hid : row.id ∉ ids := h
    refine List.mem_map.mpr ⟨row, hrow, ?_⟩
    rw [Postgres.enableRow, if_neg hid]
  | executionCreate data =>
    simp only [exec, withDb, Postgres.executionCreate]
    split
    · split <;> exact hrow
    · exact hrow
  | executionUpdate id data =>
    simp only [exec, withDb, Postgres.executionUpdate]
    split <;> exact hrow
  | _ => exact hrow

/-- A call leaves the Job rows alone that it is no statement on. -/
theorem exec_job? {c : Call} {x : Choice} {w : World} {j : JobId} (h : ¬ writesJob c x j) :
    (exec c x w).1.db.job? j = w.db.job? j := by
  refine Option.ext fun row => ?_
  rw [Postgres.job?_eq_some, Postgres.job?_eq_some]
  constructor
  · intro hrow
    obtain ⟨hmem, rfl⟩ := hrow
    cases exec_jobs hmem with
    | kept hmem => exact ⟨hmem, rfl⟩
    | created hc _ hrow _ => exact absurd (by subst hc hrow; rfl) h
    | updated _ hc hrow _ => exact absurd (by subst hc hrow; rfl) h
    | switched _ hc hid hrow => exact absurd (by subst hc hrow; exact hid) h
  · intro hrow
    obtain ⟨hmem, rfl⟩ := hrow
    exact ⟨exec_jobs_kept hmem h, rfl⟩

/-- How a row comes to be in the Execution table: inserted just now, or updated. -/
theorem exec_executions {c : Call} {x : Choice} {w : World} {y : Execution}
    (h : y ∈ (exec c x w).1.db.executions) :
    y ∈ w.db.executions ∨
      (∃ data, c = .executionCreate data ∧
        y = data.row w.db.nextExecution (w.clock w.readings)) ∨
      ∃ data, ∃ z ∈ w.db.executions, c = .executionUpdate z.id data ∧ y = data.apply z := by
  cases c with
  | jobCreate data =>
    simp only [exec, withDb, Postgres.jobCreate] at h
    split at h <;> exact Or.inl h
  | jobUpdate id data =>
    simp only [exec, withDb, Postgres.jobUpdate] at h
    split at h <;> exact Or.inl h
  | jobDelete id =>
    simp only [exec, withDb, Postgres.jobDelete] at h
    split at h
    · exact Or.inl h
    · exact Or.inl (List.mem_of_mem_filter h)
  | executionCreate data =>
    cases hr : (w.db.executionCreate data (w.clock w.readings)).2 with
    | error e =>
      simp only [exec, withDb, Postgres.executionCreate_error hr] at h
      exact Or.inl h
    | ok row =>
      obtain ⟨_, rfl, hrows, _⟩ := Postgres.executionCreate_ok hr
      simp only [exec, withDb, hrows, List.mem_append, List.mem_singleton] at h
      rcases h with h | rfl
      · exact Or.inl h
      · exact Or.inr (Or.inl ⟨data, rfl, rfl⟩)
  | executionUpdate id data =>
    simp only [exec, withDb, Postgres.executionUpdate] at h
    split at h
    · exact Or.inl h
    · obtain ⟨z, hz, rfl⟩ := List.mem_map.mp h
      unfold Postgres.updateExecutionRow
      split
      · rename_i hid
        exact Or.inr (Or.inr ⟨data, z, hz, by rw [hid], rfl⟩)
      · exact Or.inl hz
  | _ => exact Or.inl h

theorem exec_deadLetters {c : Call} (h : ∀ data, c ≠ .deadLetterAdd data) (x : Choice)
    (w : World) : (exec c x w).1.deadLetters = w.deadLetters := by
  cases c with
  | deadLetterAdd data => exact absurd rfl (h data)
  | _ => rfl

/-- Only an insert gives out an execution id. -/
theorem exec_nextExecution {c : Call} (h : ∀ data, c ≠ .executionCreate data) (x : Choice)
    (w : World) : (exec c x w).1.db.nextExecution = w.db.nextExecution := by
  cases c with
  | executionCreate data => exact absurd rfl (h data)
  | jobCreate data =>
    simp only [exec, withDb, Postgres.jobCreate]
    split <;> rfl
  | jobUpdate id data =>
    simp only [exec, withDb, Postgres.jobUpdate]
    split <;> rfl
  | jobDelete id =>
    simp only [exec, withDb, Postgres.jobDelete]
    split <;> rfl
  | executionUpdate id data =>
    simp only [exec, withDb, Postgres.executionUpdate]
    split <;> rfl
  | _ => rfl

theorem exec_rows {c : Call} (h : ∀ data, c ≠ .executionCreate data) (x : Choice) (w : World) :
    ∀ y ∈ (exec c x w).1.db.executions, ∃ z ∈ w.db.executions, Postgres.SameKeys z y := by
  intro y hy
  refine (exec_evolves c x w).old y hy ?_
  rw [← exec_nextExecution h x w]
  exact Postgres.execution_known _ y hy

end World

/-- Await a call. -/
def await (c : Call) : Promise c.Reply := Async.Prog.perform c

/-- `new Date()` or `Date.now()`. -/
def dateNow : Promise Int := Async.Prog.effect Local.dateNow

def randomUUID : Promise Token := Async.Prog.effect Local.randomUUID

def inc (m : Metric) : Promise Unit := Async.Prog.effect (Local.inc m)

section Rules

variable {σ : Type} (m : Async.Monitor Call.Reply Failure σ) (st : σ)

@[simp] theorem wp_call (c : Call) (Q : σ → Except Failure c.Reply → Prop) :
    @Async.Prog.wp _ _ _ _ _ (no_index c.Reply) _ m (await c) st Q ↔
      m.permits st c ∧ ∀ r, m.admits st c r → Q (m.next st c r) r :=
  Async.Prog.wp_perform m c st Q

@[simp] theorem wp_dateNow (Q : σ → Except Failure Int → Prop) :
    dateNow.wp m st Q ↔ ∀ now, Q st (.ok now) := Iff.rfl

@[simp] theorem wp_randomUUID (Q : σ → Except Failure Token → Prop) :
    randomUUID.wp m st Q ↔ ∀ token, Q st (.ok token) := Iff.rfl

@[simp] theorem wp_inc (x : Metric) (Q : σ → Except Failure Unit → Prop) :
    (inc x).wp m st Q ↔ Q st (.ok ()) := ⟨fun h => h (), fun h _ => h⟩

theorem wp_call_bind {α : Type} (c : Call) (f : c.Reply → Promise α)
    (Q : σ → Except Failure α → Prop) : ((await c).bind f).wp m st Q ↔
      m.permits st c ∧
        (∀ a, m.admits st c (.ok a) → (f a).wp m (m.next st c (.ok a)) Q) ∧
        ∀ e, m.admits st c (.error e) → Q (m.next st c (.error e)) (.error e) := by
  rw [Async.Prog.wp_bind, wp_call, Async.Prog.forall_except]

end Rules

variable {P : Call → Prop}

theorem only_await {c : Call} (h : P c) : (await c).Only P := Async.Prog.only_perform h

theorem only_inc (x : Metric) : (inc x).Only P := Async.Prog.only_effect _

theorem only_dateNow : dateNow.Only P := Async.Prog.only_effect _

end CronHive
