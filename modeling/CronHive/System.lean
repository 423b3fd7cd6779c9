import CronHive.Scheduler
import CronHive.Worker

/-!
# The running system

Scheduler ticks, BullMQ deliveries and API requests of any number of processes, interleaved
over the shared stores. Redis keys may expire at any moment, and BullMQ may find a message
stalled and hand it out again, once, while its first delivery is still running.
-/

namespace CronHive

set_option autoImplicit false

inductive Task where
  | tick
  | deliver (message : Nat)
  | createJob (input : CreateJobInput)
  | updateJob (id : JobId) (data : UpdateJobInput)
  | setPaused (id : JobId) (paused : Bool)
  | deleteJob (id : JobId)
  | bulkSetEnabled (ids : List JobId) (enabled : Bool)
  | trigger (id : JobId)
  deriving DecidableEq, Repr

inductive Response where
  | done
  | created (job : Job)
  | updated (job : Option Job)
  | deleted (found : Bool)
  | counted (count : Nat)
  | triggered (reply : TriggerReply)
  deriving DecidableEq, Repr

inductive Outside where
  | expire (key : RedisKey)
  | stall (message : Nat)
  deriving DecidableEq, Repr

/-- A task begins with its program; a delivery first takes a waiting message. -/
def start (S : Setup) : Task → World → Option (World × Promise Response)
  | .tick, w => some (w, do tick S; pure .done)
  | .deliver m, w =>
      match w.queue[m]? with
      | some ⟨data, attempts, _, attemptsMade, _, .waiting⟩ =>
          some ({ w with
              queue := w.queue.modify m fun x => { x with state := .active w.nextToken }
              nextToken := w.nextToken + 1 },
            do deliver S.env m w.nextToken ⟨data, attemptsMade, some attempts⟩; pure .done)
      | _ => none
  | .createJob input, w => some (w, do let job ← createJob S input; pure (.created job))
  | .updateJob id data, w => some (w, do let job ← updateJob S id data; pure (.updated job))
  | .setPaused id paused, w =>
      some (w, do let job ← setPaused S id paused; pure (.updated job))
  | .deleteJob id, w => some (w, do let found ← deleteJob id; pure (.deleted found))
  | .bulkSetEnabled ids enabled, w =>
      some (w, do let count ← bulkSetEnabled ids enabled; pure (.counted count))
  | .trigger id, w => some (w, do let reply ← triggerJob S id; pure (.triggered reply))

def outside : Outside → World → Option World
  | .expire key, w => some { w with redis := w.redis.del key }
  | .stall m, w => some { w with
      queue := w.queue.modify m Bull.stalled
      finished := w.finished.after w.queue m Bull.stalled }

def system (S : Setup) :
    Async.Machine Call.Reply Local.Value Failure Response World Task Choice Outside where
  exec := World.exec
  eval := World.eval
  start := start S
  outside := outside

abbrev SystemState : Type :=
  Async.State Call.Reply Local.Value Failure Response World Task Outside

abbrev SystemEvent : Type := Async.Event Task Choice Outside Failure

abbrev TraceEntry : Type := Async.Entry Call.Reply Failure Task Outside

/-- Every run, whatever fails or stops. -/
abbrev Reachable (S : Setup) (w₀ : World) (s : SystemState) : Prop :=
  (system S).Run Async.Machine.anyStep (.fresh w₀) s

/-! ## Steps and the stores -/

section Steps

variable {S : Setup} {s s' : SystemState}

/-- A task begins without touching a store, except that a delivery takes its message. -/
theorem start_stores {t : Task} {w w' : World} {p : Promise Response}
    (h : start S t w = some (w', p)) :
    w'.db = w.db ∧ w'.redis = w.redis ∧ w'.fetches = w.fetches := by
  cases t with
  | deliver m =>
    simp only [start] at h
    split at h
    · cases h
      exact ⟨rfl, rfl, rfl⟩
    · cases h
  | _ =>
    cases h
    exact ⟨rfl, rfl, rfl⟩

theorem start_deadLetters {t : Task} {w w' : World} {p : Promise Response}
    (h : start S t w = some (w', p)) : w'.deadLetters = w.deadLetters := by
  cases t with
  | deliver m =>
    simp only [start] at h
    split at h
    · cases h
      rfl
    · cases h
  | _ =>
    cases h
    rfl

@[simp] theorem spawned_db (t : Task) (w : World) (p : Promise Response) :
    ((system S).spawned s t w p).world.db = w.db :=
  Async.Prog.drain_frame _ World.db World.eval_db p w

@[simp] theorem resumed_db (i : Nat) (t : Task) (c : Call)
    (k : Except Failure c.Reply → Promise Response) (o : Async.Outcome Choice Failure) :
    ((system S).resumed s i t c k o).world.db = ((system S).attend c o s.world).1.db :=
  Async.Prog.drain_frame _ World.db World.eval_db _ _

@[simp] theorem spawned_redis (t : Task) (w : World) (p : Promise Response) :
    ((system S).spawned s t w p).world.redis = w.redis :=
  Async.Prog.drain_frame _ World.redis World.eval_redis p w

@[simp] theorem resumed_redis (i : Nat) (t : Task) (c : Call)
    (k : Except Failure c.Reply → Promise Response) (o : Async.Outcome Choice Failure) :
    ((system S).resumed s i t c k o).world.redis = ((system S).attend c o s.world).1.redis :=
  Async.Prog.drain_frame _ World.redis World.eval_redis _ _

@[simp] theorem spawned_queue (t : Task) (w : World) (p : Promise Response) :
    ((system S).spawned s t w p).world.queue = w.queue :=
  Async.Prog.drain_frame _ World.queue World.eval_queue p w

@[simp] theorem resumed_queue (i : Nat) (t : Task) (c : Call)
    (k : Except Failure c.Reply → Promise Response) (o : Async.Outcome Choice Failure) :
    ((system S).resumed s i t c k o).world.queue = ((system S).attend c o s.world).1.queue :=
  Async.Prog.drain_frame _ World.queue World.eval_queue _ _

@[simp] theorem spawned_fetches (t : Task) (w : World) (p : Promise Response) :
    ((system S).spawned s t w p).world.fetches = w.fetches :=
  Async.Prog.drain_frame _ World.fetches World.eval_fetches p w

@[simp] theorem resumed_fetches (i : Nat) (t : Task) (c : Call)
    (k : Except Failure c.Reply → Promise Response) (o : Async.Outcome Choice Failure) :
    ((system S).resumed s i t c k o).world.fetches = ((system S).attend c o s.world).1.fetches :=
  Async.Prog.drain_frame _ World.fetches World.eval_fetches _ _

@[simp] theorem spawned_deadLetters (t : Task) (w : World) (p : Promise Response) :
    ((system S).spawned s t w p).world.deadLetters = w.deadLetters :=
  Async.Prog.drain_frame _ World.deadLetters World.eval_deadLetters p w

@[simp] theorem resumed_deadLetters (i : Nat) (t : Task) (c : Call)
    (k : Except Failure c.Reply → Promise Response) (o : Async.Outcome Choice Failure) :
    ((system S).resumed s i t c k o).world.deadLetters =
      ((system S).attend c o s.world).1.deadLetters :=
  Async.Prog.drain_frame _ World.deadLetters World.eval_deadLetters _ _

theorem step_evolves {e : SystemEvent} (h : (system S).Step s e s') :
    Postgres.Evolves s.world.db s'.world.db := by
  refine h.world (R := fun w w' => Postgres.Evolves w.db w'.db) (fun w => .refl w.db)
    (fun _ _ _ => .trans) World.exec_evolves ?_ ?_ ?_
  · intro l w
    rw [show ((system S).eval l w).1.db = w.db from World.eval_db l w]
    exact .refl w.db
  · intro t w w' p h
    rw [(start_stores h).1]
    exact .refl w.db
  · intro x w w' h
    cases x <;> cases h <;> exact .refl w.db

/-- What a step can do to the tables and to Redis. -/
inductive StoreStep (S : Setup) (s s' : SystemState) : SystemEvent → Prop where
  | silent {e : SystemEvent} (hdb : s'.world.db = s.world.db)
      (hredis : s'.world.redis = s.world.redis) : StoreStep S s s' e
  | call {i : Nat} {tag : Task} {c : Call} {k : Except Failure c.Reply → Promise Response}
      {o : Async.Outcome Choice Failure} {x : Choice} (hi : s.Live i tag (.await c k))
      (hs' : s' = (system S).resumed s i tag c k o)
      (hreply : ((system S).attend c o s.world).2.1 = some (World.exec c x s.world).2)
      (hdb : s'.world.db = (World.exec c x s.world).1.db)
      (hredis : s'.world.redis = (World.exec c x s.world).1.redis) : StoreStep S s s' (.resume i o)
  | expired {key : RedisKey} (hdb : s'.world.db = s.world.db)
      (hredis : s'.world.redis = s.world.redis.del key) : StoreStep S s s' (.outside (.expire key))

theorem step_stores {e : SystemEvent} (hs : (system S).Step s e s') : StoreStep S s s' e := by
  cases hs with
  | begin h =>
    obtain ⟨hdb, hredis, _⟩ := start_stores h
    exact .silent (by rw [spawned_db, hdb]) (by rw [spawned_redis, hredis])
  | @resume i tag c k o h =>
    rcases Async.Machine.attend_cases (M := system S) c o s.world with
      ⟨_, hw, _⟩ | ⟨x, hw, hreply, _⟩
    · exact .silent (by rw [resumed_db, hw]) (by rw [resumed_redis, hw])
    · exact .call h rfl hreply (by rw [resumed_db, hw]; rfl) (by rw [resumed_redis, hw]; rfl)
  | stop h => exact .silent rfl rfl
  | @outside x w h =>
    cases x with
    | expire key =>
      cases h
      exact .expired rfl rfl
    | stall m =>
      cases h
      exact .silent rfl rfl

end Steps

/-! ## A small instance -/

namespace Sample

/-- Every URL is for one public host and every job fires at each full minute. -/
def platform : Platform where
  parseUrl _ := some ⟨"https:", "hooks.example.com"⟩
  cronParses _ _ := true
  cronPrev _ _ now := some ((now - 1) / 60000 * 60000)

def setup : Setup := ⟨{}, platform⟩

def job : Job where
  id := "job-1"
  name := "every minute"
  cronExpression := "* * * * *"
  callbackUrl := "https://hooks.example.com/run"
  timezone := "UTC"
  maxRetries := 3
  backoffMs := 1000
  callbackTimeoutMs := 30000
  enabled := true
  paused := false
  consecutiveDeadCount := 0

/-- The clock stands 10 ms after a firing. -/
def world : World := .initial [job] (by decide) fun _ => 60010

/-- Thread `i` gets the store's answer. -/
def answered (i : Nat) : SystemEvent := .resume i (.answered {})

end Sample

end CronHive
