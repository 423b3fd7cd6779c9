import CronHive.CronUtils
import CronHive.LeaderKey
import Mathlib.Data.Fintype.Basic
import Mathlib.Logic.Function.Basic

/-!
# Leader election against a clock

`startLeaderElection` and the timers of the scheduler's `main`, in milliseconds: timers fire
exactly when they are due, Redis answers at once and events of one instant come in any
order. Any number of schedulers start, crash and stop when they like.
-/

namespace CronHive

set_option autoImplicit false

/-- `heartbeatMs`; `setInterval` takes a delay below 1 as 1. -/
def Env.heartbeatMs (env : Env) : Nat := max 1 (env.leaderLeaseMs / 3)

variable {n : Nat}

/-! ## The schedulers -/

/-- A running scheduler: the flag and when its two timers fire next. -/
structure Instance where
  leader : Bool
  campaignAt : Int
  runAt : Int
  deriving DecidableEq, Repr

inductive SchedulerProcess where
  | unborn
  | up (x : Instance)
  | down
  deriving DecidableEq, Repr

structure Cluster (n : Nat) where
  now : Int
  key : LeaderKey n
  schedulers : Fin n → SchedulerProcess

namespace Cluster

def initial (now : Int) : Cluster n := ⟨now, none, fun _ => .unborn⟩

def Up (s : Cluster n) (i : Fin n) (x : Instance) : Prop := s.schedulers i = .up x

def put (s : Cluster n) (i : Fin n) (p : SchedulerProcess) : Cluster n :=
  { s with schedulers := Function.update s.schedulers i p }

def withKey (s : Cluster n) (key : LeaderKey n) : Cluster n := { s with key := key }

end Cluster

inductive ClusterEvent (n : Nat) where
  /-- time passes; no timer is left behind -/
  | wait (t : Int)
  /-- `main()` -/
  | start (i : Fin n)
  /-- the heartbeat timer -/
  | campaign (i : Fin n)
  /-- the scan timer -/
  | run (i : Fin n)
  | crash (i : Fin n)
  /-- SIGTERM or SIGINT -/
  | stop (i : Fin n)
  deriving DecidableEq, Repr

namespace Cluster

/-- At its start a scheduler campaigns and calls `run()` before the reply is there, which
therefore scans nothing. -/
def started (env : Env) (s : Cluster n) (i : Fin n) : Cluster n :=
  let r := s.key.campaign env s.now i false
  (s.withKey r.1).put i (.up ⟨r.2, s.now + env.heartbeatMs, s.now + env.schedulerScanMs⟩)

def campaigned (env : Env) (s : Cluster n) (i : Fin n) (x : Instance) : Cluster n :=
  let r := s.key.campaign env s.now i x.leader
  (s.withKey r.1).put i (.up { x with leader := r.2, campaignAt := s.now + env.heartbeatMs })

def ran (env : Env) (s : Cluster n) (i : Fin n) (x : Instance) : Cluster n :=
  s.put i (.up { x with runAt := s.now + env.schedulerScanMs })

def stopped (s : Cluster n) (i : Fin n) (x : Instance) : Cluster n :=
  (if x.leader then s.withKey (s.key.releaseScript s.now i) else s).put i .down

/-- What can happen. -/
inductive Step (env : Env) (s : Cluster n) : ClusterEvent n → Cluster n → Prop where
  | wait {t : Int} (h : s.now ≤ t) (hdue : ∀ i x, s.Up i x → t ≤ x.campaignAt ∧ t ≤ x.runAt) :
      Step env s (.wait t) { s with now := t }
  | start {i : Fin n} (h : s.schedulers i = .unborn) : Step env s (.start i) (s.started env i)
  | campaign {i : Fin n} {x : Instance} (h : s.Up i x) (hdue : x.campaignAt = s.now) :
      Step env s (.campaign i) (s.campaigned env i x)
  | run {i : Fin n} {x : Instance} (h : s.Up i x) (hdue : x.runAt = s.now) :
      Step env s (.run i) (s.ran env i x)
  | crash {i : Fin n} {x : Instance} (h : s.Up i x) : Step env s (.crash i) (s.put i .down)
  | stop {i : Fin n} {x : Instance} (h : s.Up i x) : Step env s (.stop i) (s.stopped i x)

/-- The event is a scan: `run()` past its `isLeader()` test. -/
def Scans (s : Cluster n) (i : Fin n) : ClusterEvent n → Prop
  | .run j => j = i ∧ ∃ x, s.Up i x ∧ x.leader = true
  | _ => False

end Cluster

/-- Scheduler `i` crashes or stops. -/
def ClusterEvent.fails (i : Fin n) (e : ClusterEvent n) : Prop := e = .crash i ∨ e = .stop i

namespace Cluster

inductive Reachable (env : Env) : Cluster n → Prop where
  | initial (now : Int) : Reachable env (.initial now)
  | tail {s s' : Cluster n} {e : ClusterEvent n} (h : Reachable env s) (hs : Step env s e s') :
      Reachable env s'

/-! ## Small lemmas -/

variable {env : Env} {s s' : Cluster n}

@[simp] theorem put_now (i : Fin n) (p : SchedulerProcess) : (s.put i p).now = s.now := rfl

@[simp] theorem put_key (i : Fin n) (p : SchedulerProcess) : (s.put i p).key = s.key := rfl

@[simp] theorem withKey_now (key : LeaderKey n) : (s.withKey key).now = s.now := rfl

@[simp] theorem withKey_key (key : LeaderKey n) : (s.withKey key).key = key := rfl

@[simp] theorem up_withKey (key : LeaderKey n) (i : Fin n) (x : Instance) :
    (s.withKey key).Up i x ↔ s.Up i x := Iff.rfl

theorem up_unique {i : Fin n} {x y : Instance} (h : s.Up i x) (h' : s.Up i y) : x = y := by
  cases h.symm.trans h'
  rfl

theorem up_put {i j : Fin n} {p : SchedulerProcess} {x : Instance} :
    (s.put i p).Up j x ↔ (j = i ∧ p = .up x) ∨ (j ≠ i ∧ s.Up j x) := by
  unfold Up put
  by_cases hij : j = i
  · subst hij
    simp
  · simp [hij]

@[simp] theorem ran_now (i : Fin n) (x : Instance) : (s.ran env i x).now = s.now := rfl

@[simp] theorem started_now (i : Fin n) : (s.started env i).now = s.now := rfl

@[simp] theorem campaigned_now (i : Fin n) (x : Instance) :
    (s.campaigned env i x).now = s.now := rfl

@[simp] theorem stopped_now (i : Fin n) (x : Instance) : (s.stopped i x).now = s.now := by
  unfold stopped
  split <;> rfl

theorem up_stopped {i j : Fin n} {x y : Instance} :
    (s.stopped i x).Up j y ↔ j ≠ i ∧ s.Up j y := by
  unfold stopped
  split <;> simp [up_put]

end Cluster

theorem Env.heartbeat_pos (env : Env) : 1 ≤ env.heartbeatMs := Nat.le_max_left _ _

theorem Env.heartbeat_le_lease (env : Env) : env.heartbeatMs ≤ env.leaderLeaseMs := by
  have hpos := env.leaderLease_pos
  unfold Env.heartbeatMs
  omega

end CronHive
