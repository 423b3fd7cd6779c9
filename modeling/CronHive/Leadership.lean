import CronHive.Async.Interleaving
import CronHive.LeaderKey
import Mathlib.Logic.Function.Basic

/-!
# Campaigns and stops, message by message

`campaign()` and `stop()` of `leader.ts` of any number of instances. A command travels to
Redis, is executed there, and its reply travels back, each as long as it likes and in any
order; several calls of one instance may be under way at a time.
-/

namespace CronHive

set_option autoImplicit false

open Async Async.Prog

variable {n : Nat}

/-- What a call of `redis` waits for: that the command is executed, and that its reply is
there. -/
inductive LeaderCall (n : Nat) where
  | execute (c : LeaderCommand n)
  | reply (c : LeaderCommand n) (r : Bool)
  deriving DecidableEq, Repr

@[reducible] def LeaderCall.Reply : LeaderCall n → Type := fun _ => Bool

/-- The flags `leader` and `stopped` of each instance. -/
inductive LeaderLocal (n : Nat) where
  | getLeader (i : Fin n)
  | getStopped (i : Fin n)
  | setLeader (i : Fin n) (val : Bool)
  | setStopped (i : Fin n)
  deriving DecidableEq, Repr

@[reducible] def LeaderLocal.Value : LeaderLocal n → Type
  | .getLeader _ => Bool
  | .getStopped _ => Bool
  | .setLeader _ _ => Unit
  | .setStopped _ => Unit

structure LeaderWorld (n : Nat) where
  redis : KeyState n
  leader : Fin n → Bool
  stopped : Fin n → Bool

abbrev LeaderProgram (n : Nat) (α : Type) : Type :=
  Prog (LeaderCall.Reply (n := n)) (LeaderLocal.Value (n := n)) Failure α

/-! ## The functions of `startLeaderElection` -/

def awaitRedis (c : LeaderCall n) : LeaderProgram n Bool := perform c

def sendCommand (c : LeaderCommand n) : LeaderProgram n Bool := do
  let r ← awaitRedis (.execute c)
  awaitRedis (.reply c r)

def isLeader (i : Fin n) : LeaderProgram n Bool := effect (LeaderLocal.getLeader i)

def isStopped (i : Fin n) : LeaderProgram n Bool := effect (LeaderLocal.getStopped i)

def setLeader (i : Fin n) (val : Bool) : LeaderProgram n Unit :=
  effect (LeaderLocal.setLeader i val)

def setStopped (i : Fin n) : LeaderProgram n Unit := effect (LeaderLocal.setStopped i)

def campaign (i : Fin n) : LeaderProgram n Unit := do
  if ← isStopped i then pure ()
  else
    try
      if ← isLeader i then
        -- renew our lease
        let renewed ← sendCommand (.renew i)
        if !renewed then setLeader i false
      else
        -- try to acquire leadership
        let res ← sendCommand (.setNxPx i)
        if res then setLeader i true
    catch _ => setLeader i false

def stop (i : Fin n) : LeaderProgram n Unit := do
  setStopped i
  if ← isLeader i then
    try
      let _ ← sendCommand (.release i)
      pure ()
    catch _ => pure ()
    setLeader i false

/-! ## The instances together -/

inductive LeaderTask (n : Nat) where
  | campaign (i : Fin n)
  | stop (i : Fin n)
  deriving DecidableEq, Repr

def LeaderTask.instance : LeaderTask n → Fin n
  | .campaign i => i
  | .stop i => i

namespace LeaderWorld

def exec (env : Env) : (c : LeaderCall n) → Unit → LeaderWorld n →
    LeaderWorld n × Except Failure c.Reply
  | .execute c, _, w => ({ w with redis := (w.redis.execute env c).1 },
      .ok (w.redis.execute env c).2)
  | .reply _ r, _, w => (w, .ok r)

def withLeader (w : LeaderWorld n) (i : Fin n) (val : Bool) : LeaderWorld n :=
  { w with leader := Function.update w.leader i val }

def eval : (l : LeaderLocal n) → LeaderWorld n → LeaderWorld n × l.Value
  | .getLeader i, w => (w, w.leader i)
  | .getStopped i, w => (w, w.stopped i)
  | .setLeader i val, w => (w.withLeader i val, ())
  | .setStopped i, w => ({ w with stopped := Function.update w.stopped i true }, ())

def initial (now : Int) : LeaderWorld n := ⟨⟨now, none⟩, fun _ => false, fun _ => false⟩

/-- The clock goes on. -/
def tick (t : Int) (w : LeaderWorld n) : Option (LeaderWorld n) :=
  if w.redis.now ≤ t then some { w with redis := { w.redis with now := t } } else none

end LeaderWorld

def leadership (env : Env) : Machine (LeaderCall.Reply (n := n)) (LeaderLocal.Value (n := n))
    Failure Unit (LeaderWorld n) (LeaderTask n) Unit Int where
  exec := LeaderWorld.exec env
  eval := LeaderWorld.eval
  start
    | .campaign i, w => some (w, campaign i)
    | .stop i, w => some (w, stop i)
  outside := LeaderWorld.tick

abbrev LeaderState (n : Nat) : Type :=
  Async.State (LeaderCall.Reply (n := n)) (LeaderLocal.Value (n := n)) Failure Unit
    (LeaderWorld n) (LeaderTask n) Int

abbrev LeaderEvent (n : Nat) : Type := Async.Event (LeaderTask n) Unit Int Failure

/-! ## The stages of a call -/

/-- The flag when the reply to a command is there, or its failure. -/
def LeaderWorld.onReply (w : LeaderWorld n) : LeaderCommand n → Except Failure Bool → LeaderWorld n
  | .renew _, .ok true => w
  | .setNxPx i, .ok true => w.withLeader i true
  | .setNxPx _, .ok false => w
  | c, _ => w.withLeader c.token false

/-- What a call does then. -/
def onReply : LeaderCommand n → Except Failure Bool → LeaderProgram n Unit
  | .renew _, .ok true => pure ()
  | .setNxPx i, .ok true => setLeader i true
  | .setNxPx _, .ok false => pure ()
  | c, _ => setLeader c.token false

/-- The reply is on its way. -/
def replied (c : LeaderCommand n) (r : Bool) : LeaderProgram n Unit :=
  .await (.reply c r) (onReply c)

/-- The command is on its way. -/
def sent (c : LeaderCommand n) : LeaderProgram n Unit :=
  .await (.execute c) fun
    | .ok r => replied c r
    | .error e => onReply c (.error e)

theorem drain_onReply (c : LeaderCommand n) (r : Except Failure Bool) (w : LeaderWorld n) :
    (onReply c r).drain LeaderWorld.eval w = (w.onReply c r, .ret ()) := by
  match c, r with
  | .renew _, .ok true => rfl
  | .renew _, .ok false => rfl
  | .renew _, .error _ => rfl
  | .setNxPx _, .ok true => rfl
  | .setNxPx _, .ok false => rfl
  | .setNxPx _, .error _ => rfl
  | .release _, .ok _ => rfl
  | .release _, .error _ => rfl

/-- A command and what follows its reply, in the `try` of `campaign`. -/
theorem sendCommand_stages {c : LeaderCommand n} {f : Bool → LeaderProgram n Unit}
    (hok : ∀ r, (f r).tryCatch (fun _ => setLeader c.token false) = onReply c (.ok r))
    (herror : ∀ e, setLeader c.token false = onReply c (.error e)) :
    ((sendCommand c).bind f).tryCatch (fun _ => setLeader c.token false) = sent c := by
  have hreplied (r : Bool) : ((awaitRedis (.reply c r)).bind f).tryCatch
      (fun _ => setLeader c.token false) = replied c r := by
    refine congrArg (Prog.await (LeaderCall.reply c r)) (funext fun r' => ?_)
    cases r' with
    | ok r' => exact hok r'
    | error e => exact herror e
  refine congrArg (Prog.await (LeaderCall.execute c)) (funext fun r => ?_)
  cases r with
  | ok r => exact hreplied r
  | error e => exact herror e

theorem drain_campaign (i : Fin n) (w : LeaderWorld n) :
    (campaign i).drain LeaderWorld.eval w =
      (w, if w.stopped i then .ret () else sent (if w.leader i then .renew i else .setNxPx i)) := by
  have hrenew := sendCommand_stages (c := .renew i)
    (f := fun renewed => if renewed = false then setLeader i false else .ret ())
    (fun r => by cases r <;> rfl) (fun _ => rfl)
  have hacquire := sendCommand_stages (c := .setNxPx i)
    (f := fun res => if res = true then setLeader i true else .ret ())
    (fun r => by cases r <;> rfl) (fun _ => rfl)
  simp only [LeaderCommand.token] at hrenew hacquire
  cases hstopped : w.stopped i with
  | true => simp [campaign, isStopped, effect, Prog.bind, LeaderWorld.eval, hstopped]
  | false =>
    cases hleader : w.leader i with
    | true =>
      simp [campaign, isStopped, isLeader, effect, Prog.bind, Prog.tryCatch, LeaderWorld.eval,
        hstopped, hleader, hrenew]
      rfl
    | false =>
      simp [campaign, isStopped, isLeader, effect, Prog.bind, Prog.tryCatch, LeaderWorld.eval,
        hstopped, hleader, hacquire]
      rfl

/-- The release and what follows it in `stop`, which ignores its failure. -/
theorem sendRelease_stages (i : Fin n) :
    (((sendCommand (.release i)).bind fun _ => .ret ()).tryCatch fun _ => .ret ()).bind
      (fun _ => setLeader i false) = sent (.release i) := by
  refine congrArg (Prog.await (LeaderCall.execute (.release i))) (funext fun r => ?_)
  cases r with
  | ok r =>
    refine congrArg (Prog.await (LeaderCall.reply (.release i) r)) (funext fun r' => ?_)
    cases r' <;> rfl
  | error e => rfl

theorem drain_stop (i : Fin n) (w : LeaderWorld n) :
    (stop i).drain LeaderWorld.eval w =
      ({ w with stopped := Function.update w.stopped i true },
        if w.leader i then sent (.release i) else .ret ()) := by
  have hrelease := sendRelease_stages i
  cases hleader : w.leader i with
  | true =>
    simp [stop, setStopped, isLeader, effect, Prog.bind, LeaderWorld.eval, hleader, hrelease]
    rfl
  | false => simp [stop, setStopped, isLeader, effect, Prog.bind, LeaderWorld.eval, hleader]

/-- The commands of a call. -/
def LeaderTask.Sends : LeaderTask n → LeaderCommand n → Prop
  | .campaign i, c => c = .renew i ∨ c = .setNxPx i
  | .stop i, c => c = .release i

theorem LeaderTask.Sends.token {t : LeaderTask n} {c : LeaderCommand n} (h : t.Sends c) :
    c.token = t.instance := by
  cases t with
  | campaign i => rcases h with rfl | rfl <;> rfl
  | stop i => rw [h]; rfl

/-- How far a call has got. -/
inductive Stage (t : LeaderTask n) : LeaderProgram n Unit → Prop where
  | ended : Stage t (.ret ())
  | sent {c : LeaderCommand n} (h : t.Sends c) : Stage t (sent c)
  | replied {c : LeaderCommand n} (r : Bool) (h : t.Sends c) : Stage t (replied c r)

theorem stage_await {t : LeaderTask n} {c : LeaderCall n}
    {k : Except Failure (LeaderCall.Reply c) → LeaderProgram n Unit} (h : Stage t (.await c k)) :
    ∃ c', t.Sends c' ∧ (.await c k = sent c' ∨ ∃ r, .await c k = replied c' r) := by
  generalize hp : Prog.await c k = p at h
  cases h with
  | ended => cases hp
  | @sent c' hc => exact ⟨c', hc, Or.inl rfl⟩
  | @replied c' r hc => exact ⟨c', hc, Or.inr ⟨r, rfl⟩⟩

def Staged (s : LeaderState n) : Prop := ∀ j t p, s.Live j t p → Stage t p

variable {env : Env} {s s' : LeaderState n} {e : LeaderEvent n}

/-- What a step does. -/
inductive LeaderStep (env : Env) (s s' : LeaderState n) : LeaderEvent n → Prop where
  | campaign {i : Fin n} (hw : s'.world = s.world)
      (ht : s'.threads = s.threads ++ [⟨.campaign i, some (if s.world.stopped i then .ret ()
        else sent (if s.world.leader i then .renew i else .setNxPx i))⟩]) :
      LeaderStep env s s' (.begin (.campaign i))
  | stop {i : Fin n}
      (hw : s'.world = { s.world with stopped := Function.update s.world.stopped i true })
      (ht : s'.threads = s.threads ++ [⟨.stop i, some (if s.world.leader i then sent (.release i)
        else .ret ())⟩]) : LeaderStep env s s' (.begin (.stop i))
  | executed {j : Nat} {t : LeaderTask n} {c : LeaderCommand n} {x : Unit}
      (hj : s.Live j t (sent c))
      (hw : s'.world = { s.world with redis := (s.world.redis.execute env c).1 })
      (ht : s'.threads =
        s.threads.set j ⟨t, some (replied c (s.world.redis.execute env c).2)⟩) :
      LeaderStep env s s' (.resume j (.answered x))
  | failed {j : Nat} {t : LeaderTask n} {c : LeaderCommand n} {o : Outcome Unit Failure}
      (hj : s.Live j t (sent c)) (ho : ∀ x, o ≠ .answered x) {redis : KeyState n}
      (hredis : redis = s.world.redis ∨ redis = (s.world.redis.execute env c).1)
      (hw : s'.world = { s.world with redis := redis }.withLeader c.token false)
      (ht : s'.threads = s.threads.set j ⟨t, some (.ret ())⟩) : LeaderStep env s s' (.resume j o)
  | arrived {j : Nat} {t : LeaderTask n} {c : LeaderCommand n} {r : Bool} {x : Unit}
      (hj : s.Live j t (replied c r)) (hw : s'.world = s.world.onReply c (.ok r))
      (ht : s'.threads = s.threads.set j ⟨t, some (.ret ())⟩) :
      LeaderStep env s s' (.resume j (.answered x))
  | dropped {j : Nat} {t : LeaderTask n} {c : LeaderCommand n} {r : Bool}
      {o : Outcome Unit Failure} (hj : s.Live j t (replied c r)) (ho : ∀ x, o ≠ .answered x)
      (hw : s'.world = s.world.withLeader c.token false)
      (ht : s'.threads = s.threads.set j ⟨t, some (.ret ())⟩) : LeaderStep env s s' (.resume j o)
  | halted {j : Nat} {t : LeaderTask n} {p : LeaderProgram n Unit} (hj : s.Live j t p)
      (hw : s'.world = s.world) (ht : s'.threads = s.threads.set j ⟨t, none⟩) :
      LeaderStep env s s' (.stop j)
  | ticked {t : Int} (h : s.world.redis.now ≤ t)
      (hw : s'.world = { s.world with redis := { s.world.redis with now := t } })
      (ht : s'.threads = s.threads) : LeaderStep env s s' (.outside t)

theorem onReply_error (w : LeaderWorld n) (c : LeaderCommand n) (e : Failure) :
    w.onReply c (.error e) = w.withLeader c.token false := by
  cases c <;> rfl

theorem leaderStep (hst : Staged s) (hs : (leadership env).Step s e s') :
    LeaderStep env s s' e := by
  cases hs with
  | @begin t w p h =>
    cases t with
    | campaign i =>
      cases h
      refine .campaign ?_ ?_
      · exact congrArg Prod.fst (drain_campaign i s.world)
      · simp only [Machine.spawned]
        rw [show (campaign i).drain (leadership env).eval s.world = _ from drain_campaign i s.world]
    | stop i =>
      cases h
      refine .stop ?_ ?_
      · exact congrArg Prod.fst (drain_stop i s.world)
      · simp only [Machine.spawned]
        rw [show (stop i).drain (leadership env).eval s.world = _ from drain_stop i s.world]
  | @resume j t c k o h =>
    have hexec (a : LeaderWorld n) (c' : LeaderCommand n) (r : Except Failure Bool) :
        (onReply c' r).drain (leadership env).eval a = (a.onReply c' r, .ret ()) :=
      drain_onReply c' r a
    obtain ⟨c', hc, heq | ⟨r, heq⟩⟩ := stage_await (hst j t _ h)
    · unfold sent at heq
      cases heq
      cases o with
      | answered x => exact .executed h rfl rfl
      | rejected f =>
        refine .failed h ?_ (Or.inl rfl) ?_ ?_
        · intro x hx
          cases hx
        · simp only [Machine.resumed, Machine.attend, hexec, onReply_error]
        · simp only [Machine.resumed, Machine.attend, hexec]
      | lost x f =>
        refine .failed h ?_ (Or.inr rfl) ?_ ?_
        · intro x' hx
          cases hx
        · simp only [Machine.resumed, Machine.attend, hexec, onReply_error]
          rfl
        · simp only [Machine.resumed, Machine.attend, hexec]
    · unfold replied at heq
      cases heq
      cases o with
      | answered x =>
        refine .arrived h ?_ ?_
        · simp only [Machine.resumed, Machine.attend, hexec]
          rfl
        · simp only [Machine.resumed, Machine.attend, hexec]
      | rejected f =>
        refine .dropped h ?_ ?_ ?_
        · intro x hx
          cases hx
        · simp only [Machine.resumed, Machine.attend, hexec, onReply_error]
        · simp only [Machine.resumed, Machine.attend, hexec]
      | lost x f =>
        refine .dropped h ?_ ?_ ?_
        · intro x' hx
          cases hx
        · simp only [Machine.resumed, Machine.attend, hexec, onReply_error]
          rfl
        · simp only [Machine.resumed, Machine.attend, hexec]
  | @stop j t c k h => exact .halted h rfl rfl
  | @outside x w h =>
    simp only [leadership, LeaderWorld.tick] at h
    split at h
    · rename_i hle
      cases h
      exact .ticked hle rfl rfl
    · cases h

theorem live_lt {j : Nat} {t : LeaderTask n} {p : LeaderProgram n Unit} (h : s.Live j t p) :
    j < s.threads.length := (List.getElem?_eq_some_iff.mp h).1

theorem sends_of_staged (hst : Staged s) {j : Nat} {t : LeaderTask n} {c : LeaderCommand n}
    {p : LeaderProgram n Unit} (hj : s.Live j t p)
    (hp : p = sent c ∨ ∃ r, p = replied c r) : t.Sends c := by
  generalize hq : p = q at hj hp
  have hstage := hst j t q hj
  cases hstage with
  | ended => rcases hp with hp | ⟨r, hp⟩ <;> cases hp
  | sent h =>
    rcases hp with hp | ⟨r, hp⟩
    · unfold sent at hp
      cases hp
      exact h
    · cases hp
  | replied r' h =>
    rcases hp with hp | ⟨r, hp⟩
    · cases hp
    · unfold replied at hp
      cases hp
      exact h

theorem staged_step (hst : Staged s) (hs : (leadership env).Step s e s') : Staged s' := by
  have happend {t : LeaderTask n} {p : LeaderProgram n Unit} (hp : Stage t p)
      (ht : s'.threads = s.threads ++ [⟨t, some p⟩]) : Staged s' := by
    intro j t' q hj
    rcases (Machine.live_append ht).mp hj with hj | ⟨_, heq⟩
    · exact hst j t' q hj
    · cases heq
      exact hp
  have hset {i : Nat} {t : LeaderTask n} {q : LeaderProgram n Unit}
      {p : Option (LeaderProgram n Unit)} (hi : s.Live i t q) (hp : ∀ p', p = some p' → Stage t p')
      (ht : s'.threads = s.threads.set i ⟨t, p⟩) : Staged s' := by
    intro j t' q' hj
    rcases (Machine.live_set (live_lt hi) ht).mp hj with ⟨_, hj⟩ | ⟨_, heq⟩
    · exact hst j t' q' hj
    · cases heq
      exact hp q' rfl
  cases leaderStep hst hs with
  | @campaign i hw ht =>
    refine happend ?_ ht
    split
    · exact .ended
    · split
      · exact .sent (Or.inl rfl)
      · exact .sent (Or.inr rfl)
  | stop hw ht =>
    refine happend ?_ ht
    split
    · exact .sent rfl
    · exact .ended
  | executed hj hw ht =>
    refine hset hj (fun p hp => ?_) ht
    cases hp
    exact .replied _ (sends_of_staged hst hj (Or.inl rfl))
  | failed hj ho hredis hw ht =>
    refine hset hj (fun p hp => ?_) ht
    cases hp
    exact .ended
  | arrived hj hw ht =>
    refine hset hj (fun p hp => ?_) ht
    cases hp
    exact .ended
  | dropped hj ho hw ht =>
    refine hset hj (fun p hp => ?_) ht
    cases hp
    exact .ended
  | halted hj hw ht => exact hset hj (fun p hp => by cases hp) ht
  | ticked h hw ht =>
    intro j t q hj
    unfold State.Live at hj
    rw [ht] at hj
    exact hst j t q hj

theorem staged_run {ok : LeaderState n → LeaderEvent n → Prop} {w₀ : LeaderWorld n}
    (h : (leadership env).Run ok (.fresh w₀) s) : Staged s := by
  refine h.keeps (fun j t p hj => ?_) fun _ _ _ _ ih _ hs => staged_step ih hs
  simp [State.Live, State.fresh] at hj

/-- The key moves as commands and the clock move it. -/
theorem redis_step (hst : Staged s) (hs : (leadership env).Step s e s') :
    s'.world.redis = s.world.redis ∨ ∃ x, KeyState.Step env s.world.redis x s'.world.redis := by
  cases leaderStep hst hs with
  | campaign hw _ => exact Or.inl (by rw [hw])
  | stop hw _ => exact Or.inl (by rw [hw])
  | @executed j t c x hj hw _ => exact Or.inr ⟨_, by rw [hw]; exact .execute c⟩
  | @failed j t c o hj ho redis hredis hw _ =>
    rcases hredis with rfl | rfl
    · exact Or.inl (by rw [hw]; rfl)
    · exact Or.inr ⟨_, by rw [hw]; exact .execute c⟩
  | @arrived j t c r x hj hw _ =>
    refine Or.inl ?_
    rw [hw]
    match c, r with
    | .renew _, true => rfl
    | .renew _, false => rfl
    | .setNxPx _, true => rfl
    | .setNxPx _, false => rfl
    | .release _, _ => rfl
  | dropped hj ho hw _ => exact Or.inl (by rw [hw]; rfl)
  | halted hj hw _ => exact Or.inl (by rw [hw])
  | ticked h hw _ => exact Or.inr ⟨_, by rw [hw]; exact .tick h⟩

/-- What holds of the key in every run of commands holds of it among the instances. -/
theorem redis_run {ok : LeaderState n → LeaderEvent n → Prop} {w₀ : LeaderWorld n}
    (h : (leadership env).Run ok (.fresh w₀) s) :
    KeyState.Run env (fun _ => True) w₀.redis s.world.redis := by
  induction h with
  | refl => exact .refl
  | tail hr _ hs ih =>
    rcases redis_step (staged_run hr) hs with heq | ⟨x, hx⟩
    · rw [heq]
      exact ih
    · exact ih.tail ⟨x, trivial, hx⟩

end CronHive
