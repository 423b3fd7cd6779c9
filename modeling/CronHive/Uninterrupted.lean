import CronHive.Async.Turns
import CronHive.System

/-!
# Tasks that are not interrupted

Rules for a task whose calls are all answered while nobody else takes a step.
-/

namespace CronHive

set_option autoImplicit false

open Async Async.Prog Async.Machine

/-- Every call is answered, a callback as `x` says. -/
def answers (x : Choice) : Call → Outcome Choice Failure := fun _ => .answered x

/-- The same tables, keys and messages. -/
structure SameStores (w w' : World) : Prop where
  db : w'.db = w.db
  redis : w'.redis = w.redis
  queue : w'.queue = w.queue
  finished : w'.finished = w.finished

theorem SameStores.trans {w w₁ w' : World} (h : SameStores w w₁) (h' : SameStores w₁ w') :
    SameStores w w' :=
  ⟨h'.db.trans h.db, h'.redis.trans h.redis, h'.queue.trans h.queue,
    h'.finished.trans h.finished⟩

section Rules

variable {S : Setup} {x : Choice} {w : World} {α : Type}

theorem ends_local {l : Local} {f : l.Value → Promise α} {Q : World → Except Failure α → Prop}
    (h : ∀ w' v, SameStores w w' → (system S).Ends (answers x) (f v) w' Q) :
    (system S).Ends (answers x) ((Prog.effect l).bind f) w Q :=
  h _ _ ⟨World.eval_db l w, World.eval_redis l w, World.eval_queue l w, World.eval_finished l w⟩

theorem ends_await (c : Call) : (system S).Ends (answers x) (await c) w fun w' r =>
    w' = (World.exec c x w).1 ∧ r = (World.exec c x w).2 := by
  rw [Ends, await, solo_perform]
  exact ⟨rfl, rfl⟩

theorem ends_call {c : Call} {f : c.Reply → Promise α} {Q : World → Except Failure α → Prop}
    {a : c.Reply} (ha : (World.exec c x w).2 = .ok a)
    (h : (system S).Ends (answers x) (f a) (World.exec c x w).1 Q) :
    (system S).Ends (answers x) ((await c).bind f) w Q := by
  refine (ends_await c).bind ?_ ?_
  · intro w' a' heq
    obtain ⟨rfl, hr⟩ := heq
    rw [ha] at hr
    cases hr
    exact h
  · intro w' e heq
    rw [ha] at heq
    cases heq.2

end Rules

end CronHive
