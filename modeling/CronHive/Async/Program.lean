import Mathlib.Logic.Basic

/-!
# Programs of asynchronous functions

A `Prog` is the tree of an `async` function: it returns, throws, awaits a call to a
shared store and goes on with the reply, or runs a local synchronous effect. Between two
awaits nothing else of the same process runs, so local effects are never a point of
interleaving: `drain` runs them up to the next await.
-/

namespace Async

set_option autoImplicit false

/-- `Res op` is the type of a reply to `op`; a reply may also be a rejection in `ε`. -/
inductive Prog {Op Loc : Type} (Res : Op → Type) (Val : Loc → Type) (ε α : Type) : Type where
  | ret (a : α)
  | fail (e : ε)
  | await (op : Op) (k : Except ε (Res op) → Prog Res Val ε α)
  | sync (l : Loc) (k : Val l → Prog Res Val ε α)

namespace Prog

variable {Op Loc : Type} {Res : Op → Type} {Val : Loc → Type} {ε α β : Type}

protected def bind : Prog Res Val ε α → (α → Prog Res Val ε β) → Prog Res Val ε β
  | .ret a, f => f a
  | .fail e, _ => .fail e
  | .await op k, f => .await op fun r => (k r).bind f
  | .sync l k, f => .sync l fun v => (k v).bind f

protected def tryCatch : Prog Res Val ε α → (ε → Prog Res Val ε α) → Prog Res Val ε α
  | .ret a, _ => .ret a
  | .fail e, h => h e
  | .await op k, h => .await op fun r => (k r).tryCatch h
  | .sync l k, h => .sync l fun v => (k v).tryCatch h

instance : Monad (Prog Res Val ε) where
  pure := .ret
  bind := .bind

instance : MonadExceptOf ε (Prog Res Val ε) where
  throw := .fail
  tryCatch := .tryCatch

/-- Await one call; a rejected call throws at the await. -/
def perform (op : Op) : Prog Res Val ε (Res op) :=
  .await op fun
    | .ok a => .ret a
    | .error e => .fail e

/-- Run one local effect. -/
def effect (l : Loc) : Prog Res Val ε (Val l) := .sync l .ret

@[simp] theorem pure_eq (a : α) : (pure a : Prog Res Val ε α) = .ret a := rfl

@[simp] theorem bind_eq (p : Prog Res Val ε α) (f : α → Prog Res Val ε β) :
    p >>= f = p.bind f := rfl

@[simp] theorem throw_eq (e : ε) : (throw e : Prog Res Val ε α) = .fail e := rfl

@[simp] theorem tryCatch_eq (p : Prog Res Val ε α) (h : ε → Prog Res Val ε α) :
    MonadExcept.tryCatch p h = p.tryCatch h := rfl

section Drain

variable {World : Type} (eval : (l : Loc) → World → World × Val l)

/-- Run local effects until the program awaits, returns or throws. -/
def drain : Prog Res Val ε α → World → World × Prog Res Val ε α
  | .sync l k, w => drain (k (eval l w).2) (eval l w).1
  | .ret a, w => (w, .ret a)
  | .fail e, w => (w, .fail e)
  | .await op k, w => (w, .await op k)

@[simp] theorem drain_ret (a : α) (w : World) :
    drain eval (.ret a : Prog Res Val ε α) w = (w, .ret a) := rfl

@[simp] theorem drain_fail (e : ε) (w : World) :
    drain eval (.fail e : Prog Res Val ε α) w = (w, .fail e) := rfl

@[simp] theorem drain_await (op : Op) (k : Except ε (Res op) → Prog Res Val ε α) (w : World) :
    drain eval (.await op k) w = (w, .await op k) := rfl

@[simp] theorem drain_sync (l : Loc) (k : Val l → Prog Res Val ε α) (w : World) :
    drain eval (.sync l k) w = drain eval (k (eval l w).2) (eval l w).1 := rfl

/-- No local effect is left to run. -/
def Settled : Prog Res Val ε α → Prop
  | .sync _ _ => False
  | _ => True

theorem drain_settled (p : Prog Res Val ε α) (w : World) : (drain eval p w).2.Settled := by
  induction p generalizing w with
  | sync l k ih => exact ih _ _
  | _ => trivial

theorem drain_keeps {P : World → Prop} (keeps : ∀ l w, P w → P (eval l w).1)
    (p : Prog Res Val ε α) {w : World} (hw : P w) : P (drain eval p w).1 := by
  induction p generalizing w with
  | ret a => exact hw
  | fail e => exact hw
  | await op k _ => exact hw
  | sync l k ih => exact ih _ (keeps l w hw)

theorem drain_frame {γ : Type} (f : World → γ) (frame : ∀ l w, f (eval l w).1 = f w)
    (p : Prog Res Val ε α) (w : World) : f (drain eval p w).1 = f w :=
  drain_keeps eval (P := fun w' => f w' = f w) (fun l w' h => (frame l w').trans h) p rfl

end Drain

end Prog

end Async
