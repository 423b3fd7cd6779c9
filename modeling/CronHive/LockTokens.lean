import CronHive.Async.Fresh
import CronHive.Footprints

/-!
# Lock tokens in the system

Every lock is asked for and released with a token that the asking tick or trigger has drawn
from `randomUUID`, so no two threads ever send one token.
-/

namespace CronHive

set_option autoImplicit false

open Async Async.Prog Async.Machine

/-- The tokens of the lock commands, drawn from `randomUUID`. -/
def lockTokens : FreshDraws Call Local.Value where
  carries
    | .redisSetNx _ (.token t) _, n => t = n
    | .redisRelease _ t, n => t = n
    | _, _ => False
  drawn
    | .randomUUID, t, n => t = n
    | _, _, _ => False

section Programs

variable {own : Set Nat}

theorem owns_call {c : Call} (h : ∀ n, ¬ lockTokens.carries c n)
    {Q : Set Nat → Except Failure c.Reply → Prop} (hQ : ∀ r, Q own r) :
    (await c).owns lockTokens own Q :=
  owns_perform lockTokens (fun n hn => absurd hn (h n)) hQ

theorem owns_acquireJobLock (jobId : JobId) (slot : FireSlot) (ttlSeconds : Nat) :
    (acquireJobLock jobId slot ttlSeconds).owns lockTokens own
      fun own' r => ∀ lock, r = .ok (some lock) → lock.token ∈ own' := by
  intro token
  have htoken : token ∈ own ∪ {n | lockTokens.drawn .randomUUID token n} := Or.inr rfl
  refine ⟨fun n hn => hn ▸ htoken, fun granted => ?_⟩
  cases granted with
  | error e => exact nofun
  | ok granted =>
    cases granted with
    | false => exact nofun
    | true =>
      intro lock hlock
      cases hlock
      exact htoken

theorem owns_releaseJobLock {lock : JobLock} (h : lock.token ∈ own)
    {Q : Set Nat → Except Failure Unit → Prop} (hQ : ∀ r, Q own r) :
    (releaseJobLock lock).owns lockTokens own Q :=
  owns_perform lockTokens (fun _ hn => hn ▸ h) hQ

/-- The release of a lock whose use has failed. -/
theorem owns_giveUp {lock : JobLock} (h : lock.token ∈ own) {α : Type} (e : Failure) :
    ((releaseJobLock lock).bind fun _ => (.fail e : Promise α)).owns lockTokens own
      fun _ _ => True := by
  apply owns_bind
  apply owns_releaseJobLock h
  intro r
  cases r <;> trivial

theorem owns_claimSlot (job : Job) (slot : Int) {lock : JobLock} (h : lock.token ∈ own) :
    (claimSlot job slot lock).owns lockTokens own fun _ _ => True := by
  apply owns_tryCatch
  apply owns_bind
  apply owns_tryCatch
  apply owns_bind
  apply owns_call
  · exact fun _ h => h
  intro created
  cases created with
  | ok x =>
    apply owns_bind
    apply owns_call
    · exact fun _ h => h
    intro added
    cases added with
    | ok _ => exact fun _ => trivial
    | error e => exact owns_giveUp h e
  | error e =>
    by_cases he : e = .p2002
    · subst he
      intro _
      apply owns_releaseJobLock
      · exact Or.inl h
      intro released
      cases released with
      | ok _ => trivial
      | error e => exact owns_giveUp (Or.inl h) e
    · dsimp only
      rw [if_neg he]
      exact owns_giveUp h e

theorem owns_tickIteration (S : Setup) (job : Job) :
    (tickIteration S job).owns lockTokens own fun _ _ => True := by
  apply owns_bind
  apply owns_effect
  intro now
  dsimp only
  split
  · trivial
  · rename_i slot _
    apply owns_bind
    refine owns_mono lockTokens ?_ (owns_acquireJobLock job.id (.time slot) _)
    intro own' r _ hlock
    rcases r with e | _ | lock
    · trivial
    · exact fun _ => trivial
    · exact owns_claimSlot job slot (hlock lock rfl)

theorem owns_tickLoop (S : Setup) (jobs : List Job) :
    (tickLoop S jobs).owns lockTokens own fun _ _ => True := by
  induction jobs generalizing own with
  | nil => trivial
  | cons job jobs ih =>
    apply owns_bind
    refine owns_mono lockTokens ?_ (owns_tickIteration S job)
    intro own' r _ _
    cases r with
    | error e => trivial
    | ok _ => exact ih

theorem owns_tick (S : Setup) : (tick S).owns lockTokens own fun _ _ => True := by
  apply owns_bind
  apply owns_effect
  intro _
  apply owns_bind
  apply owns_call
  · exact fun _ h => h
  intro jobs
  cases jobs with
  | error e => trivial
  | ok jobs => exact owns_tickLoop S jobs

theorem owns_triggerJob (S : Setup) (id : JobId) :
    (triggerJob S id).owns lockTokens own fun _ _ => True := by
  apply owns_bind
  apply owns_call
  · exact fun _ h => h
  intro found
  rcases found with e | _ | job
  · trivial
  · trivial
  · dsimp only
    split
    · trivial
    · apply owns_bind
      refine owns_mono lockTokens ?_ (owns_acquireJobLock job.id .manual _)
      intro own' r _ hlock
      rcases r with e | _ | lock
      · trivial
      · trivial
      · have htoken : lock.token ∈ own' := hlock lock rfl
        apply owns_tryCatch
        apply owns_bind
        apply owns_call
        · exact fun _ h => h
        intro created
        cases created with
        | error e => exact owns_giveUp htoken e
        | ok x =>
          apply owns_bind
          apply owns_call
          · exact fun _ h => h
          intro added
          cases added with
          | ok _ => trivial
          | error e => exact owns_giveUp htoken e

theorem Task.no_token {t : Task} (htick : t ≠ .tick) (htrigger : ∀ id, t ≠ .trigger id) {c : Call}
    (h : t.Calls c) (n : Nat) : ¬ lockTokens.carries c n := by
  cases t with
  | tick => exact absurd rfl htick
  | trigger id => exact absurd rfl (htrigger id)
  | deliver m =>
    obtain ⟨b, hb⟩ := h
    cases c <;> first | exact hb.elim | exact id
  | _ => cases c <;> first | exact h.elim | exact id

end Programs

theorem World.exec_nextToken (c : Call) (x : Choice) (w : World) :
    (World.exec c x w).1.nextToken = w.nextToken := by
  cases c with
  | _ => rfl

theorem system_draws (S : Setup) : (system S).DrawsFrom lockTokens World.nextToken where
  exec c x w := Nat.le_of_eq (World.exec_nextToken c x w).symm
  eval l w := by
    cases l with
    | randomUUID => exact Nat.le_succ _
    | _ => exact Nat.le_refl _
  drawn l w n h := by
    cases l with
    | randomUUID =>
      have hn : w.nextToken = n := h
      subst hn
      exact ⟨Nat.le_refl _, Nat.lt_succ_self _⟩
    | _ => exact h.elim
  start t w w' p h := by
    constructor
    · cases t with
      | deliver m =>
        simp only [system, start] at h
        split at h
        · cases h
          exact Nat.le_succ _
        · cases h
      | _ =>
        cases h
        exact Nat.le_refl _
    · have hdone {α : Type} {q : Promise α} {f : α → Response}
          (hq : q.owns lockTokens ∅ fun _ _ => True) :
          (q.bind fun a => .ret (f a)).owns lockTokens ∅ fun _ _ => True := by
        apply owns_bind
        refine owns_mono lockTokens ?_ hq
        intro own' r _ _
        cases r <;> trivial
      by_cases htick : t = .tick
      · subst htick
        cases h
        exact hdone (owns_tick S)
      · by_cases htrigger : ∃ id, t = .trigger id
        · obtain ⟨id, rfl⟩ := htrigger
          cases h
          exact hdone (owns_triggerJob S id)
        · refine Only.owns lockTokens ((only_start h).mono ?_) ∅
          exact fun c hc n => t.no_token htick (fun id hid => htrigger ⟨id, hid⟩) hc n
  outside x w w' h := by
    cases x with
    | _ =>
      cases h
      exact Nat.le_refl _

theorem lock_token_unique {S : Setup} {w₀ : World} {s : SystemState} (h : Reachable S w₀ s)
    {i i' : Nat} {t : Token} (hi : s.Carries lockTokens i t) (hi' : s.Carries lockTokens i' t) :
    i = i' := h.carries_unique (system_draws S) hi hi'

end CronHive
