import CronHive.Config
import Mathlib.Logic.Relation

/-!
# The leader key

`cronhive:scheduler:leader` in Redis and the three commands of `leader.ts`. Whatever commands
are executed, however late and however often, only the holder's own move its lease.
-/

namespace CronHive

set_option autoImplicit false

variable {n : Nat}

/-- What `cronhive:scheduler:leader` holds, each scheduler having its own token. -/
structure Lease (n : Nat) where
  token : Fin n
  expireAt : Int
  deriving DecidableEq, Repr

abbrev LeaderKey (n : Nat) := Option (Lease n)

namespace LeaderKey

/-- Redis drops a key when its expiry is past. -/
def get (key : LeaderKey n) (now : Int) : Option (Fin n) :=
  match key with
  | some lease => if now ≤ lease.expireAt then some lease.token else none
  | none => none

/-- `SET … PX … NX` -/
def setNxPx (key : LeaderKey n) (now : Int) (token : Fin n) (ms : Nat) : LeaderKey n × Bool :=
  match key.get now with
  | some _ => (key, false)
  | none => (some ⟨token, now + ms⟩, true)

/-- `RENEW_SCRIPT` -/
def renewScript (key : LeaderKey n) (now : Int) (token : Fin n) (ms : Nat) :
    LeaderKey n × Bool :=
  if key.get now = some token then (some ⟨token, now + ms⟩, true) else (key, false)

/-- `RELEASE_SCRIPT` -/
def releaseScript (key : LeaderKey n) (now : Int) (token : Fin n) : LeaderKey n :=
  if key.get now = some token then none else key

/-- One `campaign()`: the leader renews, the others try to acquire. The flag is what
`setLeader` is left with. -/
def campaign (env : Env) (key : LeaderKey n) (now : Int) (token : Fin n) (leader : Bool) :
    LeaderKey n × Bool :=
  if leader then key.renewScript now token env.leaderLeaseMs
  else key.setNxPx now token env.leaderLeaseMs

end LeaderKey

namespace LeaderKey

variable {env : Env} {key : LeaderKey n} {now : Int} {i : Fin n}

theorem get_eq_some : key.get now = some i ↔ ∃ t, key = some ⟨i, t⟩ ∧ now ≤ t := by
  unfold get
  constructor
  · intro h
    split at h
    · rename_i lease
      split at h
      · rename_i hle
        cases h
        exact ⟨lease.expireAt, rfl, hle⟩
      · cases h
    · cases h
  · intro h
    obtain ⟨t, rfl, hle⟩ := h
    exact if_pos hle

variable (env) in
theorem campaign_renews (h : key.get now = some i) :
    key.campaign env now i true = (some ⟨i, now + env.leaderLeaseMs⟩, true) := by
  simp [campaign, renewScript, h]

theorem campaign_held {j : Fin n} (h : key.get now = some j) :
    key.campaign env now i false = (key, false) := by
  simp [campaign, setNxPx, h]

theorem campaign_acquires (h : key.get now = none) :
    key.campaign env now i false = (some ⟨i, now + env.leaderLeaseMs⟩, true) := by
  simp [campaign, setNxPx, h]

theorem renewScript_other {ms : Nat} (h : key.get now ≠ some i) :
    key.renewScript now i ms = (key, false) := if_neg h

theorem renewScript_self {ms : Nat} (h : key.get now = some i) :
    key.renewScript now i ms = (some ⟨i, now + ms⟩, true) := if_pos h

theorem releaseScript_other (h : key.get now ≠ some i) : key.releaseScript now i = key := if_neg h

theorem releaseScript_self (h : key.get now = some i) : key.releaseScript now i = none := if_pos h

theorem setNxPx_held {j : Fin n} {ms : Nat} (h : key.get now = some j) :
    key.setNxPx now i ms = (key, false) := by
  simp [setNxPx, h]

theorem setNxPx_free {ms : Nat} (h : key.get now = none) :
    key.setNxPx now i ms = (some ⟨i, now + ms⟩, true) := by
  simp [setNxPx, h]

end LeaderKey

/-! ## Commands on their way -/

/-- What a scheduler sends, with its token. -/
inductive LeaderCommand (n : Nat) where
  | setNxPx (token : Fin n)
  | renew (token : Fin n)
  | release (token : Fin n)
  deriving DecidableEq, Repr

def LeaderCommand.token : LeaderCommand n → Fin n
  | .setNxPx i => i
  | .renew i => i
  | .release i => i

/-- The key and the time Redis reads it at. -/
structure KeyState (n : Nat) where
  now : Int
  key : LeaderKey n

namespace KeyState

/-- Whose token the key holds. -/
def holder (r : KeyState n) : Option (Fin n) := r.key.get r.now

/-- One command is executed; the reply says whether it did anything. -/
def execute (env : Env) (r : KeyState n) : LeaderCommand n → KeyState n × Bool
  | .setNxPx i =>
      let a := r.key.setNxPx r.now i env.leaderLeaseMs
      ({ r with key := a.1 }, a.2)
  | .renew i =>
      let a := r.key.renewScript r.now i env.leaderLeaseMs
      ({ r with key := a.1 }, a.2)
  | .release i =>
      ({ r with key := r.key.releaseScript r.now i }, decide (r.key.get r.now = some i))

/-- Time passes, or a command arrives: any command, at any time, any number of times. -/
inductive Event (n : Nat) where
  | tick (t : Int)
  | execute (c : LeaderCommand n)
  deriving DecidableEq, Repr

inductive Step (env : Env) (r : KeyState n) : Event n → KeyState n → Prop where
  | tick {t : Int} (h : r.now ≤ t) : Step env r (.tick t) { r with now := t }
  | execute (c : LeaderCommand n) : Step env r (.execute c) (r.execute env c).1

abbrev Run (env : Env) (ok : Event n → Prop) : KeyState n → KeyState n → Prop :=
  Relation.ReflTransGen fun r r' => ∃ e, ok e ∧ Step env r e r'

variable {env : Env} {r r' : KeyState n} {e : Event n}

@[simp] theorem execute_now (c : LeaderCommand n) : (r.execute env c).1.now = r.now := by
  cases c <;> rfl

theorem step_now (h : Step env r e r') : r.now ≤ r'.now := by
  cases h with
  | tick h => exact h
  | execute c => exact Int.le_of_eq (execute_now c).symm

theorem holder_eq_some {i : Fin n} :
    r.holder = some i ↔ ∃ t, r.key = some ⟨i, t⟩ ∧ r.now ≤ t := LeaderKey.get_eq_some

inductive Executed (env : Env) (r : KeyState n) (i : Fin n) (t : Int) :
    LeaderCommand n → LeaderKey n × Bool → Prop where
  | held (j : Fin n) : Executed env r i t (.setNxPx j) (some ⟨i, t⟩, false)
  | renewed : Executed env r i t (.renew i) (some ⟨i, r.now + env.leaderLeaseMs⟩, true)
  | refused {j : Fin n} (h : j ≠ i) : Executed env r i t (.renew j) (some ⟨i, t⟩, false)
  | released : Executed env r i t (.release i) (none, true)
  | ignored {j : Fin n} (h : j ≠ i) : Executed env r i t (.release j) (some ⟨i, t⟩, false)

variable (env) in
theorem execute_held {i : Fin n} {t : Int} (hkey : r.key = some ⟨i, t⟩) (hlive : r.now ≤ t)
    (c : LeaderCommand n) :
    Executed env r i t c ((r.execute env c).1.key, (r.execute env c).2) := by
  have hget : r.key.get r.now = some i := LeaderKey.get_eq_some.mpr ⟨t, hkey, hlive⟩
  cases c with
  | setNxPx j =>
    simp only [execute]
    rw [LeaderKey.setNxPx_held hget, hkey]
    exact .held j
  | renew j =>
    by_cases hij : j = i
    · subst hij
      simp only [execute, LeaderKey.renewScript_self hget]
      exact .renewed
    · have hne : r.key.get r.now ≠ some j := by
        rw [hget]
        exact fun heq => hij (Option.some.inj heq).symm
      simp only [execute]
      rw [LeaderKey.renewScript_other hne, hkey]
      exact .refused hij
  | release j =>
    by_cases hij : j = i
    · subst hij
      simp only [execute, LeaderKey.releaseScript_self hget, hget, decide_true]
      exact .released
    · have hne : r.key.get r.now ≠ some j := by
        rw [hget]
        exact fun heq => hij (Option.some.inj heq).symm
      simp only [execute]
      rw [LeaderKey.releaseScript_other hne, decide_eq_false hne, hkey]
      exact .ignored hij

/-- A renewal or a release of an instance that does not hold the key leaves it as it was,
whether somebody else holds it or nobody. -/
theorem execute_stale {i : Fin n} (h : r.holder ≠ some i) {c : LeaderCommand n}
    (hc : c = .renew i ∨ c = .release i) : (r.execute env c).1 = r := by
  rcases hc with rfl | rfl
  · simp only [execute, LeaderKey.renewScript_other h]
  · simp only [execute, LeaderKey.releaseScript_other h]

theorem execute_setNxPx_true {i : Fin n} (h : (r.execute env (.setNxPx i)).2 = true) :
    r.holder = none ∧ (r.execute env (.setNxPx i)).1.holder = some i := by
  cases hget : r.key.get r.now with
  | some j =>
    simp only [execute] at h
    rw [LeaderKey.setNxPx_held hget] at h
    cases h
  | none =>
    refine ⟨hget, holder_eq_some.mpr ⟨r.now + env.leaderLeaseMs, ?_, ?_⟩⟩
    · simp only [execute]
      rw [LeaderKey.setNxPx_free hget]
    · rw [execute_now]
      omega

theorem execute_gain {i : Fin n} {c : LeaderCommand n}
    (h : (r.execute env c).1.holder = some i) :
    r.holder = some i ∨ (c = .setNxPx i ∧ (r.execute env c).2 = true) := by
  cases c with
  | setNxPx j =>
    cases hget : r.key.get r.now with
    | some k =>
      simp only [execute] at h
      rw [LeaderKey.setNxPx_held hget] at h
      exact Or.inl h
    | none =>
      have htrue : (r.execute env (.setNxPx j)).2 = true := by
        simp only [execute]
        rw [LeaderKey.setNxPx_free hget]
      have hself := (execute_setNxPx_true htrue).2
      cases hself.symm.trans h
      exact Or.inr ⟨rfl, htrue⟩
  | renew j =>
    by_cases hj : r.holder = some j
    · obtain ⟨t, hkey, hlive⟩ := holder_eq_some.mp hj
      have hget : r.key.get r.now = some j := hj
      obtain ⟨t', hkey', _⟩ := holder_eq_some.mp h
      simp only [execute] at hkey'
      rw [LeaderKey.renewScript_self hget] at hkey'
      cases hkey'
      exact Or.inl hj
    · rw [execute_stale hj (Or.inl rfl)] at h
      exact Or.inl h
  | release j =>
    by_cases hj : r.holder = some j
    · have hget : r.key.get r.now = some j := hj
      obtain ⟨t', hkey', _⟩ := holder_eq_some.mp h
      simp only [execute] at hkey'
      rw [LeaderKey.releaseScript_self hget] at hkey'
      cases hkey'
    · rw [execute_stale hj (Or.inr rfl)] at h
      exact Or.inl h

theorem execute_keep {i : Fin n} {c : LeaderCommand n} (h : r.holder = some i)
    (hc : c ≠ .release i) : (r.execute env c).1.holder = some i := by
  obtain ⟨t, hkey, hlive⟩ := holder_eq_some.mp h
  have hexec := execute_held env hkey hlive c
  generalize hout : ((r.execute env c).1.key, (r.execute env c).2) = out at hexec
  have hfst := congrArg Prod.fst hout
  cases hexec with
  | released => exact absurd rfl hc
  | renewed => exact holder_eq_some.mpr ⟨_, hfst, by rw [execute_now]; omega⟩
  | _ => exact holder_eq_some.mpr ⟨_, hfst, by rw [execute_now]; exact hlive⟩

theorem execute_release (i : Fin n) : (r.execute env (.release i)).1.holder ≠ some i := by
  intro h
  rcases execute_gain h with hheld | ⟨hc, _⟩
  · have hget : r.key.get r.now = some i := hheld
    obtain ⟨t', hkey', _⟩ := holder_eq_some.mp h
    simp only [execute] at hkey'
    rw [LeaderKey.releaseScript_self hget] at hkey'
    cases hkey'
  · cases hc

def notOf (i : Fin n) : Event n → Prop
  | .tick _ => True
  | .execute c => c.token ≠ i

theorem run_others {i : Fin n} {t : Int} (hkey : r.key = some ⟨i, t⟩)
    (h : Run env (notOf i) r r') (hlive : r'.now ≤ t) : r'.key = some ⟨i, t⟩ := by
  induction h with
  | refl => exact hkey
  | @tail r₁ r₂ _ hs ih =>
    obtain ⟨e, he, hs⟩ := hs
    have hlive₁ : r₁.now ≤ t := Int.le_trans (step_now hs) hlive
    have hkey₁ := ih hlive₁
    cases hs with
    | tick _ => exact hkey₁
    | execute c =>
      have hexec := execute_held env hkey₁ hlive₁ c
      generalize hout : ((r₁.execute env c).1.key, (r₁.execute env c).2) = out at hexec
      have hfst := congrArg Prod.fst hout
      cases hexec with
      | renewed => exact absurd rfl he
      | released => exact absurd rfl he
      | _ => exact hfst

/-- A step of the key while `i` holds it until `t`: the lease stays as it is, or one of `i`'s
own commands renews or releases it. In particular no other token follows `i`'s at once. -/
theorem holder_disturbed_by_itself {i : Fin n} {t : Int} (hkey : r.key = some ⟨i, t⟩)
    (hlive : r.now ≤ t) (hs : Step env r e r') :
    r'.key = some ⟨i, t⟩ ∨
      (e = .execute (.renew i) ∧ r'.key = some ⟨i, r.now + env.leaderLeaseMs⟩) ∨
      (e = .execute (.release i) ∧ r'.key = none) := by
  cases hs with
  | tick _ => exact Or.inl hkey
  | execute c =>
    have hexec := execute_held env hkey hlive c
    generalize hout : ((r.execute env c).1.key, (r.execute env c).2) = out at hexec
    have hfst := congrArg Prod.fst hout
    cases hexec with
    | renewed => exact Or.inr (Or.inl ⟨rfl, hfst⟩)
    | released => exact Or.inr (Or.inr ⟨rfl, hfst⟩)
    | _ => exact Or.inl hfst

/-- Whatever commands of any instances arrive, at any time and any number of times: what is
done to a lease that has not run out is done by its holder, who alone can move its expiry or
drop it; until it runs out it stays as it is if the holder does nothing; and a renewal or a
release of an instance that does not hold the key changes nothing. -/
theorem former_leaders_change_nothing (hs : Step env r e r') :
    (∀ i t, r.key = some ⟨i, t⟩ → r.now ≤ t →
      r'.key = some ⟨i, t⟩ ∨
        (e = .execute (.renew i) ∧ r'.key = some ⟨i, r.now + env.leaderLeaseMs⟩) ∨
        (e = .execute (.release i) ∧ r'.key = none)) ∧
      (∀ i t r'', r.key = some ⟨i, t⟩ → Run env (notOf i) r r'' → r''.now ≤ t →
        r''.key = some ⟨i, t⟩) ∧
      ∀ i, e = .execute (.renew i) ∨ e = .execute (.release i) → r.holder ≠ some i → r' = r := by
  refine ⟨fun i t hkey hlive => holder_disturbed_by_itself hkey hlive hs,
    fun i t r'' hkey hothers hlive => run_others hkey hothers hlive, fun i he hne => ?_⟩
  cases hs with
  | tick _ => rcases he with he | he <;> cases he
  | execute c =>
    refine execute_stale hne ?_
    rcases he with he | he
    · cases he
      exact Or.inl rfl
    · cases he
      exact Or.inr rfl

theorem former_leaders_change_nothing_renewal :
    ((⟨20000, some ⟨0, 30000⟩⟩ : KeyState 2).execute {} (.renew 1)).1 =
      ⟨20000, some ⟨0, 30000⟩⟩ :=
  (former_leaders_change_nothing (.execute (.renew 1))).2.2 1 (Or.inl rfl) (by decide)

end KeyState

end CronHive
