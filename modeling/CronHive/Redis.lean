import CronHive.Data
import Mathlib.Data.List.Basic
import Mathlib.Logic.Function.Basic

/-!
# The Redis keyspace

Keys are kept in the form the programs build them in and `text` is the string each is sent
as; `text_injective` is why the two agree. Every key here is written with an expiry, so any
of them may vanish between two steps.
-/

namespace CronHive

set_option autoImplicit false

inductive RedisKey where
  | lock (jobId : JobId) (fireSlot : FireSlot)
  | jobConfig (jobId : JobId)
  deriving DecidableEq, Repr

def jobLockKey (jobId : JobId) (fireSlot : FireSlot) : RedisKey := .lock jobId fireSlot

def jobConfigKey (jobId : JobId) : RedisKey := .jobConfig jobId

/-- `${fireSlot}` -/
def FireSlot.text : FireSlot → String
  | .time ms => ms.repr
  | .manual => "manual"

def RedisKey.text : RedisKey → String
  | .lock jobId fireSlot => "lock:job:" ++ jobId ++ ":" ++ fireSlot.text
  | .jobConfig jobId => "job:config:" ++ jobId

/-- A lock holds its owner's token, a config entry the job as `JSON.stringify` wrote it. -/
inductive RedisValue where
  | token (t : Token)
  | job (j : Job)
  deriving DecidableEq, Repr

structure RedisEntry where
  value : RedisValue
  expireSeconds : Nat
  deriving DecidableEq, Repr

abbrev Redis := RedisKey → Option RedisEntry

namespace Redis

/-- `SET … EX s` is refused unless `s` is positive and `1000 * s` fits a signed 64-bit number. -/
def validExpire (s : Nat) : Bool := 0 < s && s ≤ 9223372036854775

def setEx (r : Redis) (key : RedisKey) (value : RedisValue) (s : Nat) :
    Redis × Except Failure Unit :=
  if validExpire s then (Function.update r key (some ⟨value, s⟩), .ok ())
  else (r, .error (.store "ERR invalid expire time in 'set' command"))

/-- The reply is `true` for "OK" and `false` for nil. -/
def setNxEx (r : Redis) (key : RedisKey) (value : RedisValue) (s : Nat) :
    Redis × Except Failure Bool :=
  if validExpire s then
    match r key with
    | none => (Function.update r key (some ⟨value, s⟩), .ok true)
    | some _ => (r, .ok false)
  else (r, .error (.store "ERR invalid expire time in 'set' command"))

def get (r : Redis) (key : RedisKey) : Option RedisValue := (r key).map (·.value)

def del (r : Redis) (key : RedisKey) : Redis := Function.update r key none

/-- `RELEASE_SCRIPT`: delete the key if it still holds the caller's token. -/
def releaseScript (r : Redis) (key : RedisKey) (token : Token) : Redis :=
  if r.get key = some (.token token) then r.del key else r

end Redis

/-! ## Keys as they are sent -/

theorem isDigit_of_mem_natRepr {n : Nat} {c : Char} (h : c ∈ n.repr.toList) : c.isDigit := by
  rw [Nat.toList_repr] at h
  exact Nat.isDigit_of_mem_toDigits (by decide) (by decide) h

theorem natRepr_injective {m n : Nat} (h : m.repr = n.repr) : m = n := by
  have hdigits : Nat.toDigits 10 m = Nat.toDigits 10 n := by
    rw [← Nat.toList_repr, ← Nat.toList_repr, h]
  have hvalue := congrArg (Nat.ofDigitChars 10 · 0) hdigits
  simp only [Nat.ofDigitChars_ten_toDigits] at hvalue
  exact hvalue

theorem mem_intRepr {a : Int} {c : Char} (h : c ∈ a.repr.toList) : c = '-' ∨ c.isDigit := by
  cases a with
  | ofNat n => exact Or.inr (isDigit_of_mem_natRepr h)
  | negSucc n =>
    simp only [Int.repr, String.toList_append, List.mem_append] at h
    rcases h with h | h
    · exact Or.inl (by simpa using h)
    · exact Or.inr (isDigit_of_mem_natRepr h)

theorem intRepr_injective {a b : Int} (h : a.repr = b.repr) : a = b := by
  have hsign (m n : Nat) : (m.repr : String) ≠ "-" ++ n.repr := by
    intro heq
    have hminus : '-' ∈ m.repr.toList := by simp [heq]
    exact absurd (isDigit_of_mem_natRepr hminus) (by decide)
  cases a with
  | ofNat m =>
    cases b with
    | ofNat n => rw [natRepr_injective h]
    | negSucc n => exact absurd h (hsign m n.succ)
  | negSucc m =>
    cases b with
    | ofNat n => exact absurd h.symm (hsign n m.succ)
    | negSucc n =>
      have hrepr := (String.append_right_inj "-").mp h
      rw [Nat.succ.inj (natRepr_injective hrepr)]

theorem FireSlot.colon_not_mem_text (fireSlot : FireSlot) : ':' ∉ fireSlot.text.toList := by
  intro h
  cases fireSlot with
  | manual => exact absurd h (by decide)
  | time ms =>
    rcases mem_intRepr h with h | h
    · exact absurd h (by decide)
    · exact absurd h (by decide)

theorem FireSlot.text_injective {a b : FireSlot} (h : a.text = b.text) : a = b := by
  have hmanual (ms : Int) : ms.repr ≠ "manual" := by
    intro heq
    have hm : 'm' ∈ ms.repr.toList := by rw [heq]; decide
    rcases mem_intRepr hm with hm | hm
    · exact absurd hm (by decide)
    · exact absurd hm (by decide)
  cases a with
  | time ms =>
    cases b with
    | time ms' => rw [intRepr_injective h]
    | manual => exact absurd h (hmanual ms)
  | manual =>
    cases b with
    | time ms => exact absurd h.symm (hmanual ms)
    | manual => rfl

/-- The last colon of a lock's name ends the job id, which may have colons of its own. -/
theorem split_at_last_colon {xs xs' ys ys' : List Char} (hys : ':' ∉ ys) (hys' : ':' ∉ ys')
    (h : xs ++ ':' :: ys = xs' ++ ':' :: ys') : xs = xs' ∧ ys = ys' := by
  have hnil {mid zs zs' : List Char} (hzs : ':' ∉ zs) (heq : ':' :: zs = mid ++ ':' :: zs') :
      mid = [] := by
    cases mid with
    | nil => rfl
    | cons c mid =>
      have hcolon : ':' ∈ zs := by
        rw [(List.cons.inj heq).2]
        simp
      exact absurd hcolon hzs
  rcases List.append_eq_append_iff.mp h with ⟨mid, hxs, htail⟩ | ⟨mid, hxs, htail⟩
  · have hmid := hnil hys htail
    subst hmid
    exact ⟨by simpa using hxs.symm, (List.cons.inj htail).2⟩
  · have hmid := hnil hys' htail
    subst hmid
    exact ⟨by simpa using hxs, (List.cons.inj htail).2.symm⟩

theorem RedisKey.text_injective {a b : RedisKey} (h : a.text = b.text) : a = b := by
  have hlist := congrArg String.toList h
  cases a with
  | lock jobId fireSlot =>
    cases b with
    | lock jobId' fireSlot' =>
      have hrest : jobId.toList ++ ':' :: fireSlot.text.toList =
          jobId'.toList ++ ':' :: fireSlot'.text.toList := by
        simpa [RedisKey.text] using hlist
      obtain ⟨hjob, hslot⟩ := split_at_last_colon fireSlot.colon_not_mem_text
        fireSlot'.colon_not_mem_text hrest
      rw [String.toList_inj.mp hjob, FireSlot.text_injective (String.toList_inj.mp hslot)]
    | jobConfig jobId' => simp [RedisKey.text] at hlist
  | jobConfig jobId =>
    cases b with
    | lock jobId' fireSlot' => simp [RedisKey.text] at hlist
    | jobConfig jobId' => rw [(String.append_right_inj _).mp h]

namespace Redis

/-! ## Who may hold a key -/

theorem setNxEx_true {r : Redis} {key : RedisKey} {value : RedisValue} {s : Nat}
    (h : (r.setNxEx key value s).2 = .ok true) : r key = none := by
  unfold setNxEx at h
  split at h
  · split at h
    · assumption
    · cases h
  · cases h

theorem setNxEx_false {r : Redis} {key : RedisKey} {value : RedisValue} {s : Nat}
    (h : (r.setNxEx key value s).2 = .ok false) : r key ≠ none := by
  unfold setNxEx at h
  split at h
  · split at h
    · cases h
    · rename_i e he
      rw [he]
      nofun
  · cases h

/-- `SET … NX` changes no other key, and its own only when it says so. -/
theorem setNxEx_other {r : Redis} {key key' : RedisKey} {value : RedisValue} {s : Nat}
    (h : key = key' → (r.setNxEx key value s).2 ≠ .ok true) :
    (r.setNxEx key value s).1 key' = r key' := by
  unfold setNxEx at h ⊢
  split
  · rename_i hs
    split
    · rename_i hnone
      simp only [hs, hnone, if_true] at h
      exact Function.update_of_ne (fun heq => h heq.symm rfl) _ _
    · rfl
  · rfl

theorem setNxEx_self {r : Redis} {key : RedisKey} {value : RedisValue} {s : Nat}
    (h : (r.setNxEx key value s).2 = .ok true) :
    (r.setNxEx key value s).1 key = some ⟨value, s⟩ := by
  unfold setNxEx at h ⊢
  split
  · rename_i hs
    rw [if_pos hs] at h
    split
    · simp
    · rename_i e he
      rw [he] at h
      cases h
  · rename_i hs
    rw [if_neg hs] at h
    cases h

theorem setEx_other {r : Redis} {key key' : RedisKey} {value : RedisValue} {s : Nat}
    (h : key ≠ key') : (r.setEx key value s).1 key' = r key' := by
  unfold setEx
  split
  · exact Function.update_of_ne (Ne.symm h) _ _
  · rfl

theorem setEx_self {r : Redis} {key : RedisKey} {value : RedisValue} {s : Nat} :
    (r.setEx key value s).1 key = some ⟨value, s⟩ ∨ (r.setEx key value s).1 key = r key := by
  unfold setEx
  split
  · exact Or.inl (Function.update_self ..)
  · exact Or.inr rfl

theorem del_le {r : Redis} {key key' : RedisKey} (h : r.del key key' ≠ none) :
    r.del key key' = r key' := by
  unfold del at h ⊢
  by_cases hkey : key' = key
  · subst hkey
    simp at h
  · exact Function.update_of_ne hkey _ _

theorem releaseScript_le {r : Redis} {key key' : RedisKey} {token : Token}
    (h : r.releaseScript key token key' ≠ none) : r.releaseScript key token key' = r key' := by
  unfold releaseScript at h ⊢
  split
  · rename_i hget
    rw [if_pos hget] at h
    exact del_le h
  · rfl

theorem releaseScript_other {r : Redis} {key key' : RedisKey} {token : Token} (h : key ≠ key') :
    r.releaseScript key token key' = r key' := by
  unfold releaseScript
  split
  · exact Function.update_of_ne (Ne.symm h) _ _
  · rfl

end Redis

end CronHive
