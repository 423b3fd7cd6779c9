import CronHive.System
import Mathlib.Algebra.BigOperators.Ring.Finset
import Mathlib.Algebra.Order.BigOperators.Group.List
import Mathlib.Algebra.Order.Ring.Rat
import Mathlib.Tactic.Linarith
import Mathlib.Tactic.Ring

/-!
# The lifetime of a lock

`computeJobLockTtlSeconds` adds up the longest run of attempts that `executionJobOptions` allows,
so a lock outlives the retries of its execution. The sum doubles with every retry, and Redis
takes no expiry of more than 2^63 - 1 milliseconds.
-/

namespace CronHive

set_option autoImplicit false

open Async Async.Prog

/-! ## The sum of the delays -/

theorem backoffSum_add (backoffMs n : Nat) :
    backoffSum backoffMs n + backoffMs = backoffMs * 2 ^ n := by
  induction n with
  | zero => simp [backoffSum]
  | succ n ih =>
    rw [backoffSum, pow_succ, ← Nat.mul_assoc, Nat.mul_two, ← ih]
    omega

theorem backoffSum_eq (backoffMs n : Nat) : backoffSum backoffMs n = backoffMs * (2 ^ n - 1) := by
  have h := backoffSum_add backoffMs n
  rw [Nat.mul_sub, Nat.mul_one]
  omega

theorem backoffSum_mono {b b' n n' : Nat} (hb : b ≤ b') (hn : n ≤ n') :
    backoffSum b n ≤ backoffSum b' n' := by
  rw [backoffSum_eq, backoffSum_eq]
  have hpow : 2 ^ n ≤ 2 ^ n' := Nat.pow_le_pow_right (by decide) hn
  exact Nat.mul_le_mul hb (Nat.sub_le_sub_right hpow 1)

/-- The longest run of a job's attempts and delays. -/
def Job.worstCaseMs (job : Job) : Nat :=
  job.callbackTimeoutMs * (job.maxRetries + 1) + backoffSum job.backoffMs job.maxRetries

section Ttl

variable {env : Env} {job : Job}

theorem lockTtl_eq (htimeout : 1 ≤ job.callbackTimeoutMs) : computeJobLockTtlSeconds env job =
    (job.worstCaseMs + env.lockBufferMs + 999) / 1000 := by
  have hnonzero : job.callbackTimeoutMs ≠ 0 := by omega
  have hpos : 1 ≤ job.worstCaseMs := by
    have hattempts : 1 ≤ job.callbackTimeoutMs * (job.maxRetries + 1) :=
      Nat.mul_pos htimeout (Nat.succ_pos _)
    unfold Job.worstCaseMs
    omega
  simp only [computeJobLockTtlSeconds, if_neg hnonzero]
  change max 1 ((job.worstCaseMs + env.lockBufferMs + 999) / 1000) = _
  omega

theorem lockTtl_pos : 1 ≤ computeJobLockTtlSeconds env job := Nat.le_max_left ..

theorem lockTtl_bounds (htimeout : 1 ≤ job.callbackTimeoutMs) :
    job.worstCaseMs + env.lockBufferMs ≤ 1000 * computeJobLockTtlSeconds env job ∧
      1000 * computeJobLockTtlSeconds env job < job.worstCaseMs + env.lockBufferMs + 1000 := by
  rw [lockTtl_eq htimeout]
  constructor
  · omega
  · omega

theorem lockTtl_le_iff (htimeout : 1 ≤ job.callbackTimeoutMs) {n : Nat} :
    computeJobLockTtlSeconds env job ≤ n ↔ job.worstCaseMs + env.lockBufferMs ≤ 1000 * n := by
  rw [lockTtl_eq htimeout]
  omega

theorem lockTtl_mono {job' : Job} (htimeout : 1 ≤ job.callbackTimeoutMs)
    (hretries : job.maxRetries ≤ job'.maxRetries) (hbackoff : job.backoffMs ≤ job'.backoffMs)
    (htimeouts : job.callbackTimeoutMs ≤ job'.callbackTimeoutMs) :
    computeJobLockTtlSeconds env job ≤ computeJobLockTtlSeconds env job' := by
  rw [lockTtl_le_iff htimeout]
  have hworst : job.worstCaseMs ≤ job'.worstCaseMs := by
    have hattempts := Nat.mul_le_mul htimeouts (Nat.add_le_add_right hretries 1)
    have hdelays := backoffSum_mono hbackoff hretries
    exact Nat.add_le_add hattempts hdelays
  have hcovers : job'.worstCaseMs + env.lockBufferMs ≤ 1000 * computeJobLockTtlSeconds env job' :=
    (lockTtl_bounds (Nat.le_trans htimeout htimeouts)).1
  omega

end Ttl

/-! ## The retries of a message -/

/-- BullMQ's wait before the `k`-th retry of a message. -/
def JobsOptions.retryDelay (opts : JobsOptions) (k : Nat) : Nat := opts.backoffDelay * 2 ^ (k - 1)

/-- How long each attempt at a message has lasted, in milliseconds. -/
structure AttemptRun (opts : JobsOptions) (timeoutMs : Nat) where
  durations : List ℚ
  count : durations.length = opts.attempts
  bounded : ∀ d ∈ durations, d ≤ timeoutMs

/-- From the start of the first attempt to the end of the last. -/
def AttemptRun.totalMs {opts : JobsOptions} {timeoutMs : Nat} (r : AttemptRun opts timeoutMs) : ℚ :=
  r.durations.sum + ∑ k ∈ Finset.range (opts.attempts - 1), (opts.retryDelay (k + 1) : ℚ)

def AttemptRun.longest (opts : JobsOptions) (timeoutMs : Nat) : AttemptRun opts timeoutMs where
  durations := List.replicate opts.attempts (timeoutMs : ℚ)
  count := List.length_replicate
  bounded _ hd := le_of_eq (List.eq_of_mem_replicate hd)

namespace AttemptRun

theorem totalMs_le_longest {opts : JobsOptions} {timeoutMs : Nat} (r : AttemptRun opts timeoutMs) :
    r.totalMs ≤ (longest opts timeoutMs).totalMs := by
  have hsum : r.durations.sum ≤ (List.replicate opts.attempts (timeoutMs : ℚ)).sum := by
    rw [List.sum_replicate, ← r.count]
    exact List.sum_le_card_nsmul _ _ r.bounded
  exact add_le_add_left hsum _

theorem sum_retryDelay (job : Job) (n : Nat) :
    ∑ k ∈ Finset.range n, (executionJobOptions job).retryDelay (k + 1) =
      backoffSum job.backoffMs n := by
  induction n with
  | zero => rfl
  | succ n ih =>
    rw [Finset.sum_range_succ, ih]
    rfl

theorem longest_totalMs (job : Job) :
    (longest (executionJobOptions job) job.callbackTimeoutMs).totalMs = job.worstCaseMs := by
  have hdelays := sum_retryDelay job job.maxRetries
  have hgaps : (executionJobOptions job).attempts - 1 = job.maxRetries := rfl
  have hattempts : (executionJobOptions job).attempts = job.maxRetries + 1 := rfl
  unfold totalMs longest Job.worstCaseMs
  rw [hgaps, ← hdelays, List.sum_replicate, hattempts, nsmul_eq_mul, ← Nat.cast_sum]
  push_cast
  ring

end AttemptRun

/-- The lock outlives every run of the attempts BullMQ is told to make, by its buffer and less
than a second, and no less if the job may retry more, wait longer or take longer. -/
theorem lock_ttl_covers_retries (env : Env) (job : Job) (htimeout : 1 ≤ job.callbackTimeoutMs) :
    (∀ r : AttemptRun (executionJobOptions job) job.callbackTimeoutMs,
      r.totalMs + env.lockBufferMs ≤ 1000 * computeJobLockTtlSeconds env job) ∧
    (∃ r : AttemptRun (executionJobOptions job) job.callbackTimeoutMs,
      (∀ r' : AttemptRun (executionJobOptions job) job.callbackTimeoutMs, r'.totalMs ≤ r.totalMs) ∧
        1000 * computeJobLockTtlSeconds env job < r.totalMs + env.lockBufferMs + 1000) ∧
    ∀ job' : Job, job.maxRetries ≤ job'.maxRetries → job.backoffMs ≤ job'.backoffMs →
      job.callbackTimeoutMs ≤ job'.callbackTimeoutMs →
        computeJobLockTtlSeconds env job ≤ computeJobLockTtlSeconds env job' := by
  have hcovers : job.worstCaseMs + env.lockBufferMs ≤ 1000 * computeJobLockTtlSeconds env job :=
    (lockTtl_bounds htimeout).1
  have hclose :
      1000 * computeJobLockTtlSeconds env job < job.worstCaseMs + env.lockBufferMs + 1000 :=
    (lockTtl_bounds htimeout).2
  have hworst := AttemptRun.longest_totalMs job
  refine ⟨fun r => ?_, ⟨.longest _ _, fun r' => r'.totalMs_le_longest, ?_⟩, ?_⟩
  · have hle := r.totalMs_le_longest
    have hcovers' : (job.worstCaseMs + env.lockBufferMs : ℚ) ≤
        1000 * computeJobLockTtlSeconds env job := by exact_mod_cast hcovers
    linarith
  · rw [hworst]
    exact_mod_cast hclose
  · intro job' hretries hbackoff htimeouts
    exact lockTtl_mono htimeout hretries hbackoff htimeouts

theorem lock_ttl_covers_retries_sample :
    (∀ r : AttemptRun (executionJobOptions Sample.job) 30000, r.totalMs + 10000 ≤ 1000 * 137) ∧
      computeJobLockTtlSeconds {} Sample.job = 137 := by
  have httl : computeJobLockTtlSeconds {} Sample.job = 137 := by decide
  refine ⟨fun r => ?_, httl⟩
  have hcovers := (lock_ttl_covers_retries {} Sample.job (by decide)).1 r
  rw [httl] at hcovers
  exact_mod_cast hcovers

/-! ## The limit on an expiry -/

/-- What `retryPolicySchema`, `createBody` and `updateBody` admit of a retry policy. -/
structure Job.Admitted (job : Job) : Prop where
  maxRetries : job.maxRetries ≤ 50
  backoffMs : 100 ≤ job.backoffMs ∧ job.backoffMs ≤ 3600000
  callbackTimeoutMs : 1000 ≤ job.callbackTimeoutMs ∧ job.callbackTimeoutMs ≤ 300000

/-- An expiry is positive and, in milliseconds, a signed 64-bit number. -/
def Call.ExpiryAccepted : Call → Prop
  | .redisSetNx _ _ s => 0 < s ∧ s ≤ (2 ^ 63 - 1) / 1000
  | _ => True

theorem validExpire_iff {s : Nat} :
    Redis.validExpire s = true ↔ 0 < s ∧ s ≤ (2 ^ 63 - 1) / 1000 := by
  simp [Redis.validExpire]

theorem setNxEx_refused {key : RedisKey} {value : RedisValue} {s : Nat}
    (h : ¬ Call.ExpiryAccepted (.redisSetNx key value s)) (r : Redis) :
    r.setNxEx key value s = (r, .error (.store "ERR invalid expire time in 'set' command")) :=
  if_neg fun hvalid => h (validExpire_iff.mp hvalid)

theorem acquireJobLock_expiry {jobId : JobId} {slot : FireSlot} {ttlSeconds : Nat}
    (h : 1 ≤ ttlSeconds) : (acquireJobLock jobId slot ttlSeconds).Only Call.ExpiryAccepted ↔
      ttlSeconds ≤ (2 ^ 63 - 1) / 1000 := by
  have hsent : (if ttlSeconds < 1 then 1 else ttlSeconds) = ttlSeconds := if_neg (Nat.not_lt.mpr h)
  constructor
  · intro honly
    have haccepted : Call.ExpiryAccepted (.redisSetNx (jobLockKey jobId slot) (.token 0)
        (if ttlSeconds < 1 then 1 else ttlSeconds)) := (honly 0).1
    rw [hsent] at haccepted
    exact haccepted.2
  · intro hle
    refine Only.bind (only_effect _) fun token => Only.bind (only_await ?_) fun _ => only_ret _
    rw [hsent]
    exact ⟨h, hle⟩

/-- Redis accepts the lifetime of a lock exactly if the worst case and the buffer are no longer. -/
theorem lockTtl_expiry {env : Env} {job : Job} (htimeout : 1 ≤ job.callbackTimeoutMs)
    {jobId : JobId} {slot : FireSlot} :
    (acquireJobLock jobId slot (computeJobLockTtlSeconds env job)).Only Call.ExpiryAccepted ↔
      job.worstCaseMs + env.lockBufferMs ≤ 1000 * ((2 ^ 63 - 1) / 1000) := by
  rw [acquireJobLock_expiry lockTtl_pos]
  exact lockTtl_le_iff htimeout

/-- The lifetime of an admitted job's lock is one Redis accepts exactly if the worst case and the
buffer are at most 2^63 - 1 milliseconds, rounded down to seconds. -/
theorem lock_ttl_accepted_iff (env : Env) (hbuffer : env.lockBufferMs = 10000) (job : Job)
    (hjob : job.Admitted) :
    (∀ jobId slot, (acquireJobLock jobId slot (computeJobLockTtlSeconds env job)).Only
        Call.ExpiryAccepted) ↔
      job.callbackTimeoutMs * (job.maxRetries + 1) + job.backoffMs * (2 ^ job.maxRetries - 1) +
        10000 ≤ 1000 * ((2 ^ 63 - 1) / 1000) := by
  have htimeout : 1 ≤ job.callbackTimeoutMs := Nat.le_trans (by decide) hjob.callbackTimeoutMs.1
  rw [← hbuffer, ← backoffSum_eq]
  change _ ↔ job.worstCaseMs + env.lockBufferMs ≤ _
  constructor
  · intro haccepted
    exact (lockTtl_expiry htimeout).mp (haccepted "" .manual)
  · intro hsmall jobId slot
    exact (lockTtl_expiry htimeout).mpr hsmall

theorem lock_ttl_accepted_of_retries (env : Env) (hbuffer : env.lockBufferMs = 10000) {job : Job}
    (hjob : job.Admitted) (hretries : job.maxRetries ≤ 41) (jobId : JobId) (slot : FireSlot) :
    (acquireJobLock jobId slot (computeJobLockTtlSeconds env job)).Only Call.ExpiryAccepted := by
  have htimeout : 1 ≤ job.callbackTimeoutMs := Nat.le_trans (by decide) hjob.callbackTimeoutMs.1
  refine (lockTtl_expiry htimeout).mpr ?_
  rw [hbuffer, Job.worstCaseMs, backoffSum_eq]
  have hpow : 2 ^ job.maxRetries ≤ 2 ^ 41 := Nat.pow_le_pow_right (by decide) hretries
  have hdelays : job.backoffMs * (2 ^ job.maxRetries - 1) ≤ 3600000 * (2 ^ 41 - 1) :=
    Nat.mul_le_mul hjob.backoffMs.2 (Nat.sub_le_sub_right hpow 1)
  have hattempts : job.callbackTimeoutMs * (job.maxRetries + 1) ≤ 300000 * 42 :=
    Nat.mul_le_mul hjob.callbackTimeoutMs.2 (Nat.add_le_add_right hretries 1)
  omega

def patientJob : Job :=
  { Sample.job with maxRetries := 50, backoffMs := 3600000, callbackTimeoutMs := 300000 }

theorem lock_ttl_accepted_iff_sample : Sample.job.Admitted ∧
    ∀ jobId slot, (acquireJobLock jobId slot (computeJobLockTtlSeconds {} Sample.job)).Only
      Call.ExpiryAccepted := by
  have hjob : Sample.job.Admitted := ⟨by decide, by decide, by decide⟩
  exact ⟨hjob, (lock_ttl_accepted_iff {} rfl Sample.job hjob).mpr (by decide)⟩

/-- Its lock would have to live for 10^11 years, and Redis refuses it. -/
theorem patient_job_lock_refused : patientJob.Admitted ∧
    computeJobLockTtlSeconds {} patientJob = 4053239664633458110 ∧
    (¬ ∀ jobId slot, (acquireJobLock jobId slot (computeJobLockTtlSeconds {} patientJob)).Only
      Call.ExpiryAccepted) ∧
    ∀ (r : Redis) (key : RedisKey) (value : RedisValue),
      (r.setNxEx key value (computeJobLockTtlSeconds {} patientJob)).2 =
        .error (.store "ERR invalid expire time in 'set' command") := by
  have hjob : patientJob.Admitted := ⟨by decide, by decide, by decide⟩
  have httl : computeJobLockTtlSeconds {} patientJob = 4053239664633458110 := by decide +kernel
  have hlarge : ¬ computeJobLockTtlSeconds {} patientJob ≤ (2 ^ 63 - 1) / 1000 := by
    rw [httl]
    decide
  refine ⟨hjob, httl, fun h => ?_, fun r key value => ?_⟩
  · exact hlarge ((acquireJobLock_expiry lockTtl_pos).mp (h "" .manual))
  · rw [setNxEx_refused (fun haccepted => hlarge haccepted.2)]

end CronHive
