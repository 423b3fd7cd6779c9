import CronHive.Election
import Mathlib.Logic.Relation

/-!
# How long nobody scans

Between the last scan of a leader that fails and the first of the next one pass at most
twice the scan period, the lease and a heartbeat, and that long it can be: the leader fails
just before its next scan and just after renewing its lease, and the follower that is
elected a heartbeat after the lease has run out has just looked at its flag.
-/

namespace CronHive

set_option autoImplicit false

open Cluster

variable {n : Nat}

namespace Cluster

/-- `old` made the last scan at `a`, as leader, and nobody has scanned since. -/
inductive SinceScan (env : Env) (old : Fin n) (a : Int) : Cluster n → Prop where
  | scanned {s s' : Cluster n} {e : ClusterEvent n} (hs : Reachable env s) (ha : s.now = a)
      (he : Scans s old e) (h : Step env s e s') : SinceScan env old a s'
  | tail {s s' : Cluster n} {e : ClusterEvent n} (hs : SinceScan env old a s)
      (he : ∀ i, ¬ Scans s i e) (h : Step env s e s') : SinceScan env old a s'

/-- A failover under way: `old` made the last scan at `a` and failed. Nobody has scanned
since, no other leader has failed, and `other` was up when `old` failed and has been since. -/
inductive Failover (env : Env) (old other : Fin n) (a : Int) : Cluster n → Prop where
  | failed {s s' : Cluster n} {e : ClusterEvent n} (hs : SinceScan env old a s)
      (he : e.fails old) (hne : other ≠ old) (hup : ∃ x, s.Up other x) (h : Step env s e s') :
      Failover env old other a s'
  | tail {s s' : Cluster n} {e : ClusterEvent n} (hs : Failover env old other a s)
      (hscan : ∀ i, ¬ Scans s i e) (hother : ¬ e.fails other)
      (hleader : ∀ i x, s.Up i x → x.leader = true → ¬ e.fails i) (h : Step env s e s') :
      Failover env old other a s'

end Cluster

/-- In no failover is the next scan out of reach of `dueFireSlot`'s window, so that it still
sees a firing that the last scan did not. -/
def NoScanGap (env : Env) : Prop :=
  ∀ (n : Nat) (old other : Fin n) (a : Int) (s : Cluster n), Failover env old other a s →
    s.now - a ≤ env.windowMs ∧
      ∀ firing, a ≤ firing → firing ≤ s.now →
        0 ≤ s.now - firing ∧ s.now - firing ≤ env.windowMs

/-! ## What every run keeps -/

namespace Cluster

/-- No timer is overdue or further off than its period, and the one leader's lease is the one
its last campaign left. -/
structure Timely (env : Env) (s : Cluster n) : Prop where
  campaigns : ∀ i x, s.Up i x → s.now ≤ x.campaignAt ∧ x.campaignAt ≤ s.now + env.heartbeatMs
  runs : ∀ i x, s.Up i x → s.now ≤ x.runAt ∧ x.runAt ≤ s.now + env.schedulerScanMs
  leads : ∀ i x, s.Up i x → x.leader = true →
    s.key = some ⟨i, x.campaignAt - env.heartbeatMs + env.leaderLeaseMs⟩
  lease : ∀ l, s.key = some l → l.expireAt ≤ s.now + env.leaderLeaseMs

variable {env : Env} {s s' : Cluster n} {e : ClusterEvent n}

theorem timely_initial (now : Int) : Timely env (.initial now : Cluster n) where
  campaigns _ _ h := by cases h
  runs _ _ h := by cases h
  leads _ _ h := by cases h
  lease _ h := by cases h

theorem Timely.get_leader (h : Timely env s) {i : Fin n} {x : Instance} (hi : s.Up i x)
    (hx : x.leader = true) : s.key.get s.now = some i := by
  refine LeaderKey.get_eq_some.mpr ⟨_, h.leads i x hi hx, ?_⟩
  have hcampaign := (h.campaigns i x hi).1
  have hle := env.heartbeat_le_lease
  omega

theorem Timely.leader_unique (h : Timely env s) {i j : Fin n} {x y : Instance} (hi : s.Up i x)
    (hx : x.leader = true) (hj : s.Up j y) (hy : y.leader = true) : i = j := by
  have hget := (h.get_leader hi hx).symm.trans (h.get_leader hj hy)
  exact Option.some.inj hget

theorem timely_campaign (h : Timely env s) {i : Fin n} {leader : Bool} {runAt : Int}
    (hi : ∀ x, s.Up i x → x.leader = leader) (hleader : leader = true → ∃ x, s.Up i x)
    (hrun : s.now ≤ runAt ∧ runAt ≤ s.now + env.schedulerScanMs) :
    Timely env ((s.withKey (s.key.campaign env s.now i leader).1).put i
      (.up ⟨(s.key.campaign env s.now i leader).2, s.now + env.heartbeatMs, runAt⟩)) := by
  have hothers (r : LeaderKey n × Bool)
      (hleads : r.2 = true → r.1 = some ⟨i, s.now + env.leaderLeaseMs⟩)
      (hkept : ∀ j y, j ≠ i → s.Up j y → y.leader = true → r.1 = s.key)
      (hlease : ∀ l, r.1 = some l → l.expireAt ≤ s.now + env.leaderLeaseMs) :
      Timely env ((s.withKey r.1).put i (.up ⟨r.2, s.now + env.heartbeatMs, runAt⟩)) := by
    refine ⟨fun j y hj => ?_, fun j y hj => ?_, fun j y hj hy => ?_, hlease⟩
    · rcases up_put.mp hj with ⟨rfl, hy⟩ | ⟨_, hj⟩
      · cases hy
        simp only [put_now, withKey_now]
        omega
      · exact h.campaigns j y hj
    · rcases up_put.mp hj with ⟨rfl, hy⟩ | ⟨_, hj⟩
      · cases hy
        exact hrun
      · exact h.runs j y hj
    · rcases up_put.mp hj with ⟨rfl, heq⟩ | ⟨hne, hj⟩
      · cases heq
        simpa using hleads hy
      · exact (hkept j y hne hj hy).trans (h.leads j y hj hy)
  cases leader with
  | true =>
    obtain ⟨x, hx⟩ := hleader rfl
    have hlx := hi x hx
    rw [LeaderKey.campaign_renews env (h.get_leader hx hlx)]
    refine hothers _ (fun _ => rfl) (fun j y hne hj hy => ?_) ?_
    · exact absurd (h.leader_unique hj hy hx hlx) hne
    · rintro l ⟨⟩
      exact Int.le_refl _
  | false =>
    cases hget : s.key.get s.now with
    | some j =>
      rw [LeaderKey.campaign_held hget]
      exact hothers _ (fun h => by cases h) (fun _ _ _ _ _ => rfl) h.lease
    | none =>
      rw [LeaderKey.campaign_acquires hget]
      refine hothers _ (fun _ => rfl) (fun j y _ hj hy => ?_) ?_
      · rw [h.get_leader hj hy] at hget
        cases hget
      · rintro l ⟨⟩
        exact Int.le_refl _

theorem timely_gone (h : Timely env s) {i : Fin n} {key : LeaderKey n}
    (hkept : ∀ j y, j ≠ i → s.Up j y → y.leader = true → key = s.key)
    (hlease : ∀ l, key = some l → l.expireAt ≤ s.now + env.leaderLeaseMs) :
    Timely env ((s.withKey key).put i .down) := by
  have hup {j : Fin n} {y : Instance} (hj : ((s.withKey key).put i .down).Up j y) :
      j ≠ i ∧ s.Up j y := by
    rcases up_put.mp hj with ⟨_, hy⟩ | hj
    · cases hy
    · exact hj
  refine ⟨fun j y hj => h.campaigns j y (hup hj).2, fun j y hj => h.runs j y (hup hj).2,
    fun j y hj hy => ?_, hlease⟩
  obtain ⟨hne, hj⟩ := hup hj
  exact (hkept j y hne hj hy).trans (h.leads j y hj hy)

theorem timely_step (h : Timely env s) (hs : Step env s e s') : Timely env s' := by
  cases hs with
  | @wait t ht hdue =>
    refine ⟨fun i x hi => ?_, fun i x hi => ?_, h.leads, fun l hl => ?_⟩
    · exact ⟨(hdue i x hi).1, Int.le_trans (h.campaigns i x hi).2 (by simpa using ht)⟩
    · exact ⟨(hdue i x hi).2, Int.le_trans (h.runs i x hi).2 (by simpa using ht)⟩
    · exact Int.le_trans (h.lease l hl) (by simpa using ht)
  | @start i hi =>
    refine timely_campaign h (fun x hx => ?_) (fun hf => by cases hf) (by omega)
    cases hi.symm.trans hx
  | @campaign i x hi hdue =>
    refine timely_campaign h (fun y hy => ?_) (fun _ => ⟨x, hi⟩) (h.runs i x hi)
    rw [up_unique hy hi]
  | @run i x hi hdue =>
    refine ⟨fun j y hj => ?_, fun j y hj => ?_, fun j y hj hy => ?_, h.lease⟩
    · rcases up_put.mp hj with ⟨rfl, heq⟩ | ⟨_, hj⟩
      · cases heq
        exact h.campaigns j x hi
      · exact h.campaigns j y hj
    · rcases up_put.mp hj with ⟨rfl, heq⟩ | ⟨_, hj⟩
      · cases heq
        simp only [ran_now]
        omega
      · exact h.runs j y hj
    · rcases up_put.mp hj with ⟨rfl, heq⟩ | ⟨_, hj⟩
      · cases heq
        exact h.leads j x hi hy
      · exact h.leads j y hj hy
  | @crash i x hi => exact timely_gone h (fun _ _ _ _ _ => rfl) h.lease
  | @stop i x hi =>
    unfold stopped
    by_cases hx : x.leader = true
    · rw [if_pos hx]
      refine timely_gone h (fun j y hne hj hy => ?_) (fun l hl => ?_)
      · exact absurd (h.leader_unique hj hy hi hx) hne
      · simp [LeaderKey.releaseScript, h.get_leader hi hx] at hl
    · rw [if_neg hx]
      exact timely_gone h (fun _ _ _ _ _ => rfl) h.lease

theorem timely_reachable (h : Reachable env s) : Timely env s := by
  induction h with
  | initial now => exact timely_initial now
  | tail _ hs ih => exact timely_step ih hs

theorem SinceScan.timely {old : Fin n} {a : Int} (h : SinceScan env old a s) : Timely env s := by
  induction h with
  | scanned hs _ _ h => exact timely_step (timely_reachable hs) h
  | tail _ _ h ih => exact timely_step ih h

theorem Failover.timely {old other : Fin n} {a : Int} (h : Failover env old other a s) :
    Timely env s := by
  induction h with
  | failed hs _ _ _ h => exact timely_step hs.timely h
  | tail _ _ _ _ h ih => exact timely_step ih h

/-! ## The longest gap -/

/-- A leader that is not scanning, crashing or stopping stays the leader and keeps the time of
its next scan. -/
theorem leader_step (ht : Timely env s) (hs : Step env s e s') {i : Fin n} {x : Instance}
    (hi : s.Up i x) (hx : x.leader = true) (hscan : ¬ Scans s i e) (hfail : ¬ e.fails i) :
    ∃ x', s'.Up i x' ∧ x'.leader = true ∧ x'.runAt = x.runAt := by
  have hother {j : Fin n} {s₁ : Cluster n} {p : SchedulerProcess} (hne : i ≠ j)
      (h₁ : s₁.Up i x) : ∃ x', (s₁.put j p).Up i x' ∧ x'.leader = true ∧ x'.runAt = x.runAt :=
    ⟨x, up_put.mpr (Or.inr ⟨hne, h₁⟩), hx, rfl⟩
  cases hs with
  | wait _ _ => exact ⟨x, hi, hx, rfl⟩
  | @start j hj =>
    refine hother (fun heq => ?_) hi
    subst heq
    cases hj.symm.trans hi
  | @campaign j y hj _ =>
    by_cases hij : i = j
    · subst hij
      cases up_unique hi hj
      have hrenew := LeaderKey.campaign_renews env (ht.get_leader hi hx)
      refine ⟨_, up_put.mpr (Or.inl ⟨rfl, rfl⟩), ?_, rfl⟩
      simp only [hx, hrenew]
    · exact hother hij hi
  | @run j y hj _ =>
    refine hother (fun heq => hscan ?_) hi
    subst heq
    exact ⟨rfl, x, hi, hx⟩
  | @crash j y hj =>
    refine hother (fun heq => hfail ?_) hi
    subst heq
    exact Or.inl rfl
  | @stop j y hj =>
    have hne : i ≠ j := by
      intro heq
      subst heq
      exact hfail (Or.inr rfl)
    exact ⟨x, up_stopped.mpr ⟨hne, hi⟩, hx, rfl⟩

theorem down_step (hs : Step env s e s') {i : Fin n} (hi : s.schedulers i = .down) :
    s'.schedulers i = .down := by
  have hput {j : Fin n} {s₁ : Cluster n} {p : SchedulerProcess} (hj : s.schedulers j ≠ .down)
      (h₁ : s₁.schedulers i = .down) : (s₁.put j p).schedulers i = .down := by
    have hne : i ≠ j := by
      intro heq
      subst heq
      exact hj hi
    simpa [put, hne] using h₁
  cases hs with
  | wait _ _ => exact hi
  | start hj => exact hput (by rw [hj]; simp) hi
  | campaign hj _ => exact hput (by rw [hj]; simp) hi
  | run hj _ => exact hput (by rw [hj]; simp) hi
  | crash hj => exact hput (by rw [hj]; simp) hi
  | stop hj =>
    refine hput (by rw [hj]; simp) ?_
    split <;> exact hi

theorem fails_step (hs : Step env s e s') {i : Fin n} (he : e.fails i) :
    (∃ x, s.Up i x) ∧ s'.schedulers i = .down := by
  rcases he with rfl | rfl
  · cases hs with
    | crash hi => exact ⟨⟨_, hi⟩, by simp [put]⟩
  · cases hs with
    | stop hi => exact ⟨⟨_, hi⟩, by simp [stopped, put]⟩

theorem SinceScan.old {old : Fin n} {a : Int} (h : SinceScan env old a s) :
    (∃ x, s.Up old x ∧ x.leader = true ∧ x.runAt = a + env.schedulerScanMs) ∨
      s.schedulers old = .down := by
  induction h with
  | @scanned s s' e hs ha he h =>
    cases h with
    | @run j y hj hdue =>
      obtain ⟨rfl, x, hx, hleader⟩ := he
      cases up_unique hx hj
      exact Or.inl ⟨_, up_put.mpr (Or.inl ⟨rfl, rfl⟩), hleader, by rw [← ha]⟩
    | _ => exact he.elim
  | @tail s s' e hs he h ih =>
    rcases ih with ⟨x, hx, hleader, hrun⟩ | hdown
    · by_cases hfail : e.fails old
      · exact Or.inr (fails_step h hfail).2
      · obtain ⟨x', hx', hleader', hrun'⟩ := leader_step hs.timely h hx hleader (he old) hfail
        exact Or.inl ⟨x', hx', hleader', hrun'.trans hrun⟩
    · exact Or.inr (down_step h hdown)

/-- Where a failover stands, `deadline` being when somebody leads at last: either nobody leads
yet, the lease runs out in time and `other` campaigns in time, or somebody leads and scans a
period later at last. -/
inductive Pending (env : Env) (other : Fin n) (deadline : Int) (s : Cluster n) : Prop where
  | electing {x : Instance} (hnone : ∀ i y, s.Up i y → y.leader = false)
      (hother : s.Up other x) (hcampaign : x.campaignAt ≤ deadline)
      (hlease : ∀ l, s.key = some l → l.expireAt + env.heartbeatMs ≤ deadline)
  | elected {i : Fin n} {x : Instance} (hi : s.Up i x) (hleader : x.leader = true)
      (hrun : x.runAt ≤ deadline + env.schedulerScanMs)

variable {other : Fin n} {deadline : Int}

theorem pending_campaign (ht : Timely env s) (hnone : ∀ i y, s.Up i y → y.leader = false)
    {x : Instance} (hother : s.Up other x) (hcampaign : x.campaignAt ≤ deadline)
    (hlease : ∀ l, s.key = some l → l.expireAt + env.heartbeatMs ≤ deadline) {i : Fin n}
    {runAt : Int} (hrun : runAt ≤ s.now + env.schedulerScanMs) :
    Pending env other deadline ((s.withKey (s.key.campaign env s.now i false).1).put i
      (.up ⟨(s.key.campaign env s.now i false).2, s.now + env.heartbeatMs, runAt⟩)) := by
  have hnow := (ht.campaigns other x hother).1
  cases hget : s.key.get s.now with
  | none =>
    rw [LeaderKey.campaign_acquires hget]
    exact .elected (up_put.mpr (Or.inl ⟨rfl, rfl⟩)) rfl (by simp only; omega)
  | some j =>
    rw [LeaderKey.campaign_held hget]
    have hnone' (k : Fin n) (y : Instance)
        (hk : ((s.withKey s.key).put i (.up ⟨false, s.now + env.heartbeatMs, runAt⟩)).Up k y) :
        y.leader = false := by
      rcases up_put.mp hk with ⟨_, heq⟩ | ⟨_, hk⟩
      · cases heq
        rfl
      · exact hnone k y hk
    by_cases hio : other = i
    · subst hio
      obtain ⟨t, hkey, hle⟩ := LeaderKey.get_eq_some.mp hget
      have hexpire := hlease _ hkey
      refine .electing hnone' (up_put.mpr (Or.inl ⟨rfl, rfl⟩)) ?_ hlease
      simp only at hexpire ⊢
      omega
    · exact .electing hnone' (up_put.mpr (Or.inr ⟨hio, hother⟩)) hcampaign hlease

theorem pending_step (ht : Timely env s) (h : Pending env other deadline s)
    (hscan : ∀ i, ¬ Scans s i e) (hother : ¬ e.fails other)
    (hleader : ∀ i x, s.Up i x → x.leader = true → ¬ e.fails i) (hs : Step env s e s') :
    Pending env other deadline s' := by
  cases h with
  | elected hi hx hrun =>
    obtain ⟨x', hx', hlead', hrun'⟩ := leader_step ht hs hi hx (hscan _) (hleader _ _ hi hx)
    exact .elected hx' hlead' (by rw [hrun']; exact hrun)
  | @electing x hnone hup hcampaign hlease =>
    cases hs with
    | wait _ _ => exact .electing hnone hup hcampaign hlease
    | start hi => exact pending_campaign ht hnone hup hcampaign hlease (Int.le_refl _)
    | @campaign i y hi _ =>
      have hy := hnone i y hi
      have hpending := pending_campaign ht hnone hup hcampaign hlease (i := i)
        (ht.runs i y hi).2
      unfold campaigned
      rw [hy]
      exact hpending
    | @run i y hi _ =>
      have hnone' (k : Fin n) (z : Instance) (hk : (s.ran env i y).Up k z) : z.leader = false := by
        rcases up_put.mp hk with ⟨_, heq⟩ | ⟨_, hk⟩
        · cases heq
          exact hnone i y hi
        · exact hnone k z hk
      by_cases hio : other = i
      · subst hio
        cases up_unique hup hi
        exact .electing hnone' (up_put.mpr (Or.inl ⟨rfl, rfl⟩)) hcampaign hlease
      · exact .electing hnone' (up_put.mpr (Or.inr ⟨hio, hup⟩)) hcampaign hlease
    | @crash i y hi =>
      have hio : other ≠ i := fun heq => hother (Or.inl (by rw [heq]))
      refine .electing (fun k z hk => ?_) (up_put.mpr (Or.inr ⟨hio, hup⟩)) hcampaign hlease
      rcases up_put.mp hk with ⟨_, heq⟩ | ⟨_, hk⟩
      · cases heq
      · exact hnone k z hk
    | @stop i y hi =>
      have hio : other ≠ i := fun heq => hother (Or.inr (by rw [heq]))
      have hkey : (s.stopped i y).key = s.key := by
        simp [stopped, hnone i y hi]
      refine .electing (fun k z hk => hnone k z (up_stopped.mp hk).2)
        (up_stopped.mpr ⟨hio, hup⟩) hcampaign (by rw [hkey]; exact hlease)

theorem Failover.pending {old : Fin n} {a : Int} (h : Failover env old other a s) :
    Pending env other (a + env.schedulerScanMs + env.leaderLeaseMs + env.heartbeatMs) s := by
  induction h with
  | @failed s s' e hs he hne hup h =>
    obtain ⟨y, hother⟩ := hup
    obtain ⟨⟨x, hx⟩, _⟩ := fails_step h he
    obtain ⟨hleader, hrun⟩ : x.leader = true ∧ x.runAt = a + env.schedulerScanMs := by
      rcases hs.old with ⟨x', hx', hold⟩ | hdown
      · cases up_unique hx hx'
        exact hold
      · cases hdown.symm.trans hx
    have ht := hs.timely
    have hnow := (ht.runs old x hx).1
    have hcampaign := (ht.campaigns other y hother).2
    have hnone (i : Fin n) (z : Instance) (hne : i ≠ old) (hi : s.Up i z) : z.leader = false := by
      cases hz : z.leader with
      | false => rfl
      | true => exact absurd (ht.leader_unique hi hz hx hleader) hne
    have hlease (l : Lease n) (hl : s.key = some l) :
        l.expireAt + env.heartbeatMs ≤
          a + env.schedulerScanMs + env.leaderLeaseMs + env.heartbeatMs := by
      have hexpire := ht.lease l hl
      omega
    rcases he with rfl | rfl
    · cases h with
      | crash _ =>
        refine .electing (fun i z hi => ?_) (up_put.mpr (Or.inr ⟨hne, hother⟩)) (by omega) hlease
        rcases up_put.mp hi with ⟨_, heq⟩ | ⟨hio, hi⟩
        · cases heq
        · exact hnone i z hio hi
    · cases h with
      | @stop _ z hi =>
        refine .electing (fun i z hi => ?_) (up_stopped.mpr ⟨hne, hother⟩) (by omega) fun l hl => ?_
        · obtain ⟨hio, hi⟩ := up_stopped.mp hi
          exact hnone i z hio hi
        · cases up_unique hi hx
          simp [stopped, hleader, LeaderKey.releaseScript, ht.get_leader hx hleader] at hl
  | tail hs hscan hother hleader h ih => exact pending_step hs.timely ih hscan hother hleader h

/-- Nobody is left waiting for a scan longer than two scan periods, a lease and a heartbeat. -/
theorem Failover.gap_le {old : Fin n} {a : Int} (h : Failover env old other a s) :
    s.now - a ≤ 2 * env.schedulerScanMs + env.leaderLeaseMs + env.heartbeatMs := by
  cases h.pending with
  | electing _ hup hcampaign _ =>
    have hnow := (h.timely.campaigns _ _ hup).1
    omega
  | elected hi _ hrun =>
    have hnow := (h.timely.runs _ _ hi).1
    omega

end Cluster

end CronHive
