import CronHive.Failover
import Mathlib.Algebra.Order.Ring.Int
import Mathlib.Algebra.Order.Group.Abs
import Mathlib.Tactic.Linarith

/-!
# The gap is as long as it can be

A run in which the bound on a failover's gap is reached. While nobody is elected and nobody
fails, every scheduler's timers go on firing at their period: `Keeps` says what of a cluster
stays in such a stretch of time, and `pass` lets it go by.
-/

namespace CronHive

set_option autoImplicit false

open Cluster

variable {n : Nat}

namespace Cluster

variable {env : Env} {s s' s'' : Cluster n} {scans : Prop} {t : Int}

/-! ## Stretches of time -/

/-- A step in which nobody fails and, unless `scans`, nobody scans. -/
def Calmly (env : Env) (scans : Prop) (s s' : Cluster n) : Prop :=
  ∃ e, (scans ∨ ∀ i, ¬ Scans s i e) ∧ (∀ i, ¬ e.fails i) ∧ Step env s e s'

abbrev Flows (env : Env) (scans : Prop) : Cluster n → Cluster n → Prop :=
  Relation.ReflTransGen (Calmly env scans)

theorem Flows.reachable (h : Flows env scans s s') (hs : Reachable env s) : Reachable env s' := by
  induction h with
  | refl => exact hs
  | tail _ hstep ih =>
    obtain ⟨e, _, _, hstep⟩ := hstep
    exact .tail ih hstep

theorem Flows.timely (h : Flows env scans s s') (hs : Timely env s) : Timely env s' := by
  induction h with
  | refl => exact hs
  | tail _ hstep ih =>
    obtain ⟨e, _, _, hstep⟩ := hstep
    exact timely_step ih hstep

theorem Flows.sinceScan {old : Fin n} {a : Int} (h : Flows env False s s')
    (hs : SinceScan env old a s) : SinceScan env old a s' := by
  induction h with
  | refl => exact hs
  | tail _ hstep ih =>
    obtain ⟨e, hscan, _, hstep⟩ := hstep
    exact .tail ih (hscan.resolve_left id) hstep

theorem Flows.failover {old other : Fin n} {a : Int} (h : Flows env False s s')
    (hs : Failover env old other a s) : Failover env old other a s' := by
  induction h with
  | refl => exact hs
  | tail _ hstep ih =>
    obtain ⟨e, hscan, hfail, hstep⟩ := hstep
    exact .tail ih (hscan.resolve_left id) (hfail other) (fun i _ _ _ => hfail i) hstep

/-- The same scheduler later, at `now`: its timers have fired when they were due. -/
structure Ticked (env : Env) (now : Int) (x x' : Instance) : Prop where
  leader : x'.leader = x.leader
  campaigns : (env.heartbeatMs : Int) ∣ x'.campaignAt - x.campaignAt
  runs : (env.schedulerScanMs : Int) ∣ x'.runAt - x.runAt
  campaignAt : now < x.campaignAt → x'.campaignAt = x.campaignAt
  runAt : now < x.runAt → x'.runAt = x.runAt

theorem Ticked.refl (now : Int) (x : Instance) : Ticked env now x x where
  leader := rfl
  campaigns := by simp
  runs := by simp
  campaignAt _ := rfl
  runAt _ := rfl

theorem dvd_sub_trans {p x y z : Int} (h : p ∣ x - y) (h' : p ∣ y - z) : p ∣ x - z := by
  have hsum := Int.dvd_add h h'
  rwa [sub_add_sub_cancel] at hsum

theorem Ticked.trans {now now' : Int} {x x' x'' : Instance} (hle : now ≤ now')
    (h : Ticked env now x x') (h' : Ticked env now' x' x'') : Ticked env now' x x'' where
  leader := h'.leader.trans h.leader
  campaigns := dvd_sub_trans h'.campaigns h.campaigns
  runs := dvd_sub_trans h'.runs h.runs
  campaignAt hlt := by
    have heq := h.campaignAt (by omega)
    rw [← heq] at hlt ⊢
    exact h'.campaignAt hlt
  runAt hlt := by
    have heq := h.runAt (by omega)
    rw [← heq] at hlt ⊢
    exact h'.runAt hlt

/-- What is left of `s` in `s'`: the same schedulers are up, with the same leader, and without
a leader the key is the same. -/
structure Keeps (env : Env) (s s' : Cluster n) : Prop where
  now : s.now ≤ s'.now
  others : ∀ i, (∀ x, ¬ s.Up i x) → s'.schedulers i = s.schedulers i
  up : ∀ i x, s.Up i x → ∃ x', s'.Up i x' ∧ Ticked env s'.now x x'
  key : (∀ i x, s.Up i x → x.leader = false) → s'.key = s.key

theorem Keeps.refl (s : Cluster n) : Keeps env s s :=
  ⟨Int.le_refl _, fun _ _ => rfl, fun _ x hx => ⟨x, hx, .refl _ x⟩, fun _ => rfl⟩

theorem Keeps.up_of (h : Keeps env s s') {i : Fin n} {x' : Instance} (hx' : s'.Up i x') :
    ∃ x, s.Up i x ∧ Ticked env s'.now x x' := by
  by_cases hup : ∃ x, s.Up i x
  · obtain ⟨x, hx⟩ := hup
    obtain ⟨y, hy, hticked⟩ := h.up i x hx
    cases up_unique hx' hy
    exact ⟨x, hx, hticked⟩
  · have hsame := h.others i fun x hx => hup ⟨x, hx⟩
    exact absurd ⟨x', hsame.symm.trans hx'⟩ hup

theorem Keeps.leaderless (h : Keeps env s s') (hs : ∀ i x, s.Up i x → x.leader = false) :
    ∀ i x, s'.Up i x → x.leader = false := by
  intro i x' hx'
  obtain ⟨x, hx, hticked⟩ := h.up_of hx'
  exact hticked.leader.trans (hs i x hx)

theorem Keeps.trans (h : Keeps env s s') (h' : Keeps env s' s'') : Keeps env s s'' where
  now := Int.le_trans h.now h'.now
  others i hi := by
    have hsame := h.others i hi
    refine (h'.others i fun x hx => ?_).trans hsame
    exact hi x (hsame.symm.trans hx)
  up i x hx := by
    obtain ⟨x', hx', hticked⟩ := h.up i x hx
    obtain ⟨x'', hx'', hticked'⟩ := h'.up i x' hx'
    exact ⟨x'', hx'', hticked.trans h'.now hticked'⟩
  key hs := (h'.key (h.leaderless hs)).trans (h.key hs)

/-- Until `t` nobody is elected and, unless `scans`, nobody scans. -/
structure Settled (scans : Prop) (t : Int) (s : Cluster n) : Prop where
  scan : scans ∨ ∀ i x, s.Up i x → x.leader = true → t < x.runAt
  election : (∃ i x, s.Up i x ∧ x.leader = true) ∨ (∃ l, s.key = some l ∧ t ≤ l.expireAt) ∨
    ∀ i x, s.Up i x → t < x.campaignAt

theorem Settled.keeps (h : Settled scans t s) (hk : Keeps env s s') (ht : s'.now ≤ t) :
    Settled scans t s' := by
  constructor
  · refine h.scan.imp_right fun hruns i x' hx' hleader => ?_
    obtain ⟨x, hx, hticked⟩ := hk.up_of hx'
    have hrun := hruns i x hx (hticked.leader ▸ hleader)
    rw [hticked.runAt (by omega)]
    exact hrun
  · by_cases hleader : ∃ i x, s.Up i x ∧ x.leader = true
    · obtain ⟨i, x, hx, hx'⟩ := hleader
      obtain ⟨x', hup, hticked⟩ := hk.up i x hx
      exact Or.inl ⟨i, x', hup, hticked.leader.trans hx'⟩
    · refine Or.inr ((h.election.resolve_left hleader).imp ?_ ?_)
      · intro hlease
        rw [hk.key fun i x hx => by simpa using fun hx' => hleader ⟨i, x, hx, hx'⟩]
        exact hlease
      · intro hcampaigns i x' hx'
        obtain ⟨x, hx, hticked⟩ := hk.up_of hx'
        have hcampaign := hcampaigns i x hx
        rw [hticked.campaignAt (by omega)]
        exact hcampaign

/-- All timers are ahead. -/
def Ahead (s : Cluster n) : Prop :=
  ∀ i x, s.Up i x → s.now < x.campaignAt ∧ s.now < x.runAt

theorem keeps_put {i : Fin n} {x x' : Instance} {key : LeaderKey n} (hi : s.Up i x)
    (hticked : Ticked env s.now x x')
    (hkey : (∀ j y, s.Up j y → y.leader = false) → key = s.key) :
    Keeps env s ((s.withKey key).put i (.up x')) where
  now := Int.le_refl _
  others j hj := by
    have hne : j ≠ i := by
      intro heq
      subst heq
      exact hj x hi
    simp [put, withKey, hne]
  up j y hj := by
    by_cases hji : j = i
    · subst hji
      cases up_unique hi hj
      exact ⟨x', up_put.mpr (Or.inl ⟨rfl, rfl⟩), hticked⟩
    · exact ⟨y, up_put.mpr (Or.inr ⟨hji, hj⟩), .refl _ y⟩
  key := hkey

theorem campaigned_keeps (ht : Timely env s) (h : Settled scans t s) (hle : s.now ≤ t)
    {i : Fin n} {x : Instance} (hi : s.Up i x) (hdue : x.campaignAt = s.now) :
    Keeps env s (s.campaigned env i x) ∧
      (s.campaigned env i x).Up i { x with campaignAt := s.now + env.heartbeatMs } := by
  have hticked : Ticked env s.now x { x with campaignAt := s.now + env.heartbeatMs } :=
    ⟨rfl, by simp [hdue], by simp, fun hlt => absurd hlt (by omega), fun _ => rfl⟩
  unfold campaigned
  cases hleader : x.leader with
  | true =>
    have hget := ht.get_leader hi hleader
    rw [LeaderKey.campaign_renews env hget, ← hleader]
    refine ⟨keeps_put hi hticked fun hnone => ?_, up_put.mpr (Or.inl ⟨rfl, rfl⟩)⟩
    rw [hnone i x hi] at hleader
    cases hleader
  | false =>
    have hheld : ∃ j, s.key.get s.now = some j := by
      rcases h.election with ⟨j, y, hj, hy⟩ | ⟨l, hl, hexpire⟩ | hcampaigns
      · exact ⟨j, ht.get_leader hj hy⟩
      · exact ⟨l.token, LeaderKey.get_eq_some.mpr ⟨l.expireAt, hl, by omega⟩⟩
      · have hcampaign := hcampaigns i x hi
        omega
    obtain ⟨j, hget⟩ := hheld
    rw [LeaderKey.campaign_held hget, ← hleader]
    exact ⟨keeps_put hi hticked fun _ => rfl, up_put.mpr (Or.inl ⟨rfl, rfl⟩)⟩

variable (env) in
theorem ran_keeps {i : Fin n} {x : Instance} (hi : s.Up i x) (hdue : x.runAt = s.now) :
    Keeps env s (s.ran env i x) ∧
      (s.ran env i x).Up i { x with runAt := s.now + env.schedulerScanMs } := by
  have hticked : Ticked env s.now x { x with runAt := s.now + env.schedulerScanMs } :=
    ⟨rfl, by simp, by simp [hdue], fun _ => rfl, fun hlt => absurd hlt (by omega)⟩
  exact ⟨keeps_put hi hticked fun _ => rfl, up_put.mpr (Or.inl ⟨rfl, rfl⟩)⟩

theorem fire (ht : Timely env s) (h : Settled scans t s) (hle : s.now ≤ t) (i : Fin n) :
    ∃ s', Flows env scans s s' ∧ Keeps env s s' ∧ s'.now = s.now ∧
      ∀ x, s'.Up i x → s'.now < x.campaignAt ∧ s'.now < x.runAt := by
  by_cases hup : ∃ x, s.Up i x
  · obtain ⟨x, hi⟩ := hup
    have hbeat := env.heartbeat_pos
    have hperiod := env.schedulerScan_pos
    -- the heartbeat first
    obtain ⟨s₁, x₁, hflow₁, hkeep₁, hnow₁, hi₁, hcampaign₁⟩ : ∃ s₁ x₁, Flows env scans s s₁ ∧
        Keeps env s s₁ ∧ s₁.now = s.now ∧ s₁.Up i x₁ ∧ s₁.now < x₁.campaignAt := by
      by_cases hdue : x.campaignAt = s.now
      · obtain ⟨hkeep, hi'⟩ := campaigned_keeps ht h hle hi hdue
        refine ⟨_, _, .single ⟨.campaign i, Or.inr fun j hj => hj, ?_, .campaign hi hdue⟩, hkeep,
          rfl, hi', ?_⟩
        · rintro j (hj | hj) <;> cases hj
        · simp only [campaigned_now]
          omega
      · have hlt := (ht.campaigns i x hi).1
        exact ⟨s, x, .refl, .refl s, rfl, hi, by omega⟩
    have ht₁ := hflow₁.timely ht
    have h₁ := h.keeps hkeep₁ (by omega)
    by_cases hdue : x₁.runAt = s₁.now
    · obtain ⟨hkeep, hi'⟩ := ran_keeps env hi₁ hdue
      refine ⟨_, hflow₁.tail ⟨.run i, ?_, ?_, .run hi₁ hdue⟩, hkeep₁.trans hkeep, hnow₁,
        fun y hy => ?_⟩
      · refine h₁.scan.imp_right fun hruns j hj => ?_
        obtain ⟨rfl, y, hy, hleader⟩ := hj
        cases up_unique hi₁ hy
        have hrun := hruns i x₁ hi₁ hleader
        omega
      · rintro j (hj | hj) <;> cases hj
      · cases up_unique hy hi'
        simp only [ran_now]
        omega
    · refine ⟨s₁, hflow₁, hkeep₁, hnow₁, fun y hy => ?_⟩
      cases up_unique hi₁ hy
      have hlt := (ht₁.runs i x₁ hi₁).1
      omega
  · exact ⟨s, .refl, .refl s, rfl, fun x hx => absurd ⟨x, hx⟩ hup⟩

theorem settle (ht : Timely env s) (h : Settled scans t s) (hle : s.now ≤ t) :
    ∃ s', Flows env scans s s' ∧ Keeps env s s' ∧ s'.now = s.now ∧ Ahead s' := by
  have hall (is : List (Fin n)) : ∃ s', Flows env scans s s' ∧ Keeps env s s' ∧
      s'.now = s.now ∧ ∀ i ∈ is, ∀ x, s'.Up i x → s'.now < x.campaignAt ∧ s'.now < x.runAt := by
    induction is with
    | nil => exact ⟨s, .refl, .refl s, rfl, fun i hi => by cases hi⟩
    | cons i is ih =>
      obtain ⟨s₁, hflow₁, hkeep₁, hnow₁, hahead₁⟩ := ih
      obtain ⟨s₂, hflow₂, hkeep₂, hnow₂, hahead₂⟩ :=
        fire (hflow₁.timely ht) (h.keeps hkeep₁ (by omega)) (by omega) i
      refine ⟨s₂, hflow₁.trans hflow₂, hkeep₁.trans hkeep₂, hnow₂.trans hnow₁, fun j hj x hx => ?_⟩
      rcases List.mem_cons.mp hj with rfl | hj
      · exact hahead₂ x hx
      · obtain ⟨y, hy, hticked⟩ := hkeep₂.up_of hx
        obtain ⟨hcampaign, hrun⟩ := hahead₁ j hj y hy
        rw [hticked.campaignAt (by omega), hticked.runAt (by omega)]
        omega
  obtain ⟨s', hflow, hkeep, hnow, hahead⟩ := hall (List.finRange n)
  exact ⟨s', hflow, hkeep, hnow, fun i => hahead i (List.mem_finRange i)⟩

theorem wait_keeps (hle : s.now ≤ t) : Keeps env s { s with now := t } :=
  ⟨hle, fun _ _ => rfl, fun _ x hx => ⟨x, hx, .refl _ x⟩, fun _ => rfl⟩

variable (env scans) in
theorem wait_calmly (hahead : Ahead s) : Calmly env scans s { s with now := s.now + 1 } := by
  refine ⟨.wait (s.now + 1), Or.inr fun j hj => hj, ?_, .wait (by omega) fun i x hi => ?_⟩
  · rintro j (hj | hj) <;> cases hj
  · have hlt := hahead i x hi
    omega

variable (scans) in
theorem pass (ht : Timely env s) (hahead : Ahead s) (h : Settled scans t s) (hle : s.now ≤ t) :
    ∃ s', Flows env scans s s' ∧ Keeps env s s' ∧ s'.now = t ∧ Ahead s' := by
  obtain ⟨d, hd⟩ := Int.eq_ofNat_of_zero_le (show 0 ≤ t - s.now by omega)
  induction d generalizing s with
  | zero => exact ⟨s, .refl, .refl s, by omega, hahead⟩
  | succ d ih =>
    have hwait := wait_calmly env scans hahead
    have hkeep : Keeps env s { s with now := s.now + 1 } := wait_keeps (by omega)
    have ht₁ := Flows.timely (.single hwait) ht
    obtain ⟨s₂, hflow₂, hkeep₂, hnow₂, hahead₂⟩ :=
      settle ht₁ (h.keeps hkeep (by simp only; omega)) (by simp only; omega)
    have hkeep' := hkeep.trans hkeep₂
    obtain ⟨s₃, hflow₃, hkeep₃, hnow₃, hahead₃⟩ := ih (hflow₂.timely ht₁) hahead₂
      (h.keeps hkeep' (by simp only at hnow₂; omega)) (by simp only at hnow₂; omega)
      (by simp only at hnow₂; omega)
    exact ⟨s₃, ((Relation.ReflTransGen.single hwait).trans hflow₂).trans hflow₃,
      hkeep'.trans hkeep₃, hnow₃, hahead₃⟩

theorem elapse (ht : Timely env s) (h : Settled scans t s) (hle : s.now ≤ t) :
    ∃ s', Flows env scans s s' ∧ Keeps env s s' ∧ s'.now = t ∧ Ahead s' := by
  obtain ⟨s₁, hflow₁, hkeep₁, hnow₁, hahead₁⟩ := settle ht h hle
  obtain ⟨s₂, hflow₂, hkeep₂, hnow₂, hahead₂⟩ :=
    pass scans (hflow₁.timely ht) hahead₁ (h.keeps hkeep₁ (by omega)) (by omega)
  exact ⟨s₂, hflow₁.trans hflow₂, hkeep₁.trans hkeep₂, hnow₂, hahead₂⟩

end Cluster

/-! ## The run -/

theorem eq_of_aligned {p x y t : Int} (h : p ∣ x - y) (hx : t < x ∧ x ≤ t + p)
    (hy : t < y ∧ y ≤ t + p) : x = y := by
  have hzero : x - y = 0 := by
    refine Int.eq_zero_of_abs_lt_dvd h ?_
    rw [abs_lt]
    omega
  omega

namespace Cluster

variable (env : Env) {m : Int}

/-- Both timers of scheduler 0 fire at `m`, and scheduler 1's at `m` and a lease, and there a
heartbeat later again. -/
structure Grid (m : Int) : Prop where
  campaigns : (env.heartbeatMs : Int) ∣ m
  runs : (env.schedulerScanMs : Int) ∣ m
  late : env.leaderLeaseMs + env.heartbeatMs < m - env.schedulerScanMs

theorem exists_grid : ∃ m, Grid env m := by
  have hscan := env.schedulerScan_pos
  have hbeat := env.heartbeat_pos
  refine ⟨env.heartbeatMs * env.schedulerScanMs *
    (env.leaderLeaseMs + env.heartbeatMs + 2 : Nat), ?_, ?_, ?_⟩
  · exact Dvd.intro _ (by rw [Int.mul_assoc])
  · exact Dvd.intro_left _ (by rw [Int.mul_right_comm])
  · have hmul : env.leaderLeaseMs + env.heartbeatMs + 1 + env.schedulerScanMs ≤
        env.heartbeatMs * env.schedulerScanMs * (env.leaderLeaseMs + env.heartbeatMs + 2) := by
      nlinarith [Nat.mul_le_mul hbeat (Nat.le_refl env.schedulerScanMs)]
    have hcast : ((env.leaderLeaseMs + env.heartbeatMs + 1 + env.schedulerScanMs : Nat) : Int) ≤
        (env.heartbeatMs * env.schedulerScanMs *
          (env.leaderLeaseMs + env.heartbeatMs + 2) : Nat) := Int.ofNat_le.mpr hmul
    push_cast at hcast ⊢
    omega

variable {env}

/-- Scheduler 0 leads and scans at `m`, scheduler 1 started a lease and a heartbeat after it:
the state just before the last scan but one at `m`. -/
structure Steady (env : Env) (m : Int) (s : Cluster 2) (x y : Instance) : Prop where
  old : s.Up 0 x
  leader : x.leader = true
  other : s.Up 1 y
  follower : y.leader = false
  oldCampaigns : (env.heartbeatMs : Int) ∣ x.campaignAt - m
  oldRuns : (env.schedulerScanMs : Int) ∣ x.runAt - m
  otherCampaigns : (env.heartbeatMs : Int) ∣ y.campaignAt - (m + env.leaderLeaseMs)
  otherRuns : (env.schedulerScanMs : Int) ∣ y.runAt - (m + env.leaderLeaseMs + env.heartbeatMs)

theorem Steady.keeps {s s' : Cluster 2} {x y : Instance} (h : Steady env m s x y)
    (hk : Keeps env s s') : ∃ x' y', Steady env m s' x' y' ∧ Ticked env s'.now x x' ∧
      Ticked env s'.now y y' := by
  obtain ⟨x', hx', hx⟩ := hk.up 0 x h.old
  obtain ⟨y', hy', hy⟩ := hk.up 1 y h.other
  exact ⟨x', y', ⟨hx', hx.leader.trans h.leader, hy', hy.leader.trans h.follower,
    dvd_sub_trans hx.campaigns h.oldCampaigns, dvd_sub_trans hx.runs h.oldRuns,
    dvd_sub_trans hy.campaigns h.otherCampaigns, dvd_sub_trans hy.runs h.otherRuns⟩, hx, hy⟩

theorem reach_start (env : Env) : ∃ s : Cluster 2, Reachable env s ∧ Ahead s ∧ s.now = 0 ∧
    s.Up 0 ⟨true, env.heartbeatMs, env.schedulerScanMs⟩ ∧ s.schedulers 1 = .unborn := by
  have hbeat := env.heartbeat_pos
  have hscan := env.schedulerScan_pos
  have hstart : Step env (initial 0 : Cluster 2) (.start 0) ((initial 0).started env 0) :=
    .start rfl
  have hacquire : ((initial 0 : Cluster 2).started env 0).Up 0
      ⟨true, env.heartbeatMs, env.schedulerScanMs⟩ := by
    unfold started
    rw [LeaderKey.campaign_acquires rfl]
    refine up_put.mpr (Or.inl ⟨rfl, ?_⟩)
    simp [initial]
  have hborn : ((initial 0 : Cluster 2).started env 0).schedulers 1 = .unborn := rfl
  refine ⟨_, .tail (.initial 0) hstart, ?_, rfl, hacquire, hborn⟩
  intro i x hx
  match i with
  | 0 =>
    cases up_unique hx hacquire
    simp only [started_now, initial]
    omega
  | 1 => cases hborn.symm.trans hx

theorem reach_pair (hm : Grid env m) : ∃ (s : Cluster 2) (x y : Instance), Reachable env s ∧
    Ahead s ∧ s.now = env.leaderLeaseMs + env.heartbeatMs ∧ Steady env m s x y := by
  have hbeat := env.heartbeat_pos
  have hscan := env.schedulerScan_pos
  obtain ⟨s₁, hreach₁, hahead₁, hnow₁, hacquire, hborn₁⟩ := reach_start env
  -- the follower starts
  obtain ⟨s₂, hflow₂, hkeep₂, hnow₂, hahead₂⟩ := pass True
    (timely_reachable hreach₁) hahead₁ ⟨Or.inl trivial, Or.inl ⟨0, _, hacquire, rfl⟩⟩
    (t := env.leaderLeaseMs + env.heartbeatMs) (by omega)
  have hreach₂ := hflow₂.reachable hreach₁
  obtain ⟨x, hx, hticked⟩ := hkeep₂.up 0 _ hacquire
  have hborn₂ : s₂.schedulers 1 = .unborn := by
    refine (hkeep₂.others 1 fun y hy => ?_).trans hborn₁
    cases hborn₁.symm.trans hy
  have hstart₁ : Step env s₂ (.start 1) (s₂.started env 1) := .start hborn₂
  have hreach₃ : Reachable env (s₂.started env 1) := .tail hreach₂ hstart₁
  have hget := (timely_reachable hreach₂).get_leader hx hticked.leader
  have hfollow : (s₂.started env 1).Up 1 ⟨false, s₂.now + env.heartbeatMs,
      s₂.now + env.schedulerScanMs⟩ := by
    unfold started
    rw [LeaderKey.campaign_held hget]
    exact up_put.mpr (Or.inl ⟨rfl, rfl⟩)
  have hlead : (s₂.started env 1).Up 0 x := up_put.mpr (Or.inr ⟨by decide, hx⟩)
  have hahead₃ : Ahead (s₂.started env 1) := by
    intro i y hy
    match i with
    | 0 =>
      cases up_unique hy hlead
      exact hahead₂ 0 x hx
    | 1 =>
      cases up_unique hy hfollow
      simp only [started_now]
      omega
  have hsteady₃ : Steady env m (s₂.started env 1) x
      ⟨false, s₂.now + env.heartbeatMs, s₂.now + env.schedulerScanMs⟩ := by
    refine ⟨hlead, hticked.leader, hfollow, rfl, ?_, ?_, ?_, ?_⟩
    · refine dvd_sub_trans hticked.campaigns ?_
      exact Int.dvd_sub (Int.dvd_refl _) hm.campaigns
    · refine dvd_sub_trans hticked.runs ?_
      exact Int.dvd_sub (Int.dvd_refl _) hm.runs
    · have heq : s₂.now + env.heartbeatMs - (m + env.leaderLeaseMs) =
          env.heartbeatMs + env.heartbeatMs - m := by omega
      simp only [heq]
      exact Int.dvd_sub (Int.dvd_add (Int.dvd_refl _) (Int.dvd_refl _)) hm.campaigns
    · have heq : s₂.now + env.schedulerScanMs - (m + env.leaderLeaseMs + env.heartbeatMs) =
          env.schedulerScanMs - m := by omega
      simp only [heq]
      exact Int.dvd_sub (Int.dvd_refl _) hm.runs
  exact ⟨_, _, _, hreach₃, hahead₃, hnow₂, hsteady₃⟩

theorem reach_steady (hm : Grid env m) : ∃ (s : Cluster 2) (x y : Instance), Reachable env s ∧
    Ahead s ∧ s.now = m - env.schedulerScanMs - 1 ∧ Steady env m s x y := by
  have hlate := hm.late
  obtain ⟨s₁, x, y, hreach₁, hahead₁, hnow₁, hsteady₁⟩ := reach_pair hm
  obtain ⟨s₂, hflow₂, hkeep₂, hnow₂, hahead₂⟩ := pass True (timely_reachable hreach₁) hahead₁
    ⟨Or.inl trivial, Or.inl ⟨0, x, hsteady₁.old, hsteady₁.leader⟩⟩
    (t := m - env.schedulerScanMs - 1) (by omega)
  obtain ⟨x', y', hsteady₂, _, _⟩ := hsteady₁.keeps hkeep₂
  exact ⟨s₂, x', y', hflow₂.reachable hreach₁, hahead₂, hnow₂, hsteady₂⟩

theorem reach_scan (hm : Grid env m) : ∃ (s : Cluster 2) (x y : Instance),
    SinceScan env 0 (m - env.schedulerScanMs) s ∧ s.now = m - env.schedulerScanMs ∧
      Steady env m s x y ∧ x.runAt = m := by
  have hscan := env.schedulerScan_pos
  obtain ⟨s₁, x₁, y₁, hreach₁, hahead₁, hnow₁, hsteady₁⟩ := reach_steady hm
  have ht₁ := timely_reachable hreach₁
  have hrun₁ : x₁.runAt = m - env.schedulerScanMs := by
    have hbounds := (ht₁.runs 0 x₁ hsteady₁.old).2
    have hlt := (hahead₁ 0 x₁ hsteady₁.old).2
    refine eq_of_aligned (t := s₁.now) ?_ ⟨hlt, hbounds⟩ (by omega)
    exact dvd_sub_trans hsteady₁.oldRuns ⟨1, by omega⟩
  have hwait := wait_calmly env True hahead₁
  have hreach₂ : Reachable env { s₁ with now := s₁.now + 1 } :=
    Flows.reachable (.single hwait) hreach₁
  have hkeep₂ : Keeps env s₁ { s₁ with now := s₁.now + 1 } := wait_keeps (by omega)
  have hold₂ : ({ s₁ with now := s₁.now + 1 } : Cluster 2).Up 0 x₁ := hsteady₁.old
  generalize hs₂ : ({ s₁ with now := s₁.now + 1 } : Cluster 2) = s₂ at hreach₂ hkeep₂ hold₂
  have hnow₂ : s₂.now = m - env.schedulerScanMs := by
    rw [← hs₂]
    simp only
    omega
  have hdue₂ : x₁.runAt = s₂.now := by omega
  have hstep₃ : Step env s₂ (.run 0) (s₂.ran env 0 x₁) := .run hold₂ hdue₂
  have hscan₂ : Scans s₂ 0 (.run 0) := ⟨rfl, x₁, hold₂, hsteady₁.leader⟩
  obtain ⟨hkeep₃, hold₃⟩ := ran_keeps env hold₂ hdue₂
  obtain ⟨x₃, y₃, hsteady₃, _, _⟩ := hsteady₁.keeps (hkeep₂.trans hkeep₃)
  refine ⟨_, x₃, y₃, .scanned hreach₂ hnow₂ hscan₂ hstep₃, hnow₂, hsteady₃, ?_⟩
  cases up_unique hsteady₃.old hold₃
  simp only
  omega

theorem reach_renewal (hm : Grid env m) : ∃ (s : Cluster 2) (x y : Instance),
    SinceScan env 0 (m - env.schedulerScanMs) s ∧ s.now = m ∧
      s.key = some ⟨0, m + env.leaderLeaseMs⟩ ∧ Steady env m s x y := by
  have hscan := env.schedulerScan_pos
  obtain ⟨s₃, x₃, y₃, hsince₃, hnow₃, hsteady₃, hrun₃⟩ := reach_scan hm
  have hsettled₃ : Settled False (m - 1) s₃ := by
    refine ⟨Or.inr fun i z hz hleader => ?_, Or.inl ⟨0, x₃, hsteady₃.old, hsteady₃.leader⟩⟩
    match i with
    | 0 =>
      cases up_unique hz hsteady₃.old
      omega
    | 1 =>
      cases up_unique hz hsteady₃.other
      rw [hsteady₃.follower] at hleader
      cases hleader
  obtain ⟨s₄, hflow₄, hkeep₄, hnow₄, hahead₄⟩ :=
    elapse hsince₃.timely hsettled₃ (by omega)
  obtain ⟨x₄, y₄, hsteady₄, _, _⟩ := hsteady₃.keeps hkeep₄
  have hsince₄ := hflow₄.sinceScan hsince₃
  have hcampaign₄ : x₄.campaignAt = m := by
    have hbounds := (hsince₄.timely.campaigns 0 x₄ hsteady₄.old).2
    have hlt := (hahead₄ 0 x₄ hsteady₄.old).1
    have hbeat := env.heartbeat_pos
    exact eq_of_aligned (t := s₄.now) hsteady₄.oldCampaigns ⟨hlt, hbounds⟩ (by omega)
  have hwait₄ := wait_calmly env False hahead₄
  have hsince₅ : SinceScan env 0 (m - env.schedulerScanMs) { s₄ with now := s₄.now + 1 } :=
    Flows.sinceScan (.single hwait₄) hsince₄
  have hsteady₅ : Steady env m { s₄ with now := s₄.now + 1 } x₄ y₄ := { hsteady₄ with }
  generalize hs₅ : ({ s₄ with now := s₄.now + 1 } : Cluster 2) = s₅ at hsince₅ hsteady₅
  have hnow₅ : s₅.now = m := by
    rw [← hs₅]
    simp only
    omega
  have hdue₅ : x₄.campaignAt = s₅.now := by omega
  have hsettled₅ : Settled True m s₅ :=
    ⟨Or.inl trivial, Or.inl ⟨0, x₄, hsteady₅.old, hsteady₅.leader⟩⟩
  have hstep₆ : Step env s₅ (.campaign 0) (s₅.campaigned env 0 x₄) :=
    .campaign hsteady₅.old hdue₅
  obtain ⟨hkeep₆, _⟩ :=
    campaigned_keeps hsince₅.timely hsettled₅ (by omega) hsteady₅.old hdue₅
  obtain ⟨x₆, y₆, hsteady₆, _, _⟩ := hsteady₅.keeps hkeep₆
  have hcalm : ∀ i, ¬ Scans s₅ i (.campaign 0) := fun _ hj => hj
  refine ⟨_, x₆, y₆, .tail hsince₅ hcalm hstep₆, hnow₅, ?_, hsteady₆⟩
  have hget := hsince₅.timely.get_leader hsteady₅.old hsteady₅.leader
  simp only [campaigned, put_key, withKey_key, hsteady₅.leader]
  rw [LeaderKey.campaign_renews env hget, hnow₅]

/-- The leader is down, and the follower keeps to the timers it started with. -/
structure Orphaned (env : Env) (m : Int) (s : Cluster 2) (y : Instance) : Prop where
  down : s.schedulers 0 = .down
  other : s.Up 1 y
  follower : y.leader = false
  campaigns : (env.heartbeatMs : Int) ∣ y.campaignAt - (m + env.leaderLeaseMs)
  runs : (env.schedulerScanMs : Int) ∣ y.runAt - (m + env.leaderLeaseMs + env.heartbeatMs)

theorem Orphaned.only {s : Cluster 2} {y z : Instance} {i : Fin 2} (h : Orphaned env m s y)
    (hz : s.Up i z) : z = y := by
  obtain rfl | rfl : i = 0 ∨ i = 1 := by omega
  · cases h.down.symm.trans hz
  · exact up_unique hz h.other

theorem Orphaned.leaderless {s : Cluster 2} {y : Instance} (h : Orphaned env m s y) (i : Fin 2)
    (z : Instance) (hz : s.Up i z) : z.leader = false := by
  rw [h.only hz]
  exact h.follower

theorem Orphaned.idle {s : Cluster 2} {y : Instance} (h : Orphaned env m s y) (t : Int) (i : Fin 2)
    (z : Instance) (hz : s.Up i z) (hleader : z.leader = true) : t < z.runAt := by
  rw [h.leaderless i z hz] at hleader
  cases hleader

theorem Orphaned.keeps {s s' : Cluster 2} {y : Instance} (h : Orphaned env m s y)
    (hk : Keeps env s s') : ∃ y', Orphaned env m s' y' ∧ Ticked env s'.now y y' := by
  obtain ⟨y', hy', hy⟩ := hk.up 1 y h.other
  refine ⟨y', ⟨?_, hy', hy.leader.trans h.follower, dvd_sub_trans hy.campaigns h.campaigns,
    dvd_sub_trans hy.runs h.runs⟩, hy⟩
  refine (hk.others 0 fun z hz => ?_).trans h.down
  cases h.down.symm.trans hz

/-- The leader crashes right after its last renewal. -/
theorem reach_crash (hm : Grid env m) : ∃ (s : Cluster 2) (y : Instance),
    Failover env 0 1 (m - env.schedulerScanMs) s ∧ s.now = m ∧
      s.key = some ⟨0, m + env.leaderLeaseMs⟩ ∧ Orphaned env m s y := by
  obtain ⟨s₁, x₁, y₁, hsince₁, hnow₁, hkey₁, hsteady₁⟩ := reach_renewal hm
  have hstep₂ : Step env s₁ (.crash 0) (s₁.put 0 .down) := .crash hsteady₁.old
  refine ⟨s₁.put 0 .down, y₁, ?_, hnow₁, hkey₁, ?_⟩
  · exact .failed hsince₁ (Or.inl rfl) (by decide) ⟨y₁, hsteady₁.other⟩ hstep₂
  · refine ⟨by simp [put], up_put.mpr (Or.inr ⟨by decide, hsteady₁.other⟩), hsteady₁.follower,
      hsteady₁.otherCampaigns, hsteady₁.otherRuns⟩

/-- Nobody leads then until a heartbeat after the lease has run out. -/
theorem reach_election (hm : Grid env m) : ∃ (s : Cluster 2) (y : Instance),
    Failover env 0 1 (m - env.schedulerScanMs) s ∧
      s.now = m + env.leaderLeaseMs + env.heartbeatMs ∧
      s.key = some ⟨0, m + env.leaderLeaseMs⟩ ∧ s.schedulers 0 = .down ∧ s.Up 1 y ∧
      y.leader = false ∧ y.campaignAt = s.now ∧ y.runAt = s.now := by
  have hbeat := env.heartbeat_pos
  have hscan := env.schedulerScan_pos
  obtain ⟨s₂, y₂, hfailover₂, hnow₂, hkey₂, horphaned₂⟩ := reach_crash hm
  -- the lease lasts
  have hsettled₂ : Settled False (m + env.leaderLeaseMs) s₂ :=
    ⟨Or.inr (horphaned₂.idle _), Or.inr (Or.inl ⟨_, hkey₂, Int.le_refl _⟩)⟩
  obtain ⟨s₃, hflow₃, hkeep₃, hnow₃, hahead₃⟩ :=
    elapse hfailover₂.timely hsettled₂ (by omega)
  have hfailover₃ := hflow₃.failover hfailover₂
  obtain ⟨y₃, horphaned₃, _⟩ := horphaned₂.keeps hkeep₃
  have hcampaign₃ : y₃.campaignAt = m + env.leaderLeaseMs + env.heartbeatMs := by
    have hbounds := (hfailover₃.timely.campaigns 1 y₃ horphaned₃.other).2
    have hlt := (hahead₃ 1 y₃ horphaned₃.other).1
    refine eq_of_aligned (t := s₃.now) ?_ ⟨hlt, hbounds⟩ (by omega)
    refine dvd_sub_trans horphaned₃.campaigns ⟨-1, ?_⟩
    omega
  -- then nobody campaigns for a heartbeat
  have hsettled₃ : Settled False (m + env.leaderLeaseMs + env.heartbeatMs - 1) s₃ := by
    refine ⟨Or.inr (horphaned₃.idle _), Or.inr (Or.inr fun i z hz => ?_)⟩
    rw [horphaned₃.only hz]
    omega
  obtain ⟨s₄, hflow₄, hkeep₄, hnow₄, hahead₄⟩ :=
    elapse hfailover₃.timely hsettled₃ (by omega)
  have hfailover₄ := hflow₄.failover hfailover₃
  obtain ⟨y₄, horphaned₄, hticked₄⟩ := horphaned₃.keeps hkeep₄
  have hcampaign₄ := hticked₄.campaignAt (by omega)
  have hrun₄ : y₄.runAt = m + env.leaderLeaseMs + env.heartbeatMs := by
    have hbounds := (hfailover₄.timely.runs 1 y₄ horphaned₄.other).2
    have hlt := (hahead₄ 1 y₄ horphaned₄.other).2
    exact eq_of_aligned (t := s₄.now) horphaned₄.runs ⟨hlt, hbounds⟩ (by omega)
  -- until both timers of the follower are due
  have hwait₄ := wait_calmly env False hahead₄
  have hkey₄ := ((hkeep₃.trans hkeep₄).key horphaned₂.leaderless).trans hkey₂
  refine ⟨{ s₄ with now := s₄.now + 1 }, y₄, Flows.failover (.single hwait₄) hfailover₄, ?_,
    hkey₄, horphaned₄.down, horphaned₄.other, horphaned₄.follower, ?_, ?_⟩
  · simp only
    omega
  · simp only
    omega
  · simp only
    omega

/-- The follower looks at its flag, is elected, and looks again a scan period later. -/
theorem reach_longest (hm : Grid env m) : ∃ s : Cluster 2,
    Failover env 0 1 (m - env.schedulerScanMs) s ∧
      s.now = m + env.leaderLeaseMs + env.heartbeatMs + env.schedulerScanMs := by
  have hbeat := env.heartbeat_pos
  have hscan := env.schedulerScan_pos
  obtain ⟨s₁, y₁, hfailover₁, hnow₁, hkey₁, hdown₁, hother₁, hfollower₁, hcampaign₁, hrun₁⟩ :=
    reach_election hm
  have hstep₂ : Step env s₁ (.run 1) (s₁.ran env 1 y₁) := .run hother₁ hrun₁
  have hidle₁ : ∀ i, ¬ Scans s₁ i (.run 1) := by
    intro i hscans
    obtain ⟨rfl, x, hx, hleader⟩ := hscans
    cases up_unique hx hother₁
    rw [hfollower₁] at hleader
    cases hleader
  have hflow₂ : Calmly env False s₁ (s₁.ran env 1 y₁) := by
    refine ⟨_, Or.inr hidle₁, ?_, hstep₂⟩
    rintro j (hj | hj) <;> cases hj
  have hfailover₂ := Flows.failover (.single hflow₂) hfailover₁
  obtain ⟨y₂, hother₂, hfollower₂, hcampaign₂, hrun₂⟩ : ∃ y₂, (s₁.ran env 1 y₁).Up 1 y₂ ∧
      y₂.leader = false ∧ y₂.campaignAt = s₁.now ∧
      y₂.runAt = s₁.now + env.schedulerScanMs :=
    ⟨_, (ran_keeps env hother₁ hrun₁).2, hfollower₁, hcampaign₁, rfl⟩
  have hdown₂ : (s₁.ran env 1 y₁).schedulers 0 = .down := by simpa [ran, put] using hdown₁
  have hkey₂ : (s₁.ran env 1 y₁).key = some ⟨0, m + env.leaderLeaseMs⟩ := hkey₁
  have hnow₂ : (s₁.ran env 1 y₁).now = s₁.now := rfl
  generalize s₁.ran env 1 y₁ = s₂ at hfailover₂ hother₂ hdown₂ hkey₂ hnow₂
  -- the lease has run out
  have hget : s₂.key.get s₂.now = none := by
    rw [hkey₂]
    exact if_neg (by simp only; omega)
  have hstep₃ : Step env s₂ (.campaign 1) (s₂.campaigned env 1 y₂) :=
    .campaign hother₂ (by omega)
  have hflow₃ : Calmly env False s₂ (s₂.campaigned env 1 y₂) := by
    refine ⟨.campaign 1, Or.inr fun _ hj => hj, ?_, hstep₃⟩
    rintro j (hj | hj) <;> cases hj
  have hfailover₃ := Flows.failover (.single hflow₃) hfailover₂
  have hother₃ : (s₂.campaigned env 1 y₂).Up 1 ⟨true, s₂.now + env.heartbeatMs, y₂.runAt⟩ := by
    simp only [campaigned, hfollower₂]
    rw [LeaderKey.campaign_acquires hget]
    exact up_put.mpr (Or.inl ⟨rfl, rfl⟩)
  have hdown₃ : (s₂.campaigned env 1 y₂).schedulers 0 = .down := by
    simpa [campaigned, put, withKey] using hdown₂
  have hnow₃ : (s₂.campaigned env 1 y₂).now = s₂.now := rfl
  generalize s₂.campaigned env 1 y₂ = s₃ at hfailover₃ hother₃ hdown₃ hnow₃
  -- and the new leader waits for its scan
  have hsettled₃ : Settled False (s₁.now + env.schedulerScanMs - 1) s₃ := by
    refine ⟨Or.inr fun i z hz _ => ?_, Or.inl ⟨1, _, hother₃, rfl⟩⟩
    obtain rfl | rfl : i = 0 ∨ i = 1 := by omega
    · cases hdown₃.symm.trans hz
    · cases up_unique hz hother₃
      simp only
      omega
  obtain ⟨s₄, hflow₄, _, hnow₄, hahead₄⟩ := elapse hfailover₃.timely hsettled₃ (by omega)
  have hwait₄ := wait_calmly env False hahead₄
  refine ⟨_, Flows.failover (.single hwait₄) (hflow₄.failover hfailover₃), ?_⟩
  simp only
  omega

/-- The bound on the gap is reached. -/
theorem exists_longest_gap (env : Env) : ∃ (a : Int) (s : Cluster 2), Failover env 0 1 a s ∧
    s.now - a = 2 * env.schedulerScanMs + env.leaderLeaseMs + env.heartbeatMs := by
  obtain ⟨m, hm⟩ := exists_grid env
  obtain ⟨s, hs, hnow⟩ := reach_longest hm
  exact ⟨_, s, hs, by omega⟩

end Cluster

/-- A failover leaves no scan gap exactly if the scan period, the lease and a heartbeat fit in
the window's margin together. -/
theorem noScanGap_iff (env : Env) : NoScanGap env ↔
    env.schedulerScanMs + env.leaderLeaseMs + env.heartbeatMs ≤ 5000 := by
  constructor
  · intro h
    obtain ⟨a, s, hs, hgap⟩ := exists_longest_gap env
    have hwindow := (h 2 0 1 a s hs).1
    unfold Env.windowMs at hwindow
    omega
  · intro h n old other a s hs
    have hgap := hs.gap_le
    have hwindow : s.now - a ≤ env.windowMs := by
      unfold Env.windowMs
      omega
    exact ⟨hwindow, fun firing ha hle => ⟨by omega, by omega⟩⟩

/-- With the default settings a failover can take more than two minutes. -/
theorem default_failover_leaves_gap : (∃ (a : Int) (s : Cluster 2), Failover {} 0 1 a s ∧
    s.now - a = 133333) ∧ ({} : Env).windowMs = 65000 ∧ ¬ NoScanGap {} := by
  obtain ⟨a, s, hs, hgap⟩ := exists_longest_gap {}
  have hgap' : s.now - a = 133333 := hgap
  have hwindow : ({} : Env).windowMs = 65000 := rfl
  refine ⟨⟨a, s, hs, hgap'⟩, hwindow, fun h => ?_⟩
  have hle := (h 2 0 1 a s hs).1
  omega

end CronHive
