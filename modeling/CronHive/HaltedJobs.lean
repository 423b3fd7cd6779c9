import CronHive.Footprints

/-!
# What a pause stops

A tick reads the jobs once and works through what it has read. A request that pauses or disables a
job stops every tick that scans after it. A tick that has scanned before goes on, and may fire the
job once more.
-/

namespace CronHive

set_option autoImplicit false

open Async Async.Prog Async.Machine

/-- What keeps a job out of the scan. -/
inductive Halt where
  | paused
  | disabled
  deriving DecidableEq, Repr

namespace Halt

def Holds : Halt → Job → Prop
  | .paused, job => job.paused = true
  | .disabled, job => job.enabled = false

/-- The statement writes the column of job `j`: `setPaused`, `updateJob` or `bulkSetEnabled`. -/
def Sets (h : Halt) (j : JobId) (halted : Bool) : Call → Prop
  | .jobUpdate id data => id = j ∧ match h with
    | .paused => data.paused = some halted
    | .disabled => data.enabled = some !halted
  | .jobUpdateMany ids enabled => j ∈ ids ∧ h = .disabled ∧ enabled = !halted
  | _ => False

/-- The step executes such a statement, whether or not its caller hears of it. -/
def Commits (h : Halt) (j : JobId) (halted : Bool) (s : SystemState) : SystemEvent → Prop
  | .resume i (.answered _) => ∃ c ∈ s.awaiting i, h.Sets j halted c
  | .resume i (.lost _ _) => ∃ c ∈ s.awaiting i, h.Sets j halted c
  | _ => False

instance (h : Halt) (j : JobId) (halted : Bool) (c : Call) : Decidable (h.Sets j halted c) := by
  induction c using Call.casesOn <;> unfold Sets <;>
    first | infer_instance | (induction h using Halt.casesOn <;> infer_instance)

instance (h : Halt) (j : JobId) (halted : Bool) (s : SystemState) (e : SystemEvent) :
    Decidable (h.Commits j halted s e) := by
  induction e using Event.casesOn with
  | resume i o => induction o using Outcome.casesOn <;> unfold Commits <;> infer_instance
  | _ => exact instDecidableFalse

end Halt

/-- A request has halted the job in the step after `s₀`, and no later one has undone that. -/
inductive HaltedSince (S : Setup) (w₀ : World) (h : Halt) (j : JobId) (s₀ s : SystemState) :
    Prop where
  | intro {e : SystemEvent} {s₁ : SystemState} (hr : Reachable S w₀ s₀)
      (hs : (system S).Step s₀ e s₁) (hcommit : h.Commits j true s₀ e)
      (hrow : (s₁.world.db.job? j).isSome)
      (hrun : (system S).Run (fun s e => ¬ h.Commits j false s e) s₁ s)

/-- The step from `s` to `s'` creates a scheduled execution of the job. -/
def Fires (s s' : SystemState) (j : JobId) : Prop :=
  ∃ x ∈ s'.world.db.executions, x.id ∉ s.world.db.executions.map (·.id) ∧ x.jobId = j ∧
    x.scheduledFor.isSome

instance (s s' : SystemState) (j : JobId) : Decidable (Fires s s' j) :=
  inferInstanceAs (Decidable (∃ x ∈ s'.world.db.executions, _))

/-- Thread `i` has scanned the jobs and read this one, enabled and not paused. -/
def Scanned (tr : List TraceEntry) (i : Nat) (j : JobId) : Prop :=
  ∃ rows, Entry.called i .jobFindMany (some (.ok rows)) (.ok rows) ∈ tr ∧
    ∃ row ∈ rows, row.id = j ∧ row.enabled = true ∧ row.paused = false

/-- Thread `i` has inserted no scheduled execution of the job, nor tried to. -/
def Untried (tr : List TraceEntry) (i : Nat) (j : JobId) : Prop :=
  ∀ data reply seen, Entry.called i (.executionCreate data) reply seen ∈ tr →
    data.scheduledFor.isSome → data.jobId ≠ j

/-! ## The tick and its scan -/

/-- Follows the jobs that a tick has read and not yet fired. -/
def unfired : Monitor Call.Reply Failure (Option (List JobId)) where
  permits st
    | .jobFindMany => st = none
    | .executionCreate data => data.scheduledFor.isSome → ∃ ids ∈ st, data.jobId ∈ ids
    | _ => True
  admits _
    | .jobFindMany => fun r => ∀ rows, r = .ok rows → (rows.map (·.id)).Nodup
    | _ => fun _ => True
  next st
    | .jobFindMany => fun
      | .ok rows => some (rows.map (·.id))
      | .error _ => some []
    | .executionCreate data => fun _ => st.map (·.filter (· ≠ data.jobId))
    | _ => fun _ => st

theorem unfired_claimSlot (job : Job) (slot : Int) (lock : JobLock) {ids : List JobId}
    (h : job.id ∈ ids) : (claimSlot job slot lock).wp unfired (some ids) fun st _ =>
      st = some (ids.filter (· ≠ job.id)) := by
  unfold claimSlot createScheduledExecution releaseJobLock
  simp only [bind_eq, pure_eq, throw_eq, tryCatch_eq, wp_bind, wp_tryCatch, wp_call]
  refine ⟨fun _ => ⟨ids, rfl, h⟩, fun r _ => ?_⟩
  cases r with
  | ok x => simp [unfired, forall_except]
  | error e =>
    dsimp only
    split <;> simp [unfired, forall_except]

/-- An iteration fires its job at most once, and no other. -/
theorem unfired_tickIteration (S : Setup) (job : Job) {ids : List JobId} (h : job.id ∈ ids) :
    (tickIteration S job).wp unfired (some ids) fun st _ =>
      ∃ left, st = some left ∧ ∀ j ∈ ids, j ≠ job.id → j ∈ left := by
  simp only [tickIteration, bind_eq, wp_bind, wp_dateNow]
  intro now
  split
  · exact ⟨ids, rfl, fun j hj _ => hj⟩
  · rename_i slot _
    simp only [fireSlot, acquireJobLock, bind_eq, pure_eq, wp_bind, wp_randomUUID, wp_call, wp_ret]
    refine fun token => ⟨trivial, fun granted _ => ?_⟩
    rcases granted with e | (_ | _)
    · exact ⟨ids, rfl, fun j hj _ => hj⟩
    · exact fun _ => ⟨ids, rfl, fun j hj _ => hj⟩
    · refine wp_mono ?_ (unfired_claimSlot job slot ⟨job.id, .time slot, token⟩ h)
      rintro st r rfl
      exact ⟨_, rfl, fun j hj hne => by simp [hj, hne]⟩

theorem unfired_tickLoop (S : Setup) {jobs : List Job} (hjobs : (jobs.map (·.id)).Nodup)
    {ids : List JobId} (h : ∀ job ∈ jobs, job.id ∈ ids) :
    (tickLoop S jobs).wp unfired (some ids) fun _ _ => True := by
  induction jobs generalizing ids with
  | nil => trivial
  | cons job jobs ih =>
    obtain ⟨hnew, hrest⟩ := List.nodup_cons.mp hjobs
    unfold tickLoop
    rw [bind_eq, wp_bind]
    refine wp_mono ?_ (unfired_tickIteration S job (h job List.mem_cons_self))
    rintro st r ⟨left, rfl, hleft⟩
    cases r with
    | error e => trivial
    | ok u =>
      refine ih hrest fun job' hmem => hleft _ (h job' (List.mem_cons_of_mem _ hmem)) fun heq => ?_
      exact hnew (List.mem_map.mpr ⟨job', hmem, heq⟩)

theorem unfired_tick (S : Setup) : (tick S).wp unfired none fun _ _ => True := by
  simp only [tick, bind_eq, wp_bind, wp_inc]
  refine (wp_call ..).mpr ⟨rfl, fun r hr => ?_⟩
  cases r with
  | error e => trivial
  | ok rows => exact unfired_tickLoop S (hr rows rfl) fun row hrow => List.mem_map_of_mem hrow

theorem unfired_begin {S : Setup} : ∀ (t : Task) (w w' : World) (p : Promise Response),
    start S t w = some (w', p) → p.wp unfired none fun _ _ => True := by
  refine monitored_begin (unfired_tick S) (fun _ _ _ _ => trivial) (fun c hc => ?_) fun _ => trivial
  cases c with
  | jobFindMany => exact hc.elim
  | executionCreate data =>
    refine ⟨fun hsome => ?_, fun _ => rfl⟩
    have hnone : data.scheduledFor = none := hc
    rw [hnone] at hsome
    cases hsome
  | _ => exact ⟨trivial, fun _ => rfl⟩

/-! ## Scans and inserts in a run -/

/-- What a tick has read and not yet fired it has scanned and not tried to fire. -/
structure ScansKept (s : SystemState) : Prop where
  scanned : ∀ i ids, unfired.stateAt i none s.trace = some ids → ∀ j ∈ ids, Scanned s.trace i j
  untried : ∀ i j, (∀ ids, unfired.stateAt i none s.trace = some ids → j ∈ ids) →
    Untried s.trace i j

section Runs

variable {S : Setup} {w₀ : World} {s s' : SystemState}

theorem jobFindMany_nodup (db : Postgres) : (db.jobFindMany.map (·.id)).Nodup :=
  db.job_pkey.sublist ((List.filter_sublist ..).map _)

theorem unfired_permits (hr : Reachable S w₀ s) {i : Nat} {c : Call} (hi : s.Awaits i c) :
    unfired.permits (unfired.stateAt i none s.trace) c := by
  obtain ⟨tag, k, hi⟩ := hi
  refine (hr.monitored unfired (fun _ => none) (fun _ _ _ => True) unfired_begin ?_ hi).1
  intro s i tag c k o _ _
  cases c with
  | jobFindMany =>
    intro rows hrows
    obtain ⟨a, hexec, _⟩ := attend_seen hrows
    rw [← Except.ok.inj hexec]
    exact jobFindMany_nodup s.world.db
  | _ => trivial

theorem Scanned.mono {tr tr' : List TraceEntry} {i : Nat} {j : JobId} (h : Scanned tr i j)
    (hsub : tr ⊆ tr') : Scanned tr' i j := by
  obtain ⟨rows, hm, hrow⟩ := h
  exact ⟨rows, hsub hm, hrow⟩

theorem scanned_of_mem {tr : List TraceEntry} {i : Nat} {j : JobId} {db : Postgres}
    (hm : Entry.called i .jobFindMany (some (.ok db.jobFindMany)) (.ok db.jobFindMany) ∈ tr)
    (hj : j ∈ db.jobFindMany.map (·.id)) : Scanned tr i j := by
  obtain ⟨row, hrow, hid⟩ := List.mem_map.mp hj
  have hon := (List.mem_filter.mp hrow).2
  rw [Bool.and_eq_true, Bool.not_eq_true'] at hon
  exact ⟨_, hm, row, hrow, hid, hon⟩

namespace ScansKept

theorem scanned_step (h : ScansKept s) {e : SystemEvent} (hs : (system S).Step s e s') {i : Nat}
    {ids : List JobId} (hids : unfired.stateAt i none s'.trace = some ids) {j : JobId}
    (hj : j ∈ ids) : Scanned s'.trace i j := by
  rcases hs.stateAt unfired i none with heq | ⟨tag, c, k, o, hi, rfl, rfl, heq⟩
  · exact (h.scanned i ids (heq ▸ hids) j hj).mono hs.trace_subset
  · rw [heq] at hids
    cases c with
    | jobFindMany =>
      cases hseen : ((system S).attend .jobFindMany o s.world).2.2 with
      | error e =>
        rw [hseen] at hids
        cases hids
        cases hj
      | ok rows =>
        rw [hseen] at hids
        cases hids
        obtain ⟨a, hexec, _, hreply⟩ := attend_seen hseen
        have hrows : s.world.db.jobFindMany = rows := Except.ok.inj hexec
        subst hrows
        refine scanned_of_mem (List.mem_append_right _ (List.mem_singleton.mpr ?_)) hj
        rw [hreply, hseen]
    | executionCreate data =>
      obtain ⟨ids', hold, rfl⟩ := Option.map_eq_some_iff.mp hids
      exact (h.scanned i ids' hold j (List.mem_of_mem_filter hj)).mono hs.trace_subset
    | _ => exact (h.scanned i ids hids j hj).mono hs.trace_subset

/-- What a tick has left after a step it had left before. -/
theorem left_before (hr : Reachable S w₀ s) {e : SystemEvent} (hs : (system S).Step s e s')
    {i : Nat} {j : JobId} (hleft : ∀ ids, unfired.stateAt i none s'.trace = some ids → j ∈ ids)
    {ids : List JobId} (hids : unfired.stateAt i none s.trace = some ids) : j ∈ ids := by
  rcases hs.stateAt unfired i none with heq | ⟨tag, c, k, o, hi, rfl, rfl, heq⟩
  · exact hleft ids (heq.trans hids)
  · rw [heq, hids] at hleft
    cases c with
    | jobFindMany =>
      have hnone : unfired.stateAt i none s.trace = none := unfired_permits hr ⟨tag, k, hi⟩
      cases hnone.symm.trans hids
    | executionCreate data => exact List.mem_of_mem_filter (hleft _ rfl)
    | _ => exact hleft ids rfl

theorem step (h : ScansKept s) (hr : Reachable S w₀ s) {e : SystemEvent}
    (hs : (system S).Step s e s') : ScansKept s' := by
  refine ⟨fun i ids hids j hj => h.scanned_step hs hids hj, ?_⟩
  intro i j hleft data reply seen hm hsome
  rcases hs.called hm with hm | ⟨tag, k, o, hi, rfl, rfl, _, _⟩
  · exact h.untried i j (fun ids => left_before hr hs hleft) data reply seen hm hsome
  · obtain ⟨ids, hids, _⟩ := unfired_permits hr ⟨tag, k, hi⟩ hsome
    have hnext : unfired.stateAt i none
        ((system S).resumed s i tag (.executionCreate data) k o).trace =
          some (ids.filter (· ≠ data.jobId)) := by
      simp only [resumed, Monitor.stateAt_append, Monitor.observe, if_true]
      rw [Option.mem_def.mp hids]
      rfl
    have hne : j ≠ data.jobId := of_decide_eq_true (List.mem_filter.mp (hleft _ hnext)).2
    exact hne.symm

theorem of_reachable (hr : Reachable S w₀ s) : ScansKept s := by
  refine hr.keeps ⟨?_, ?_⟩ fun s e s' hr ih _ hs => ih.step hr hs
  · intro i ids hids
    cases hids
  · intro i j _ data reply seen hm
    cases hm

end ScansKept

/-- A scheduled execution is inserted by a tick that has read the job, and for the first time. -/
theorem fires_scanned (hr : Reachable S w₀ s) {e : SystemEvent} (hs : (system S).Step s e s')
    {j : JobId} (hfires : Fires s s' j) :
    ∃ i o, e = .resume i o ∧ Scanned s.trace i j ∧ Untried s.trace i j := by
  obtain ⟨x, hx, hnew, hjob, hslot⟩ := hfires
  have hnot {y : Execution} (hy : y ∈ s.world.db.executions) (hid : y.id = x.id) : False :=
    hnew (List.mem_map.mpr ⟨y, hy, hid⟩)
  cases step_stores hs with
  | silent hdb _ => exact (hnot (hdb ▸ hx) rfl).elim
  | expired hdb _ => exact (hnot (hdb ▸ hx) rfl).elim
  | @call i tag c k o a hi hs' _ hdb _ =>
    rw [hdb] at hx
    rcases World.exec_executions hx with hx | ⟨data, rfl, rfl⟩ | ⟨data, z, hz, rfl, rfl⟩
    · exact (hnot hx rfl).elim
    · obtain ⟨ids, hids, hmem⟩ := unfired_permits hr ⟨tag, k, hi⟩ hslot
      have hkept := ScansKept.of_reachable hr
      rw [show data.jobId = j from hjob] at hmem
      refine ⟨i, o, rfl, hkept.scanned i ids hids j hmem, hkept.untried i j fun ids' hids' => ?_⟩
      cases hids.symm.trans hids'
      exact hmem
    · exact (hnot hz rfl).elim

end Runs

/-! ## After a commit -/

section Halted

variable {h : Halt} {j : JobId} {c : Call} {a : Choice} {w : World}

theorem Halt.commits_iff {halted : Bool} {s : SystemState} {e : SystemEvent} :
    h.Commits j halted s e ↔ ∃ i o c, e = .resume i o ∧ s.Awaits i c ∧ h.Sets j halted c ∧
      ∀ failure, o ≠ .rejected failure := by
  constructor
  · intro hcommit
    rcases e with _ | ⟨i, a | failure | ⟨a, failure⟩⟩ | _ | _
    · exact hcommit.elim
    · obtain ⟨c, hc, hsets⟩ := hcommit
      exact ⟨i, _, c, rfl, State.awaiting_iff.mp hc, hsets, fun _ heq => by cases heq⟩
    · exact hcommit.elim
    · obtain ⟨c, hc, hsets⟩ := hcommit
      exact ⟨i, _, c, rfl, State.awaiting_iff.mp hc, hsets, fun _ heq => by cases heq⟩
    · exact hcommit.elim
    · exact hcommit.elim
  · rintro ⟨i, o, c, rfl, hi, hsets, ho⟩
    cases o with
    | answered a => exact ⟨c, hi.awaiting, hsets⟩
    | rejected failure => exact absurd rfl (ho failure)
    | lost a failure => exact ⟨c, hi.awaiting, hsets⟩

theorem exec_halts (hsets : h.Sets j true c) :
    ∀ row ∈ (World.exec c a w).1.db.jobs, row.id = j → h.Holds row := by
  intro row hrow hid
  cases c with
  | jobUpdate id data =>
    obtain ⟨rfl, hdata⟩ := hsets
    have hmap : ∃ old, row = Postgres.updateJobRow id data old := by
      simp only [World.exec, World.withDb, Postgres.jobUpdate] at hrow
      split at hrow
      · rename_i hnone
        have hsome := Postgres.job?_eq_some.mpr ⟨hrow, hid⟩
        cases hnone.symm.trans hsome
      · obtain ⟨old, _, rfl⟩ := List.mem_map.mp hrow
        exact ⟨old, rfl⟩
    obtain ⟨old, rfl⟩ := hmap
    rw [Postgres.updateJobRow_id] at hid
    rw [Postgres.updateJobRow, if_pos hid]
    cases h with
    | paused => simp [Halt.Holds, JobUpdate.apply, show data.paused = some true from hdata]
    | disabled => simp [Halt.Holds, JobUpdate.apply, show data.enabled = some false from hdata]
  | jobUpdateMany ids enabled =>
    obtain ⟨hmem, rfl, rfl⟩ := hsets
    obtain ⟨old, _, rfl⟩ := List.mem_map.mp hrow
    rw [Postgres.enableRow_id] at hid
    rw [Postgres.enableRow, if_pos (hid ▸ hmem)]
    rfl
  | _ => exact hsets.elim

/-- Only a statement that undoes the halt ends it. -/
theorem exec_keeps_halt (hknown : j ∈ w.db.jobIds)
    (hrows : ∀ row ∈ w.db.jobs, row.id = j → h.Holds row) (hsets : ¬ h.Sets j false c) :
    ∀ row ∈ (World.exec c a w).1.db.jobs, row.id = j → h.Holds row := by
  intro row hrow hid
  cases World.exec_jobs hrow with
  | kept hrow => exact hrows row hrow hid
  | created _ hnew hrow' _ =>
    subst hrow'
    have hfresh : a.jobId = j := hid
    exact absurd (hfresh ▸ hknown) hnew
  | @updated old data hold hc hrow' _ =>
    subst hc hrow'
    have hholds := hrows old hold hid
    cases h with
    | paused =>
      cases hdata : data.paused with
      | none => simpa [Halt.Holds, JobUpdate.apply, hdata] using hholds
      | some paused =>
        cases paused with
        | true => simp [Halt.Holds, JobUpdate.apply, hdata]
        | false => exact absurd ⟨hid, hdata⟩ hsets
    | disabled =>
      cases hdata : data.enabled with
      | none => simpa [Halt.Holds, JobUpdate.apply, hdata] using hholds
      | some enabled =>
        cases enabled with
        | false => simp [Halt.Holds, JobUpdate.apply, hdata]
        | true => exact absurd ⟨hid, hdata⟩ hsets
  | @switched old ids enabled hold hc hmem hrow' =>
    subst hc hrow'
    have hholds := hrows old hold hid
    cases h with
    | paused => exact hholds
    | disabled =>
      cases enabled with
      | false => rfl
      | true => exact absurd ⟨hid ▸ hmem, rfl, rfl⟩ hsets

variable {S : Setup} {w₀ : World} {s₀ s s' : SystemState}

/-- What a commit leaves true until it is undone: a scan no longer returns the job. -/
structure HaltKept (h : Halt) (j : JobId) (s₀ s : SystemState) : Prop where
  known : j ∈ s.world.db.jobIds
  rows : ∀ row ∈ s.world.db.jobs, row.id = j → h.Holds row
  scanned : ∀ i, Scanned s.trace i j → Scanned s₀.trace i j

namespace HaltKept

theorem not_scanned (hkept : HaltKept h j s₀ s) : ∀ row ∈ s.world.db.jobFindMany, row.id ≠ j := by
  intro row hrow hid
  obtain ⟨hmem, hon⟩ := List.mem_filter.mp hrow
  rw [Bool.and_eq_true, Bool.not_eq_true'] at hon
  have hholds := hkept.rows row hmem hid
  cases h with
  | paused => cases hholds.symm.trans hon.2
  | disabled => cases hholds.symm.trans hon.1

theorem step (hkept : HaltKept h j s₀ s) {e : SystemEvent} (hok : ¬ h.Commits j false s e)
    (hs : (system S).Step s e s') : HaltKept h j s₀ s' := by
  refine ⟨(step_evolves hs).jobIds j hkept.known, ?_, ?_⟩
  · cases step_stores hs with
    | silent hdb _ =>
      rw [hdb]
      exact hkept.rows
    | expired hdb _ =>
      rw [hdb]
      exact hkept.rows
    | @call i tag c k o a hi _ hreply hdb _ =>
      rw [hdb]
      refine exec_keeps_halt hkept.known hkept.rows fun hsets => hok ?_
      refine Halt.commits_iff.mpr ⟨i, o, c, rfl, ⟨tag, k, hi⟩, hsets, ?_⟩
      rintro failure rfl
      cases hreply
  · rintro i ⟨rows, hm, row, hrow, hid, hon⟩
    rcases hs.called hm with hm | ⟨tag, k, o, _, _, _, _, hseen⟩
    · exact hkept.scanned i ⟨rows, hm, row, hrow, hid, hon⟩
    · obtain ⟨a, hexec, _⟩ := attend_seen hseen
      have hrows : s.world.db.jobFindMany = rows := Except.ok.inj hexec
      exact absurd hid (hkept.not_scanned row (hrows ▸ hrow))

end HaltKept

theorem HaltedSince.kept (hsince : HaltedSince S w₀ h j s₀ s) : HaltKept h j s₀ s := by
  obtain ⟨hr, hs, hcommit, hrow, hrun⟩ := hsince
  refine hrun.keeps ?_ fun s e s' _ ih hok hs => ih.step hok hs
  obtain ⟨i, o, c, rfl, ⟨tag, k, hi⟩, hsets, ho⟩ := Halt.commits_iff.mp hcommit
  refine ⟨?_, ?_, ?_⟩
  · obtain ⟨row, hrow⟩ := Option.isSome_iff_exists.mp hrow
    obtain ⟨hmem, rfl⟩ := Postgres.job?_eq_some.mp hrow
    exact Postgres.job_known _ row hmem
  · cases hs with
    | resume hi' =>
      obtain ⟨rfl, hprog⟩ := Live.unique hi hi'
      injection hprog with hop hk
      subst hop
      rw [resumed_db]
      rcases attend_cases (M := system S) c o s₀.world with ⟨⟨e, rfl, _⟩, _⟩ | ⟨a, hw, _⟩
      · exact absurd rfl (ho e)
      · rw [hw]
        exact exec_halts hsets
  · rintro i' ⟨rows, hm, hrows⟩
    rcases hs.called hm with hm | ⟨tag', k', o', hi', he, _⟩
    · exact ⟨rows, hm, hrows⟩
    · injection he with hii
      subst hii
      obtain rfl : c = .jobFindMany := Live.awaits_unique hi' ⟨tag, k, hi⟩
      exact hsets.elim

theorem HaltedSince.reachable (hsince : HaltedSince S w₀ h j s₀ s) : Reachable S w₀ s := by
  obtain ⟨hr, hs, _, _, hrun⟩ := hsince
  exact (hr.tail trivial hs).trans (hrun.mono fun _ _ _ => trivial)

/-- While a halt is committed and not undone, only a tick that had read the job before fires it, and
each such tick no more than once. -/
theorem halted_fired_once (hsince : HaltedSince S w₀ h j s₀ s) {e : SystemEvent}
    (hs : (system S).Step s e s') (hfires : Fires s s' j) :
    ∃ i o, e = .resume i o ∧ Scanned s₀.trace i j ∧ Untried s.trace i j := by
  obtain ⟨i, o, he, hscanned, huntried⟩ := fires_scanned hsince.reachable hs hfires
  exact ⟨i, o, he, hsince.kept.scanned i hscanned, huntried⟩

end Halted

namespace Sample

/-- A tick scans the job and a request is about to pause it. -/
def beforePause : List SystemEvent :=
  [.begin .tick, answered 0, .begin (.setPaused "job-1" true)]

/-- The request ends with a reply, and the tick takes the slot's lock. -/
def afterPause : List SystemEvent := [answered 1, answered 1, answered 0]

theorem fires_after_pause : ∃ s₀ s s', HaltedSince setup world .paused "job-1" s₀ s ∧
    s.threads.length = 2 ∧ s.awaiting 1 = none ∧ (system setup).Step s (answered 0) s' ∧
    Fires s s' "job-1" := by
  have hrun : (((system setup).run (.fresh world) beforePause).bind fun s₀ =>
      ((system setup).step s₀ (answered 1)).bind fun s₁ =>
      ((system setup).runChecked (fun s e => ¬ Halt.paused.Commits "job-1" false s e) s₁
        afterPause).bind fun s =>
      ((system setup).step s (answered 0)).map fun s' =>
        (decide (Halt.paused.Commits "job-1" true s₀ (answered 1)),
          (s₁.world.db.job? "job-1").isSome, s.threads.length, s.awaiting 1,
          decide (Fires s s' "job-1"))) = some (true, true, 2, none, true) := by decide +kernel
  obtain ⟨s₀, hs₀, hrun⟩ := Option.bind_eq_some_iff.mp hrun
  obtain ⟨s₁, hs₁, hrun⟩ := Option.bind_eq_some_iff.mp hrun
  obtain ⟨s, hs, hrun⟩ := Option.bind_eq_some_iff.mp hrun
  obtain ⟨s', hs', hrun⟩ := Option.map_eq_some_iff.mp hrun
  simp only [Prod.mk.injEq, decide_eq_true_eq] at hrun
  obtain ⟨hcommit, hrow, hlength, hended, hfires⟩ := hrun
  refine ⟨s₀, s, s', ?_, hlength, hended, step_iff.mp hs', hfires⟩
  exact .intro (.of_run hs₀ fun _ _ _ => trivial) (step_iff.mp hs₁) hcommit hrow (.of_runChecked hs)

end Sample

/-- A job is fired although its pause has been committed and acknowledged. -/
theorem paused_job_fired : ¬ ∀ s₀ s e s',
    HaltedSince Sample.setup Sample.world .paused "job-1" s₀ s → s.awaiting 1 = none →
    (system Sample.setup).Step s e s' → ¬ Fires s s' "job-1" := by
  intro hnever
  obtain ⟨s₀, s, s', hsince, _, hended, hs, hfires⟩ := Sample.fires_after_pause
  exact hnever s₀ s _ s' hsince hended hs hfires

theorem halted_fired_once_paused : ∃ s₀ s s',
    HaltedSince Sample.setup Sample.world .paused "job-1" s₀ s ∧ Fires s s' "job-1" ∧
    ∃ i o, Sample.answered 0 = .resume i o ∧ Scanned s₀.trace i "job-1" ∧
      Untried s.trace i "job-1" := by
  obtain ⟨s₀, s, s', hsince, _, _, hs, hfires⟩ := Sample.fires_after_pause
  exact ⟨s₀, s, s', hsince, hfires, halted_fired_once hsince hs hfires⟩

end CronHive
