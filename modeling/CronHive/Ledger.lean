import CronHive.Footprints

/-!
# The ledger of inserted rows

What the trace says about `prisma.execution.create` and what the table says about it, for
every run: an inserted row is there for as long as its job is, and no slot of a job is ever
inserted twice, not even after the job was deleted.
-/

namespace CronHive

set_option autoImplicit false

open Async Async.Machine

/-- Thread `i` inserted the row `x`, whether or not it saw the reply. -/
def Inserted (tr : List TraceEntry) (i : Nat) (x : Execution) : Prop :=
  ∃ data seen, Entry.called i (.executionCreate data) (some (.ok x)) seen ∈ tr

theorem Inserted.mono {tr tr' : List TraceEntry} {i : Nat} {x : Execution}
    (h : Inserted tr i x) (hsub : tr ⊆ tr') : Inserted tr' i x := by
  obtain ⟨data, seen, hm⟩ := h
  exact ⟨data, seen, hsub hm⟩

theorem Inserted.step {S : Setup} {s s' : SystemState} {e : SystemEvent}
    (hs : (system S).Step s e s') {i : Nat} {x : Execution} (h : Inserted s'.trace i x) :
    Inserted s.trace i x ∨ ∃ tag data k o,
      s.Live i tag (.await (.executionCreate data) k) ∧ e = .resume i o ∧
      s' = (system S).resumed s i tag (.executionCreate data) k o ∧
      ((system S).attend (.executionCreate data) o s.world).2.1 = some (.ok x) := by
  obtain ⟨data, seen, hm⟩ := h
  rcases hs.called hm with hm | ⟨tag, k, o, hi, he, hs', hreply, _⟩
  · exact Or.inl ⟨data, seen, hm⟩
  · exact Or.inr ⟨tag, data, k, o, hi, he, hs', hreply⟩

/-- What an insert that took effect says about the world before and after it. -/
theorem attend_insert {S : Setup} {data : ExecutionCreate} {o : Outcome Choice Failure}
    {w : World} {x : Execution}
    (h : ((system S).attend (.executionCreate data) o w).2.1 = some (.ok x)) :
    w.db.hasJob data.jobId ∧ x = data.row w.db.nextExecution (w.clock w.readings) ∧
      ((system S).attend (.executionCreate data) o w).1.db.executions =
        w.db.executions ++ [x] ∧
      ∀ slot, data.scheduledFor = some slot → ¬ w.db.Claimed data.jobId slot := by
  rcases attend_cases (M := system S) (.executionCreate data) o w with
    ⟨_, _, hnone⟩ | ⟨c, hw, hreply, _⟩
  · rw [hnone] at h
    simp at h
  · rw [hreply] at h
    rw [hw]
    exact Postgres.executionCreate_ok (Option.some.inj h)

structure Ledger (s : SystemState) : Prop where
  known : ∀ i x, Inserted s.trace i x → x.jobId ∈ s.world.db.jobIds
  claimed : ∀ i x t, Inserted s.trace i x → x.scheduledFor = some t →
    s.world.db.hasJob x.jobId → s.world.db.Claimed x.jobId t
  unique : ∀ i x i' x' t, Inserted s.trace i x → Inserted s.trace i' x' →
    x.jobId = x'.jobId → x.scheduledFor = some t → x'.scheduledFor = some t → i = i' ∧ x = x'

namespace Ledger

variable {S : Setup} {s s' : SystemState}

theorem frame (h : Ledger s) (hdb : Postgres.Evolves s.world.db s'.world.db)
    (htr : ∀ i x, Inserted s'.trace i x → Inserted s.trace i x) : Ledger s' where
  known i x hx := hdb.jobIds _ (h.known i x (htr i x hx))
  claimed i x t hx ht hj := by
    have hj₀ : s.world.db.hasJob x.jobId := hdb.gone _ (h.known i x (htr i x hx)) hj
    exact hdb.claimed (h.claimed i x t (htr i x hx) ht hj₀) hj
  unique i x i' x' t hx hx' := h.unique i x i' x' t (htr i x hx) (htr i' x' hx')

/-- When a row is inserted, none was inserted for its slot before: that one would claim it. -/
theorem first (h : Ledger s) {data : ExecutionCreate} {o : Outcome Choice Failure}
    {x : Execution} (hx : ((system S).attend (.executionCreate data) o s.world).2.1 = some (.ok x))
    {i : Nat} {y : Execution} {t : Int} (hy : Inserted s.trace i y) (hjob : y.jobId = data.jobId)
    (hslot : y.scheduledFor = some t) : data.scheduledFor ≠ some t := by
  obtain ⟨hj, _, _, hfree⟩ := attend_insert hx
  intro ht
  have hclaimed := h.claimed i y t hy hslot (hjob ▸ hj)
  exact hfree t ht (hjob ▸ hclaimed)

theorem insert (h : Ledger s) {i : Nat} {tag : Task} {data : ExecutionCreate}
    {k : Except Failure Execution → Promise Response} {o : Outcome Choice Failure}
    {x : Execution} (hi : s.Live i tag (.await (.executionCreate data) k))
    (hx : ((system S).attend (.executionCreate data) o s.world).2.1 = some (.ok x)) :
    Ledger ((system S).resumed s i tag (.executionCreate data) k o) := by
  have hs : (system S).Step s (.resume i o) _ := .resume hi
  have hev := step_evolves hs
  obtain ⟨hj, hrow, hexecs, _⟩ := attend_insert hx
  have hjob : x.jobId = data.jobId := by rw [hrow]; rfl
  have hslot : x.scheduledFor = data.scheduledFor := by rw [hrow]; rfl
  have hnew : ∀ j y, Inserted ((system S).resumed s i tag (.executionCreate data) k o).trace j y →
      Inserted s.trace j y ∨ (j = i ∧ y = x) := by
    intro j y hy
    rcases hy.step hs with hy | ⟨_, data', _, _, hi', he, _, hy⟩
    · exact Or.inl hy
    · cases he
      cases Live.awaits_unique hi ⟨_, _, hi'⟩
      rw [hx] at hy
      cases hy
      exact Or.inr ⟨rfl, rfl⟩
  have hfirst : ∀ j y t, Inserted s.trace j y → y.jobId = x.jobId → y.scheduledFor = some t →
      x.scheduledFor ≠ some t := by
    intro j y t hy hyj hyt
    rw [hslot]
    exact h.first hx hy (hyj.trans hjob) hyt
  constructor
  · intro j y hy
    rcases hnew j y hy with hy | ⟨_, rfl⟩
    · exact hev.jobIds _ (h.known j y hy)
    · rw [hjob]
      obtain ⟨row, hrow, hid⟩ := List.mem_map.mp hj
      exact hev.jobIds _ (hid ▸ s.world.db.job_known row hrow)
  · intro j y t hy ht hjob'
    rcases hnew j y hy with hy | ⟨_, rfl⟩
    · have hj₀ := hev.gone _ (h.known j y hy) hjob'
      exact hev.claimed (h.claimed j y t hy ht hj₀) hjob'
    · refine ⟨y, ?_, rfl, ht⟩
      rw [resumed_db, hexecs]
      simp
  · intro j y j' y' t hy hy' hjj hyt hyt'
    rcases hnew j y hy with hy | ⟨rfl, rfl⟩
    · rcases hnew j' y' hy' with hy' | ⟨_, rfl⟩
      · exact h.unique j y j' y' t hy hy' hjj hyt hyt'
      · exact absurd hyt' (hfirst j y t hy hjj hyt)
    · rcases hnew j' y' hy' with hy' | ⟨rfl, rfl⟩
      · exact absurd hyt (hfirst j' y' t hy' hjj.symm hyt')
      · exact ⟨rfl, rfl⟩

theorem step (h : Ledger s) {e : SystemEvent} (hs : (system S).Step s e s') : Ledger s' := by
  by_cases hnew : ∃ i x, Inserted s'.trace i x ∧ ¬ Inserted s.trace i x
  · obtain ⟨i, x, hx, hold⟩ := hnew
    rcases hx.step hs with hx | ⟨tag, data, k, o, hi, _, rfl, hreply⟩
    · exact absurd hx hold
    · exact h.insert hi hreply
  · refine h.frame (step_evolves hs) fun i x hx => ?_
    by_contra hold
    exact hnew ⟨i, x, hx, hold⟩

theorem of_reachable {w₀ : World} (h : Reachable S w₀ s) : Ledger s := by
  refine h.keeps ⟨?_, ?_, ?_⟩ fun s e s' _ ih _ hs => ih.step hs
  · rintro i x ⟨data, seen, hm⟩
    cases hm
  · rintro i x t ⟨data, seen, hm⟩
    cases hm
  · rintro i x i' x' t ⟨data, seen, hm⟩
    cases hm

end Ledger

/-! ## Rows -/

theorem attend_rows {S : Setup} {op : Call} {o : Outcome Choice Failure} {w : World}
    {y : Execution} (hy : y ∈ ((system S).attend op o w).1.db.executions) :
    (∃ z ∈ w.db.executions, Postgres.SameKeys z y) ∨
      ∃ data, ∃ _ : op = .executionCreate data,
        ((system S).attend (.executionCreate data) o w).2.1 = some (.ok y) := by
  rcases attend_cases (M := system S) op o w with ⟨_, hw, _⟩ | ⟨c, hw, hreply, _⟩
  · rw [hw] at hy
    exact Or.inl ⟨y, hy, .refl y⟩
  · rw [hw] at hy
    by_cases hdata : ∃ data, op = .executionCreate data
    · obtain ⟨data, rfl⟩ := hdata
      cases hexec : ((system S).exec (.executionCreate data) c w).2 with
      | ok x =>
        have hx : ((system S).attend (.executionCreate data) o w).2.1 = some (.ok x) := by
          rw [hreply, hexec]
        rw [← hw, (attend_insert hx).2.2.1] at hy
        rcases List.mem_append.mp hy with hy | hy
        · exact Or.inl ⟨y, hy, .refl y⟩
        · rw [List.mem_singleton.mp hy]
          exact Or.inr ⟨data, rfl, hx⟩
      | error e =>
        have hdb : ((system S).exec (.executionCreate data) c w).1.db = w.db :=
          Postgres.executionCreate_error hexec
        rw [hdb] at hy
        exact Or.inl ⟨y, hy, .refl y⟩
    · exact Or.inl (World.exec_rows (fun data hd => hdata ⟨data, hd⟩) c w y hy)

theorem row_inserted {S : Setup} {w₀ : World} {s : SystemState} (h : Reachable S w₀ s) :
    ∀ y ∈ s.world.db.executions, (∃ x ∈ w₀.db.executions, Postgres.SameKeys x y) ∨
      ∃ i x, Inserted s.trace i x ∧ Postgres.SameKeys x y := by
  refine h.keeps (I := fun s => ∀ y ∈ s.world.db.executions,
    (∃ x ∈ w₀.db.executions, Postgres.SameKeys x y) ∨
      ∃ i x, Inserted s.trace i x ∧ Postgres.SameKeys x y)
    (fun y hy => Or.inl ⟨y, hy, .refl y⟩) ?_
  intro s e s' _ ih _ hs y hy
  have old : ∀ z ∈ s.world.db.executions, Postgres.SameKeys z y →
      (∃ x ∈ w₀.db.executions, Postgres.SameKeys x y) ∨
        ∃ i x, Inserted s'.trace i x ∧ Postgres.SameKeys x y := by
    intro z hz hzy
    rcases ih z hz with ⟨x, hx, hxz⟩ | ⟨i, x, hx, hxz⟩
    · exact Or.inl ⟨x, hx, hxz.trans hzy⟩
    · exact Or.inr ⟨i, x, hx.mono hs.trace_subset, hxz.trans hzy⟩
  cases hs with
  | begin h =>
    rw [spawned_db, (start_stores h).1] at hy
    exact old y hy (.refl y)
  | @resume i tag op k o hi =>
    rw [resumed_db] at hy
    rcases attend_rows hy with ⟨z, hz, hzy⟩ | ⟨data, rfl, hx⟩
    · exact old z hz hzy
    · exact Or.inr ⟨i, y, ⟨data, _, called_resumed hx⟩, .refl y⟩
  | stop _ => exact old y hy (.refl y)
  | @outside x w h =>
    cases x <;> cases h <;> exact old y hy (.refl y)

theorem inserted_row {S : Setup} {w₀ : World} {s : SystemState} (h : Reachable S w₀ s) {i : Nat}
    {data : ExecutionCreate} {x : Execution} {seen : Except Failure Execution}
    (hm : Entry.called i (.executionCreate data) (some (.ok x)) seen ∈ s.trace) :
    ∃ id now, x = data.row id now := by
  revert hm
  refine h.keeps (I := fun s => Entry.called i (.executionCreate data) (some (.ok x)) seen
    ∈ s.trace → ∃ id now, x = data.row id now) (fun hm => by cases hm) ?_
  intro s e s' _ ih _ hs hm
  rcases hs.called hm with hm | ⟨tag, k, o, _, _, _, hreply, _⟩
  · exact ih hm
  · obtain ⟨_, hrow, _⟩ := attend_insert hreply
    exact ⟨_, _, hrow⟩

theorem inserted_of_p2002 {S : Setup} {jobs : List Job} {hjobs : (jobs.map (·.id)).Nodup}
    {clock : Nat → Int} {s : SystemState} (h : Reachable S (.initial jobs hjobs clock) s)
    {i : Nat} {data : ExecutionCreate} {seen : Except Failure Execution} {t : Int}
    (hm : Entry.called i (.executionCreate data) (some (.error .p2002)) seen ∈ s.trace)
    (ht : data.scheduledFor = some t) :
    ∃ i' x, Inserted s.trace i' x ∧ x.jobId = data.jobId ∧ x.scheduledFor = some t := by
  revert hm
  refine h.keeps (I := fun s => Entry.called i (.executionCreate data) (some (.error .p2002)) seen
    ∈ s.trace → ∃ i' x, Inserted s.trace i' x ∧ x.jobId = data.jobId ∧ x.scheduledFor = some t)
    (fun hm => by cases hm) ?_
  intro s e s' hr ih _ hs hm
  rcases hs.called hm with hm | ⟨tag, k, o, _, _, _, hreply, _⟩
  · obtain ⟨i', x, hx, hrest⟩ := ih hm
    exact ⟨i', x, hx.mono hs.trace_subset, hrest⟩
  · rcases attend_cases (M := system S) (.executionCreate data) o s.world with
      ⟨_, _, hnone⟩ | ⟨c, _, hsome, _⟩
    · rw [hnone] at hreply
      cases hreply
    · rw [hsome] at hreply
      obtain ⟨slot, hslot, y, hy, hyj, hyt⟩ :=
        Postgres.executionCreate_p2002 (Option.some.inj hreply)
      rw [ht] at hslot
      cases hslot
      rcases row_inserted hr y hy with ⟨x, hx, _⟩ | ⟨i', x, hx, _, hxj, hxt⟩
      · cases hx
      · exact ⟨i', x, hx.mono hs.trace_subset, hxj.trans hyj, hxt.trans hyt⟩

/-! ## Messages -/

/-- A `queue.add` of this data was awaited. -/
def Enqueued (tr : List TraceEntry) (data : ExecutionJobData) : Prop :=
  ∃ i opts reply seen, Entry.called i (.queueAdd data opts) reply seen ∈ tr

theorem exec_queue_data {c : Call} {x : Choice} {w : World} {d : ExecutionJobData}
    (h : d ∈ (World.exec c x w).1.queue.map (·.data)) :
    d ∈ w.queue.map (·.data) ∨ ∃ opts, c = .queueAdd d opts := by
  cases c with
  | queueAdd data opts =>
    simp only [World.exec, Bull.add, List.map_append, List.mem_append] at h
    rcases h with h | h
    · exact Or.inl h
    · exact Or.inr ⟨opts, by rw [show d = data by simpa using h]⟩
  | moveToCompleted m token =>
    refine Or.inl ?_
    rwa [World.exec, Bull.modify_data (Bull.completed_data token)] at h
  | moveToFailed m token =>
    refine Or.inl ?_
    rwa [World.exec, Bull.modify_data (Bull.failed_data token)] at h
  | _ => exact Or.inl h

theorem start_queue_data {S : Setup} {t : Task} {w w' : World} {p : Promise Response}
    (h : start S t w = some (w', p)) : w'.queue.map (·.data) = w.queue.map (·.data) := by
  cases t with
  | deliver m =>
    simp only [start] at h
    split at h
    · cases h
      exact Bull.modify_data fun _ => rfl
    · cases h
  | _ =>
    cases h
    rfl

theorem queue_data {S : Setup} {w₀ : World} {s : SystemState} (h : Reachable S w₀ s) :
    ∀ m ∈ s.world.queue, m.data ∈ w₀.queue.map (·.data) ∨ Enqueued s.trace m.data := by
  suffices hd : ∀ d ∈ s.world.queue.map (·.data),
      d ∈ w₀.queue.map (·.data) ∨ Enqueued s.trace d from
    fun m hm => hd _ (List.mem_map_of_mem hm)
  refine h.keeps (I := fun s => ∀ d ∈ s.world.queue.map (·.data),
    d ∈ w₀.queue.map (·.data) ∨ Enqueued s.trace d) (fun d hd => Or.inl hd) ?_
  intro s e s' _ ih _ hs d hd
  have old : d ∈ s.world.queue.map (·.data) →
      d ∈ w₀.queue.map (·.data) ∨ Enqueued s'.trace d := by
    intro hd
    rcases ih d hd with hd | ⟨i, opts, reply, seen, hm⟩
    · exact Or.inl hd
    · exact Or.inr ⟨i, opts, reply, seen, hs.trace_subset hm⟩
  cases hs with
  | begin h =>
    rw [spawned_queue, start_queue_data h] at hd
    exact old hd
  | @resume i tag op k o hi =>
    rw [resumed_queue] at hd
    rcases attend_cases (M := system S) op o s.world with ⟨_, hw, _⟩ | ⟨c, hw, _⟩
    · rw [hw] at hd
      exact old hd
    · rw [hw] at hd
      rcases exec_queue_data hd with hd | ⟨opts, rfl⟩
      · exact old hd
      · exact Or.inr ⟨i, opts, _, _, List.mem_append_right _ (List.mem_singleton.mpr rfl)⟩
  | stop _ => exact old hd
  | @outside x w h =>
    cases x <;> cases h
    · exact old hd
    · refine old ?_
      rwa [← Bull.modify_data (m := _) Bull.stalled_data]

end CronHive
