import CronHive.Data
import Mathlib.Data.List.Nodup

/-!
# The two tables

`Postgres` carries what the migrations enforce: primary keys, the unique index on
`(jobId, scheduledFor)` in which NULLs are distinct, and the foreign key of an execution
with its cascade. Each statement is atomic. A job id is never given out twice.
-/

namespace CronHive

set_option autoImplicit false

/-- Two rows collide in the unique index. -/
def SameSlot (x y : Execution) : Prop :=
  x.jobId = y.jobId ∧ x.scheduledFor.isSome ∧ x.scheduledFor = y.scheduledFor

instance (x y : Execution) : Decidable (SameSlot x y) :=
  inferInstanceAs (Decidable (_ ∧ _))

structure Postgres where
  jobs : List Job
  executions : List Execution
  /-- every id a Job row was ever created with -/
  jobIds : List JobId
  nextExecution : ExecutionId
  job_pkey : (jobs.map (·.id)).Nodup
  job_known : ∀ j ∈ jobs, j.id ∈ jobIds
  execution_pkey : (executions.map (·.id)).Nodup
  execution_known : ∀ x ∈ executions, x.id < nextExecution
  slot_unique : executions.Pairwise fun x y => ¬ SameSlot x y
  job_fkey : ∀ x ∈ executions, x.jobId ∈ jobs.map (·.id)

namespace Postgres

/-- A database with some jobs and no execution. -/
def ofJobs (jobs : List Job) (h : (jobs.map (·.id)).Nodup) : Postgres where
  jobs := jobs
  executions := []
  jobIds := jobs.map (·.id)
  nextExecution := 0
  job_pkey := h
  job_known := fun _ hj => List.mem_map_of_mem hj
  execution_pkey := List.nodup_nil
  execution_known := by simp
  slot_unique := .nil
  job_fkey := by simp

def job? (db : Postgres) (id : JobId) : Option Job := db.jobs.find? (·.id == id)

def execution? (db : Postgres) (id : ExecutionId) : Option Execution :=
  db.executions.find? (·.id == id)

theorem map_id_of_update {jobs : List Job} {f : Job → Job} (hf : ∀ j, (f j).id = j.id) :
    (jobs.map f).map (·.id) = jobs.map (·.id) := by
  simp [List.map_map, Function.comp_def, hf]

/-- Rewrite job rows, keeping their ids. -/
def mapJobs (db : Postgres) (f : Job → Job) (hf : ∀ j, (f j).id = j.id) : Postgres :=
  { db with
    jobs := db.jobs.map f
    job_pkey := by rw [map_id_of_update hf]; exact db.job_pkey
    job_known := by
      intro j hj
      obtain ⟨j', hj', rfl⟩ := List.mem_map.mp hj
      rw [hf]
      exact db.job_known j' hj'
    job_fkey := by rw [map_id_of_update hf]; exact db.job_fkey }

/-- Rewrite execution rows, keeping what the keys are made of. -/
def mapExecutions (db : Postgres) (f : Execution → Execution) (hid : ∀ x, (f x).id = x.id)
    (hjob : ∀ x, (f x).jobId = x.jobId) (hslot : ∀ x, (f x).scheduledFor = x.scheduledFor) :
    Postgres :=
  { db with
    executions := db.executions.map f
    execution_pkey := by
      have h : (db.executions.map f).map (·.id) = db.executions.map (·.id) := by
        simp [List.map_map, Function.comp_def, hid]
      rw [h]
      exact db.execution_pkey
    execution_known := by
      intro x hx
      obtain ⟨x', hx', rfl⟩ := List.mem_map.mp hx
      rw [hid]
      exact db.execution_known x' hx'
    slot_unique := by
      rw [List.pairwise_map]
      apply db.slot_unique.imp
      intro x y hxy
      simpa [SameSlot, hjob, hslot] using hxy
    job_fkey := by
      intro x hx
      obtain ⟨x', hx', rfl⟩ := List.mem_map.mp hx
      rw [hjob]
      exact db.job_fkey x' hx' }

/-! ## Statements -/

def jobFindMany (db : Postgres) : List Job := db.jobs.filter fun j => j.enabled && !j.paused

def updateJobRow (id : JobId) (data : JobUpdate) (j : Job) : Job :=
  if j.id = id then data.apply j else j

theorem updateJobRow_id (id : JobId) (data : JobUpdate) (j : Job) :
    (updateJobRow id data j).id = j.id := by
  unfold updateJobRow
  split <;> rfl

def jobUpdate (db : Postgres) (id : JobId) (data : JobUpdate) : Postgres × Except Failure Job :=
  match db.job? id with
  | none => (db, .error .p2025)
  | some j => (db.mapJobs (updateJobRow id data) (updateJobRow_id id data), .ok (data.apply j))

/-- An update without fields leaves every row as it is. -/
theorem jobUpdate_empty (db : Postgres) (id : JobId) : (db.jobUpdate id {}).1.jobs = db.jobs := by
  unfold jobUpdate
  split
  · rfl
  · have hrow : updateJobRow id {} = fun j => j := by
      funext j
      simp [updateJobRow]
    simp [mapJobs, hrow]

def enableRow (ids : List JobId) (enabled : Bool) (j : Job) : Job :=
  if j.id ∈ ids then { j with enabled := enabled } else j

theorem enableRow_id (ids : List JobId) (enabled : Bool) (j : Job) :
    (enableRow ids enabled j).id = j.id := by
  unfold enableRow
  split <;> rfl

def jobUpdateMany (db : Postgres) (ids : List JobId) (enabled : Bool) : Postgres × Nat :=
  (db.mapJobs (enableRow ids enabled) (enableRow_id ids enabled),
    db.jobs.countP fun j => decide (j.id ∈ ids))

/-- `id` is the `cuid()` Prisma generates; one that was used before violates the key. -/
def jobCreate (db : Postgres) (id : JobId) (data : JobCreate) : Postgres × Except Failure Job :=
  if h : id ∈ db.jobIds then (db, .error .p2002)
  else
    ({ db with
        jobs := db.jobs ++ [data.row id]
        jobIds := db.jobIds ++ [id]
        job_pkey := by
          rw [List.map_append, List.nodup_append]
          refine ⟨db.job_pkey, by simp, ?_⟩
          intro a ha b hb hab
          obtain ⟨j, hj, rfl⟩ := List.mem_map.mp ha
          have hb' : b = id := by simpa [JobCreate.row] using hb
          exact h (hb' ▸ hab ▸ db.job_known j hj)
        job_known := by
          intro j hj
          rcases List.mem_append.mp hj with hj | hj
          · exact List.mem_append_left _ (db.job_known j hj)
          · have hj' : j = data.row id := by simpa using hj
            subst hj'
            simp [JobCreate.row]
        job_fkey := by
          intro x hx
          rw [List.map_append]
          exact List.mem_append_left _ (db.job_fkey x hx) },
      .ok (data.row id))

/-- Deleting a job deletes its executions. -/
def jobDelete (db : Postgres) (id : JobId) : Postgres × Except Failure Unit :=
  match db.job? id with
  | none => (db, .error .p2025)
  | some _ =>
    ({ db with
        jobs := db.jobs.filter fun j => j.id ≠ id
        executions := db.executions.filter fun x => x.jobId ≠ id
        job_pkey := db.job_pkey.sublist (List.filter_sublist.map _)
        job_known := fun j hj => db.job_known j (List.mem_of_mem_filter hj)
        execution_pkey := db.execution_pkey.sublist (List.filter_sublist.map _)
        execution_known := fun x hx => db.execution_known x (List.mem_of_mem_filter hx)
        slot_unique := db.slot_unique.sublist List.filter_sublist
        job_fkey := by
          intro x hx
          obtain ⟨hx, hne⟩ := List.mem_filter.mp hx
          obtain ⟨j, hj, hjx⟩ := List.mem_map.mp (db.job_fkey x hx)
          have hne' : x.jobId ≠ id := by simpa using hne
          exact List.mem_map.mpr ⟨j, List.mem_filter.mpr ⟨hj, by simpa [hjx] using hne'⟩, hjx⟩ },
      .ok ())

/-- The foreign key is checked, then the unique index. -/
def executionCreate (db : Postgres) (data : ExecutionCreate) (now : Int) :
    Postgres × Except Failure Execution :=
  let row := data.row db.nextExecution now
  if hf : data.jobId ∈ db.jobs.map (·.id) then
    if hu : ∃ x ∈ db.executions, SameSlot x row then (db, .error .p2002)
    else
      ({ db with
          executions := db.executions ++ [row]
          nextExecution := db.nextExecution + 1
          execution_pkey := by
            rw [List.map_append, List.nodup_append]
            refine ⟨db.execution_pkey, by simp, ?_⟩
            intro a ha b hb hab
            obtain ⟨x, hx, rfl⟩ := List.mem_map.mp ha
            have hb' : b = db.nextExecution := by simpa [row, ExecutionCreate.row] using hb
            have hlt : x.id < db.nextExecution := db.execution_known x hx
            exact absurd (show x.id = db.nextExecution from hab.trans hb') (Nat.ne_of_lt hlt)
          execution_known := by
            intro x hx
            rcases List.mem_append.mp hx with hx | hx
            · exact Nat.lt_succ_of_lt (db.execution_known x hx)
            · have hx' : x = row := by simpa using hx
              subst hx'
              exact Nat.lt_succ_self _
          slot_unique := by
            rw [List.pairwise_append]
            refine ⟨db.slot_unique, by simp, ?_⟩
            intro x hx y hy hxy
            have hy' : y = row := by simpa using hy
            exact hu ⟨x, hx, hy' ▸ hxy⟩
          job_fkey := by
            intro x hx
            rcases List.mem_append.mp hx with hx | hx
            · exact db.job_fkey x hx
            · have hx' : x = row := by simpa using hx
              subst hx'
              exact hf },
        .ok row)
  else (db, .error .p2003)

def updateExecutionRow (id : ExecutionId) (data : ExecutionUpdate) (x : Execution) : Execution :=
  if x.id = id then data.apply x else x

theorem updateExecutionRow_keys (id : ExecutionId) (data : ExecutionUpdate) (x : Execution) :
    (updateExecutionRow id data x).id = x.id ∧ (updateExecutionRow id data x).jobId = x.jobId ∧
      (updateExecutionRow id data x).scheduledFor = x.scheduledFor := by
  unfold updateExecutionRow
  split <;> exact ⟨rfl, rfl, rfl⟩

def executionUpdate (db : Postgres) (id : ExecutionId) (data : ExecutionUpdate) :
    Postgres × Except Failure Execution :=
  match db.execution? id with
  | none => (db, .error .p2025)
  | some x =>
    (db.mapExecutions (updateExecutionRow id data)
      (fun x => (updateExecutionRow_keys id data x).1)
      (fun x => (updateExecutionRow_keys id data x).2.1)
      (fun x => (updateExecutionRow_keys id data x).2.2), .ok (data.apply x))

/-! ## How the tables evolve -/

def hasJob (db : Postgres) (id : JobId) : Prop := id ∈ db.jobs.map (·.id)

/-- The row that claims a fire-slot. -/
def Claimed (db : Postgres) (id : JobId) (slot : Int) : Prop :=
  ∃ x ∈ db.executions, x.jobId = id ∧ x.scheduledFor = some slot

/-- Two states of one row, as far as the keys tell. -/
def SameKeys (x y : Execution) : Prop :=
  x.id = y.id ∧ x.jobId = y.jobId ∧ x.scheduledFor = y.scheduledFor

theorem SameKeys.refl (x : Execution) : SameKeys x x := ⟨rfl, rfl, rfl⟩

theorem SameKeys.trans {x y z : Execution} (h : SameKeys x y) (h' : SameKeys y z) :
    SameKeys x z := ⟨h.1.trans h'.1, h.2.1.trans h'.2.1, h.2.2.trans h'.2.2⟩

/-- What every statement does to the tables: used ids stay used, a deleted job or execution
does not come back, and an execution keeps its keys for as long as its job exists. -/
structure Evolves (db db' : Postgres) : Prop where
  jobIds : ∀ id ∈ db.jobIds, id ∈ db'.jobIds
  gone : ∀ id ∈ db.jobIds, db'.hasJob id → db.hasJob id
  kept : ∀ x ∈ db.executions, db'.hasJob x.jobId → ∃ y ∈ db'.executions, SameKeys x y
  nextExecution : db.nextExecution ≤ db'.nextExecution
  old : ∀ y ∈ db'.executions, y.id < db.nextExecution → ∃ x ∈ db.executions, SameKeys x y

namespace Evolves

variable {db db' db'' : Postgres}

theorem refl (db : Postgres) : Evolves db db where
  jobIds _ h := h
  gone _ _ h := h
  kept x hx _ := ⟨x, hx, .refl x⟩
  nextExecution := Nat.le_refl _
  old y hy _ := ⟨y, hy, .refl y⟩

theorem trans (h : Evolves db db') (h' : Evolves db' db'') : Evolves db db'' where
  jobIds id hid := h'.jobIds id (h.jobIds id hid)
  gone id hid hj := h.gone id hid (h'.gone id (h.jobIds id hid) hj)
  kept x hx hj := by
    have hj' : db'.hasJob x.jobId := by
      obtain ⟨j, hj₀, hjx⟩ := List.mem_map.mp (db.job_fkey x hx)
      exact h'.gone _ (h.jobIds _ (hjx ▸ db.job_known j hj₀)) hj
    obtain ⟨y, hy, hxy⟩ := h.kept x hx hj'
    obtain ⟨z, hz, hyz⟩ := h'.kept y hy (hxy.2.1 ▸ hj)
    exact ⟨z, hz, hxy.trans hyz⟩
  nextExecution := Nat.le_trans h.nextExecution h'.nextExecution
  old z hz hlt := by
    obtain ⟨y, hy, hyz⟩ := h'.old z hz (Nat.lt_of_lt_of_le hlt h.nextExecution)
    obtain ⟨x, hx, hxy⟩ := h.old y hy (hyz.1 ▸ hlt)
    exact ⟨x, hx, hxy.trans hyz⟩

/-- A claimed slot stays claimed for as long as the job exists. -/
theorem claimed (h : Evolves db db') {id : JobId} {slot : Int} (hc : db.Claimed id slot)
    (hj : db'.hasJob id) : db'.Claimed id slot := by
  obtain ⟨x, hx, rfl, hslot⟩ := hc
  obtain ⟨y, hy, _, hjob, hslot'⟩ := h.kept x hx hj
  exact ⟨y, hy, hjob.symm, hslot'.symm.trans hslot⟩

end Evolves

theorem hasJob_mapJobs {db : Postgres} {f : Job → Job} {hf : ∀ j, (f j).id = j.id} {id : JobId} :
    (db.mapJobs f hf).hasJob id ↔ db.hasJob id := by
  unfold hasJob mapJobs
  rw [map_id_of_update hf]

theorem evolves_mapJobs (db : Postgres) (f : Job → Job) (hf : ∀ j, (f j).id = j.id) :
    Evolves db (db.mapJobs f hf) where
  jobIds _ h := h
  gone _ _ h := hasJob_mapJobs.mp h
  kept x hx _ := ⟨x, hx, .refl x⟩
  nextExecution := Nat.le_refl _
  old y hy _ := ⟨y, hy, .refl y⟩

theorem evolves_mapExecutions (db : Postgres) (f : Execution → Execution)
    (hid : ∀ x, (f x).id = x.id) (hjob : ∀ x, (f x).jobId = x.jobId)
    (hslot : ∀ x, (f x).scheduledFor = x.scheduledFor) :
    Evolves db (db.mapExecutions f hid hjob hslot) where
  jobIds _ h := h
  gone _ _ h := h
  kept x hx _ := ⟨f x, List.mem_map_of_mem hx, (hid x).symm, (hjob x).symm, (hslot x).symm⟩
  nextExecution := Nat.le_refl _
  old y hy _ := by
    obtain ⟨x, hx, rfl⟩ := List.mem_map.mp hy
    exact ⟨x, hx, (hid x).symm, (hjob x).symm, (hslot x).symm⟩

theorem evolves_jobUpdate (db : Postgres) (id : JobId) (data : JobUpdate) :
    Evolves db (db.jobUpdate id data).1 := by
  unfold jobUpdate
  split
  · exact .refl db
  · exact evolves_mapJobs db _ (updateJobRow_id id data)

theorem evolves_jobUpdateMany (db : Postgres) (ids : List JobId) (enabled : Bool) :
    Evolves db (db.jobUpdateMany ids enabled).1 :=
  evolves_mapJobs db _ (enableRow_id ids enabled)

theorem evolves_jobCreate (db : Postgres) (id : JobId) (data : JobCreate) :
    Evolves db (db.jobCreate id data).1 := by
  unfold jobCreate
  split
  · exact .refl db
  · rename_i hid
    refine ⟨fun j hj => List.mem_append_left _ hj, ?_, fun x hx _ => ⟨x, hx, .refl x⟩,
      Nat.le_refl _, fun y hy _ => ⟨y, hy, .refl y⟩⟩
    intro j hj hj'
    simp only [hasJob, List.map_append, List.mem_append] at hj'
    rcases hj' with hj' | hj'
    · exact hj'
    · have heq : j = id := by simpa [JobCreate.row] using hj'
      exact absurd (heq ▸ hj) hid

theorem evolves_jobDelete (db : Postgres) (id : JobId) :
    Evolves db (db.jobDelete id).1 := by
  unfold jobDelete
  split
  · exact .refl db
  · refine ⟨fun _ h => h, ?_, ?_, Nat.le_refl _,
      fun y hy _ => ⟨y, List.mem_of_mem_filter hy, .refl y⟩⟩
    · intro j _ hj
      obtain ⟨j', hj', rfl⟩ := List.mem_map.mp hj
      exact List.mem_map_of_mem (List.mem_of_mem_filter hj')
    · intro x hx hj
      obtain ⟨j, hj, hjx⟩ := List.mem_map.mp hj
      have hne : j.id ≠ id := by simpa using (List.mem_filter.mp hj).2
      exact ⟨x, List.mem_filter.mpr ⟨hx, by simpa [← hjx] using hne⟩, .refl x⟩

theorem evolves_executionCreate (db : Postgres) (data : ExecutionCreate) (now : Int) :
    Evolves db (db.executionCreate data now).1 := by
  simp only [executionCreate]
  split
  · split
    · exact .refl db
    · refine ⟨fun _ h => h, fun _ _ h => h,
        fun x hx _ => ⟨x, List.mem_append_left _ hx, .refl x⟩, Nat.le_succ _, ?_⟩
      intro y hy hlt
      rcases List.mem_append.mp hy with hy | hy
      · exact ⟨y, hy, .refl y⟩
      · have heq : y.id = db.nextExecution := by
          rw [List.mem_singleton.mp hy]
          rfl
        exact absurd (heq ▸ hlt) (Nat.lt_irrefl _)
  · exact .refl db

theorem evolves_executionUpdate (db : Postgres) (id : ExecutionId) (data : ExecutionUpdate) :
    Evolves db (db.executionUpdate id data).1 := by
  unfold executionUpdate
  split
  · exact .refl db
  · exact evolves_mapExecutions db _ (fun x => (updateExecutionRow_keys id data x).1)
      (fun x => (updateExecutionRow_keys id data x).2.1)
      (fun x => (updateExecutionRow_keys id data x).2.2)

/-! ## What the keys decide -/

/-- An insert succeeds only for an existing job and an unclaimed slot, and claims it. -/
theorem executionCreate_ok {db : Postgres} {data : ExecutionCreate} {now : Int} {x : Execution}
    (h : (db.executionCreate data now).2 = .ok x) :
    db.hasJob data.jobId ∧ x = data.row db.nextExecution now ∧
      (db.executionCreate data now).1.executions = db.executions ++ [x] ∧
      ∀ slot, data.scheduledFor = some slot → ¬ db.Claimed data.jobId slot := by
  simp only [executionCreate] at h ⊢
  split
  · rename_i hf
    rw [dif_pos hf] at h
    split
    · rename_i hu
      rw [dif_pos hu] at h
      cases h
    · rename_i hu
      rw [dif_neg hu] at h
      cases h
      refine ⟨hf, rfl, rfl, ?_⟩
      rintro slot hslot ⟨y, hy, hjob, hy'⟩
      refine hu ⟨y, hy, hjob, by simp [hy'], ?_⟩
      simp [ExecutionCreate.row, hy', hslot]
  · rename_i hf
    rw [dif_neg hf] at h
    cases h

theorem executionCreate_error {db : Postgres} {data : ExecutionCreate} {now : Int}
    {e : Failure} (h : (db.executionCreate data now).2 = .error e) :
    (db.executionCreate data now).1 = db := by
  simp only [executionCreate] at h ⊢
  split
  · rename_i hf
    split
    · rfl
    · rename_i hu
      rw [dif_pos hf, dif_neg hu] at h
      cases h
  · rfl

theorem executionCreate_p2002 {db : Postgres} {data : ExecutionCreate} {now : Int}
    (h : (db.executionCreate data now).2 = .error .p2002) :
    ∃ slot, data.scheduledFor = some slot ∧ db.Claimed data.jobId slot := by
  simp only [executionCreate] at h
  split at h
  · split at h
    · rename_i hu
      obtain ⟨y, hy, hjob, hsome, hslot⟩ := hu
      obtain ⟨slot, hs⟩ := Option.isSome_iff_exists.mp hsome
      exact ⟨slot, hslot.symm.trans hs, y, hy, hjob, hs⟩
    · simp at h
  · simp at h

/-- An insert for an existing job collides with a row of its slot or succeeds. -/
theorem executionCreate_free {db : Postgres} {data : ExecutionCreate}
    (hj : db.hasJob data.jobId)
    (hfree : ∀ slot, data.scheduledFor = some slot → ¬ db.Claimed data.jobId slot) (now : Int) :
    (db.executionCreate data now).2 = .ok (data.row db.nextExecution now) := by
  have hj' : data.jobId ∈ db.jobs.map (·.id) := hj
  have hu : ¬ ∃ x ∈ db.executions, SameSlot x (data.row db.nextExecution now) := by
    rintro ⟨x, hx, hjob, hsome, hslot⟩
    obtain ⟨slot, hs⟩ := Option.isSome_iff_exists.mp hsome
    exact hfree slot (hslot.symm.trans hs) ⟨x, hx, hjob, hs⟩
  simp only [executionCreate]
  rw [dif_pos hj', dif_neg hu]

/-- However it ends, an insert for an existing job leaves the slot claimed. -/
theorem executionCreate_claims (db : Postgres) {data : ExecutionCreate} {slot : Int}
    (hslot : data.scheduledFor = some slot) (now : Int) :
    (db.executionCreate data now).1.Claimed data.jobId slot ∨
      ¬ (db.executionCreate data now).1.hasJob data.jobId := by
  by_cases hj : db.hasJob data.jobId
  · by_cases hc : db.Claimed data.jobId slot
    · refine Or.inl ?_
      obtain ⟨x, hx, hrest⟩ := hc
      cases h : (db.executionCreate data now).2 with
      | error e =>
        rw [executionCreate_error h]
        exact ⟨x, hx, hrest⟩
      | ok y =>
        rw [Claimed, (executionCreate_ok h).2.2.1]
        exact ⟨x, List.mem_append_left _ hx, hrest⟩
    · refine Or.inl ?_
      have hok := executionCreate_free hj (fun slot' h' => by
        rw [hslot] at h'
        cases h'
        exact hc) now
      rw [Claimed, (executionCreate_ok hok).2.2.1]
      exact ⟨_, List.mem_append_right _ (List.mem_singleton.mpr rfl), rfl, hslot⟩
  · refine Or.inr fun hj' => hj ?_
    cases h : (db.executionCreate data now).2 with
    | error e =>
      rw [executionCreate_error h] at hj'
      exact hj'
    | ok y => exact (executionCreate_ok h).1

/-- The unique index: a slot is claimed by one row. -/
theorem slot_rows (db : Postgres) (id : JobId) (slot : Int) :
    (db.executions.filter fun x => x.jobId = id ∧ x.scheduledFor = some slot).length ≤ 1 := by
  generalize hl : (db.executions.filter fun x => x.jobId = id ∧ x.scheduledFor = some slot) = l
  have hp : l.Pairwise fun x y => ¬ SameSlot x y :=
    hl ▸ db.slot_unique.sublist List.filter_sublist
  have hm : ∀ x ∈ l, x.jobId = id ∧ x.scheduledFor = some slot := by
    intro x hx
    rw [← hl] at hx
    simpa using (List.mem_filter.mp hx).2
  match l with
  | [] => simp
  | [_] => simp
  | x :: y :: rest =>
    obtain ⟨hx, hxs⟩ := hm x (by simp)
    obtain ⟨hy, hys⟩ := hm y (by simp)
    refine absurd ?_ ((List.pairwise_cons.mp hp).1 y (by simp))
    exact ⟨hx.trans hy.symm, by simp [hxs], hxs.trans hys.symm⟩

/-! ## Job rows -/

theorem job?_eq_some {db : Postgres} {id : JobId} {j : Job} :
    db.job? id = some j ↔ j ∈ db.jobs ∧ j.id = id := by
  constructor
  · intro h
    exact ⟨List.mem_of_find?_eq_some h, by simpa using List.find?_some h⟩
  · rintro ⟨hj, rfl⟩
    cases h : db.job? j.id with
    | none => exact absurd (by simp) (List.find?_eq_none.mp h j hj)
    | some j' =>
      have hj' : j' ∈ db.jobs := List.mem_of_find?_eq_some h
      have hid : j'.id = j.id := by simpa using List.find?_some h
      rw [List.inj_on_of_nodup_map db.job_pkey hj' hj hid]

theorem job?_eq_none {db : Postgres} {id : JobId} : db.job? id = none ↔ ¬ db.hasJob id := by
  constructor
  · intro h hj
    obtain ⟨j, hj, hid⟩ := List.mem_map.mp hj
    rw [job?_eq_some.mpr ⟨hj, hid⟩] at h
    cases h
  · intro h
    cases hj : db.job? id with
    | none => rfl
    | some j =>
      obtain ⟨hmem, hid⟩ := job?_eq_some.mp hj
      exact absurd (List.mem_map.mpr ⟨j, hmem, hid⟩) h

theorem jobUpdate_ok {db : Postgres} {id : JobId} {data : JobUpdate} {job : Job}
    (h : (db.jobUpdate id data).2 = .ok job) :
    ∃ j, db.job? id = some j ∧ job = data.apply j ∧
      (db.jobUpdate id data).1.jobs = db.jobs.map (updateJobRow id data) := by
  unfold jobUpdate at h ⊢
  split
  · rename_i hnone
    rw [hnone] at h
    cases h
  · rename_i j hj
    rw [hj] at h
    cases h
    exact ⟨j, hj, rfl, rfl⟩

theorem jobUpdate_error {db : Postgres} {id : JobId} {data : JobUpdate} {e : Failure}
    (h : (db.jobUpdate id data).2 = .error e) : (db.jobUpdate id data).1 = db := by
  unfold jobUpdate at h ⊢
  split
  · rfl
  · rename_i j hj
    rw [hj] at h
    cases h

theorem jobCreate_ok {db : Postgres} {id : JobId} {data : JobCreate} {job : Job}
    (h : (db.jobCreate id data).2 = .ok job) :
    id ∉ db.jobIds ∧ job = data.row id ∧ (db.jobCreate id data).1.jobs = db.jobs ++ [job] := by
  unfold jobCreate at h ⊢
  split
  · rename_i hid
    rw [dif_pos hid] at h
    cases h
  · rename_i hid
    rw [dif_neg hid] at h
    cases h
    exact ⟨hid, rfl, rfl⟩

theorem jobCreate_error {db : Postgres} {id : JobId} {data : JobCreate} {e : Failure}
    (h : (db.jobCreate id data).2 = .error e) : (db.jobCreate id data).1 = db := by
  unfold jobCreate at h ⊢
  split
  · rfl
  · rename_i hid
    rw [dif_neg hid] at h
    cases h

theorem jobDelete_error {db : Postgres} {id : JobId} {e : Failure}
    (h : (db.jobDelete id).2 = .error e) : (db.jobDelete id).1 = db := by
  unfold jobDelete at h ⊢
  split
  · rfl
  · rename_i j hj
    rw [hj] at h
    cases h

/-! ## Rows after an update -/

theorem job?_mapJobs {db : Postgres} {f : Job → Job} {hf : ∀ j, (f j).id = j.id} {id : JobId} :
    (db.mapJobs f hf).job? id = (db.job? id).map f := by
  have hid : ((fun j : Job => j.id == id) ∘ f) = fun j => j.id == id :=
    funext fun j => by rw [Function.comp_apply, hf]
  rw [job?, mapJobs, List.find?_map, hid]
  rfl

theorem job?_jobUpdate {db : Postgres} {id : JobId} (data : JobUpdate) {j : Job}
    (h : db.job? id = some j) : (db.jobUpdate id data).1.job? id = some (data.apply j) := by
  have hid : j.id = id := (job?_eq_some.mp h).2
  simp only [jobUpdate, h]
  rw [job?_mapJobs, h, Option.map_some, updateJobRow, if_pos hid]

theorem execution?_mapExecutions {db : Postgres} {f : Execution → Execution}
    {hid : ∀ x, (f x).id = x.id} {hjob : ∀ x, (f x).jobId = x.jobId}
    {hslot : ∀ x, (f x).scheduledFor = x.scheduledFor} {id : ExecutionId} :
    (db.mapExecutions f hid hjob hslot).execution? id = (db.execution? id).map f := by
  have hsame : ((fun x : Execution => x.id == id) ∘ f) = fun x => x.id == id :=
    funext fun x => by rw [Function.comp_apply, hid]
  rw [execution?, mapExecutions, List.find?_map, hsame]
  rfl

theorem execution?_executionUpdate {db : Postgres} {id : ExecutionId} (data : ExecutionUpdate)
    {x : Execution} (h : db.execution? id = some x) :
    (db.executionUpdate id data).1.execution? id = some (data.apply x) := by
  have hid : x.id = id := by simpa using List.find?_some h
  simp only [executionUpdate, h]
  rw [execution?_mapExecutions, h, Option.map_some, updateExecutionRow, if_pos hid]

/-- An update leaves its status in the row, if there is one. -/
theorem executionUpdate_status {db : Postgres} {id : ExecutionId} {data : ExecutionUpdate}
    {y : Execution} (hy : y ∈ (db.executionUpdate id data).1.executions) (hid : y.id = id) :
    y.status = data.status := by
  cases hfind : db.execution? id with
  | none =>
    simp only [executionUpdate, hfind] at hy
    have hnone := List.find?_eq_none.mp hfind y hy
    simp [hid] at hnone
  | some row =>
    simp only [executionUpdate, hfind, mapExecutions] at hy
    obtain ⟨z, _, rfl⟩ := List.mem_map.mp hy
    have hz : z.id = id := by rw [← hid, (updateExecutionRow_keys id data z).1]
    rw [updateExecutionRow, if_pos hz]
    rfl

theorem executionUpdate_found {db : Postgres} {id : ExecutionId} (data : ExecutionUpdate)
    {x : Execution} (hx : x ∈ db.executions) (hid : x.id = id) :
    ∃ y, (db.executionUpdate id data).2 = .ok y := by
  cases hfind : db.execution? id with
  | none =>
    have hnone := List.find?_eq_none.mp hfind x hx
    simp [hid] at hnone
  | some row => exact ⟨data.apply row, by simp only [executionUpdate, hfind]⟩

theorem jobUpdate_found {db : Postgres} {id : JobId} (data : JobUpdate) (h : db.hasJob id) :
    ∃ row, (db.jobUpdate id data).2 = .ok row := by
  cases hfind : db.job? id with
  | none => exact absurd h (job?_eq_none.mp hfind)
  | some row => exact ⟨data.apply row, by simp only [jobUpdate, hfind]⟩

end Postgres

end CronHive
