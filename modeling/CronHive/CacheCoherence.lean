import CronHive.Footprints

/-!
# Coherence of the config cache

A request writes the Job table first and the cache later, in up to two steps. Between them
it owes the cache an invalidation or the row it wrote. Requests whose cache steps overtake
each other leave a stale entry behind; as long as a stale row is cached only while another
request still owes that entry, the cache is coherent whenever no request is in flight.
-/

namespace CronHive

set_option autoImplicit false

open Async Async.Prog Async.Machine

def Task.isRequest : Task → Prop
  | .createJob _ => True
  | .updateJob _ _ => True
  | .setPaused _ _ => True
  | .deleteJob _ => True
  | .bulkSetEnabled _ _ => True
  | _ => False

/-- What a request still owes the cache: entries to delete, then a row to store. -/
structure Debt where
  deletions : List JobId
  row : Option Job
  deriving DecidableEq

def Debt.settled : Debt := ⟨[], none⟩

def Debt.next (st : Debt) : (c : Call) → Except Failure c.Reply → Debt
  | .jobCreate _ => fun
    | .ok job => ⟨[], some job⟩
    | .error _ => st
  | .jobUpdate id _ => fun
    | .ok job => ⟨[id], some job⟩
    | .error _ => st
  | .jobDelete id => fun
    | .ok _ => ⟨[id], none⟩
    | .error _ => st
  | .jobUpdateMany ids _ => fun
    | .ok _ => ⟨ids, none⟩
    | .error _ => st
  | .redisDel _ => fun _ => ⟨st.deletions.tail, st.row⟩
  | .redisSet _ _ _ => fun _ => ⟨st.deletions, none⟩
  | _ => fun _ => st

/-- The table is written without debts, and the cache as it is owed. -/
def Debt.permits (st : Debt) : Call → Prop
  | .jobCreate _ => st = .settled
  | .jobUpdate _ _ => st = .settled
  | .jobDelete _ => st = .settled
  | .jobUpdateMany _ _ => st = .settled
  | .redisDel key => ∃ j, st.deletions.head? = some j ∧ key = jobConfigKey j
  | .redisSet key value n => n = 3600 ∧ st.deletions = [] ∧
      ∃ job, st.row = some job ∧ key = jobConfigKey job.id ∧ value = .job job
  | .jobFindUnique _ => True
  | .dnsLookup _ => True
  | _ => False

/-- Redis does not fail. -/
def debts : Monitor Call.Reply Failure Debt where
  permits := Debt.permits
  admits _
    | .redisDel _ => fun r => r = .ok ()
    | .redisSet _ _ n => fun r => n = 3600 → r = .ok ()
    | _ => fun _ => True
  next := Debt.next

/-! ## Requests pay their debts -/

theorem debts_check {α : Type} {p : Promise α} (hp : p.Only Call.ofCheck) (st : Debt) :
    p.wp debts st fun st' _ => st' = st := by
  refine hp.wp fun c hc => ?_
  cases c with
  | jobFindUnique id => exact ⟨trivial, fun _ => rfl⟩
  | dnsLookup hostname => exact ⟨trivial, fun _ => rfl⟩
  | _ => exact hc.elim

theorem debts_cacheJobConfig (job : Job) :
    (cacheJobConfig job).wp debts ⟨[], some job⟩ fun st r => st = .settled ∧ r = .ok () :=
  (wp_call ..).mpr ⟨⟨rfl, rfl, job, rfl, rfl, rfl⟩, fun _ hr => ⟨rfl, hr rfl⟩⟩

theorem debts_invalidateJobConfig (j : JobId) (js : List JobId) (row : Option Job) :
    (invalidateJobConfig j).wp debts ⟨j :: js, row⟩ fun st r => st = ⟨js, row⟩ ∧ r = .ok () :=
  (wp_call ..).mpr ⟨⟨j, rfl, rfl⟩, fun _ hr => ⟨rfl, hr⟩⟩

theorem debts_createJob (S : Setup) (input : CreateJobInput) :
    (createJob S input).wp debts .settled fun st _ => st = .settled := by
  refine (wp_bind ..).mpr (wp_mono ?_ (debts_check (only_assertValidCron S _ _) .settled))
  intro st r hst
  subst hst
  cases r with
  | error e => rfl
  | ok _ =>
    refine (wp_bind ..).mpr (wp_mono ?_ (debts_check (only_ensureSafeCallback S _) .settled))
    intro st r hst
    subst hst
    cases r with
    | error e => rfl
    | ok _ =>
      refine (wp_call_bind ..).mpr ⟨rfl, fun job _ => ?_, fun _ _ => rfl⟩
      refine (wp_bind ..).mpr (wp_mono ?_ (debts_cacheJobConfig job))
      intro st r hst
      obtain ⟨rfl, rfl⟩ := hst
      rfl

theorem debts_updateJob (S : Setup) (id : JobId) (data : UpdateJobInput) :
    (updateJob S id data).wp debts .settled fun st _ => st = .settled := by
  refine (wp_bind ..).mpr (wp_mono ?_ (debts_check (only_checkCronUpdate S id data) .settled))
  intro st r hst
  subst hst
  cases r with
  | error e => rfl
  | ok found =>
    dsimp only
    split
    · refine (wp_bind ..).mpr (wp_mono ?_ (debts_check (only_ensureSafeUpdate S data) .settled))
      intro st r hst
      subst hst
      cases r with
      | error e => rfl
      | ok _ =>
        refine (wp_tryCatch ..).mpr ((wp_call_bind ..).mpr ⟨rfl, fun job _ => ?_, fun _ _ => rfl⟩)
        refine (wp_bind ..).mpr (wp_mono ?_ (debts_invalidateJobConfig id [] (some job)))
        intro st r hst
        obtain ⟨rfl, rfl⟩ := hst
        refine (wp_bind ..).mpr (wp_mono ?_ (debts_cacheJobConfig job))
        intro st r hst
        obtain ⟨rfl, rfl⟩ := hst
        rfl
    · rfl

theorem debts_deleteJob (id : JobId) :
    (deleteJob id).wp debts .settled fun st _ => st = .settled := by
  refine (wp_tryCatch ..).mpr ((wp_call_bind ..).mpr ⟨rfl, fun _ _ => ?_, fun _ _ => rfl⟩)
  refine (wp_bind ..).mpr (wp_mono ?_ (debts_invalidateJobConfig id [] none))
  intro st r hst
  obtain ⟨rfl, rfl⟩ := hst
  rfl

theorem debts_invalidateAll (ids : List JobId) :
    (invalidateAll ids).wp debts ⟨ids, none⟩ fun st _ => st = .settled := by
  induction ids with
  | nil => rfl
  | cons id ids ih =>
    refine (wp_bind ..).mpr ((wp_tryCatch ..).mpr ((wp_bind ..).mpr ?_))
    refine wp_mono ?_ (debts_invalidateJobConfig id ids none)
    intro st r hst
    obtain ⟨rfl, rfl⟩ := hst
    refine (wp_bind ..).mpr (wp_mono ?_ ih)
    intro st r hst
    subst hst
    cases r <;> rfl

theorem debts_bulkSetEnabled (ids : List JobId) (enabled : Bool) :
    (bulkSetEnabled ids enabled).wp debts .settled fun st _ => st = .settled := by
  refine (wp_call_bind ..).mpr ⟨rfl, fun count _ => ?_, fun _ _ => rfl⟩
  refine (wp_bind ..).mpr (wp_mono ?_ (debts_invalidateAll ids))
  intro st r hst
  subst hst
  cases r <;> rfl

theorem debts_begin {S : Setup} {t : Task} (ht : t.isRequest) {w w' : World}
    {p : Promise Response} (h : start S t w = some (w', p)) :
    p.wp debts .settled fun st _ => st = .settled := by
  have hbind {α : Type} {q : Promise α} (f : α → Response)
      (hq : q.wp debts .settled fun st _ => st = .settled) :
      (q.bind fun a => .ret (f a)).wp debts .settled fun st _ => st = .settled := by
    refine (wp_bind ..).mpr (wp_mono ?_ hq)
    intro st r hst
    cases r <;> exact hst
  cases t with
  | createJob input =>
    cases h
    exact hbind _ (debts_createJob S input)
  | updateJob id data =>
    cases h
    exact hbind _ (debts_updateJob S id data)
  | setPaused id paused =>
    cases h
    exact hbind _ (debts_updateJob S id _)
  | deleteJob id =>
    cases h
    exact hbind _ (debts_deleteJob id)
  | bulkSetEnabled ids enabled =>
    cases h
    exact hbind _ (debts_bulkSetEnabled ids enabled)
  | _ => exact ht.elim

/-! ## Coherence -/

/-- The fields a worker uses agree. -/
def SameConfig (a b : Job) : Prop :=
  a.id = b.id ∧ a.name = b.name ∧ a.callbackUrl = b.callbackUrl ∧
    a.callbackTimeoutMs = b.callbackTimeoutMs ∧ a.enabled = b.enabled

instance (a b : Job) : Decidable (SameConfig a b) := inferInstanceAs (Decidable (_ ∧ _))

/-- The job is what its row says. -/
def Current (w : World) (job : Job) : Prop :=
  ∃ row, w.db.job? job.id = some row ∧ SameConfig job row

instance (w : World) (job : Job) : Decidable (Current w job) :=
  match h : w.db.job? job.id with
  | none => isFalse fun ⟨_, hrow, _⟩ => by cases h.symm.trans hrow
  | some row =>
      if hs : SameConfig job row then isTrue ⟨row, h, hs⟩
      else isFalse fun ⟨row', hrow, hs'⟩ => by
        cases h.symm.trans hrow
        exact hs hs'

/-- Every entry is a job as its row says, so that there is none without a row. -/
def CacheCoherent (w : World) : Prop :=
  ∀ j entry, w.redis (jobConfigKey j) = some entry →
    ∃ job, entry.value = .job job ∧ job.id = j ∧ Current w job

/-- What the worker makes of a looked up job: its callback, if it calls back at all. -/
def callbackOf : Option Job → Option (JobId × String × String × Nat)
  | some job =>
      if job.enabled then some (job.id, job.name, job.callbackUrl, job.callbackTimeoutMs) else none
  | none => none

/-- `lookupJob` in a world that stays as it is. -/
def cacheFirst (w : World) (j : JobId) : Option Job :=
  match w.redis.get (jobConfigKey j) with
  | some (.job job) => some job
  | _ => w.db.job? j

theorem CacheCoherent.callbackOf_eq {w : World} (h : CacheCoherent w) (j : JobId) :
    callbackOf (cacheFirst w j) = callbackOf (w.db.job? j) := by
  unfold cacheFirst
  split
  · rename_i job hjob
    obtain ⟨entry, hentry, hvalue⟩ := Option.map_eq_some_iff.mp hjob
    obtain ⟨job', hjob', rfl, row, hrow, hsame⟩ := h j entry hentry
    cases hjob'.symm.trans hvalue
    obtain ⟨hid, hname, hurl, htimeout, henabled⟩ := hsame
    rw [hrow]
    simp only [callbackOf, hid, hname, hurl, htimeout, henabled]
  · rfl

/-- The requests run alone and none of their calls fails. -/
def requestsOnly : SystemEvent → Prop
  | .begin t => t.isRequest
  | .resume _ (.answered _) => True
  | .outside (.expire _) => True
  | _ => False

def debtAt (tr : List TraceEntry) (i : Nat) : Debt := debts.stateAt i .settled tr

/-- Thread `i` still has to delete the entry of `j` or to store the current row in it. -/
def Repairs (s : SystemState) (i : Nat) (j : JobId) : Prop :=
  s.Alive i ∧ (j ∈ (debtAt s.trace i).deletions ∨
    ∃ job ∈ (debtAt s.trace i).row, job.id = j ∧ Current s.world job)

instance (s : SystemState) (i : Nat) (j : JobId) : Decidable (Repairs s i j) :=
  inferInstanceAs (Decidable (_ ∧ (_ ∨ _)))

/-- A row that is no longer current is cached only while another request repairs the entry. -/
def cachesCurrent (s : SystemState) : SystemEvent → Prop
  | .resume i (.answered _) =>
      match s.awaiting i with
      | some (.redisSet _ (.job job) _) =>
          Current s.world job ∨ ∃ i' < s.threads.length, i' ≠ i ∧ Repairs s i' job.id
      | _ => True
  | _ => True

instance (e : SystemEvent) : Decidable (requestsOnly e) := by
  unfold requestsOnly Task.isRequest
  split
  · split <;> infer_instance
  all_goals infer_instance

instance (s : SystemState) (e : SystemEvent) : Decidable (cachesCurrent s e) := by
  induction e using Async.Event.casesOn with
  | resume i o =>
    induction o using Async.Outcome.casesOn with
    | answered a =>
      dsimp only [cachesCurrent]
      generalize s.awaiting i = c
      induction c using Option.casesOn with
      | none => exact instDecidableTrue
      | some c =>
        induction c using Call.casesOn with
        | redisSet key value ttl =>
          induction value using RedisValue.casesOn <;> dsimp only <;> infer_instance
        | _ => exact instDecidableTrue
    | _ => exact instDecidableTrue
  | _ => exact instDecidableTrue

/-- The entry of `j` is absent, current or about to be repaired. -/
def EntryKept (s : SystemState) (j : JobId) : Prop :=
  ∀ entry, s.world.redis (jobConfigKey j) = some entry →
    ∃ job, entry.value = .job job ∧ job.id = j ∧ (Current s.world job ∨ ∃ i, Repairs s i j)

section Steps

variable {S : Setup} {w₀ : World} {s s' : SystemState} {j : JobId}

abbrev RequestRun (S : Setup) (w₀ : World) (s : SystemState) : Prop :=
  (system S).Run (fun _ e => requestsOnly e) (.fresh w₀) s

theorem debts_live (hr : RequestRun S w₀ s) {i : Nat} {tag : Task} {p : Promise Response}
    (hi : s.Live i tag p) : p.wp debts (debtAt s.trace i) fun st _ => st = .settled := by
  refine hr.monitored_ok debts (fun _ => .settled) (fun _ st _ => st = .settled) ?_ ?_ hi
  · exact fun s t w p ht h => debts_begin ht h
  · intro s i tag op k o _ hok _
    cases o with
    | answered x =>
      cases op with
      | redisDel key => exact rfl
      | redisSet key value n =>
        intro hn
        subst hn
        rfl
      | _ => trivial
    | rejected e => exact hok.elim
    | lost x e => exact hok.elim

theorem Current.frame {w w' : World} {job : Job} (h : Current w job)
    (hdb : w'.db.job? job.id = w.db.job? job.id) : Current w' job := by
  obtain ⟨row, hrow, hsame⟩ := h
  exact ⟨row, hdb.trans hrow, hsame⟩

theorem Repairs.frame {i : Nat} (h : Repairs s i j) (halive : s'.Alive i)
    (hdebt : debtAt s'.trace i = debtAt s.trace i)
    (hdb : s'.world.db.job? j = s.world.db.job? j) : Repairs s' i j := by
  refine ⟨halive, ?_⟩
  rw [hdebt]
  rcases h.2 with hdel | ⟨job, hrow, hid, hcurrent⟩
  · exact Or.inl hdel
  · exact Or.inr ⟨job, hrow, hid, hcurrent.frame (by rw [hid]; exact hdb)⟩

/-- The others go on repairing what they repair. -/
theorem Repairs.step_other {i : Nat} (h : Repairs s i j) {e : SystemEvent}
    (hs : (system S).Step s e s') (hresume : ∀ o, e ≠ .resume i o) (hstop : e ≠ .stop i)
    (hdb : s'.world.db.job? j = s.world.db.job? j) : Repairs s' i j := by
  obtain ⟨tag, p, hi⟩ := h.1
  rcases hs.live debts hi .settled with ⟨hi', hdebt⟩ | ⟨_, _, o, _, he, _⟩ | ⟨_, _, _, he⟩
  · exact h.frame ⟨tag, p, hi'⟩ hdebt hdb
  · exact absurd he (hresume o)
  · exact absurd he hstop

/-- An entry that the step leaves alone stays kept, as does its repair. -/
theorem EntryKept.frame (h : EntryKept s j)
    (hredis : s'.world.redis (jobConfigKey j) = s.world.redis (jobConfigKey j))
    (hdb : s'.world.db.job? j = s.world.db.job? j)
    (hrepairs : ∀ i, Repairs s i j → Repairs s' i j) : EntryKept s' j := by
  intro entry hentry
  obtain ⟨job, hvalue, hid, hcurrent⟩ := h entry (hredis ▸ hentry)
  refine ⟨job, hvalue, hid, ?_⟩
  rcases hcurrent with hcurrent | ⟨i, hi⟩
  · exact Or.inl (hcurrent.frame (by rw [hid]; exact hdb))
  · exact Or.inr ⟨i, hrepairs i hi⟩

section Answered

variable {i : Nat} {tag : Task} {c : Call} {k : Except Failure c.Reply → Promise Response}
  {x : Choice}

theorem debtAt_answered : debtAt ((system S).resumed s i tag c k (.answered x)).trace i =
    (debtAt s.trace i).next c (World.exec c x s.world).2 := by
  simp [debtAt, resumed, Monitor.observe, debts]
  rfl

theorem answered_db :
    ((system S).resumed s i tag c k (.answered x)).world.db = (World.exec c x s.world).1.db :=
  resumed_db ..

theorem answered_redis :
    ((system S).resumed s i tag c k (.answered x)).world.redis =
      (World.exec c x s.world).1.redis :=
  resumed_redis ..

/-- The thread itself goes on repairing an entry that its call is not about. -/
theorem Repairs.step_own (hi : s.Live i tag (.await c k))
    (hperm : (debtAt s.trace i).permits c) (h : Repairs s i j)
    (hdel : c ≠ .redisDel (jobConfigKey j)) (hset : ∀ v n, c ≠ .redisSet (jobConfigKey j) v n)
    (hdb : (World.exec c x s.world).1.db.job? j = s.world.db.job? j) :
    Repairs ((system S).resumed s i tag c k (.answered x)) i j := by
  have halive : ((system S).resumed s i tag c k (.answered x)).Alive i :=
    ⟨tag, _, live_resumed_self hi⟩
  have hdb' : ((system S).resumed s i tag c k (.answered x)).world.db.job? j =
      s.world.db.job? j := by rw [answered_db, hdb]
  have hsettled : debtAt s.trace i ≠ .settled := by
    intro hsettled
    rcases h.2 with hmem | ⟨job, hrow, _⟩
    · rw [hsettled] at hmem
      cases hmem
    · rw [hsettled] at hrow
      cases hrow
  cases c with
  | jobCreate data => exact absurd hperm hsettled
  | jobUpdate id data => exact absurd hperm hsettled
  | jobDelete id => exact absurd hperm hsettled
  | jobUpdateMany ids enabled => exact absurd hperm hsettled
  | redisDel key =>
    obtain ⟨j', hhead, rfl⟩ := hperm
    have hne : j ≠ j' := fun hj => hdel (by rw [hj])
    refine ⟨halive, ?_⟩
    rw [debtAt_answered]
    rcases h.2 with hmem | ⟨job, hrow, hid, hcurrent⟩
    · refine Or.inl ?_
      obtain ⟨rest, hrest⟩ := List.head?_eq_some_iff.mp hhead
      rw [hrest] at hmem
      simp only [Debt.next, hrest, List.tail_cons]
      exact (List.mem_cons.mp hmem).resolve_left hne
    · exact Or.inr ⟨job, hrow, hid, hcurrent.frame (by rw [hid]; exact hdb')⟩
  | redisSet key v n =>
    obtain ⟨_, hnil, job, hrow, rfl, _⟩ := hperm
    rcases h.2 with hmem | ⟨job', hrow', hid, _⟩
    · rw [hnil] at hmem
      cases hmem
    · cases hrow.symm.trans hrow'
      exact absurd (by rw [hid]) (hset v n)
  | jobFindUnique id => exact h.frame halive debtAt_answered hdb'
  | dnsLookup hostname => exact h.frame halive debtAt_answered hdb'
  | _ => exact hperm.elim

/-- A thread that has written the row repairs its entry; one that could not has changed
nothing. -/
theorem repairs_of_writes (hi : s.Live i tag (.await c k)) (hw : World.writesJob c x j) :
    Repairs ((system S).resumed s i tag c k (.answered x)) i j ∨
      ((World.exec c x s.world).1 = s.world ∧
        debtAt ((system S).resumed s i tag c k (.answered x)).trace i = debtAt s.trace i) := by
  have halive : ((system S).resumed s i tag c k (.answered x)).Alive i :=
    ⟨tag, _, live_resumed_self hi⟩
  rw [debtAt_answered]
  unfold Repairs
  rw [debtAt_answered]
  cases c with
  | jobCreate data =>
    cases hr : (s.world.db.jobCreate x.jobId data).2 with
    | error e =>
      simp only [World.exec, World.withDb, hr, Postgres.jobCreate_error hr]
      exact Or.inr ⟨trivial, rfl⟩
    | ok row =>
      obtain ⟨_, hrow, hjobs⟩ := Postgres.jobCreate_ok hr
      have hid : row.id = j := by
        rw [hrow]
        exact hw
      refine Or.inl ⟨halive, Or.inr ⟨row, ?_, hid, row, ?_, rfl, rfl, rfl, rfl, rfl⟩⟩
      · simp only [World.exec, World.withDb, hr]
        rfl
      · refine Postgres.job?_eq_some.mpr ⟨?_, rfl⟩
        rw [answered_db]
        simp only [World.exec, World.withDb, hjobs]
        exact List.mem_append_right _ (List.mem_singleton.mpr rfl)
  | jobUpdate id data =>
    cases hw
    cases hr : (s.world.db.jobUpdate j data).2 with
    | error e =>
      simp only [World.exec, World.withDb, hr, Postgres.jobUpdate_error hr]
      exact Or.inr ⟨trivial, rfl⟩
    | ok row =>
      simp only [World.exec, World.withDb, hr]
      exact Or.inl ⟨halive, Or.inl (List.mem_singleton.mpr rfl)⟩
  | jobDelete id =>
    cases hw
    cases hr : (s.world.db.jobDelete j).2 with
    | error e =>
      simp only [World.exec, World.withDb, hr, Postgres.jobDelete_error hr]
      exact Or.inr ⟨trivial, rfl⟩
    | ok _ =>
      simp only [World.exec, World.withDb, hr]
      exact Or.inl ⟨halive, Or.inl (List.mem_singleton.mpr rfl)⟩
  | jobUpdateMany ids enabled => exact Or.inl ⟨halive, Or.inl hw⟩
  | _ => exact hw.elim

/-- Calls other than DEL and SET of the entry leave it alone. -/
theorem exec_entry (hperm : (debtAt s.trace i).permits c)
    (hdel : c ≠ .redisDel (jobConfigKey j)) (hset : ∀ v n, c ≠ .redisSet (jobConfigKey j) v n) :
    (World.exec c x s.world).1.redis (jobConfigKey j) = s.world.redis (jobConfigKey j) := by
  cases c with
  | redisDel key => exact Function.update_of_ne (fun hkey => hdel (by rw [hkey])) _ _
  | redisSet key v n => exact Redis.setEx_other fun hkey => hset v n (by rw [hkey])
  | redisSetNx key v n => exact hperm.elim
  | redisRelease key token => exact hperm.elim
  | _ => rfl

/-- SET of the entry: the row is current, or somebody else repairs it. -/
theorem EntryKept.stored {n : Nat} {v : RedisValue}
    {k : Except Failure Unit → Promise Response}
    (hi : s.Live i tag (.await (.redisSet (jobConfigKey j) v n) k))
    (hperm : (debtAt s.trace i).permits (.redisSet (jobConfigKey j) v n))
    (hok : cachesCurrent s (.resume i (.answered x))) :
    EntryKept ((system S).resumed s i tag (.redisSet (jobConfigKey j) v n) k (.answered x)) j := by
  obtain ⟨rfl, _, job, _, hkey, rfl⟩ := hperm
  have hid : job.id = j := by
    injection hkey with hkey
    exact hkey.symm
  have hstored : ((system S).resumed s i tag (.redisSet (jobConfigKey j) (.job job) 3600) k
      (.answered x)).world.redis (jobConfigKey j) = some ⟨.job job, 3600⟩ := by
    rw [answered_redis]
    exact Function.update_self ..
  intro entry hentry
  cases hstored.symm.trans hentry
  refine ⟨job, rfl, hid, ?_⟩
  have hawait : s.Awaits i (.redisSet (jobConfigKey j) (.job job) 3600) := ⟨tag, k, hi⟩
  simp only [cachesCurrent, hawait.awaiting] at hok
  rcases hok with hcurrent | ⟨i', _, hne, hrep⟩
  · exact Or.inl (hcurrent.frame (by rw [answered_db]; rfl))
  · refine Or.inr ⟨i', ?_⟩
    rw [hid] at hrep
    refine hrep.step_other (.resume hi) (fun o he => ?_) (fun he => by cases he) ?_
    · cases he
      exact hne rfl
    · rw [answered_db]
      rfl

theorem EntryKept.answered (h : EntryKept s j) (hi : s.Live i tag (.await c k))
    (hperm : (debtAt s.trace i).permits c) (hok : cachesCurrent s (.resume i (.answered x))) :
    EntryKept ((system S).resumed s i tag c k (.answered x)) j := by
  have hs : (system S).Step s (.resume i (.answered x)) _ := .resume hi
  have hothers {i' : Nat} (hne : i' ≠ i) (hrep : Repairs s i' j)
      (hdb : (World.exec c x s.world).1.db.job? j = s.world.db.job? j) :
      Repairs ((system S).resumed s i tag c k (.answered x)) i' j := by
    refine hrep.step_other hs (fun o he => ?_) (fun he => by cases he) (by rw [answered_db, hdb])
    cases he
    exact hne rfl
  by_cases hw : World.writesJob c x j
  · have hredis := exec_entry (j := j) (x := x) hperm (fun hc => by subst hc; exact hw)
      (fun v n hc => by subst hc; exact hw)
    rcases repairs_of_writes hi hw with hrep | ⟨hworld, hdebt⟩
    · intro entry hentry
      rw [answered_redis, hredis] at hentry
      obtain ⟨job, hvalue, hid, _⟩ := h entry hentry
      exact ⟨job, hvalue, hid, Or.inr ⟨i, hrep⟩⟩
    · have hdb : (World.exec c x s.world).1.db.job? j = s.world.db.job? j := by rw [hworld]
      refine h.frame (by rw [answered_redis, hredis]) (by rw [answered_db, hdb]) fun i' hrep => ?_
      by_cases hne : i' = i
      · subst hne
        exact hrep.frame ⟨tag, _, live_resumed_self hi⟩ hdebt (by rw [answered_db, hdb])
      · exact hothers hne hrep hdb
  · have hdb := World.exec_job? (w := s.world) hw
    by_cases hdel : c = .redisDel (jobConfigKey j)
    · subst hdel
      intro entry hentry
      rw [answered_redis] at hentry
      simp [World.exec, World.withRedis, Redis.del] at hentry
    by_cases hset : ∃ v n, c = .redisSet (jobConfigKey j) v n
    · obtain ⟨v, n, rfl⟩ := hset
      exact .stored hi hperm hok
    · have hset' : ∀ v n, c ≠ .redisSet (jobConfigKey j) v n := fun v n hc => hset ⟨v, n, hc⟩
      refine h.frame ?_ (by rw [answered_db, hdb]) fun i' hrep => ?_
      · rw [answered_redis]
        exact exec_entry hperm hdel hset'
      · by_cases hne : i' = i
        · subst hne
          exact hrep.step_own hi hperm hdel hset' hdb
        · exact hothers hne hrep hdb

end Answered

theorem entryKept_step (hr : RequestRun S w₀ s) (h : EntryKept s j) {e : SystemEvent}
    (hreq : requestsOnly e) (hok : cachesCurrent s e) (hs : (system S).Step s e s') :
    EntryKept s' j := by
  have hothers (hdb : s'.world.db.job? j = s.world.db.job? j) (hresume : ∀ i o, e ≠ .resume i o)
      (hstop : ∀ i, e ≠ .stop i) (i : Nat) (hrep : Repairs s i j) : Repairs s' i j :=
    hrep.step_other hs (hresume i) (hstop i) hdb
  cases hs with
  | @begin t w p hstart =>
    obtain ⟨hdb, hredis, _⟩ := start_stores hstart
    have hdb' : ((system S).spawned s t w p).world.db.job? j = s.world.db.job? j := by
      rw [spawned_db, hdb]
    refine h.frame (by rw [spawned_redis, hredis]) hdb' (hothers hdb' ?_ ?_)
    · intro i o he
      cases he
    · intro i he
      cases he
  | @resume i tag c k o hi =>
    cases o with
    | answered x => exact h.answered hi (debts_live hr hi).1 hok
    | rejected e => exact hreq.elim
    | lost x e => exact hreq.elim
  | stop hi => exact hreq.elim
  | @outside a w ha =>
    cases a with
    | expire key =>
      cases ha
      intro entry hentry
      have hold : s.world.redis (jobConfigKey j) = some entry :=
        (Redis.del_le fun hnone => by cases hnone.symm.trans hentry).symm.trans hentry
      obtain ⟨job, hvalue, hid, hcurrent⟩ := h entry hold
      refine ⟨job, hvalue, hid, ?_⟩
      rcases hcurrent with hcurrent | ⟨i, hrep⟩
      · exact Or.inl hcurrent
      · refine Or.inr ⟨i, hothers rfl ?_ ?_ i hrep⟩
        · intro i o he
          cases he
        · intro i he
          cases he
    | stall m => exact hreq.elim

end Steps

theorem not_repairs_of_quiet {S : Setup} {w₀ : World} {s : SystemState}
    (hr : RequestRun S w₀ s) (hquiet : s.Quiet) {i : Nat} {j : JobId} : ¬ Repairs s i j := by
  intro hrep
  obtain ⟨tag, p, hi⟩ := hrep.1
  have hsettled : debtAt s.trace i = .settled := by
    have hwp := debts_live hr hi
    cases p with
    | ret r => exact hwp
    | fail e => exact hwp
    | await c k => exact absurd ⟨tag, k, hi⟩ (hquiet.not_awaits i c)
    | sync l k => exact (hr.settled hi).elim
  rcases hrep.2 with hmem | ⟨job, hrow, _⟩
  · rw [hsettled] at hmem
    cases hmem
  · rw [hsettled] at hrow
    cases hrow

/-- Where stale rows are cached only while another request repairs the entry, the cache is
coherent whenever no request is in flight. -/
theorem cache_coherent_when_quiet {S : Setup} {jobs : List Job}
    {hjobs : (jobs.map (·.id)).Nodup} {clock : Nat → Int} {s : SystemState}
    (h : (system S).Run (fun s e => requestsOnly e ∧ cachesCurrent s e)
      (.fresh (.initial jobs hjobs clock)) s) (hquiet : s.Quiet) :
    CacheCoherent s.world ∧
      ∀ j, callbackOf (cacheFirst s.world j) = callbackOf (s.world.db.job? j) := by
  have hr : RequestRun S (.initial jobs hjobs clock) s := h.mono fun _ _ hok => hok.1
  have hkept : ∀ j, EntryKept s j := by
    refine h.keeps (I := fun s => ∀ j, EntryKept s j) ?_ ?_
    · intro j entry hentry
      cases hentry
    · intro s e s' hr ih hok hs j
      exact entryKept_step (hr.mono fun _ _ hok => hok.1) (ih j) hok.1 hok.2 hs
  have hcoherent : CacheCoherent s.world := by
    intro j entry hentry
    obtain ⟨job, hvalue, hid, hcurrent⟩ := hkept j entry hentry
    refine ⟨job, hvalue, hid, hcurrent.resolve_right ?_⟩
    intro hrep
    obtain ⟨i, hrep⟩ := hrep
    exact not_repairs_of_quiet hr hquiet hrep
  exact ⟨hcoherent, hcoherent.callbackOf_eq⟩

/-- Two requests rename the job. Both have written the table, the first before the second,
and have deleted the entry. -/
def renames : List SystemEvent :=
  [.begin (.updateJob "job-1" { name := some "first" }),
    .begin (.updateJob "job-1" { name := some "second" }), Sample.answered 0, Sample.answered 1,
    Sample.answered 0, Sample.answered 1]

def renamed (name : String) : Job := { Sample.job with name := name }

/-- The older row is cached first, while the second request still has to store its own. -/
theorem cache_coherent_when_quiet_renamed : ∃ s,
    (system Sample.setup).run (.fresh Sample.world)
        (renames ++ [Sample.answered 0, Sample.answered 1]) = some s ∧
      s.world.redis.get (jobConfigKey "job-1") = some (.job (renamed "second")) ∧
      CacheCoherent s.world ∧
      ∀ j, callbackOf (cacheFirst s.world j) = callbackOf (s.world.db.job? j) := by
  have hrun : ((system Sample.setup).runChecked (fun s e => requestsOnly e ∧ cachesCurrent s e)
      (.fresh Sample.world) (renames ++ [Sample.answered 0, Sample.answered 1])).map
      (fun s => decide (s.Quiet ∧
        s.world.redis.get (jobConfigKey "job-1") = some (.job (renamed "second")))) =
      some true := by decide +kernel
  obtain ⟨s, hs, hsum⟩ := Option.map_eq_some_iff.mp hrun
  obtain ⟨hquiet, hget⟩ := of_decide_eq_true hsum
  exact ⟨s, run_of_runChecked hs, hget, cache_coherent_when_quiet (.of_runChecked hs) hquiet⟩

/-- The requests cache their rows in the opposite order. -/
theorem overtaken_rename_stays_cached : ∃ s,
    RequestRun Sample.setup Sample.world s ∧ s.Quiet ∧ ¬ CacheCoherent s.world := by
  have hrun : ((system Sample.setup).runChecked (fun _ e => requestsOnly e)
      (.fresh Sample.world) (renames ++ [Sample.answered 1, Sample.answered 0])).map
      (fun s => decide (s.Quiet ∧
        s.world.redis (jobConfigKey "job-1") = some ⟨.job (renamed "first"), 3600⟩ ∧
        ¬ Current s.world (renamed "first"))) = some true := by decide +kernel
  obtain ⟨s, hs, hsum⟩ := Option.map_eq_some_iff.mp hrun
  obtain ⟨hquiet, hentry, hstale⟩ := of_decide_eq_true hsum
  refine ⟨s, .of_runChecked hs, hquiet, fun h => hstale ?_⟩
  obtain ⟨job, hvalue, _, hcurrent⟩ := h "job-1" _ hentry
  cases hvalue
  exact hcurrent

end CronHive
