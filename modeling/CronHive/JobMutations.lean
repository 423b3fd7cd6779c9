import CronHive.UrlCheck

/-!
# What a failed mutation leaves behind

`updateJob` and `deleteJob` report any failure after their checks as "no such job", the API answers
404, and the statement may have been committed all the same. A request runs here on its own, with
every way its calls may come out.
-/

namespace CronHive

set_option autoImplicit false

open Async Async.Prog Async.Machine

/-- Prisma sets `updatedAt` of each row a statement writes; a row's n-th write sets it to `n`. For
an update without fields it issues no statement. -/
def stamp : (c : Call) → Except Failure c.Reply → (JobId → Nat) → JobId → Nat
  | .jobUpdate id data, .ok _, stamps =>
      if data = {} then stamps else Function.update stamps id (stamps id + 1)
  | .jobUpdateMany ids _, .ok _, stamps => fun id => if id ∈ ids then stamps id + 1 else stamps id
  | _, _, stamps => stamps

abbrev stamped (S : Setup) :=
  (system S).recorded stamp

/-- A request that runs on its own and returns `a` leaves the Job table as it was. -/
def UnchangedOn {α : Type} (S : Setup) (os : Call → Outcome Choice Failure) (w : World)
    (p : Promise α) (a : α) : Prop :=
  ((system S).solo os p w).2 = .ok a → ((system S).solo os p w).1.db.jobs = w.db.jobs ∧
    ∀ stamps, ((stamped S).solo os p (w, stamps)).1.2 = stamps

def Answers (os : Call → Outcome Choice Failure) (c : Call) : Prop := ∃ x, os c = .answered x

def Rejects (os : Call → Outcome Choice Failure) (c : Call) : Prop := ∃ e, os c = .rejected e

/-- The expression and the timezone of the update, completed from the row, are valid. -/
def CronPasses (S : Setup) (os : Call → Outcome Choice Failure) (w : World) (id : JobId)
    (data : UpdateJobInput) : Prop :=
  data.cronExpression.isSome ∨ data.timezone.isSome →
    Answers os (.jobFindUnique id) ∧ ∃ row ∈ w.db.job? id,
      S.platform.cronParses (data.cronExpression.getD row.cronExpression)
        (timezoneOrUTC (data.timezone.getD row.timezone)) = true

/-- The callback URL of the update is one the guard accepts. -/
def UrlPasses (S : Setup) (os : Call → Outcome Choice Failure) (data : UpdateJobInput) : Prop :=
  ∀ rawUrl ∈ data.callbackUrl, ∃ url ∈ S.platform.parseUrl rawUrl,
    (url.protocol = "http:" ∨ url.protocol = "https:") ∧
      (S.env.allowPrivateCallbacks = false → ∃ x, os (.dnsLookup url.hostname) = .answered x ∧
        x.addresses ≠ [] ∧ ∀ a ∈ x.addresses, isPrivateAddress a = false)

section Updates

variable (S : Setup) (os : Call → Outcome Choice Failure) (W : World × (JobId → Nat)) (id : JobId)
  (data : UpdateJobInput)

theorem solo_checkCronUpdate : ∃ r, (stamped S).solo os (checkCronUpdate S id data) W = (W, r) ∧
    (r = .ok true ↔ CronPasses S os W.1 id data) := by
  unfold checkCronUpdate CronPasses
  by_cases hcron : data.cronExpression.isSome ∨ data.timezone.isSome
  · have hcron' : (data.cronExpression.isSome || data.timezone.isSome) = true := by
      simpa using hcron
    simp only [if_pos hcron', hcron, true_imp_iff, await, bind_eq, pure_eq, solo_bind, solo_perform]
    cases hos : os (.jobFindUnique id) with
    | answered x =>
      cases hrow : W.1.db.job? id with
      | none =>
        refine ⟨.ok false, ?_, by simp⟩
        simp [attend, recorded, system, World.exec, stamp, hrow]
      | some row =>
        by_cases hparses : S.platform.cronParses (data.cronExpression.getD row.cronExpression)
            (timezoneOrUTC (data.timezone.getD row.timezone)) = true
        · refine ⟨.ok true, ?_, by simp [hparses, Answers, hos]⟩
          simp [attend, recorded, system, World.exec, stamp, hrow, assertValidCron, hparses]
        · refine ⟨.error .invalidCron, ?_, by simp [hparses]⟩
          simp [attend, recorded, system, World.exec, stamp, hrow, assertValidCron, hparses]
    | rejected e => exact ⟨.error e, rfl, by simp [Answers, hos]⟩
    | lost x e => exact ⟨.error e, rfl, by simp [Answers, hos]⟩
  · have hcron' : ¬ (data.cronExpression.isSome || data.timezone.isSome) = true := by
      simpa using hcron
    rw [if_neg hcron']
    exact ⟨.ok true, rfl, by simp [hcron]⟩

theorem solo_ensureSafeUpdate : ∃ r, (stamped S).solo os (ensureSafeUpdate S data) W = (W, r) ∧
    (r = .ok () ↔ UrlPasses S os data) := by
  unfold ensureSafeUpdate UrlPasses
  cases data.callbackUrl with
  | none => exact ⟨.ok (), rfl, by simp⟩
  | some rawUrl =>
    obtain ⟨result, hsolo, hok⟩ := solo_assertSafeCallbackUrl (stamped S) (fun _ _ _ => rfl) os
      S.platform rawUrl S.env.allowPrivateCallbacks W
    simp only [Option.mem_some_iff, forall_eq', ensureSafeCallback, bind_eq, pure_eq, throw_eq,
      solo_bind, hsolo]
    rw [← hok]
    by_cases hresult : result.ok = true
    · rw [if_pos hresult]
      exact ⟨.ok (), rfl, by simp [hresult]⟩
    · rw [if_neg hresult]
      exact ⟨_, rfl, by simp [hresult]⟩

def commitUpdate (id : JobId) (data : UpdateJobInput) : Promise (Option Job) := do
  try
    let job ← await (.jobUpdate id { data with })
    invalidateJobConfig id
    cacheJobConfig job
    pure (some job)
  catch _ => pure none

/-- The update has no fields, is not executed, finds no row, or is answered together with both
commands. -/
def CommitReported (os : Call → Outcome Choice Failure) (w : World) (id : JobId)
    (data : UpdateJobInput) : Prop :=
  data = {} ∨ Rejects os (.jobUpdate id { data with }) ∨ ∀ row ∈ w.db.job? id,
    Answers os (.jobUpdate id { data with }) ∧ Answers os (.redisDel (jobConfigKey id)) ∧
      Answers os (.redisSet (jobConfigKey id) (.job (JobUpdate.apply { data with } row)) 3600)

theorem solo_redis (c : Call) (hdb : ∀ x w, (World.exec c x w).1.db = w.db)
    (hstamp : ∀ r stamps, stamp c r stamps = stamps)
    (hok : ∀ x w, ∃ a, (World.exec c x w).2 = .ok a) :
    ∃ W' r, (stamped S).solo os (await c) W = (W', r) ∧ W'.1.db = W.1.db ∧ W'.2 = W.2 ∧
      ((∃ a, r = .ok a) ↔ Answers os c) := by
  refine ⟨_, _, solo_perform .., ?_⟩
  cases hos : os c with
  | answered x => exact ⟨hdb x W.1, hstamp _ _, iff_of_true (hok x W.1) ⟨x, hos⟩⟩
  | rejected e => exact ⟨rfl, rfl, by simp [attend, Answers, hos]⟩
  | lost x e => exact ⟨hdb x W.1, hstamp _ _, by simp [attend, Answers, hos]⟩

theorem solo_invalidateJobConfig : ∃ W' r,
    (stamped S).solo os (invalidateJobConfig id) W = (W', r) ∧ W'.1.db = W.1.db ∧ W'.2 = W.2 ∧
      ((∃ a, r = .ok a) ↔ Answers os (.redisDel (jobConfigKey id))) :=
  solo_redis S os W (.redisDel (jobConfigKey id)) (fun _ _ => rfl) (fun _ _ => rfl)
    fun _ _ => ⟨(), rfl⟩

theorem solo_cacheJobConfig (job : Job) : ∃ W' r,
    (stamped S).solo os (cacheJobConfig job) W = (W', r) ∧ W'.1.db = W.1.db ∧ W'.2 = W.2 ∧
      ((∃ a, r = .ok a) ↔ Answers os (.redisSet (jobConfigKey job.id) (.job job) 3600)) :=
  solo_redis S os W (.redisSet (jobConfigKey job.id) (.job job) 3600) (fun _ _ => rfl)
    (fun _ _ => rfl) fun _ _ => ⟨(), rfl⟩

theorem attend_idle (c : Call) (hstamp : ∀ e stamps, stamp c (.error e) stamps = stamps)
    (h : Rejects os c ∨ ∃ e, ∀ x, World.exec c x W.1 = (W.1, .error e)) :
    ∃ e, ((stamped S).attend c (os c) W).1 = W ∧
      ((stamped S).attend c (os c) W).2.2 = .error e := by
  rcases h with ⟨e, he⟩ | ⟨e, hexec⟩
  · rw [he]
    exact ⟨e, rfl, rfl⟩
  · cases os c with
    | answered x => exact ⟨e, by simp [attend, recorded, system, hexec, hstamp]⟩
    | rejected e' => exact ⟨e', rfl, rfl⟩
    | lost x e' => exact ⟨e', by simp [attend, recorded, system, hexec, hstamp]⟩

theorem commitUpdate_idle (h : Rejects os (.jobUpdate id { data with }) ∨ W.1.db.job? id = none) :
    (stamped S).solo os (commitUpdate id data) W = (W, .ok none) := by
  obtain ⟨e, hworld, herror⟩ := attend_idle S os W (.jobUpdate id { data with }) (fun _ _ => rfl)
    (h.imp_right fun hnone => ⟨.p2025, fun x => by
      simp [World.exec, World.withDb, Postgres.jobUpdate, hnone]⟩)
  simp only [commitUpdate, await, bind_eq, pure_eq, tryCatch_eq, solo_bind, solo_tryCatch,
    solo_perform, hworld, herror, solo_ret]

/-- An update that is executed on a row stamps it unless it has no fields, and reports it if all
three calls are answered. -/
theorem commitUpdate_row {row : Job} (hrow : W.1.db.job? id = some row)
    (hexecuted : ¬ Rejects os (.jobUpdate id { data with })) :
    ∃ W' r, (stamped S).solo os (commitUpdate id data) W = (W', .ok r) ∧
      W'.1.db = (W.1.db.jobUpdate id { data with }).1 ∧
      W'.2 = stamp (.jobUpdate id { data with }) (.ok (JobUpdate.apply { data with } row)) W.2 ∧
      (r = none ↔ ¬ (Answers os (.jobUpdate id { data with }) ∧
        Answers os (.redisDel (jobConfigKey id)) ∧
        Answers os
          (.redisSet (jobConfigKey id) (.job (JobUpdate.apply { data with } row)) 3600))) := by
  have hid : row.id = id := (Postgres.job?_eq_some.mp hrow).2
  have hexec (x : Choice) : World.exec (.jobUpdate id { data with }) x W.1 =
      ({ W.1 with db := (W.1.db.jobUpdate id { data with }).1 },
        .ok (JobUpdate.apply { data with } row)) := by
    simp [World.exec, World.withDb, Postgres.jobUpdate, hrow]
  simp only [commitUpdate, await, bind_eq, pure_eq, tryCatch_eq, solo_bind, solo_tryCatch,
    solo_perform]
  cases hos : os (.jobUpdate id { data with }) with
  | rejected e => exact absurd ⟨e, hos⟩ hexecuted
  | lost x e =>
    refine ⟨_, none, rfl, ?_, ?_, iff_of_true rfl ?_⟩
    · simp [attend, recorded, system, hexec]
    · simp [attend, recorded, system, hexec]
    · rintro ⟨⟨y, hy⟩, _⟩
      cases hos.symm.trans hy
  | answered x =>
    have hattend : (stamped S).attend (.jobUpdate id { data with }) (.answered x) W =
        (({ W.1 with db := (W.1.db.jobUpdate id { data with }).1 },
          stamp (.jobUpdate id { data with }) (.ok (JobUpdate.apply { data with } row)) W.2),
            some (.ok (JobUpdate.apply { data with } row)),
              .ok (JobUpdate.apply { data with } row)) := by
      simp [attend, recorded, system, hexec]
    simp only [hattend]
    obtain ⟨W₁, r₁, hdel, hdb₁, hstamps₁, hok₁⟩ := solo_invalidateJobConfig S os
      ({ W.1 with db := (W.1.db.jobUpdate id { data with }).1 },
        stamp (.jobUpdate id { data with }) (.ok (JobUpdate.apply { data with } row)) W.2) id
    obtain ⟨W₂, r₂, hset, hdb₂, hstamps₂, hok₂⟩ := solo_cacheJobConfig S os W₁
      (JobUpdate.apply { data with } row)
    rw [JobUpdate.apply_id, hid] at hok₂
    simp only [hdel]
    cases r₁ with
    | error e =>
      refine ⟨W₁, none, rfl, hdb₁, hstamps₁, iff_of_true rfl ?_⟩
      rintro ⟨_, hanswered, _⟩
      cases (hok₁.mpr hanswered).choose_spec
    | ok u =>
      simp only [hset]
      cases r₂ with
      | error e =>
        refine ⟨W₂, none, rfl, hdb₂.trans hdb₁, hstamps₂.trans hstamps₁, iff_of_true rfl ?_⟩
        rintro ⟨_, _, hanswered⟩
        cases (hok₂.mpr hanswered).choose_spec
      | ok u' =>
        refine ⟨W₂, some _, rfl, hdb₂.trans hdb₁, hstamps₂.trans hstamps₁, iff_of_false ?_ ?_⟩
        · intro hnone
          cases hnone
        · exact fun h => h ⟨⟨x, hos⟩, hok₁.mp ⟨u, rfl⟩, hok₂.mp ⟨u', rfl⟩⟩

theorem commitUpdate_unchanged :
    (((stamped S).solo os (commitUpdate id data) W).2 = .ok none →
      ((stamped S).solo os (commitUpdate id data) W).1.1.db.jobs = W.1.db.jobs ∧
        ((stamped S).solo os (commitUpdate id data) W).1.2 = W.2) ↔
      CommitReported os W.1 id data := by
  unfold CommitReported
  by_cases hrejects : Rejects os (.jobUpdate id { data with })
  · rw [commitUpdate_idle S os W id data (Or.inl hrejects)]
    exact iff_of_true (fun _ => ⟨rfl, rfl⟩) (Or.inr (Or.inl hrejects))
  · cases hrow : W.1.db.job? id with
    | none =>
      rw [commitUpdate_idle S os W id data (Or.inr hrow)]
      refine iff_of_true (fun _ => ⟨rfl, rfl⟩) (Or.inr (Or.inr fun row hmem => ?_))
      cases hmem
    | some row =>
      obtain ⟨W', r, hsolo, hdb, hstamps, hnone⟩ :=
        commitUpdate_row S os W id data hrow hrejects
      by_cases hempty : data = {}
      · subst hempty
        refine iff_of_true (fun _ => ?_) (Or.inl rfl)
        rw [hsolo]
        exact ⟨(congrArg _ hdb).trans (Postgres.jobUpdate_empty W.1.db id), hstamps⟩
      · have hstamped : W'.2 ≠ W.2 := by
          intro heq
          have hid := congrFun (hstamps.symm.trans heq) id
          simp [stamp, hempty] at hid
        simp only [hsolo, Except.ok.injEq, hnone, hstamped, and_false, imp_false, not_not,
          hrejects, hempty, false_or, Option.mem_some_iff, forall_eq']

/-- The checks stop the update, or what it commits is reported. -/
def UpdateReported (S : Setup) (os : Call → Outcome Choice Failure) (w : World) (id : JobId)
    (data : UpdateJobInput) : Prop :=
  CronPasses S os w id data → UrlPasses S os data → CommitReported os w id data

theorem updateJob_unchanged :
    (((stamped S).solo os (updateJob S id data) W).2 = .ok none →
      ((stamped S).solo os (updateJob S id data) W).1.1.db.jobs = W.1.db.jobs ∧
        ((stamped S).solo os (updateJob S id data) W).1.2 = W.2) ↔
      UpdateReported S os W.1 id data := by
  obtain ⟨r, hcheck, hcron⟩ := solo_checkCronUpdate S os W id data
  obtain ⟨r', hensure, hurl⟩ := solo_ensureSafeUpdate S os W data
  unfold UpdateReported
  rw [← hcron, ← hurl, ← commitUpdate_unchanged S os W id data]
  simp only [updateJob, bind_eq, solo_bind, hcheck]
  cases r with
  | error e => simp
  | ok found =>
    cases found with
    | false => simp
    | true =>
      simp only [if_true, solo_bind, hensure]
      cases r' with
      | error e => simp
      | ok u => simp only [commitUpdate, bind_eq, forall_const]

/-- The row is not deleted, or its deletion is reported. -/
def DeleteReported (os : Call → Outcome Choice Failure) (w : World) (id : JobId) : Prop :=
  Rejects os (.jobDelete id) ∨ w.db.job? id = none ∨
    Answers os (.jobDelete id) ∧ Answers os (.redisDel (jobConfigKey id))

theorem deleteJob_idle (h : Rejects os (.jobDelete id) ∨ W.1.db.job? id = none) :
    (stamped S).solo os (deleteJob id) W = (W, .ok false) := by
  obtain ⟨e, hworld, herror⟩ := attend_idle S os W (.jobDelete id) (fun _ _ => rfl)
    (h.imp_right fun hnone => ⟨.p2025, fun x => by
      simp [World.exec, World.withDb, Postgres.jobDelete, hnone]⟩)
  simp only [deleteJob, await, bind_eq, pure_eq, tryCatch_eq, solo_bind, solo_tryCatch,
    solo_perform, hworld, herror, solo_ret]

theorem deleteJob_row {row : Job} (hrow : W.1.db.job? id = some row)
    (hexecuted : ¬ Rejects os (.jobDelete id)) :
    ∃ W' r, (stamped S).solo os (deleteJob id) W = (W', .ok r) ∧
      W'.1.db.jobs = W.1.db.jobs.filter (fun j => j.id ≠ id) ∧
      (r = false ↔ ¬ (Answers os (.jobDelete id) ∧ Answers os (.redisDel (jobConfigKey id)))) := by
  simp only [deleteJob, await, bind_eq, pure_eq, tryCatch_eq, solo_bind, solo_tryCatch,
    solo_perform]
  cases hos : os (.jobDelete id) with
  | rejected e => exact absurd ⟨e, hos⟩ hexecuted
  | lost x e =>
    refine ⟨_, false, rfl, ?_, iff_of_true rfl ?_⟩
    · simp [attend, recorded, system, World.exec, World.withDb, Postgres.jobDelete, hrow]
    · rintro ⟨⟨y, hy⟩, _⟩
      cases hos.symm.trans hy
  | answered x =>
    have hseen : ((stamped S).attend (.jobDelete id) (.answered x) W).2.2 = .ok () := by
      simp [attend, recorded, system, World.exec, World.withDb, Postgres.jobDelete, hrow]
    have hjobs : ((stamped S).attend (.jobDelete id) (.answered x) W).1.1.db.jobs =
        W.1.db.jobs.filter (fun j => j.id ≠ id) := by
      simp [attend, recorded, system, World.exec, World.withDb, Postgres.jobDelete, hrow]
    obtain ⟨W', r, hdel, hdb, _, hok⟩ := solo_invalidateJobConfig S os
      ((stamped S).attend (.jobDelete id) (.answered x) W).1 id
    simp only [hseen, hdel]
    cases r with
    | error e =>
      refine ⟨W', false, rfl, (congrArg _ hdb).trans hjobs, iff_of_true rfl ?_⟩
      rintro ⟨_, hanswered⟩
      cases (hok.mpr hanswered).choose_spec
    | ok u =>
      refine ⟨W', true, rfl, (congrArg _ hdb).trans hjobs, iff_of_false ?_ ?_⟩
      · intro hfalse
        cases hfalse
      · exact fun h => h ⟨⟨x, hos⟩, hok.mp ⟨u, rfl⟩⟩

theorem deleteJob_unchanged :
    (((stamped S).solo os (deleteJob id) W).2 = .ok false →
      ((stamped S).solo os (deleteJob id) W).1.1.db.jobs = W.1.db.jobs ∧
        ((stamped S).solo os (deleteJob id) W).1.2 = W.2) ↔
      DeleteReported os W.1 id := by
  unfold DeleteReported
  by_cases hrejects : Rejects os (.jobDelete id)
  · rw [deleteJob_idle S os W id (Or.inl hrejects)]
    exact iff_of_true (fun _ => ⟨rfl, rfl⟩) (Or.inl hrejects)
  · cases hrow : W.1.db.job? id with
    | none =>
      rw [deleteJob_idle S os W id (Or.inr hrow)]
      exact iff_of_true (fun _ => ⟨rfl, rfl⟩) (Or.inr (Or.inl rfl))
    | some row =>
      obtain ⟨W', r, hsolo, hjobs, hfalse⟩ := deleteJob_row S os W id hrow hrejects
      have hgone : W'.1.db.jobs ≠ W.1.db.jobs := by
        intro heq
        obtain ⟨hmem, hid⟩ := Postgres.job?_eq_some.mp hrow
        have hne := List.filter_eq_self.mp (hjobs.symm.trans heq) row hmem
        simp [hid] at hne
      simp only [hsolo, Except.ok.injEq, hfalse, hgone, false_and, imp_false, not_not, hrejects,
        reduceCtorEq, false_or]

end Updates

theorem unchangedOn_iff {α : Type} {S : Setup} {os : Call → Outcome Choice Failure} {w : World}
    {p : Promise α} {a : α} {q : Prop}
    (h : ∀ stamps, (((stamped S).solo os p (w, stamps)).2 = .ok a →
      ((stamped S).solo os p (w, stamps)).1.1.db.jobs = w.db.jobs ∧
        ((stamped S).solo os p (w, stamps)).1.2 = stamps) ↔ q) :
    UnchangedOn S os w p a ↔ q := by
  have hsame (stamps : JobId → Nat) := (system S).recorded_solo os stamp p (w, stamps)
  rw [← h fun _ => 0]
  unfold UnchangedOn
  constructor
  · intro hunchanged hreturn
    rw [(hsame _).2] at hreturn
    rw [(hsame _).1]
    exact ⟨(hunchanged hreturn).1, (hunchanged hreturn).2 _⟩
  · intro hzero hreturn
    have hq := (h fun _ => 0).mp hzero
    have hall (stamps : JobId → Nat) := (h stamps).mpr hq ((hsame stamps).2.trans hreturn)
    refine ⟨?_, fun stamps => (hall stamps).2⟩
    rw [← (hsame fun _ => 0).1]
    exact (hall fun _ => 0).1

/-- A mutation reported as "no such job" has changed nothing exactly if its statement has nothing
to set, has not been executed, or is answered together with the Redis commands after it. -/
theorem not_found_unchanged_iff (S : Setup) (os : Call → Outcome Choice Failure) (w : World)
    (id : JobId) :
    (∀ data, UnchangedOn S os w (updateJob S id data) none ↔ UpdateReported S os w id data) ∧
    (∀ paused, UnchangedOn S os w (setPaused S id paused) none ↔
      CommitReported os w id { paused := some paused }) ∧
    (UnchangedOn S os w (deleteJob id) false ↔ DeleteReported os w id) := by
  have hupdate (data : UpdateJobInput) :
      UnchangedOn S os w (updateJob S id data) none ↔ UpdateReported S os w id data :=
    unchangedOn_iff fun stamps => updateJob_unchanged S os (w, stamps) id data
  refine ⟨hupdate, fun paused => (hupdate { paused := some paused }).trans ?_, ?_⟩
  · simp [UpdateReported, CronPasses, UrlPasses]
  · exact unchangedOn_iff fun stamps => deleteJob_unchanged S os (w, stamps) id

/-- In the running system a request that is left alone ends as its function does on its own. -/
theorem updateJob_alone (S : Setup) (os : Call → Outcome Choice Failure) (s : SystemState)
    (id : JobId) (data : UpdateJobInput) :
    ∃ s₁ s', (system S).Step s (.begin (.updateJob id data)) s₁ ∧
      (system S).Run (alone os s.threads.length) s₁ s' ∧
      s'.world = ((system S).solo os (updateJob S id data) s.world).1 ∧
      (((system S).solo os (updateJob S id data) s.world).2 = .ok none →
        s'.Live s.threads.length (.updateJob id data) (.ret (.updated none))) := by
  have halone : ∃ s₁ s', (system S).Step s (.begin (.updateJob id data)) s₁ ∧
      (system S).Run (alone os s.threads.length) s₁ s' ∧
      s'.world = ((system S).solo os
        ((updateJob S id data).bind fun job => .ret (Response.updated job)) s.world).1 ∧
      s'.Live s.threads.length (.updateJob id data) (.done ((system S).solo os
        ((updateJob S id data).bind fun job => .ret (.updated job)) s.world).2) :=
    begun_alone rfl
  obtain ⟨s₁, s', hbegin, hrun, hworld, hlive⟩ := halone
  rw [solo_bind] at hworld hlive
  refine ⟨s₁, s', hbegin, hrun, ?_, ?_⟩
  · rw [hworld]
    rcases (system S).solo os (updateJob S id data) s.world with ⟨w, e | job⟩
    · rfl
    · rfl
  · intro hnone
    rcases hsolo : (system S).solo os (updateJob S id data) s.world with ⟨w, e | job⟩
    · rw [hsolo] at hnone
      cases hnone
    · rw [hsolo] at hnone hlive
      cases hnone
      exact hlive

def redisDown : Call → Outcome Choice Failure
  | .redisDel _ => .rejected (.store "Connection is closed.")
  | _ => .answered {}

/-- The API answers 404 for a job that it has paused, and for one that it has deleted. -/
theorem paused_but_not_found :
    (((system Sample.setup).solo redisDown (setPaused Sample.setup "job-1" true) Sample.world).2 =
        .ok none ∧
      ((system Sample.setup).solo redisDown (setPaused Sample.setup "job-1" true)
        Sample.world).1.db.jobs = [{ Sample.job with paused := true }]) ∧
    (((system Sample.setup).solo redisDown (deleteJob "job-1") Sample.world).2 = .ok false ∧
      ((system Sample.setup).solo redisDown (deleteJob "job-1") Sample.world).1.db.jobs = []) ∧
    ¬ ∀ (S : Setup) (os : Call → Outcome Choice Failure) (w : World) (id : JobId),
      (∀ data, UnchangedOn S os w (updateJob S id data) none) ∧
        (∀ paused, UnchangedOn S os w (setPaused S id paused) none) ∧
          UnchangedOn S os w (deleteJob id) false := by
  have hdeleted : ((system Sample.setup).solo redisDown (deleteJob "job-1") Sample.world).2 =
        .ok false ∧
      ((system Sample.setup).solo redisDown (deleteJob "job-1") Sample.world).1.db.jobs = [] := by
    decide +kernel
  refine ⟨by decide +kernel, hdeleted, fun h => ?_⟩
  have hunchanged := (h Sample.setup redisDown Sample.world "job-1").2.2 hdeleted.1
  cases hdeleted.2.symm.trans hunchanged.1

end CronHive
