import CronHive.Api
import CronHive.TickIsolation

/-!
# What the answers of the API say

An answer of success names what the request has done, acknowledged by the stores; an answer that
refuses the request means that it has changed nothing. For this the stores must not fail with the
error of the callback check, which is the service's own.
-/

namespace CronHive

set_option autoImplicit false

open Async Async.Prog Async.Machine Validation

/-- The error of the callback check, which no store raises. -/
def StoreReply {c : Call} (seen : Except Failure c.Reply) : Prop :=
  ∀ reason, seen ≠ .error (.unsafeCallbackUrl reason)

/-- Writes the calls of a request down. -/
def clerk : Monitor Call.Reply Failure CallLog where
  permits _ _ := True
  admits _ _ seen := StoreReply seen
  next calls op seen := calls ++ [⟨op, seen⟩]

/-- A call that has changed nothing: it reads, or it is a SET NX that was not granted. -/
inductive Harmless : Answer Call.Reply Failure → Prop where
  | read (id : JobId) (seen : Except Failure (Option Job)) : Harmless ⟨.jobFindUnique id, seen⟩
  | resolved (hostname : String) (seen : Except Failure (List String)) :
      Harmless ⟨.dnsLookup hostname, seen⟩
  | refused (key : RedisKey) (value : RedisValue) (seconds : Nat) :
      Harmless ⟨.redisSetNx key value seconds, .ok false⟩

def AllHarmless (calls : CallLog) : Prop := ∀ a ∈ calls, Harmless a

theorem allHarmless_nil : AllHarmless [] := by
  intro a ha
  cases ha

theorem AllHarmless.append {calls : CallLog} {a : Answer Call.Reply Failure}
    (h : AllHarmless calls) (ha : Harmless a) : AllHarmless (calls ++ [a]) := by
  intro b hb
  rcases List.mem_append.mp hb with hb | hb
  · exact h b hb
  · rw [List.mem_singleton.mp hb]
    exact ha

theorem harmless_of_ofCheck {c : Call} (h : c.ofCheck) (seen : Except Failure c.Reply) :
    Harmless ⟨c, seen⟩ := by
  cases c with
  | jobFindUnique id => exact .read id seen
  | dnsLookup hostname => exact .resolved hostname seen
  | _ => cases h

/-- The checks of a request change nothing. -/
theorem clerk_checks {α : Type} {p : Promise α} (hp : p.Only Call.ofCheck) {calls : CallLog}
    (h : AllHarmless calls) : p.wp clerk calls fun calls' _ => AllHarmless calls' := by
  induction p generalizing calls with
  | ret a => exact h
  | fail e => exact h
  | await c k ih =>
    exact ⟨trivial, fun r _ => ih r (hp.2 r) (h.append (harmless_of_ofCheck hp.1 r))⟩
  | sync l k ih => exact fun v => ih v (hp v) h

/-! ## What the services have done -/

structure CreatedBy (env : Env) (input : CreateJobInput) (job : Job) (calls : CallLog) : Prop where
  created : ⟨.jobCreate (input.data env), .ok job⟩ ∈ calls
  cached : ⟨.redisSet (jobConfigKey job.id) (.job job) 3600, .ok ()⟩ ∈ calls

structure UpdatedBy (id : JobId) (data : UpdateJobInput) (job : Job) (calls : CallLog) : Prop where
  updated : ⟨.jobUpdate id { data with }, .ok job⟩ ∈ calls
  invalidated : ⟨.redisDel (jobConfigKey id), .ok ()⟩ ∈ calls
  cached : ⟨.redisSet (jobConfigKey job.id) (.job job) 3600, .ok ()⟩ ∈ calls

structure DeletedBy (id : JobId) (calls : CallLog) : Prop where
  deleted : ⟨.jobDelete id, .ok ()⟩ ∈ calls
  invalidated : ⟨.redisDel (jobConfigKey id), .ok ()⟩ ∈ calls

structure SwitchedBy (ids : List JobId) (enabled : Bool) (count : Nat) (calls : CallLog) :
    Prop where
  switched : ⟨.jobUpdateMany ids enabled, .ok count⟩ ∈ calls
  invalidated : ∀ id ∈ ids, ⟨.redisDel (jobConfigKey id), .ok ()⟩ ∈ calls

/-- The manual lock was granted, the execution stored and its message queued, for the job as it
was found, enabled. -/
structure TriggeredBy (env : Env) (id : JobId) (job : Job) (x : Execution) (calls : CallLog) :
    Prop where
  found : ⟨.jobFindUnique id, .ok (some job)⟩ ∈ calls
  enabled : job.enabled = true
  locked : ∃ token, ⟨.redisSetNx (jobLockKey job.id .manual) (.token token)
    (computeJobLockTtlSeconds env job), .ok true⟩ ∈ calls
  stored : ⟨.executionCreate ⟨job.id, none, .manual⟩, .ok x⟩ ∈ calls
  queued : ⟨.queueAdd ⟨x.id, job.id, .manual⟩ (executionJobOptions job), .ok ()⟩ ∈ calls

/-- A failure of the callback check came before any change. -/
def UnsafeHarmless {α : Type} (calls : CallLog) (r : Except Failure α) : Prop :=
  ∀ reason, r = .error (.unsafeCallbackUrl reason) → AllHarmless calls

theorem unsafeHarmless_ok {α : Type} {calls : CallLog} {a : α} :
    UnsafeHarmless calls (.ok a : Except Failure α) := by
  intro reason h
  cases h

/-- What a store fails with is not the failure of the check. -/
theorem unsafeHarmless_store {α : Type} {calls : CallLog} {c : Call} {e : Failure}
    (h : StoreReply (.error e : Except Failure c.Reply)) :
    UnsafeHarmless calls (.error e : Except Failure α) := by
  intro reason heq
  cases heq
  exact absurd rfl (h reason)

section Services

variable (S : Setup)

theorem clerk_createJob (input : CreateJobInput) :
    (createJob S input).wp clerk [] fun calls r =>
      (∀ job, r = .ok job → CreatedBy S.env input job calls) ∧ UnsafeHarmless calls r := by
  unfold createJob
  rw [bind_eq, wp_bind]
  refine wp_mono ?_ (clerk_checks (only_assertValidCron S _ _) allHarmless_nil)
  intro calls r hcron
  cases r with
  | error e => exact ⟨fun _ h => (by cases h), fun _ _ => hcron⟩
  | ok u =>
    dsimp only
    rw [bind_eq, wp_bind]
    refine wp_mono ?_ (clerk_checks (only_ensureSafeCallback S _) hcron)
    intro calls r hurl
    cases r with
    | error e => exact ⟨fun _ h => (by cases h), fun _ _ => hurl⟩
    | ok u =>
      refine (wp_call_bind ..).mpr ⟨trivial, fun job _ => ?_, fun e he => ?_⟩
      · refine (wp_call_bind ..).mpr ⟨trivial, fun _ _ => ?_, fun e he => ?_⟩
        · refine ⟨fun job' h => ?_, unsafeHarmless_ok⟩
          cases h
          constructor
          · simp [clerk]
          · simp [clerk]
        · exact ⟨fun _ h => (by cases h), unsafeHarmless_store he⟩
      · exact ⟨fun _ h => (by cases h), unsafeHarmless_store he⟩

theorem clerk_updateJob (id : JobId) (data : UpdateJobInput) :
    (updateJob S id data).wp clerk [] fun calls r =>
      (∀ job, r = .ok (some job) → UpdatedBy id data job calls) ∧ UnsafeHarmless calls r := by
  unfold updateJob
  rw [bind_eq, wp_bind]
  refine wp_mono ?_ (clerk_checks (only_checkCronUpdate S id data) allHarmless_nil)
  intro calls r hcron
  rcases r with e | (_ | _)
  · exact ⟨fun _ h => (by cases h), fun _ _ => hcron⟩
  · exact ⟨fun _ h => (by cases h), unsafeHarmless_ok⟩
  · dsimp only
    rw [if_pos rfl, bind_eq, wp_bind]
    refine wp_mono ?_ (clerk_checks (only_ensureSafeUpdate S data) hcron)
    intro calls r hurl
    cases r with
    | error e => exact ⟨fun _ h => (by cases h), fun _ _ => hurl⟩
    | ok u =>
      rw [tryCatch_eq, wp_tryCatch]
      refine (wp_call_bind ..).mpr ⟨trivial, fun job _ => ?_, fun e he => ?_⟩
      · refine (wp_call_bind ..).mpr ⟨trivial, fun _ _ => ?_, fun e he => ?_⟩
        · refine (wp_call_bind ..).mpr ⟨trivial, fun _ _ => ?_, fun e he => ?_⟩
          · refine ⟨fun job' h => ?_, unsafeHarmless_ok⟩
            cases h
            constructor
            · simp [clerk]
            · simp [clerk]
            · simp [clerk]
          · exact ⟨fun _ h => (by cases h), unsafeHarmless_ok⟩
        · exact ⟨fun _ h => (by cases h), unsafeHarmless_ok⟩
      · exact ⟨fun _ h => (by cases h), unsafeHarmless_ok⟩

theorem clerk_deleteJob (id : JobId) :
    (deleteJob id).wp clerk [] fun calls r =>
      (r = .ok true → DeletedBy id calls) ∧ UnsafeHarmless calls r := by
  unfold deleteJob
  rw [tryCatch_eq, wp_tryCatch]
  refine (wp_call_bind ..).mpr ⟨trivial, fun _ _ => ?_, fun e he => ?_⟩
  · refine (wp_call_bind ..).mpr ⟨trivial, fun _ _ => ?_, fun e he => ?_⟩
    · refine ⟨fun _ => ?_, unsafeHarmless_ok⟩
      constructor
      · simp [clerk]
      · simp [clerk]
    · exact ⟨fun h => (by cases h), unsafeHarmless_ok⟩
  · exact ⟨fun h => (by cases h), unsafeHarmless_ok⟩

theorem clerk_invalidateAll (ids : List JobId) (calls : CallLog) :
    (invalidateAll ids).wp clerk calls fun calls' r =>
      calls ⊆ calls' ∧
        (r = .ok () → ∀ id ∈ ids, ⟨.redisDel (jobConfigKey id), .ok ()⟩ ∈ calls') ∧
          ∀ reason, r ≠ .error (.unsafeCallbackUrl reason) := by
  induction ids generalizing calls with
  | nil =>
    refine ⟨List.Subset.refl calls, fun _ id hid => ?_, fun _ h => (by cases h)⟩
    cases hid
  | cons id ids ih =>
    unfold invalidateAll
    rw [bind_eq, wp_bind, tryCatch_eq, wp_tryCatch]
    refine (wp_call_bind ..).mpr ⟨trivial, fun _ _ => ?_, fun e he => ?_⟩
    · rw [pure_eq, wp_ret]
      dsimp only
      rw [bind_eq, wp_bind]
      refine wp_mono ?_ (ih _)
      intro calls' r h
      obtain ⟨hsub, hdels, hrefused⟩ := h
      have hkept : calls ⊆ calls' := fun a ha => hsub (List.mem_append_left _ ha)
      cases r with
      | error e => exact ⟨hkept, fun h => (by cases h), hrefused⟩
      | ok u =>
        refine ⟨hkept, fun _ id' hid' => ?_, fun _ h => (by cases h)⟩
        rcases List.mem_cons.mp hid' with rfl | hid'
        · exact hsub (List.mem_append_right _ List.mem_cons_self)
        · exact hdels rfl id' hid'
    · dsimp only
      rw [pure_eq, wp_ret]
      dsimp only
      rw [bind_eq, wp_bind]
      refine wp_mono ?_ (ih _)
      intro calls' r h
      obtain ⟨hsub, _, hrefused⟩ := h
      have hkept : calls ⊆ calls' := fun a ha => hsub (List.mem_append_left _ ha)
      cases r with
      | error e' => exact ⟨hkept, fun h => (by cases h), hrefused⟩
      | ok u =>
        refine ⟨hkept, fun h => (by cases h), fun reason h => ?_⟩
        cases h
        exact he reason rfl

theorem clerk_bulkSetEnabled (ids : List JobId) (enabled : Bool) :
    (bulkSetEnabled ids enabled).wp clerk [] fun calls r =>
      (∀ count, r = .ok count → SwitchedBy ids enabled count calls) ∧ UnsafeHarmless calls r := by
  unfold bulkSetEnabled
  refine (wp_call_bind ..).mpr ⟨trivial, fun count _ => ?_, fun e he => ?_⟩
  · rw [bind_eq, wp_bind]
    refine wp_mono ?_ (clerk_invalidateAll ids _)
    intro calls r h
    obtain ⟨hsub, hdels, hrefused⟩ := h
    cases r with
    | error e =>
      refine ⟨fun _ h => (by cases h), fun reason h => ?_⟩
      cases h
      exact absurd rfl (hrefused reason)
    | ok u =>
      refine ⟨fun count' h => ?_, unsafeHarmless_ok⟩
      cases h
      exact ⟨hsub (List.mem_append_right _ List.mem_cons_self), hdels rfl⟩
  · exact ⟨fun _ h => (by cases h), unsafeHarmless_store he⟩

theorem clerk_triggerJob (id : JobId) :
    (triggerJob S id).wp clerk [] fun calls r =>
      (∀ x, r = .ok (.accepted x) → ∃ job, TriggeredBy S.env id job x calls) ∧
      (∀ reply, r = .ok reply → (∀ x, reply ≠ .accepted x) → AllHarmless calls) ∧
      UnsafeHarmless calls r := by
  have hfind (seen : Except Failure (Option Job)) : AllHarmless [⟨.jobFindUnique id, seen⟩] :=
    allHarmless_nil.append (.read id seen)
  unfold triggerJob
  refine (wp_call_bind ..).mpr ⟨trivial, fun found _ => ?_, fun e he => ?_⟩
  · cases found with
    | none => exact ⟨fun _ h => (by cases h), fun _ _ _ => hfind _, unsafeHarmless_ok⟩
    | some job =>
      cases henabled : job.enabled with
      | false =>
        simp only [henabled, Bool.not_false, if_true]
        exact ⟨fun _ h => (by cases h), fun _ _ _ => hfind _, unsafeHarmless_ok⟩
      | true =>
        simp only [henabled, Bool.not_true, Bool.false_eq_true, if_false, acquireJobLock, bind_eq,
          wp_bind, wp_randomUUID, wp_call]
        refine fun token => ⟨trivial, fun granted hgranted => ?_⟩
        cases granted with
        | error e => exact ⟨fun _ h => (by cases h), fun _ h => (by cases h),
            unsafeHarmless_store hgranted⟩
        | ok granted =>
          cases granted with
          | false =>
            refine ⟨fun _ h => (by cases h), fun _ _ _ => ?_, unsafeHarmless_ok⟩
            exact (hfind _).append (.refused _ _ _)
          | true =>
            refine ⟨trivial, fun r hr => ?_⟩
            cases r with
            | error e =>
              refine ⟨trivial, fun r' hr' => ?_⟩
              cases r' with
              | ok u => exact ⟨fun _ h => (by cases h), fun _ h => (by cases h),
                  unsafeHarmless_store hr⟩
              | error e' => exact ⟨fun _ h => (by cases h), fun _ h => (by cases h),
                  unsafeHarmless_store hr'⟩
            | ok x =>
              refine ⟨trivial, fun r hr => ?_⟩
              cases r with
              | error e =>
                refine ⟨trivial, fun r' hr' => ?_⟩
                cases r' with
                | ok u => exact ⟨fun _ h => (by cases h), fun _ h => (by cases h),
                    unsafeHarmless_store hr⟩
                | error e' => exact ⟨fun _ h => (by cases h), fun _ h => (by cases h),
                    unsafeHarmless_store hr'⟩
              | ok u =>
                refine ⟨fun x' h => ?_, fun reply h hne => ?_, unsafeHarmless_ok⟩
                · cases h
                  refine ⟨job, ?_⟩
                  constructor
                  · simp [clerk]
                  · exact henabled
                  · have hpos : ¬ computeJobLockTtlSeconds S.env job < 1 :=
                      Nat.not_lt.mpr (Nat.le_max_left ..)
                    exact ⟨token, by simp [clerk, hpos]⟩
                  · simp [clerk]
                  · simp [clerk]
                · cases h
                  exact absurd rfl (hne x)
  · exact ⟨fun _ h => (by cases h), fun _ h => (by cases h), unsafeHarmless_store he⟩

end Services

/-! ## What the answers say -/

/-- The request has come through the middleware. -/
def HttpRequest.Admitted (S : ApiSetup) (request : HttpRequest) : Prop :=
  (∃ body, request.body = .json body) ∧ request.limited = false ∧
    requireApiKey S.apiKeys request.headers = true

/-- What an answer says about the calls of its request. That nothing was found says nothing after
an update or a deletion, which answer so to every failure, and 500 says nothing at all. -/
inductive Accounts (S : ApiSetup) (request : HttpRequest) (calls : CallLog) :
    HttpResponse → Prop where
  | refused {response : HttpResponse} (hstatus : response.status ∈ [400, 401, 409, 429])
      (h : AllHarmless calls) : Accounts S request calls response
  | missing {id : JobId} (hroute : request.route = .get id ∨ request.route = .trigger id)
      (h : AllHarmless calls) : Accounts S request calls notFound
  | unfound {id : JobId} (hroute : request.route = .update id ∨ request.route = .delete id ∨
      request.route = .pause id ∨ request.route = .resume id) : Accounts S request calls notFound
  | internal : Accounts S request calls internalError
  | created {body : Body} {input : CreateJobInput} {job : Job}
      (hroute : request.route = .create) (hbody : request.body = .json body)
      (hinput : parse (createBody S.platform) (readCreate S.platform) body = .ok input)
      (h : CreatedBy S.env input job calls) : Accounts S request calls ⟨201, .job job⟩
  | read {id : JobId} {job : Job} (hroute : request.route = .get id)
      (h : ⟨.jobFindUnique id, .ok (some job)⟩ ∈ calls) : Accounts S request calls ⟨200, .job job⟩
  | updated {body : Body} {id : JobId} {data : UpdateJobInput} {job : Job}
      (hroute : request.route = .update id) (hbody : request.body = .json body)
      (hinput : parse (updateBody S.platform) (readUpdate S.platform) body = .ok data)
      (h : UpdatedBy id data job calls) : Accounts S request calls ⟨200, .job job⟩
  | paused {id : JobId} {paused : Bool} {job : Job}
      (hroute : request.route = if paused then .pause id else .resume id)
      (h : UpdatedBy id { paused := some paused } job calls) :
      Accounts S request calls ⟨200, .job job⟩
  | switched {body : Body} {ids : List JobId} {enabled : Bool} {count : Nat}
      (hroute : request.route = .bulk) (hbody : request.body = .json body)
      (hinput : parse bulkBody readBulk body = .ok (ids, enabled))
      (h : SwitchedBy ids enabled count calls) : Accounts S request calls ⟨200, .updated count⟩
  | deleted {id : JobId} (hroute : request.route = .delete id) (h : DeletedBy id calls) :
      Accounts S request calls ⟨204, .empty⟩
  | triggered {id : JobId} {job : Job} {x : Execution} (hroute : request.route = .trigger id)
      (h : TriggeredBy S.env id job x calls) : Accounts S request calls ⟨202, .execution x⟩

section Requests

variable {S : ApiSetup} {request : HttpRequest} {body : Body}

/-- What a route leaves its caller with. -/
def RouteAccounts (S : ApiSetup) (request : HttpRequest) (calls : CallLog)
    (r : Except Failure HttpResponse) : Prop :=
  (∀ response, r = .ok response → Accounts S request calls response) ∧ UnsafeHarmless calls r

theorem routeAccounts_ok {calls : CallLog} {response : HttpResponse}
    (h : Accounts S request calls response) : RouteAccounts S request calls (.ok response) := by
  refine ⟨fun response' h' => ?_, unsafeHarmless_ok⟩
  cases h'
  exact h

theorem routeAccounts_error {calls : CallLog} {e : Failure}
    (h : UnsafeHarmless calls (.error e : Except Failure HttpResponse)) :
    RouteAccounts S request calls (.error e) := by
  refine ⟨fun response h' => ?_, h⟩
  cases h'

theorem unsafeHarmless_error {α β : Type} {calls : CallLog} {e : Failure}
    (h : UnsafeHarmless calls (.error e : Except Failure α)) :
    UnsafeHarmless calls (.error e : Except Failure β) := by
  intro reason heq
  cases heq
  exact h reason rfl

theorem routeAccounts_invalid {issues : List ZodIssue} :
    RouteAccounts S request [] (.ok (validationFailed issues)) :=
  routeAccounts_ok (.refused List.mem_cons_self allHarmless_nil)

/-- A route answers with what its service has come to. -/
theorem clerk_answers {α : Type} {p : Promise α} {f : α → HttpResponse}
    {Q : CallLog → Except Failure α → Prop} (hp : p.wp clerk [] Q)
    (hok : ∀ calls a, Q calls (.ok a) → Accounts S request calls (f a))
    (herror : ∀ calls e, Q calls (.error e) → UnsafeHarmless calls (.error e : Except Failure α)) :
    (p.bind fun a => .ret (f a)).wp clerk [] (RouteAccounts S request) := by
  rw [wp_bind]
  refine wp_mono ?_ hp
  intro calls r hr
  cases r with
  | ok a => exact routeAccounts_ok (hok calls a hr)
  | error e => exact routeAccounts_error (unsafeHarmless_error (herror calls e hr))

theorem clerk_jobResponse {calls : CallLog} {found : Option Job}
    (hnone : found = none → Accounts S request calls notFound)
    (hsome : ∀ job, found = some job → Accounts S request calls ⟨200, .job job⟩) :
    Accounts S request calls (jobResponse found) := by
  cases found with
  | none => exact hnone rfl
  | some job => exact hsome job rfl

theorem clerk_handle (hbody : request.body = .json body) :
    (handle S.toSetup body request.route).wp clerk [] (RouteAccounts S request) := by
  cases hroute : request.route with
  | create =>
    simp only [handle, postJob]
    split
    · exact routeAccounts_invalid
    · rename_i input hinput
      exact clerk_answers (clerk_createJob S.toSetup input)
        (fun calls job h => .created hroute hbody hinput (h.1 job rfl)) fun _ _ h => h.2
  | bulk =>
    simp only [handle, postBulk]
    split
    · exact routeAccounts_invalid
    · rename_i ids enabled hinput
      exact clerk_answers (clerk_bulkSetEnabled ids enabled)
        (fun calls count h => .switched hroute hbody hinput (h.1 count rfl)) fun _ _ h => h.2
  | get id =>
    refine (wp_call_bind ..).mpr ⟨trivial, fun found _ => ?_, fun e he => ?_⟩
    · apply routeAccounts_ok
      apply clerk_jobResponse
      · intro _
        exact .missing (Or.inl hroute) (allHarmless_nil.append (.read id _))
      · intro job hjob
        subst hjob
        exact .read hroute (List.mem_append_right _ List.mem_cons_self)
    · exact routeAccounts_error (unsafeHarmless_store he)
  | update id =>
    simp only [handle, putJob]
    split
    · exact routeAccounts_invalid
    · rename_i data hinput
      refine clerk_answers (clerk_updateJob S.toSetup id data) (fun calls found h => ?_)
        fun _ _ h => h.2
      apply clerk_jobResponse
      · intro _
        exact .unfound (Or.inl hroute)
      · intro job hjob
        subst hjob
        exact .updated hroute hbody hinput (h.1 job rfl)
  | delete id =>
    refine clerk_answers (clerk_deleteJob id) (fun calls ok h => ?_) fun _ _ h => h.2
    cases ok with
    | true => exact .deleted hroute (h.1 rfl)
    | false => exact .unfound (Or.inr (Or.inl hroute))
  | trigger id =>
    refine clerk_answers (clerk_triggerJob S.toSetup id) (fun calls reply h => ?_)
      fun _ _ h => h.2.2
    obtain ⟨haccepted, hrest, _⟩ := h
    cases reply with
    | notFound => exact .missing (Or.inr hroute) (hrest _ rfl fun _ h => (by cases h))
    | disabled => exact .refused (by decide) (hrest _ rfl fun _ h => (by cases h))
    | locked => exact .refused (by decide) (hrest _ rfl fun _ h => (by cases h))
    | accepted x =>
      obtain ⟨job, h⟩ := haccepted x rfl
      exact .triggered hroute h
  | pause id =>
    refine clerk_answers (clerk_updateJob S.toSetup id _) (fun calls found h => ?_)
      fun _ _ h => h.2
    apply clerk_jobResponse
    · intro _
      exact .unfound (Or.inr (Or.inr (Or.inl hroute)))
    · intro job hjob
      subst hjob
      exact @Accounts.paused S request calls id true job hroute (h.1 job rfl)
  | resume id =>
    refine clerk_answers (clerk_updateJob S.toSetup id _) (fun calls found h => ?_)
      fun _ _ h => h.2
    apply clerk_jobResponse
    · intro _
      exact .unfound (Or.inr (Or.inr (Or.inr hroute)))
    · intro job hjob
      subst hjob
      exact @Accounts.paused S request calls id false job hroute (h.1 job rfl)

/-- How a request ends: it is always answered, and without a call if it is not admitted. -/
def RequestAccounts (S : ApiSetup) (request : HttpRequest) (calls : CallLog)
    (r : Except Failure (Option HttpResponse)) : Prop :=
  ∃ response, r = .ok (some response) ∧ Accounts S request calls response ∧
    (¬ request.Admitted S → calls = [])

theorem accounts_error {calls : CallLog} {e : Failure}
    (h : RouteAccounts S request calls (.error e)) :
    Accounts S request calls (errorResponse e) := by
  cases e with
  | unsafeCallbackUrl reason => exact .refused List.mem_cons_self (h.2 reason rfl)
  | _ => exact .internal

theorem clerk_serve : ((serve S request).bind fun response => .ret (some response)).wp clerk []
    (RequestAccounts S request) := by
  rw [wp_bind]
  unfold serve
  split
  · exact ⟨_, rfl, .internal, fun _ => rfl⟩
  · rename_i body hbody
    split
    · exact ⟨_, rfl, .refused (by decide) allHarmless_nil, fun _ => rfl⟩
    · rename_i hlimited
      split
      · exact ⟨_, rfl, .refused (by decide) allHarmless_nil, fun _ => rfl⟩
      · rename_i hkey
        have hadmitted : request.Admitted S :=
          ⟨⟨body, hbody⟩, by simpa using hlimited, by simpa using hkey⟩
        rw [tryCatch_eq, wp_tryCatch]
        refine wp_mono ?_ (clerk_handle hbody)
        intro calls r h
        cases r with
        | ok response =>
          exact ⟨response, rfl, h.1 response rfl, fun hnot => absurd hadmitted hnot⟩
        | error e => exact ⟨_, rfl, accounts_error h, fun hnot => absurd hadmitted hnot⟩

end Requests

/-! ## Answers in a run -/

def Outcome.failure? : Outcome Choice Failure → Option Failure
  | .answered _ => none
  | .rejected e => some e
  | .lost _ e => some e

/-- No store fails with the error of the callback check. -/
def StoresAnswer : ApiState → Event ApiTask Choice Outside Failure → Prop :=
  fun _ e => ∀ i o, e = .resume i o →
    ∀ f ∈ Outcome.failure? o, ∀ reason, f ≠ .unsafeCallbackUrl reason

theorem exec_storeReply (c : Call) (x : Choice) (w : World) : StoreReply (World.exec c x w).2 := by
  intro reason h
  cases c with
  | jobCreate data =>
    simp only [World.exec, World.withDb, Postgres.jobCreate] at h
    split at h <;> cases h
  | jobUpdate id data =>
    simp only [World.exec, World.withDb, Postgres.jobUpdate] at h
    split at h <;> cases h
  | jobDelete id =>
    simp only [World.exec, World.withDb, Postgres.jobDelete] at h
    split at h <;> cases h
  | executionCreate data =>
    simp only [World.exec, World.withDb, Postgres.executionCreate] at h
    split at h
    · split at h <;> cases h
    · cases h
  | executionUpdate id data =>
    simp only [World.exec, World.withDb, Postgres.executionUpdate] at h
    split at h <;> cases h
  | redisSetNx key value seconds =>
    simp only [World.exec, World.withRedis, Redis.setNxEx] at h
    split at h
    · split at h <;> cases h
    · cases h
  | redisSet key value seconds =>
    simp only [World.exec, World.withRedis, Redis.setEx] at h
    split at h <;> cases h
  | fetch url body timeoutMs =>
    simp only [World.exec, Exchange.reply] at h
    split at h <;> cases h
  | _ => cases h

theorem attend_storeReply {S : ApiSetup} {s : ApiState} {i : Nat} {o : Outcome Choice Failure}
    (hok : StoresAnswer s (.resume i o)) (c : Call) (w : World) :
    StoreReply ((api S).attend c o w).2.2 := by
  intro reason h
  cases o with
  | answered x => exact exec_storeReply c x w reason h
  | rejected e =>
    cases h
    exact hok i _ rfl _ rfl reason rfl
  | lost x e =>
    cases h
    exact hok i _ rfl _ rfl reason rfl

/-- What the thread of a request ends with; a tick and a delivery answer nobody. -/
def TaskAccounts (S : ApiSetup) : ApiTask → CallLog → Except Failure (Option HttpResponse) → Prop
  | .request request, calls, r => RequestAccounts S request calls r
  | _, _, _ => True

theorem clerk_start {S : ApiSetup} {t : ApiTask} {w w' : World}
    {q : Promise (Option HttpResponse)} (h : (api S).start t w = some (w', q)) :
    q.wp clerk [] (TaskAccounts S t) := by
  have hany : q.wp clerk [] fun _ _ => True :=
    (only_of_forall (P := fun _ => True) fun _ => trivial).wp_permitted (fun _ _ _ => trivial) []
  cases t with
  | request request =>
    cases h
    exact clerk_serve
  | tick => exact hany
  | deliver m => exact hany

/-- Every request that is not stopped is answered, and its answer says what it has done: success
names changes that the stores have acknowledged, a refusal means that nothing was changed, and
what the middleware turns away has made no call. -/
theorem answers_account {S : ApiSetup} {w₀ : World} {s : ApiState}
    (hr : (api S).Run StoresAnswer (.fresh w₀) s) {i : Nat} {request : HttpRequest}
    {r : Except Failure (Option HttpResponse)} (hi : s.Live i (.request request) (.done r)) :
    ∃ response, r = .ok (some response) ∧
      Accounts S request (transcript i s.trace) response ∧
        (¬ request.Admitted S → transcript i s.trace = []) := by
  have hwp := hr.monitored_ok clerk (fun _ => []) (TaskAccounts S)
    (fun _ _ _ _ _ hstart => clerk_start hstart)
    (fun _ _ _ c _ o _ hok _ => attend_storeReply hok c _) hi
  cases r with
  | ok response => exact hwp
  | error e => exact hwp

/-- The route and the answer of a request that has ended. -/
def ApiState.ended (s : ApiState) (i : Nat) : Option (Route × HttpResponse) :=
  match s.threads[i]? with
  | some ⟨.request request, some (.ret (some response))⟩ => some (request.route, response)
  | _ => none

theorem ApiState.live_of_ended {s : ApiState} {i : Nat} {route : Route} {response : HttpResponse}
    (h : ApiState.ended s i = some (route, response)) : ∃ request, request.route = route ∧
      s.Live i (.request request) (.done (.ok (some response))) := by
  unfold ApiState.ended at h
  split at h
  · rename_i request response' hi
    cases h
    exact ⟨request, rfl, hi⟩
  · cases h

theorem Sample.apiRun_answered {e : Event ApiTask Choice Outside Failure}
    (he : e ∈ Sample.apiRun) (s : ApiState) : StoresAnswer s e := by
  intro i o heq
  subst heq
  have ho : (i = 0 ∧ o = .answered {}) ∨ (i = 1 ∧ o = .answered {}) ∨
      (i = 3 ∧ o = .answered {}) := by
    simpa [Sample.apiRun, Sample.apiAnswered, List.mem_replicate] using he
  obtain ⟨_, rfl⟩ | ⟨_, rfl⟩ | ⟨_, rfl⟩ := ho <;>
  · intro f hf
    cases hf

theorem answers_account_deleted : ∃ (s : ApiState) (request : HttpRequest),
    request.route = .delete "job-1" ∧
      s.Live 3 (.request request) (.done (.ok (some ⟨204, .empty⟩))) ∧
        ∃ response, (.ok (some ⟨204, .empty⟩) : Except Failure (Option HttpResponse)) =
            .ok (some response) ∧
          Accounts Sample.apiSetup request (transcript 3 s.trace) response ∧
            (¬ request.Admitted Sample.apiSetup → transcript 3 s.trace = []) := by
  have hrun : ((api Sample.apiSetup).run (.fresh Sample.world) Sample.apiRun).bind
      (fun s => ApiState.ended s 3) = some (.delete "job-1", ⟨204, .empty⟩) := by decide +kernel
  obtain ⟨s, hs, hended⟩ := Option.bind_eq_some_iff.mp hrun
  obtain ⟨request, hroute, hi⟩ := ApiState.live_of_ended hended
  have hr : (api Sample.apiSetup).Run StoresAnswer (.fresh Sample.world) s :=
    .of_run hs fun _ he s' => Sample.apiRun_answered he s'
  exact ⟨s, request, hroute, hi, answers_account hr hi⟩

end CronHive
