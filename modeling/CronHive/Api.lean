import CronHive.Async.Refinement
import CronHive.Auth
import CronHive.JobBounds
import CronHive.Rejections

/-!
# The HTTP API

The jobs router behind its middleware, route by route, running beside the scheduler and the
workers. Every run of it is a run of the system, in which the requests that were refused and those
that only read leave nothing.
-/

namespace CronHive

set_option autoImplicit false

open Async Async.Prog Validation

structure ApiSetup extends Setup where
  /-- `CRONHIVE_API_KEYS` -/
  apiKeys : String

inductive Route where
  | create
  | bulk
  | get (id : JobId)
  | update (id : JobId)
  | delete (id : JobId)
  | trigger (id : JobId)
  | pause (id : JobId)
  | resume (id : JobId)
  deriving DecidableEq, Repr

/-- What `express.json` makes of the body: an empty object if no JSON was sent. -/
inductive ReceivedBody where
  | malformed
  | json (body : Body)

structure HttpRequest where
  route : Route
  headers : KeyHeaders
  body : ReceivedBody
  /-- The address has used up its requests of the limiter's window. -/
  limited : Bool

inductive Payload where
  | job (job : Job)
  | execution (x : Execution)
  | updated (count : Nat)
  | error (message : String)
  | invalid (error : String) (details : FlattenedError)
  | text (message : String)
  | empty
  deriving DecidableEq, Repr

structure HttpResponse where
  status : Nat
  payload : Payload
  deriving DecidableEq, Repr

/-! ## Answers -/

def notFound : HttpResponse := ⟨404, .error "Not found"⟩

def unauthorized : HttpResponse := ⟨401, .error "Unauthorized"⟩

def tooManyRequests : HttpResponse :=
  ⟨429, .text "Too many requests, please try again later."⟩

/-- `fallbackError` -/
def internalError : HttpResponse := ⟨500, .error "Internal server error"⟩

/-- `zodError` for a `ZodError` -/
def validationFailed (issues : List ZodIssue) : HttpResponse :=
  ⟨400, .invalid "Validation failed" (flatten issues)⟩

/-- `zodError` and `fallbackError` for everything that the services throw. -/
def errorResponse : Failure → HttpResponse
  | .unsafeCallbackUrl reason => ⟨400, .error (Failure.unsafeCallbackUrl reason).message⟩
  | _ => internalError

def jobResponse : Option Job → HttpResponse
  | some job => ⟨200, .job job⟩
  | none => notFound

def triggerResponse : TriggerReply → HttpResponse
  | .notFound => notFound
  | .disabled => ⟨409, .error "Job is disabled"⟩
  | .locked => ⟨409, .error "Could not acquire execution lock; job may already be running"⟩
  | .accepted x => ⟨202, .execution x⟩

/-! ## The router -/

def getJobById (id : JobId) : Promise (Option Job) := await (.jobFindUnique id)

/-- `router.post("/")` -/
def postJob (S : Setup) (body : Body) : Promise HttpResponse :=
  match parse (createBody S.platform) (readCreate S.platform) body with
  | .error issues => pure (validationFailed issues)
  | .ok input => do
      let job ← createJob S input
      pure ⟨201, .job job⟩

/-- `router.post("/bulk")` -/
def postBulk (body : Body) : Promise HttpResponse :=
  match parse bulkBody readBulk body with
  | .error issues => pure (validationFailed issues)
  | .ok (ids, enabled) => do
      let count ← bulkSetEnabled ids enabled
      pure ⟨200, .updated count⟩

/-- `router.get("/:id")` -/
def getJob (id : JobId) : Promise HttpResponse := do
  let job ← getJobById id
  pure (jobResponse job)

/-- `router.put("/:id")` -/
def putJob (S : Setup) (id : JobId) (body : Body) : Promise HttpResponse :=
  match parse (updateBody S.platform) (readUpdate S.platform) body with
  | .error issues => pure (validationFailed issues)
  | .ok data => do
      let job ← updateJob S id data
      pure (jobResponse job)

/-- `router.delete("/:id")` -/
def removeJob (id : JobId) : Promise HttpResponse := do
  let ok ← deleteJob id
  pure (if ok then ⟨204, .empty⟩ else notFound)

/-- `router.post("/:id/trigger")` -/
def postTrigger (S : Setup) (id : JobId) : Promise HttpResponse := do
  let reply ← triggerJob S id
  pure (triggerResponse reply)

/-- `router.post("/:id/pause")` and `router.post("/:id/resume")` -/
def postPaused (S : Setup) (id : JobId) (paused : Bool) : Promise HttpResponse := do
  let job ← setPaused S id paused
  pure (jobResponse job)

def handle (S : Setup) (body : Body) : Route → Promise HttpResponse
  | .create => postJob S body
  | .bulk => postBulk body
  | .get id => getJob id
  | .update id => putJob S id body
  | .delete id => removeJob id
  | .trigger id => postTrigger S id
  | .pause id => postPaused S id true
  | .resume id => postPaused S id false

/-- `express.json`, then the limiter, then `requireApiKey`, then the router. -/
def serve (S : ApiSetup) (request : HttpRequest) : Promise HttpResponse :=
  match request.body with
  | .malformed => pure internalError
  | .json body =>
      if request.limited then pure tooManyRequests
      else if !requireApiKey S.apiKeys request.headers then pure unauthorized
      else do
        try handle S.toSetup body request.route
        catch e => pure (errorResponse e)

/-! ## The machine -/

inductive ApiTask where
  | tick
  | deliver (message : Nat)
  | request (request : HttpRequest)

/-- A tick or a delivery answers nobody. -/
def apiStart (S : ApiSetup) :
    ApiTask → World → Option (World × Promise (Option HttpResponse))
  | .tick, w => some (w, do tick S.toSetup; pure none)
  | .deliver m, w =>
      (start S.toSetup (.deliver m) w).map fun a => (a.1, do let _ ← a.2; pure none)
  | .request request, w => some (w, do let response ← serve S request; pure (some response))

def api (S : ApiSetup) : Machine Call.Reply Local.Value Failure (Option HttpResponse) World
    ApiTask Choice Outside where
  exec := World.exec
  eval := World.eval
  start := apiStart S
  outside := outside

abbrev ApiState : Type :=
  State Call.Reply Local.Value Failure (Option HttpResponse) World ApiTask Outside

/-- Every run, whatever is requested and whatever fails or stops. -/
abbrev ApiReachable (S : ApiSetup) (w₀ : World) (s : ApiState) : Prop :=
  (api S).Run Machine.anyStep (.fresh w₀) s

/-! ## The tasks behind the requests -/

/-- The task that an admitted request runs, if any. -/
def routed (S : Setup) (body : Body) : Route → Option Task
  | .create =>
      match parse (createBody S.platform) (readCreate S.platform) body with
      | .error _ => none
      | .ok input => some (.createJob input)
  | .bulk =>
      match parse bulkBody readBulk body with
      | .error _ => none
      | .ok (ids, enabled) => some (.bulkSetEnabled ids enabled)
  | .get _ => none
  | .update id =>
      match parse (updateBody S.platform) (readUpdate S.platform) body with
      | .error _ => none
      | .ok data => some (.updateJob id data)
  | .delete id => some (.deleteJob id)
  | .trigger id => some (.trigger id)
  | .pause id => some (.setPaused id true)
  | .resume id => some (.setPaused id false)

def behindRequest (S : ApiSetup) (request : HttpRequest) : Option Task :=
  match request.body with
  | .malformed => none
  | .json body =>
      if request.limited then none
      else if !requireApiKey S.apiKeys request.headers then none
      else routed S.toSetup body request.route

def ApiTask.behind (S : ApiSetup) : ApiTask → Option Task
  | .tick => some .tick
  | .deliver m => some (.deliver m)
  | .request req => behindRequest S req

/-- The answer to a request whose task has come to `r`. -/
def respond : Except Failure Response → HttpResponse
  | .ok .done => ⟨200, .empty⟩
  | .ok (.created job) => ⟨201, .job job⟩
  | .ok (.updated job) => jobResponse job
  | .ok (.deleted found) => if found then ⟨204, .empty⟩ else notFound
  | .ok (.counted count) => ⟨200, .updated count⟩
  | .ok (.triggered reply) => triggerResponse reply
  | .error e => errorResponse e

/-- What a task of the API ends with, from what the task behind it ended with. -/
def Responds : ApiTask → Except Failure Response → Except Failure (Option HttpResponse) → Prop
  | .request _, r, answer => answer = .ok (some (respond r))
  | _, r, answer => answer = r.map fun _ => none

def Call.readsJob (c : Call) : Prop := ∃ id, c = .jobFindUnique id

section Refinement

variable {S : ApiSetup}

theorem routed_within {S : Setup} {body : Body} {route : Route} {t : Task}
    (h : routed S body route = some t) : t.Within S.platform := by
  cases route with
  | create =>
    simp only [routed] at h
    split at h
    · cases h
    · rename_i input hparse
      cases h
      exact (createBody_exact.mp hparse).1
  | bulk =>
    simp only [routed] at h
    split at h
    · cases h
    · rename_i ids enabled hparse
      cases h
      exact (bulkBody_exact.mp hparse).1
  | update id =>
    simp only [routed] at h
    split at h
    · cases h
    · rename_i data hparse
      cases h
      exact (updateBody_exact.mp hparse).1
  | get id => cases h
  | delete id =>
    cases h
    trivial
  | trigger id =>
    cases h
    trivial
  | pause id =>
    cases h
    trivial
  | resume id =>
    cases h
    trivial

theorem behind_within {t : ApiTask} {t' : Task} (h : t.behind S = some t') :
    t'.Within S.platform := by
  cases t with
  | tick =>
    cases h
    trivial
  | deliver m =>
    cases h
    trivial
  | request request =>
    simp only [ApiTask.behind, behindRequest] at h
    split at h
    · cases h
    · split at h
      · cases h
      · split at h
        · cases h
        · exact routed_within h

/-- A route runs its task and answers with what it comes to. -/
theorem handle_serves {S : Setup} {body : Body} {route : Route} {t : Task}
    (h : routed S body route = some t) (w : World) : ∃ p, start S t w = some (w, p) ∧
      p.ServedBy (fun r answer => answer = r.map fun a => respond (.ok a))
        (handle S body route) := by
  cases route with
  | create =>
    simp only [routed] at h
    split at h
    · cases h
    · rename_i input hparse
      cases h
      refine ⟨_, rfl, ?_⟩
      simp only [handle, postJob, hparse]
      exact servedBy_answers _ _ _ (fun _ => rfl) fun _ => rfl
  | bulk =>
    simp only [routed] at h
    split at h
    · cases h
    · rename_i ids enabled hparse
      cases h
      refine ⟨_, rfl, ?_⟩
      simp only [handle, postBulk, hparse]
      exact servedBy_answers _ _ _ (fun _ => rfl) fun _ => rfl
  | update id =>
    simp only [routed] at h
    split at h
    · cases h
    · rename_i data hparse
      cases h
      refine ⟨_, rfl, ?_⟩
      simp only [handle, putJob, hparse]
      exact servedBy_answers _ _ _ (fun _ => rfl) fun _ => rfl
  | get id => cases h
  | delete id =>
    cases h
    exact ⟨_, rfl, servedBy_answers _ _ _ (fun _ => rfl) fun _ => rfl⟩
  | trigger id =>
    cases h
    exact ⟨_, rfl, servedBy_answers _ _ _ (fun _ => rfl) fun _ => rfl⟩
  | pause id =>
    cases h
    exact ⟨_, rfl, servedBy_answers _ _ _ (fun _ => rfl) fun _ => rfl⟩
  | resume id =>
    cases h
    exact ⟨_, rfl, servedBy_answers _ _ _ (fun _ => rfl) fun _ => rfl⟩

/-- A route without a task refuses its body, or reads one job. -/
theorem handle_idle {S : Setup} {body : Body} {route : Route} (h : routed S body route = none) :
    (handle S body route).Idle Call.readsJob := by
  cases route with
  | create =>
    simp only [routed] at h
    split at h
    · rename_i issues hparse
      simp only [handle, postJob, hparse]
      trivial
    · cases h
  | bulk =>
    simp only [routed] at h
    split at h
    · rename_i issues hparse
      simp only [handle, postBulk, hparse]
      trivial
    · cases h
  | update id =>
    simp only [routed] at h
    split at h
    · rename_i issues hparse
      simp only [handle, putJob, hparse]
      trivial
    · cases h
  | get id =>
    refine ⟨⟨id, rfl⟩, fun r => ?_⟩
    cases r with
    | ok job => trivial
    | error e => trivial
  | delete id => cases h
  | trigger id => cases h
  | pause id => cases h
  | resume id => cases h

/-- A request without a task is answered at once, or reads one job first. -/
theorem serve_idle {request : HttpRequest} (h : behindRequest S request = none) :
    (serve S request).Idle Call.readsJob := by
  unfold serve
  unfold behindRequest at h
  split
  · trivial
  · rename_i body hbody
    rw [hbody] at h
    dsimp only at h
    split
    · trivial
    · rename_i hlimited
      rw [if_neg hlimited] at h
      split
      · trivial
      · rename_i hkey
        rw [if_neg hkey] at h
        exact (handle_idle h).tryCatch fun _ => trivial

/-- A request with a task is answered with what the task comes to. -/
theorem serve_serves {request : HttpRequest} {t : Task} (h : behindRequest S request = some t)
    (w : World) : ∃ p, start S.toSetup t w = some (w, p) ∧
      p.ServedBy (fun r answer => answer = .ok (respond r)) (serve S request) := by
  unfold serve
  unfold behindRequest at h
  split
  · rename_i hbody
    rw [hbody] at h
    cases h
  · rename_i body hbody
    rw [hbody] at h
    dsimp only at h
    split
    · rename_i hlimited
      rw [if_pos hlimited] at h
      cases h
    · rename_i hlimited
      rw [if_neg hlimited] at h
      split
      · rename_i hkey
        rw [if_pos hkey] at h
        cases h
      · rename_i hkey
        rw [if_neg hkey] at h
        obtain ⟨p, hp, hserved⟩ := handle_serves h w
        refine ⟨p, hp, hserved.tryCatch ?_ ?_⟩
        · intro r response hr
          cases r with
          | ok a => exact hr
          | error e => cases hr
        · intro r e hr
          cases r with
          | ok a => cases hr
          | error e' =>
            cases hr
            exact ⟨_, rfl, rfl⟩

theorem api_refines (S : ApiSetup) :
    (api S).Refines (system S.toSetup) (ApiTask.behind S) Responds Call.readsJob := by
  refine ⟨rfl, rfl, rfl, ?_, ?_, ?_⟩
  · intro c hc x w
    obtain ⟨id, rfl⟩ := hc
    rfl
  · intro t t' w w' q hbehind hstart
    cases t with
    | tick =>
      cases hbehind
      cases hstart
      exact ⟨_, rfl, servedBy_answers _ _ _ (fun _ => rfl) fun _ => rfl⟩
    | deliver m =>
      cases hbehind
      obtain ⟨⟨w₁, p⟩, hp, heq⟩ := Option.map_eq_some_iff.mp hstart
      cases heq
      refine ⟨p, hp, ?_⟩
      exact (ServedBy.refl p).bind (fun r b hr => ⟨.ok none, rfl, by rw [hr]; rfl⟩)
        fun r e hr => by rw [hr]; rfl
    | request request =>
      cases hstart
      obtain ⟨p, hp, hserved⟩ := serve_serves hbehind w
      refine ⟨p, hp, hserved.bind ?_ ?_⟩
      · intro r response hr
        cases hr
        exact ⟨_, rfl, rfl⟩
      · intro r e hr
        cases hr
  · intro t w w' q hbehind hstart
    cases t with
    | tick => cases hbehind
    | deliver m => cases hbehind
    | request request =>
      cases hstart
      exact ⟨rfl, (serve_idle hbehind).bind fun _ => trivial⟩

/-- Every run of the API is a run of the system behind it, of tasks that the schemas let through,
with the same stores. -/
theorem api_run {w₀ : World} {s : ApiState} (hr : ApiReachable S w₀ s) :
    ∃ s', (system S.toSetup).Run (Schemed S.toSetup) (.fresh w₀) s' ∧
      Machine.Mirrors (ApiTask.behind S) Responds Call.readsJob s s' := by
  refine (api_refines S).run ?_ hr
  intro s s' e e' _ _ hlow t ht
  subst ht
  cases hlow with
  | begin hbehind => exact behind_within hbehind

theorem api_only {t : ApiTask} {w w' : World} {q : Promise (Option HttpResponse)}
    (h : (api S).start t w = some (w', q)) :
    q.Only fun c => t.behind S = none → c.readsJob := by
  cases hbehind : t.behind S with
  | some t' => exact only_of_forall fun _ hnone => by cases hnone
  | none => exact ((api_refines S).idles t w w' q hbehind h).2.only.mono fun _ hc _ => hc

end Refinement

/-! ## Runs of the API -/

abbrev ApiEntry : Type := Entry Call.Reply Failure ApiTask Outside

def ApiEntry.stalls (m : Nat) : ApiEntry → Bool
  | .outside (.stall m') => m' = m
  | _ => false

theorem stalls_behind (S : ApiSetup) (tags : List ApiTask) (m : Nat) (tr : List ApiEntry) :
    stalls m (tr.filterMap (Entry.behind (ApiTask.behind S) tags)) =
      tr.countP (ApiEntry.stalls m) := by
  rw [stalls, List.count, List.countP_filterMap]
  apply List.countP_congr
  intro x _
  cases x with
  | began i t =>
    cases h : t.behind S <;> simp [Entry.behind, ApiEntry.stalls, h]
  | called i c reply seen =>
    cases h : served (ApiTask.behind S) tags i <;> simp [Entry.behind, ApiEntry.stalls, h]
  | stopped i =>
    cases h : served (ApiTask.behind S) tags i <;> simp [Entry.behind, ApiEntry.stalls, h]
  | outside x =>
    cases x with
    | expire key => simp [Entry.behind, ApiEntry.stalls]
    | stall m' => simp [Entry.behind, ApiEntry.stalls]

/-- Every run of the API is a run of the system, with the same stores and, but for requests without
a task, the same trace. A request with a task is answered with what its own thread has come to
there, and one without a task has at most read one job. -/
theorem api_refines_system {S : ApiSetup} {w₀ : World} {s : ApiState}
    (hr : ApiReachable S w₀ s) :
    ∃ s', (system S.toSetup).Run (Schemed S.toSetup) (.fresh w₀) s' ∧ s'.world = s.world ∧
      s'.trace = s.trace.filterMap (Entry.behind (ApiTask.behind S) s.tags) ∧
      (∀ i request r t, s.Live i (.request request) (.done r) →
        behindRequest S request = some t →
          ∃ r', s'.Live (rank (ApiTask.behind S) s.tags i) t (.done r') ∧
            r = .ok (some (respond r'))) ∧
      ∀ i c reply seen, Entry.called i c reply seen ∈ s.trace →
        ∃ t, s.tags[i]? = some t ∧ (t.behind S = none → c.readsJob) := by
  obtain ⟨s', hr', hm⟩ := api_run hr
  refine ⟨s', hr', hm.world, hm.trace, ?_, ?_⟩
  · intro i request r t hi hbehind
    exact hm.answered (t := .request request) hbehind hi
  · intro i c reply seen hcall
    obtain ⟨t, htag, honly⟩ := hr.called_only
      (P := fun t c => t.behind S = none → c.readsJob) (fun _ _ _ _ => api_only) hcall
    refine ⟨t, ?_, honly⟩
    rw [State.tags, List.getElem?_map, htag]

/-- Whatever is requested, in every run that starts with rows within the bounds of the schemas all
rows stay within them, and an execution is called back at most 51 times, and once more for each
time its message is found stalled. -/
theorem api_rows_within {S : ApiSetup} {jobs : List Job} {hjobs : (jobs.map (·.id)).Nodup}
    {clock : Nat → Int} (hwithin : ∀ job ∈ jobs, job.Within S.toSetup) {s : ApiState}
    (hr : ApiReachable S (.initial jobs hjobs clock) s) :
    (∀ job ∈ s.world.db.jobs, job.Within S.toSetup) ∧
      ∀ e, s.world.fetches.countP (Fetch.of e) = 0 ∨ ∃ m x, s.world.queue[m]? = some x ∧
        x.data.executionId = e ∧
          s.world.fetches.countP (Fetch.of e) ≤ 51 + s.trace.countP (ApiEntry.stalls m) := by
  obtain ⟨s', hr', hm⟩ := api_run hr
  rw [← hm.world]
  refine ⟨(RowsWithin.of_run hwithin hr').rows, fun e => ?_⟩
  have hcalls := callbacks_within hwithin hr' e
  rw [hm.trace] at hcalls
  simpa only [stalls_behind] using hcalls

namespace Sample

/-- The API with the key "k1". -/
def apiSetup : ApiSetup := ⟨setup, "k1"⟩

def deleteRequest (key : String) : HttpRequest :=
  ⟨.delete "job-1", ⟨some ("Bearer " ++ key), none⟩, .json (.object []), false⟩

def apiAnswered (i : Nat) : Event ApiTask Choice Outside Failure := .resume i (.answered {})

/-- The job is fired and called back; then it is deleted, after an attempt with a wrong key. -/
def apiRun : List (Event ApiTask Choice Outside Failure) :=
  [.begin .tick] ++ List.replicate 4 (apiAnswered 0) ++
    [.begin (.deliver 0)] ++ List.replicate 9 (apiAnswered 1) ++
    [.begin (.request (deleteRequest "k2")), .begin (.request (deleteRequest "k1"))] ++
    List.replicate 2 (apiAnswered 3)

end Sample

theorem Sample.job_within : Sample.job.Within Sample.setup where
  name := by decide
  cronExpression := by decide
  callbackUrl := rfl
  timezone := by decide
  maxRetries := by decide
  backoffMs := by decide
  callbackTimeoutMs := Or.inl (by decide)

theorem api_refines_system_deleted : ∃ s : ApiState, s.threads.length = 4 ∧
    ∃ s', (system Sample.setup).Run (Schemed Sample.setup) (.fresh Sample.world) s' ∧
      s'.world = s.world ∧
      s'.trace = s.trace.filterMap (Entry.behind (ApiTask.behind Sample.apiSetup) s.tags) ∧
      (∀ i request r t, s.Live i (.request request) (.done r) →
        behindRequest Sample.apiSetup request = some t →
          ∃ r', s'.Live (rank (ApiTask.behind Sample.apiSetup) s.tags i) t (.done r') ∧
            r = .ok (some (respond r'))) ∧
      ∀ i c reply seen, Entry.called i c reply seen ∈ s.trace →
        ∃ t, s.tags[i]? = some t ∧ (t.behind Sample.apiSetup = none → c.readsJob) := by
  have hrun : ((api Sample.apiSetup).run (.fresh Sample.world) Sample.apiRun).map
      (fun s => s.threads.length) = some 4 := by decide +kernel
  obtain ⟨s, hs, hlength⟩ := Option.map_eq_some_iff.mp hrun
  have hr : ApiReachable Sample.apiSetup Sample.world s := .of_run hs fun _ _ _ => trivial
  exact ⟨s, hlength, api_refines_system hr⟩

theorem api_rows_within_callback : ∃ s : ApiState, s.world.fetches.countP (Fetch.of 0) = 1 ∧
    (∀ job ∈ s.world.db.jobs, job.Within Sample.setup) ∧
      ∀ e, s.world.fetches.countP (Fetch.of e) = 0 ∨ ∃ m x, s.world.queue[m]? = some x ∧
        x.data.executionId = e ∧
          s.world.fetches.countP (Fetch.of e) ≤ 51 + s.trace.countP (ApiEntry.stalls m) := by
  have hrun : ((api Sample.apiSetup).run (.fresh Sample.world) Sample.apiRun).map
      (fun s => s.world.fetches.countP (Fetch.of 0)) = some 1 := by decide +kernel
  obtain ⟨s, hs, hcount⟩ := Option.map_eq_some_iff.mp hrun
  have hr : ApiReachable Sample.apiSetup Sample.world s := .of_run hs fun _ _ _ => trivial
  refine ⟨s, hcount, api_rows_within ?_ hr⟩
  intro job hjob
  rw [List.mem_singleton.mp hjob]
  exact Sample.job_within

end CronHive
