import CronHive.Async.Streak
import CronHive.TickIsolation

/-!
# Every stored job was validated

`updateJob` checks an expression and a timezone against the row it read, which other requests may
change before the update is stored. cron-parser takes the two apart, so that what is stored passes
the check with whatever the row holds by then. A URL is stored only by a request that has checked
it.
-/

namespace CronHive

set_option autoImplicit false

open Async Async.Prog Async.Machine

/-- cron-parser accepts an expression in a timezone if it accepts each of them. -/
structure CronGrammar (P : Platform) where
  expression : String → Prop
  zone : String → Prop
  parses : ∀ cronExpression timezone,
    P.cronParses cronExpression timezone = true ↔ expression cronExpression ∧ zone timezone

/-- Some of these calls are those of a check of the URL that returned ok. -/
def UrlChecked (S : Setup) (calls : CallLog) (url : String) : Prop :=
  ∃ before check after result, calls = before ++ check ++ after ∧
    (assertSafeCallbackUrl S.platform url S.env.allowPrivateCallbacks).Ran check (.ok result) ∧
    result.ok = true

/-- A statement of thread `i` that put this URL into the row of job `id`. -/
inductive StoresUrl (i : Nat) (id : JobId) (url : String) : TraceEntry → Prop where
  | created {data : JobCreate} {job : Job} {seen : Except Failure Job} (hid : job.id = id)
      (hurl : data.callbackUrl = url) :
      StoresUrl i id url (.called i (.jobCreate data) (some (.ok job)) seen)
  | updated {data : JobUpdate} {job : Job} {seen : Except Failure Job}
      (hurl : data.callbackUrl = some url) :
      StoresUrl i id url (.called i (.jobUpdate id data) (some (.ok job)) seen)

/-- The row would pass `assertValidCron`, and every request that put its URL there, one at least,
had checked the URL before. -/
structure Validated (S : Setup) (tr : List TraceEntry) (job : Job) : Prop where
  cron : assertValidCron S.platform job.cronExpression job.timezone = pure ()
  stored : ∃ i, ∃ x ∈ tr, StoresUrl i job.id job.callbackUrl x
  checked : ∀ i x before after, tr = before ++ x :: after →
    StoresUrl i job.id job.callbackUrl x → UrlChecked S (callsOf before i) job.callbackUrl

/-! ## The checks of one request -/

section Requests

variable (S : Setup) (G : CronGrammar S.platform)

/-- Writes a request's calls down and lets it store only what it has checked. -/
def validator : Monitor Call.Reply Failure CallLog where
  permits calls
    | .jobCreate data => (G.expression data.cronExpression ∧ G.zone (timezoneOrUTC data.timezone)) ∧
        UrlChecked S calls data.callbackUrl
    | .jobUpdate _ data => ((∀ e ∈ data.cronExpression, G.expression e) ∧
          ∀ z ∈ data.timezone, G.zone (timezoneOrUTC z)) ∧
        ∀ url ∈ data.callbackUrl, UrlChecked S calls url
    | _ => True
  admits _ _ _ := True
  next calls op seen := calls ++ [⟨op, seen⟩]

theorem validator_ensureSafeCallback (url : String) (calls : CallLog) :
    (ensureSafeCallback S url).wp (validator S G) calls fun calls' r =>
      r = .ok () → UrlChecked S calls' url := by
  unfold ensureSafeCallback
  rw [bind_eq, wp_bind]
  refine wp_mono ?_ ((only_assertSafeCallbackUrl S url _).wp_ran (fun calls c hc => ?_)
    (fun _ _ _ => rfl) calls)
  · rintro calls' r ⟨check, rfl, hran⟩
    cases r with
    | error e =>
      intro hr
      cases hr
    | ok result =>
      dsimp only
      split
      · rename_i hok
        exact fun _ => ⟨calls, check, [], result, by simp, hran, hok⟩
      · intro hr
        cases hr
  · cases c <;> trivial

theorem validator_createJob (input : CreateJobInput) :
    (createJob S input).wp (validator S G) [] fun _ _ => True := by
  unfold createJob assertValidCron
  rw [bind_eq, wp_bind]
  split
  · rename_i hparses
    rw [pure_eq, wp_ret]
    dsimp only
    rw [bind_eq, wp_bind]
    refine wp_mono ?_ (validator_ensureSafeCallback S G input.callbackUrl [])
    intro calls r hchecked
    cases r with
    | error e => trivial
    | ok u =>
      refine (wp_call_bind ..).mpr ⟨⟨(G.parses _ _).mp hparses, hchecked rfl⟩, fun job _ => ?_,
        fun _ _ => trivial⟩
      refine (wp_call_bind ..).mpr ⟨trivial, fun _ _ => trivial, fun _ _ => trivial⟩
  · trivial

theorem validator_checkCronUpdate (id : JobId) (data : UpdateJobInput) :
    (checkCronUpdate S id data).wp (validator S G) [] fun _ r => r = .ok true →
      (∀ e ∈ data.cronExpression, G.expression e) ∧
        ∀ z ∈ data.timezone, G.zone (timezoneOrUTC z) := by
  unfold checkCronUpdate
  split
  · refine (wp_call_bind ..).mpr ⟨trivial, fun found _ => ?_, fun _ _ hr => by cases hr⟩
    cases found with
    | none =>
      intro hr
      cases hr
    | some existing =>
      unfold assertValidCron
      dsimp only
      split
      · rename_i hparses
        obtain ⟨hexpression, hzone⟩ := (G.parses _ _).mp hparses
        intro _
        constructor
        · intro e he
          rwa [Option.mem_def.mp he] at hexpression
        · intro z hz
          rwa [Option.mem_def.mp hz] at hzone
      · intro hr
        cases hr
  · rename_i hnone
    intro _
    constructor
    · intro e he
      simp [Option.mem_def.mp he] at hnone
    · intro z hz
      simp [Option.mem_def.mp hz] at hnone

theorem validator_ensureSafeUpdate (data : UpdateJobInput) (calls : CallLog) :
    (ensureSafeUpdate S data).wp (validator S G) calls fun calls' r =>
      r = .ok () → ∀ url ∈ data.callbackUrl, UrlChecked S calls' url := by
  unfold ensureSafeUpdate
  cases data.callbackUrl with
  | none =>
    intro _ url hurl
    cases hurl
  | some rawUrl =>
    refine wp_mono ?_ (validator_ensureSafeCallback S G rawUrl calls)
    intro calls' r hchecked hr url hurl
    cases hurl
    exact hchecked hr

theorem validator_updateJob (id : JobId) (data : UpdateJobInput) :
    (updateJob S id data).wp (validator S G) [] fun _ _ => True := by
  unfold updateJob
  rw [bind_eq, wp_bind]
  refine wp_mono ?_ (validator_checkCronUpdate S G id data)
  intro calls r hcron
  rcases r with e | (_ | _)
  · trivial
  · trivial
  · dsimp only
    rw [if_pos rfl, bind_eq, wp_bind]
    refine wp_mono ?_ (validator_ensureSafeUpdate S G data calls)
    intro calls' r hchecked
    cases r with
    | error e => trivial
    | ok u =>
      rw [tryCatch_eq, wp_tryCatch]
      refine (wp_call_bind ..).mpr ⟨⟨hcron rfl, hchecked rfl⟩, fun job _ => ?_, fun _ _ => trivial⟩
      refine (wp_call_bind ..).mpr ⟨trivial, fun _ _ => ?_, fun _ _ => trivial⟩
      exact (wp_call_bind ..).mpr ⟨trivial, fun _ _ => trivial, fun _ _ => trivial⟩

theorem validator_begin (t : Task) (w w' : World) (p : Promise Response)
    (h : start S t w = some (w', p)) : p.wp (validator S G) [] fun _ _ => True := by
  have hbind {α : Type} (q : Promise α) (f : α → Response)
      (hq : q.wp (validator S G) [] fun _ _ => True) :
      (q.bind fun a => .ret (f a)).wp (validator S G) [] fun _ _ => True := by
    rw [wp_bind]
    refine wp_mono ?_ hq
    rintro calls (e | a) _ <;> trivial
  have hother (hcalls : ∀ c, t.Calls c → ∀ calls, (validator S G).permits calls c) :
      p.wp (validator S G) [] fun _ _ => True :=
    (only_start h).wp_permitted (fun calls c hc => hcalls c hc calls) []
  cases t with
  | createJob input =>
    cases h
    exact hbind _ _ (validator_createJob S G input)
  | updateJob id data =>
    cases h
    exact hbind _ _ (validator_updateJob S G id data)
  | setPaused id paused =>
    cases h
    exact hbind _ _ (validator_updateJob S G id _)
  | deliver m =>
    refine hother fun c hc calls => ?_
    obtain ⟨b, hb⟩ := hc
    cases c with
    | jobUpdate id data =>
      -- the breaker and the reset write neither of the three columns
      rcases hb.2 with rfl | rfl | rfl <;> simp [validator]
    | _ => trivial
  | _ =>
    refine hother fun c hc calls => ?_
    cases c <;> trivial

end Requests

/-! ## The table in a run -/

structure JobsValidated {S : Setup} (G : CronGrammar S.platform) (s : SystemState) : Prop where
  cron : ∀ job ∈ s.world.db.jobs, G.expression job.cronExpression ∧
    G.zone (timezoneOrUTC job.timezone)
  stored : ∀ job ∈ s.world.db.jobs, ∃ i, ∃ x ∈ s.trace, StoresUrl i job.id job.callbackUrl x
  checked : ∀ i id url x before after, s.trace = before ++ x :: after → StoresUrl i id url x →
    UrlChecked S (callsOf before i) url

section Runs

variable {S : Setup} {w₀ : World} {s s' : SystemState}

theorem validator_permits (G : CronGrammar S.platform) (hr : Reachable S w₀ s) {i : Nat} {c : Call}
    (hi : s.Awaits i c) :
    (validator S G).permits (callsOf s.trace i) c := by
  obtain ⟨tag, k, hi⟩ := hi
  exact (hr.monitored (validator S G) (fun _ => []) (fun _ _ _ => True) (validator_begin S G)
    (fun _ _ _ _ _ _ _ _ => trivial) hi).1

theorem urlChecked_of_stores (G : CronGrammar S.platform) (hr : Reachable S w₀ s) {i : Nat}
    {id : JobId} {url : String} {x : TraceEntry} (hx : StoresUrl i id url x) {e : SystemEvent}
    (hs : (system S).Step s e s') (htrace : s'.trace = s.trace ++ [x]) :
    UrlChecked S (callsOf s.trace i) url := by
  cases hx with
  | created _ hurl =>
    obtain ⟨tag, k, o, hi, _⟩ := hs.traced_call htrace
    rw [← hurl]
    exact (validator_permits G hr ⟨tag, k, hi⟩).2
  | updated hurl =>
    obtain ⟨tag, k, o, hi, _⟩ := hs.traced_call htrace
    exact (validator_permits G hr ⟨tag, k, hi⟩).2 url hurl

namespace JobsValidated

variable {G : CronGrammar S.platform}

theorem attend_cron (h : JobsValidated G s) (hr : Reachable S w₀ s) {i : Nat} {c : Call}
    (hi : s.Awaits i c) {a : Choice} {job : Job} (hjob : job ∈ (World.exec c a s.world).1.db.jobs) :
    G.expression job.cronExpression ∧ G.zone (timezoneOrUTC job.timezone) := by
  have hpermits := validator_permits G hr hi
  cases World.exec_jobs hjob with
  | kept hjob => exact h.cron job hjob
  | created hc _ hrow _ =>
    subst hc hrow
    exact hpermits.1
  | @updated j data hj hc hrow _ =>
    subst hc hrow
    obtain ⟨hexpression, hzone⟩ := h.cron j hj
    constructor
    · cases hdata : data.cronExpression with
      | none => simpa [JobUpdate.apply, hdata] using hexpression
      | some e => simpa [JobUpdate.apply, hdata] using hpermits.1.1 e hdata
    · cases hdata : data.timezone with
      | none => simpa [JobUpdate.apply, hdata] using hzone
      | some z => simpa [JobUpdate.apply, hdata] using hpermits.1.2 z hdata
  | @switched j _ _ hj _ _ hrow =>
    rw [hrow]
    exact h.cron j hj

theorem attend_stored (h : JobsValidated G s) {i : Nat} {c : Call} {a : Choice} {job : Job}
    {seen : Except Failure c.Reply} (hjob : job ∈ (World.exec c a s.world).1.db.jobs) :
    ∃ i', ∃ x ∈ s.trace ++ [.called i c (some (World.exec c a s.world).2) seen],
      StoresUrl i' job.id job.callbackUrl x := by
  have hold {j : Job} (hj : j ∈ s.world.db.jobs) (hid : job.id = j.id)
      (hurl : job.callbackUrl = j.callbackUrl) :
      ∃ i', ∃ x ∈ s.trace ++ [.called i c (some (World.exec c a s.world).2) seen],
        StoresUrl i' job.id job.callbackUrl x := by
    obtain ⟨i', x, hx, hstores⟩ := h.stored j hj
    rw [hid, hurl]
    exact ⟨i', x, List.mem_append_left _ hx, hstores⟩
  have hnew : Entry.called i c (some (World.exec c a s.world).2) seen ∈
      s.trace ++ [.called i c (some (World.exec c a s.world).2) seen] :=
    List.mem_append_right _ (List.mem_singleton.mpr rfl)
  cases World.exec_jobs hjob with
  | kept hjob => exact hold hjob rfl rfl
  | @created data hc _ hrow hok =>
    subst hc
    have hreply : (World.exec (.jobCreate data) a s.world).2 = .ok job := hok
    refine ⟨i, _, hnew, ?_⟩
    rw [hreply]
    exact .created rfl (by rw [hrow]; rfl)
  | @updated j data hj hc hrow hok =>
    subst hc
    have hreply : (World.exec (.jobUpdate j.id data) a s.world).2 = .ok job := hok
    cases hdata : data.callbackUrl with
    | none => exact hold hj (by rw [hrow]; rfl) (by simp [hrow, JobUpdate.apply, hdata])
    | some url =>
      refine ⟨i, _, hnew, ?_⟩
      rw [hreply, show job.id = j.id by rw [hrow]; rfl]
      exact .updated (by simp [hrow, JobUpdate.apply, hdata])
  | switched hj _ _ hrow => exact hold hj (by rw [hrow]) (by rw [hrow])

theorem step (h : JobsValidated G s) (hr : Reachable S w₀ s) {e : SystemEvent}
    (hs : (system S).Step s e s') : JobsValidated G s' := by
  have hchecked : ∀ i id url x before after, s'.trace = before ++ x :: after →
      StoresUrl i id url x → UrlChecked S (callsOf before i) url := by
    intro i id url x before after htrace hx
    obtain ⟨y, hy⟩ := hs.traced
    rcases append_singleton_split (hy.symm.trans htrace) with ⟨rfl, rfl, _⟩ | ⟨after', _, hbefore⟩
    · exact urlChecked_of_stores G hr hx hs hy
    · exact h.checked i id url x before after' hbefore hx
  have hsame (hdb : s'.world.db = s.world.db) : JobsValidated G s' := by
    refine ⟨?_, ?_, hchecked⟩
    · rw [hdb]
      exact h.cron
    · rw [hdb]
      intro job hjob
      obtain ⟨i, x, hx, hstores⟩ := h.stored job hjob
      exact ⟨i, x, hs.trace_subset hx, hstores⟩
  cases step_stores hs with
  | silent hdb _ => exact hsame hdb
  | expired hdb _ => exact hsame hdb
  | @call i tag c k o a hi hs' hreply hdb _ =>
    refine ⟨?_, ?_, hchecked⟩
    · rw [hdb]
      exact fun job hjob => h.attend_cron hr ⟨tag, k, hi⟩ hjob
    · rw [hdb]
      intro job hjob
      subst hs'
      simp only [resumed, hreply]
      exact h.attend_stored hjob

end JobsValidated

/-- Every row of every reachable state has been validated, whatever fails and however the requests
and the workers' updates are interleaved. -/
theorem stored_jobs_validated (G : CronGrammar S.platform) {clock : Nat → Int}
    (hr : Reachable S (.initial [] List.nodup_nil clock) s) :
    ∀ job ∈ s.world.db.jobs, Validated S s.trace job := by
  have hinv : JobsValidated G s := by
    refine hr.keeps ⟨?_, ?_, ?_⟩ fun s e s' hr ih _ hs => ih.step hr hs
    · intro job hjob
      cases hjob
    · intro job hjob
      cases hjob
    · intro i id url x before after htrace
      cases before <;> cases htrace
  intro job hjob
  refine ⟨?_, hinv.stored job hjob, fun i x before after => hinv.checked i _ _ x before after⟩
  rw [assertValidCron, if_pos ((G.parses _ _).mpr (hinv.cron job hjob))]

end Runs

namespace Sample

def twoZones : Platform where
  parseUrl := platform.parseUrl
  cronParses cronExpression timezone :=
    ["* * * * *", "0 9 * * *"].contains cronExpression &&
      ["UTC", "Europe/Berlin"].contains timezone
  cronPrev := platform.cronPrev

def twoZonesGrammar : CronGrammar twoZones where
  expression cronExpression := cronExpression ∈ ["* * * * *", "0 9 * * *"]
  zone timezone := timezone ∈ ["UTC", "Europe/Berlin"]
  parses _ _ := by rw [twoZones, Bool.and_eq_true, List.contains_iff_mem, List.contains_iff_mem]

/-- One request changes the expression and one the timezone, and both read the row before either
writes it. -/
def mergedUpdates : List SystemEvent :=
  [.begin (.createJob {
      name := "every minute"
      cronExpression := "* * * * *"
      callbackUrl := "https://hooks.example.com/run"
      maxRetries := 3
      backoffMs := 1000 }),
    .resume 0 (.answered { addresses := ["93.184.216.34"] }),
    .resume 0 (.answered { jobId := "job-1" }),
    .begin (.updateJob "job-1" { cronExpression := some "0 9 * * *" }),
    .begin (.updateJob "job-1" { timezone := some "Europe/Berlin" }),
    answered 1, answered 2, answered 1, answered 2]

end Sample

/-- The row ends with an expression and a timezone that no request has checked together. -/
theorem stored_jobs_validated_merged : ∃ s,
    Reachable ⟨{}, Sample.twoZones⟩ (.initial [] List.nodup_nil fun _ => 60010) s ∧
    s.world.db.jobs.map (fun job => (job.cronExpression, job.timezone)) =
      [("0 9 * * *", "Europe/Berlin")] ∧
    ∀ job ∈ s.world.db.jobs, Validated ⟨{}, Sample.twoZones⟩ s.trace job := by
  have hrun : ((system ⟨{}, Sample.twoZones⟩).run
      (.fresh (.initial [] List.nodup_nil fun _ => 60010)) Sample.mergedUpdates).map
        (fun s => s.world.db.jobs.map fun job => (job.cronExpression, job.timezone)) =
      some [("0 9 * * *", "Europe/Berlin")] := by decide +kernel
  obtain ⟨s, hs, hrows⟩ := Option.map_eq_some_iff.mp hrun
  have hr : Reachable ⟨{}, Sample.twoZones⟩ (.initial [] List.nodup_nil fun _ => 60010) s :=
    .of_run hs fun _ _ _ => trivial
  exact ⟨s, hr, hrows, stored_jobs_validated Sample.twoZonesGrammar hr⟩

end CronHive
