import CronHive.CallbackUrls

/-!
# Where callbacks go

The guard resolves a callback's host when the URL is stored; the worker's `fetch` resolves it
again and follows redirects. So a request goes to a public address as long as hosts resolve as
they did when their URLs were stored and redirects lead to such URLs only: every URL that is ever
fetched was stored by a request of the run, and the answer which that request saw was public
throughout.
-/

namespace CronHive

set_option autoImplicit false

open Async Async.Prog Async.Machine

def Public (address : String) : Prop := isPrivateAddress address = false

/-! ## The guard, seen from one request -/

/-- Follows the one lookup of a request. -/
def guard : Monitor Call.Reply Failure (Option (List String)) where
  permits answer
    | .dnsLookup _ => answer = none
    | .jobCreate _ => ∃ addresses, answer = some addresses ∧ ∀ a ∈ addresses, Public a
    | .jobUpdate _ data => data.callbackUrl.isSome →
        ∃ addresses, answer = some addresses ∧ ∀ a ∈ addresses, Public a
    | _ => True
  admits _ _ _ := True
  next answer
    | .dnsLookup _ => fun
      | .ok addresses => some addresses
      | .error _ => some []
    | _ => fun _ => answer

section Guard

variable (S : Setup)

theorem guard_checkCronUpdate (id : JobId) (data : UpdateJobInput) :
    (checkCronUpdate S id data).wp guard none fun answer _ => answer = none := by
  unfold checkCronUpdate assertValidCron
  simp only [wp_ite, bind_eq, wp_bind, pure_eq, wp_ret, wp_call]
  split
  · refine ⟨trivial, fun r _ => ?_⟩
    rcases r with e | (_ | existing)
    · rfl
    · rfl
    · simp only [wp_ite, wp_bind, throw_eq, wp_ret, wp_fail]
      split <;> rfl
  · trivial

variable (hS : S.env.allowPrivateCallbacks = false)
include hS

theorem guard_ensureSafeCallback (url : String) :
    (ensureSafeCallback S url).wp guard none fun answer r => r = .ok () →
      ∃ addresses, answer = some addresses ∧ ∀ a ∈ addresses, Public a := by
  have hcheck : (assertSafeCallbackUrl S.platform url false).wp guard none fun answer r =>
      ∀ result, r = .ok result → result.ok = true →
        ∃ addresses, answer = some addresses ∧ ∀ a ∈ addresses, Public a := by
    unfold assertSafeCallbackUrl
    split
    · rintro result ⟨⟩ ⟨⟩
    · split
      · rintro result ⟨⟩ ⟨⟩
      · simp only [Bool.false_eq_true, if_false, bind_eq, wp_bind, tryCatch_eq, wp_tryCatch,
          wp_call]
        refine ⟨rfl, fun r _ => ?_⟩
        cases r with
        | error e =>
          rintro result ⟨⟩ hok
          cases hok
        | ok addresses =>
          rintro result ⟨⟩ hok
          obtain ⟨addresses', heq, _, hpublic⟩ := checkAddresses_ok_iff.mp hok
          cases heq
          exact ⟨addresses, rfl, hpublic⟩
  unfold ensureSafeCallback
  rw [hS]
  simp only [bind_eq, wp_bind]
  refine wp_mono ?_ hcheck
  intro answer r hr
  cases r with
  | error e =>
    intro hr'
    cases hr'
  | ok result =>
    dsimp only
    split
    · rename_i hok
      exact fun _ => hr result rfl hok
    · intro hr'
      cases hr'

theorem guard_createJob (input : CreateJobInput) :
    (createJob S input).wp guard none fun _ _ => True := by
  unfold createJob assertValidCron
  simp only [bind_eq, wp_bind, wp_ite, pure_eq, throw_eq, wp_ret, wp_fail]
  split
  · refine wp_mono ?_ (guard_ensureSafeCallback S hS input.callbackUrl)
    intro answer r hr
    cases r with
    | error e => trivial
    | ok _ =>
      simp only [cacheJobConfig, wp_call]
      refine ⟨hr rfl, fun r _ => ?_⟩
      cases r with
      | error e => trivial
      | ok job =>
        refine ⟨trivial, fun r _ => ?_⟩
        cases r <;> trivial
  · trivial

theorem guard_ensureSafeUpdate (data : UpdateJobInput) :
    (ensureSafeUpdate S data).wp guard none fun answer r => r = .ok () →
      data.callbackUrl.isSome →
        ∃ addresses, answer = some addresses ∧ ∀ a ∈ addresses, Public a := by
  unfold ensureSafeUpdate
  split
  · refine wp_mono ?_ (guard_ensureSafeCallback S hS _)
    intro answer r hr hok _
    exact hr hok
  · rename_i hnone
    intro _ hsome
    rw [hnone] at hsome
    cases hsome

theorem guard_updateJob (id : JobId) (data : UpdateJobInput) :
    (updateJob S id data).wp guard none fun _ _ => True := by
  unfold updateJob
  simp only [bind_eq, wp_bind]
  refine wp_mono ?_ (guard_checkCronUpdate S id data)
  intro answer r hanswer
  subst hanswer
  cases r with
  | error e => trivial
  | ok found =>
    dsimp only
    simp only [wp_ite, wp_bind, pure_eq, wp_ret]
    split
    · refine wp_mono ?_ (guard_ensureSafeUpdate S hS data)
      intro answer r hr
      cases r with
      | error e => trivial
      | ok _ =>
        simp only [tryCatch_eq, wp_tryCatch, wp_bind, wp_call, invalidateJobConfig, cacheJobConfig]
        refine ⟨hr rfl, fun r _ => ?_⟩
        cases r with
        | error e => trivial
        | ok job =>
          refine ⟨trivial, fun r _ => ?_⟩
          cases r with
          | error e => trivial
          | ok _ =>
            refine ⟨trivial, fun r _ => ?_⟩
            cases r <;> trivial
    · trivial

theorem guard_begin (t : Task) (w w' : World) (p : Promise Response)
    (h : start S t w = some (w', p)) : p.wp guard none fun _ _ => True := by
  have hbind {α : Type} (q : Promise α) (f : α → Response)
      (hq : q.wp guard none fun _ _ => True) :
      (q.bind fun a => .ret (f a)).wp guard none fun _ _ => True := by
    rw [wp_bind]
    refine wp_mono ?_ hq
    rintro st (e | a) _ <;> trivial
  have hother (hcalls : ∀ c, t.Calls c → ∀ answer, guard.permits answer c) :
      p.wp guard none fun _ _ => True :=
    (only_start h).wp_permitted (fun answer c hc => hcalls c hc answer) none
  cases t with
  | createJob input =>
    cases h
    exact hbind _ _ (guard_createJob S hS input)
  | updateJob id data =>
    cases h
    exact hbind _ _ (guard_updateJob S hS id data)
  | setPaused id paused =>
    cases h
    exact hbind _ _ (guard_updateJob S hS id _)
  | deliver m =>
    refine hother fun c hc answer => ?_
    obtain ⟨b, hb⟩ := hc
    cases c with
    | jobUpdate id data =>
      intro hsome
      rcases hb.2 with rfl | rfl | rfl <;> cases hsome
    | _ => trivial
  | _ =>
    refine hother fun c hc answer => ?_
    cases c <;> trivial

end Guard

/-! ## What was answered and what was stored -/

/-- A lookup of thread `i` was answered with this address, among others. -/
def Answered (tr : List TraceEntry) (i : Nat) (address : String) : Prop :=
  ∃ host reply addresses, Entry.called i (.dnsLookup host) reply (.ok addresses) ∈ tr ∧
    address ∈ addresses

structure GuardKept (s : SystemState) : Prop where
  answered : ∀ i host reply addresses,
    Entry.called i (.dnsLookup host) reply (.ok addresses) ∈ s.trace →
    guard.stateAt i none s.trace = some addresses
  stored : ∀ i url, StoredBy s.trace i url →
    ∃ addresses, guard.stateAt i none s.trace = some addresses ∧ ∀ a ∈ addresses, Public a

section Runs

variable {S : Setup} {s s' : SystemState} {w₀ : World}

theorem guard_permits (hS : S.env.allowPrivateCallbacks = false) (hr : Reachable S w₀ s) {i : Nat}
    {c : Call} (hi : s.Awaits i c) : guard.permits (guard.stateAt i none s.trace) c := by
  obtain ⟨tag, k, hi⟩ := hi
  exact (hr.monitored guard (fun _ => none) (fun _ _ _ => True) (guard_begin S hS)
    (fun _ _ _ _ _ _ _ _ => trivial) hi).1

/-- A request looks up one host, so its answer stays what it is. -/
theorem guard_next {addresses : List String} {c : Call} (r : Except Failure c.Reply)
    (h : guard.permits (some addresses) c) : guard.next (some addresses) c r = some addresses := by
  cases c with
  | dnsLookup host => cases h
  | _ => rfl

namespace GuardKept

theorem stable (hS : S.env.allowPrivateCallbacks = false) (hr : Reachable S w₀ s)
    {e : SystemEvent} (hs : (system S).Step s e s') {i : Nat} {addresses : List String}
    (h : guard.stateAt i none s.trace = some addresses) :
    guard.stateAt i none s'.trace = some addresses := by
  rcases hs.stateAt guard i none with heq | ⟨tag, op, k, o, hi, _, _, heq⟩
  · exact heq.trans h
  · have hp := guard_permits hS hr ⟨tag, k, hi⟩
    rw [h] at hp heq
    exact heq.trans (guard_next _ hp)

theorem step (h : GuardKept s) (hS : S.env.allowPrivateCallbacks = false)
    (hr : Reachable S w₀ s) {e : SystemEvent} (hs : (system S).Step s e s') : GuardKept s' := by
  have keep : ∀ i, (∃ addresses, guard.stateAt i none s.trace = some addresses ∧
      ∀ a ∈ addresses, Public a) →
      ∃ addresses, guard.stateAt i none s'.trace = some addresses ∧ ∀ a ∈ addresses, Public a := by
    intro i hp
    obtain ⟨addresses, hst, hpublic⟩ := hp
    exact ⟨addresses, stable hS hr hs hst, hpublic⟩
  constructor
  · intro i host reply addresses hm
    rcases hs.called hm with hm | ⟨tag, k, o, hi, he, rfl, _, hseen⟩
    · exact stable hS hr hs (h.answered i host reply addresses hm)
    · simp only [resumed, Monitor.stateAt_append, Monitor.observe, if_true]
      rw [hseen]
      rfl
  · intro i url hstored
    rcases hstored with ⟨data, job, seen, hm, hurl⟩ | ⟨id, data, job, seen, hm, hurl⟩
    · rcases hs.called hm with hm | ⟨tag, k, o, hi, _⟩
      · exact keep i (h.stored i url (Or.inl ⟨data, job, seen, hm, hurl⟩))
      · exact keep i (guard_permits hS hr ⟨tag, k, hi⟩)
    · rcases hs.called hm with hm | ⟨tag, k, o, hi, _⟩
      · exact keep i (h.stored i url (Or.inr ⟨id, data, job, seen, hm, hurl⟩))
      · exact keep i (guard_permits hS hr ⟨tag, k, hi⟩ (by rw [hurl]; rfl))

theorem of_reachable (hS : S.env.allowPrivateCallbacks = false) {clock : Nat → Int}
    (h : Reachable S (.initial [] List.nodup_nil clock) s) : GuardKept s := by
  refine h.keeps ⟨?_, ?_⟩ fun s e s' hr ih _ hs => ih.step hS hr hs
  · intro i host reply addresses hm
    cases hm
  · intro i url hstored
    rcases hstored with ⟨_, _, _, hm, _⟩ | ⟨_, _, _, _, hm, _⟩ <;> cases hm

/-- The answer that a request was given before it stored a URL is public. -/
theorem answer_public (h : GuardKept s) {i : Nat} {url address : String}
    (hstored : StoredBy s.trace i url) (ha : Answered s.trace i address) : Public address := by
  obtain ⟨host, reply, addresses, hm, hmem⟩ := ha
  obtain ⟨addresses', hst, hpublic⟩ := h.stored i url hstored
  have heq := hst.symm.trans (h.answered i host reply addresses hm)
  cases heq
  exact hpublic address hmem

end GuardKept

end Runs

/-! ## Requests -/

/-- The address is in the answer that a request was given which stored the URL. -/
def Checked (tr : List TraceEntry) (url address : String) : Prop :=
  ∃ i, StoredBy tr i url ∧ Answered tr i address

/-- At each `fetch` hosts resolve as they did when their URLs were stored, those that redirects
lead to like the first. -/
def resolvesAsChecked (s : SystemState) : SystemEvent → Prop
  | .resume i (.answered x) => ∀ url body timeoutMs, s.Awaits i (.fetch url body timeoutMs) →
      ∀ hop ∈ x.exchange.hopsFrom url, Checked s.trace hop.url hop.address
  | .resume i (.lost x _) => ∀ url body timeoutMs, s.Awaits i (.fetch url body timeoutMs) →
      ∀ hop ∈ x.exchange.hopsFrom url, Checked s.trace hop.url hop.address
  | _ => True

theorem Checked.public {s : SystemState} (hg : GuardKept s) {url address : String}
    (h : Checked s.trace url address) : Public address := by
  obtain ⟨i, hstored, ha⟩ := h
  exact hg.answer_public hstored ha

/-- Every request of a callback goes to a public address, for a URL that was stored by a
request of the run. -/
theorem callbacks_stay_public {S : Setup} (hS : S.env.allowPrivateCallbacks = false)
    {clock : Nat → Int} {s : SystemState}
    (h : (system S).Run resolvesAsChecked (.fresh (.initial [] List.nodup_nil clock)) s) :
    ∀ f ∈ s.world.fetches, Stored s.trace f.url ∧
      ∀ hop ∈ f.hops, isPrivateAddress hop.address = false := by
  have hr : Reachable S (.initial [] List.nodup_nil clock) s := h.mono fun _ _ _ => trivial
  suffices hpublic : ∀ f ∈ s.world.fetches, ∀ hop ∈ f.hops, Public hop.address from
    fun f hf => ⟨(Provenance.of_reachable hr).fetched f hf, hpublic f hf⟩
  refine h.keeps (I := fun s => ∀ f ∈ s.world.fetches, ∀ hop ∈ f.hops, Public hop.address)
    (fun f hf => by cases hf) ?_
  intro s e s' hrun ih hok hs f hf
  have hg := GuardKept.of_reachable hS (hrun.mono fun _ _ _ => trivial)
  cases hs with
  | begin hstart =>
    rw [spawned_fetches, (start_stores hstart).2.2] at hf
    exact ih f hf
  | @resume i tag op k o hi =>
    rw [resumed_fetches] at hf
    cases op with
    | fetch url body timeoutMs =>
      cases o with
      | answered x =>
        rcases List.mem_append.mp hf with hf | hf
        · exact ih f hf
        · cases List.mem_singleton.mp hf
          exact fun hop hhop => (hok url body timeoutMs ⟨tag, k, hi⟩ hop hhop).public hg
      | rejected e => exact ih f hf
      | lost x e =>
        rcases List.mem_append.mp hf with hf | hf
        · exact ih f hf
        · cases List.mem_singleton.mp hf
          exact fun hop hhop => (hok url body timeoutMs ⟨tag, k, hi⟩ hop hhop).public hg
    | _ => cases o <;> exact ih f hf
  | stop _ => exact ih f hf
  | @outside x w hx => cases x <;> cases hx <;> exact ih f hf

/-- A job is created, triggered and delivered, up to its callback. -/
def createAndDeliver : List SystemEvent :=
  [.begin (.createJob {
      name := "every minute"
      cronExpression := "* * * * *"
      callbackUrl := "https://hooks.example.com/run"
      maxRetries := 3
      backoffMs := 1000 }),
    .resume 0 (.answered { addresses := ["93.184.216.34"] }),
    .resume 0 (.answered { jobId := "job-1" }), Sample.answered 0,
    .begin (.trigger "job-1"), Sample.answered 1, Sample.answered 1, Sample.answered 1,
    Sample.answered 1,
    .begin (.deliver 0), Sample.answered 2, Sample.answered 2, Sample.answered 2,
    Sample.answered 2]

def createAndFetch (x : Exchange) : List SystemEvent :=
  createAndDeliver ++ [.resume 2 (.answered { exchange := x })]

def emptyWorld : World := .initial [] List.nodup_nil fun _ => 60010

def createdData : JobCreate where
  name := "every minute"
  cronExpression := "* * * * *"
  callbackUrl := "https://hooks.example.com/run"
  timezone := "UTC"
  maxRetries := 3
  backoffMs := 1000
  callbackTimeoutMs := 30000
  enabled := true
  paused := false

/-- The calls that check and store the URL of the created job, and the callback to come. -/
theorem delivered_checked : ((system Sample.setup).run (.fresh emptyWorld) createAndDeliver).map
    (fun s => decide (s.awaiting 2 = some (.fetch "https://hooks.example.com/run"
        ⟨"job-1", "every minute", 0, 1, 60010⟩ 30000) ∧
      Entry.answered 0 (.jobCreate createdData) (.ok (createdData.row "job-1")) ∈ s.trace ∧
      Entry.answered 0 (.dnsLookup "hooks.example.com") (.ok ["93.184.216.34"]) ∈ s.trace)) =
    some true := by decide +kernel

theorem callbacks_stay_public_resolved :
    ∃ s, (system Sample.setup).run (.fresh emptyWorld) (createAndFetch
        ⟨[⟨"https://hooks.example.com/run", "93.184.216.34"⟩], .response 200⟩) = some s ∧
      s.world.fetches.length = 1 ∧
      ∀ f ∈ s.world.fetches, Stored s.trace f.url ∧
        ∀ hop ∈ f.hops, isPrivateAddress hop.address = false := by
  have hrun : ((system Sample.setup).run (.fresh emptyWorld) (createAndFetch
      ⟨[⟨"https://hooks.example.com/run", "93.184.216.34"⟩], .response 200⟩)).map
      (·.world.fetches.length) = some 1 := by decide +kernel
  obtain ⟨s, hs, hlen⟩ := Option.map_eq_some_iff.mp hrun
  obtain ⟨s₁, hs₁, hfetch⟩ := run_append_singleton.mp hs
  have hchecked := delivered_checked
  rw [hs₁] at hchecked
  obtain ⟨hawaits, hcreated, hlookup⟩ := of_decide_eq_true (Option.some.inj hchecked)
  have hbefore : (system Sample.setup).Run resolvesAsChecked (.fresh emptyWorld) s₁ := by
    refine .of_run hs₁ ?_
    simp [createAndDeliver, Sample.answered, resolvesAsChecked, Exchange.hopsFrom]
  have hS : Sample.setup.env.allowPrivateCallbacks = false := rfl
  refine ⟨s, hs, hlen, callbacks_stay_public hS (.tail hbefore ?_ hfetch)⟩
  intro url body timeoutMs h hop hhop
  cases (State.awaiting_iff.mpr h).symm.trans hawaits
  cases List.mem_singleton.mp hhop
  exact ⟨0, Or.inl ⟨_, _, _, hcreated, rfl⟩, _, _, _, hlookup, List.mem_singleton.mpr rfl⟩

/-- The host resolves to a public address when the job is created and to the metadata service
when it is called. -/
theorem rebound_callback_is_private : ∃ s, Reachable Sample.setup emptyWorld s ∧
    Sample.setup.env.allowPrivateCallbacks = false ∧
    ∃ f ∈ s.world.fetches, ∃ hop ∈ f.hops, isPrivateAddress hop.address = true := by
  have hrun : ((system Sample.setup).run (.fresh emptyWorld) (createAndFetch
      ⟨[⟨"https://hooks.example.com/run", "169.254.169.254"⟩], .response 200⟩)).map
      (fun s => s.world.fetches.any fun f => f.hops.any fun hop => isPrivateAddress hop.address) =
      some true := by decide +kernel
  obtain ⟨s, hs, hany⟩ := Option.map_eq_some_iff.mp hrun
  refine ⟨s, .of_run hs fun _ _ _ => trivial, rfl, ?_⟩
  simpa using hany

end CronHive
