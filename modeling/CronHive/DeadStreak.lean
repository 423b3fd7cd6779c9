import CronHive.Async.Streak
import CronHive.CircuitBreaker

/-!
# The dead streak

The counter of a job is the number of increments since its last reset, whatever the workers
interleave, and each increment is told its own place in the streak. So the circuit breaker
misses no streak of the configured length and opens for no shorter one.
-/

namespace CronHive

set_option autoImplicit false

open Async Async.Prog Async.Machine

/-- `{ consecutiveDeadCount: { increment: 1 } }`. -/
abbrev countDead : JobUpdate := { consecutiveDeadCount := some (.increment 1) }

/-- `{ consecutiveDeadCount: 0 }`. -/
abbrev clearDead : JobUpdate := { consecutiveDeadCount := some (.set 0) }

/-- `{ enabled: false }`. -/
abbrev disable : JobUpdate := { enabled := some false }

/-- What a statement on the row of `j` does to its streak. -/
def deadMark (j : JobId) : TraceEntry → Mark
  | .called _ (.jobUpdate id data) (some (.ok _)) _ =>
      if id = j then
        if data = countDead then .counts else if data = clearDead then .ends else .neither
      else .neither
  | _ => .neither

/-! ## Inside `applyCircuitBreaker` -/

/-- Where a thread is: no delivery at all, outside `applyCircuitBreaker` (or before its
increment), or past the threshold test of `applyCircuitBreaker`. -/
inductive BreakerPhase where
  | elsewhere
  | outside
  | opening (id : JobId)
  | announcing (id : JobId)
  deriving DecidableEq, Repr

def BreakerPhase.permits : BreakerPhase → Call → Prop
  | .elsewhere, .jobUpdate _ data => data.consecutiveDeadCount = none
  | .elsewhere, _ => True
  | .outside, .jobUpdate _ data => data.enabled ≠ some false
  | .outside, _ => True
  | .opening id, c => c = .jobUpdate id disable
  | .announcing _, c => ∃ msg, c = .redisPublish msg

def BreakerPhase.next (env : Env) :
    BreakerPhase → (c : Call) → Except Failure c.Reply → BreakerPhase
  | .elsewhere, _, _ => .elsewhere
  | .outside, .jobUpdate id data, .ok row =>
      if data = countDead ∧ row.consecutiveDeadCount ≥ env.circuitBreakerConsecutiveDead
      then .opening id else .outside
  | .outside, _, _ => .outside
  | .opening id, .jobUpdate _ _, .ok _ => .announcing id
  | .opening _, _, _ => .outside
  | .announcing _, _, _ => .outside

def breaker (env : Env) : Monitor Call.Reply Failure BreakerPhase where
  permits := BreakerPhase.permits
  admits _ _ _ := True
  next := BreakerPhase.next env

def Announcing.permits (d : ExecutionJobData) : BreakerPhase → Call → Prop
  | .elsewhere, _ => False
  | .outside, .jobUpdate _ data => data = countDead ∨ data = clearDead
  | .outside, .redisPublish msg => ∀ j, ¬ msg.announces j
  | .outside, _ => True
  | .opening id, c => id = d.jobId ∧ c = .jobUpdate id disable
  | .announcing id, c => id = d.jobId ∧ ∃ msg, c = .redisPublish msg ∧ msg.announces id

/-- The same phases for the delivery of `d`: it opens the circuit of its own job, and sends the
alert for it and no other. -/
def announcer (env : Env) (d : ExecutionJobData) : Monitor Call.Reply Failure BreakerPhase where
  permits := Announcing.permits d
  admits _ _ _ := True
  next := BreakerPhase.next env

section Delivery

variable (env : Env) (b : BullJob)

theorem announcer_off (c : Call) (hc : c.offBreaker b) :
    (announcer env b.data).permits .outside c ∧
      ∀ r, (announcer env b.data).next .outside c r = .outside := by
  cases c with
  | jobUpdate id data =>
    have hdata : data = clearDead := hc
    subst hdata
    refine ⟨Or.inr rfl, fun r => ?_⟩
    cases r with
    | error e => rfl
    | ok row => simp [announcer, BreakerPhase.next]
  | redisPublish msg => exact ⟨hc, fun _ => rfl⟩
  | _ => exact ⟨trivial, fun _ => rfl⟩

theorem announcer_applyCircuitBreaker :
    (applyCircuitBreaker env b.data.jobId b.data.executionId).wp (announcer env b.data) .outside
      fun st _ => st = .outside := by
  refine (wp_call_bind ..).mpr ⟨Or.inl rfl, fun row _ => ?_, fun _ _ => rfl⟩
  by_cases hrow : row.consecutiveDeadCount ≥ env.circuitBreakerConsecutiveDead
  · have hopening : (announcer env b.data).next .outside (.jobUpdate b.data.jobId countDead)
        (.ok row) = .opening b.data.jobId := if_pos ⟨rfl, hrow⟩
    rw [hopening, if_pos hrow]
    refine (wp_call_bind ..).mpr ⟨⟨rfl, rfl⟩, fun _ _ => ?_, fun _ _ => rfl⟩
    intro _
    exact (wp_call ..).mpr ⟨⟨rfl, _, rfl, rfl, rfl⟩, fun _ _ => rfl⟩
  · have houtside : (announcer env b.data).next .outside (.jobUpdate b.data.jobId countDead)
        (.ok row) = .outside := if_neg fun h => hrow h.2
    rw [houtside, if_neg hrow]
    rfl

theorem announcer_deadLetter (errMsg : String) (statusCode : Option Nat) (durationMs : Int) :
    (deadLetter env b.data.executionId b.data.jobId b.attemptNumber errMsg statusCode
      durationMs).wp (announcer env b.data) .outside fun st _ => st = .outside := by
  intro now
  refine (wp_call_bind ..).mpr ⟨trivial, fun _ _ => ?_, fun _ _ => rfl⟩
  refine (wp_call_bind ..).mpr ⟨trivial, fun _ _ => ?_, fun _ _ => rfl⟩
  refine (wp_bind ..).mpr ((wp_inc ..).mpr ?_)
  refine (wp_bind ..).mpr (wp_mono ?_ (announcer_applyCircuitBreaker env b))
  intro st r hst
  subst hst
  cases r with
  | error e => rfl
  | ok _ =>
    apply Only.wp _ (announcer_off env b)
    exact Only.bind (only_await fun _ => id) fun _ => only_await fun _ h => nomatch h.1

theorem announcer_deliver (message : Nat) (token : Token) :
    (deliver env message token b).wp (announcer env b.data) .outside
      fun st _ => st = .outside :=
  wp_deliver_deadLetter env b (announcer_off env b) (announcer_deadLetter env b) message token

variable {env b} in
theorem breaker_of_announcer (st : BreakerPhase) (c : Call)
    (h : (announcer env b.data).permits st c) : (breaker env).permits st c := by
  cases st with
  | elsewhere => exact h.elim
  | outside =>
    cases c with
    | jobUpdate id data => rcases h with rfl | rfl <;> nofun
    | _ => trivial
  | opening id => exact h.2
  | announcing id =>
    obtain ⟨_, msg, hc, _⟩ := h
    exact ⟨msg, hc⟩

theorem breaker_deliver (message : Nat) (token : Token) :
    (deliver env message token b).wp (breaker env) .outside fun st _ => st = .outside :=
  wp_weaken breaker_of_announcer (fun _ _ _ h => h) (fun _ _ _ => rfl)
    (announcer_deliver env b message token)

end Delivery

/-- Requests leave the counter alone. -/
theorem Task.keeps_counter {t : Task} (ht : ∀ m, t ≠ .deliver m) {id : JobId} {data : JobUpdate}
    (h : t.Calls (.jobUpdate id data)) : data.consecutiveDeadCount = none := by
  cases t with
  | deliver m => exact absurd rfl (ht m)
  | createJob input => exact h
  | updateJob id' data' => exact h
  | setPaused id' paused => exact h
  | _ => exact h.elim

/-- Where the thread of a task begins. -/
def Task.breakerPhase : Task → BreakerPhase
  | .deliver _ => .outside
  | _ => .elsewhere

theorem breaker_begin {S : Setup} (t : Task) (w w' : World) (p : Promise Response)
    (h : start S t w = some (w', p)) :
    p.wp (breaker S.env) t.breakerPhase fun _ _ => True := by
  by_cases ht : ∃ m, t = .deliver m
  · obtain ⟨m, rfl⟩ := ht
    simp only [start] at h
    split at h
    · cases h
      refine (wp_bind ..).mpr (wp_mono ?_ (breaker_deliver S.env _ m w.nextToken))
      intro st r _
      cases r <;> trivial
    · cases h
  · have helsewhere : t.breakerPhase = .elsewhere := by
      cases t with
      | deliver m => exact absurd ⟨m, rfl⟩ ht
      | _ => rfl
    rw [helsewhere]
    refine wp_mono (fun _ _ _ => trivial) ((only_start h).wp fun c hc => ⟨?_, fun _ => rfl⟩)
    cases c with
    | jobUpdate id data => exact t.keeps_counter (fun m hm => ht ⟨m, hm⟩) hc
    | _ => trivial

/-! ## The counter -/

section Calls

variable {c : Call} {a : Choice} {w : World} {j : JobId} {n : Nat}

theorem deadMark_off (i : Nat) (reply : Option (Except Failure c.Reply))
    (seen : Except Failure c.Reply) (h : ∀ data, c ≠ .jobUpdate j data) :
    deadMark j (.called i c reply seen) = .neither := by
  cases c with
  | jobUpdate id data =>
    have hid : id ≠ j := fun hid => h data (by rw [hid])
    rcases reply with _ | _ | row
    · rfl
    · rfl
    · exact if_neg hid
  | _ => rfl

/-- A call moves the counter as it moves the streak. -/
theorem exec_counter (hnew : j ∉ w.db.jobIds → n = 0)
    (hcount : ∀ row, w.db.job? j = some row → row.consecutiveDeadCount = n)
    (hc : ∀ data, c = .jobUpdate j data →
      data.consecutiveDeadCount = none ∨ data = countDead ∨ data = clearDead)
    (i : Nat) (seen : Except Failure c.Reply) {row : Job}
    (hrow : (World.exec c a w).1.db.job? j = some row) :
    row.consecutiveDeadCount =
      (deadMark j (.called i c (some (World.exec c a w).2) seen)).onto n := by
  by_cases hupdate : ∃ data, c = .jobUpdate j data
  · obtain ⟨data, rfl⟩ := hupdate
    cases hj : w.db.job? j with
    | none =>
      simp only [World.exec, World.withDb, Postgres.jobUpdate, hj] at hrow
      cases hrow
    | some row₀ =>
      have hafter : row = data.apply row₀ := by
        have hget := Postgres.job?_jobUpdate data hj
        exact Option.some.inj (hrow.symm.trans hget)
      have hreply : (World.exec (.jobUpdate j data) a w).2 = .ok (data.apply row₀) := by
        simp [World.exec, World.withDb, Postgres.jobUpdate, hj]
      have hn : row₀.consecutiveDeadCount = n := hcount row₀ hj
      rw [hreply, hafter, ← hn]
      rcases hc data rfl with hnone | rfl | rfl
      · have hcounts : data ≠ countDead := fun h => by rw [h] at hnone; cases hnone
        have hclears : data ≠ clearDead := fun h => by rw [h] at hnone; cases hnone
        simp [deadMark, hcounts, hclears, JobUpdate.apply, hnone, Mark.onto]
      · simp [deadMark, JobUpdate.apply, CountUpdate.apply, Mark.onto]
      · simp [deadMark, JobUpdate.apply, CountUpdate.apply, Mark.onto]
  · rw [deadMark_off i _ seen fun data hdata => hupdate ⟨data, hdata⟩]
    obtain ⟨hmem, hid⟩ := Postgres.job?_eq_some.mp hrow
    have hold {row₀ : Job} (h : row₀ ∈ w.db.jobs) (hid : row₀.id = j) :
        row₀.consecutiveDeadCount = n := hcount row₀ (Postgres.job?_eq_some.mpr ⟨h, hid⟩)
    cases World.exec_jobs hmem with
    | kept h => exact hold h hid
    | created hc hnew' hrow' _ =>
      subst hrow'
      exact (hnew (hid ▸ hnew')).symm
    | updated h hc hrow' _ =>
      subst hrow'
      exact absurd ⟨_, hid ▸ hc⟩ hupdate
    | switched h hc hids hrow' =>
      subst hrow'
      have hn := hold h hid
      exact hn

end Calls

/-- The counter is the streak, and each increment is told its place in it. -/
structure Counted (s : SystemState) : Prop where
  known : ∀ i j data row seen,
    Entry.called i (.jobUpdate j data) (some (.ok row)) seen ∈ s.trace → j ∈ s.world.db.jobIds
  count : ∀ j row, s.world.db.job? j = some row →
    row.consecutiveDeadCount = streak (deadMark j) s.trace
  told : ∀ pre post i j row seen,
    s.trace = pre ++ .called i (.jobUpdate j countDead) (some (.ok row)) seen :: post →
      row.consecutiveDeadCount = streak (deadMark j)
        (pre ++ [.called i (.jobUpdate j countDead) (some (.ok row)) seen])

theorem deadMark_counts {j : JobId} {x : TraceEntry} (h : deadMark j x = .counts) :
    ∃ i row seen, x = .called i (.jobUpdate j countDead) (some (.ok row)) seen := by
  unfold deadMark at h
  split at h
  · rename_i i id data row seen
    split at h
    · rename_i hid
      split at h
      · rename_i hdata
        subst hid hdata
        exact ⟨i, row, seen, rfl⟩
      · split at h <;> cases h
    · cases h
  · cases h

theorem Counted.unborn {s : SystemState} (h : Counted s) {j : JobId}
    (hj : j ∉ s.world.db.jobIds) : streak (deadMark j) s.trace = 0 := by
  apply streak_eq_zero
  intro x hx hcounts
  obtain ⟨i, row, seen, rfl⟩ := deadMark_counts hcounts
  exact hj (h.known i j countDead row seen hx)

/-- What a step does to the tables, with the entry it leaves. -/
inductive TableStep (S : Setup) (s s' : SystemState) (e : SystemEvent) : Prop where
  | silent {x : TraceEntry} (hx : s'.trace = s.trace ++ [x])
      (hentry : ∀ i c r seen, x ≠ .called i c (some r) seen) (hdb : s'.world.db = s.world.db)
  | call {i : Nat} {tag : Task} {c : Call} {k : Except Failure c.Reply → Promise Response}
      {a : Choice} {seen : Except Failure c.Reply} (hi : s.Live i tag (.await c k))
      (hx : s'.trace = s.trace ++ [.called i c (some (World.exec c a s.world).2) seen])
      (hdb : s'.world.db = (World.exec c a s.world).1.db)

section Steps

variable {S : Setup} {w₀ : World} {s s' : SystemState} {j : JobId}

theorem step_tables {e : SystemEvent} (hs : (system S).Step s e s') : TableStep S s s' e := by
  cases hs with
  | @begin t w p h =>
    refine .silent (x := .began s.threads.length t) rfl ?_ ?_
    · intro i c r seen hx
      cases hx
    · rw [spawned_db, (start_stores h).1]
  | @resume i tag c k o h =>
    rcases attend_cases (M := system S) c o s.world with ⟨_, hw, hnone⟩ | ⟨a, hw, hreply, _⟩
    · refine .silent (x := .called i c none ((system S).attend c o s.world).2.2) ?_ ?_ ?_
      · rw [← hnone]
        rfl
      · intro i' c' r seen hx
        cases hx
      · rw [resumed_db, hw]
    · have hx : ((system S).resumed s i tag c k o).trace = s.trace ++
          [.called i c (some (World.exec c a s.world).2) ((system S).attend c o s.world).2.2] := by
        simp only [resumed, hreply]
        rfl
      refine .call h hx ?_
      rw [resumed_db, hw]
      rfl
  | @stop i tag c k h =>
    refine .silent (x := .stopped i) rfl ?_ rfl
    intro i' c' r seen hx
    cases hx
  | @outside x w h =>
    refine .silent (x := .outside x) rfl ?_ ?_
    · intro i c r seen hx
      cases hx
    · cases x <;> cases h <;> rfl

theorem called_jobUpdate {i i' : Nat} {c : Call} {a : Choice} {w : World} {data : JobUpdate}
    {row : Job} {seen : Except Failure c.Reply} {seen' : Except Failure Job}
    (h : (Entry.called i' (.jobUpdate j data) (some (.ok row)) seen' : TraceEntry) =
      .called i c (some (World.exec c a w).2) seen) :
    c = .jobUpdate j data ∧ (w.db.jobUpdate j data).2 = .ok row := by
  cases c with
  | jobUpdate id data' =>
    obtain ⟨_, hop, hreply, _⟩ := Entry.called.inj h
    obtain ⟨rfl, rfl⟩ := Call.jobUpdate.inj hop
    exact ⟨rfl, (Option.some.inj (eq_of_heq hreply)).symm⟩
  | _ => cases h

theorem deadMark_silent {x : TraceEntry} (h : ∀ i c r seen, x ≠ .called i c (some r) seen) :
    deadMark j x = .neither := by
  unfold deadMark
  split
  · exact absurd rfl (h _ _ _ _)
  · rfl

/-- The updates of a thread keep to the counter's statements. -/
theorem updates_counter (hr : Reachable S w₀ s) {i : Nat} {tag : Task} {data : JobUpdate}
    {k : Except Failure Job → Promise Response} (hi : s.Live i tag (.await (.jobUpdate j data) k)) :
    data.consecutiveDeadCount = none ∨ data = countDead ∨ data = clearDead := by
  have hcalls : tag.Calls (.jobUpdate j data) := (hr.only (fun _ _ _ _ => only_start) hi).1
  by_cases htag : ∃ m, tag = .deliver m
  · obtain ⟨m, rfl⟩ := htag
    obtain ⟨b, _, hdata⟩ := hcalls
    rcases hdata with rfl | rfl | rfl
    · exact Or.inr (Or.inl rfl)
    · exact Or.inl rfl
    · exact Or.inr (Or.inr rfl)
  · exact Or.inl (tag.keeps_counter (fun m hm => htag ⟨m, hm⟩) hcalls)

theorem counted_step (hr : Reachable S w₀ s) (h : Counted s) {e : SystemEvent}
    (hs : (system S).Step s e s') : Counted s' := by
  have hev := step_evolves hs
  cases step_tables hs with
  | @silent x hx hentry hdb =>
    constructor
    · intro i j data row seen hm
      rw [hx] at hm
      rcases List.mem_append.mp hm with hm | hm
      · exact hev.jobIds j (h.known i j data row seen hm)
      · exact absurd (List.mem_singleton.mp hm).symm (hentry _ _ _ _)
    · intro j row hrow
      rw [hx, streak_append_singleton, deadMark_silent hentry]
      exact h.count j row (hdb ▸ hrow)
    · intro pre post i j row seen htrace
      rw [hx] at htrace
      rcases append_singleton_split htrace with ⟨_, hlast, _⟩ | ⟨post', _, hbefore⟩
      · exact absurd hlast.symm (hentry _ _ _ _)
      · exact h.told pre post' i j row seen hbefore
  | @call i tag c k a seen hi hx hdb =>
    constructor
    · intro i' j data row seen' hm
      rw [hx] at hm
      rcases List.mem_append.mp hm with hm | hm
      · exact hev.jobIds j (h.known i' j data row seen' hm)
      · obtain ⟨_, hok⟩ := called_jobUpdate (List.mem_singleton.mp hm)
        obtain ⟨row₀, hrow₀, _, _⟩ := Postgres.jobUpdate_ok hok
        obtain ⟨hmem, hid⟩ := Postgres.job?_eq_some.mp hrow₀
        exact hev.jobIds j (hid ▸ s.world.db.job_known row₀ hmem)
    · intro j row hrow
      rw [hx, streak_append_singleton]
      refine exec_counter h.unborn (h.count j) ?_ i seen (hdb ▸ hrow)
      intro data hc
      subst hc
      exact updates_counter hr hi
    · intro pre post i' j row seen' htrace
      rw [hx] at htrace
      rcases append_singleton_split htrace with ⟨rfl, hlast, _⟩ | ⟨post', _, hbefore⟩
      · obtain ⟨_, hok⟩ := called_jobUpdate hlast
        obtain ⟨row₀, hrow₀, rfl, _⟩ := Postgres.jobUpdate_ok hok
        rw [streak_append_singleton, ← h.count j row₀ hrow₀]
        simp [deadMark, JobUpdate.apply, CountUpdate.apply, Mark.onto]
      · exact h.told pre post' i' j row seen' hbefore

theorem counted_of_reachable {jobs : List Job} {hjobs : (jobs.map (·.id)).Nodup}
    {clock : Nat → Int} (h₀ : ∀ job ∈ jobs, job.consecutiveDeadCount = 0)
    (hr : Reachable S (.initial jobs hjobs clock) s) : Counted s := by
  apply hr.keeps
  · constructor
    · intro i j data row seen hm
      cases hm
    · intro j row hrow
      exact h₀ row (Postgres.job?_eq_some.mp hrow).1
    · intro pre post i j row seen htrace
      simp [State.fresh] at htrace
  · intro s e s' hr ih _ hs
    exact counted_step hr ih hs

/-! ## The phases in a run -/

/-- Where thread `i`, a delivery, stands. -/
def breakerAt (env : Env) (tr : List TraceEntry) (i : Nat) : BreakerPhase :=
  (breaker env).stateAt i .outside tr

/-- Thread `i` is a delivery. -/
def IsDelivery (s : SystemState) (i : Nat) : Prop :=
  ∃ m, s.threads[i]?.map (·.tag) = some (.deliver m)

theorem breaker_permits (hr : Reachable S w₀ s) {i : Nat} {tag : Task} {c : Call}
    {k : Except Failure c.Reply → Promise Response} (hi : s.Live i tag (.await c k)) :
    ((breaker S.env).stateAt i tag.breakerPhase s.trace).permits c :=
  (hr.monitored (breaker S.env) Task.breakerPhase (fun _ _ _ => True) breaker_begin
    (fun _ _ _ _ _ _ _ _ => trivial) hi).1

theorem delivery_permits (hr : Reachable S w₀ s) {i : Nat} {tag : Task} {c : Call}
    {k : Except Failure c.Reply → Promise Response} (hi : s.Live i tag (.await c k))
    (hdelivery : IsDelivery s i) : (breakerAt S.env s.trace i).permits c := by
  obtain ⟨m, hm⟩ := hdelivery
  rw [hi] at hm
  cases hm
  exact breaker_permits hr hi

theorem delivery_of_counted (hr : Reachable S w₀ s) {i : Nat}
    {reply : Option (Except Failure Job)} {seen : Except Failure Job}
    (hm : Entry.called i (.jobUpdate j countDead) reply seen ∈ s.trace) : IsDelivery s i := by
  obtain ⟨tag, htag, hcalls⟩ := hr.called_only (fun _ _ _ _ => only_start) hm
  by_cases ht : ∃ m, tag = .deliver m
  · obtain ⟨m, rfl⟩ := ht
    exact ⟨m, htag⟩
  · cases tag.keeps_counter (fun m hm => ht ⟨m, hm⟩) hcalls

theorem IsDelivery.before {e : SystemEvent} (hs : (system S).Step s e s') {i : Nat} {tag : Task}
    (htag : s.threads[i]?.map (·.tag) = some tag) (h : IsDelivery s' i) : IsDelivery s i := by
  obtain ⟨m, hm⟩ := h
  have hsame : some tag = some (.deliver m) := (hs.tag htag).symm.trans hm
  cases hsame
  exact ⟨m, htag⟩

theorem next_opening {env : Env} {st : BreakerPhase} {c : Call} {r : Except Failure c.Reply}
    (h : st.next env c r = .opening j) :
    c = .jobUpdate j countDead ∧ ∃ row : Job, HEq r (Except.ok (ε := Failure) row) ∧
      row.consecutiveDeadCount ≥ env.circuitBreakerConsecutiveDead := by
  unfold BreakerPhase.next at h
  split at h
  · cases h
  · rename_i id data row
    split at h
    · rename_i hopen
      cases h
      obtain ⟨rfl, hcount⟩ := hopen
      exact ⟨rfl, row, .rfl, hcount⟩
    · cases h
  · cases h
  · cases h
  · cases h
  · cases h

theorem next_elsewhere {env : Env} {st : BreakerPhase} {c : Call} {r : Except Failure c.Reply}
    (h : st.next env c r = .elsewhere) : st = .elsewhere := by
  unfold BreakerPhase.next at h
  split at h
  · rfl
  · split at h <;> cases h
  · cases h
  · cases h
  · cases h
  · cases h

theorem breakerAt_delivery (env : Env) (tr : List TraceEntry) (i : Nat) :
    breakerAt env tr i ≠ .elsewhere := by
  refine (breaker env).stateAt_keeps (I := (· ≠ .elsewhere)) ?_ i ?_ tr
  · intro st c r hst h
    exact hst (next_elsewhere h)
  · nofun

theorem opening_of_disable {st : BreakerPhase} {data : JobUpdate} (hst : st ≠ .elsewhere)
    (h : st.permits (.jobUpdate j data)) (hdata : data.enabled = some false) :
    st = .opening j := by
  cases st with
  | elsewhere => exact absurd rfl hst
  | outside => exact absurd hdata h
  | opening id =>
    cases h
    rfl
  | announcing id =>
    obtain ⟨msg, hmsg⟩ := h
    cases hmsg

theorem outside_of_count {st : BreakerPhase} (h : st.permits (.jobUpdate j countDead)) :
    st = .outside := by
  cases st with
  | elsewhere => cases h
  | outside => rfl
  | opening id => cases h
  | announcing id =>
    obtain ⟨msg, hmsg⟩ := h
    cases hmsg

/-- A thread past the test has last made an increment that met the threshold. -/
theorem opening_counted {env : Env} {tr : List TraceEntry} {i : Nat}
    (h : breakerAt env tr i = .opening j) :
    ∃ pre mid reply row, tr = pre ++ .called i (.jobUpdate j countDead) reply (.ok row) :: mid ∧
      row.consecutiveDeadCount ≥ env.circuitBreakerConsecutiveDead ∧
      ∀ c reply seen, Entry.called i c reply seen ∉ mid := by
  induction tr using List.reverseRecOn with
  | nil => cases h
  | append_singleton tr x ih =>
    have hother (hkeep : breakerAt env (tr ++ [x]) i = breakerAt env tr i)
        (hx : ∀ c reply seen, x ≠ .called i c reply seen) :
        ∃ pre mid reply row,
          tr ++ [x] = pre ++ .called i (.jobUpdate j countDead) reply (.ok row) :: mid ∧
          row.consecutiveDeadCount ≥ env.circuitBreakerConsecutiveDead ∧
          ∀ c reply seen, Entry.called i c reply seen ∉ mid := by
      obtain ⟨pre, mid, reply, row, rfl, hcount, hmid⟩ := ih (hkeep.symm.trans h)
      refine ⟨pre, mid ++ [x], reply, row, by simp, hcount, ?_⟩
      intro c reply' seen hm
      rcases List.mem_append.mp hm with hm | hm
      · exact hmid c reply' seen hm
      · exact hx c reply' seen (List.mem_singleton.mp hm).symm
    cases x with
    | called i' c reply seen =>
      by_cases hi : i' = i
      · subst hi
        have hnext : (breakerAt env tr i').next env c seen = .opening j := by
          simpa [breakerAt, Monitor.observe, breaker] using h
        obtain ⟨rfl, row, hseen, hcount⟩ := next_opening hnext
        cases eq_of_heq hseen
        exact ⟨tr, [], reply, row, rfl, hcount, fun _ _ _ => List.not_mem_nil⟩
      · refine hother (by simp [breakerAt, Monitor.observe, hi]) ?_
        intro c' reply' seen' hx
        cases hx
        exact hi rfl
    | began i' t => exact hother (by simp [breakerAt, Monitor.observe]) fun _ _ _ hx => by cases hx
    | stopped i' => exact hother (by simp [breakerAt, Monitor.observe]) fun _ _ _ hx => by cases hx
    | outside x => exact hother (by simp [breakerAt, Monitor.observe]) fun _ _ _ hx => by cases hx

end Steps

/-! ## The circuit breaker -/

/-- A statement on the row of `j` has failed, or its reply was lost. -/
def Fails (j : JobId) : TraceEntry → Prop
  | .called _ (.jobUpdate id _) _ (.error _) => id = j
  | _ => False

instance (j : JobId) (e : TraceEntry) : Decidable (Fails j e) := by
  induction e using Async.Entry.casesOn with
  | called i c reply seen =>
    induction c using Call.casesOn with
    | jobUpdate id data => induction seen using Except.casesOn <;> unfold Fails <;> infer_instance
    | _ => exact instDecidableFalse
  | _ => exact instDecidableFalse

/-- The `applyCircuitBreaker` of delivery `i` is over, or has not come to its increment. -/
def BreakerFinished (env : Env) (tr : List TraceEntry) (i : Nat) : Prop :=
  breakerAt env tr i = .outside

/-- Once every `applyCircuitBreaker` has finished that counted in some streak as long as
configured, the job is disabled. -/
def MissesNone (env : Env) (j : JobId) (s : SystemState) : Prop :=
  ∀ pre mid post, s.trace = pre ++ mid ++ post → (∀ e ∈ mid, deadMark j e ≠ .ends) →
    env.circuitBreakerConsecutiveDead ≤ mid.countP (fun e => deadMark j e = .counts) →
    (∀ i row seen, Entry.called i (.jobUpdate j countDead) (some (.ok row)) seen ∈ mid →
      BreakerFinished env s.trace i) →
    ∀ job ∈ s.world.db.jobs, job.id = j → job.enabled = false

/-- A delivery disables `j` right after an increment of its own that was at least as far into
the streak as configured. -/
def NeverEarly (env : Env) (j : JobId) (s : SystemState) : Prop :=
  ∀ pre post i data reply seen, IsDelivery s i →
    s.trace = pre ++ .called i (.jobUpdate j data) reply seen :: post → data.enabled = some false →
    ∃ pre' mid row, pre = pre' ++ .answered i (.jobUpdate j countDead) (.ok row) :: mid ∧
      (∀ c reply seen, Entry.called i c reply seen ∉ mid) ∧
      env.circuitBreakerConsecutiveDead ≤
        streak (deadMark j) (pre' ++ [.answered i (.jobUpdate j countDead) (.ok row)])

section Runs

variable {S : Setup} {w₀ : World} {s s' : SystemState} {j : JobId}

theorem neverEarly_step (hr : Reachable S w₀ s) (hcounted : Counted s) (h : NeverEarly S.env j s)
    {e : SystemEvent} (hs : (system S).Step s e s') : NeverEarly S.env j s' := by
  intro pre post i data reply seen hdelivery htrace hdata
  obtain ⟨x, hx⟩ := hs.traced
  rcases append_singleton_split (hx.symm.trans htrace) with ⟨rfl, rfl, _⟩ | ⟨post', _, hbefore⟩
  · obtain ⟨tag, k, o, hi, rfl, rfl, _, _⟩ := hs.traced_call hx
    have hphase := opening_of_disable (breakerAt_delivery S.env s.trace i)
      (delivery_permits hr hi (hdelivery.before hs (Live.tag hi))) hdata
    obtain ⟨pre', mid, reply', row, hsplit, hcount, hmid⟩ := opening_counted hphase
    have hmem : Entry.called i (.jobUpdate j countDead) reply' (.ok row) ∈ s.trace := by
      rw [hsplit]
      exact List.mem_append_right _ List.mem_cons_self
    cases hr.seen_ok hmem
    refine ⟨pre', mid, row, hsplit, hmid, ?_⟩
    have htold := hcounted.told pre' mid i j row (.ok row) hsplit
    unfold Entry.answered
    rw [← htold]
    exact hcount
  · have hmem : Entry.called i (.jobUpdate j data) reply seen ∈ s.trace := by
      rw [hbefore]
      exact List.mem_append_right _ List.mem_cons_self
    obtain ⟨tag, htag, _⟩ := hr.called_only (fun _ _ _ _ => only_start) hmem
    exact h pre post' i data reply seen (hdelivery.before hs htag) hbefore hdata

/-- An increment that meets the threshold has its delivery before the disabling statement, or
the row is disabled. -/
def ThresholdMet (env : Env) (j : JobId) (s : SystemState) : Prop :=
  ∀ i row seen, Entry.called i (.jobUpdate j countDead) (some (.ok row)) seen ∈ s.trace →
    row.consecutiveDeadCount ≥ env.circuitBreakerConsecutiveDead →
    breakerAt env s.trace i = .opening j ∨
      ∀ job ∈ s.world.db.jobs, job.id = j → job.enabled = false

theorem thresholdMet_step (hr : Reachable S w₀ s) (hcounted : Counted s)
    (h : ThresholdMet S.env j s) {e : SystemEvent} (hs : (system S).Step s e s')
    (hsucceeds : ∀ x ∈ s'.trace, ¬ Fails j x) (hclosed : ∀ x ∈ s'.trace, ¬ Enables j x) :
    ThresholdMet S.env j s' := by
  obtain ⟨x, hx⟩ := hs.traced
  have hxmem : x ∈ s'.trace := by
    rw [hx]
    exact List.mem_append_right _ (List.mem_singleton.mpr rfl)
  intro i row seen hm hcount
  rcases hs.called hm with hold | ⟨tag, k, o, hi, rfl, rfl, hreply, hseen⟩
  · rcases h i row seen hold hcount with hphase | hdisabled
    · rcases hs.stateAt (breaker S.env) i .outside with hsame | ⟨tag, c, k, o, hi, rfl, rfl, hnext⟩
      · exact Or.inl (hsame.trans hphase)
      · have hpermits := delivery_permits hr hi (delivery_of_counted hr hold)
        rw [hphase] at hpermits
        cases hpermits
        cases hanswer : ((system S).attend (.jobUpdate j disable) o s.world).2.2 with
        | error e =>
          have hfails : Fails j (.called i (.jobUpdate j disable)
              ((system S).attend (.jobUpdate j disable) o s.world).2.1
              ((system S).attend (.jobUpdate j disable) o s.world).2.2) := by
            rw [hanswer]
            rfl
          exact absurd hfails (hsucceeds _ (called_resumed rfl))
        | ok row' =>
          have hopened : ((system S).resumed s i tag (.jobUpdate j disable) k o).trace = s.trace ++
              [.called i (.jobUpdate j disable) (some (.ok row')) (.ok row')] := by
            simp only [resumed, attend_ok hanswer, hanswer]
          exact Or.inr (circuitOpen_opened hs hopened).row
    · have hknown : j ∈ s.world.db.jobIds := hcounted.known i j countDead row seen hold
      exact Or.inr (disabled_step hknown hdisabled hs hx (hclosed x hxmem))
  · have hdelivery := delivery_of_counted (hr.tail trivial hs) hm
    have houtside := outside_of_count (delivery_permits hr hi (hdelivery.before hs (Live.tag hi)))
    have hok : seen = .ok row := by
      cases seen with
      | error e => exact absurd rfl (hsucceeds _ hm)
      | ok row' => exact Option.some.inj ((attend_ok hseen).symm.trans hreply)
    left
    have hnext : breakerAt S.env ((system S).resumed s i tag (.jobUpdate j countDead) k o).trace i =
        (breakerAt S.env s.trace i).next S.env (.jobUpdate j countDead) seen := by
      simp [breakerAt, resumed, Monitor.observe, breaker, hseen]
    rw [hnext, houtside, hok]
    exact if_pos ⟨rfl, hcount⟩

theorem missesNone_of (hcounted : Counted s) (h : ThresholdMet S.env j s) :
    MissesNone S.env j s := by
  intro pre mid post htrace hunbroken hlong hfinished
  have hpos : 0 < mid.countP fun e => deadMark j e = .counts :=
    Nat.lt_of_lt_of_le S.env.circuitBreaker_pos hlong
  obtain ⟨l₁, x, l₂, rfl, hx, hstreak⟩ := exists_last_counted pre hunbroken hpos
  obtain ⟨i, row, seen, rfl⟩ := deadMark_counts hx
  have hsplit : s.trace = (pre ++ l₁) ++
      .called i (.jobUpdate j countDead) (some (.ok row)) seen :: (l₂ ++ post) := by
    rw [htrace]
    simp
  have hcount : row.consecutiveDeadCount ≥ S.env.circuitBreakerConsecutiveDead := by
    rw [hcounted.told _ _ i j row seen hsplit]
    exact Nat.le_trans hlong hstreak
  have hmem : Entry.called i (.jobUpdate j countDead) (some (.ok row)) seen ∈ s.trace := by
    rw [hsplit]
    exact List.mem_append_right _ List.mem_cons_self
  rcases h i row seen hmem hcount with hphase | hdisabled
  · have hover : breakerAt S.env s.trace i = .outside :=
      hfinished i row seen (List.mem_append_right _ List.mem_cons_self)
    cases hphase.symm.trans hover
  · exact hdisabled

end Runs

/-- Over every interleaving in which no statement on the row of `j` fails and no request
enables it, the circuit breaker of `j` misses no streak and opens for no shorter one. -/
theorem circuit_breaker_exact {S : Setup} {jobs : List Job} {hjobs : (jobs.map (·.id)).Nodup}
    {clock : Nat → Int} {s : SystemState} (h₀ : ∀ job ∈ jobs, job.consecutiveDeadCount = 0)
    (hr : Reachable S (.initial jobs hjobs clock) s) {j : JobId}
    (hsucceeds : ∀ x ∈ s.trace, ¬ Fails j x) (hclosed : ∀ x ∈ s.trace, ¬ Enables j x) :
    MissesNone S.env j s ∧ NeverEarly S.env j s := by
  have hmet : (∀ x ∈ s.trace, ¬ Fails j x) → (∀ x ∈ s.trace, ¬ Enables j x) →
      ThresholdMet S.env j s := by
    apply hr.keeps
    · intro _ _ i row seen hm
      cases hm
    · intro s e s' hr ih _ hs hsucceeds hclosed
      refine thresholdMet_step hr (counted_of_reachable h₀ hr) (ih ?_ ?_) hs hsucceeds hclosed
      · exact fun x hx => hsucceeds x (hs.trace_subset hx)
      · exact fun x hx => hclosed x (hs.trace_subset hx)
  constructor
  · exact missesNone_of (counted_of_reachable h₀ hr) (hmet hsucceeds hclosed)
  · apply hr.keeps
    · intro pre post i data reply seen _ htrace
      simp [State.fresh] at htrace
    · intro s e s' hr ih _ hs
      exact neverEarly_step hr (counted_of_reachable h₀ hr) ih hs

theorem circuit_breaker_exact_opened : ∃ s,
    (system breakerSetup).run (.fresh breakerWorld) (openingRun 0 5) = some s ∧
      opening 2 ∈ s.trace ∧ BreakerFinished breakerSetup.env s.trace 2 ∧
      MissesNone breakerSetup.env "job-1" s ∧ NeverEarly breakerSetup.env "job-1" s := by
  have hrun : ((system breakerSetup).run (.fresh breakerWorld) (openingRun 0 5)).map
      (fun s => decide (opening 2 ∈ s.trace ∧ breakerAt breakerSetup.env s.trace 2 = .outside ∧
        (∀ x ∈ s.trace, ¬ Fails "job-1" x) ∧ ∀ x ∈ s.trace, ¬ Enables "job-1" x)) =
      some true := by decide +kernel
  obtain ⟨s, hs, hsum⟩ := Option.map_eq_some_iff.mp hrun
  obtain ⟨hopening, hover, hsucceeds, hclosed⟩ := of_decide_eq_true hsum
  refine ⟨s, hs, hopening, hover, ?_⟩
  exact circuit_breaker_exact (by decide) (.of_run hs fun _ _ _ => trivial) hsucceeds hclosed

end CronHive
