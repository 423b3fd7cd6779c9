import CronHive.DeadLettering

/-!
# All or nothing

The three writes of `deadLetter` are three stages that one delivery goes through. A step that
comes through is a move of the stages of every execution, so once no delivery is on its way
the three have been had all or none.
-/

namespace CronHive

set_option autoImplicit false

open Async Async.Prog Async.Machine

section Runs

variable {S : Setup} {jobs : List Job} {hjobs : (jobs.map (·.id)).Nodup} {clock : Nat → Int}
  {s s' : SystemState} {e : ExecutionId} {j : JobId}

/-! ## Threads on the way -/

theorem deadPhaseOf_delivering {i : Nat} {d : ExecutionJobData} (hd : delivering s i = some d)
    (he : d.executionId = e) (halive : s.Alive i) :
    deadPhaseOf s e i = deadPhaseAt d s.trace i := by
  unfold deadPhaseOf
  rw [hd]
  exact if_pos ⟨he, halive⟩

theorem deadPhaseOf_idle {i : Nat}
    (h : ∀ d, delivering s i = some d → d.executionId = e → ¬ s.Alive i) :
    deadPhaseOf s e i = .idle := by
  unfold deadPhaseOf
  split
  · rename_i d hd
    exact if_neg fun hboth => h d hd hboth.1 hboth.2
  · rfl

theorem deadPhaseOf_other (hr : Reachable S (.initial jobs hjobs clock) s) {ev : SystemEvent}
    (hs : (system S).Step s ev s') {i : Nat} (hown : ∀ o, ev ≠ .resume i o)
    (hstop : ev ≠ .stop i) : deadPhaseOf s' e i = deadPhaseOf s e i := by
  by_cases hlt : i < s.threads.length
  · have halive : s'.Alive i ↔ s.Alive i := by
      constructor
      · intro h
        obtain ⟨tag, p, hi⟩ := h
        rcases hs.live_cases hi with hi | ⟨_, _, o, _, hev, _⟩ | ⟨hlast, _⟩
        · exact ⟨tag, p, hi⟩
        · exact absurd hev (hown o)
        · exact absurd hlast (Nat.ne_of_lt hlt)
      · intro h
        obtain ⟨tag, p, hi⟩ := h
        rcases hs.live Monitor.log hi [] with ⟨hi, _⟩ | ⟨_, _, o, _, hev, _⟩ | ⟨_, _, _, hev⟩
        · exact ⟨tag, p, hi⟩
        · exact absurd hev (hown o)
        · exact absurd hev hstop
    have hphase (d : ExecutionJobData) : deadPhaseAt d s'.trace i = deadPhaseAt d s.trace i := by
      rcases hs.stateAt (deadPhases d) i .idle with hsame | ⟨_, _, _, o, _, hev, _⟩
      · exact hsame
      · exact absurd hev (hown o)
    unfold deadPhaseOf
    simp only [delivering_old hr hs hlt, halive, hphase]
  · have hbefore : deadPhaseOf s e i = .idle :=
      deadPhaseOf_idle fun _ _ _ halive => hlt halive.lt
    have hafter (d : ExecutionJobData) : deadPhaseAt d s'.trace i = .idle := by
      refine (deadPhases d).stateAt_of_absent _ fun c reply seen hm => ?_
      rcases hs.called hm with hm | ⟨_, _, o, _, hev, _⟩
      · exact hlt (hr.numbered _ c reply seen hm)
      · exact hown o hev
    rw [hbefore]
    unfold deadPhaseOf
    split
    · rw [hafter, ite_self]
    · rfl

theorem deadPhaseOf_resumed {i : Nat} {tag : Task} {c : Call}
    {k : Except Failure c.Reply → Promise Response} {o : Outcome Choice Failure}
    (hi : s.Live i tag (.await c k)) {d : ExecutionJobData} (hd : delivering s i = some d)
    (he : d.executionId = e) : deadPhaseOf ((system S).resumed s i tag c k o) e i =
      (deadPhaseAt d s.trace i).next c ((system S).attend c o s.world).2.2 := by
  have hs : (system S).Step s (.resume i o) _ := .resume hi
  rw [deadPhaseOf_delivering (delivering_step hs hd) he ⟨tag, _, live_resumed_self hi⟩]
  simp [deadPhaseAt, resumed, Monitor.observe, deadPhases]

/-- A thread on its way is at one of the later writes. -/
theorem afterDead_of_phase (hr : Reachable S (.initial jobs hjobs clock) s) (hn : Named s e j)
    {i : Nat} {tag : Task} {c : Call} {k : Except Failure c.Reply → Promise Response}
    (hi : s.Live i tag (.await c k)) (hphase : deadPhaseOf s e i ≠ .idle) :
    DeliversRow s i ∧ c.afterDead = true := by
  have hdelivers : ∃ d, delivering s i = some d ∧ d.executionId = e := by
    by_contra hnone
    exact hphase (deadPhaseOf_idle fun d hd he => absurd ⟨d, hd, he⟩ hnone)
  obtain ⟨d, hd, he⟩ := hdelivers
  refine ⟨(named_delivering hr hn hd he).1, ?_⟩
  have hpermits := dead_permits hr hi hd
  rw [deadPhaseOf_delivering hd he ⟨tag, _, hi⟩] at hphase
  cases hat : deadPhaseAt d s.trace i with
  | idle => exact absurd hat hphase
  | adding =>
    rw [hat] at hpermits
    obtain ⟨data, rfl, _⟩ := hpermits
    rfl
  | counting =>
    rw [hat] at hpermits
    have hcount : c = .jobUpdate d.jobId countDead := hpermits
    subst hcount
    simp [Call.afterDead]

/-! ## Effects -/

theorem deadLettersOf_frame {ev : SystemEvent} (hs : (system S).Step s ev s')
    (h : ∀ i data, s.Awaits i (.deadLetterAdd data) → Effective i ev → data.executionId ≠ e) :
    deadLettersOf s' e = deadLettersOf s e := by
  unfold deadLettersOf
  cases hs with
  | begin hstart => rw [spawned_deadLetters, start_deadLetters hstart]
  | @resume i tag c k o hi =>
    rw [resumed_deadLetters]
    have hexec (a : Choice) (heffect : Effective i (.resume i o)) :
        ((World.exec c a s.world).1.deadLetters.countP fun x => decide (x.executionId = e)) =
          s.world.deadLetters.countP fun x => decide (x.executionId = e) := by
      by_cases hc : ∃ data, c = .deadLetterAdd data
      · obtain ⟨data, rfl⟩ := hc
        simp [World.exec, h i data ⟨tag, k, hi⟩ heffect]
      · rw [World.exec_deadLetters fun data hdata => hc ⟨data, hdata⟩]
    cases o with
    | answered a => exact hexec a rfl
    | rejected e => rfl
    | lost a e => exact hexec a rfl
  | stop _ => rfl
  | @outside x w hx => cases x <;> cases hx <;> rfl

theorem countsFor_old (hr : Reachable S (.initial jobs hjobs clock) s) {ev : SystemEvent}
    (hs : (system S).Step s ev s') {x : TraceEntry} (hx : x ∈ s.trace) :
    CountsFor s' e j x ↔ CountsFor s e j x := by
  unfold CountsFor
  split
  · rw [delivering_old hr hs (hr.numbered _ _ _ _ hx)]
  · exact Iff.rfl

theorem timesCounted_step (hr : Reachable S (.initial jobs hjobs clock) s) {ev : SystemEvent}
    (hs : (system S).Step s ev s') {x : TraceEntry} (hx : s'.trace = s.trace ++ [x]) :
    timesCounted s' e j = timesCounted s e j + if CountsFor s' e j x then 1 else 0 := by
  unfold timesCounted
  rw [hx, List.countP_append, List.countP_singleton]
  have hold : (s.trace.countP fun x => decide (CountsFor s' e j x)) =
      s.trace.countP fun x => decide (CountsFor s e j x) := by
    apply List.countP_congr
    intro x hx
    simp only [decide_eq_true_eq]
    exact countsFor_old hr hs hx
  rw [hold]
  simp only [decide_eq_true_eq]

theorem deadRow_frame {ev : SystemEvent} (hs : (system S).Step s ev s') (hn : Named s' e j)
    (h : ∀ i data, s.Awaits i (.executionUpdate e data) → ¬ Effective i ev) :
    DeadRow s' e ↔ DeadRow s e := by
  have hold {y : Execution} (hy : y ∈ s'.world.db.executions) (hid : y.id = e) :
      y ∈ s.world.db.executions ∨ (y.id = s.world.db.nextExecution ∧ y.status = .PENDING) := by
    cases step_rows hs hy with
    | kept hy => exact Or.inl hy
    | inserted hid hstatus => exact Or.inr ⟨hid, hstatus⟩
    | @updated i data z hz hawait heffect hyz =>
      subst hyz
      have hzid : z.id = e := hid
      rw [hzid] at hawait
      exact absurd heffect (h i data hawait)
  constructor
  · intro hdead
    obtain ⟨y, hy, hid, hstatus⟩ := hdead
    rcases hold hy hid with hy | ⟨_, hpending⟩
    · exact ⟨y, hy, hid, hstatus⟩
    · cases hpending.symm.trans hstatus
  · intro hdead
    obtain ⟨x, hx, hid, hstatus⟩ := hdead
    have hknown : e < s.world.db.nextExecution := hid ▸ Postgres.execution_known _ x hx
    rcases hn with ⟨y, hy, hyid, _⟩ | hnew
    · rcases hold hy hyid with hy' | ⟨hnew, _⟩
      · have hsame : y = x :=
          List.inj_on_of_nodup_map (Postgres.execution_pkey _) hy' hx (hyid.trans hid.symm)
        exact ⟨y, hy, hyid, hsame ▸ hstatus⟩
      · exact absurd (hyid.symm.trans hnew) (Nat.ne_of_lt hknown)
    · have hmono := (step_evolves hs).nextExecution
      exact absurd hknown (Nat.not_lt.mpr (Nat.le_trans hmono hnew))

theorem deadRow_written {i : Nat} {tag : Task} {data : ExecutionUpdate}
    {k : Except Failure Execution → Promise Response} {o : Outcome Choice Failure}
    (heffect : Effective i (.resume i o))
    (hrow : DeliversRow ((system S).resumed s i tag (.executionUpdate e data) k o) i)
    {d : ExecutionJobData}
    (hd : delivering ((system S).resumed s i tag (.executionUpdate e data) k o) i = some d)
    (he : d.executionId = e) :
    DeadRow ((system S).resumed s i tag (.executionUpdate e data) k o) e ↔ data.status = .DEAD := by
  have hstatus {y : Execution}
      (hy : y ∈ ((system S).resumed s i tag (.executionUpdate e data) k o).world.db.executions)
      (hid : y.id = e) : y.status = data.status := by
    rw [resumed_db] at hy
    cases o with
    | answered a => exact Postgres.executionUpdate_status hy hid
    | rejected e => exact heffect.elim
    | lost a e => exact Postgres.executionUpdate_status hy hid
  constructor
  · intro hdead
    obtain ⟨y, hy, hid, hdead⟩ := hdead
    rw [← hstatus hy hid]
    exact hdead
  · intro hdead
    obtain ⟨d', hd', x, hx, hid⟩ := hrow
    cases hd.symm.trans hd'
    exact ⟨x, hx, hid.trans he, (hstatus hx (hid.trans he)).trans hdead⟩

/-! ## Steps -/

theorem deadStages_rest (hdead : DeadRow s' e ↔ DeadRow s e)
    (hadded : deadLettersOf s' e = deadLettersOf s e)
    (hcounted : timesCounted s' e j = timesCounted s e j)
    (hphase : ∀ i, deadPhaseOf s' e i = deadPhaseOf s e i) :
    Stages.Move 3 (deadStages s e j) (deadStages s' e j) := by
  refine .rest (Stages.ext (funext fun n => ?_) (funext fun i => ?_))
  · match n with
    | 0 => simp only [deadStages, hdead]
    | 1 => exact hadded
    | 2 => exact hcounted
    | _ + 3 => rfl
  · exact congrArg DeadPhase.index (hphase i)

/-- A step that is no call of a delivery of `e` on the way. -/
theorem stages_aside (hr : Reachable S (.initial jobs hjobs clock) s) {ev : SystemEvent}
    (hs : (system S).Step s ev s') (hn : Named s' e j)
    (hwrites : ∀ i c, s.Awaits i c → Effective i ev → (∀ data, c ≠ .executionUpdate e data) ∧
      ∀ data, c = .deadLetterAdd data → data.executionId ≠ e)
    (hcounts : ∀ x, s'.trace = s.trace ++ [x] → ¬ CountsFor s' e j x)
    (hphase : ∀ i, deadPhaseOf s' e i = deadPhaseOf s e i) :
    Stages.Move 3 (deadStages s e j) (deadStages s' e j) := by
  refine deadStages_rest ?_ ?_ ?_ hphase
  · exact deadRow_frame hs hn fun i data hawait heffect =>
      (hwrites i _ hawait heffect).1 data rfl
  · exact deadLettersOf_frame hs fun i data hawait heffect =>
      (hwrites i _ hawait heffect).2 data rfl
  · obtain ⟨x, hx⟩ := hs.traced
    rw [timesCounted_step hr hs hx, if_neg (hcounts x hx), Nat.add_zero]

theorem stages_stop (hr : Reachable S (.initial jobs hjobs clock) s) {i : Nat}
    (hok : comesThrough s (.stop i)) (hs : (system S).Step s (.stop i) s') (hn : Named s' e j) :
    Stages.Move 3 (deadStages s e j) (deadStages s' e j) := by
  have hbefore : Named s e j := named_step hs hn
  refine stages_aside hr hs hn (fun _ _ _ heffect => heffect.elim) ?_ fun i' => ?_
  · intro x hx
    cases hs with
    | stop hi =>
      cases List.append_cancel_left hx
      exact id
  · by_cases hi' : i' = i
    · subst hi'
      cases hs with
      | @stop _ tag c k hi =>
        have hafter : deadPhaseOf (halted s i' tag) e i' = .idle := by
          apply deadPhaseOf_idle
          intro _ _ _ halive
          obtain ⟨tag', p, hi'⟩ := halive
          exact (live_halted hi').1 rfl
        rw [hafter]
        by_contra hne
        obtain ⟨hrow, hlate⟩ := afterDead_of_phase hr hbefore hi (Ne.symm hne)
        have hearly := hok hrow c (State.Awaits.awaiting ⟨tag, k, hi⟩)
        rw [hlate] at hearly
        cases hearly
    · refine deadPhaseOf_other hr hs nofun ?_
      intro hstop
      cases hstop
      exact hi' rfl

section Resume

variable {i : Nat} {tag : Task} {c : Call} {k : Except Failure c.Reply → Promise Response}
  {o : Outcome Choice Failure}

theorem resumed_others (hr : Reachable S (.initial jobs hjobs clock) s)
    (hi : s.Live i tag (.await c k)) {i' : Nat} (hne : i' ≠ i) :
    deadPhaseOf ((system S).resumed s i tag c k o) e i' = deadPhaseOf s e i' := by
  refine deadPhaseOf_other hr (.resume hi) ?_ nofun
  intro o' hev
  cases hev
  exact hne rfl

theorem attend_effective (h : Effective i (.resume i o)) (w : World) :
    ∃ a, ((system S).attend c o w).1 = (World.exec c a w).1 ∧
      ((system S).attend c o w).2.1 = some (World.exec c a w).2 := by
  cases o with
  | answered a => exact ⟨a, rfl, rfl⟩
  | rejected e => exact h.elim
  | lost a e => exact ⟨a, rfl, rfl⟩

/-- A call of a thread that does not deliver `e`. -/
theorem stages_foreign (hr : Reachable S (.initial jobs hjobs clock) s)
    (hi : s.Live i tag (.await c k)) (hn : Named ((system S).resumed s i tag c k o) e j)
    (hforeign : ∀ d, delivering s i = some d → d.executionId ≠ e) :
    Stages.Move 3 (deadStages s e j) (deadStages ((system S).resumed s i tag c k o) e j) := by
  have hs : (system S).Step s (.resume i o) _ := .resume hi
  have hlt : i < s.threads.length := State.Alive.lt ⟨tag, _, hi⟩
  refine stages_aside hr hs hn ?_ ?_ fun i' => ?_
  · intro i' c' hawait heffect
    have hsame : i = i' := by cases o <;> first | exact heffect | exact heffect.elim
    subst hsame
    have hforeign' (hc : (∃ data, c' = .executionUpdate e data) ∨
        ∃ data, c' = .deadLetterAdd data ∧ data.executionId = e) : False := by
      obtain ⟨d, hd, he⟩ := own_write hr hawait hc
      exact hforeign d hd he
    constructor
    · intro data hc
      exact hforeign' (Or.inl ⟨data, hc⟩)
    · intro data hc he
      exact hforeign' (Or.inr ⟨data, hc, he⟩)
  · intro x hx hcounts
    cases List.append_cancel_left hx
    unfold CountsFor at hcounts
    split at hcounts
    · rename_i hentry
      obtain ⟨_, _, d, hd, he⟩ := hcounts
      have hown := (Entry.called.inj hentry).1
      subst hown
      rw [delivering_old hr hs hlt] at hd
      exact hforeign d hd he
    · exact hcounts
  · by_cases hne : i' = i
    · subst hne
      have hidle (s₁ : SystemState) (hsame : delivering s₁ i' = delivering s i') :
          deadPhaseOf s₁ e i' = .idle := by
        apply deadPhaseOf_idle
        intro d hd he
        exact absurd he (hforeign d (hsame ▸ hd))
      rw [hidle _ (delivering_old hr hs hlt), hidle s rfl]
    · exact resumed_others hr hi hne

theorem next_idle {r : Except Failure c.Reply}
    (h : ∀ id data, c = .executionUpdate id data → data.status ≠ .DEAD) :
    DeadPhase.next .idle c r = .idle := by
  cases c with
  | executionUpdate id data =>
    cases r with
    | ok x => exact if_neg (h id data rfl)
    | error e => rfl
  | _ => rfl

/-- Its own calls of `e` leave the phases of the other threads alone. -/
theorem resumed_phases (hr : Reachable S (.initial jobs hjobs clock) s)
    (hi : s.Live i tag (.await c k)) {d : ExecutionJobData} (hd : delivering s i = some d)
    (he : d.executionId = e)
    (hnext : (deadPhaseAt d s.trace i).next c ((system S).attend c o s.world).2.2 =
      deadPhaseAt d s.trace i) (i' : Nat) :
    deadPhaseOf ((system S).resumed s i tag c k o) e i' = deadPhaseOf s e i' := by
  by_cases hne : i' = i
  · subst hne
    rw [deadPhaseOf_resumed hi hd he, hnext, deadPhaseOf_delivering hd he ⟨tag, _, hi⟩]
  · exact resumed_others hr hi hne

theorem stages_next (hr : Reachable S (.initial jobs hjobs clock) s)
    (hi : s.Live i tag (.await c k)) {d : ExecutionJobData} (hd : delivering s i = some d)
    (he : d.executionId = e)
    (hfirst : deadPhaseAt d s.trace i = .idle → ¬ DeadRow s e)
    (hcount : (deadStages ((system S).resumed s i tag c k o) e j).count
        (deadPhaseAt d s.trace i).index =
      (deadStages s e j).count (deadPhaseAt d s.trace i).index + 1)
    (hcounts : ∀ n, n ≠ (deadPhaseAt d s.trace i).index →
      (deadStages ((system S).resumed s i tag c k o) e j).count n = (deadStages s e j).count n)
    (hnext : ((deadPhaseAt d s.trace i).next c ((system S).attend c o s.world).2.2).index =
      ((deadPhaseAt d s.trace i).index + 1) % 3) :
    Stages.Move 3 (deadStages s e j) (deadStages ((system S).resumed s i tag c k o) e j) := by
  have hphase : (deadStages s e j).phase i = (deadPhaseAt d s.trace i).index :=
    congrArg DeadPhase.index (deadPhaseOf_delivering hd he ⟨tag, _, hi⟩)
  refine .advance i ?_ ?_ (Stages.eq_advance hphase hcount hcounts ?_ fun i' hne => ?_)
  · rw [hphase]
    cases deadPhaseAt d s.trace i <;> decide
  · intro hzero
    rw [hphase] at hzero
    refine if_neg (hfirst ?_)
    cases hat : deadPhaseAt d s.trace i with
    | idle => rfl
    | adding =>
      rw [hat] at hzero
      cases hzero
    | counting =>
      rw [hat] at hzero
      cases hzero
  · rw [← hnext, ← deadPhaseOf_resumed hi hd he]
    rfl
  · exact congrArg DeadPhase.index (resumed_others hr hi hne)

theorem countsFor_called {s₁ : SystemState} {reply : Option (Except Failure c.Reply)}
    {seen : Except Failure c.Reply} (h : CountsFor s₁ e j (.called i c reply seen)) :
    c = .jobUpdate j countDead := by
  cases c with
  | jobUpdate id data =>
    rcases reply with _ | _ | row
    · exact h.elim
    · exact h.elim
    · obtain ⟨rfl, rfl, _⟩ := h
      rfl
  | _ => exact h.elim

theorem timesCounted_frame (hr : Reachable S (.initial jobs hjobs clock) s)
    (hi : s.Live i tag (.await c k)) (hc : c ≠ .jobUpdate j countDead) :
    timesCounted ((system S).resumed s i tag c k o) e j = timesCounted s e j := by
  rw [timesCounted_step hr (.resume hi) rfl, if_neg fun h => hc (countsFor_called h), Nat.add_zero]

theorem awaits_self {i' : Nat} {c' : Call} (hi : s.Live i tag (.await c k))
    (hawait : s.Awaits i' c') (heffect : Effective i' (.resume i o)) : c' = c := by
  have hsame : i = i' := by cases o <;> first | exact heffect | exact heffect.elim
  subst hsame
  exact Live.awaits_unique hi hawait

/-- The write of DEAD takes an execution that is not DEAD to the queue. -/
theorem stages_dead {data : ExecutionUpdate}
    {k : Except Failure Execution → Promise Response} {a : Choice}
    (hr : Reachable S (.initial jobs hjobs clock) s)
    (hi : s.Live i tag (.await (.executionUpdate e data) k)) {d : ExecutionJobData}
    (hd : delivering s i = some d) (he : d.executionId = e)
    (hat : deadPhaseAt d s.trace i = .idle) (hrow : DeliversRow s i) (hopen : ¬ DeadRow s e)
    (hdead : data.status = .DEAD)
    (hwritten :
      DeadRow ((system S).resumed s i tag (.executionUpdate e data) k (.answered a)) e)
    (hadded : deadLettersOf ((system S).resumed s i tag (.executionUpdate e data) k
      (.answered a)) e = deadLettersOf s e)
    (hcounted : timesCounted ((system S).resumed s i tag (.executionUpdate e data) k
      (.answered a)) e j = timesCounted s e j) :
    Stages.Move 3 (deadStages s e j)
      (deadStages ((system S).resumed s i tag (.executionUpdate e data) k (.answered a)) e j) := by
  obtain ⟨d', hd', x, hx, hid⟩ := hrow
  cases hd.symm.trans hd'
  obtain ⟨y, hy⟩ := Postgres.executionUpdate_found data hx (hid.trans he)
  have hseen : ((system S).attend (.executionUpdate e data) (.answered a) s.world).2.2 =
    .ok y := hy
  refine stages_next hr hi hd he (fun _ => hopen) ?_ ?_ ?_
  · rw [hat]
    simp only [deadStages, DeadPhase.index, if_pos hwritten, if_neg hopen]
  · rw [hat]
    intro n hn
    rcases n with _ | _ | _ | n
    · exact absurd rfl hn
    · exact hadded
    · exact hcounted
    · rfl
  · rw [hat, hseen]
    simp only [DeadPhase.next, if_pos hdead, DeadPhase.index]

theorem stages_write {data : ExecutionUpdate}
    {k : Except Failure Execution → Promise Response}
    (hr : Reachable S (.initial jobs hjobs clock) s)
    (hi : s.Live i tag (.await (.executionUpdate e data) k)) (hok : comesThrough s (.resume i o))
    (hn : Named ((system S).resumed s i tag (.executionUpdate e data) k o) e j)
    {d : ExecutionJobData} (hd : delivering s i = some d) (he : d.executionId = e)
    (hat : deadPhaseAt d s.trace i = .idle) :
    Stages.Move 3 (deadStages s e j)
      (deadStages ((system S).resumed s i tag (.executionUpdate e data) k o) e j) := by
  have hs : (system S).Step s (.resume i o) _ := .resume hi
  have hr' : Reachable S (.initial jobs hjobs clock) _ := hr.tail trivial hs
  have hd' := delivering_step hs hd
  have hawait : s.awaiting i = some (.executionUpdate e data) := State.Awaits.awaiting ⟨tag, k, hi⟩
  obtain ⟨hrow, _⟩ := named_delivering hr (named_step hs hn) hd he
  have hwritten (heffect : Effective i (.resume i o)) :
      DeadRow ((system S).resumed s i tag (.executionUpdate e data) k o) e ↔ data.status = .DEAD :=
    deadRow_written heffect (named_delivering hr' hn hd' he).1 hd' he
  have hadded : deadLettersOf ((system S).resumed s i tag (.executionUpdate e data) k o) e =
      deadLettersOf s e := by
    apply deadLettersOf_frame hs
    intro i' data' hawait' heffect
    cases awaits_self hi hawait' heffect
  have hcounted : timesCounted ((system S).resumed s i tag (.executionUpdate e data) k o) e j =
      timesCounted s e j := by
    apply timesCounted_frame hr hi
    nofun
  cases o with
  | answered a =>
    have hopen : ¬ DeadRow s e := by
      have hkeeps := hok
      simp only [comesThrough, hawait] at hkeeps
      exact hkeeps
    by_cases hdead : data.status = .DEAD
    · exact stages_dead hr hi hd he hat hrow hopen hdead ((hwritten rfl).mpr hdead) hadded hcounted
    · refine deadStages_rest ?_ hadded hcounted (resumed_phases hr hi hd he ?_)
      · exact ⟨fun h => absurd ((hwritten rfl).mp h) hdead, fun h => absurd h hopen⟩
      · rw [hat]
        apply next_idle
        intro id data' hdata
        cases hdata
        exact hdead
  | rejected err =>
    refine deadStages_rest ?_ hadded hcounted (resumed_phases hr hi hd he ?_)
    · exact deadRow_frame hs hn fun _ _ _ heffect => heffect.elim
    · rw [hat]
      rfl
  | lost a err =>
    have hboth := hok
    simp only [comesThrough, hawait] at hboth
    have hopen : ¬ DeadRow s e := hboth.1
    have hdead : data.status ≠ .DEAD := by
      have hearly := hboth.2 hrow _ rfl
      simpa [Call.beforeCount] using hearly
    refine deadStages_rest ?_ hadded hcounted (resumed_phases hr hi hd he ?_)
    · exact ⟨fun h => absurd ((hwritten rfl).mp h) hdead, fun h => absurd h hopen⟩
    · rw [hat]
      rfl

/-- A call of a delivery of `e` that is not on the way. -/
theorem stages_idle (hr : Reachable S (.initial jobs hjobs clock) s)
    (hi : s.Live i tag (.await c k)) (hok : comesThrough s (.resume i o))
    (hn : Named ((system S).resumed s i tag c k o) e j) {d : ExecutionJobData}
    (hd : delivering s i = some d) (he : d.executionId = e)
    (hat : deadPhaseAt d s.trace i = .idle) :
    Stages.Move 3 (deadStages s e j) (deadStages ((system S).resumed s i tag c k o) e j) := by
  have hpermits := dead_permits hr hi hd
  rw [hat] at hpermits
  by_cases hc : ∃ data, c = .executionUpdate e data
  · obtain ⟨data, rfl⟩ := hc
    exact stages_write hr hi hok hn hd he hat
  · refine stages_aside hr (.resume hi) hn ?_ ?_ (resumed_phases hr hi hd he ?_)
    · intro i' c' hawait heffect
      cases awaits_self hi hawait heffect
      constructor
      · exact fun data hdata => hc ⟨data, hdata⟩
      · intro data hdata
        subst hdata
        exact hpermits.elim
    · intro x hx hcounts
      cases List.append_cancel_left hx
      have hcount := countsFor_called hcounts
      subst hcount
      exact hpermits rfl
    · rw [hat]
      apply next_idle
      intro id data hdata
      subst hdata
      have hid : id = d.executionId := hpermits
      exact absurd ⟨data, by rw [hid, he]⟩ hc

theorem stages_add (hr : Reachable S (.initial jobs hjobs clock) s)
    (hi : s.Live i tag (.await c k)) (hok : comesThrough s (.resume i o))
    (hn : Named ((system S).resumed s i tag c k o) e j) {d : ExecutionJobData}
    (hd : delivering s i = some d) (he : d.executionId = e)
    (hat : deadPhaseAt d s.trace i = .adding) :
    Stages.Move 3 (deadStages s e j) (deadStages ((system S).resumed s i tag c k o) e j) := by
  have hs : (system S).Step s (.resume i o) _ := .resume hi
  obtain ⟨hrow, _⟩ := named_delivering hr (named_step hs hn) hd he
  have hpermits := dead_permits hr hi hd
  rw [hat] at hpermits
  obtain ⟨data, rfl, hid⟩ := hpermits
  have hawait : s.awaiting i = some (.deadLetterAdd data) := State.Awaits.awaiting ⟨tag, k, hi⟩
  cases o with
  | answered a =>
    refine stages_next hr hi hd he ?_ ?_ ?_ ?_
    · intro hidle
      cases hat.symm.trans hidle
    · rw [hat]
      simp only [deadStages, DeadPhase.index, deadLettersOf, resumed_deadLetters]
      simp [attend, system, World.exec, hid, he]
    · rw [hat]
      intro n hn'
      rcases n with _ | _ | _ | n
      · have hdead : DeadRow ((system S).resumed s i tag (.deadLetterAdd data) k (.answered a)) e ↔
            DeadRow s e := by
          apply deadRow_frame hs hn
          intro i' data' hawait' heffect
          cases awaits_self hi hawait' heffect
        simp only [deadStages, hdead]
      · exact absurd rfl hn'
      · apply timesCounted_frame hr hi
        intro hcount
        cases hcount
      · rfl
    · rw [hat]
      rfl
  | rejected err => cases hok hrow _ hawait
  | lost a err => cases hok.2 hrow _ hawait

theorem stages_count (hr : Reachable S (.initial jobs hjobs clock) s)
    (hi : s.Live i tag (.await c k)) (hok : comesThrough s (.resume i o))
    (hn : Named ((system S).resumed s i tag c k o) e j) {d : ExecutionJobData}
    (hd : delivering s i = some d) (he : d.executionId = e)
    (hat : deadPhaseAt d s.trace i = .counting) :
    Stages.Move 3 (deadStages s e j) (deadStages ((system S).resumed s i tag c k o) e j) := by
  have hs : (system S).Step s (.resume i o) _ := .resume hi
  obtain ⟨hrow, hjob⟩ := named_delivering hr (named_step hs hn) hd he
  have hpermits := dead_permits hr hi hd
  rw [hat] at hpermits
  have hc : c = .jobUpdate d.jobId countDead := hpermits
  subst hc
  have hawait : s.awaiting i = some (.jobUpdate d.jobId countDead) :=
    State.Awaits.awaiting ⟨tag, k, hi⟩
  have heffect : Effective i (.resume i o) := by
    cases o with
    | answered a => rfl
    | rejected err =>
      have hlate := hok hrow _ hawait
      simp [Call.afterDead] at hlate
    | lost a err => rfl
  obtain ⟨a, _, hreply⟩ := attend_effective (c := .jobUpdate d.jobId countDead) heffect s.world
  have hthere : s.world.db.hasJob d.jobId := by
    obtain ⟨d', hd', x, hx, hid⟩ := hrow
    cases hd.symm.trans hd'
    exact delivering_row hr hd hx hid ▸ s.world.db.job_fkey x hx
  obtain ⟨row, hrow'⟩ := Postgres.jobUpdate_found countDead hthere
  have hexec : (World.exec (.jobUpdate d.jobId countDead) a s.world).2 = .ok row := hrow'
  rw [hexec] at hreply
  refine stages_next hr hi hd he ?_ ?_ ?_ ?_
  · intro hidle
    cases hat.symm.trans hidle
  · rw [hat]
    have hone := timesCounted_step (e := e) (j := j) hr hs rfl
    rw [hreply, if_pos ⟨hjob, rfl, d, delivering_step hs hd, he⟩] at hone
    exact hone
  · rw [hat]
    intro n hn'
    match n with
    | 0 =>
      have hdead : DeadRow ((system S).resumed s i tag (.jobUpdate d.jobId countDead) k o) e ↔
          DeadRow s e := by
        apply deadRow_frame hs hn
        intro i' data' hawait' heffect
        cases awaits_self hi hawait' heffect
      simp only [deadStages, hdead]
    | 1 =>
      apply deadLettersOf_frame hs
      intro i' data' hawait' heffect
      cases awaits_self hi hawait' heffect
    | 2 => exact absurd rfl hn'
    | _ + 3 => rfl
  · rw [hat]
    rfl

end Resume

/-- Every step of the system that comes through is a move of the stages of each execution. -/
theorem stages_move (hr : Reachable S (.initial jobs hjobs clock) s) {ev : SystemEvent}
    (hok : comesThrough s ev) (hs : (system S).Step s ev s') (hn : Named s' e j) :
    Stages.Move 3 (deadStages s e j) (deadStages s' e j) := by
  cases hs with
  | begin hstart =>
    have hs : (system S).Step s _ _ := .begin hstart
    refine stages_aside hr hs hn (fun _ _ _ heffect => heffect.elim) ?_ ?_
    · intro x hx
      cases List.append_cancel_left hx
      exact id
    · exact fun i => deadPhaseOf_other hr hs nofun nofun
  | @resume i tag c k o hi =>
    by_cases hmine : ∃ d, delivering s i = some d ∧ d.executionId = e
    · obtain ⟨d, hd, he⟩ := hmine
      cases hat : deadPhaseAt d s.trace i with
      | idle => exact stages_idle hr hi hok hn hd he hat
      | adding => exact stages_add hr hi hok hn hd he hat
      | counting => exact stages_count hr hi hok hn hd he hat
    · exact stages_foreign hr hi hn fun d hd he => hmine ⟨d, hd, he⟩
  | stop hi => exact stages_stop hr hok (.stop hi) hn
  | outside hx =>
    have hs : (system S).Step s _ _ := .outside hx
    refine stages_aside hr hs hn (fun _ _ _ heffect => heffect.elim) ?_ ?_
    · intro x hx
      cases List.append_cancel_left hx
      exact id
    · exact fun i => deadPhaseOf_other hr hs nofun nofun

theorem stages_of_run (h : (system S).Run comesThrough (.fresh (.initial jobs hjobs clock)) s) :
    ∀ e j, Named s e j → ∃ k, Stages.At 3 k (deadStages s e j) := by
  apply h.keeps
  · intro e j _
    refine ⟨0, .start (fun n => ?_) fun i => ?_⟩
    · match n with
      | 0 => rfl
      | 1 => rfl
      | 2 => rfl
      | _ + 3 => rfl
    · have hidle : deadPhaseOf (.fresh (.initial jobs hjobs clock)) e i = .idle := by
        apply deadPhaseOf_idle
        intro _ _ _ halive
        exact absurd halive.lt (Nat.not_lt_zero i)
      exact congrArg DeadPhase.index hidle
  · intro s ev s' hrun ih hok hs e j hn
    obtain ⟨k, hk⟩ := ih e j (named_step hs hn)
    exact hk.move (stages_move (hrun.mono fun _ _ _ => trivial) hok hs hn)

/-- A thread that awaits nothing is not on its way. -/
theorem idle_of_over (hr : Reachable S (.initial jobs hjobs clock) s) (h : DeliveriesOver s e)
    (i : Nat) : deadPhaseOf s e i = .idle := by
  by_contra hne
  have hdelivers : ∃ d, delivering s i = some d ∧ d.executionId = e ∧ s.Alive i := by
    by_contra hnone
    exact hne (deadPhaseOf_idle fun d hd he halive => hnone ⟨d, hd, he, halive⟩)
  obtain ⟨d, hd, he, halive⟩ := hdelivers
  rw [deadPhaseOf_delivering hd he halive] at hne
  have hnothing : s.awaiting i = none := h.2 i halive.lt ⟨d, hd, he⟩
  obtain ⟨tag, p, hi⟩ := halive
  obtain ⟨m, hm, _⟩ := delivering_iff.mp hd
  cases (Live.tag hi).symm.trans hm
  have hwp := delivered_monitored deadPhases .idle (· = .idle) (fun _ _ _ _ => trivial)
    (fun m token b => deadPhases_deliver S.env b m token) hr hi hd
  cases p with
  | ret a => exact hne hwp
  | fail err => exact hne hwp
  | await c k =>
    have hawait : s.awaiting i = some c := State.Awaits.awaiting ⟨_, k, hi⟩
    cases hnothing.symm.trans hawait
  | sync l k => exact hr.settled hi

end Runs

/-- Where every dead-lettering that has begun comes through and no DEAD execution is written
again, dead-lettering is all or nothing. -/
theorem dead_lettering_all_or_nothing {S : Setup} {jobs : List Job}
    {hjobs : (jobs.map (·.id)).Nodup} {clock : Nat → Int} {s : SystemState}
    (h : (system S).Run comesThrough (.fresh (.initial jobs hjobs clock)) s) :
    AllOrNothing s := by
  intro x hx hover
  have hr : Reachable S (.initial jobs hjobs clock) s := h.mono fun _ _ _ => trivial
  obtain ⟨k, hk⟩ := stages_of_run h x.id x.jobId (Or.inl ⟨x, hx, rfl, rfl⟩)
  have hdead : DeadRow s x.id ↔ x.status = .DEAD := by
    constructor
    · intro hrow
      obtain ⟨y, hy, hid, hstatus⟩ := hrow
      rw [← List.inj_on_of_nodup_map (Postgres.execution_pkey _) hy hx hid]
      exact hstatus
    · exact fun hstatus => ⟨x, hx, rfl, hstatus⟩
  have hphases (i : Nat) : (deadStages s x.id x.jobId).phase i = 0 :=
    congrArg DeadPhase.index (idle_of_over hr hover i)
  rcases hk.all_or_nothing hphases with hnone | hall
  · have hopen : ¬ DeadRow s x.id := fun hrow => by
      have hzero := hnone 0 (by decide)
      simp only [deadStages, if_pos hrow] at hzero
      cases hzero
    have hadded : deadLettersOf s x.id = 0 := hnone 1 (by decide)
    rw [hdead] at hopen
    refine ⟨⟨fun hstatus => absurd hstatus hopen, fun hone => ?_⟩,
      fun hstatus => absurd hstatus hopen⟩
    cases hadded.symm.trans hone
  · have hrow : DeadRow s x.id := by
      by_contra hopen
      have hone := hall 0 (by decide)
      simp only [deadStages, if_neg hopen] at hone
      cases hone
    have hadded : deadLettersOf s x.id = 1 := hall 1 (by decide)
    have hcounted : timesCounted s x.id x.jobId = 1 := hall 2 (by decide)
    exact ⟨⟨fun _ => hadded, fun _ => hdead.mp hrow⟩, fun _ => hcounted⟩

/-- A tick enqueues an execution without retries; its callback is answered with status 500 and
the row becomes DEAD. -/
def deadRun : List SystemEvent :=
  [.begin .tick] ++ List.replicate 4 (Sample.answered 0) ++
    [.begin (.deliver 0)] ++ List.replicate 5 (Sample.answered 1) ++
    [.resume 1 (.answered { exchange := ⟨[], .response 500⟩ }), Sample.answered 1]

def deadLetteredRun : List SystemEvent := deadRun ++ List.replicate 5 (Sample.answered 1)

theorem dead_lettering_all_or_nothing_dead : ∃ s,
    (system Sample.setup).run (.fresh breakerWorld) deadLetteredRun = some s ∧
      statuses s = [(0, .DEAD)] ∧ DeliveriesOver s 0 ∧ AllOrNothing s := by
  have hrun : ((system Sample.setup).runChecked comesThrough (.fresh breakerWorld)
      deadLetteredRun).map (fun s => decide (statuses s = [(0, .DEAD)] ∧ DeliveriesOver s 0)) =
      some true := by decide +kernel
  obtain ⟨s, hs, hsum⟩ := Option.map_eq_some_iff.mp hrun
  obtain ⟨hstatus, hover⟩ := of_decide_eq_true hsum
  refine ⟨s, run_of_runChecked hs, hstatus, hover, ?_⟩
  exact dead_lettering_all_or_nothing (.of_runChecked hs)

/-- The dead-letter queue rejects the entry. -/
def lostDeadLetterRun : List SystemEvent :=
  deadRun ++ [.resume 1 (.rejected (.store "Connection is closed.")), Sample.answered 1]

theorem dead_execution_without_dead_letter :
    ∃ s, Reachable Sample.setup breakerWorld s ∧ ¬ AllOrNothing s := by
  have hrun : ((system Sample.setup).run (.fresh breakerWorld) lostDeadLetterRun).map
      (fun s => decide (∃ x ∈ s.world.db.executions, DeliveriesOver s x.id ∧ x.status = .DEAD ∧
        deadLettersOf s x.id = 0)) = some true := by decide +kernel
  obtain ⟨s, hs, hsum⟩ := Option.map_eq_some_iff.mp hrun
  obtain ⟨x, hx, hover, hdead, hnone⟩ := of_decide_eq_true hsum
  refine ⟨s, .of_run hs fun _ _ _ => trivial, fun h => ?_⟩
  have hone := (h x hx hover).1.mp hdead
  cases hnone.symm.trans hone

end CronHive
