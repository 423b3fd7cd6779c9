import CronHive.Announcements

/-!
# Runs of the circuit

Every step of the system moves the circuit of a job as the abstract one moves, so what holds of
the abstract runs holds of the alerts and the metrics of the workers.
-/

namespace CronHive

set_option autoImplicit false

open Async Async.Prog Async.Machine

/-- The circuit of `j` after the run `es`. -/
def circuitOf (S : Setup) (j : JobId) (s₀ : SystemState) (es : List SystemEvent)
    (s : SystemState) : Circuit where
  row := s.world.db.circuitRow j
  counted := deadCounts s j
  opening := s.population (breaker S.env) .outside (· = .opening j)
  announcing := s.population (breaker S.env) .outside (· = .announcing j)
  opened := openings S j s₀ es
  missed := (system S).tally (fun s e _ => if findsEnabled j s e then 0 else 1) s₀ es
  metered := increments S j s₀ es
  alerted := alerts s j

section Steps

variable {S : Setup} {w₀ : World} {s₀ s s' : SystemState} {j : JobId} {e : SystemEvent}
  {es : List SystemEvent} {x : TraceEntry}

theorem columnEnabled_eq (s : SystemState) (j : JobId) :
    columnEnabled s j = (s.world.db.circuitRow j).map Prod.snd := by
  rw [Postgres.circuitRow, Option.map_map]
  rfl

theorem columnEnabled_of_row {streak : Nat} {enabled : Bool}
    (h : s.world.db.circuitRow j = some (streak, enabled)) :
    columnEnabled s j = some enabled := by
  rw [columnEnabled_eq, h]
  rfl

/-- What a step adds to the counts over the run. -/
theorem circuitOf_step (hrun : (system S).run s₀ es = some s) (hs : (system S).Step s e s')
    (hx : s'.trace = s.trace ++ [x]) :
    circuitOf S j s₀ (es ++ [e]) s' =
      { row := s'.world.db.circuitRow j
        counted := (circuitOf S j s₀ es s).counted + if deadMark j x = .counts then 1 else 0
        opening := s'.population (breaker S.env) .outside (· = .opening j)
        announcing := s'.population (breaker S.env) .outside (· = .announcing j)
        opened := (circuitOf S j s₀ es s).opened + opens j s e s'
        missed := (circuitOf S j s₀ es s).missed + if findsEnabled j s e then 0 else 1
        metered := (circuitOf S j s₀ es s).metered + meters j s e s'
        alerted := alerts s' j } := by
  ext1
  · rfl
  · simp [circuitOf, deadCounts, hx, List.countP_append, List.countP_singleton]
  · rfl
  · rfl
  · exact tally_append_singleton _ hrun hs
  · exact tally_append_singleton _ hrun hs
  · exact tally_append_singleton _ hrun hs
  · rfl

theorem opens_of_enabled (h : columnEnabled s' j = columnEnabled s j) : opens j s e s' = 0 := by
  apply if_neg
  intro hopens
  obtain ⟨hbefore, hafter, _⟩ := hopens
  rw [h, hbefore] at hafter
  cases hafter

/-- A step past which the workers stand where they stood. -/
theorem circuit_idle (hrun : (system S).run s₀ es = some s) (hs : (system S).Step s e s')
    (hx : s'.trace = s.trace ++ [x])
    (hrow : s'.world.db.circuitRow j = s.world.db.circuitRow j ∨
      (WritesAside s' j x ∧ opens j s e s' = 0))
    (hcounts : deadMark j x ≠ .counts)
    (hopening : s'.population (breaker S.env) .outside (· = .opening j) =
      s.population (breaker S.env) .outside (· = .opening j))
    (hannouncing : s'.population (breaker S.env) .outside (· = .announcing j) =
      s.population (breaker S.env) .outside (· = .announcing j))
    (hfinds : findsEnabled j s e) (hmeters : meters j s e s' = 0)
    (halerts : alerts s' j = alerts s j) :
    Circuit.Move S.env.circuitBreakerConsecutiveDead (WritesAside s' j x)
      (circuitOf S j s₀ es s) (circuitOf S j s₀ (es ++ [e]) s') := by
  have hopens : opens j s e s' = 0 := by
    rcases hrow with hrow | ⟨_, hopens⟩
    · apply opens_of_enabled
      rw [columnEnabled_eq, columnEnabled_eq, hrow]
    · exact hopens
  have hafter : circuitOf S j s₀ (es ++ [e]) s' =
      { circuitOf S j s₀ es s with row := s'.world.db.circuitRow j } := by
    rw [circuitOf_step hrun hs hx, if_neg hcounts, if_pos hfinds, hopening, hannouncing, hopens,
      hmeters, halerts]
    rfl
  rw [hafter]
  rcases hrow with hrow | ⟨haside, _⟩
  · rw [hrow]
    exact .rest
  · exact .rewritten haside _

/-! ## Steps of no delivery -/

theorem start_announcements {t : Task} {w w' : World} {p : Promise Response}
    (h : start S t w = some (w', p)) : w'.metrics = w.metrics ∧ w'.published = w.published := by
  cases t with
  | deliver m =>
    simp only [start] at h
    split at h
    · cases h
      exact ⟨rfl, rfl⟩
    · cases h
  | _ =>
    cases h
    exact ⟨rfl, rfl⟩

theorem spends_begin {t : Task} {w w' : World} {p : Promise Response}
    (ht : ∃ m, t = .deliver m) (h : (system S).start t w = some (w', p)) :
    p.Spends circuitMeter 0 := by
  obtain ⟨m, rfl⟩ := ht
  obtain ⟨token, b, _, rfl⟩ := start_deliver_message h
  exact Spends.bind (spends_deliver S.env b m token) fun _ => spends_ret _

@[simp] theorem spawned_published (t : Task) (w : World) (p : Promise Response) :
    ((system S).spawned s t w p).world.published = w.published :=
  drain_frame _ World.published World.eval_published p w

@[simp] theorem resumed_published (i : Nat) (t : Task) (c : Call)
    (k : Except Failure c.Reply → Promise Response) (o : Outcome Choice Failure) :
    ((system S).resumed s i t c k o).world.published =
      ((system S).attend c o s.world).1.published :=
  drain_frame _ World.published World.eval_published _ _

theorem meters_silent (hs : (system S).Step s e s') (he : ∀ i o, e ≠ .resume i o) :
    meters j s e s' = 0 := by
  cases hs with
  | @begin t w p h =>
    by_cases ht : ∃ m, t = .deliver m
    · have hspent : circuitOpenTotal ((system S).spawned s t w p).world = circuitOpenTotal w :=
        counter_spawned circuitOpenTotal World.eval_circuitOpen (spends_begin ht h)
      have hstart : circuitOpenTotal w = circuitOpenTotal s.world := by
        rw [circuitOpenTotal, (start_announcements h).1]
        rfl
      rw [meters, hspent, hstart, Nat.sub_self, ite_self]
    · apply if_neg
      intro hjob
      obtain ⟨d, hd, _⟩ := Option.map_eq_some_iff.mp hjob
      obtain ⟨m, hm, _⟩ := delivering_iff.mp hd
      have htag := (Live.tag (live_spawned_self (M := system S) (s := s) (t := t) (w := w)
        (p := p))).symm.trans hm
      exact ht ⟨m, Option.some.inj htag⟩
  | resume h => exact absurd rfl (he _ _)
  | stop h => rfl
  | outside h => rfl

/-- Beginnings, ends and what the environment does. -/
theorem circuit_silent (hr : Reachable S w₀ s) (hrun : (system S).run s₀ es = some s)
    (hs : (system S).Step s e s') (hx : s'.trace = s.trace ++ [x])
    (he : ∀ i o, e ≠ .resume i o) :
    Circuit.Move S.env.circuitBreakerConsecutiveDead (WritesAside s' j x)
      (circuitOf S j s₀ es s) (circuitOf S j s₀ (es ++ [e]) s') := by
  have hsame : s'.world.db = s.world.db ∧ s'.world.published = s.world.published := by
    cases hs with
    | begin h =>
      rw [spawned_db, spawned_published]
      exact ⟨(start_stores h).1, (start_announcements h).2⟩
    | resume h => exact absurd rfl (he _ _)
    | stop h => exact ⟨rfl, rfl⟩
    | @outside y w h => cases y <;> cases h <;> exact ⟨rfl, rfl⟩
  have hquiet : deadMark j x ≠ .counts := by
    intro hcounts
    obtain ⟨i, row, seen, rfl⟩ := deadMark_counts hcounts
    obtain ⟨_, _, o, _, rfl, _⟩ := hs.traced_call hx
    exact he _ _ rfl
  refine circuit_idle hrun hs hx ?_ hquiet (hs.population_eq _ _ _ hr.numbered nofun he)
    (hs.population_eq _ _ _ hr.numbered nofun he) ?_ (meters_silent hs he) ?_
  · rw [hsame.1]
    exact Or.inl rfl
  · cases e with
    | resume i o => exact absurd rfl (he i o)
    | _ => trivial
  · rw [alerts, alerts, hsame.2]

/-! ## Replies -/

section Replies

variable {i : Nat} {tag : Task} {c : Call} {k : Except Failure c.Reply → Promise Response}
  {o : Outcome Choice Failure}

theorem alerts_resumed (h : ∀ msg, c = .redisPublish msg → ¬ msg.announces j) :
    alerts ((system S).resumed s i tag c k o) j = alerts s j := by
  rw [alerts, resumed_published]
  rcases attend_cases (M := system S) c o s.world with ⟨_, hw, _⟩ | ⟨a, hw, _⟩
  · rw [hw]
    rfl
  · rw [hw]
    exact World.exec_alerts h

/-- The row stays as it is unless a statement on it is executed. -/
theorem circuitRow_resumed :
    ((system S).resumed s i tag c k o).world.db.circuitRow j = s.world.db.circuitRow j ∨
      ∃ a, ((system S).resumed s i tag c k o).world.db = (World.exec c a s.world).1.db ∧
        ((system S).attend c o s.world).2.1 = some (World.exec c a s.world).2 ∧
        c.WritesCircuit j (World.exec c a s.world).2 := by
  rw [resumed_db]
  rcases attend_cases (M := system S) c o s.world with ⟨_, hw, _⟩ | ⟨a, hw, hreply, _⟩
  · rw [hw]
    exact Or.inl rfl
  · rw [hw]
    by_cases hwrites : c.WritesCircuit j (World.exec c a s.world).2
    · exact Or.inr ⟨a, rfl, hreply, hwrites⟩
    · exact Or.inl (World.circuitRow_kept hwrites)

theorem SocketEvent.announces_unique {msg : SocketEvent} {j' : JobId} (h : msg.announces j)
    (h' : msg.announces j') : j = j' := by
  cases msg with
  | jobAlert payload => exact h.2.symm.trans h'.2
  | _ => exact h.elim

theorem next_announcing {env : Env} {st : BreakerPhase} {r : Except Failure c.Reply}
    (h : st.next env c r = .announcing j) : st = .opening j := by
  unfold BreakerPhase.next at h
  split at h
  · cases h
  · split at h <;> cases h
  · cases h
  · cases h
    rfl
  · cases h
  · cases h

theorem next_outside {env : Env} {r : Except Failure c.Reply}
    (h : ∀ id, c ≠ .jobUpdate id countDead) : BreakerPhase.next env .outside c r = .outside := by
  cases c with
  | jobUpdate id data =>
    cases r with
    | error e => rfl
    | ok row => exact if_neg fun hopens => h id (by rw [hopens.1])
  | _ => rfl

theorem tag_of_request {p : Promise Response} (hi : s.Live i tag p) (hrequest : ¬ IsDelivery s i)
    (m : Nat) : tag ≠ .deliver m := by
  intro htag
  subst htag
  exact hrequest ⟨m, Live.tag hi⟩

theorem delivering_request (hrequest : ¬ IsDelivery s i) : delivering s i = none := by
  cases hd : delivering s i with
  | none => rfl
  | some d =>
    obtain ⟨m, hm, _⟩ := delivering_iff.mp hd
    exact absurd ⟨m, hm⟩ hrequest

theorem request_counts (hr : Reachable S w₀ s) (hi : s.Live i tag (.await c k))
    (hrequest : ¬ IsDelivery s i) (id : JobId) : c ≠ .jobUpdate id countDead := by
  intro hc
  subst hc
  cases tag.keeps_counter (tag_of_request hi hrequest)
    (hr.only (fun _ _ _ _ => only_start) hi).1

/-- A request is never inside `applyCircuitBreaker`. -/
theorem breakerAt_request (hr : Reachable S w₀ s) (hi : ¬ IsDelivery s i) :
    breakerAt S.env s.trace i = .outside := by
  induction hr with
  | refl => rfl
  | @tail s s' e hr _ hs ih =>
    have hbefore : ¬ IsDelivery s i := fun h => by
      obtain ⟨m, hm⟩ := h
      exact hi ⟨m, hs.tag hm⟩
    rcases hs.stateAt (breaker S.env) i .outside with hsame | ⟨tag, c, k, o, hlive, _, _, hnext⟩
    · exact hsame.trans (ih hbefore)
    · refine hnext.trans ?_
      rw [show (breaker S.env).stateAt i .outside s.trace = .outside from ih hbefore]
      exact next_outside (request_counts hr hlive hbefore)

theorem population_request (hr : Reachable S w₀ s) (hi : s.Live i tag (.await c k))
    (hrequest : ¬ IsDelivery s i) {p : BreakerPhase → Prop} [DecidablePred p]
    (hp : ¬ p .outside) :
    ((system S).resumed s i tag c k o).population (breaker S.env) .outside p =
      s.population (breaker S.env) .outside p := by
  have hphase : (breaker S.env).stateAt i .outside s.trace = .outside :=
    breakerAt_request hr hrequest
  refine population_kept _ _ _ hi ?_ ?_
  · rw [hphase]
    exact hp
  · have hnext : (breaker S.env).next .outside c ((system S).attend c o s.world).2.2 = .outside :=
      next_outside (request_counts hr hi hrequest)
    rw [hphase, hnext]
    exact hp

theorem Task.not_publish {t : Task} (ht : ∀ m, t ≠ .deliver m) {c : Call} (h : t.Calls c)
    (msg : SocketEvent) : c ≠ .redisPublish msg := by
  intro hc
  subst hc
  cases t with
  | deliver m => exact ht m rfl
  | _ => exact h

theorem deadMark_resumed (hx : ((system S).resumed s i tag c k o).trace = s.trace ++ [x])
    (h : c ≠ .jobUpdate j countDead) : deadMark j x ≠ .counts := by
  intro hcounts
  obtain ⟨i', row, seen, rfl⟩ := deadMark_counts hcounts
  injection (List.cons.inj (List.append_cancel_left hx)).1 with _ hop
  exact h hop

theorem findsEnabled_resumed (hi : s.Live i tag (.await c k))
    (h : (delivering s i).isSome → c ≠ .jobUpdate j disable) :
    findsEnabled j s (.resume i o) := by
  intro hd hawait
  rw [State.Awaits.awaiting ⟨tag, k, hi⟩] at hawait
  exact absurd (Option.some.inj hawait) (h hd)

/-- A reply to a request. -/
theorem circuit_request (hr : Reachable S w₀ s) (hrun : (system S).run s₀ es = some s)
    (hi : s.Live i tag (.await c k)) (hrequest : ¬ IsDelivery s i)
    (hx : ((system S).resumed s i tag c k o).trace = s.trace ++ [x]) :
    Circuit.Move S.env.circuitBreakerConsecutiveDead
      (WritesAside ((system S).resumed s i tag c k o) j x) (circuitOf S j s₀ es s)
      (circuitOf S j s₀ (es ++ [.resume i o]) ((system S).resumed s i tag c k o)) := by
  have hs : (system S).Step s (.resume i o) ((system S).resumed s i tag c k o) := .resume hi
  have hbefore := delivering_request hrequest
  have hnone : delivering ((system S).resumed s i tag c k o) i = none :=
    (delivering_old hr hs (List.getElem?_eq_some_iff.mp hi).1).trans hbefore
  have hdelivered : delivered s (.resume i o) ((system S).resumed s i tag c k o) = none := hnone
  have hsilent := tag.not_publish (tag_of_request hi hrequest)
    (hr.only (fun _ _ _ _ => only_start) hi).1
  refine circuit_idle hrun hs hx ?_ (deadMark_resumed hx (request_counts hr hi hrequest j))
    (population_request hr hi hrequest nofun) (population_request hr hi hrequest nofun) ?_ ?_
    (alerts_resumed fun msg hc => absurd hc (hsilent msg))
  · rcases circuitRow_resumed (S := S) (s := s) (j := j) (i := i) (k := k) (o := o) with
      hrow | ⟨a, _, hreply, hwrites⟩
    · exact Or.inl hrow
    · refine Or.inr ⟨?_, ?_⟩
      · have hentry := (List.cons.inj (List.append_cancel_left hx)).1
        rw [← hentry, hreply]
        refine ⟨hwrites, fun h => ?_⟩
        rw [hnone] at h
        cases h.1
      · apply if_neg
        rw [hdelivered]
        intro h
        cases h.2.2
  · apply findsEnabled_resumed hi
    rw [hbefore]
    nofun
  · apply if_neg
    rw [hdelivered]
    nofun

/-! ## Replies to a delivery -/

section Delivered

variable {d : ExecutionJobData} (hr : Reachable S w₀ s) (hi : s.Live i tag (.await c k))
  (hd : delivering s i = some d)

include hi hd

theorem delivered_resumed :
    delivered s (.resume i o) ((system S).resumed s i tag c k o) = some d :=
  delivering_step (.resume hi) hd

include hr

theorem announcer_permits : Announcing.permits d (breakerAt S.env s.trace i) c := by
  obtain ⟨m, hm, _⟩ := delivering_iff.mp hd
  cases (Live.tag hi).symm.trans hm
  exact (delivered_monitored (announcer S.env) .outside (· = .outside) (fun _ _ _ _ => trivial)
    (fun m token b => announcer_deliver S.env b m token) hr hi hd).1

/-- An opening is counted in the step that tells of the update. -/
theorem meters_resumed : meters j s (.resume i o) ((system S).resumed s i tag c k o) =
    if d.jobId = j then circuitMeter.due c ((system S).attend c o s.world).2.2 else 0 := by
  obtain ⟨m, hm, _⟩ := delivering_iff.mp hd
  cases (Live.tag hi).symm.trans hm
  have hspends : (Prog.await c k).Spends circuitMeter 0 :=
    hr.spends circuitOpenTotal World.eval_circuitOpen (fun _ _ _ _ ht => spends_begin ht)
      ⟨m, rfl⟩ hi
  have hgrows : circuitOpenTotal ((system S).resumed s i (.deliver m) c k o).world =
      circuitOpenTotal s.world + circuitMeter.due c ((system S).attend c o s.world).2.2 :=
    counter_resumed circuitOpenTotal World.eval_circuitOpen World.exec_circuitOpen hspends
  rw [meters, delivered_resumed hi hd, hgrows, Nat.add_sub_cancel_left]
  simp

/-- Where a delivery stands when it gets a reply to a disabling update. -/
theorem opening_of_delivered {id : JobId} (hc : c = .jobUpdate id disable) :
    breakerAt S.env s.trace i = .opening id ∧ d.jobId = id := by
  have hpermits := announcer_permits hr hi hd
  subst hc
  cases hphase : breakerAt S.env s.trace i with
  | elsewhere => exact absurd hphase (breakerAt_delivery S.env s.trace i)
  | outside =>
    rw [hphase] at hpermits
    rcases hpermits with h | h <;> cases h
  | opening id' =>
    rw [hphase] at hpermits
    obtain ⟨rfl, h⟩ := hpermits
    cases h
    exact ⟨rfl, rfl⟩
  | announcing id' =>
    rw [hphase] at hpermits
    obtain ⟨_, msg, h, _⟩ := hpermits
    cases h

theorem announcing_of_delivered {msg : SocketEvent} (hc : c = .redisPublish msg)
    (hmsg : msg.announces j) : breakerAt S.env s.trace i = .announcing j := by
  have hpermits := announcer_permits hr hi hd
  subst hc
  cases hphase : breakerAt S.env s.trace i with
  | elsewhere => exact absurd hphase (breakerAt_delivery S.env s.trace i)
  | outside =>
    rw [hphase] at hpermits
    exact absurd hmsg (hpermits j)
  | opening id =>
    rw [hphase] at hpermits
    cases hpermits.2
  | announcing id =>
    rw [hphase] at hpermits
    obtain ⟨_, msg', h, hannounces⟩ := hpermits
    cases h
    rw [SocketEvent.announces_unique hannounces hmsg]

/-- Besides its counting and disabling updates a delivery only resets a streak. -/
theorem circuitRow_delivered
    (hx : ((system S).resumed s i tag c k o).trace = s.trace ++ [x])
    (hcount : c ≠ .jobUpdate j countDead) (hdisable : c ≠ .jobUpdate j disable) :
    ((system S).resumed s i tag c k o).world.db.circuitRow j = s.world.db.circuitRow j ∨
      (WritesAside ((system S).resumed s i tag c k o) j x ∧
        opens j s (.resume i o) ((system S).resumed s i tag c k o) = 0) := by
  rcases circuitRow_resumed (S := S) (s := s) (j := j) (i := i) (k := k) (o := o) with
    hrow | ⟨a, hdb, hreply, hwrites⟩
  · exact Or.inl hrow
  · refine Or.inr ⟨?_, ?_⟩
    · rw [← (List.cons.inj (List.append_cancel_left hx)).1, hreply]
      refine ⟨hwrites, fun h => ?_⟩
      rcases h.2 with hc | hc
      · exact hcount hc
      · exact hdisable hc
    · obtain ⟨m, hm, _⟩ := delivering_iff.mp hd
      cases (Live.tag hi).symm.trans hm
      obtain ⟨b, hcalls⟩ := (hr.only (fun _ _ _ _ => only_start) hi).1
      apply opens_of_enabled
      rw [columnEnabled_eq, columnEnabled_eq, hdb]
      cases c with
      | jobUpdate id data =>
        cases hexec : (World.exec (.jobUpdate id data) a s.world).2 with
        | error e =>
          rw [hexec] at hwrites
          exact hwrites.elim
        | ok row =>
          rw [hexec] at hwrites
          obtain ⟨rfl, _⟩ := hwrites
          obtain ⟨job, hrow, hbefore, hafter⟩ := World.circuitRow_jobUpdate hexec
          rw [hbefore, hafter, hrow]
          rcases hcalls.2 with rfl | rfl | rfl
          · exact absurd rfl hcount
          · exact absurd rfl hdisable
          · rfl
      | jobCreate data => exact hcalls.elim
      | jobDelete id => exact hcalls.elim
      | jobUpdateMany ids enabled => exact hcalls.elim
      | _ => exact hwrites.elim

/-- A reply of which the circuit of `j` takes no notice, except for a reset of its streak. -/
theorem circuit_aside (hrun : (system S).run s₀ es = some s)
    (hx : ((system S).resumed s i tag c k o).trace = s.trace ++ [x])
    (hcount : c ≠ .jobUpdate j countDead) (hdisable : c ≠ .jobUpdate j disable)
    (hpublish : ∀ msg, c = .redisPublish msg → ¬ msg.announces j) :
    Circuit.Move S.env.circuitBreakerConsecutiveDead
      (WritesAside ((system S).resumed s i tag c k o) j x) (circuitOf S j s₀ es s)
      (circuitOf S j s₀ (es ++ [.resume i o]) ((system S).resumed s i tag c k o)) := by
  have hpermits := announcer_permits hr hi hd
  have hopening : breakerAt S.env s.trace i ≠ .opening j := by
    intro hphase
    rw [hphase] at hpermits
    exact hdisable hpermits.2
  have hannouncing : breakerAt S.env s.trace i ≠ .announcing j := by
    intro hphase
    rw [hphase] at hpermits
    obtain ⟨_, msg, hc, hmsg⟩ := hpermits
    exact hpublish msg hc hmsg
  refine circuit_idle hrun (.resume hi) hx ?_ (deadMark_resumed hx hcount)
    (population_kept _ _ _ hi hopening ?_) (population_kept _ _ _ hi hannouncing ?_)
    (findsEnabled_resumed hi fun _ => hdisable) ?_ (alerts_resumed hpublish)
  · exact circuitRow_delivered hr hi hd hx hcount hdisable
  · intro hnext
    exact hcount (next_opening hnext).1
  · intro hnext
    exact hopening (next_announcing hnext)
  · rw [meters_resumed hr hi hd]
    split
    · rename_i hjob
      apply circuitMeter_due
      intro id hc
      obtain ⟨_, hid⟩ := opening_of_delivered hr hi hd hc
      subst hid hjob
      exact hdisable hc
    · rfl

end Delivered

/-! ## Inside `applyCircuitBreaker` -/

/-- An update of `j` that does not fail finds the row and writes it. -/
theorem updated_resumed {data : JobUpdate} {k : Except Failure Job → Promise Response}
    (hx : ((system S).resumed s i tag (.jobUpdate j data) k o).trace = s.trace ++ [x])
    (hsucceeds : ¬ Fails j x) : ∃ job row, row = data.apply job ∧
      ((system S).attend (.jobUpdate j data) o s.world).2.2 = .ok row ∧
      s.world.db.circuitRow j = some (job.consecutiveDeadCount, job.enabled) ∧
      ((system S).resumed s i tag (.jobUpdate j data) k o).world.db.circuitRow j =
        some (row.consecutiveDeadCount, row.enabled) ∧
      x = .answered i (.jobUpdate j data) (.ok row) := by
  have hentry := (List.cons.inj (List.append_cancel_left hx)).1
  cases hseen : ((system S).attend (.jobUpdate j data) o s.world).2.2 with
  | error e =>
    rw [← hentry, hseen] at hsucceeds
    exact absurd rfl hsucceeds
  | ok row =>
    obtain ⟨a, hexec, hw, hreply⟩ := attend_seen hseen
    obtain ⟨job, hrow, hbefore, hafter⟩ := World.circuitRow_jobUpdate (a := a) hexec
    refine ⟨job, row, hrow, rfl, hbefore, ?_, ?_⟩
    · rw [resumed_db, hw]
      exact hafter
    · rw [← hentry, hseen, hreply]
      rfl

section Breaker

variable {d : ExecutionJobData} (hr : Reachable S w₀ s) (hrun : (system S).run s₀ es = some s)
  (hd : delivering s i = some d)

/-- How many threads are at `p` after one has gone from `st` to `st'`. -/
theorem population_moved (hi : s.Live i tag (.await c k)) {st st' : BreakerPhase}
    (hphase : breakerAt S.env s.trace i = st)
    (hnext : st.next S.env c ((system S).attend c o s.world).2.2 = st') (p : BreakerPhase → Prop)
    [DecidablePred p] :
    ((system S).resumed s i tag c k o).population (breaker S.env) .outside p +
        (if p st then 1 else 0) =
      s.population (breaker S.env) .outside p + if p st' then 1 else 0 := by
  have hmoved := population_resumed (breaker S.env) .outside p (M := system S) (o := o) hi
  subst hphase hnext
  exact hmoved

include hr hrun hd

/-- The increment; whoever meets the threshold goes on to disable the job. -/
theorem circuit_counted {k : Except Failure Job → Promise Response}
    (hi : s.Live i tag (.await (.jobUpdate j countDead) k))
    (hx : ((system S).resumed s i tag (.jobUpdate j countDead) k o).trace = s.trace ++ [x])
    (hsucceeds : ¬ Fails j x) {rewrites : Prop} :
    Circuit.Move S.env.circuitBreakerConsecutiveDead rewrites (circuitOf S j s₀ es s)
      (circuitOf S j s₀ (es ++ [.resume i o])
        ((system S).resumed s i tag (.jobUpdate j countDead) k o)) := by
  obtain ⟨job, row, hrow, hseen, hbefore, hafter, rfl⟩ := updated_resumed hx hsucceeds
  have hstreak : row.consecutiveDeadCount = job.consecutiveDeadCount + 1 := by
    rw [hrow]
    rfl
  have henabled : row.enabled = job.enabled := by
    rw [hrow]
    rfl
  have hphase : breakerAt S.env s.trace i = .outside := by
    obtain ⟨m, hm, _⟩ := delivering_iff.mp hd
    exact outside_of_count (delivery_permits hr hi ⟨m, hm⟩)
  have hnext : BreakerPhase.next S.env .outside (.jobUpdate j countDead)
      ((system S).attend (.jobUpdate j countDead) o s.world).2.2 =
      if S.env.circuitBreakerConsecutiveDead ≤ job.consecutiveDeadCount + 1 then .opening j
      else .outside := by
    rw [hseen, ← hstreak]
    simp [BreakerPhase.next]
  have hmoved : circuitOf S j s₀ (es ++ [.resume i o])
      ((system S).resumed s i tag (.jobUpdate j countDead) k o) =
      { circuitOf S j s₀ es s with
        row := some (job.consecutiveDeadCount + 1, job.enabled)
        counted := (circuitOf S j s₀ es s).counted + 1
        opening := (circuitOf S j s₀ es s).opening +
          if S.env.circuitBreakerConsecutiveDead ≤ job.consecutiveDeadCount + 1 then 1
          else 0 } := by
    rw [circuitOf_step hrun (.resume hi) hx]
    ext1
    · rw [hafter, hstreak, henabled]
    · simp [deadMark, Entry.answered]
    · have hopening := population_moved hi hphase hnext (· = .opening j)
      by_cases hmet : S.env.circuitBreakerConsecutiveDead ≤ job.consecutiveDeadCount + 1
      · simpa [hmet, circuitOf] using hopening
      · simpa [hmet, circuitOf] using hopening
    · have hannouncing := population_moved hi hphase hnext (· = .announcing j)
      by_cases hmet : S.env.circuitBreakerConsecutiveDead ≤ job.consecutiveDeadCount + 1
      · simpa [hmet, circuitOf] using hannouncing
      · simpa [hmet, circuitOf] using hannouncing
    · have hopens : opens j s (.resume i o)
          ((system S).resumed s i tag (.jobUpdate j countDead) k o) = 0 := by
        apply opens_of_enabled
        rw [columnEnabled_of_row hafter, columnEnabled_of_row hbefore, henabled]
      rw [hopens]
      rfl
    · rw [if_pos (findsEnabled_resumed hi fun _ hc => by cases hc)]
      rfl
    · rw [meters_resumed hr hi hd, circuitMeter_due (fun id hc => by cases hc), ite_self]
      rfl
    · exact alerts_resumed fun msg hc => by cases hc
  rw [hmoved]
  exact .counted hbefore

/-- The disabling update, which does not ask whether the job is enabled. -/
theorem circuit_disabled {k : Except Failure Job → Promise Response}
    (hi : s.Live i tag (.await (.jobUpdate j disable) k))
    (hx : ((system S).resumed s i tag (.jobUpdate j disable) k o).trace = s.trace ++ [x])
    (hsucceeds : ¬ Fails j x) {rewrites : Prop} :
    Circuit.Move S.env.circuitBreakerConsecutiveDead rewrites (circuitOf S j s₀ es s)
      (circuitOf S j s₀ (es ++ [.resume i o])
        ((system S).resumed s i tag (.jobUpdate j disable) k o)) := by
  obtain ⟨job, row, hrow, hseen, hbefore, hafter, rfl⟩ := updated_resumed hx hsucceeds
  obtain ⟨hphase, hjob⟩ := opening_of_delivered hr hi hd rfl
  have hnext : BreakerPhase.next S.env (.opening j) (.jobUpdate j disable)
      ((system S).attend (.jobUpdate j disable) o s.world).2.2 = .announcing j := by
    rw [hseen]
    rfl
  have hstreak : row.consecutiveDeadCount = job.consecutiveDeadCount := by
    rw [hrow]
    rfl
  have hdisabled : row.enabled = false := by
    rw [hrow]
    rfl
  have hcolumn := columnEnabled_of_row hbefore
  have hawaiting : s.awaiting i = some (.jobUpdate j disable) :=
    State.Awaits.awaiting ⟨tag, k, hi⟩
  have hopening := population_moved hi hphase hnext (· = .opening j)
  have hmoved : circuitOf S j s₀ (es ++ [.resume i o])
      ((system S).resumed s i tag (.jobUpdate j disable) k o) =
      { circuitOf S j s₀ es s with
        row := some (job.consecutiveDeadCount, false)
        opening := ((system S).resumed s i tag (.jobUpdate j disable) k o).population
          (breaker S.env) .outside (· = .opening j)
        announcing := (circuitOf S j s₀ es s).announcing + 1
        opened := (circuitOf S j s₀ es s).opened + if job.enabled then 1 else 0
        missed := (circuitOf S j s₀ es s).missed + if job.enabled then 0 else 1
        metered := (circuitOf S j s₀ es s).metered + 1 } := by
    rw [circuitOf_step hrun (.resume hi) hx]
    ext1
    · rw [hafter, hstreak, hdisabled]
    · simp [deadMark, Entry.answered]
    · rfl
    · have hannouncing := population_moved hi hphase hnext (· = .announcing j)
      simpa [circuitOf] using hannouncing
    · have hcolumn' : columnEnabled ((system S).resumed s i tag (.jobUpdate j disable) k o) j =
          some false := by
        rw [columnEnabled_of_row hafter, hdisabled]
      simp [opens, hcolumn, hcolumn', delivered_resumed hi hd]
    · have hfinds : findsEnabled j s (.resume i o) ↔ job.enabled = true := by
        simp [findsEnabled, hd, hawaiting, hcolumn]
      simp [hfinds]
    · have hdue : circuitMeter.due (.jobUpdate j disable)
          ((system S).attend (.jobUpdate j disable) o s.world).2.2 = 1 := by
        rw [hseen]
        rfl
      rw [meters_resumed hr hi hd, if_pos hjob, hdue]
    · exact alerts_resumed fun msg hc => by cases hc
  rw [hmoved]
  exact .disabled hbefore (by simpa [circuitOf] using hopening.symm)

/-- The alert. -/
theorem circuit_announced {msg : SocketEvent} {k : Except Failure Unit → Promise Response}
    (hi : s.Live i tag (.await (.redisPublish msg) k)) (hmsg : msg.announces j)
    (hx : ((system S).resumed s i tag (.redisPublish msg) k o).trace = s.trace ++ [x])
    (hsucceeds : ¬ AlertFails j x) {rewrites : Prop} :
    Circuit.Move S.env.circuitBreakerConsecutiveDead rewrites (circuitOf S j s₀ es s)
      (circuitOf S j s₀ (es ++ [.resume i o])
        ((system S).resumed s i tag (.redisPublish msg) k o)) := by
  have hphase := announcing_of_delivered hr hi hd rfl hmsg
  have hnext : BreakerPhase.next S.env (.announcing j) (.redisPublish msg)
      ((system S).attend (.redisPublish msg) o s.world).2.2 = .outside := rfl
  have hpublished : ((system S).attend (.redisPublish msg) o s.world).1 =
      { s.world with published := s.world.published ++ [msg] } := by
    cases hseen : ((system S).attend (.redisPublish msg) o s.world).2.2 with
    | error e =>
      rw [← (List.cons.inj (List.append_cancel_left hx)).1, hseen] at hsucceeds
      exact absurd hmsg hsucceeds
    | ok _ =>
      obtain ⟨a, _, hw, _⟩ := attend_seen hseen
      exact hw
  have hdb : ((system S).resumed s i tag (.redisPublish msg) k o).world.db = s.world.db := by
    rw [resumed_db, hpublished]
  have hannouncing := population_moved hi hphase hnext (· = .announcing j)
  have hmoved : circuitOf S j s₀ (es ++ [.resume i o])
      ((system S).resumed s i tag (.redisPublish msg) k o) =
      { circuitOf S j s₀ es s with
        announcing := ((system S).resumed s i tag (.redisPublish msg) k o).population
          (breaker S.env) .outside (· = .announcing j)
        alerted := (circuitOf S j s₀ es s).alerted + 1 } := by
    rw [circuitOf_step hrun (.resume hi) hx]
    ext1
    · rw [hdb]
      rfl
    · rw [if_neg (deadMark_resumed hx fun hc => by cases hc)]
      rfl
    · have hopening := population_moved hi hphase hnext (· = .opening j)
      simpa [circuitOf] using hopening
    · rfl
    · rw [opens_of_enabled (by rw [columnEnabled, hdb]; rfl)]
      rfl
    · rw [if_pos (findsEnabled_resumed hi fun _ hc => by cases hc)]
      rfl
    · rw [meters_resumed hr hi hd, circuitMeter_due (fun id hc => by cases hc), ite_self]
      rfl
    · simp [circuitOf, alerts, hpublished, hmsg]
  rw [hmoved]
  exact .announced (by simpa [circuitOf] using hannouncing.symm)

end Breaker

/-- Every step of the system is a move of the circuit. -/
theorem circuit_step (hr : Reachable S w₀ s) (hrun : (system S).run s₀ es = some s)
    (hs : (system S).Step s e s') (hx : s'.trace = s.trace ++ [x]) (hupdates : ¬ Fails j x)
    (halerts : ¬ AlertFails j x) :
    Circuit.Move S.env.circuitBreakerConsecutiveDead (WritesAside s' j x)
      (circuitOf S j s₀ es s) (circuitOf S j s₀ (es ++ [e]) s') := by
  cases hs with
  | begin h => exact circuit_silent hr hrun (.begin h) hx nofun
  | stop h => exact circuit_silent hr hrun (.stop h) hx nofun
  | outside h => exact circuit_silent hr hrun (.outside h) hx nofun
  | @resume i tag c k o hi =>
    by_cases hdelivery : IsDelivery s i
    · obtain ⟨m, hm⟩ := hdelivery
      obtain ⟨d, hd⟩ := delivering_of_tag hr hm
      by_cases hcount : c = .jobUpdate j countDead
      · subst hcount
        exact circuit_counted hr hrun hd hi hx hupdates
      by_cases hdisable : c = .jobUpdate j disable
      · subst hdisable
        exact circuit_disabled hr hrun hd hi hx hupdates
      by_cases hpublish : ∃ msg, c = .redisPublish msg ∧ msg.announces j
      · obtain ⟨msg, rfl, hmsg⟩ := hpublish
        exact circuit_announced hr hrun hd hi hmsg hx halerts
      exact circuit_aside hr hi hd hrun hx hcount hdisable
        fun msg hc hmsg => hpublish ⟨msg, hc, hmsg⟩
    · exact circuit_request hr hrun hi hdelivery hx

end Replies

/-! ## Runs -/

theorem WritesAside.step (hr : Reachable S w₀ s) (hs : (system S).Step s e s') (hx : x ∈ s.trace)
    (h : WritesAside s j x) : WritesAside s' j x := by
  cases x with
  | called i c reply seen =>
    cases reply with
    | none => exact h
    | some r =>
      obtain ⟨hwrites, hother⟩ := h
      refine ⟨hwrites, ?_⟩
      rw [delivering_old hr hs (hr.numbered _ _ _ _ hx)]
      exact hother
  | _ => exact h

theorem circuit_of_run {jobs : List Job} {hjobs : (jobs.map (·.id)).Nodup} {clock : Nat → Int}
    (hrun : (system S).run (.fresh (.initial jobs hjobs clock)) es = some s)
    (hsucceeds : ∀ x ∈ s.trace, ¬ Fails j x ∧ ¬ AlertFails j x) :
    Circuit.Run S.env.circuitBreakerConsecutiveDead (∃ x ∈ s.trace, WritesAside s j x)
      (.start ((World.initial jobs hjobs clock).db.circuitRow j))
      (circuitOf S j (.fresh (.initial jobs hjobs clock)) es s) := by
  refine run_induction (I := fun es s => (∀ x ∈ s.trace, ¬ Fails j x ∧ ¬ AlertFails j x) →
    Circuit.Run S.env.circuitBreakerConsecutiveDead (∃ x ∈ s.trace, WritesAside s j x)
      (.start ((World.initial jobs hjobs clock).db.circuitRow j))
      (circuitOf S j (.fresh (.initial jobs hjobs clock)) es s)) ?_ ?_ hrun hsucceeds
  · intro _
    exact .refl
  · intro es s e s' hrun ih hs hsucceeds
    have hr : Reachable S (.initial jobs hjobs clock) s := .of_run hrun fun _ _ _ => trivial
    obtain ⟨x, hx⟩ := hs.traced
    have hlast : x ∈ s'.trace := by
      rw [hx]
      exact List.mem_append_right _ (List.mem_singleton.mpr rfl)
    have hbefore := ih fun y hy => hsucceeds y (hs.trace_subset hy)
    refine .tail (hbefore.mono fun hwrites => ?_) ((circuit_step hr hrun hs hx
      (hsucceeds x hlast).1 (hsucceeds x hlast).2).mono fun haside => ⟨x, hlast, haside⟩)
    obtain ⟨y, hy, haside⟩ := hwrites
    exact ⟨y, hs.trace_subset hy, haside.step hr hs hy⟩

theorem over_iff : (circuitOf S j s₀ es s).Over ↔ BreakersOver S.env s j := by
  have hopening : (circuitOf S j s₀ es s).opening = 0 ↔
      ∀ i < s.threads.length, breakerAt S.env s.trace i ≠ .opening j :=
    State.population_eq_zero (breaker S.env) .outside (· = .opening j) s
  have hannouncing : (circuitOf S j s₀ es s).announcing = 0 ↔
      ∀ i < s.threads.length, breakerAt S.env s.trace i ≠ .announcing j :=
    State.population_eq_zero (breaker S.env) .outside (· = .announcing j) s
  rw [Circuit.Over, hopening, hannouncing]
  constructor
  · intro h i hi
    exact ⟨h.1 i hi, h.2 i hi⟩
  · intro h
    exact ⟨fun i hi => (h i hi).1, fun i hi => (h i hi).2⟩

theorem announcedOnce_iff :
    AnnouncedOnce S j s₀ es s ↔ (circuitOf S j s₀ es s).AnnouncedOnce := by
  constructor
  · intro h
    exact ⟨h.incremented, fun hover => h.alerted (over_iff.mp hover)⟩
  · intro h
    exact ⟨h.1, fun hover => h.2 (over_iff.mpr hover)⟩

end Steps

/-- Over every run in which no statement on the row of `j` and no alert for it fails, the
opening of the circuit is announced once exactly if every disabling update of a worker finds the
job enabled. Where nothing else writes the row that is so exactly if a single execution is
counted or the count ends with the first that meets the threshold. -/
theorem circuit_announced_once_iff {S : Setup} {jobs : List Job}
    {hjobs : (jobs.map (·.id)).Nodup} {clock : Nat → Int} {es : List SystemEvent} {s : SystemState}
    {j : JobId} (hrun : (system S).run (.fresh (.initial jobs hjobs clock)) es = some s)
    (hsucceeds : ∀ x ∈ s.trace, ¬ Fails j x ∧ ¬ AlertFails j x) :
    (AnnouncedOnce S j (.fresh (.initial jobs hjobs clock)) es s ↔
      (system S).Along (findsEnabled j) (.fresh (.initial jobs hjobs clock)) es) ∧
    ∀ job ∈ jobs, job.id = j → (∀ x ∈ s.trace, ¬ WritesAside s j x) → BreakersOver S.env s j →
      (AnnouncedOnce S j (.fresh (.initial jobs hjobs clock)) es s ↔
        if job.enabled then
          deadCounts s j ≤ 1 ∨
            job.consecutiveDeadCount + deadCounts s j ≤ S.env.circuitBreakerConsecutiveDead
        else
          deadCounts s j = 0 ∨
            job.consecutiveDeadCount + deadCounts s j < S.env.circuitBreakerConsecutiveDead) := by
  have hcircuit := circuit_of_run hrun hsucceeds
  constructor
  · rw [announcedOnce_iff, hcircuit.balanced.announcedOnce_iff]
    exact tally_eq_zero hrun
  · intro job hjob hid haside hover
    have hrow : (World.initial jobs hjobs clock).db.circuitRow j =
        some (job.consecutiveDeadCount, job.enabled) := by
      have hfound : (World.initial jobs hjobs clock).db.job? j = some job :=
        Postgres.job?_eq_some.mpr ⟨hjob, hid⟩
      rw [Postgres.circuitRow, hfound]
      rfl
    rw [hrow] at hcircuit
    have halone : Circuit.Run S.env.circuitBreakerConsecutiveDead False
        (.start (some (job.consecutiveDeadCount, job.enabled)))
        (circuitOf S j (.fresh (.initial jobs hjobs clock)) es s) := by
      refine hcircuit.mono fun hwrites => ?_
      obtain ⟨x, hx, hwrites⟩ := hwrites
      exact haside x hx hwrites
    rw [announcedOnce_iff]
    exact halone.announcedOnce_iff (over_iff.mpr hover)

theorem circuit_announced_once_opened : ∃ s,
    (system breakerSetup).run (.fresh breakerWorld) (openingRun 0 5) = some s ∧
      opening 2 ∈ s.trace ∧ alerts s "job-1" = 1 ∧
      AnnouncedOnce breakerSetup "job-1" (.fresh breakerWorld) (openingRun 0 5) s ∧
      (system breakerSetup).Along (findsEnabled "job-1") (.fresh breakerWorld)
        (openingRun 0 5) := by
  have hrun : ((system breakerSetup).run (.fresh breakerWorld) (openingRun 0 5)).map
      (fun s => decide (opening 2 ∈ s.trace ∧ alerts s "job-1" = 1 ∧
        (∀ x ∈ s.trace, ¬ Fails "job-1" x ∧ ¬ AlertFails "job-1" x) ∧
        (∀ x ∈ s.trace, ¬ WritesAside s "job-1" x) ∧ BreakersOver breakerSetup.env s "job-1" ∧
        deadCounts s "job-1" ≤ 1)) = some true := by
    decide +kernel
  obtain ⟨s, hs, hsum⟩ := Option.map_eq_some_iff.mp hrun
  obtain ⟨hopening, halerts, hsucceeds, haside, hover, hcount⟩ := of_decide_eq_true hsum
  obtain ⟨hiff, hcounted⟩ := circuit_announced_once_iff hs hsucceeds
  have honce := (hcounted _ List.mem_cons_self rfl haside hover).mpr (Or.inl hcount)
  exact ⟨s, hs, hopening, halerts, honce, hiff.mp honce⟩

/-- A delivery of message `m` up to the failure of its callback, by thread `i`. -/
def failingDelivery (i m : Nat) : List SystemEvent :=
  [.begin (.deliver m)] ++ List.replicate 5 (Sample.answered i) ++
    [.resume i (.answered { exchange := ⟨[], .response 500⟩ })]

/-- A triggered and a scheduled execution are both called back before the first is
dead-lettered. -/
def overlappingRun : List SystemEvent :=
  [.begin (.trigger "job-1")] ++ List.replicate 4 (Sample.answered 0) ++
    [.begin .tick] ++ List.replicate 4 (Sample.answered 1) ++
    failingDelivery 2 0 ++ failingDelivery 3 1 ++
    List.replicate 8 (Sample.answered 2) ++ List.replicate 8 (Sample.answered 3)

theorem circuit_announced_twice : ∃ s,
    (system breakerSetup).run (.fresh breakerWorld) overlappingRun = some s ∧
      (∀ x ∈ s.trace, ¬ Fails "job-1" x ∧ ¬ AlertFails "job-1" x) ∧
      BreakersOver breakerSetup.env s "job-1" ∧ alerts s "job-1" = 2 ∧
      increments breakerSetup "job-1" (.fresh breakerWorld) overlappingRun = 2 ∧
      openings breakerSetup "job-1" (.fresh breakerWorld) overlappingRun = 1 := by
  have hrun : ((system breakerSetup).run (.fresh breakerWorld) overlappingRun).map
      (fun s => decide ((∀ x ∈ s.trace, ¬ Fails "job-1" x ∧ ¬ AlertFails "job-1" x) ∧
        BreakersOver breakerSetup.env s "job-1" ∧ alerts s "job-1" = 2)) = some true := by
    decide +kernel
  obtain ⟨s, hs, hsum⟩ := Option.map_eq_some_iff.mp hrun
  obtain ⟨hsucceeds, hover, halerts⟩ := of_decide_eq_true hsum
  have hcounts : increments breakerSetup "job-1" (.fresh breakerWorld) overlappingRun = 2 ∧
      openings breakerSetup "job-1" (.fresh breakerWorld) overlappingRun = 1 := by decide +kernel
  exact ⟨s, hs, hsucceeds, hover, halerts, hcounts⟩

end CronHive
