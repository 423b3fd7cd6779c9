import CronHive.Async.Labels
import CronHive.Attempts

/-!
# What tells callbacks apart

A receiver is told the execution and the number of the attempt. The two tell any two callbacks of
a run apart, unless BullMQ has found the message stalled: only then is an attempt made again.
-/

namespace CronHive

set_option autoImplicit false

open Async Async.Prog Async.Machine

/-! ## The number a delivery is made with -/

/-- A callback carries this number. -/
def Call.numbered (n : Nat) : Call → Prop
  | .fetch _ body _ => body.attemptNumber = n
  | _ => True

theorem numbered_of_ofDelivery {b : BullJob} (c : Call) (h : c.ofDelivery b) :
    c.numbered b.attemptNumber := by
  cases c with
  | fetch url body timeoutMs => exact h.2
  | _ => trivial

/-! ## What a delivery begins with -/

/-- The message of a delivery, and the attempts that it has behind it when the delivery begins. -/
def attemptOf : Task → World → Option (Nat × Nat)
  | .deliver m, w => (w.queue[m]?).map fun x => (m, x.attemptsMade)
  | _, _ => none

/-- What a thread may call that began with `attempt`. -/
def NumberedFrom (attempt : Option (Nat × Nat)) (c : Call) : Prop :=
  match attempt with
  | some (_, made) => c.numbered (made + 1)
  | none => ∀ e, c.callsBack e = false

theorem attemptOf_eq_some {t : Task} {w : World} {m made : Nat}
    (h : attemptOf t w = some (m, made)) :
    t = .deliver m ∧ ∃ x, w.queue[m]? = some x ∧ x.attemptsMade = made := by
  cases t with
  | deliver m' =>
    obtain ⟨x, hx, heq⟩ := Option.map_eq_some_iff.mp h
    cases heq
    exact ⟨rfl, x, hx, rfl⟩
  | _ => cases h

theorem numberedFrom_start {S : Setup} {t : Task} {w w' : World} {p : Promise Response}
    (h : start S t w = some (w', p)) : p.Only (NumberedFrom (attemptOf t w)) := by
  by_cases hdeliver : ∃ m, t = .deliver m
  · obtain ⟨m, rfl⟩ := hdeliver
    simp only [start] at h
    split at h
    · rename_i data attempts delay made stalledCount hm
      cases h
      simp only [attemptOf, hm, Option.map_some]
      have hdeliver := only_deliver S.env ⟨data, made, some attempts⟩ m w.nextToken
      exact Only.bind (hdeliver.mono numbered_of_ofDelivery) fun _ => only_ret _
    · cases h
  · refine (only_start h).mono fun c hc => ?_
    have hnone : attemptOf t w = none := by
      cases t with
      | deliver m => exact absurd ⟨m, rfl⟩ hdeliver
      | _ => rfl
    rw [hnone]
    intro e
    by_contra hcalls
    exact hdeliver (only_delivery_fetches (by simpa using hcalls) t hc)

/-! ## Each attempt is made once, and once more for each stall -/

/-- Whether the attempt that has `made` behind it has been taken up. -/
def Message.taken (x : Message) (made : Nat) : Nat :=
  if made < x.attemptsMade ∨ (made = x.attemptsMade ∧ x.state ≠ .waiting) then 1 else 0

section Moves

variable {x : Message} {made : Nat}

theorem Message.taken_le_one : x.taken made ≤ 1 := by
  unfold Message.taken
  split <;> omega

theorem Message.taken_of_lt (h : made < x.attemptsMade) : x.taken made = 1 :=
  if_pos (Or.inl h)

theorem Message.taken_active (hx : x.state = .waiting) (token : Token) :
    { x with state := .active token }.taken made =
      x.taken made + if made = x.attemptsMade then 1 else 0 := by
  unfold Message.taken
  by_cases heq : made = x.attemptsMade
  · simp [heq, hx]
  · simp [heq]

theorem Message.taken_completed (token : Token) :
    x.taken made ≤ (Bull.completed token x).taken made := by
  unfold Bull.completed
  split
  · unfold Message.taken
    split
    · rename_i h
      rw [if_pos (h.imp_right fun h => ⟨h.1, nofun⟩)]
    · exact Nat.zero_le _
  · exact Nat.le_refl _

theorem Message.taken_failed (token : Token) :
    x.taken made ≤ (Bull.failed token x).taken made := by
  have hmore {y : Message} (hy : y.attemptsMade = x.attemptsMade + 1) :
      x.taken made ≤ y.taken made := by
    by_cases h : made ≤ x.attemptsMade
    · rw [Message.taken_of_lt (by omega : made < y.attemptsMade)]
      exact Message.taken_le_one
    · rw [Message.taken, if_neg (by omega)]
      exact Nat.zero_le _
  unfold Bull.failed
  split
  · split
    · exact hmore rfl
    · exact hmore rfl
  · exact Nat.le_refl _

theorem Message.taken_stalled :
    x.taken made ≤ (Bull.stalled x).taken made + 1 :=
  Nat.le_trans Message.taken_le_one (Nat.le_add_left _ _)

end Moves

/-- How often each attempt has begun. -/
structure Numbering (s : SystemState) (attempts : List (Option (Nat × Nat))) : Prop where
  within : ∀ m made, some (m, made) ∈ attempts →
    ∃ x, s.world.queue[m]? = some x ∧ made < x.attempts
  paid : ∀ m x, s.world.queue[m]? = some x → ∀ made,
    attempts.count (some (m, made)) ≤ x.taken made + stalls m s.trace

namespace Numbering

variable {S : Setup} {s s' : SystemState} {attempts : List (Option (Nat × Nat))}

theorem count_beyond (h : Numbering s attempts) {m : Nat} (hm : s.world.queue.length ≤ m)
    (made : Nat) : attempts.count (some (m, made)) = 0 := by
  apply List.count_eq_zero_of_not_mem
  intro hmem
  obtain ⟨x, hx, _⟩ := h.within m made hmem
  have hlt := (List.getElem?_eq_some_iff.mp hx).1
  omega

/-- One message changes, and `stalled` stalls of it are found. -/
theorem change (h : Numbering s attempts) {m : Nat} {f : Message → Message} (stalled : Nat)
    (hqueue : s'.world.queue = s.world.queue.modify m f)
    (hstalled : ∀ k, stalls k s'.trace = stalls k s.trace + if k = m then stalled else 0)
    (hattempts : ∀ x, (f x).attempts = x.attempts)
    (hf : ∀ x made, x.taken made ≤ (f x).taken made + stalled) : Numbering s' attempts where
  within k made hmem := by
    obtain ⟨x, hx, hlt⟩ := h.within k made hmem
    refine ⟨if m = k then f x else x, ?_, ?_⟩
    · rw [hqueue, Bull.modify, List.getElem?_modify, hx]
      rfl
    · split
      · rwa [hattempts]
      · exact hlt
  paid k y hy made := by
    rw [hqueue, Bull.modify, List.getElem?_modify] at hy
    obtain ⟨x, hx, rfl⟩ := Option.map_eq_some_iff.mp hy
    have hle := h.paid k x hx made
    rw [hstalled]
    by_cases hk : m = k
    · subst hk
      have hmoved := hf x made
      simp only [if_true]
      omega
    · simp only [if_neg hk, if_neg (Ne.symm hk)]
      exact hle

/-- Nothing happens to any message that is there. -/
theorem frame (h : Numbering s attempts) (added : Bull)
    (hqueue : s'.world.queue = s.world.queue ++ added)
    (hstalled : ∀ k, stalls k s'.trace = stalls k s.trace) : Numbering s' attempts where
  within k made hmem := by
    obtain ⟨x, hx, hlt⟩ := h.within k made hmem
    refine ⟨x, ?_, hlt⟩
    rw [hqueue, List.getElem?_append_left (List.getElem?_eq_some_iff.mp hx).1, hx]
  paid k y hy made := by
    rw [hstalled]
    by_cases hk : k < s.world.queue.length
    · rw [hqueue, List.getElem?_append_left hk] at hy
      exact h.paid k y hy made
    · rw [h.count_beyond (by omega)]
      exact Nat.zero_le _

/-- A thread begins that makes no attempt. -/
theorem other (h : Numbering s attempts) : Numbering s (attempts ++ [none]) where
  within m made hmem := by
    rcases List.mem_append.mp hmem with hmem | hmem
    · exact h.within m made hmem
    · cases List.mem_singleton.mp hmem
  paid m x hx made := by
    rw [List.count_append, List.count_singleton]
    exact h.paid m x hx made

/-- A delivery takes the message up, with the attempts that it has behind it. -/
theorem taken (h : Numbering s attempts) {m : Nat} {x : Message} {token : Token}
    (hx : s.world.queue[m]? = some x) (hwaiting : x.state = .waiting)
    (hmore : x.attemptsMade < x.attempts)
    (hqueue : s'.world.queue =
      s.world.queue.modify m fun y => { y with state := .active token })
    (hstalled : ∀ k, stalls k s'.trace = stalls k s.trace) :
    Numbering s' (attempts ++ [some (m, x.attemptsMade)]) where
  within k made hmem := by
    have hold : ∃ y, s.world.queue[k]? = some y ∧ made < y.attempts := by
      rcases List.mem_append.mp hmem with hmem | hmem
      · exact h.within k made hmem
      · cases List.mem_singleton.mp hmem
        exact ⟨x, hx, hmore⟩
    obtain ⟨y, hy, hlt⟩ := hold
    refine ⟨if m = k then { y with state := .active token } else y, ?_, ?_⟩
    · rw [hqueue, Bull.modify, List.getElem?_modify, hy]
      rfl
    · split
      · exact hlt
      · exact hlt
  paid k y hy made := by
    rw [hqueue, Bull.modify, List.getElem?_modify] at hy
    obtain ⟨y₀, hy₀, rfl⟩ := Option.map_eq_some_iff.mp hy
    have hle := h.paid k y₀ hy₀ made
    rw [hstalled, List.count_append, List.count_singleton]
    by_cases hk : m = k
    · subst hk
      cases hx.symm.trans hy₀
      rw [if_pos rfl, Message.taken_active hwaiting]
      by_cases hmade : made = x.attemptsMade
      · simp only [hmade, beq_self_eq_true, if_true] at hle ⊢
        omega
      · have hne : (some (m, x.attemptsMade) == some (m, made)) = false := by
          simpa using Ne.symm hmade
        rw [if_neg hmade, hne]
        simpa using hle
    · have hne : (some (m, x.attemptsMade) == some (k, made)) = false := by
        simp [hk]
      rw [if_neg hk, hne]
      simpa using hle

theorem call (h : Numbering s attempts) {i : Nat} {tag : Task} {c : Call}
    {k : Except Failure c.Reply → Promise Response} {o : Outcome Choice Failure} :
    Numbering ((system S).resumed s i tag c k o) attempts := by
  have hstalled (n : Nat) :
      stalls n ((system S).resumed s i tag c k o).trace = stalls n s.trace :=
    (Budget.stalls_append n _ _).trans (by rw [if_neg (fun heq => by cases heq), Nat.add_zero])
  have hsame (hqueue : ((system S).resumed s i tag c k o).world.queue = s.world.queue) :
      Numbering ((system S).resumed s i tag c k o) attempts :=
    h.frame [] (by rw [hqueue, List.append_nil]) hstalled
  have hmodify {m : Nat} {f : Message → Message} (hattempts : ∀ x, (f x).attempts = x.attempts)
      (hf : ∀ x made, x.taken made ≤ (f x).taken made)
      (hqueue : ((system S).resumed s i tag c k o).world.queue = s.world.queue.modify m f) :
      Numbering ((system S).resumed s i tag c k o) attempts :=
    h.change 0 hqueue (fun n => by rw [hstalled, ite_self, Nat.add_zero]) hattempts hf
  rcases attend_cases (M := system S) c o s.world with ⟨_, hw, _⟩ | ⟨a, hw, _⟩
  · exact hsame (by rw [resumed_queue, hw])
  · have hqueue : ((system S).resumed s i tag c k o).world.queue =
        (World.exec c a s.world).1.queue := by
      rw [resumed_queue, hw]
      rfl
    cases c with
    | queueAdd data opts => exact h.frame _ hqueue hstalled
    | moveToCompleted m token =>
      exact hmodify (fun x => (Bull.completed_order token x).2)
        (fun x made => Message.taken_completed token) hqueue
    | moveToFailed m token =>
      exact hmodify (fun x => (Bull.failed_order token x).2)
        (fun x made => Message.taken_failed token) hqueue
    | _ => exact hsame hqueue

theorem begins (hbudget : Budget s) (h : Numbering s attempts) {t : Task} {w : World}
    {p : Promise Response} (hstart : (system S).start t s.world = some (w, p)) :
    Numbering ((system S).spawned s t w p) (attempts ++ [attemptOf t s.world]) := by
  have hstalled (k : Nat) : stalls k ((system S).spawned s t w p).trace = stalls k s.trace :=
    (Budget.stalls_append k _ _).trans (by rw [if_neg (fun heq => by cases heq), Nat.add_zero])
  by_cases hdeliver : ∃ m, t = .deliver m
  · obtain ⟨m, rfl⟩ := hdeliver
    simp only [system, start] at hstart
    split at hstart
    · rename_i data attempts delay made stalledCount hm
      cases hstart
      simp only [attemptOf, hm, Option.map_some]
      refine h.taken hm rfl ?_ (spawned_queue ..) hstalled
      exact (hbudget.within m _ hm).1
    · cases hstart
  · have hnone : attemptOf t s.world = none := by
      cases t with
      | deliver m => exact absurd ⟨m, rfl⟩ hdeliver
      | _ => rfl
    rw [hnone]
    refine (h.frame [] ?_ hstalled).other
    rw [spawned_queue, List.append_nil]
    cases t with
    | deliver m => exact absurd ⟨m, rfl⟩ hdeliver
    | _ =>
      cases hstart
      rfl

theorem step (h : Numbering s attempts) {e : SystemEvent} (hs : (system S).Step s e s')
    (he : ∀ t, e ≠ .begin t) : Numbering s' attempts := by
  cases hs with
  | begin _ => exact absurd rfl (he _)
  | resume _ => exact h.call
  | stop _ =>
    refine h.frame [] (List.append_nil _).symm fun k => ?_
    exact (Budget.stalls_append k _ _).trans (by rw [if_neg (fun heq => by cases heq),
      Nat.add_zero])
  | @outside x w hx =>
    cases x with
    | expire key =>
      cases hx
      refine h.frame [] (List.append_nil _).symm fun k => ?_
      exact (Budget.stalls_append k _ _).trans (by rw [if_neg (fun heq => by cases heq),
        Nat.add_zero])
    | stall m =>
      cases hx
      refine h.change 1 rfl ?_ (fun x => (Bull.stalled_order x).2)
        fun x made => Message.taken_stalled
      intro k
      refine (Budget.stalls_append k _ _).trans ?_
      simp only [Entry.outside.injEq, Outside.stall.injEq, eq_comm]

theorem of_labelled {jobs : List Job} {hjobs : (jobs.map (·.id)).Nodup} {clock : Nat → Int}
    (h : (system S).Labelled attemptOf (.initial jobs hjobs clock) s attempts) :
    Numbering s attempts := by
  induction h with
  | fresh =>
    constructor
    · intro m made hmem
      cases hmem
    · intro m x _ made
      exact Nat.zero_le _
  | begin h hstart ih => exact ih.begins (Budget.of_reachable h.run) hstart
  | other _ hs he ih => exact ih.step hs he

end Numbering

/-! ## Callbacks with their numbers -/

/-- Callback number `n` for execution `e`. -/
def Call.callsBackAs (e : ExecutionId) (n : Nat) : Call → Bool
  | .fetch _ body _ => body.executionId = e && body.attemptNumber = n
  | _ => false

/-- How many callbacks `n` have been made for `e`. -/
def callbacksAs (e : ExecutionId) (n : Nat) (tr : List TraceEntry) : Nat :=
  tr.countP (Entry.calls (Call.callsBackAs e n))

theorem callsBackAs_iff {e : ExecutionId} {n : Nat} {c : Call} :
    c.callsBackAs e n = true ↔ c.callsBack e = true ∧ c.numbered n := by
  cases c with
  | fetch url body timeoutMs => simp [Call.callsBackAs, Call.callsBack, Call.numbered]
  | _ => simp [Call.callsBackAs, Call.callsBack]

section Runs

variable {S : Setup} {s : SystemState} {attempts : List (Option (Nat × Nat))}

/-- A callback is made by a delivery that took the message up with one attempt less behind it. -/
theorem callback_attempt {w₀ : World} (h : (system S).Labelled attemptOf w₀ s attempts)
    {e : ExecutionId} {n i : Nat} (hi : i ∈ callers (Call.callsBackAs e n) s.trace) :
    ∃ m x made, s.world.queue[m]? = some x ∧ x.data.executionId = e ∧ n = made + 1 ∧
      attempts[i]? = some (some (m, made)) := by
  obtain ⟨c, reply, seen, hm, hc⟩ := mem_callers.mp hi
  obtain ⟨hcalls, hnumber⟩ := callsBackAs_iff.mp hc
  obtain ⟨m, x, hx, hid, htag⟩ :=
    callback_delivers h.run (mem_callers.mpr ⟨c, reply, seen, hm, hcalls⟩)
  obtain ⟨attempt, hattempt, hfrom⟩ := h.called_only (fun _ _ _ _ => numberedFrom_start) hm
  cases attempt with
  | none => exact absurd hcalls (by simp [hfrom e])
  | some a =>
    obtain ⟨m', made⟩ := a
    obtain ⟨t, w, heq, htag'⟩ := h.origin hattempt
    obtain ⟨rfl, _⟩ := attemptOf_eq_some heq.symm
    cases htag.symm.trans htag'
    refine ⟨m, x, made, hx, hid, ?_, hattempt⟩
    cases c with
    | fetch url body timeoutMs => exact hnumber.symm.trans hfrom
    | _ => cases hc

theorem callbacksAs_le_begun {jobs : List Job} {hjobs : (jobs.map (·.id)).Nodup}
    {clock : Nat → Int}
    (h : (system S).Labelled attemptOf (.initial jobs hjobs clock) s attempts) {m made : Nat}
    {x : Message} (hx : s.world.queue[m]? = some x) :
    callbacksAs x.data.executionId (made + 1) s.trace ≤ attempts.count (some (m, made)) := by
  rw [← length_labelledWith]
  refine countP_calls_le (fun i => ?_) fun i hi => ?_
  · by_cases hcalls : (transcript i s.trace).countP
        (fun a => a.op.callsBackAs x.data.executionId (made + 1)) = 0
    · omega
    · obtain ⟨a, ha, hcall⟩ := List.countP_pos_iff.mp (Nat.pos_of_ne_zero hcalls)
      have hcall := (callsBackAs_iff.mp hcall).1
      obtain ⟨reply, hm⟩ := mem_transcript.mp ha
      obtain ⟨m', _, _, _, htag⟩ := callback_delivers h.run (mem_callers.mpr ⟨_, _, _, hm, hcall⟩)
      obtain ⟨d, hd⟩ := delivering_of_tag h.run htag
      refine Nat.le_trans ?_ (one_callback x.data.executionId (delivery_follows h.run hd))
      exact List.countP_mono_left fun a _ ha => (callsBackAs_iff.mp ha).1
  · obtain ⟨m', x', made', hx', hid, hnumber, hattempt⟩ := callback_attempt h hi
    cases (SentOnce.of_reachable h.run).message_unique hx' hx hid
    obtain rfl := Nat.succ.inj hnumber
    exact mem_labelledWith.mpr hattempt

end Runs

/-- In every run the execution and the attempt number tell callbacks apart: an execution is called
back under a number at most once, and once more for each time BullMQ finds its message stalled,
and only under the numbers from one to the attempts of its message. -/
theorem attempt_numbers_distinct {S : Setup} {jobs : List Job} {hjobs : (jobs.map (·.id)).Nodup}
    {clock : Nat → Int} {s : SystemState} (hr : Reachable S (.initial jobs hjobs clock) s)
    (e : ExecutionId) (n : Nat) : callbacksAs e n s.trace = 0 ∨
      ∃ m x, s.world.queue[m]? = some x ∧ x.data.executionId = e ∧ 1 ≤ n ∧ n ≤ x.attempts ∧
        callbacksAs e n s.trace ≤ 1 + stalls m s.trace := by
  obtain ⟨attempts, h⟩ : ∃ attempts,
      (system S).Labelled attemptOf (.initial jobs hjobs clock) s attempts := hr.labelled
  by_cases hnone : callbacksAs e n s.trace = 0
  · exact Or.inl hnone
  · right
    have hpos : 0 < (callers (Call.callsBackAs e n) s.trace).length := by
      rw [length_callers]
      exact Nat.pos_of_ne_zero hnone
    obtain ⟨i, hi⟩ := List.exists_mem_of_length_pos hpos
    obtain ⟨m, x, made, hx, rfl, rfl, hattempt⟩ := callback_attempt h hi
    have hnumbering := Numbering.of_labelled h
    obtain ⟨y, hy, hlt⟩ := hnumbering.within m made (List.mem_of_getElem? hattempt)
    cases hx.symm.trans hy
    have hcalls : callbacksAs x.data.executionId (made + 1) s.trace ≤
        attempts.count (some (m, made)) := callbacksAs_le_begun h hx
    have hpaid := hnumbering.paid m x hx made
    have htaken : x.taken made ≤ 1 := Message.taken_le_one
    exact ⟨m, x, hx, rfl, by omega, by omega, by omega⟩

theorem attempt_numbers_distinct_stalled : ∃ s : SystemState, callbacksAs 0 1 s.trace = 2 ∧
    ∃ m x, s.world.queue[m]? = some x ∧ x.data.executionId = 0 ∧ 1 ≤ 1 ∧ 1 ≤ x.attempts ∧
      callbacksAs 0 1 s.trace ≤ 1 + stalls m s.trace := by
  have hrun : ((system Sample.setup).run (.fresh Sample.world) stalledRun).map
      (fun s => callbacksAs 0 1 s.trace) = some 2 := by decide +kernel
  obtain ⟨s, hs, hcalls⟩ := Option.map_eq_some_iff.mp hrun
  have hr : Reachable Sample.setup Sample.world s := .of_run hs fun _ _ _ => trivial
  refine ⟨s, hcalls, (attempt_numbers_distinct hr 0 1).resolve_left ?_⟩
  rw [hcalls]
  exact Nat.succ_ne_zero 1

end CronHive
