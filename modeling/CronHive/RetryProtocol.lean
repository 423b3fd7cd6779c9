import CronHive.DeliveryView

/-!
# The retry protocol

BullMQ delivers a message until its processor returns or its attempts are used up. When no
call fails and nobody else touches what the deliveries rely on, the message's execution ends
SUCCESS at the first callback that succeeds, and DEAD after `maxRetries + 1` that do not.
-/

namespace CronHive

set_option autoImplicit false

open Async Async.Prog Async.Machine

/-! ## What the deliveries make of the view -/

structure FirstOk (outcomes : Nat → HttpOutcome) (k : Nat) : Prop where
  positive : 1 ≤ k
  ok : (outcomes k).succeeds = true
  before : ∀ j, 1 ≤ j → j < k → (outcomes j).succeeds = false

def AllFail (outcomes : Nat → HttpOutcome) (n : Nat) : Prop :=
  ∀ j, 1 ≤ j → j ≤ n → (outcomes j).succeeds = false

theorem AllFail.succ {outcomes : Nat → HttpOutcome} {a : Nat} (h : AllFail outcomes a)
    (hnext : (outcomes (a + 1)).succeeds = false) : AllFail outcomes (a + 1) := by
  intro j hj hle
  rcases Nat.lt_or_eq_of_le hle with hlt | heq
  · exact h j hj (by omega)
  · rw [heq]
    exact hnext

theorem FirstOk.not_allFail {outcomes : Nat → HttpOutcome} {k n : Nat} (h : FirstOk outcomes k)
    (hle : k ≤ n) : ¬ AllFail outcomes n := by
  intro hfail
  have hk := hfail k h.positive hle
  rw [h.ok] at hk
  cases hk

theorem FirstOk.unique {outcomes : Nat → HttpOutcome} {k k' : Nat} (h : FirstOk outcomes k)
    (h' : FirstOk outcomes k') : k = k' := by
  rcases Nat.lt_trichotomy k k' with hlt | heq | hlt
  · have hk := h'.before k h.positive hlt
    rw [h.ok] at hk
    cases hk
  · exact heq
  · have hk := h.before k' h'.positive hlt
    rw [h'.ok] at hk
    cases hk

namespace View

variable (v : View)

def taken (token : Token) : View :=
  { v with message := { v.message with state := .active token } }

/-- `k` callbacks were made, the last of them succeeded. -/
def succeededAt (k : Nat) : View :=
  { v with
    message := { v.message with attemptsMade := k - 1, state := .completed }
    status := .SUCCESS
    attemptNumber := k
    deadCount := 0
    calls := v.calls ++ List.range' 1 k }

/-- `n` callbacks were made and the execution was dead-lettered. -/
def deadAfter (n : Nat) (enabled : Bool) (lastError : String) : View :=
  { v with
    message := { v.message with attemptsMade := n - 1, state := .completed }
    status := .DEAD
    attemptNumber := n
    enabled := enabled
    deadCount := v.deadCount + 1
    calls := v.calls ++ List.range' 1 n
    deadLetters := v.deadLetters ++
      [⟨v.message.data.executionId, v.message.data.jobId, "max_retries_exceeded", lastError⟩] }

end View

/-- What `a` deliveries, one after the other, make of `v₀`. -/
inductive Attempts (outcomes : Nat → HttpOutcome) (v₀ : View) : Nat → View → Prop where
  | retrying {a : Nat} (hfail : AllFail outcomes a) (hmore : a < v₀.message.attempts)
      (status : ExecutionStatus) (attemptNumber : Nat) :
      Attempts outcomes v₀ a
        { v₀ with
          message := { v₀.message with attemptsMade := a }
          status := status
          attemptNumber := attemptNumber
          calls := v₀.calls ++ List.range' 1 a }
  | succeeded {k : Nat} (hk : FirstOk outcomes k) (hle : k ≤ v₀.message.attempts) :
      Attempts outcomes v₀ k (v₀.succeededAt k)
  | dead (hfail : AllFail outcomes v₀.message.attempts) (enabled : Bool) (lastError : String) :
      Attempts outcomes v₀ v₀.message.attempts
        (v₀.deadAfter v₀.message.attempts enabled lastError)

namespace Attempts

variable {outcomes : Nat → HttpOutcome} {v₀ v v' : View} {a : Nat}

theorem none (hmade : v₀.message.attemptsMade = 0) (hattempts : 0 < v₀.message.attempts) :
    Attempts outcomes v₀ 0 v₀ := by
  have hnone : AllFail outcomes 0 := fun j hj hle => absurd hj (by omega)
  have hv₀ := retrying hnone hattempts v₀.status v₀.attemptNumber
  have hmessage : { v₀.message with attemptsMade := 0 } = v₀.message := by rw [← hmade]
  simp only [hmessage, List.range'_zero, List.append_nil] at hv₀
  exact hv₀

theorem waiting (h : Attempts outcomes v₀ a v) (hw : v.message.state = .waiting) :
    a < v₀.message.attempts ∧ v.enabled = v₀.enabled := by
  cases h with
  | retrying _ hmore _ _ => exact ⟨hmore, rfl⟩
  | succeeded _ _ => cases hw
  | dead _ _ _ => cases hw

theorem deliver (hv₀ : v₀.message.state = .waiting) {token : Token}
    (h : Attempts outcomes v₀ a v) (hw : v.message.state = .waiting)
    (hd : Delivered outcomes (v.taken token) v') : Attempts outcomes v₀ (a + 1) v' := by
  cases h with
  | succeeded _ _ => cases hw
  | dead _ _ _ => cases hw
  | retrying hfail hmore status attemptNumber =>
    have hcalls : v₀.calls ++ List.range' 1 a ++ [a + 1] = v₀.calls ++ List.range' 1 (a + 1) := by
      rw [List.range'_1_concat, List.append_assoc, Nat.add_comm 1 a]
    cases hd with
    | succeeded hok =>
      have hfirst : FirstOk outcomes (a + 1) :=
        ⟨by omega, hok, fun j hj hlt => hfail j hj (by omega)⟩
      have hsucceeded : Attempts outcomes v₀ (a + 1) (v₀.succeededAt (a + 1)) :=
        .succeeded hfirst hmore
      simp only [View.succeededAt, ← hcalls] at hsucceeded
      exact hsucceeded
    | dead hnext hlast enabled lastError =>
      have hattempts : v₀.message.attempts = a + 1 := Nat.le_antisymm hlast hmore
      have hall : AllFail outcomes v₀.message.attempts := hattempts ▸ hfail.succ hnext
      have hdead := dead hall enabled lastError
      rw [hattempts] at hdead
      simp only [View.deadAfter, ← hcalls] at hdead
      exact hdead
    | failed hnext hmore' =>
      have hmore₀ : a + 1 < v₀.message.attempts := hmore'
      have hretrying := retrying (hfail.succ hnext) hmore₀ .FAILED (a + 1)
      rw [← hcalls] at hretrying
      rw [← hv₀]
      exact hretrying

end Attempts

/-! ## Runs -/

section Runs

def Delivers (m : Nat) (s : SystemState) (i : Nat) : Prop :=
  s.threads[i]?.map (·.tag) = some (.deliver m)

instance (m : Nat) (s : SystemState) (i : Nat) : Decidable (Delivers m s i) :=
  inferInstanceAs (Decidable (_ = _))

def stepOf (m : Nat) (s : SystemState) : SystemEvent → Prop
  | .begin t => t = .deliver m
  | .resume i _ => Delivers m s i
  | .stop i => Delivers m s i
  | .outside _ => False

/-- BullMQ delivers the message whenever it may. No call of a delivery fails and none stops,
and a callback ends as `outcomes` says. Nobody else touches what the deliveries rely on. -/
inductive Calm (S : Setup) (m : Nat) (outcomes : Nat → HttpOutcome) (s : SystemState) :
    SystemEvent → Prop where
  | begin : Calm S m outcomes s (.begin (.deliver m))
  | answer {i : Nat} {x : Choice} (hi : Delivers m s i)
      (hx : ∀ c, s.Awaits i c → answersWith outcomes c x) :
      Calm S m outcomes s (.resume i (.answered x))
  | other {e : SystemEvent} (he : ¬ stepOf m s e)
      (hkeep : ∀ s', (system S).Step s e s' → ∀ v, Looks m s.world v → Looks m s'.world v) :
      Calm S m outcomes s e

def isDelivery (m : Nat) : TraceEntry → Bool
  | .began _ (.deliver m') => m' = m
  | _ => false

def deliveries (m : Nat) (trace : List TraceEntry) : Nat := trace.countP (isDelivery m)

def Idle (m : Nat) (s : SystemState) : Prop :=
  ∀ t ∈ s.threads, t.tag = .deliver m → t.busy = false

/-- BullMQ is done with the message. -/
def Concluded (m : Nat) (s : SystemState) : Prop :=
  Idle m s ∧ ∀ x ∈ s.world.queue[m]?, x.state ≠ .waiting

instance (m : Nat) (s : SystemState) : Decidable (Concluded m s) := by
  unfold Concluded Idle
  infer_instance

variable {S : Setup} {m : Nat} {outcomes : Nat → HttpOutcome} {s s' : SystemState}
  {v₀ v : View} {a : Nat}

theorem delivers_iff {i : Nat} {t : Task} {p : Promise Response} (hi : s.Live i t p) :
    Delivers m s i ↔ t = .deliver m := by
  unfold Delivers
  rw [hi]
  simp

theorem idle_iff : Idle m s ↔ ∀ i c k, ¬ s.Live i (.deliver m) (.await c k) := by
  constructor
  · intro h i c k hi
    have hbusy := h _ (List.mem_of_getElem? hi) rfl
    cases hbusy
  · intro h t ht htag
    obtain ⟨i, hi⟩ := List.mem_iff_getElem?.mp ht
    obtain ⟨tag, prog⟩ := t
    subst htag
    match prog, hi with
    | none, _ => rfl
    | some (.ret _), _ => rfl
    | some (.fail _), _ => rfl
    | some (.sync _ _), _ => rfl
    | some (.await c k), hi => exact absurd hi (h i c k)

theorem deliveries_append (tr : List TraceEntry) (x : TraceEntry) :
    deliveries m (tr ++ [x]) = deliveries m tr + if isDelivery m x then 1 else 0 := by
  unfold deliveries
  rw [List.countP_append, List.countP_singleton]

theorem deliveries_run {ok : SystemState → SystemEvent → Prop} (h : (system S).Run ok s s') :
    deliveries m s.trace ≤ deliveries m s'.trace := by
  induction h with
  | refl => exact Nat.le_refl _
  | tail _ _ hs ih =>
    obtain ⟨x, hx⟩ := hs.traced
    rw [hx, deliveries_append]
    exact Nat.le_trans ih (Nat.le_add_right _ _)

theorem others_step {e : SystemEvent} (he : ¬ stepOf m s e) (hs : (system S).Step s e s') :
    (∀ i p, s'.Live i (.deliver m) p ↔ s.Live i (.deliver m) p) ∧
      deliveries m s'.trace = deliveries m s.trace := by
  cases hs with
  | @begin t w p h =>
    have ht : t ≠ .deliver m := he
    refine ⟨fun i p => ⟨fun hi => ?_, live_spawned_of⟩, ?_⟩
    · rcases live_spawned hi with hi | ⟨_, htag, _⟩
      · exact hi
      · exact absurd htag.symm ht
    · simp only [spawned, deliveries_append]
      cases t with
      | deliver m' => simpa [isDelivery] using ht
      | _ => rfl
  | @resume i t c k o h =>
    have ht : t ≠ .deliver m := fun ht => he ((delivers_iff h).mpr ht)
    refine ⟨fun j p => ⟨fun hj => ?_, fun hj => live_resumed_of ?_ hj⟩, ?_⟩
    · rcases live_resumed hj with ⟨_, hj⟩ | ⟨_, htag, _⟩
      · exact hj
      · exact absurd htag.symm ht
    · intro hij
      subst hij
      exact ht (Live.unique h hj).1
    · simp only [resumed, deliveries_append]
      rfl
  | @stop i t c k h =>
    have ht : t ≠ .deliver m := fun ht => he ((delivers_iff h).mpr ht)
    refine ⟨fun j p => ⟨fun hj => (live_halted hj).2, fun hj => live_halted_of ?_ hj⟩, ?_⟩
    · intro hij
      subst hij
      exact ht (Live.unique h hj).1
    · simp only [halted, deliveries_append]
      rfl
  | outside h =>
    refine ⟨fun i p => Iff.rfl, ?_⟩
    simp only [moved, deliveries_append]
    rfl

theorem start_deliver {w w' : World} {p : Promise Response} (hlooks : Looks m w v)
    (h : start S (.deliver m) w = some (w', p)) :
    v.message.state = .waiting ∧ Looks m w' (v.taken w.nextToken) ∧
      p = (deliver S.env m w.nextToken v.message.bullJob).bind fun _ => .ret .done := by
  have htaken := looks_modify (f := fun x => { x with state := .active w.nextToken })
    w.finished (fun _ => rfl) hlooks
  have hmessage := hlooks.message
  simp only [start, hmessage] at h
  split at h
  · rename_i data attempts backoffDelay attemptsMade stalledCount hv
    cases h
    rw [Option.some.inj hv]
    refine ⟨rfl, ?_, rfl⟩
    exact ⟨htaken.message, htaken.job, htaken.cache, htaken.execution, htaken.calls,
      htaken.deadLetters⟩
  · cases h

theorem start_waiting {w : World} (hlooks : Looks m w v) (hw : v.message.state = .waiting) :
    ∃ w' p, start S (.deliver m) w = some (w', p) := by
  have hmessage := hlooks.message
  cases hx : v.message with
  | mk data attempts backoffDelay attemptsMade stalledCount state =>
    rw [hx] at hmessage hw
    obtain rfl : state = .waiting := hw
    exact ⟨_, _, by simp only [start, hmessage]; rfl⟩

/-- What delivery number `a + 1` of `m` is to make of the view it took. -/
abbrev Serves (m : Nat) (outcomes : Nat → HttpOutcome) (S : Setup) (v : View) (w : World)
    (p : Promise Response) : Prop :=
  Sees (system S) (Looks m) (answersWith outcomes) View.Taken w p fun v' _ =>
    ∃ token, Delivered outcomes (v.taken token) v'

/-- Between two deliveries, or in the course of one. -/
inductive Served (S : Setup) (m : Nat) (outcomes : Nat → HttpOutcome) (v₀ : View)
    (s : SystemState) : Prop where
  | idle {v : View} (hidle : Idle m s) (hlooks : Looks m s.world v)
      (hv : Attempts outcomes v₀ (deliveries m s.trace) v)
  | serving {v : View} {a i : Nat} {c : Call} {k : Except Failure c.Reply → Promise Response}
      (hv : Attempts outcomes v₀ a v) (hw : v.message.state = .waiting)
      (hcount : deliveries m s.trace = a + 1) (hi : s.Live i (.deliver m) (.await c k))
      (halone : ∀ j c' k', s.Live j (.deliver m) (.await c' k') → j = i)
      (hserves : Serves m outcomes S v s.world (.await c k))

namespace Served

theorem of_thread (hv₀ : v₀.message.state = .waiting) {i : Nat} {p : Promise Response}
    (hv : Attempts outcomes v₀ a v) (hw : v.message.state = .waiting)
    (hcount : deliveries m s.trace = a + 1) (hi : s.Live i (.deliver m) p) (hp : p.Settled)
    (halone : ∀ j c' k', s.Live j (.deliver m) (.await c' k') → j = i)
    (hserves : Serves m outcomes S v s.world p) : Served S m outcomes v₀ s := by
  cases p with
  | await c k => exact .serving hv hw hcount hi halone hserves
  | sync l k => exact hp.elim
  | ret r =>
    obtain ⟨v', hlooks, token, hd⟩ := hserves
    refine .idle (idle_iff.mpr fun j c k hj => ?_) hlooks (hcount ▸ hv.deliver hv₀ hw hd)
    cases halone j c k hj
    cases (Live.unique hi hj).2
  | fail e =>
    obtain ⟨v', hlooks, token, hd⟩ := hserves
    refine .idle (idle_iff.mpr fun j c k hj => ?_) hlooks (hcount ▸ hv.deliver hv₀ hw hd)
    cases halone j c k hj
    cases (Live.unique hi hj).2

theorem begin (hv₀ : v₀.message.state = .waiting) (henabled : v₀.enabled = true)
    (hidle : Idle m s) (hlooks : Looks m s.world v)
    (hv : Attempts outcomes v₀ (deliveries m s.trace) v) {w : World} {p : Promise Response}
    (h : start S (.deliver m) s.world = some (w, p)) :
    Served S m outcomes v₀ ((system S).spawned s (.deliver m) w p) := by
  obtain ⟨hw, htaken, rfl⟩ := start_deliver hlooks h
  have hleads : Leads m outcomes
      ((deliver S.env m s.world.nextToken v.message.bullJob).bind fun _ => .ret Response.done)
      (v.taken s.world.nextToken) fun v' _ => ∃ token, Delivered outcomes (v.taken token) v' := by
    refine wpView_bind (wpView_mono ?_ (leads_deliver S.env rfl ?_))
    · intro v' r hd
      cases r with
      | ok _ => exact ⟨_, hd⟩
      | error _ => exact ⟨_, hd⟩
    · exact (hv.waiting hw).2.trans henabled
  refine of_thread hv₀ hv hw ?_ live_spawned_self (drain_settled _ _ _) ?_
    (wpView_drain hleads htaken)
  · simp [spawned, deliveries_append, isDelivery]
  · intro j c k hj
    rcases live_spawned hj with hj | ⟨hj, _, _⟩
    · exact absurd hj (idle_iff.mp hidle j c k)
    · exact hj

theorem step (hv₀ : v₀.message.state = .waiting) (henabled : v₀.enabled = true)
    {e : SystemEvent} (h : Served S m outcomes v₀ s) (hok : Calm S m outcomes s e)
    (hs : (system S).Step s e s') : Served S m outcomes v₀ s' := by
  cases hok with
  | begin =>
    cases hs with
    | begin hstart =>
      cases h with
      | idle hidle hlooks hv => exact begin hv₀ henabled hidle hlooks hv hstart
      | serving hv hw hcount hi halone hserves =>
        obtain ⟨v', hlooks, hrests⟩ := hserves.at_rest
        exact absurd (start_deliver hlooks hstart).1 hrests
  | @answer i x hi hx =>
    cases hs with
    | @resume i tag c k o hlive =>
      cases (delivers_iff hlive).mp hi
      cases h with
      | idle hidle _ _ => exact absurd hlive (idle_iff.mp hidle i c k)
      | serving hv hw hcount hi' halone hserves =>
        cases halone i c k hlive
        cases (Live.unique hlive hi').2
        have hanswer := hx c ⟨_, _, hlive⟩
        refine of_thread hv₀ hv hw ?_ (live_resumed_self hlive) (drain_settled _ _ _) ?_
          (hserves.answered hanswer)
        · simpa [resumed, deliveries_append, isDelivery] using hcount
        · intro j c' k' hj
          rcases live_resumed hj with ⟨_, hj⟩ | ⟨hj, _, _⟩
          · exact halone j c' k' hj
          · exact hj
  | other he hkeep =>
    obtain ⟨hlive, hcount'⟩ := others_step he hs
    have hlooks' := hkeep s' hs
    cases h with
    | idle hidle hlooks hv =>
      refine .idle (idle_iff.mpr fun i c k hi => ?_) (hlooks' _ hlooks) (hcount'.symm ▸ hv)
      exact idle_iff.mp hidle i c k ((hlive i _).mp hi)
    | serving hv hw hcount hi halone hserves =>
      refine .serving hv hw (hcount'.trans hcount) ((hlive _ _).mpr hi) ?_
        (hserves.unnoticed hlooks')
      intro j c' k' hj
      exact halone j c' k' ((hlive j _).mp hj)

theorem run (hv₀ : v₀.message.state = .waiting) (henabled : v₀.enabled = true)
    (h : Served S m outcomes v₀ s) (hrun : (system S).Run (Calm S m outcomes) s s') :
    Served S m outcomes v₀ s' :=
  hrun.keeps h fun _ _ _ _ ih hok hs => ih.step hv₀ henabled hok hs

theorem comes_to_rest (h : Served S m outcomes v₀ s) :
    ∃ s', (system S).Run (Calm S m outcomes) s s' ∧ Idle m s' := by
  cases h with
  | idle hidle _ _ => exact ⟨s, .refl, hidle⟩
  | @serving v a i c k _ _ _ hi halone hserves =>
    obtain ⟨s', p', r, v', hrun, hthreads, hended, _, _⟩ :=
      hserves.completes (answersWith_total outcomes) (p := .await c k) trivial hi
    refine ⟨s', hrun.mono fun s e hanswer => ?_, idle_iff.mpr fun j c' k' hj => ?_⟩
    · match e, hanswer with
      | .resume i' (.answered x), ⟨hii, ⟨p, hp⟩, hx⟩ =>
        subst hii
        exact .answer ((delivers_iff hp).mpr rfl) hx
    · rw [State.Live, hthreads, List.getElem?_set] at hj
      split at hj
      · split at hj
        · cases hj
          cases hended
        · cases hj
      · rename_i hij
        exact hij (halone j c' k' hj).symm

/-- And the deliveries come to an end: each uses up one attempt. -/
theorem concludes (hv₀ : v₀.message.state = .waiting) (henabled : v₀.enabled = true)
    (h : Served S m outcomes v₀ s) :
    ∃ s', (system S).Run (Calm S m outcomes) s s' ∧ Concluded m s' := by
  induction hleft : v₀.message.attempts - deliveries m s.trace using Nat.strongRecOn
    generalizing s with
  | ind left ih =>
    obtain ⟨s₁, hrun₁, hidle₁⟩ := h.comes_to_rest
    have hserved₁ := h.run hv₀ henabled hrun₁
    have hle₁ := deliveries_run (m := m) hrun₁
    cases hserved₁ with
    | serving _ _ _ hi _ _ => exact absurd hi (idle_iff.mp hidle₁ _ _ _)
    | @idle v _ hlooks hv =>
      by_cases hw : v.message.state = .waiting
      · obtain ⟨w, p, hstart⟩ := start_waiting (S := S) hlooks hw
        have hstep : (system S).Step s₁ (.begin (.deliver m))
            ((system S).spawned s₁ (.deliver m) w p) := .begin hstart
        have hserved₂ := begin hv₀ henabled hidle₁ hlooks hv hstart
        have hcount : deliveries m ((system S).spawned s₁ (.deliver m) w p).trace =
            deliveries m s₁.trace + 1 := by
          simp [spawned, deliveries_append, isDelivery]
        have hmore := (hv.waiting hw).1
        obtain ⟨s', hrun', hs'⟩ := ih _ (by omega) hserved₂ rfl
        exact ⟨s', hrun₁.trans (hrun'.head .begin hstep), hs'⟩
      · refine ⟨s₁, hrun₁, hidle₁, fun x hx => ?_⟩
        cases hlooks.message.symm.trans hx
        exact hw

theorem concluded (h : Served S m outcomes v₀ s) (hs : Concluded m s) :
    ∃ v, Looks m s.world v ∧ v.message.state ≠ .waiting ∧
      Attempts outcomes v₀ (deliveries m s.trace) v := by
  cases h with
  | serving _ _ _ hi _ _ => exact absurd hi (idle_iff.mp hs.1 _ _ _)
  | @idle v _ hlooks hv => exact ⟨v, hlooks, hs.2 _ hlooks.message, hv⟩

end Served

theorem concluded_run (h : Looks m s.world v) (hw : v.message.state ≠ .waiting)
    (hs : Concluded m s) (hrun : (system S).Run (Calm S m outcomes) s s') :
    Concluded m s' ∧ Looks m s'.world v ∧ deliveries m s'.trace = deliveries m s.trace := by
  refine hrun.keeps (I := fun s' => Concluded m s' ∧ Looks m s'.world v ∧
    deliveries m s'.trace = deliveries m s.trace) ⟨hs, h, rfl⟩ ?_
  intro s₁ e s₂ _ hI hok hstep
  obtain ⟨⟨hidle, _⟩, hlooks, hcount⟩ := hI
  cases hok with
  | begin =>
    cases hstep with
    | begin hstart => exact absurd (start_deliver hlooks hstart).1 hw
  | @answer i x hi hx =>
    cases hstep with
    | resume hlive =>
      cases (delivers_iff hlive).mp hi
      exact absurd hlive (idle_iff.mp hidle _ _ _)
  | other he hkeep =>
    obtain ⟨hlive, hcount'⟩ := others_step he hstep
    have hlooks' := hkeep _ hstep v hlooks
    refine ⟨⟨idle_iff.mpr fun i c k hi => ?_, fun x hx => ?_⟩, hlooks', hcount'.trans hcount⟩
    · exact idle_iff.mp hidle i c k ((hlive i _).mp hi)
    · cases hlooks'.message.symm.trans hx
      exact hw

/-- How the message of a job with `n` retries has ended. -/
structure MessageEnd (S : Setup) (m : Nat) (outcomes : Nat → HttpOutcome) (v₀ : View) (n : Nat)
    (s : SystemState) : Prop where
  /-- attempts `1..k` were made, the `k`-th succeeded -/
  success : ∀ k, FirstOk outcomes k → k ≤ n + 1 →
    Looks m s.world (v₀.succeededAt k) ∧ deliveries m s.trace = k
  /-- attempts `1..n + 1` were made, all failed -/
  exhausted : AllFail outcomes (n + 1) → ∃ enabled lastError,
    Looks m s.world (v₀.deadAfter (n + 1) enabled lastError) ∧ deliveries m s.trace = n + 1
  /-- no delivery follows -/
  last : ∀ s', (system S).Run (Calm S m outcomes) s s' →
    deliveries m s'.trace = deliveries m s.trace ∧ start S (.deliver m) s'.world = none

/-- Every run can be continued until the message is concluded, and then it has ended as the
outcomes of its callbacks say. -/
theorem retry_protocol {job : Job} {w₀ : World} (hlooks : Looks m w₀ v₀)
    (hwaiting : v₀.message.state = .waiting) (hmade : v₀.message.attemptsMade = 0)
    (hattempts : v₀.message.attempts = (executionJobOptions job).attempts)
    (henabled : v₀.enabled = true)
    (hrun : (system S).Run (Calm S m outcomes) (.fresh w₀) s) :
    (Concluded m s → MessageEnd S m outcomes v₀ job.maxRetries s) ∧
      ∃ s', (system S).Run (Calm S m outcomes) s s' ∧ Concluded m s' := by
  have hserved₀ : Served S m outcomes v₀ (.fresh w₀) := by
    refine .idle (fun t ht => ?_) hlooks (.none hmade ?_)
    · cases ht
    · rw [hattempts]
      exact Nat.succ_pos _
  have hserved := hserved₀.run hwaiting henabled hrun
  refine ⟨fun hs => ?_, hserved.concludes hwaiting henabled⟩
  obtain ⟨v, hv, hnot, hattempts'⟩ := hserved.concluded hs
  have hlast : v₀.message.attempts = job.maxRetries + 1 := hattempts
  generalize hcount : deliveries m s.trace = a at hattempts'
  refine ⟨fun k hk hle => ?_, fun hfail => ?_, fun s' hrun' => ?_⟩
  · cases hattempts' with
    | retrying _ _ _ _ => exact absurd hwaiting hnot
    | succeeded hk' _ =>
      cases hk.unique hk'
      exact ⟨hv, hcount⟩
    | dead hfail _ _ => exact absurd hfail (hk.not_allFail (hlast ▸ hle))
  · rw [← hlast] at hfail ⊢
    cases hattempts' with
    | retrying _ _ _ _ => exact absurd hwaiting hnot
    | succeeded hk hle => exact absurd hfail (hk.not_allFail hle)
    | dead _ enabled lastError => exact ⟨enabled, lastError, hv, hcount⟩
  · obtain ⟨_, hv', hcount'⟩ := concluded_run hv hnot hs hrun'
    refine ⟨hcount', Option.eq_none_iff_forall_ne_some.mpr fun x hx => ?_⟩
    exact hnot (start_deliver hv' hx).1

def enqueuedWorld : World :=
  let created := (World.exec (.executionCreate ⟨"job-1", some 60000, .schedule⟩) {} Sample.world).1
  (World.exec (.queueAdd ⟨0, "job-1", .time 60000⟩ (executionJobOptions Sample.job)) {} created).1

def enqueuedView : View where
  message := ⟨⟨0, "job-1", .time 60000⟩, 4, 1000, 0, 0, .waiting⟩
  enabled := true
  deadCount := 0
  status := .PENDING
  attemptNumber := 1
  calls := []
  deadLetters := []

/-- A refusal, a timeout, a success. -/
def sampleOutcomes : Nat → HttpOutcome
  | 1 => .response 500
  | 2 => .aborted
  | _ => .response 200

def deliveryRun (i calls : Nat) : List SystemEvent :=
  .begin (.deliver 0) ::
    List.replicate calls (.resume i (.answered { exchange := ⟨[], sampleOutcomes (i + 1)⟩ }))

instance (outcomes : Nat → HttpOutcome) (c : Call) (x : Choice) :
    Decidable (answersWith outcomes c x) := by
  induction c using Call.casesOn <;> unfold answersWith <;> infer_instance

def deliversOnly (m : Nat) (outcomes : Nat → HttpOutcome) (s : SystemState) :
    SystemEvent → Prop
  | .begin t => t = .deliver m
  | .resume i (.answered x) => Delivers m s i ∧
      match s.awaiting i with
      | some c => answersWith outcomes c x
      | none => True
  | _ => False

instance (s : SystemState) (e : SystemEvent) : Decidable (deliversOnly m outcomes s e) := by
  induction e using Async.Event.casesOn with
  | begin t =>
    unfold deliversOnly
    infer_instance
  | resume i o =>
    induction o using Async.Outcome.casesOn with
    | answered x =>
      dsimp only [deliversOnly]
      generalize s.awaiting i = c
      induction c using Option.casesOn <;> dsimp only <;> infer_instance
    | _ => exact instDecidableFalse
  | _ => exact instDecidableFalse

theorem calm_of_deliversOnly (s : SystemState) (e : SystemEvent)
    (h : deliversOnly m outcomes s e) : Calm S m outcomes s e := by
  match e, h with
  | .begin _, rfl => exact .begin
  | .resume i (.answered x), ⟨hi, hx⟩ =>
    refine .answer hi fun c hc => ?_
    rw [hc.awaiting] at hx
    exact hx

theorem retry_protocol_third : ∃ s,
    (system Sample.setup).run (.fresh enqueuedWorld)
      (deliveryRun 0 9 ++ deliveryRun 1 9 ++ deliveryRun 2 10) = some s ∧
    Looks 0 s.world (enqueuedView.succeededAt 3) ∧ deliveries 0 s.trace = 3 := by
  have hrun : ((system Sample.setup).runChecked (deliversOnly 0 sampleOutcomes)
      (.fresh enqueuedWorld) (deliveryRun 0 9 ++ deliveryRun 1 9 ++ deliveryRun 2 10)).map
      (fun s => decide (Concluded 0 s)) = some true := by decide +kernel
  obtain ⟨s, hs, hconcluded⟩ := Option.map_eq_some_iff.mp hrun
  have hlooks : Looks 0 enqueuedWorld enqueuedView :=
    ⟨rfl, ⟨Sample.job, rfl, rfl, rfl⟩, fun _ h => (by cases h), ⟨_, rfl, rfl, rfl⟩, rfl,
      rfl⟩
  have hcalm := (Run.of_runChecked hs).mono (calm_of_deliversOnly (S := Sample.setup))
  have hattempts : enqueuedView.message.attempts = (executionJobOptions Sample.job).attempts := rfl
  have hended := (retry_protocol hlooks rfl rfl hattempts rfl hcalm).1
    (of_decide_eq_true hconcluded)
  have hthird : FirstOk sampleOutcomes 3 := by
    refine ⟨by decide, rfl, fun j hj hlt => ?_⟩
    obtain rfl | rfl : j = 1 ∨ j = 2 := by omega
    · rfl
    · rfl
  exact ⟨s, run_of_runChecked hs, hended.success 3 hthird (by decide)⟩

end Runs

end CronHive
