import CronHive.Iteration
import CronHive.ExactlyOnce

/-!
# When a claimed slot is enqueued

`tick` releases the lock when an iteration fails, so that the slot can be retried, but the
row of a failed `queue.add` stays and makes the retry look like a duplicate. Without such an
orphan every slot that an iteration has finished is enqueued.
-/

namespace CronHive

set_option autoImplicit false

open Async Async.Machine

/-- A slot that a clean iteration with the lock has finished is enqueued, unless another
iteration for it is still under way. -/
def AtLeastOnce (s : SystemState) : Prop :=
  ∀ i j t, Finished s.trace i j t true → ¬ InFlight s j t → Fired s.trace j t

/-- The step leaves no orphan: no scheduled `queue.add` fails before it takes effect or is
cut off, and no scheduled insert takes effect without its caller knowing. -/
def leavesNoOrphan (s : SystemState) : SystemEvent → Prop
  | .resume i (.rejected _) =>
      ∀ id j t opts, ¬ s.Awaits i (.queueAdd ⟨id, j, .time t⟩ opts)
  | .resume i (.lost _ _) =>
      ∀ data t, s.Awaits i (.executionCreate data) → data.scheduledFor = some t →
        s.world.db.hasJob data.jobId → s.world.db.Claimed data.jobId t
  | .stop i => ∀ id j t opts, ¬ s.Awaits i (.queueAdd ⟨id, j, .time t⟩ opts)
  | _ => True

/-- Every scheduled row is enqueued or about to be, by the thread that inserted it. -/
def NoOrphan (s : SystemState) : Prop :=
  ∀ i x t, Inserted s.trace i x → x.scheduledFor = some t →
    Fired s.trace x.jobId t ∨
      (∃ tag p, s.Live i tag p) ∧ phaseAt s.trace i = .claimed x.jobId t x.id

section Steps

variable {S : Setup} {w₀ : World} {s s' : SystemState}

theorem awaits_of_claimed (hr : Reachable S w₀ s) {i : Nat} {j : JobId} {t : Int}
    {id : ExecutionId} (hlive : ∃ tag p, s.Live i tag p)
    (hp : phaseAt s.trace i = .claimed j t id) :
    ∃ opts, s.Awaits i (.queueAdd ⟨id, j, .time t⟩ opts) := by
  obtain ⟨tag, p, hi⟩ := hlive
  obtain ⟨c, hc, hperm⟩ := phase_awaits hr hi (by rw [hp]; nofun)
  rw [hp] at hperm
  obtain ⟨opts, rfl⟩ := hperm
  exact ⟨opts, hc⟩

theorem claimed_of_insert {i : Nat} {tag : Task} {data : ExecutionCreate}
    {k : Except Failure Execution → Promise Response} {o : Outcome Choice Failure}
    {x : Execution} {t : Int} (hi : s.Live i tag (.await (.executionCreate data) k))
    (hok : leavesNoOrphan s (.resume i o))
    (hx : ((system S).attend (.executionCreate data) o s.world).2.1 = some (.ok x))
    (ht : x.scheduledFor = some t) :
    phaseAt ((system S).resumed s i tag (.executionCreate data) k o).trace i =
      .claimed x.jobId t x.id := by
  obtain ⟨hj, hrow, _, hfree⟩ := attend_insert hx
  have hjob : x.jobId = data.jobId := by rw [hrow]; rfl
  have hslot : data.scheduledFor = some t := by
    rw [← ht, hrow]
    rfl
  simp only [resumed, phaseAt_called, ↓reduceIte]
  cases o with
  | answered c =>
    have hseen : ((system S).attend (.executionCreate data) (.answered c) s.world).2.2 =
        .ok x := Option.some.inj hx
    rw [hseen]
    simp only [Phase.next, hslot, hjob]
  | rejected e => cases hx
  | lost c e => exact absurd (hok data t ⟨tag, k, hi⟩ hslot hj) (hfree t hslot)

theorem fired_of_claimed {i : Nat} {tag : Task} {op : Call}
    {k : Except Failure op.Reply → Promise Response} {o : Outcome Choice Failure} {j : JobId}
    {t : Int} {id : ExecutionId} {opts : JobsOptions} (hi : s.Live i tag (.await op k))
    (hawait : s.Awaits i (.queueAdd ⟨id, j, .time t⟩ opts))
    (hok : leavesNoOrphan s (.resume i o)) :
    Fired ((system S).resumed s i tag op k o).trace j t := by
  cases Live.awaits_unique hi hawait
  have hreply : ((system S).attend (.queueAdd ⟨id, j, .time t⟩ opts) o s.world).2.1 =
      some (.ok ()) := by
    rcases attend_cases (M := system S) (.queueAdd ⟨id, j, .time t⟩ opts) o s.world with
      ⟨⟨e, rfl, _⟩, _⟩ | ⟨c, _, hreply, _⟩
    · exact absurd hawait (hok id j t opts)
    · exact hreply
  exact ⟨_, called_resumed hreply, by simp [isFiring]⟩

theorem noOrphan_step (hr : Reachable S w₀ s) (h : NoOrphan s) {e : SystemEvent}
    (hok : leavesNoOrphan s e) (hs : (system S).Step s e s') : NoOrphan s' := by
  intro i x t hx ht
  rcases hx.step hs with hx | ⟨tag, data, k, o, hi, rfl, rfl, hreply⟩
  · rcases h i x t hx ht with ⟨e', he, hf⟩ | ⟨hlive, hp⟩
    · exact Or.inl ⟨e', hs.trace_subset he, hf⟩
    · obtain ⟨opts, hawait⟩ := awaits_of_claimed hr hlive hp
      obtain ⟨tag, p, hi⟩ := hlive
      rcases hs.live phases hi .idle with ⟨hi', hp'⟩ | ⟨op, k, o, rfl, rfl, rfl⟩ | ⟨op, k, _, rfl⟩
      · exact Or.inr ⟨⟨tag, p, hi'⟩, hp'.trans hp⟩
      · exact Or.inl (fired_of_claimed hi hawait hok)
      · exact absurd hawait (hok x.id x.jobId t opts)
  · exact Or.inr ⟨⟨tag, _, live_resumed_self hi⟩, claimed_of_insert hi hok hreply ht⟩

theorem noOrphan_of_run {jobs : List Job} {hjobs : (jobs.map (·.id)).Nodup} {clock : Nat → Int}
    (h : (system S).Run leavesNoOrphan (.fresh (.initial jobs hjobs clock)) s) : NoOrphan s := by
  refine h.keeps (I := NoOrphan) ?_ fun s e s' hr ih hok hs =>
    noOrphan_step (hr.mono fun _ _ _ => trivial) ih hok hs
  rintro i x t ⟨data, seen, hm⟩
  cases hm

end Steps

/-- Where no orphan is left, every slot that was claimed and finished is enqueued. -/
theorem fires_at_least_once {S : Setup} {jobs : List Job} {hjobs : (jobs.map (·.id)).Nodup}
    {clock : Nat → Int} {s : SystemState}
    (h : (system S).Run leavesNoOrphan (.fresh (.initial jobs hjobs clock)) s) :
    AtLeastOnce s := by
  intro i j t hfin hquiet
  have hr : Reachable S (.initial jobs hjobs clock) s := h.mono fun _ _ _ => trivial
  obtain ⟨calls, hcalls, hm⟩ := hfin.mem
  cases hcalls with
  | enqueued token ttl x opts =>
    have hadd := hm _ (List.mem_cons_of_mem _ (List.mem_cons_of_mem _ List.mem_cons_self))
    exact ⟨_, hadd, by simp [isFiring, Entry.answered]⟩
  | deduped token ttl =>
    have hp2002 := hm _ (List.mem_cons_of_mem _ List.mem_cons_self)
    obtain ⟨i', x, hx, rfl, hxt⟩ := inserted_of_p2002 hr hp2002 rfl
    rcases noOrphan_of_run h i' x t hx hxt with hfired | ⟨hlive, hp⟩
    · exact hfired
    · obtain ⟨opts, hawait⟩ := awaits_of_claimed hr hlive hp
      exact absurd ⟨i', _, hawait, rfl, rfl⟩ hquiet

def repeatedTicks : List SystemEvent :=
  [.begin .tick, Sample.answered 0, Sample.answered 0, Sample.answered 0, Sample.answered 0,
    .outside (.expire (.lock "job-1" (.time 60000))),
    .begin .tick, Sample.answered 1, Sample.answered 1, Sample.answered 1, Sample.answered 1]

def dedupedCalls : List TraceEntry :=
  [.answered 1 .jobFindMany (.ok [Sample.job]),
    .answered 1 (.redisSetNx (jobLockKey "job-1" (.time 60000)) (.token 1) 137) (.ok true),
    .answered 1 (.executionCreate ⟨"job-1", some 60000, .schedule⟩) (.error .p2002),
    .answered 1 (.redisRelease (jobLockKey "job-1" (.time 60000)) 1) (.ok ())]

theorem finished_of_dedupedCalls {s : SystemState}
    (h : s.trace.filter (Entry.isCallOf 1) = dedupedCalls) :
    Finished s.trace 1 "job-1" 60000 true := by
  refine ⟨_, .deduped 1 137, ?_⟩
  rw [h]
  exact ⟨[.answered 1 .jobFindMany (.ok [Sample.job])], [], rfl⟩

theorem fires_at_least_once_repeated :
    ∃ s, (system Sample.setup).run (.fresh Sample.world) repeatedTicks = some s ∧
      Finished s.trace 1 "job-1" 60000 true ∧ AtLeastOnce s := by
  have hrun : ((system Sample.setup).run (.fresh Sample.world) repeatedTicks).map
      (·.trace.filter (Entry.isCallOf 1)) = some dedupedCalls := by decide +kernel
  obtain ⟨s, hs, hcalls⟩ := Option.map_eq_some_iff.mp hrun
  refine ⟨s, hs, finished_of_dedupedCalls hcalls, fires_at_least_once (.of_run hs ?_)⟩
  simp [repeatedTicks, leavesNoOrphan, Sample.answered]

/-- A tick whose `queue.add` is rejected, and the tick that retries the slot. -/
def orphaningTicks : List SystemEvent :=
  [.begin .tick, Sample.answered 0, Sample.answered 0, Sample.answered 0,
    .resume 0 (.rejected (.store "Connection is closed.")), Sample.answered 0,
    .begin .tick, Sample.answered 1, Sample.answered 1, Sample.answered 1, Sample.answered 1]

/-- The retry ends without a failure and the slot is never enqueued. -/
theorem orphaned_slot_is_lost :
    ∃ s, Reachable Sample.setup Sample.world s ∧ ¬ AtLeastOnce s := by
  have hrun : ((system Sample.setup).run (.fresh Sample.world) orphaningTicks).map
      (fun s => (s.threads.all fun t => !t.busy, decide (Fired s.trace "job-1" 60000),
        s.trace.filter (Entry.isCallOf 1))) = some (true, false, dedupedCalls) := by
    decide +kernel
  obtain ⟨s, hs, hsum⟩ := Option.map_eq_some_iff.mp hrun
  simp only [Prod.mk.injEq, decide_eq_false_iff_not] at hsum
  obtain ⟨hquiet, hfired, hcalls⟩ := hsum
  refine ⟨s, .of_run hs fun _ _ _ => trivial, fun h => hfired ?_⟩
  refine h 1 "job-1" 60000 (finished_of_dedupedCalls hcalls) ?_
  rintro ⟨i, c, hawait, _⟩
  exact State.Quiet.not_awaits hquiet i c hawait

end CronHive
