import CronHive.System

/-!
# The finished messages

Of the messages that have completed Redis keeps the newest 1000, of those that have failed the
newest 5000. In every run it keeps as many of them as these limits allow, and it removes no
message that is still to be delivered.
-/

namespace CronHive

set_option autoImplicit false

open Async Async.Machine

def Message.Settled (msg : Message) : Prop := msg.state = .completed ∨ msg.state = .failed

/-- A message that is settled stays as it is. -/
def Bull.KeepsSettled (f : Message → Message) : Prop := ∀ x : Message, x.Settled → f x = x

namespace Bull

theorem modify_eq_set {q : Bull} {m : Nat} {x : Message} (hx : q[m]? = some x)
    (f : Message → Message) : q.modify m f = q.set m (f x) := by
  obtain ⟨hm, rfl⟩ := List.getElem?_eq_some_iff.mp hx
  rw [modify, List.modify_eq_set_getElem?, hx]
  rfl

end Bull

/-- `kept` are messages in the state, as many of them as the limit allows. -/
structure Newest (limit : Nat) (state : MessageState) (q : Bull) (kept : List Nat) : Prop where
  reached : ∀ m ∈ kept, ∃ x, q[m]? = some x ∧ x.state = state
  nodup : kept.Nodup
  count : kept.length = min (q.countP fun x => x.state = state) limit

namespace Newest

variable {limit : Nat} {state : MessageState} {q : Bull} {kept : List Nat} {m : Nat}
variable {f : Message → Message} {x : Message}

theorem add (h : Newest limit state q kept) (hstate : state ≠ .waiting) (data : ExecutionJobData)
    (opts : JobsOptions) : Newest limit state (q.add data opts) kept where
  reached k hk := by
    obtain ⟨y, hy, hreached⟩ := h.reached k hk
    refine ⟨y, ?_, hreached⟩
    rw [Bull.add, List.getElem?_append_left (List.getElem?_eq_some_iff.mp hy).1, hy]
  nodup := h.nodup
  count := by
    rw [h.count, Bull.add, List.countP_append, List.countP_singleton]
    simp [Ne.symm hstate]

/-- Message `m` neither enters the state nor leaves it. -/
theorem frame (h : Newest limit state q kept) (hx : q[m]? = some x)
    (hf : (f x).state = state ↔ x.state = state) :
    Newest limit state (q.modify m f) kept where
  reached k hk := by
    obtain ⟨y, hy, hreached⟩ := h.reached k hk
    rw [Bull.modify, List.getElem?_modify, hy]
    by_cases hmk : m = k
    · subst hmk
      cases hx.symm.trans hy
      exact ⟨f x, by simp, hf.mpr hreached⟩
    · exact ⟨y, by simp [hmk], hreached⟩
  nodup := h.nodup
  count := by
    obtain ⟨hm, hget⟩ := List.getElem?_eq_some_iff.mp hx
    have hpos : x.state = state → 0 < q.countP fun y => y.state = state := fun hstate =>
      List.countP_pos_iff.mpr ⟨x, List.mem_of_getElem? hx, by simpa using hstate⟩
    rw [h.count, Bull.modify_eq_set hx, List.countP_set hm, hget]
    by_cases hstate : x.state = state
    · have := hpos hstate
      simp only [hf, hstate, decide_true, if_true]
      omega
    · simp [hf, hstate]

/-- Message `m` comes to the state: it is kept, and the oldest may have to go. -/
theorem push (h : Newest limit state q kept) (hx : q[m]? = some x) (hold : x.state ≠ state)
    (hnew : (f x).state = state) :
    Newest limit state (q.modify m f) ((m :: kept).take limit) where
  reached k hk := by
    rw [Bull.modify, List.getElem?_modify]
    rcases List.mem_cons.mp (List.mem_of_mem_take hk) with rfl | hk
    · exact ⟨f x, by simp [hx], hnew⟩
    · obtain ⟨y, hy, hreached⟩ := h.reached k hk
      have hmk : m ≠ k := by
        intro hmk
        subst hmk
        cases hx.symm.trans hy
        exact hold hreached
      exact ⟨y, by simp [hmk, hy], hreached⟩
  nodup := by
    have hm : m ∉ kept := by
      intro hm
      obtain ⟨y, hy, hreached⟩ := h.reached m hm
      cases hx.symm.trans hy
      exact hold hreached
    exact (List.nodup_cons.mpr ⟨hm, h.nodup⟩).sublist (List.take_sublist ..)
  count := by
    obtain ⟨hm, hget⟩ := List.getElem?_eq_some_iff.mp hx
    rw [Bull.modify_eq_set hx, List.countP_set hm, hget, List.length_take, List.length_cons,
      h.count]
    simp only [hnew, hold, decide_true, decide_false, if_true, Bool.false_eq_true, if_false]
    omega

end Newest

namespace FinishedJobs

/-- What Redis keeps of the messages `q` that have been added. -/
structure Tidy (finished : FinishedJobs) (q : Bull) : Prop where
  completed : Newest removeOnComplete .completed q finished.completed
  failed : Newest removeOnFail .failed q finished.failed

variable {finished : FinishedJobs} {q : Bull} {m : Nat} {f : Message → Message}

theorem Tidy.after (h : finished.Tidy q) (hf : Bull.KeepsSettled f) :
    (finished.after q m f).Tidy (q.modify m f) := by
  unfold FinishedJobs.after
  cases hx : q[m]? with
  | none =>
    have hlen : q.length ≤ m := List.getElem?_eq_none_iff.mp hx
    rw [Bull.modify, List.modify_eq_self hlen]
    exact h
  | some x =>
    have hkeep (state : MessageState) (hstate : state = .completed ∨ state = .failed)
        (hold : x.state = state) : (f x).state = state := by
      rw [hf x (by rcases hstate with rfl | rfl; exacts [Or.inl hold, Or.inr hold]), hold]
    by_cases hsame : (f x).state = x.state
    · simp only [if_pos hsame]
      exact ⟨h.completed.frame hx (by rw [hsame]), h.failed.frame hx (by rw [hsame])⟩
    · simp only [if_neg hsame]
      have hc : x.state ≠ .completed := fun hold =>
        hsame ((hkeep _ (Or.inl rfl) hold).trans hold.symm)
      have hd : x.state ≠ .failed := fun hold =>
        hsame ((hkeep _ (Or.inr rfl) hold).trans hold.symm)
      cases hnew : (f x).state with
      | completed => exact ⟨h.completed.push hx hc hnew, h.failed.frame hx (by simp [hnew, hd])⟩
      | failed => exact ⟨h.completed.frame hx (by simp [hnew, hc]), h.failed.push hx hd hnew⟩
      | waiting =>
        exact ⟨h.completed.frame hx (by simp [hnew, hc]), h.failed.frame hx (by simp [hnew, hd])⟩
      | active token =>
        exact ⟨h.completed.frame hx (by simp [hnew, hc]), h.failed.frame hx (by simp [hnew, hd])⟩

end FinishedJobs

end CronHive
