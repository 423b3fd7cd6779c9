import CronHive.History
import CronHive.RowConsistency
import Mathlib.Algebra.Order.BigOperators.Group.List
import Mathlib.Algebra.Order.Round

/-!
# The statistics of a job

`GET /jobs/:id/stats` counts the executions of a window that have ended and averages what they
took. It asks for `finishedAt` and passes over rows without `durationMs`; in a table that only the
workers write it could do without either.
-/

namespace CronHive

set_option autoImplicit false

open Async

theorem RowsConsistent.of_reachable {S : Setup} {s : SystemState} {jobs : List Job}
    {hjobs : (jobs.map (·.id)).Nodup} {clock : Nat → Int}
    (hr : Reachable S (.initial jobs hjobs clock) s) : RowsConsistent s := by
  refine hr.keeps ?_ fun _ _ _ hr ih _ hs => rowsConsistent_step hr ih hs
  constructor
  · intro x hx
    cases hx
  · intro i id hstate
    cases hstate

/-- Every row has ended, and says how long that took. -/
structure EndedRows (rows : List Execution) : Prop where
  status : ∀ x ∈ rows, x.status.ended = true
  durationMs : ∀ x ∈ rows, x.durationMs.isSome = true

section Window

variable {db : Postgres} {id : JobId} {since : Int} {rows : List Execution}

theorem EndedRows.length_eq (h : EndedRows rows) : rows.length =
    (rows.filter fun x => x.status = .SUCCESS).length +
      (rows.filter fun x => x.status = .FAILED).length +
        (rows.filter fun x => x.status = .DEAD).length := by
  have hstatus := h.status
  clear h
  induction rows with
  | nil => rfl
  | cons x rows ih =>
    have hx := hstatus x List.mem_cons_self
    have hrest := ih fun y hy => hstatus y (List.mem_cons_of_mem _ hy)
    cases hcase : x.status with
    | SUCCESS => simp [hcase]; omega
    | FAILED => simp [hcase]; omega
    | DEAD => simp [hcase]; omega
    | PENDING =>
      rw [hcase] at hx
      cases hx
    | RUNNING =>
      rw [hcase] at hx
      cases hx

end Window

end CronHive
