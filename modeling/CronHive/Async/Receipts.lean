import CronHive.Async.Interleaving

/-!
# What took effect and what was acknowledged

A store that keeps what it is given holds one thing for each call that took effect. Its callers
know of those whose reply they saw; the difference is the calls whose reply was lost.
-/

namespace Async

set_option autoImplicit false

variable {Op Loc : Type} {Res : Op → Type} {Val : Loc → Type} {ε α : Type}
variable {World Tag Choice Env : Type}

namespace Entry

variable (P : Op → Bool)

/-- A call that the store answered with a success, whatever its caller saw. -/
def effected : Entry Res ε Tag Env → Bool
  | .called _ op (some (.ok _)) _ => P op
  | _ => false

/-- What a call that took effect appends to a log. -/
def logged {γ : Type} (item : Op → Option γ) : Entry Res ε Tag Env → Option γ
  | .called _ op (some (.ok _)) _ => item op
  | _ => none

theorem item_of_logged {γ : Type} {item : Op → Option γ} {i : Nat} {op : Op}
    {reply : Option (Except ε (Res op))} {seen : Except ε (Res op)} {a : γ}
    (h : logged item (.called i op reply seen : Entry Res ε Tag Env) = some a) :
    item op = some a := by
  unfold logged at h
  split at h
  · rename_i heq
    cases heq
    exact h
  · cases h

theorem called_of_logged {γ : Type} {item : Op → Option γ} {tr : List (Entry Res ε Tag Env)} {a : γ}
    (h : a ∈ tr.filterMap (logged item)) :
    ∃ i op r seen, Entry.called i op (some (.ok r)) seen ∈ tr ∧ item op = some a := by
  obtain ⟨e, he, ha⟩ := List.mem_filterMap.mp h
  unfold logged at ha
  split at ha
  · rename_i i op r seen
    exact ⟨i, op, r, seen, he, ha⟩
  · cases ha

end Entry

namespace Machine

variable {M : Machine Res Val ε α World Tag Choice Env} {P : Op → Bool} {size : World → Nat}
variable {ok : State Res Val ε α World Tag Env → Event Tag Choice Env ε → Prop}
variable {w₀ : World} {s s' : State Res Val ε α World Tag Env}

/-- The store grows by one with each successful call in `P`, and with nothing else. -/
structure Keeps (M : Machine Res Val ε α World Tag Choice Env) (P : Op → Bool)
    (size : World → Nat) : Prop where
  exec : ∀ op c w, size (M.exec op c w).1 =
    size w + match (M.exec op c w).2 with
      | .ok _ => if P op then 1 else 0
      | .error _ => 0
  eval : ∀ l w, size (M.eval l w).1 = size w
  start : ∀ t w w' p, M.start t w = some (w', p) → size w' = size w
  outside : ∀ x w w', M.outside x w = some w' → size w' = size w

theorem Keeps.attend (h : M.Keeps P size) {op : Op} {o : Outcome Choice ε} {w : World} {i : Nat} :
    size (M.attend op o w).1 = size w +
      if Entry.effected P (.called i op (M.attend op o w).2.1 (M.attend op o w).2.2 :
        Entry Res ε Tag Env) then 1 else 0 := by
  rcases attend_cases (M := M) op o w with ⟨_, hw, hreply⟩ | ⟨c, hw, hreply, _⟩
  · rw [hw, hreply]
    simp [Entry.effected]
  · rw [hw, hreply, h.exec op c w]
    cases (M.exec op c w).2 with
    | ok a => rfl
    | error e => rfl

theorem Keeps.step (h : M.Keeps P size) {e : Event Tag Choice Env ε} (hs : M.Step s e s')
    {x : Entry Res ε Tag Env} (hx : s'.trace = s.trace ++ [x]) :
    size s'.world = size s.world + if x.effected P then 1 else 0 := by
  have hdrain (p : Prog Res Val ε α) (w : World) : size (p.drain M.eval w).1 = size w :=
    Prog.drain_frame M.eval size h.eval p w
  cases hs with
  | @begin t w p hstart =>
    cases List.append_cancel_left hx
    exact (hdrain p w).trans (h.start t s.world w p hstart)
  | @resume i tag op k o hi =>
    cases List.append_cancel_left hx
    exact (hdrain _ _).trans h.attend
  | stop hi =>
    cases List.append_cancel_left hx
    rfl
  | @outside e w he =>
    cases List.append_cancel_left hx
    exact h.outside e s.world w he

section Logs

variable {γ : Type} {item : Op → Option γ} {log : World → List γ}

/-- Each successful call appends its item, and nothing else changes the log. -/
structure Logs (M : Machine Res Val ε α World Tag Choice Env) (item : Op → Option γ)
    (log : World → List γ) : Prop where
  exec : ∀ op c w, log (M.exec op c w).1 = log w ++
    match (M.exec op c w).2 with
      | .ok _ => (item op).toList
      | .error _ => []
  eval : ∀ l w, log (M.eval l w).1 = log w
  start : ∀ t w w' p, M.start t w = some (w', p) → log w' = log w
  outside : ∀ x w w', M.outside x w = some w' → log w' = log w

theorem Logs.attend (h : M.Logs item log) {op : Op} {o : Outcome Choice ε} {w : World} {i : Nat} :
    log (M.attend op o w).1 = log w ++
      (Entry.logged item (.called i op (M.attend op o w).2.1 (M.attend op o w).2.2 :
        Entry Res ε Tag Env)).toList := by
  rcases attend_cases (M := M) op o w with ⟨_, hw, hreply⟩ | ⟨c, hw, hreply, _⟩
  · rw [hw, hreply]
    exact (List.append_nil _).symm
  · rw [hw, hreply, h.exec op c w]
    cases (M.exec op c w).2 with
    | ok a => rfl
    | error e => rfl

theorem Logs.step (h : M.Logs item log) {e : Event Tag Choice Env ε} (hs : M.Step s e s')
    {x : Entry Res ε Tag Env} (hx : s'.trace = s.trace ++ [x]) :
    log s'.world = log s.world ++ (x.logged item).toList := by
  have hdrain (p : Prog Res Val ε α) (w : World) : log (p.drain M.eval w).1 = log w :=
    Prog.drain_frame M.eval log h.eval p w
  have hnothing (l : List γ) : l = l ++ [] := (List.append_nil l).symm
  cases hs with
  | @begin t w p hstart =>
    cases List.append_cancel_left hx
    exact ((hdrain p w).trans (h.start t s.world w p hstart)).trans (hnothing _)
  | @resume i tag op k o hi =>
    cases List.append_cancel_left hx
    exact (hdrain _ _).trans h.attend
  | stop hi =>
    cases List.append_cancel_left hx
    exact hnothing _
  | @outside e w he =>
    cases List.append_cancel_left hx
    exact (h.outside e s.world w he).trans (hnothing _)

/-- In every run the log is what took effect, in that order. -/
theorem Run.log_eq (h : M.Logs item log) (hr : M.Run ok (.fresh w₀) s) :
    log s.world = log w₀ ++ s.trace.filterMap (Entry.logged item) := by
  apply hr.keeps (I := fun s => log s.world = log w₀ ++ s.trace.filterMap (Entry.logged item))
  · exact (List.append_nil _).symm
  · intro s e s' _ ih _ hs
    obtain ⟨x, hx⟩ := hs.traced
    rw [h.step hs hx, ih, hx, List.filterMap_append, List.append_assoc]
    cases hlogged : x.logged item with
    | none => simp [hlogged]
    | some a => simp [hlogged]

end Logs

end Machine

end Async
