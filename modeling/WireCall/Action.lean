import WireCall.Fault

namespace WireCall

/-!
# Actions

An `Action ω α` is something that is done in surroundings `ω`, changes them, and either fails or
has a result.  `Action.within` does an action in a part of the surroundings.

Main statement: of two actions in sequence, the second one starts where the first has succeeded, and
what the first one changed stays if it fails (`Action.perform_bind`).
-/

/-- Something done in surroundings `ω` that may fail. -/
abbrev Action (ω α : Type) := ExceptT Fault (StateM ω) α

namespace Action

variable {σ ω α β : Type}

/-- Does nothing, and has this result or failure. -/
def ofExcept (r : Except Fault α) : Action ω α := fun w => (r, w)

/-- Does the action in the part of the surroundings that `get` and `set` name. -/
def within (get : σ → ω) (set : ω → σ → σ) (a : Action ω α) : Action σ α := fun s =>
  let (r, w) := a (get s)
  (r, set w s)

/-- Does the action, and hands back a failure as a result. -/
def attempt (a : Action ω α) : Action ω (Except Fault α) := fun w =>
  let (r, w) := a w
  (.ok r, w)

/-- The outcome of the action and the surroundings after it. -/
def perform (a : Action ω α) (w : ω) : Except Fault α × ω := a w

/-- The second action starts where the first has succeeded. -/
theorem perform_bind (a : Action ω α) (k : α → Action ω β) (w : ω) :
    (a >>= k).perform w =
      match a.perform w with
      | (.ok x, w) => (k x).perform w
      | (.error fault, w) => (.error fault, w) := by
  show ExceptT.bindCont k (a.perform w).1 (a.perform w).2 = _
  cases a.perform w with
  | mk outcome w =>
    cases outcome <;> rfl

/-- A step that only reshapes the result leaves the world as the first action left it. -/
theorem perform_bind_pure (a : Action ω α) (f : α → β) (w : ω) :
    (a >>= fun x => pure (f x)).perform w = ((a.perform w).1.map f, (a.perform w).2) := by
  rw [perform_bind]
  cases a.perform w with
  | mk outcome w =>
    cases outcome <;> rfl

/-- An attempted action never fails: its failure is the result, and the world is kept. -/
theorem perform_attempt (a : Action ω α) (w : ω) :
    a.attempt.perform w = (.ok (a.perform w).1, (a.perform w).2) := rfl

/-- An action on a part touches that part alone, and the whole takes the part back either way. -/
theorem perform_within (get : σ → ω) (set : ω → σ → σ) (a : Action ω α) (s : σ) :
    (a.within get set).perform s = ((a.perform (get s)).1, set (a.perform (get s)).2 s) := rfl

/-- A plain result performed as an action touches nothing. -/
theorem perform_ofExcept (r : Except Fault α) (w : ω) :
    (Action.ofExcept r : Action ω α).perform w = (r, w) := rfl

end Action
end WireCall
