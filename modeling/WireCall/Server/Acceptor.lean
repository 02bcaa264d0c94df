namespace WireCall

/-!
# The accept loop

A run of a server looks at the stop flag, waits for a connection or for a notice that the flag was
set, hands a connection over, and starts again; after a failed accept it pauses, unless there is a
notice.  `Acceptor.step` is one step of such a run or of its surroundings; when several steps are
possible any of them may happen.

Main statements: a run ends only after a stop (`Acceptor.stopped_of_finished`), and a run that
starts after a stop serves nobody (`Acceptor.served_of_stopped_start`).
-/

namespace Acceptor

/-- Where a run is. -/
inductive Phase where
  | checking
  | waiting
  | pausing
  | finished
deriving DecidableEq, Repr

/-- A run: where it is, the stop flag, whether there is a notice that it has not seen, and how many
connections it has handed over. -/
structure State where
  phase : Phase
  stopped : Bool
  notice : Bool
  served : Nat
deriving DecidableEq, Repr

/-- What may happen. -/
inductive Event where
  | stop
  | check
  | wake
  | accept
  | fail
  | resume
deriving DecidableEq, Repr

/-- A run that starts under this stop flag; it has seen all earlier notices. -/
def start (stopped : Bool) : State := ⟨.checking, stopped, false, 0⟩

/-- The state after an event; nothing if the event cannot happen. -/
def step (s : State) : Event → Option State
  | .stop => some { s with stopped := true, notice := true }
  -- Looking at the flag also takes note of the latest notice.
  | .check =>
    if s.phase = .checking then
      some { s with phase := if s.stopped then .finished else .waiting, notice := false }
    else none
  | .wake =>
    if (s.phase = .waiting ∨ s.phase = .pausing) ∧ s.notice then
      some { s with phase := .checking, notice := false }
    else none
  | .accept =>
    if s.phase = .waiting then some { s with phase := .checking, served := s.served + 1 }
    else none
  | .fail => if s.phase = .waiting then some { s with phase := .pausing } else none
  | .resume => if s.phase = .pausing then some { s with phase := .checking } else none

/-- The state after several events. -/
def run (s : State) : List Event → Option State
  | [] => some s
  | e :: es => (step s e).bind fun s => run s es

/-- A run that has ended has seen the stop flag. -/
def Sound (s : State) : Prop := s.phase = .finished → s.stopped = true

/-- Every step keeps the tie between the phase of the loop and the stop order. -/
theorem sound_step {s s' : State} {e : Event} (h : step s e = some s') : Sound s' := by
  cases e <;> simp only [step] at h
  · cases h
    exact fun _ => rfl
  all_goals
    split at h
    · cases h
      unfold Sound
      grind
    · cases h

/-- The tie between the phase and the stop order holds after any run. -/
theorem sound_run {s s' : State} {es : List Event} (sound : Sound s) (h : run s es = some s') :
    Sound s' := by
  induction es generalizing s with
  | nil =>
    cases h
    exact sound
  | cons e es ih =>
    obtain ⟨next, stepped, rest⟩ := Option.bind_eq_some_iff.1 h
    exact ih (sound_step stepped) rest

/-- A loop that has finished was told to stop. -/
theorem stopped_of_finished {stopped : Bool} {s : State} {es : List Event}
    (h : run (start stopped) es = some s) (finished : s.phase = .finished) : s.stopped = true :=
  sound_run (fun impossible => by cases impossible) h finished

/-- A run that is to end before it serves anybody. -/
def Idle (s : State) : Prop :=
  s.stopped = true ∧ s.served = 0 ∧ (s.phase = .checking ∨ s.phase = .finished)

/-- A loop that serves nobody and knows of its order goes on serving nobody. -/
theorem idle_step {s s' : State} {e : Event} (idle : Idle s) (h : step s e = some s') :
    Idle s' := by
  cases e <;> simp only [step] at h
  · cases h
    exact ⟨rfl, idle.2⟩
  all_goals
    split at h
    · cases h
      unfold Idle at idle ⊢
      grind
    · cases h

/-- A loop started after the stop order serves no connection. -/
theorem served_of_stopped_start {s : State} {es : List Event}
    (h : run (start true) es = some s) : s.served = 0 := by
  have idle : Idle (start true) := ⟨rfl, rfl, .inl rfl⟩
  suffices Idle s from this.2.1
  generalize start true = first at h idle
  induction es generalizing first with
  | nil =>
    cases h
    exact idle
  | cons e es ih =>
    obtain ⟨next, stepped, rest⟩ := Option.bind_eq_some_iff.1 h
    exact ih next rest (idle_step idle stepped)

end Acceptor
end WireCall
