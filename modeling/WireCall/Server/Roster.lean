import WireCall.Server.Acceptor

namespace WireCall

/-!
# The runs of a server

A server can be run more than once, one run after the other or several at a time.  All runs look at
one stop flag.  Every stop raises the flag and gives a notice, even if the flag is up already; a run
remembers how many notices it has seen.  A run that starts has seen all notices there were, so it
learns of an earlier stop from the flag alone.

`Roster.step` is one move of the server or one step of one of its runs; when several of them are
possible any of them may happen.  What a run does in a step is what an `Acceptor` does, for which a
notice is there if there are more notices than the run has seen.
-/

/-- A run of a server: where it is, how many notices it has seen, and how many connections it has
handed over. -/
structure Shift where
  phase : Acceptor.Phase
  seen : Nat
  served : Nat
deriving DecidableEq, Repr

namespace Shift

/-- A run that starts after so many notices. -/
def start (notices : Nat) : Shift := ⟨.checking, notices, 0⟩

/-- The run after a step of its own, under this stop flag and after so many notices; nothing if the
step cannot happen. -/
def step (stopped : Bool) (notices : Nat) (s : Shift) : Acceptor.Event → Option Shift
  -- A stop comes from outside.
  | .stop => none
  | .check =>
    if s.phase = .checking then
      some { s with phase := if stopped then .finished else .waiting, seen := notices }
    else none
  | .wake =>
    if (s.phase = .waiting ∨ s.phase = .pausing) ∧ s.seen ≠ notices then
      some { s with phase := .checking, seen := notices }
    else none
  | .accept =>
    if s.phase = .waiting then some { s with phase := .checking, served := s.served + 1 }
    else none
  | .fail => if s.phase = .waiting then some { s with phase := .pausing } else none
  | .resume => if s.phase = .pausing then some { s with phase := .checking } else none

end Shift

/-- The stop flag of a server, how many notices were given, and its runs in the order in which they
started. -/
structure Roster where
  stopped : Bool
  notices : Nat
  shifts : List Shift
deriving DecidableEq, Repr

namespace Roster

/-- What may happen: a stop, the start of a run, or a step of the run with this number. -/
inductive Move where
  | stop
  | start
  | act (shift : Nat) (event : Acceptor.Event)
deriving DecidableEq, Repr

/-- A server that was neither run nor stopped yet. -/
def idle : Roster := ⟨false, 0, []⟩

/-- The server after a stop. -/
def stop (r : Roster) : Roster := { r with stopped := true, notices := r.notices + 1 }

/-- The server after the start of one more run. -/
def start (r : Roster) : Roster := { r with shifts := r.shifts ++ [.start r.notices] }

/-- The server after a step of one of its runs; nothing if the step cannot happen. -/
def act (r : Roster) (i : Nat) (e : Acceptor.Event) : Option Roster := do
  let s ← r.shifts[i]?
  let s ← s.step r.stopped r.notices e
  return { r with shifts := r.shifts.set i s }

/-- The server after a move; nothing if the move cannot happen. -/
def step (r : Roster) : Move → Option Roster
  | .stop => some r.stop
  | .start => some r.start
  | .act i e => r.act i e

/-- The server after several moves. -/
def run (r : Roster) : List Move → Option Roster
  | [] => some r
  | m :: ms => (r.step m).bind fun r => run r ms

end Roster
end WireCall
