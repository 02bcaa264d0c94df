import WireCall.Traffic

namespace WireCall

/-!
# Connections at a limiter

Many connections ask for the tokens of one limiter.  Of the limiter is known only that one can ask
it for a token and that time passes at it (`Limiter`); the gate is such a limiter
(`Gate.limiter`).  A connection (`Guest`) that gets a token is let in, and its request is answered
once it has arrived.  One that gets none waits as long as the settings say, and is refused when the
time is over.  In a run the steps of all connections follow one another in any order, and time
passes between them (`Lobby.run`).

Main statement: a step of a connection leaves every other connection alone
(`Lobby.guests_step_of_ne`).
-/

/-- The tokens a second and the tokens at once of a limiter. -/
structure Quota where
  rate : UInt32
  burst : UInt32
  rate_pos : 0 < rate.toNat
  burst_pos : 0 < burst.toNat

/-- A limiter with states in `γ`: the one it starts in, what asking for a token gives and makes of
it, and what the passing of nanoseconds makes of it. -/
structure Limiter (γ : Type) where
  fresh : Quota → γ
  check : γ → Bool × γ
  pass : Nat → γ → γ

/-- The quota of a gate. -/
def Gate.quota (g : Gate) : Quota := ⟨g.settings.rate, g.settings.burst, g.rate_pos, g.burst_pos⟩

/-- The gate as a limiter, which keeps the time beside it. -/
def Gate.limiter : Limiter (Gate × Nat) where
  fresh q := (⟨⟨q.rate, q.burst, .zero⟩, none, q.rate_pos, q.burst_pos⟩, 0)
  check s := ((s.1.tryAcquire s.2).1, (s.1.tryAcquire s.2).2, s.2)
  pass nanos s := (s.1, s.2 + nanos)

/-- A connection, seen from the server: what has arrived on it and whether its client has hung up,
where it stands at the limiter, what was written on it, and whether the server has closed it. -/
structure Guest where
  arrived : Inbound := []
  ended : Bool := false
  entrance : Entrance := .outside
  sent : Octets := []
  closed : Bool := false

/-- What all connections share. -/
structure Hall (σ γ : Type) where
  responder : Responder σ
  patience : Duration
  limiter : γ
  clock : Nat
  states : Instances σ

namespace Guest

variable {σ γ : Type}

/-- What can happen to a connection. -/
inductive Act where
  | deliver (bytes : Octets)
  | hangUp
  | ask
  | expire
  | answer
deriving DecidableEq, Repr

/-- Whether it is known what request has arrived, if any. -/
def isReady (g : Guest) (maximum : UInt32) : Bool :=
  Call.isDecided (Frame.read maximum g.arrived) || g.ended

/-- The connection after the server has written the last bytes on it. -/
def closeWith (g : Guest) (bytes : Octets) : Guest :=
  { g with sent := g.sent ++ bytes, closed := true }

/-- The connection after it has been refused. -/
def refuse (g : Guest) (cause : RateFault) : Guest :=
  { g.closeWith (Responder.refuse cause) with entrance := .refused cause }

/-- Asks for a token, on arrival or while waiting for one. -/
def ask (g : Guest) (m : Limiter γ) (hall : Hall σ γ) : Option (Guest × Hall σ γ) :=
  let (granted, limiter) := m.check hall.limiter
  let hall := { hall with limiter }
  match g.entrance, granted with
  | .outside, true | .waiting _, true => some ({ g with entrance := .admitted }, hall)
  | .outside, false =>
    if hall.patience.isZero then some (g.refuse .noToken, hall)
    else some ({ g with entrance := .waiting hall.clock }, hall)
  | .waiting _, false => some (g, hall)
  | _, _ => none

/-- Refuses a connection that has waited as long as it may. -/
def expire (g : Guest) (hall : Hall σ γ) : Option Guest :=
  match g.entrance with
  | .waiting since =>
    if since + hall.patience.nanos ≤ hall.clock then
      some (g.refuse (.noTokenWithin hall.patience.milliseconds))
    else none
  | _ => none

/-- Answers a connection that has been let in. -/
def answer (g : Guest) (hall : Hall σ γ) : Option (Guest × Hall σ γ) :=
  if g.entrance = .admitted ∧ g.closed = false ∧ g.isReady hall.responder.maximum then
    let (bytes, states) := hall.responder.serve g.arrived hall.states
    some (g.closeWith bytes, { hall with states })
  else none

/-- A step of the connection; nothing if it cannot happen now. -/
def step (g : Guest) (m : Limiter γ) (hall : Hall σ γ) : Act → Option (Guest × Hall σ γ)
  | .deliver bytes =>
    if g.ended then none else some ({ g with arrived := g.arrived ++ [bytes] }, hall)
  | .hangUp => if g.ended then none else some ({ g with ended := true }, hall)
  | .ask => g.ask m hall
  | .expire => (g.expire hall).map (·, hall)
  | .answer => g.answer hall

end Guest

/-! ### Runs -/

/-- The connections of a server, and what they share. -/
structure Lobby (σ γ : Type) where
  hall : Hall σ γ
  guests : Nat → Guest

namespace Lobby

variable {σ γ : Type}

/-- A lobby with these settings, before anything has happened. -/
def ofSettings (m : Limiter γ) (settings : AdmissionSettings) (responder : Responder σ)
    (states : Instances σ) : Except RegistrationFault (Lobby σ γ) :=
  (Gate.ofSettings settings).map fun gate =>
    ⟨⟨responder, settings.patience, m.fresh gate.quota, 0, states⟩, fun _ => {}⟩

/-- What can happen: something to one of the connections, or time passes. -/
inductive Event where
  | guest (i : Nat) (act : Guest.Act)
  | pass (nanos : Nat)
deriving DecidableEq, Repr

/-- The lobby with another connection in the place of one. -/
def seat (l : Lobby σ γ) (i : Nat) (g : Guest) : Lobby σ γ :=
  { l with guests := fun j => if j = i then g else l.guests j }

/-- The state after an event; nothing if it cannot happen. -/
def step (l : Lobby σ γ) (m : Limiter γ) : Event → Option (Lobby σ γ)
  | .guest i act =>
    ((l.guests i).step m l.hall act).map fun next => { l with hall := next.2 }.seat i next.1
  | .pass nanos => some { l with hall := { l.hall with
      limiter := m.pass nanos l.hall.limiter
      clock := l.hall.clock + nanos } }

/-- The state after several events. -/
def run (l : Lobby σ γ) (m : Limiter γ) : List Event → Option (Lobby σ γ)
  | [] => some l
  | e :: es => (l.step m e).bind fun l => l.run m es

/-- The guest just seated is found on its seat. -/
@[simp] theorem guests_seat_self (l : Lobby σ γ) (i : Nat) (g : Guest) :
    (l.seat i g).guests i = g := if_pos rfl

/-- Seating a guest leaves every other seat as it was. -/
theorem guests_seat_of_ne (l : Lobby σ γ) {i j : Nat} (g : Guest) (other : j ≠ i) :
    (l.seat i g).guests j = l.guests j := if_neg other

@[simp] theorem hall_seat (l : Lobby σ γ) (i : Nat) (g : Guest) : (l.seat i g).hall = l.hall := rfl

/-- What one guest does leaves every other guest untouched. -/
theorem guests_step_of_ne {m : Limiter γ} {l l' : Lobby σ γ} {i : Nat} {act : Guest.Act}
    (h : l.step m (.guest i act) = some l') {j : Nat} (other : j ≠ i) :
    l'.guests j = l.guests j := by
  obtain ⟨next, -, rfl⟩ := Option.map_eq_some_iff.1 h
  exact guests_seat_of_ne _ _ other

end Lobby
end WireCall
