import WireCall.Client.Exchange
import WireCall.Server.Exchange

namespace WireCall

/-!
# Concurrent calls

Many calls are under way at one server, each on a connection of its own.  They share the counter of
request ids, the gate and the instances of the services (`Common`); everything else belongs to one
call (`Call`).  `Call.step` is a step of one call, at its client, at the server or on the way, where
bytes travel in pieces of any size.  In a run the steps of all calls follow one another in any
order, and time passes between them (`Traffic.run`).

Main statement: a step of a call leaves every other call alone (`Traffic.calls_step_of_ne`).
-/

/-- What all calls share. -/
structure Common (σ : Type) where
  responder : Responder σ
  gate : Option Gate
  states : Instances σ
  clock : Nat
  nextId : UInt64

/-- Where a connection stands at the gate. -/
inductive Entrance where
  | outside
  | waiting (since : Nat)
  | admitted
  | refused (cause : RateFault)
deriving DecidableEq, Repr

/-- A call on a connection: what is called, the id of the request once it is drawn, the bytes on
their way and those that have arrived on either side, the reply once the server has written it, and
the result once the client has one. -/
structure Call where
  settings : ClientSettings
  service : String
  method : String
  args : List Value
  id : Option UInt64 := none
  toServer : Octets := []
  atServer : Inbound := []
  entrance : Entrance := .outside
  reply : Option Octets := none
  toClient : Octets := []
  atClient : Inbound := []
  result : Option (Except Fault Response) := none

/-- What can happen to a call. -/
inductive Act where
  | send
  | enter
  | turnAway
  | carry (count : Nat)
  | answer
  | bring (count : Nat)
  | settle
  | abandon
deriving DecidableEq, Repr

namespace Call

variable {σ : Type}

/-- Whether it is known what a reader makes of the bytes that have arrived, although more may
follow. -/
def isDecided : Except Fault (Frame × Inbound) → Bool
  | .error (.transport _) => false
  | _ => true

/-- The call after the server has written its reply. -/
def replyWith (c : Call) (bytes : Octets) : Call :=
  { c with reply := some bytes, toClient := bytes }

/-- The call after the gate has refused it. -/
def refuse (c : Call) (cause : RateFault) : Call :=
  { c.replyWith (Responder.refuse cause) with entrance := .refused cause }

/-- The call after the gate has let it in. -/
def letIn (c : Call) : Call := { c with entrance := .admitted }

/-- What has arrived at the client.  The server closes the connection after its reply. -/
def arrival (c : Call) : Arrival := ⟨c.atClient, c.reply.isSome && c.toClient.isEmpty⟩

/-! ### Steps at the client -/

/-- Draws the id of the request and writes its frame. -/
def send (c : Call) (common : Common σ) : Option (Call × Common σ) :=
  if c.id.isSome then none
  else
    let id := common.nextId
    let common := { common with nextId := id + 1 }
    match Client.requestFrame c.settings ⟨id, c.service, c.method, c.args⟩ with
    | .ok frame => some ({ c with id := some id, toServer := frame.encode }, common)
    | .error fault => some ({ c with id := some id, result := some (.error fault) }, common)

/-- Takes the response out of what has arrived. -/
def settle (c : Call) : Option Call :=
  match c.id, c.result with
  | some id, none =>
    if isDecided (Frame.read c.settings.maximum c.atClient) || c.arrival.ended then
      some { c with result := some (Client.receive c.settings.maximum id c.arrival) }
    else none
  | _, _ => none

/-- Gives up, because the deadline of the call has passed. -/
def abandon (c : Call) : Option Call :=
  match c.id, c.result with
  | some _, none => some { c with result := some (.error .cancelled) }
  | _, _ => none

/-! ### Steps at the server -/

/-- Asks the gate for a token, on arrival or while waiting for one. -/
def enter (c : Call) (common : Common σ) : Option (Call × Common σ) :=
  match c.entrance, common.gate with
  | .outside, none => some (c.letIn, common)
  | .outside, some gate =>
    match gate.tryAcquire common.clock with
    | (true, gate) => some (c.letIn, { common with gate := some gate })
    | (false, _) =>
      if gate.settings.patience.isZero then some (c.refuse .noToken, common)
      else some ({ c with entrance := .waiting common.clock }, common)
  | .waiting since, some gate =>
    match gate.tryAcquire common.clock with
    | (true, gate) =>
      if common.clock ≤ since + gate.settings.patience.nanos then
        some (c.letIn, { common with gate := some gate })
      else none
    | (false, _) => none
  | _, _ => none

/-- Refuses a connection that has waited as long as it may. -/
def turnAway (c : Call) (common : Common σ) : Option Call :=
  match c.entrance, common.gate with
  | .waiting since, some gate =>
    let patience := gate.settings.patience
    if since + patience.nanos ≤ common.clock then
      some (c.refuse (.noTokenWithin patience.milliseconds))
    else none
  | _, _ => none

/-- Answers a connection that has been admitted. -/
def answer (c : Call) (common : Common σ) : Option (Call × Common σ) :=
  if c.entrance = .admitted ∧ c.reply = none ∧
      isDecided (Frame.read common.responder.maximum c.atServer) then
    let (bytes, states) := common.responder.serve c.atServer common.states
    some (c.replyWith bytes, { common with states })
  else none

/-! ### Steps on the way -/

/-- Delivers the next bytes to the server. -/
def carry (c : Call) (count : Nat) : Option Call :=
  if 0 < count ∧ count ≤ c.toServer.length then
    some { c with
      toServer := c.toServer.drop count
      atServer := c.atServer ++ [c.toServer.take count] }
  else none

/-- Delivers the next bytes to the client. -/
def bring (c : Call) (count : Nat) : Option Call :=
  if 0 < count ∧ count ≤ c.toClient.length then
    some { c with
      toClient := c.toClient.drop count
      atClient := c.atClient ++ [c.toClient.take count] }
  else none

/-- A step of the call; nothing if it cannot happen now. -/
def step (c : Call) (common : Common σ) : Act → Option (Call × Common σ)
  | .send => c.send common
  | .enter => c.enter common
  | .turnAway => (c.turnAway common).map (·, common)
  | .carry count => (c.carry count).map (·, common)
  | .answer => c.answer common
  | .bring count => (c.bring count).map (·, common)
  | .settle => c.settle.map (·, common)
  | .abandon => c.abandon.map (·, common)

end Call

/-! ### Runs -/

/-- The calls that are under way, and what they share. -/
structure Traffic (σ : Type) where
  common : Common σ
  calls : Nat → Call

namespace Traffic

variable {σ : Type}

/-- What can happen: something to one of the calls, or time passes. -/
inductive Event where
  | call (i : Nat) (act : Act)
  | pass (nanos : Nat)
deriving DecidableEq, Repr

/-- The state after an event; nothing if it cannot happen. -/
def step (t : Traffic σ) : Event → Option (Traffic σ)
  | .call i act =>
    ((t.calls i).step t.common act).map fun next =>
      ⟨next.2, fun j => if j = i then next.1 else t.calls j⟩
  | .pass nanos => some { t with common := { t.common with clock := t.common.clock + nanos } }

/-- The state after several events. -/
def run (t : Traffic σ) : List Event → Option (Traffic σ)
  | [] => some t
  | e :: es => (step t e).bind fun t => run t es

/-- What one call does leaves every other call untouched. -/
theorem calls_step_of_ne {t t' : Traffic σ} {i : Nat} {act : Act}
    (h : t.step (.call i act) = some t') {j : Nat} (other : j ≠ i) : t'.calls j = t.calls j := by
  obtain ⟨next, -, rfl⟩ := Option.map_eq_some_iff.1 h
  simp [other]

/-- A run in two parts is the second part run from where the first one ended. -/
theorem run_append (t : Traffic σ) (es fs : List Event) :
    t.run (es ++ fs) = (t.run es).bind fun t => t.run fs := by
  induction es generalizing t with
  | nil => rfl
  | cons e es ih =>
    -- The first event leads to one state at most, from which the rest is run.
    simp only [List.cons_append, run]
    cases t.step e with
    | none => rfl
    | some next => exact ih next

end Traffic
end WireCall
