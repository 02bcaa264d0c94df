import WireCall.Client.Exchange
import WireCall.Discovery.Backend

namespace WireCall

/-!
# Clients

A client connects to the service that it wants to call and makes one call per connection.  Where
the service is, a discovery backend tells, or else the settings of the client.  The ids of requests
are drawn from one counter at their origin, so no two requests of an origin share one until the
counter wraps.

Main statements: a call without a connection fails and changes nothing
(`Client.perform_invoke_of_disconnected`), and after any call there is no connection left
(`Client.channel_invoke`).
-/

/-- Where calls come from: the surroundings of all its clients, and the id of their next request. -/
structure Origin (ω : Type) where
  nextId : UInt64
  world : ω
deriving Repr

namespace Origin

variable {ω α : Type}

/-- The first id is one. -/
def start (world : ω) : Origin ω := ⟨1, world⟩

/-- Draws the id of a request. -/
def drawId : Action (Origin ω) UInt64 := do
  let p ← get
  set { p with nextId := p.nextId + 1 }
  return p.nextId

/-- Does something in the surroundings. -/
def outside (a : Action ω α) : Action (Origin ω) α :=
  a.within (·.world) fun world p => { p with world }

end Origin

/-- A client of the network, with its connection if it has one. -/
structure Client (ω κ : Type) where
  settings : ClientSettings
  network : Network ω κ
  discovery : Option (Backend ω × DiscoverySettings)
  channel : Option κ

/-- What a client does at its origin. -/
abbrev ClientAction (ω κ α : Type) := Action (Client ω κ × Origin ω) α

namespace Client

variable {ω κ α : Type}

/-- A client that is not connected. -/
def ofSettings (settings : ClientSettings) (network : Network ω κ)
    (discovery : Option (Backend ω × DiscoverySettings)) : Client ω κ :=
  ⟨settings, network, discovery, none⟩

/-- Whether there is a connection. -/
def isConnected (c : Client ω κ) : Bool := c.channel.isSome

/-- The address of a service. -/
def resolve (c : Client ω κ) (service : String) : Action ω String :=
  match c.discovery with
  | some (backend, settings) => backend.lookUp settings service
  | none => pure c.settings.address

/-- A connection to a service. -/
def dial (c : Client ω κ) (service : String) : Action ω κ := do
  let address ← c.resolve service
  c.network.dialText address c.settings.dialPatience

/-- Does something at the origin. -/
def atOrigin (a : Action (Origin ω) α) : ClientAction ω κ α :=
  a.within (·.2) fun p s => (s.1, p)

/-- Puts a connection in place of the one there was. -/
def setChannel (channel : Option κ) : ClientAction ω κ Unit :=
  modify fun s => ({ s.1 with channel }, s.2)

/-- Connects to a service; if that fails, an earlier connection stays. -/
def connect (service : String) : ClientAction ω κ Unit := do
  let (c, _) ← get
  let channel ← atOrigin (Origin.outside (c.dial service))
  setChannel (some channel)

/-- Sends a request on a connection and takes the response. -/
def callOn (c : Client ω κ) (channel : κ) (context : CallContext) (service method : String)
    (args : List Value) : Action (Origin ω) Response := do
  let id ← Origin.drawId
  let frame ← .ofExcept (requestFrame c.settings ⟨id, service, method, args⟩)
  let arrival ← Origin.outside (c.network.exchange channel frame.encode context.deadline)
  .ofExcept (receive c.settings.maximum id arrival)

/-- Calls a method on the connection, which is used up by the call. -/
def invoke (context : CallContext) (service method : String) (args : List Value) :
    ClientAction ω κ Response := do
  let (c, _) ← get
  match c.channel with
  | none => throw .connectionClosed
  | some channel =>
    -- The connection is taken before the call, so it is gone however the call ends.
    setChannel none
    atOrigin (c.callOn channel context service method args)

/-- Hangs up, if there is a connection. -/
def close : ClientAction ω κ Unit := do
  let (c, _) ← get
  match c.channel with
  | none => pure ()
  | some channel =>
    setChannel none
    atOrigin (Origin.outside (c.network.hangUp channel))

/-- A client that has no connection fails at once and neither dials nor writes. -/
theorem perform_invoke_of_disconnected {c : Client ω κ} (h : c.channel = none)
    (context : CallContext) (service method : String) (args : List Value) (p : Origin ω) :
    (invoke context service method args).perform (c, p)
      = (.error .connectionClosed, (c, p)) := by
  obtain ⟨settings, network, discovery, channel⟩ := c
  cases h
  rfl

/-- An exchange uses its connection up, however it ends. -/
theorem channel_invoke (c : Client ω κ) (context : CallContext) (service method : String)
    (args : List Value) (p : Origin ω) :
    ((invoke context service method args).perform (c, p)).2.1.channel = none := by
  obtain ⟨settings, network, discovery, channel⟩ := c
  cases channel <;> rfl

end Client
end WireCall
