import WireCall.Action
import WireCall.Deadline
import WireCall.Frame.Stream
import WireCall.Transport.Address

namespace WireCall

/-!
# Networks

A `Network ω κ` is what a client needs of its surroundings `ω`: connecting to an address, sending
bytes on a connection `κ` and taking what comes back, which uses the connection up, and hanging up
on a connection that was not used.  Every network, whatever its peers answer, is a value of this
type.
-/

/-- What has come back on a connection: the pieces that arrived in time, and whether the peer has
ended its side, so that nothing more can follow. -/
structure Arrival where
  pieces : Inbound
  ended : Bool
deriving DecidableEq, Repr

/-- The far side of a client. -/
structure Network (ω κ : Type) where
  dial : Address → Duration → Action ω κ
  exchange : κ → Octets → Option Instant → Action ω Arrival
  hangUp : κ → Action ω Unit

/-- An address that is not one of a host and a port. -/
def IoFault.badAddress : IoFault := ⟨.invalidInput, "invalid socket address"⟩

/-- There is no way to the peer. -/
def IoFault.unreachable : IoFault := ⟨.networkUnreachable, "network is unreachable"⟩

namespace Network

variable {ω κ : Type}

/-- Connects to the address that a text spells. -/
def dialText (n : Network ω κ) (address : String) (patience : Duration) : Action ω κ :=
  match Address.ofText? address with
  | some address => n.dial address patience
  | none => throw (.transport .badAddress)

/-- A network without a way to any peer. -/
def isolated : Network ω Empty where
  dial _ _ := throw (.transport .unreachable)
  exchange channel := nomatch channel
  hangUp channel := nomatch channel

end Network
end WireCall
