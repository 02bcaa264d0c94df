import WireCall.Settings.Discovery
import WireCall.Action

namespace WireCall

/-!
# Discovery backends

Servers publish the addresses of their services with a backend, and clients resolve names with
one.  A `Backend δ` is any four operations on a state `δ`; each of them may fail.
-/

/-- A discovery backend whose state is a `δ`. -/
structure Backend (δ : Type) where
  connect : DiscoverySettings → Action δ Unit
  publish : (service host : String) → UInt16 → Action δ Unit
  resolve : (service : String) → Action δ String
  close : Action δ Unit

namespace Backend

variable {δ : Type}

/-- Publishes an address after connecting. -/
def announce (b : Backend δ) (settings : DiscoverySettings) (service host : String)
    (port : UInt16) : Action δ Unit := do
  b.connect settings
  b.publish service host port

/-- Resolves a name after connecting. -/
def lookUp (b : Backend δ) (settings : DiscoverySettings) (service : String) :
    Action δ String := do
  b.connect settings
  b.resolve service

/-- The backend whose state is a part of `σ`. -/
def within {σ : Type} (get : σ → δ) (set : δ → σ → σ) (b : Backend δ) : Backend σ where
  connect settings := (b.connect settings).within get set
  publish service host port := (b.publish service host port).within get set
  resolve service := (b.resolve service).within get set
  close := b.close.within get set

/-- A backend that cannot be connected. -/
def down : Backend δ where
  connect _ := throw (.registry (.other "backend down"))
  publish _ _ _ := throw (.registry (.other "backend down"))
  resolve _ := throw (.registry (.other "backend down"))
  close := pure ()

/-- A backend that can be connected and does nothing else. -/
def inert : Backend δ where
  connect _ := pure ()
  publish service _ _ := throw (.registry (.other s!"cannot publish {service}"))
  resolve service := throw (.registry (.other s!"cannot resolve {service}"))
  close := pure ()

end Backend
end WireCall
