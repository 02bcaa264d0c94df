import WireCall.Client.Basic
import WireCall.Service.Method

namespace WireCall

/-!
# Proxies

A proxy calls a method as often as its settings allow, each time through a client of its own, until
one attempt is answered with a success.  It keeps the failures of all attempts; the room for them is
reserved before the first one, and a call for which there is no such room crashes.

Main statements: when every attempt fails there are as many failures as attempts
(`Proxy.length_of_tryTimes_error`), and a number of attempts beyond `Proxy.mostAttempts` crashes
(`Proxy.call_of_mostAttempts_lt`).
-/

/-- What every attempt of a proxy starts from. -/
structure Proxy (ω κ : Type) where
  settings : ClientSettings
  network : Network ω κ
  discovery : Option (Backend ω × DiscoverySettings)

namespace Proxy

variable {ω κ α : Type}

/-- The bytes that a failure takes up. -/
def faultSize : Nat := 56

/-- The greatest number of failures for which room can be reserved. -/
def mostAttempts : Nat := 0x7fffffffffffffff / faultSize

/-- The data of a response that is a success. -/
def dataOf (r : Response) : Except Fault Value :=
  if r.isOk then .ok r.data else .error (.remote r.code r.text)

/-- What a client does that is connected to a service for a single call. -/
def session (context : CallContext) (service method : String) (args : List Value) :
    ClientAction ω κ Value := do
  Client.connect service
  -- A failed call is kept until the client has hung up.
  let outcome ← (Client.invoke context service method args).attempt
  Client.close
  let response ← .ofExcept outcome
  .ofExcept (dataOf response)

/-- One attempt, through a new client. -/
def attempt (p : Proxy ω κ) (context : CallContext) (service method : String)
    (args : List Value) : Action (Origin ω) Value := fun origin =>
  let client := Client.ofSettings p.settings p.network p.discovery
  let (r, _, origin) := (session context service method args).perform (client, origin)
  (r, origin)

/-- Makes an action up to `n` times, until it succeeds; the failures are in the order in which they
happened. -/
def tryTimes (a : Action ω α) : Nat → StateM ω (Except (List Fault) α)
  | 0, w => (.error [], w)
  | n + 1, w =>
    match a.perform w with
    | (.ok x, w) => (.ok x, w)
    | (.error fault, w) =>
      let (r, w) := tryTimes a n w
      (r.mapError fun faults => fault :: faults, w)

/-- Giving up takes all the attempts, and each of them leaves one fault. -/
theorem length_of_tryTimes_error {a : Action ω α} {n : Nat} {w w' : ω} {faults : List Fault}
    (h : tryTimes a n w = (.error faults, w')) : faults.length = n := by
  induction n generalizing w faults with
  | zero =>
    cases h
    rfl
  | succ n ih =>
    rw [tryTimes] at h
    split at h
    · cases h
    · -- The first attempt failed, so its failure stands before those of the others.
      next fault w₁ _ =>
      cases others : tryTimes a n w₁ with
      | mk r w₂ =>
        rw [others] at h
        cases r with
        | ok x => cases h
        | error rest =>
          cases h
          simp [ih others]

/-- Calls a method. -/
def call (p : Proxy ω κ) (context : CallContext) (service method : String)
    (args : List Value) : StateM (Origin ω) (Outcome Fault Value) := do
  let attempts := p.settings.attempts.toNat
  if mostAttempts < attempts then return .crashed
  match ← tryTimes (p.attempt context service method args) attempts with
  | .ok v => return .returned v
  | .error faults => return .failed (.retriesExhausted attempts faults)

/-- The outcome of a call as a typed value. -/
def typed (s : Shape) : Outcome Fault Value → Outcome Fault s.Carrier
  | .returned v => .ofExcept ((s.decode v).mapError fun cause => .codec (.mismatch cause))
  | .failed fault => .failed fault
  | .crashed => .crashed

/-- Calls a method that returns a typed value. -/
def callAs (p : Proxy ω κ) (s : Shape) (context : CallContext) (service method : String)
    (args : List Value) : StateM (Origin ω) (Outcome Fault s.Carrier) := do
  return typed s (← p.call context service method args)

/-- Room for more faults than an allocation may hold is never granted: the call crashes before the
first attempt, and the origin is as it was. -/
theorem call_of_mostAttempts_lt {p : Proxy ω κ} (h : mostAttempts < p.settings.attempts.toNat)
    (context : CallContext) (service method : String) (args : List Value)
    (origin : Origin ω) : p.call context service method args origin = (.crashed, origin) := by
  simp [call, h]
  rfl

end Proxy
end WireCall
