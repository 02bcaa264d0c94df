import WireCall.Service.Convert
import WireCall.Fault

namespace WireCall

/-!
# Methods

A `Method` on the instance state `σ` has parameters, a result and a body.  Its call converts the
arguments, runs the body on the state of the instance, and converts what the body returns; the
first of these that fails decides the outcome.

Main statement: the state is touched only by the body, so a call whose arguments do not convert
leaves it as it is (`Method.call_of_mismatch`).
-/

/-- How something ended: with a value, with an error, or by crashing. -/
inductive Outcome (ε α : Type) where
  | returned (a : α)
  | failed (error : ε)
  | crashed
deriving Repr, DecidableEq

/-- The outcome of something that does not crash. -/
def Outcome.ofExcept {ε α : Type} : Except ε α → Outcome ε α
  | .ok a => .returned a
  | .error e => .failed e

/-- A method of a service whose instances have the state `σ`. -/
structure Method (σ : Type) where
  params : Shape
  result : Shape
  body : params.Carrier → σ → Outcome String result.Carrier × σ

namespace Method

variable {σ : Type}

/-- A method that neither reads nor changes the state. -/
def stateless (params result : Shape) (f : params.Carrier → Outcome String result.Carrier) :
    Method σ := ⟨params, result, fun a s => (f a, s)⟩

/-- The outcome of a body as a dynamic value. -/
def conclude (m : Method σ) : Outcome String m.result.Carrier → Outcome Fault Value
  | .returned a => .ofExcept ((m.result.encode a).mapError fun cause => .codec (.unsendable cause))
  | .failed text => .failed (.application text)
  | .crashed => .crashed

/-- Calls the method, known as `name`, on an instance whose state is `s`. -/
def call (m : Method σ) (name : String) (args : List Value) (s : σ) : Outcome Fault Value × σ :=
  match m.params.decodeArguments args with
  | .error cause => (.failed (.argumentConversion name cause), s)
  | .ok a =>
    let (outcome, s) := m.body a s
    (m.conclude outcome, s)

/-- Arguments that do not convert end the call before the method runs, so the state is kept. -/
theorem call_of_mismatch {m : Method σ} {args : List Value} {cause : Mismatch}
    (h : m.params.decodeArguments args = .error cause) (name : String) (s : σ) :
    m.call name args s = (.failed (.argumentConversion name cause), s) := by
  simp [call, h]

end Method
end WireCall
