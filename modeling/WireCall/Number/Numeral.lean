import WireCall.Number.Decimal
import WireCall.Value

namespace WireCall

/-!
# Numerals

A numeral is what JSON calls a number: digits with no needless zero in front, which may follow a
minus and may be followed by a fraction and an exponent.  `Numeral.scan` takes one off the
beginning of a text, or finds out why there is none and where the text stops being one.

`Numeral.value?` is the number.  Without fraction and exponent it is an integer as long as 64 bits
hold it; otherwise it is a float, made from the leading digits that 64 bits hold and a power of ten.
Each of its roundings is correct but there may be two of them, so the float can be a neighbour of
the nearest one.

`Numeral.write` is how an integer is written.
-/

/-! ### Faults and places -/

/-- Why a text does not begin with a numeral that can be read. -/
inductive NumeralFault where
  | ended
  | malformed
  | outOfRange
deriving DecidableEq, Repr

/-- The fault in words. -/
def NumeralFault.message : NumeralFault → String
  | ended => "EOF while parsing a value"
  | malformed => "invalid number"
  | outOfRange => "number out of range"

/-- A place in a text: a line, and how many of its bytes are before the place. -/
structure Place where
  line : Nat
  column : Nat
deriving DecidableEq, Repr

namespace Place

/-- The place where only `rest` is left of a text, if what is before it is part of a numeral. -/
def before (text rest : List Char) : Place := ⟨1, text.length - rest.length⟩

/-- The place behind the first byte of what is left, if anything is. -/
def onNext (text : List Char) : List Char → Place
  | [] => before text []
  | c :: rest => if c = '\n' then ⟨2, 0⟩ else before text rest

end Place

/-! ### The parts of a numeral -/

/-- A numeral: its sign, the digits before and behind the point, and the sign and the digits of the
exponent. -/
structure Numeral where
  negative : Bool
  whole : List Nat
  fraction : List Nat
  exponent : Option (Bool × List Nat)
deriving DecidableEq, Repr

namespace Numeral

/-- A fault, and what was left of the text when it was found. -/
structure Stop where
  fault : NumeralFault
  rest : List Char
deriving DecidableEq, Repr

/-- The digits at the beginning of a text. -/
def digits : List Char → List Nat × List Char
  | [] => ([], [])
  | c :: cs =>
    match Decimal.digit? c with
    | some d => (d :: (digits cs).1, (digits cs).2)
    | none => ([], c :: cs)

/-- At least one digit. -/
def someDigits (cs : List Char) : Except Stop (List Nat × List Char) :=
  match digits cs with
  | ([], []) => .error ⟨.ended, []⟩
  | ([], rest) => .error ⟨.malformed, rest⟩
  | read => .ok read

/-- The digits before the point, of which the first is a zero only if it is the last. -/
def scanWhole (cs : List Char) : Except Stop (List Nat × List Char) := do
  let (ds, rest) ← someDigits cs
  match ds with
  | 0 :: _ :: _ => .error ⟨.malformed, cs.tail⟩
  | _ => .ok (ds, rest)

/-- The digits behind the point, if there is one. -/
def scanFraction : List Char → Except Stop (List Nat × List Char)
  | '.' :: cs => someDigits cs
  | cs => .ok ([], cs)

/-- Whether there is a minus, and what is behind it. -/
def scanMinus : List Char → Bool × List Char
  | '-' :: cs => (true, cs)
  | cs => (false, cs)

/-- A sign of either kind, which may be missing. -/
def scanSign : List Char → Bool × List Char
  | '+' :: cs => (false, cs)
  | cs => scanMinus cs

/-- The exponent, if there is one. -/
def scanExponent : List Char → Except Stop (Option (Bool × List Nat) × List Char)
  | [] => .ok (none, [])
  | c :: cs =>
    if c = 'e' ∨ c = 'E' then do
      let (negative, cs) := scanSign cs
      let (ds, rest) ← someDigits cs
      return (some (negative, ds), rest)
    else .ok (none, c :: cs)

/-- The numeral at the beginning of a text. -/
def scan (cs : List Char) : Except Stop (Numeral × List Char) := do
  let (negative, cs) := scanMinus cs
  let (whole, cs) ← scanWhole cs
  let (fraction, cs) ← scanFraction cs
  let (exponent, cs) ← scanExponent cs
  return (⟨negative, whole, fraction, exponent⟩, cs)

/-! ### The number -/

/-- The natural that digits stand for. -/
def ofDigits (ds : List Nat) : Nat := ds.foldl (fun acc d => 10 * acc + d) 0

/-- Takes up digits one by one, as long as the number stays below a bound, and hands back those that
are left. -/
def takeUp (bound acc : Nat) : List Nat → Nat × List Nat
  | [] => (acc, [])
  | d :: ds =>
    if 10 * acc + d < bound then takeUp bound (10 * acc + d) ds else (acc, d :: ds)

/-- The integer with this sign and magnitude. -/
def signed (negative : Bool) (n : Nat) : Int := if negative then -n else n

variable (n : Numeral)

/-- The integer that the numeral stands for, if it has neither fraction nor exponent and 64 bits
hold it.  A negative zero is no integer. -/
def integer? : Option WireInt :=
  if n.fraction = [] ∧ n.exponent = none ∧ ¬ (n.negative = true ∧ ofDigits n.whole = 0) then
    WireInt.ofInt? (signed n.negative (ofDigits n.whole))
  else none

/-- A power of ten as a float. -/
def tenTo (e : Nat) : Binary64 := .ofInt (Nat.pow 10 e)

/-- The float divided a number of times by the greatest power of ten, as long as it is not zero. -/
def shrink (x : Binary64) : Nat → Binary64
  | 0 => x
  | times + 1 => if x.isZero then x else shrink (x.quotient (tenTo 308)) times

/-- A float times a power of ten, infinite where that is out of reach. -/
def scaled (x : Binary64) (e : Int) : Binary64 :=
  if 0 ≤ e then
    if e ≤ 308 then x.product (tenTo e.toNat) else if x.isZero then x else .infinity
  else
    -- All but the last of the divisions are by the greatest power of ten.
    let left := (-e).toNat
    let times := (left - 1) / 308
    (shrink x times).quotient (tenTo (left - 308 * times))

/-- The exponent of the numeral, zero if it has none. -/
def power : Int :=
  match n.exponent with
  | some (negative, ds) => signed negative (ofDigits ds)
  | none => 0

/-- The number as a float.  Digits that 64 bits do not hold count only by their places. -/
def float : Binary64 :=
  let (whole, dropped) := takeUp 18446744073709551616 0 n.whole
  let (significand, ignored) := takeUp 18446744073709551616 whole n.fraction
  let places : Int := dropped.length - (n.fraction.length - ignored.length : Nat)
  .compose n.negative (scaled (.ofInt significand) (places + n.power)).magnitude

/-- The number, if it is in range. -/
def value? : Option Value :=
  match n.integer? with
  | some i => some (.int i)
  | none => (FiniteFloat.of? n.float).map .float

/-- Where it is noticed that the numeral, behind which `rest` is left, is out of range: at its end,
or at the first digit by which 31 bits do not hold the exponent. -/
def excessPlace (text rest : List Char) : Place :=
  match n.exponent with
  | some (_, ds) =>
    let unread := (takeUp 2147483648 0 ds).2.length - 1
    ⟨1, text.length - rest.length - unread⟩
  | none => .before text rest

/-! ### Integers in digits -/

/-- The digits of an integer, after a minus if it is negative. -/
def write (i : Int) : List Char :=
  if i < 0 then '-' :: Nat.toDigits 10 i.natAbs else Nat.toDigits 10 i.natAbs

end Numeral
end WireCall
