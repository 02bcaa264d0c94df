namespace WireCall

/-!
# Binary floating-point numbers

A float is kept as its bits, so that equality is the equality of the wire and every operation can
be computed by a proof.  `BinaryFormat` describes an interchange format; `BinaryFormat.nearest`
rounds a quotient of naturals to the nearest magnitude of the format, a tie going to the even one,
and is the only place that rounds.  `Binary64` and `Binary32` are the two formats in use, and
`FiniteFloat` is what a dynamic value may hold.
-/

/-! ### Formats -/

/-- The quotient rounded to the nearest natural, a tie going to the even one. -/
def roundToEven (num den : Nat) : Nat :=
  let q := num / den
  let twice := 2 * (num % den)
  if den < twice ∨ (twice = den ∧ q % 2 = 1) then q + 1 else q

/-- A binary interchange format: a sign bit, an exponent field and a fraction field. -/
structure BinaryFormat where
  fractionBits : Nat
  exponentBits : Nat

namespace BinaryFormat

/-- Eight bytes: 11 bits of exponent and 52 of fraction. -/
def double : BinaryFormat := ⟨52, 11⟩

/-- Four bytes: 8 bits of exponent and 23 of fraction. -/
def single : BinaryFormat := ⟨23, 8⟩

variable (f : BinaryFormat)

/-- The exponent of the smallest positive magnitude. -/
def leastExponent : Int := 2 - Nat.pow 2 (f.exponentBits - 1) - f.fractionBits

/-- The magnitude bits of infinity; smaller ones are finite, larger ones are no number. -/
def infinity : Nat := (Nat.pow 2 f.exponentBits - 1) * Nat.pow 2 f.fractionBits

/-- The pair `(m, q)` with which the finite magnitude `bits` stands for `m * 2 ^ q`. -/
def decompose (bits : Nat) : Nat × Int :=
  let field := bits / Nat.pow 2 f.fractionBits
  let fraction := bits % Nat.pow 2 f.fractionBits
  if field = 0 then (fraction, f.leastExponent)
  else (Nat.pow 2 f.fractionBits + fraction, f.leastExponent + field - 1)

/-- The greatest `e` with `2 ^ e * den ≤ num`, for positive `num` and `den`. -/
def scale (num den : Nat) : Int :=
  let e : Int := (num.log2 : Int) - den.log2
  if den * Nat.pow 2 e.toNat ≤ num * Nat.pow 2 (-e).toNat then e else e - 1

/-- The magnitude bits nearest to `num / den`; infinity when that is out of reach. -/
def nearest (num den : Nat) : Nat :=
  if num = 0 then 0
  else
    let unit := Max.max (scale num den - f.fractionBits) f.leastExponent
    let significand := roundToEven (num * Nat.pow 2 (-unit).toNat) (den * Nat.pow 2 unit.toNat)
    let bits := (unit - f.leastExponent).toNat * Nat.pow 2 f.fractionBits + significand
    Min.min bits f.infinity

/-- The finite magnitude `bits` as a quotient of naturals. -/
def quotient (bits : Nat) : Nat × Nat :=
  let (m, q) := f.decompose bits
  (m * Nat.pow 2 q.toNat, Nat.pow 2 (-q).toNat)

end BinaryFormat

/-! ### The two formats in use -/

/-- A float of eight bytes, any of its bit patterns. -/
structure Binary64 where
  bits : UInt64
deriving DecidableEq, Repr, Inhabited

/-- A float of four bytes, any of its bit patterns. -/
structure Binary32 where
  bits : UInt32
deriving DecidableEq, Repr, Inhabited

namespace Binary64

/-- The bits without the sign. -/
def magnitude (x : Binary64) : Nat := x.bits.toNat % 0x8000000000000000

/-- Whether the sign bit is set. -/
def negative (x : Binary64) : Bool := 0x8000000000000000 ≤ x.bits.toNat

/-- Neither an infinity nor a NaN. -/
def isFinite (x : Binary64) : Bool := x.magnitude < BinaryFormat.double.infinity

/-- Positive or negative zero. -/
def isZero (x : Binary64) : Bool := x.magnitude = 0

/-- The float with this sign and these magnitude bits. -/
def compose (negative : Bool) (magnitude : Nat) : Binary64 :=
  ⟨UInt64.ofNat ((if negative then 0x8000000000000000 else 0) + magnitude)⟩

/-- A NaN. -/
def nan : Binary64 := ⟨0x7ff8000000000000⟩

/-- Positive infinity. -/
def infinity : Binary64 := ⟨0x7ff0000000000000⟩

/-- Negative zero. -/
def negativeZero : Binary64 := ⟨0x8000000000000000⟩

/-- The float nearest to an integer. -/
def ofInt (n : Int) : Binary64 :=
  compose (n < 0) (BinaryFormat.double.nearest n.natAbs 1)

/-- The float nearest to the product of two finite floats. -/
def product (x y : Binary64) : Binary64 :=
  let (a, b) := BinaryFormat.double.quotient x.magnitude
  let (c, d) := BinaryFormat.double.quotient y.magnitude
  compose (x.negative != y.negative) (BinaryFormat.double.nearest (a * c) (b * d))

/-- The float nearest to the quotient of two finite floats, the divisor not being zero. -/
def quotient (x y : Binary64) : Binary64 :=
  let (a, b) := BinaryFormat.double.quotient x.magnitude
  let (c, d) := BinaryFormat.double.quotient y.magnitude
  compose (x.negative != y.negative) (BinaryFormat.double.nearest (a * d) (b * c))

end Binary64

namespace Binary32

/-- The bits without the sign. -/
def magnitude (x : Binary32) : Nat := x.bits.toNat % 0x80000000

/-- Whether the sign bit is set. -/
def negative (x : Binary32) : Bool := 0x80000000 ≤ x.bits.toNat

/-- Neither an infinity nor a NaN. -/
def isFinite (x : Binary32) : Bool := x.magnitude < BinaryFormat.single.infinity

/-- The float with this sign and these magnitude bits. -/
def compose (negative : Bool) (magnitude : Nat) : Binary32 :=
  ⟨UInt32.ofNat ((if negative then 0x80000000 else 0) + magnitude)⟩

/-- The float nearest to an integer. -/
def ofInt (n : Int) : Binary32 :=
  compose (n < 0) (BinaryFormat.single.nearest n.natAbs 1)

/-- The float nearest to a finite wider one. -/
def ofBinary64 (x : Binary64) : Binary32 :=
  let (a, b) := BinaryFormat.double.quotient x.magnitude
  compose x.negative (BinaryFormat.single.nearest a b)

/-- The same number in the wider format; what is not finite becomes an infinity. -/
def widen (x : Binary32) : Binary64 :=
  if x.isFinite then
    let (a, b) := BinaryFormat.single.quotient x.magnitude
    Binary64.compose x.negative (BinaryFormat.double.nearest a b)
  else Binary64.infinity

end Binary32

/-! ### Finite floats -/

/-- A float that is neither an infinity nor a NaN. -/
structure FiniteFloat where
  float : Binary64
  finite : float.isFinite = true
deriving DecidableEq, Repr

namespace FiniteFloat

instance : Inhabited FiniteFloat := ⟨⟨⟨0⟩, by decide⟩⟩

/-- The finite float `x`, if it is one. -/
def of? (x : Binary64) : Option FiniteFloat :=
  if h : x.isFinite = true then some ⟨x, h⟩ else none

/-- A finite float is read back from its word. -/
@[simp] theorem of?_float (x : FiniteFloat) : of? x.float = some x := by
  rw [of?, dif_pos x.finite]

end FiniteFloat
end WireCall
