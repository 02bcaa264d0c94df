import WireCall.Number.Binary

namespace WireCall

/-!
# The shortest decimal that reads back

`Shortest.decimal f bits` finds, for a positive finite magnitude of the format `f`, the decimal
`d * 10 ^ e` with the fewest digits among those that round to that magnitude, and of those the
nearest.  The reals that round to a magnitude form an interval between the midpoints to its two
neighbours, which belong to it exactly when its significand is even.  If a point of a decimal grid
lies in the interval, so does one of the two grid points around the magnitude itself, so only these
two are tried, on finer and finer grids.

A `FloatStyle` writes the result: with a point and no exponent where the number is neither very
small nor very large, elsewhere with an exponent.  `FiniteFloat.text` and `Binary32.text?` are the
texts of the two formats.
-/

namespace Shortest

/-- A non-negative quotient of naturals. -/
structure Ratio where
  num : Nat
  den : Nat

namespace Ratio

/-- `m * 2 ^ q`. -/
def ofBinary (m : Nat) (q : Int) : Ratio := ⟨m * Nat.pow 2 q.toNat, Nat.pow 2 (-q).toNat⟩

/-- `m * 10 ^ e`. -/
def ofDecimal (m : Nat) (e : Int) : Ratio := ⟨m * Nat.pow 10 e.toNat, Nat.pow 10 (-e).toNat⟩

/-- Whether `x` is below `y`. -/
def lt (x y : Ratio) : Bool := x.num * y.den < y.num * x.den

/-- Whether `x` is at most `y`. -/
def le (x y : Ratio) : Bool := x.num * y.den ≤ y.num * x.den

end Ratio

/-- The reals that round to one magnitude. -/
structure Interval where
  lower : Ratio
  upper : Ratio
  closed : Bool

/-- Whether the interval holds `x`. -/
def Interval.holds (i : Interval) (x : Ratio) : Bool :=
  if i.closed then i.lower.le x && x.le i.upper else i.lower.lt x && x.lt i.upper

/-- The reals that round to the magnitude `bits` of the format `f`.  Just above a power of two the
lower neighbour is only half as far away as the upper one. -/
def interval (f : BinaryFormat) (bits : Nat) : Interval :=
  let (m, q) := f.decompose bits
  let lower :=
    if bits % Nat.pow 2 f.fractionBits = 0 ∧ Nat.pow 2 f.fractionBits < bits then
      Ratio.ofBinary (4 * m - 1) (q - 2)
    else Ratio.ofBinary (2 * m - 1) (q - 1)
  ⟨lower, Ratio.ofBinary (2 * m + 1) (q - 1), m % 2 = 0⟩

/-- The greatest `e` with `10 ^ e ≤ x`, searched upwards from `e` in at most `fuel` steps. -/
def decimalScale (x : Ratio) : Nat → Int → Int
  | 0, e => e
  | fuel + 1, e => if (Ratio.ofDecimal 1 (e + 1)).le x then decimalScale x fuel (e + 1) else e

/-- The grid point next to `x` that lies in the interval, on the grid of the multiples of
`10 ^ e`; of two such points the nearer, and the even one when they are equally near. -/
def onGrid? (i : Interval) (x : Ratio) (e : Int) : Option Nat :=
  let num := x.num * Nat.pow 10 (-e).toNat
  let den := x.den * Nat.pow 10 e.toNat
  let below := num / den
  let nearer := roundToEven num den
  let other := if nearer = below then below + 1 else below
  if i.holds (Ratio.ofDecimal nearer e) then some nearer
  else if i.holds (Ratio.ofDecimal other e) then some other
  else none

/-- The coarsest of the grids `10 ^ e`, `10 ^ (e - 1)`, … with a point in the interval. -/
def search (i : Interval) (x : Ratio) : Nat → Int → Nat × Int
  | 0, e => (x.num * Nat.pow 10 (-e).toNat / (x.den * Nat.pow 10 e.toNat), e)
  | fuel + 1, e =>
    match onGrid? i x e with
    | some d => (d, e)
    | none => search i x fuel (e - 1)

/-- The shortest decimal `(d, e)`, standing for `d * 10 ^ e`, that rounds to the positive finite
magnitude `bits`. -/
def decimal (f : BinaryFormat) (bits : Nat) : Nat × Int :=
  let (m, q) := f.decompose bits
  let x := Ratio.ofBinary m q
  -- `10 ^ e ≤ x` holds at a start below the least magnitude, and the scale is at most twice as far.
  let start : Int := -(Nat.pow 2 (f.exponentBits - 1))
  let scale := decimalScale x (Nat.pow 2 f.exponentBits) start
  -- A power of ten just above the magnitude has one digit, so its grid comes first.
  search (interval f bits) x 19 (scale + 1)

end Shortest

/-! ### Texts of floats -/

/-- How the floats of a format are written.  If the first digit is at one of these places, there is
no exponent; the last place before the point is the first, and the one behind it is zero. -/
structure FloatStyle where
  format : BinaryFormat
  lowestPlace : Int
  highestPlace : Int

namespace FloatStyle

/-- Without an exponent from a hundred-thousandth to below ten to the sixteenth. -/
def double : FloatStyle := ⟨.double, -4, 16⟩

/-- Without an exponent from a millionth to below ten to the thirteenth. -/
def single : FloatStyle := ⟨.single, -5, 13⟩

/-- `d * 10 ^ e` in digits without an exponent, with at least one digit on each side of the
point. -/
def positional (d : Nat) (e : Int) : String :=
  let digits := (toString d).toList
  if 0 ≤ e then String.ofList (digits ++ List.replicate e.toNat '0') ++ ".0"
  else
    let places := (-e).toNat
    let padded := List.replicate (places + 1 - digits.length) '0' ++ digits
    let whole := padded.take (padded.length - places)
    let fraction := padded.drop (padded.length - places)
    String.ofList whole ++ "." ++ String.ofList fraction

/-- `d * 10 ^ e` with one digit before the point and a signed exponent; a lone digit has no
point. -/
def scientific (d : Nat) (e : Int) : String :=
  let digits := (toString d).toList
  let fraction := digits.drop 1
  let point := if fraction.isEmpty then "" else "."
  let exponent := e + fraction.length
  String.ofList (digits.take 1) ++ point ++ String.ofList fraction ++
    (if exponent < 0 then "e-" else "e+") ++ toString exponent.natAbs

variable (style : FloatStyle)

/-- The shortest decimal text of a positive finite magnitude. -/
def magnitudeText (magnitude : Nat) : String :=
  let (d, e) := Shortest.decimal style.format magnitude
  let place : Int := (Nat.toDigits 10 d).length + e
  if style.lowestPlace ≤ place ∧ place ≤ style.highestPlace then positional d e
  else scientific d e

/-- The shortest decimal text of a finite float. -/
def text (negative : Bool) (magnitude : Nat) : String :=
  let body := if magnitude = 0 then "0.0" else style.magnitudeText magnitude
  if negative then "-" ++ body else body

end FloatStyle

/-- The shortest decimal text of the float. -/
def FiniteFloat.text (x : FiniteFloat) : String :=
  FloatStyle.double.text x.float.negative x.float.magnitude

/-- The shortest decimal text of a long float, if it is finite. -/
def Binary64.text? (x : Binary64) : Option String :=
  (FiniteFloat.of? x).map FiniteFloat.text

/-- The shortest decimal text of a short float, if it is finite.  A short float is written with
fewer digits than the same number in the long format. -/
def Binary32.text? (x : Binary32) : Option String :=
  if x.isFinite then some (FloatStyle.single.text x.negative x.magnitude) else none

end WireCall
