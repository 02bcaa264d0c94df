import WireCall.Octets

namespace WireCall

/-!
# Durations

A duration is a number of nanoseconds whose whole seconds fit 64 bits.
-/

/-- The nanoseconds of a second. -/
def nanosPerSecond : Nat := 1000000000

/-- A span of time in nanoseconds. -/
structure Duration where
  nanos : Nat
  bound : nanos < 18446744073709551616000000000
deriving DecidableEq, Repr

namespace Duration

/-- No time at all. -/
def zero : Duration := ⟨0, by decide⟩

instance : Inhabited Duration := ⟨zero⟩

/-- Whole seconds. -/
def ofSeconds (n : UInt32) : Duration :=
  ⟨n.toNat * nanosPerSecond, by have := n.toNat_lt; simp only [nanosPerSecond]; omega⟩

/-- Milliseconds, a 64-bit number of them. -/
def ofMilliseconds (n : UInt64) : Duration :=
  ⟨n.toNat * 1000000, by have := n.toNat_lt; omega⟩

/-- Seconds and nanoseconds; a second's worth of the latter carries over, and nothing comes of it
when the seconds then exceed 64 bits. -/
def ofParts? (seconds nanos : Nat) : Option Duration :=
  let total := seconds * nanosPerSecond + nanos
  if h : total < 18446744073709551616000000000 then some ⟨total, h⟩ else none

/-- The whole seconds. -/
def seconds (d : Duration) : Nat := d.nanos / nanosPerSecond

/-- The nanoseconds beyond the whole seconds. -/
def subsecondNanos (d : Duration) : Nat := d.nanos % nanosPerSecond

/-- The whole milliseconds. -/
def milliseconds (d : Duration) : Nat := d.nanos / 1000000

/-- Whether the duration is zero. -/
def isZero (d : Duration) : Bool := d.nanos == 0

/-! ### Short text -/

/-- `n` with exactly `width` decimal digits. -/
def padded (width n : Nat) : List Char :=
  let digits := Nat.toDigits 10 n
  List.replicate (width - digits.length) '0' ++ digits

/-- `nanos` in a unit of `10 ^ places` nanoseconds, without zeros at the end of the fraction. -/
def inUnit (nanos places : Nat) (name : String) : String :=
  -- The digits after the point are those of the remainder, written at full width first.
  let whole := nanos / Nat.pow 10 places
  let fraction := ((padded places (nanos % Nat.pow 10 places)).reverse.dropWhile (· == '0')).reverse
  let digits := toString whole
  if places = 0 ∨ fraction.isEmpty then digits ++ name
  else digits ++ "." ++ String.ofList fraction ++ name

/-- The duration in the largest unit of which it has at least one. -/
def text (d : Duration) : String :=
  if 1000000000 ≤ d.nanos then inUnit d.nanos 9 "s"
  else if 1000000 ≤ d.nanos then inUnit d.nanos 6 "ms"
  else if 1000 ≤ d.nanos then inUnit d.nanos 3 "µs"
  else inUnit d.nanos 0 "ns"

end Duration
end WireCall
