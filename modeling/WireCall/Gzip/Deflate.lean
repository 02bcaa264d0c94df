import WireCall.Gzip.Symbols

namespace WireCall

/-!
# Writing compressed blocks

The data is cut into literals and matches (`Deflate.tokenize`) and written as one block in the
fixed code.  A match is only proposed by a table of the places where three bytes occurred last; its
length is counted by comparing the bytes themselves, so the table need not be right.
-/

namespace Deflate

open Gzip

/-! ### Tokens -/

/-- The number of places, at most `fuel`, at which the bytes from `p` on and the bytes from `i` on
agree. -/
def agreement (data : Array UInt8) (p i : Nat) : Nat → Nat
  | 0 => 0
  | fuel + 1 =>
    if i < data.size ∧ data.getD p 0 = data.getD i 0 then agreement data (p + 1) (i + 1) fuel + 1
    else 0

/-- The place in the table for the three bytes at `i`. -/
def slot (data : Array UInt8) (i : Nat) : Nat :=
  (((data.getD i 0).toNat * 64 + (data.getD (i + 1) 0).toNat) * 8 +
    (data.getD (i + 2) 0).toNat) % 32768

/-- A match at `i` with the bytes at an earlier place `p`: its length, if there is one. -/
def lengthAt? (data : Array UInt8) (p i : Nat) : Option Nat :=
  if p < i ∧ i - p ≤ 32768 then
    let length := agreement data p i 258
    if 3 ≤ length then some length else none
  else none

/-- Cuts the data from `i` on, the tokens before being in reverse order.  The table holds, for
three bytes, the place after the one where they were seen last. -/
def tokenizeFrom (data : Array UInt8) (i : Nat) (seen : Array Nat) (got : List Token) :
    List Token :=
  if h : i < data.size then
    -- Zero says that the three bytes have not been seen; the bytes at the start are then proposed.
    let candidate := seen.getD (slot data i) 0
    let seen := seen.setIfInBounds (slot data i) (i + 1)
    match lengthAt? data (candidate - 1) i with
    | some (length + 1) =>
      tokenizeFrom data (i + length + 1) seen (.copy (length + 1) (i - (candidate - 1)) :: got)
    | _ => tokenizeFrom data (i + 1) seen (.literal data[i] :: got)
  else got.reverse
termination_by data.size - i

/-- Cuts the data into tokens. -/
def tokenize (data : Array UInt8) : List Token :=
  tokenizeFrom data 0 (Array.replicate 32768 0) []

/-! ### Bits -/

/-- The bits of a token in the fixed code. -/
def tokenBits : Token → List Bool
  | .literal b => fixedWord b.toNat
  | .copy length distance =>
    let (lengthIndex, leastLength, lengthBits) := rangeOf lengthRanges length
    let (distanceIndex, leastDistance, distanceBits) := rangeOf distanceRanges distance
    fixedWord (257 + lengthIndex) ++ bitsOfNat lengthBits (length - leastLength) ++
      bitsOfCode 5 distanceIndex ++ bitsOfNat distanceBits (distance - leastDistance)

/-- The head of a last block in the fixed code. -/
def blockHead : List Bool := [true, true, false]

/-- The data as one block. -/
def ofOctets (data : Octets) : Octets :=
  let sink := (tokenize data.toArray).foldl (fun sink token => sink.pushAll (tokenBits token))
    (({} : BitSink).pushAll blockHead)
  (sink.pushAll (fixedWord endOfBlock)).finish

end Deflate
end WireCall
