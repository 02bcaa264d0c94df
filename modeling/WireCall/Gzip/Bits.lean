import WireCall.Fault
import WireCall.Octets

namespace WireCall

/-!
# Bits of a byte stream

Compressed blocks are read and written bit by bit, from the lowest bit of each byte to the highest.
`BitSource` is what is left to read and `BitSink` what has been written; `toBits` is the view of
either as a list of bits.  A reader that cannot go on says why, and where it stopped.

Main statements: reading a bit takes the head of the view (`BitSource.toBits_next?`), and writing
one extends it (`BitSink.toBits_push`).
-/

/-- The bits of a byte, the lowest first. -/
def bitsOfByte (b : UInt8) : List Bool :=
  [b &&& 0x01 != 0, b &&& 0x02 != 0, b &&& 0x04 != 0, b &&& 0x08 != 0,
    b &&& 0x10 != 0, b &&& 0x20 != 0, b &&& 0x40 != 0, b &&& 0x80 != 0]

/-- The number whose bits are given, the lowest first. -/
def natOfBits : List Bool → Nat
  | [] => 0
  | b :: bs => b.toNat + 2 * natOfBits bs

/-- The `width` low bits of a number, the lowest first. -/
def bitsOfNat : Nat → Nat → List Bool
  | 0, _ => []
  | width + 1, n => (n % 2 == 1) :: bitsOfNat width (n / 2)

/-- The `width` low bits of a number, the highest first. -/
def bitsOfCode (width n : Nat) : List Bool := (bitsOfNat width n).reverse

/-! ### Reading -/

/-- The bits of a byte that are still unread, the bytes after it, and the number of bytes that have
been taken up. -/
structure BitSource where
  pending : List Bool
  rest : Octets
  taken : Nat
deriving DecidableEq, Repr

/-- Why and where reading stopped. -/
structure Halt where
  cause : GzipFault
  source : BitSource

namespace BitSource

/-- All bits of the bytes, which come after `taken` others. -/
def ofOctets (taken : Nat) (bytes : Octets) : BitSource := ⟨[], bytes, taken⟩

/-- The unread bits. -/
def toBits (s : BitSource) : List Bool := s.pending ++ s.rest.flatMap bitsOfByte

/-- The next bit. -/
def next? : BitSource → Option (Bool × BitSource)
  | ⟨b :: pending, rest, taken⟩ => some (b, ⟨pending, rest, taken⟩)
  | ⟨[], b :: rest, taken⟩ =>
    match bitsOfByte b with
    | bit :: pending => some (bit, ⟨pending, rest, taken + 1⟩)
    | [] => none
  | ⟨[], [], _⟩ => none

/-- The next `width` bits as a number, the lowest first. -/
def number : Nat → BitSource → Except Halt (Nat × BitSource)
  | 0, s => .ok (0, s)
  | width + 1, s =>
    match s.next? with
    | none => .error ⟨.truncated, s⟩
    | some (b, s) => do
      let (n, s) ← number width s
      return (b.toNat + 2 * n, s)

/-- Drops the unread bits of a byte that has been read in part. -/
def align (s : BitSource) : BitSource := ⟨[], s.rest, s.taken⟩

/-- The next whole byte. -/
def byte : BitSource → Except Halt (UInt8 × BitSource)
  | ⟨_, b :: rest, taken⟩ => .ok (b, ⟨[], rest, taken + 1⟩)
  | ⟨pending, [], taken⟩ => .error ⟨.truncated, ⟨pending, [], taken⟩⟩

/-- Reading one bit of a source is taking the head of its list of bits. -/
theorem toBits_next? (s : BitSource) :
    s.next?.map (fun r => r.1 :: r.2.toBits) = match s.toBits with
      | [] => none
      | b :: bs => some (b :: bs) := by
  obtain ⟨_ | ⟨b, pending⟩, _ | ⟨c, rest⟩, taken⟩ := s <;> simp [next?, toBits, bitsOfByte]

end BitSource

/-! ### Writing -/

/-- The bytes written in full, and the bits of the one that is being written, the latest first. -/
structure BitSink where
  bytes : Array UInt8 := #[]
  pending : List Bool := []

namespace BitSink

/-- The bits written. -/
def toBits (s : BitSink) : List Bool := s.bytes.toList.flatMap bitsOfByte ++ s.pending.reverse

/-- Writes a bit. -/
def push (s : BitSink) (b : Bool) : BitSink :=
  if s.pending.length = 7 then
    ⟨s.bytes.push (UInt8.ofNat (natOfBits (b :: s.pending).reverse)), []⟩
  else ⟨s.bytes, b :: s.pending⟩

/-- Writes bits. -/
def pushAll (s : BitSink) (bits : List Bool) : BitSink := bits.foldl push s

/-- The bytes, the last one filled up with zeros. -/
def finish (s : BitSink) : Octets :=
  if s.pending.isEmpty then s.bytes.toList
  else (s.bytes.push (UInt8.ofNat (natOfBits s.pending.reverse))).toList

/-- Eight bits packed into a byte come out of it in the same order. -/
theorem bitsOfByte_natOfBits :
    ∀ a b c d e f g h : Bool,
      bitsOfByte (UInt8.ofNat (natOfBits [a, b, c, d, e, f, g, h])) = [a, b, c, d, e, f, g, h] := by
  decide

/-- A bit pushed into a sink stands behind the bits written before. -/
theorem toBits_push (s : BitSink) (b : Bool) : (s.push b).toBits = s.toBits ++ [b] := by
  unfold push
  split
  · rename_i full
    obtain ⟨bytes, pending⟩ := s
    match pending, full with
    | [g, f, e, d, c, b', a], _ => simp [toBits, bitsOfByte_natOfBits]
  · simp [toBits]

end BitSink
end WireCall
