import WireCall.Octets
import WireCall.Fault

namespace WireCall

/-!
# The wire layer of Protocol Buffers

A message is a sequence of fields, each a key (a field number and a wire type) and a payload.
Integers are written in groups of seven bits, the lowest first (`varint`); signed ones are folded
onto the naturals first (`zigzag`).  `readFields` splits a message into the fields that its schema
has and skips the others, groups included.

Messages may be nested to the depth `nestingLimit`.  The budget of messages and groups that may
still be opened is an argument of every reader.

Main statements: a varint and a zigzag integer read back (`readVarint_varint`,
`unzigzag_zigzag`).
-/

namespace Protobuf

/-- The number of messages and groups that may be open at once below the outermost one. -/
def nestingLimit : Nat := 100

/-! ### Integers -/

/-- At most `groups` groups of seven bits of `n`, the lowest first, the last one unmarked. -/
def varintGroups : Nat → Nat → Octets
  | 0, _ => []
  | groups + 1, n =>
    if n < 128 then [UInt8.ofNat n]
    else (128 + UInt8.ofNat (n % 128)) :: varintGroups groups (n / 128)

/-- A natural below `2^64`; ten groups of seven bits hold every one. -/
def varint (n : Nat) : Octets := varintGroups 10 n

/-- Reads at most `groups` groups.  The tenth group has a single bit left. -/
def readGroups : Nat → Octets → Except BodyFault (Nat × Octets)
  | 0, _ => .error .varintTooLong
  | _ + 1, [] => .error .truncated
  | groups + 1, b :: rest =>
    if b < 128 then
      if groups = 0 ∧ 2 ≤ b then .error .varintTooLong else .ok (b.toNat, rest)
    else
      match readGroups groups rest with
      | .ok (n, rest) => .ok (b.toNat - 128 + 128 * n, rest)
      | .error cause => .error cause

/-- Reads a natural below `2^64`. -/
def readVarint (bytes : Octets) : Except BodyFault (Nat × Octets) := readGroups 10 bytes

/-- Folds the integers onto the naturals: 0, -1, 1, -2, … -/
def zigzag (n : Int) : Nat := if 0 ≤ n then 2 * n.toNat else 2 * (-n).toNat - 1

/-- Unfolds the naturals onto the integers. -/
def unzigzag (n : Nat) : Int := if n % 2 = 0 then n / 2 else -((n / 2 : Nat) : Int) - 1

/-- The groups of seven bits of a number are read back, with any bytes after them. -/
theorem readGroups_varintGroups (groups n : Nat) (rest : Octets)
    (small : n < 2 * Nat.pow 128 groups) (enough : groups < 10) :
    readGroups (groups + 1) (varintGroups (groups + 1) n ++ rest) = .ok (n, rest) := by
  induction groups generalizing n with
  | zero =>
    have one : Nat.pow 128 0 = 1 := rfl
    have low : n < 128 := by omega
    have byte : (UInt8.ofNat n).toNat = n := by simp; omega
    have unmarked : UInt8.ofNat n < 128 := by
      rw [UInt8.lt_iff_toNat_lt, byte]; exact low
    have single : ¬ 2 ≤ UInt8.ofNat n := by
      rw [UInt8.le_iff_toNat_le, byte]; simpa using by omega
    simp [varintGroups, readGroups, low, unmarked, single, byte]
  | succ groups ih =>
    rw [varintGroups]
    split
    · rename_i low
      have byte : (UInt8.ofNat n).toNat = n := by simp; omega
      have unmarked : UInt8.ofNat n < 128 := by
        rw [UInt8.lt_iff_toNat_lt, byte]; exact low
      simp [readGroups, unmarked, byte]
    · rename_i high
      -- The lowest group is marked, and the others hold `n / 128`.
      have byte : (128 + UInt8.ofNat (n % 128)).toNat = 128 + n % 128 := by
        rw [UInt8.toNat_add]; simp; omega
      have marked : ¬ (128 + UInt8.ofNat (n % 128) < 128) := by
        rw [UInt8.lt_iff_toNat_lt, byte]; simp
      have smaller : n / 128 < 2 * Nat.pow 128 groups := by
        have step : Nat.pow 128 (groups + 1) = Nat.pow 128 groups * 128 := rfl
        rw [Nat.div_lt_iff_lt_mul (by decide)]
        omega
      rw [List.cons_append, readGroups, if_neg marked, ih _ smaller (by omega), byte]
      simp only
      congr 2
      omega

/-- A 64-bit number is read back from its varint, with any bytes after it. -/
theorem readVarint_varint {n : Nat} (h : n < 0x10000000000000000) (rest : Octets) :
    readVarint (varint n ++ rest) = .ok (n, rest) :=
  readGroups_varintGroups 9 n rest (by simpa using h) (by decide)

/-- The folding of the integers into the naturals loses nothing. -/
theorem unzigzag_zigzag (n : Int) : unzigzag (zigzag n) = n := by
  unfold unzigzag zigzag
  split <;> split <;> omega

/-! ### Keys -/

/-- How the payload of a field is delimited. -/
inductive WireType where
  | varint | fixed64 | delimited | groupStart | groupEnd | fixed32
deriving DecidableEq, Repr

/-- The number for a wire type. -/
def WireType.number : WireType → Nat
  | varint => 0
  | fixed64 => 1
  | delimited => 2
  | groupStart => 3
  | groupEnd => 4
  | fixed32 => 5

/-- The wire type for a number. -/
def WireType.ofNumber? : Nat → Option WireType
  | 0 => some varint
  | 1 => some fixed64
  | 2 => some delimited
  | 3 => some groupStart
  | 4 => some groupEnd
  | 5 => some fixed32
  | _ => none

/-- A field number with the wire type of the payload that follows. -/
structure Key where
  number : Nat
  wireType : WireType
deriving DecidableEq, Repr

/-- The key as bytes. -/
def key (number : Nat) (wireType : WireType) : Octets := varint (8 * number + wireType.number)

/-- Reads a key: a 32-bit number whose low three bits are the wire type. -/
def readKey (bytes : Octets) : Except BodyFault (Key × Octets) := do
  let (n, rest) ← readVarint bytes
  if 0x100000000 ≤ n then .error .badKey
  else
    match WireType.ofNumber? (n % 8) with
    | none => .error .badWireType
    | some wireType => if n / 8 = 0 then .error .badKey else return (⟨n / 8, wireType⟩, rest)

/-! ### Payloads -/

/-- The payload of a field. -/
inductive Payload where
  | varint (n : Nat)
  | fixed64 (n : Nat)
  | delimited (bytes : Octets)
  | fixed32 (n : Nat)
deriving DecidableEq, Repr

/-- The next `count` bytes. -/
def readBytes (count : Nat) (bytes : Octets) : Except BodyFault (Octets × Octets) :=
  match Octets.split? count bytes with
  | some cut => .ok cut
  | none => .error .truncated

/-- Reads a payload that is not a group. -/
def readPayload (wireType : WireType) (bytes : Octets) : Except BodyFault (Payload × Octets) :=
  match wireType with
  | .varint => do
    let (n, rest) ← readVarint bytes
    return (.varint n, rest)
  | .fixed64 => do
    let (front, rest) ← readBytes 8 bytes
    return (.fixed64 (Octets.ofLittleEndian front), rest)
  | .delimited => do
    let (count, rest) ← readVarint bytes
    let (front, rest) ← readBytes count rest
    return (.delimited front, rest)
  | .fixed32 => do
    let (front, rest) ← readBytes 4 bytes
    return (.fixed32 (Octets.ofLittleEndian front), rest)
  | .groupStart | .groupEnd => .error .badWireType

/-- Skips the fields of a group up to its end. -/
def skipGroup (skip : Key → Octets → Except BodyFault Octets) (number : Nat) :
    Nat → Octets → Except BodyFault Octets
  | 0, _ => .error .truncated
  | fuel + 1, bytes => do
    let (key, rest) ← readKey bytes
    if key.wireType = .groupEnd then
      if key.number = number then return rest else .error .unmatchedGroup
    else
      let rest ← skip key rest
      skipGroup skip number fuel rest

/-- Skips the payload of a field. -/
def skipPayload : Nat → Key → Octets → Except BodyFault Octets
  | 0, _, _ => .error .tooDeep
  | budget + 1, key, bytes =>
    match key.wireType with
    -- Each field of a group takes a byte at least, so the number of bytes bounds their number.
    | .groupStart => skipGroup (skipPayload budget) key.number (bytes.length + 1) bytes
    | .groupEnd => .error .unmatchedGroup
    | wireType => do
      let (_, rest) ← readPayload wireType bytes
      return rest

/-! ### Fields -/

/-- A field of a message. -/
structure Field where
  number : Nat
  payload : Payload
deriving DecidableEq, Repr

/-- How the payload that follows a key is read; there is no answer for fields that are not part of
the message. -/
abbrev Schema := Key → Option WireType

namespace Schema

/-- The fields from 1 to `last`, whose keys say how their payloads are delimited. -/
def upTo (last : Nat) : Schema := fun key =>
  if key.number ≤ last then some key.wireType else none

/-- A single field, numbered 1, with a length in front of its payload whatever its key says. -/
def delimited : Schema := fun key => if key.number = 1 then some .delimited else none

end Schema

/-- Reads the fields that the schema has, the ones read before being in reverse order, in at most
`fuel` steps. -/
def readFieldsOnto (schema : Schema) (budget : Nat) :
    Nat → List Field → Octets → Except BodyFault (List Field)
  | _, got, [] => .ok got.reverse
  | 0, _, _ => .error .truncated
  | fuel + 1, got, bytes => do
    let (key, rest) ← readKey bytes
    match schema key with
    | some wireType =>
      let (payload, rest) ← readPayload wireType rest
      readFieldsOnto schema budget fuel (⟨key.number, payload⟩ :: got) rest
    | none =>
      let rest ← skipPayload budget key rest
      readFieldsOnto schema budget fuel got rest

/-- The fields of a message that the schema has, in order. -/
def readFields (schema : Schema) (budget : Nat) (bytes : Octets) :
    Except BodyFault (List Field) :=
  readFieldsOnto schema budget bytes.length [] bytes

/-- A field with its length in front. -/
def delimitedField (number : Nat) (bytes : Octets) : Octets :=
  key number .delimited ++ varint bytes.length ++ bytes

/-- An integer field, absent when it is zero. -/
def varintField (number n : Nat) : Octets :=
  if n = 0 then [] else key number .varint ++ varint n

/-- A text field, absent when it is empty. -/
def textField (number : Nat) (s : String) : Octets :=
  if s.isEmpty then [] else delimitedField number (Octets.ofText s)

end Protobuf
end WireCall
