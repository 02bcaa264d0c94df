import WireCall.Protobuf.Wire
import WireCall.Message

namespace WireCall

/-!
# Writing Protocol Buffers

Messages follow a fixed schema.  A value is a message with one field that tells its kind: 1 a truth
value, 2 an integer in the signed range, 3 an integer above it, 4 a float, 5 a text, 6 a list,
7 an object; null has none of them.  A list is a message with its items in field 1, an object one
with an entry per member in field 1, and an entry has the key in field 1 and the value in field 2.

| field | request | response |
|---|---|---|
| 1 | id | id |
| 2 | service | code |
| 3 | method | text |
| 4 | arguments | compression tag |
| 5 | | serialization tag |
| 6 | | data |

A field of a scalar type is absent when it holds zero or the empty text, and so are the key and
the value of an entry when they are the empty text and null.  The kind of a value and the data of a
response are always there.
-/

namespace Protobuf

/-- The kind and content of an integer. -/
def integer (n : Int) : Octets :=
  if n < 0x8000000000000000 then key 2 .varint ++ varint (zigzag n)
  else key 3 .varint ++ varint n.toNat

/-- An entry of an object whose value has the given form; null has the empty one. -/
def entry (name : String) (value : Octets) : Octets :=
  textField 1 name ++ if value.isEmpty then [] else delimitedField 2 value

mutual

/-- The form of a value. -/
def encodeValue : Value → Octets
  | .null => []
  | .bool b => key 1 .varint ++ [if b then 1 else 0]
  | .int n => integer n.val
  | .float x => key 4 .fixed64 ++ Octets.littleEndian 8 x.float.bits.toNat
  | .str s => delimitedField 5 (Octets.ofText s)
  | .list items => delimitedField 6 (writeItems 1 #[] items).toList
  | .object members => delimitedField 7 (writeMembers #[] members).toList

/-- Appends values, each in a field of the given number. -/
def writeItems (number : Nat) (out : Array UInt8) : List Value → Array UInt8
  | [] => out
  | v :: vs => writeItems number (out ++ delimitedField number (encodeValue v)) vs

/-- Appends the members of an object, each in a field 1. -/
def writeMembers (out : Array UInt8) : List (String × Value) → Array UInt8
  | [] => out
  | (k, v) :: ms => writeMembers (out ++ delimitedField 1 (entry k (encodeValue v))) ms

end

/-- The form of a request. -/
def encodeRequest (r : Request) : Octets :=
  let head := varintField 1 r.requestId.toNat ++ textField 2 r.service ++ textField 3 r.method
  (writeItems 4 head.toArray r.args).toList

/-- The form of a response.  A negative code is written as its two's complement in 64 bits. -/
def encodeResponse (r : Response) : Octets :=
  varintField 1 r.requestId.toNat ++ varintField 2 (r.code.toInt % 0x10000000000000000).toNat ++
    textField 3 r.text ++ varintField 4 r.compression.toNat ++
    varintField 5 r.serialization.toNat ++ delimitedField 6 (encodeValue r.data)

/-- The form of a message. -/
def encode : Message → Octets
  | .request r => encodeRequest r
  | .response r => encodeResponse r

/-! ### Appending -/

/-- The items of a list are appended as one delimited field each. -/
theorem toList_writeItems (number : Nat) (out : Array UInt8) (vs : List Value) :
    (writeItems number out vs).toList =
      out.toList ++ vs.flatMap fun v => delimitedField number (encodeValue v) := by
  induction vs generalizing out with
  | nil => simp [writeItems]
  | cons v vs ih => simp [writeItems, ih]

/-- The members of a mapping are appended as one delimited entry each. -/
theorem toList_writeMembers (out : Array UInt8) (ms : List (String × Value)) :
    (writeMembers out ms).toList =
      out.toList ++ ms.flatMap fun m => delimitedField 1 (entry m.1 (encodeValue m.2)) := by
  induction ms generalizing out with
  | nil => simp [writeMembers]
  | cons m ms ih => simp [writeMembers, ih]

end Protobuf
end WireCall
