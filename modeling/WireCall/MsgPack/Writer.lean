import WireCall.Octets
import WireCall.Message

namespace WireCall

/-!
# Writing MessagePack

Every integer takes its shortest form, a non-negative one always as unsigned; floats take nine
bytes; texts, arrays and maps take their shortest header.  A message is a map from its field names,
in a fixed order.  The bytes are appended to an output that grows at its end.

Main statement: appending to an output leaves what is there alone (`toList_writeValue`).
-/

namespace MsgPack

/-- The unsigned form of a natural below `2^64`. -/
def natural (n : Nat) : Octets :=
  if n < 0x80 then [UInt8.ofNat n]
  else if n < 0x100 then 0xcc :: Octets.bigEndian 1 n
  else if n < 0x10000 then 0xcd :: Octets.bigEndian 2 n
  else if n < 0x100000000 then 0xce :: Octets.bigEndian 4 n
  else 0xcf :: Octets.bigEndian 8 n

/-- The two's complement of a negative integer in `width` bytes. -/
def complement (width : Nat) (n : Int) : Octets :=
  Octets.bigEndian width (n + Nat.pow 256 width).toNat

/-- The form of an integer. -/
def integer (n : Int) : Octets :=
  if 0 ≤ n then natural n.toNat
  else if -0x20 ≤ n then complement 1 n
  else if -0x80 ≤ n then 0xd0 :: complement 1 n
  else if -0x8000 ≤ n then 0xd1 :: complement 2 n
  else if -0x80000000 ≤ n then 0xd2 :: complement 4 n
  else 0xd3 :: complement 8 n

/-- The header of a text of `n` bytes. -/
def textHeader (n : Nat) : Octets :=
  if n < 32 then [0xa0 + UInt8.ofNat n]
  else if n < 0x100 then 0xd9 :: Octets.bigEndian 1 n
  else if n < 0x10000 then 0xda :: Octets.bigEndian 2 n
  else 0xdb :: Octets.bigEndian 4 n

/-- The header of an array of `n` elements. -/
def arrayHeader (n : Nat) : Octets :=
  if n < 16 then [0x90 + UInt8.ofNat n]
  else if n < 0x10000 then 0xdc :: Octets.bigEndian 2 n
  else 0xdd :: Octets.bigEndian 4 n

/-- The header of a map of `n` entries. -/
def mapHeader (n : Nat) : Octets :=
  if n < 16 then [0x80 + UInt8.ofNat n]
  else if n < 0x10000 then 0xde :: Octets.bigEndian 2 n
  else 0xdf :: Octets.bigEndian 4 n

/-- The form of a text. -/
def text (s : String) : Octets :=
  let bytes := Octets.ofText s
  textHeader bytes.length ++ bytes

/-- The form of a float. -/
def double (x : Binary64) : Octets := 0xcb :: Octets.bigEndian 8 x.bits.toNat

mutual

/-- Appends a value. -/
def writeValue (out : Array UInt8) : Value → Array UInt8
  | .null => out.push 0xc0
  | .bool b => out.push (if b then 0xc3 else 0xc2)
  | .int n => out ++ integer n.val
  | .float x => out ++ double x.float
  | .str s => out ++ text s
  | .list items => writeItems (out ++ arrayHeader items.length) items
  | .object members => writeMembers (out ++ mapHeader members.length) members

/-- Appends values one after the other. -/
def writeItems (out : Array UInt8) : List Value → Array UInt8
  | [] => out
  | v :: vs => writeItems (writeValue out v) vs

/-- Appends the members of an object, each as its key and its value. -/
def writeMembers (out : Array UInt8) : List (String × Value) → Array UInt8
  | [] => out
  | (k, v) :: ms => writeMembers (writeValue (out ++ text k) v) ms

end

/-- The form of a value. -/
def encodeValue (v : Value) : Octets := (writeValue #[] v).toList

/-- The form of a request. -/
def encodeRequest (r : Request) : Octets :=
  let head := mapHeader 4 ++ text "request_id" ++ natural r.requestId.toNat ++
    text "service_name" ++ text r.service ++ text "method_name" ++ text r.method ++
    text "args" ++ arrayHeader r.args.length
  (writeItems head.toArray r.args).toList

/-- The form of a response. -/
def encodeResponse (r : Response) : Octets :=
  let head := mapHeader 6 ++ text "request_id" ++ natural r.requestId.toNat ++
    text "code" ++ integer r.code.toInt ++ text "msg" ++ text r.text ++
    text "compress_type" ++ natural r.compression.toNat ++
    text "serialize_type" ++ natural r.serialization.toNat ++ text "data"
  (writeValue head.toArray r.data).toList

/-- The form of a message. -/
def encode : Message → Octets
  | .request r => encodeRequest r
  | .response r => encodeResponse r

/-! ### Appending -/

mutual

/-- A value is appended: its bytes do not depend on what was written before. -/
theorem toList_writeValue (out : Array UInt8) (v : Value) :
    (writeValue out v).toList = out.toList ++ (writeValue #[] v).toList := by
  cases v with
  | list items =>
    rw [writeValue, toList_writeItems, writeValue, toList_writeItems (#[] ++ _)]
    simp
  | object members =>
    rw [writeValue, toList_writeMembers, writeValue, toList_writeMembers (#[] ++ _)]
    simp
  | _ => simp [writeValue]

/-- The items of an array are appended one behind the other, whatever was written before. -/
theorem toList_writeItems (out : Array UInt8) (vs : List Value) :
    (writeItems out vs).toList = out.toList ++ (writeItems #[] vs).toList := by
  cases vs with
  | nil => simp [writeItems]
  | cons v vs =>
    rw [writeItems, toList_writeItems, toList_writeValue, writeItems,
      toList_writeItems (writeValue #[] v)]
    simp

theorem toList_writeMembers (out : Array UInt8) (ms : List (String × Value)) :
    (writeMembers out ms).toList = out.toList ++ (writeMembers #[] ms).toList := by
  cases ms with
  | nil => simp [writeMembers]
  | cons m ms =>
    obtain ⟨k, v⟩ := m
    rw [writeMembers, toList_writeMembers, toList_writeValue, writeMembers,
      toList_writeMembers (writeValue _ v), toList_writeValue (#[] ++ _)]
    simp

end

end MsgPack
end WireCall
