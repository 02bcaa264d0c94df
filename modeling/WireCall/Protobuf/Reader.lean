import WireCall.Protobuf.Wire
import WireCall.Message

namespace WireCall

/-!
# Reading Protocol Buffers

A message is split into its fields, which are then taken in order: of a scalar field the last one
counts, a repeated list or object field grows the one before, and a value field of another kind
replaces it.  A missing field has the zero of its type.  Unknown fields are skipped.  A known field
with a wire type that is not its own is refused, apart from the entries of an object, which are read
as delimited ones whatever their wire type says.

The two tags of a response and its code arrive in wider types than they have; they are cut to 32
bits and refused when they do not fit then.
-/

namespace Protobuf

/-! ### Values -/

/-- A value whose fields are still being read. -/
inductive Draft where
  | null
  | scalar (v : Value)
  | list (items : List Value)
  | object (entries : List (String × Value))

namespace Draft

/-- The value as read so far; of several entries with one key the last one counts. -/
def value : Draft → Value
  | null => .null
  | scalar v => v
  | list items => .list items
  | object entries => .ofEntries entries

/-- The draft with more items: a list grows, anything else is replaced. -/
def addItems (more : List Value) : Draft → Draft
  | list items => list (items ++ more)
  | _ => list more

/-- The draft with more entries: an object grows, anything else is replaced. -/
def addEntries (more : List (String × Value)) : Draft → Draft
  | object entries => object (entries ++ more)
  | _ => object more

end Draft

/-- The text with these bytes. -/
def textOf (bytes : Octets) : Except BodyFault String :=
  match Octets.text? bytes with
  | some s => .ok s
  | none => .error .notText

/-- The signed 64-bit integer that a zigzag varint stands for. -/
def signed (n : Nat) : WireInt := .ofInt64 (Int64.ofInt (unzigzag n))

mutual

/-- Reads the fields of a value onto a draft, while `budget` messages may still be opened. -/
def readValue (budget : Nat) (draft : Draft) (bytes : Octets) : Except BodyFault Draft := do
  let fields ← readFields (.upTo 7) budget bytes
  let step (draft : Draft) (field : Field) : Except BodyFault Draft :=
    match field.number, field.payload with
    | 1, .varint n => .ok (.scalar (.bool (n != 0)))
    | 2, .varint n => .ok (.scalar (.int (signed n)))
    | 3, .varint n => .ok (.scalar (.int (.ofUInt64 (UInt64.ofNat n))))
    | 4, .fixed64 n => .ok (.scalar (.ofBinary64 ⟨UInt64.ofNat n⟩))
    | 5, .delimited bytes => return .scalar (.str (← textOf bytes))
    | 6, .delimited bytes =>
      match budget with
      | 0 => .error .tooDeep
      | budget + 1 => return draft.addItems (← readList budget bytes)
    | 7, .delimited bytes =>
      match budget with
      | 0 => .error .tooDeep
      | budget + 1 => return draft.addEntries (← readObject budget bytes)
    | _, _ => .error .badWireType
  fields.foldlM step draft
termination_by structural budget

/-- Reads the items of a list. -/
def readList (budget : Nat) (bytes : Octets) : Except BodyFault (List Value) := do
  let fields ← readFields (.upTo 1) budget bytes
  let item (field : Field) : Except BodyFault Value :=
    match field.payload with
    | .delimited bytes =>
      match budget with
      | 0 => .error .tooDeep
      | budget + 1 => return (← readValue budget .null bytes).value
    | _ => .error .badWireType
  fields.mapM item
termination_by structural budget

/-- Reads the entries of an object. -/
def readObject (budget : Nat) (bytes : Octets) : Except BodyFault (List (String × Value)) := do
  -- An entry is known by its number alone.
  let fields ← readFields .delimited budget bytes
  let item (field : Field) : Except BodyFault (String × Value) :=
    match field.payload with
    | .delimited bytes =>
      match budget with
      | 0 => .error .tooDeep
      | budget + 1 => readEntry budget bytes
    | _ => .error .badWireType
  fields.mapM item
termination_by structural budget

/-- Reads the key and the value of an entry. -/
def readEntry (budget : Nat) (bytes : Octets) : Except BodyFault (String × Value) := do
  let fields ← readFields (.upTo 2) budget bytes
  let step (entry : String × Draft) (field : Field) : Except BodyFault (String × Draft) :=
    match field.number, field.payload with
    | 1, .delimited bytes => return (← textOf bytes, entry.2)
    | 2, .delimited bytes =>
      match budget with
      | 0 => .error .tooDeep
      | budget + 1 => return (entry.1, ← readValue budget entry.2 bytes)
    | _, _ => .error .badWireType
  let (name, draft) ← fields.foldlM step ("", .null)
  return (name, draft.value)
termination_by structural budget

end

/-! ### Messages -/

/-- The low 32 bits of a varint as an unsigned integer. -/
def low32 (n : Nat) : Nat := n % 0x100000000

/-- The low 32 bits of a varint as a signed integer. -/
def signedLow32 (n : Nat) : Int :=
  if low32 n < 0x80000000 then low32 n else (low32 n : Int) - 0x100000000

/-- The fields of a request read so far. -/
structure RequestDraft where
  requestId : UInt64 := 0
  service : String := ""
  method : String := ""
  args : List Value := []

/-- Takes one field of a request; the arguments are gathered in reverse order. -/
def RequestDraft.step (draft : RequestDraft) (field : Field) : Except BodyFault RequestDraft :=
  match field.number, field.payload with
  | 1, .varint n => .ok { draft with requestId := UInt64.ofNat n }
  | 2, .delimited bytes => return { draft with service := ← textOf bytes }
  | 3, .delimited bytes => return { draft with method := ← textOf bytes }
  | 4, .delimited bytes => do
    let arg ← readValue (nestingLimit - 1) .null bytes
    return { draft with args := arg.value :: draft.args }
  | _, _ => .error .badWireType

/-- Reads a request. -/
def decodeRequest (bytes : Octets) : Except BodyFault Request := do
  let fields ← readFields (.upTo 4) nestingLimit bytes
  let draft ← fields.foldlM RequestDraft.step {}
  return ⟨draft.requestId, draft.service, draft.method, draft.args.reverse⟩

/-- The fields of a response read so far. -/
structure ResponseDraft where
  requestId : UInt64 := 0
  code : Int := 0
  text : String := ""
  compression : Nat := 0
  serialization : Nat := 0
  data : Draft := .null

/-- Takes one field of a response. -/
def ResponseDraft.step (draft : ResponseDraft) (field : Field) :
    Except BodyFault ResponseDraft :=
  match field.number, field.payload with
  | 1, .varint n => .ok { draft with requestId := UInt64.ofNat n }
  | 2, .varint n => .ok { draft with code := signedLow32 n }
  | 3, .delimited bytes => return { draft with text := ← textOf bytes }
  | 4, .varint n => .ok { draft with compression := low32 n }
  | 5, .varint n => .ok { draft with serialization := low32 n }
  | 6, .delimited bytes => return { draft with
      data := ← readValue (nestingLimit - 1) draft.data bytes }
  | _, _ => .error .badWireType

/-- Reads the fields of a response. -/
def readResponse (bytes : Octets) : Except BodyFault ResponseDraft := do
  let fields ← readFields (.upTo 6) nestingLimit bytes
  fields.foldlM ResponseDraft.step {}

/-- The response, when its code and its tags fit their types. -/
def ResponseDraft.finish (draft : ResponseDraft) : Except CodecFault Response :=
  if draft.code < IntKind.i16.min ∨ IntKind.i16.max < draft.code then
    .error (.outOfRange "code" draft.code)
  else if 255 < draft.compression then .error (.outOfRange "compress_type" draft.compression)
  else if 255 < draft.serialization then .error (.outOfRange "serialize_type" draft.serialization)
  else .ok ⟨draft.requestId, Int16.ofInt draft.code, draft.text, UInt8.ofNat draft.compression,
    UInt8.ofNat draft.serialization, draft.data.value⟩

/-- Reads a response. -/
def decodeResponse (bytes : Octets) : Except CodecFault Response := do
  let draft ← (readResponse bytes).mapError .malformed
  draft.finish

/-- Reads the message of a frame of the given kind. -/
def decode (kind : FrameKind) (bytes : Octets) : Except CodecFault Message :=
  match kind with
  | .request => ((decodeRequest bytes).map .request).mapError .malformed
  | .response => (decodeResponse bytes).map .response
  | .ping | .pong => .error (.noShape kind)

end Protobuf
end WireCall
