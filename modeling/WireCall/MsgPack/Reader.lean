import WireCall.Octets
import WireCall.Message
import WireCall.Fault

namespace WireCall

/-!
# Reading MessagePack

Reading is more liberal than writing: an integer of any width fits any integer field that can hold
it, a four-byte float becomes an eight-byte one, a message may be a map from names or field numbers
or an array in field order, and unknown entries of a map are skipped.  A reader returns what it
left unread, so bytes after a value do not matter to it.

Containers may be nested to the depth `nestingLimit`; an extension counts as a container.  The
budget of containers that may still be opened is an argument, and reading is by recursion on it.
-/

namespace MsgPack

/-- The number of arrays and maps that may be open at once. -/
def nestingLimit : Nat := 1023

/-! ### The head of an item -/

/-- What the first bytes of an item say: a whole scalar, or the size of a container. -/
inductive Head where
  | nil
  | bool (b : Bool)
  | unsigned (n : UInt64)
  | signed (n : Int64)
  | single (x : Binary32)
  | double (x : Binary64)
  | text (bytes : Octets)
  | binary (bytes : Octets)
  | array (count : Nat)
  | map (count : Nat)
  | extension
deriving DecidableEq, Repr

/-- The next `width` bytes as a natural. -/
def readNatural (width : Nat) (bytes : Octets) : Except BodyFault (Nat × Octets) :=
  match Octets.split? width bytes with
  | some (front, rest) => .ok (Octets.ofBigEndian front, rest)
  | none => .error .truncated

/-- The next `count` bytes. -/
def readBlob (count : Nat) (bytes : Octets) : Except BodyFault (Octets × Octets) :=
  match Octets.split? count bytes with
  | some cut => .ok cut
  | none => .error .truncated

/-- A natural of `width` bytes as an unsigned integer. -/
def readUnsigned (width : Nat) (bytes : Octets) : Except BodyFault (Head × Octets) := do
  let (n, rest) ← readNatural width bytes
  return (.unsigned (UInt64.ofNat n), rest)

/-- A natural of `width` bytes as a signed integer in two's complement. -/
def readSigned (width : Nat) (bytes : Octets) : Except BodyFault (Head × Octets) := do
  let (n, rest) ← readNatural width bytes
  let signed : Int := if 2 * n < Nat.pow 256 width then n else n - Nat.pow 256 width
  return (.signed (Int64.ofInt signed), rest)

/-- A length of `width` bytes and as many bytes after it. -/
def readSized (width : Nat) (make : Octets → Head) (bytes : Octets) :
    Except BodyFault (Head × Octets) := do
  let (n, rest) ← readNatural width bytes
  let (blob, rest) ← readBlob n rest
  return (make blob, rest)

/-- An extension with `count` bytes of data after its type byte. -/
def readExtension (count : Nat) (bytes : Octets) : Except BodyFault (Head × Octets) := do
  let (_, rest) ← readBlob (1 + count) bytes
  return (.extension, rest)

/-- The size of a container in `width` bytes. -/
def readCount (width : Nat) (make : Nat → Head) (bytes : Octets) :
    Except BodyFault (Head × Octets) := do
  let (n, rest) ← readNatural width bytes
  return (make n, rest)

/-- Reads the head of an item. -/
def readHead : Octets → Except BodyFault (Head × Octets)
  | [] => .error .truncated
  | marker :: rest =>
    -- Small integers stand in the marker itself, as do the sizes of small containers and texts.
    if marker < 0x80 then .ok (.unsigned marker.toUInt64, rest)
    else if marker < 0x90 then .ok (.map (marker - 0x80).toNat, rest)
    else if marker < 0xa0 then .ok (.array (marker - 0x90).toNat, rest)
    else if marker < 0xc0 then do
      let (blob, rest) ← readBlob (marker - 0xa0).toNat rest
      return (.text blob, rest)
    else if 0xe0 ≤ marker then .ok (.signed (Int64.ofInt (marker.toNat - 256)), rest)
    else
      match marker with
      | 0xc0 => .ok (.nil, rest)
      | 0xc2 => .ok (.bool false, rest)
      | 0xc3 => .ok (.bool true, rest)
      | 0xc4 => readSized 1 .binary rest
      | 0xc5 => readSized 2 .binary rest
      | 0xc6 => readSized 4 .binary rest
      | 0xc7 => do
        let (n, rest) ← readNatural 1 rest
        readExtension n rest
      | 0xc8 => do
        let (n, rest) ← readNatural 2 rest
        readExtension n rest
      | 0xc9 => do
        let (n, rest) ← readNatural 4 rest
        readExtension n rest
      | 0xca => do
        let (n, rest) ← readNatural 4 rest
        return (.single ⟨UInt32.ofNat n⟩, rest)
      | 0xcb => do
        let (n, rest) ← readNatural 8 rest
        return (.double ⟨UInt64.ofNat n⟩, rest)
      | 0xcc => readUnsigned 1 rest
      | 0xcd => readUnsigned 2 rest
      | 0xce => readUnsigned 4 rest
      | 0xcf => readUnsigned 8 rest
      | 0xd0 => readSigned 1 rest
      | 0xd1 => readSigned 2 rest
      | 0xd2 => readSigned 4 rest
      | 0xd3 => readSigned 8 rest
      | 0xd4 => readExtension 1 rest
      | 0xd5 => readExtension 2 rest
      | 0xd6 => readExtension 4 rest
      | 0xd7 => readExtension 8 rest
      | 0xd8 => readExtension 16 rest
      | 0xd9 => readSized 1 .text rest
      | 0xda => readSized 2 .text rest
      | 0xdb => readSized 4 .text rest
      | 0xdc => readCount 2 .array rest
      | 0xdd => readCount 4 .array rest
      | 0xde => readCount 2 .map rest
      | 0xdf => readCount 4 .map rest
      | _ => .error .reservedMarker

/-! ### Values -/

/-- Reads `count` items, the ones read before being in reverse order. -/
def readMany {α : Type} (read : Octets → Except BodyFault (α × Octets)) :
    Nat → List α → Octets → Except BodyFault (List α × Octets)
  | 0, got, bytes => .ok (got.reverse, bytes)
  | count + 1, got, bytes => do
    let (a, rest) ← read bytes
    readMany read count (a :: got) rest

/-- Skips `count` items. -/
def skipMany (skip : Octets → Except BodyFault Octets) :
    Nat → Octets → Except BodyFault Octets
  | 0, bytes => .ok bytes
  | count + 1, bytes => do
    let rest ← skip bytes
    skipMany skip count rest

/-- The text with these bytes. -/
def textOf (bytes : Octets) : Except BodyFault String :=
  match Octets.text? bytes with
  | some s => .ok s
  | none => .error .notText

/-- The key of a member of an object.  The key of the first member has to be written as text, that
of a later one may be written as bytes. -/
def readKey (first : Bool) (bytes : Octets) : Except BodyFault (String × Octets) := do
  match ← readHead bytes, first with
  | (.text bytes, rest), _ | (.binary bytes, rest), false =>
    let key ← textOf bytes
    return (key, rest)
  | _, _ => .error .wrongKind

/-- A member of an object: its key and its value. -/
def readMember (read : Octets → Except BodyFault (Value × Octets)) (first : Bool)
    (bytes : Octets) : Except BodyFault ((String × Value) × Octets) := do
  let (key, rest) ← readKey first bytes
  let (value, rest) ← read rest
  return ((key, value), rest)

/-- The members of an object. -/
def readMembers (read : Octets → Except BodyFault (Value × Octets)) :
    Nat → Octets → Except BodyFault (List (String × Value) × Octets)
  | 0, bytes => .ok ([], bytes)
  | count + 1, bytes => do
    let (member, rest) ← readMember read true bytes
    readMany (readMember read false) count [member] rest

/-- Reads a value in which at most `budget` containers are open at once. -/
def readValue (budget : Nat) (bytes : Octets) : Except BodyFault (Value × Octets) := do
  let (head, rest) ← readHead bytes
  match head with
  | .nil => return (.null, rest)
  | .bool b => return (.bool b, rest)
  | .unsigned n => return (.int (.ofUInt64 n), rest)
  | .signed n => return (.int (.ofInt64 n), rest)
  | .single x => return (.ofBinary64 x.widen, rest)
  | .double x => return (.ofBinary64 x, rest)
  | .text bytes =>
    let s ← textOf bytes
    return (.str s, rest)
  | .array count =>
    match budget with
    | 0 => .error .tooDeep
    | budget + 1 =>
      let (items, rest) ← readMany (readValue budget) count [] rest
      return (.list items, rest)
  | .map count =>
    match budget with
    | 0 => .error .tooDeep
    | budget + 1 =>
      let (entries, rest) ← readMembers (readValue budget) count rest
      return (.ofEntries entries, rest)
  | .binary _ | .extension => .error .wrongKind

/-- Skips any item in which at most `budget` containers and extensions are open at once. -/
def skipValue (budget : Nat) (bytes : Octets) : Except BodyFault Octets := do
  let (head, rest) ← readHead bytes
  match head with
  | .array count =>
    match budget with
    | 0 => .error .tooDeep
    | budget + 1 => skipMany (skipValue budget) count rest
  -- A skipped key may be any item, so a map is as many items as it has keys and values.
  | .map count =>
    match budget with
    | 0 => .error .tooDeep
    | budget + 1 => skipMany (skipValue budget) (2 * count) rest
  | .extension => if budget = 0 then .error .tooDeep else return rest
  | _ => return rest

/-- Reads a value at the front of the bytes and ignores what follows. -/
def decodeValue (bytes : Octets) : Except CodecFault Value :=
  match readValue nestingLimit bytes with
  | .ok (v, _) => .ok v
  | .error cause => .error (.malformed cause)

/-! ### Fields -/

/-- Reads an integer between `least` and `greatest`. -/
def readInteger (least greatest : Int) (bytes : Octets) : Except BodyFault (Int × Octets) := do
  let (head, rest) ← readHead bytes
  let n ← match head with
    | .unsigned n => Except.ok (n.toNat : Int)
    | .signed n => Except.ok n.toInt
    | _ => Except.error BodyFault.wrongKind
  if least ≤ n ∧ n ≤ greatest then return (n, rest) else .error .outOfRange

/-- Reads a text, written as text or as bytes. -/
def readText (bytes : Octets) : Except BodyFault (String × Octets) := do
  match ← readHead bytes with
  | (.text bytes, rest) | (.binary bytes, rest) =>
    let s ← textOf bytes
    return (s, rest)
  | _ => .error .wrongKind

/-- Reads a list of values, written as an array or as bytes. -/
def readValues (budget : Nat) (bytes : Octets) : Except BodyFault (List Value × Octets) := do
  match ← readHead bytes, budget with
  | (.array count, rest), budget + 1 => readMany (readValue budget) count [] rest
  | (.binary bytes, rest), _ =>
    return (bytes.map fun b => .int (.ofUInt64 b.toUInt64), rest)
  | (.array _, _), 0 => .error .tooDeep
  | _, _ => .error .wrongKind

/-- Puts a value into a field that is still empty. -/
def fill {α : Type} (name : String) (field : Option α)
    (read : Except BodyFault (α × Octets)) : Except BodyFault (Option α × Octets) :=
  match field with
  | some _ => .error (.repeatedField name)
  | none => read.map fun (a, rest) => (some a, rest)

/-- The content of a field that has to be there. -/
def need {α : Type} (name : String) (field : Option α) : Except BodyFault α :=
  match field with
  | some a => .ok a
  | none => .error (.missingField name)

/-! ### Messages -/

/-- How a message is put together from fields that come in any order: the names of the fields and
the reader that adds one of them to a draft of type `δ`. -/
structure Layout (δ : Type) where
  names : List String
  empty : δ
  readField : Nat → δ → Octets → Except BodyFault (δ × Octets)

namespace Layout

variable {δ : Type} (layout : Layout δ)

/-- The number of the field that a key of a map names; none for an unknown one. -/
def fieldOf : Head → Except BodyFault (Option Nat)
  | .text key | .binary key => .ok (layout.names.findIdx? fun name => Octets.ofText name == key)
  | .unsigned n => .ok (if n.toNat < layout.names.length then some n.toNat else none)
  | _ => .error .wrongKind

/-- Reads `count` entries of a map into the draft. -/
def readEntries (budget : Nat) : Nat → δ → Octets → Except BodyFault (δ × Octets)
  | 0, draft, bytes => .ok (draft, bytes)
  | count + 1, draft, bytes => do
    let (key, rest) ← readHead bytes
    match ← layout.fieldOf key with
    | some field =>
      let (draft, rest) ← layout.readField field draft rest
      readEntries budget count draft rest
    | none =>
      let rest ← skipValue budget rest
      readEntries budget count draft rest

/-- Reads `count` fields in their order, from the field `next` on, into the draft. -/
def readSequence : Nat → Nat → δ → Octets → Except BodyFault (δ × Octets)
  | 0, _, draft, bytes => .ok (draft, bytes)
  | count + 1, next, draft, bytes => do
    let (draft, rest) ← layout.readField next draft bytes
    readSequence count (next + 1) draft rest

/-- Reads a draft from a map or an array. -/
def read (bytes : Octets) : Except BodyFault δ := do
  match ← readHead bytes with
  | (.map count, rest) =>
    let (draft, _) ← layout.readEntries (nestingLimit - 1) count layout.empty rest
    return draft
  | (.array count, rest) =>
    -- Fields at the end may be missing; which ones, `finish` decides.
    if layout.names.length < count then .error .surplusElements
    else
      let (draft, _) ← layout.readSequence count 0 layout.empty rest
      return draft
  | _ => .error .wrongKind

end Layout

/-- The fields of a request read so far. -/
structure RequestDraft where
  requestId : Option Int := none
  service : Option String := none
  method : Option String := none
  args : Option (List Value) := none

/-- The layout of a request. -/
def RequestDraft.layout : Layout RequestDraft where
  names := ["request_id", "service_name", "method_name", "args"]
  empty := {}
  readField
    | 0, draft, bytes => do
      let (requestId, rest) ←
        fill "request_id" draft.requestId (readInteger 0 IntKind.u64.max bytes)
      return ({ draft with requestId }, rest)
    | 1, draft, bytes => do
      let (service, rest) ← fill "service_name" draft.service (readText bytes)
      return ({ draft with service }, rest)
    | 2, draft, bytes => do
      let (method, rest) ← fill "method_name" draft.method (readText bytes)
      return ({ draft with method }, rest)
    | _, draft, bytes => do
      let (args, rest) ← fill "args" draft.args (readValues (nestingLimit - 1) bytes)
      return ({ draft with args }, rest)

/-- The request, in which only the arguments may be missing. -/
def RequestDraft.finish (draft : RequestDraft) : Except BodyFault Request := do
  let requestId ← need "request_id" draft.requestId
  let service ← need "service_name" draft.service
  let method ← need "method_name" draft.method
  return ⟨UInt64.ofInt requestId, service, method, draft.args.getD []⟩

/-- The fields of a response read so far. -/
structure ResponseDraft where
  requestId : Option Int := none
  code : Option Int := none
  text : Option String := none
  compression : Option Int := none
  serialization : Option Int := none
  data : Option Value := none

/-- The layout of a response. -/
def ResponseDraft.layout : Layout ResponseDraft where
  names := ["request_id", "code", "msg", "compress_type", "serialize_type", "data"]
  empty := {}
  readField
    | 0, draft, bytes => do
      let (requestId, rest) ←
        fill "request_id" draft.requestId (readInteger 0 IntKind.u64.max bytes)
      return ({ draft with requestId }, rest)
    | 1, draft, bytes => do
      let (code, rest) ←
        fill "code" draft.code (readInteger IntKind.i16.min IntKind.i16.max bytes)
      return ({ draft with code }, rest)
    | 2, draft, bytes => do
      let (text, rest) ← fill "msg" draft.text (readText bytes)
      return ({ draft with text }, rest)
    | 3, draft, bytes => do
      let (compression, rest) ←
        fill "compress_type" draft.compression (readInteger 0 IntKind.u8.max bytes)
      return ({ draft with compression }, rest)
    | 4, draft, bytes => do
      let (serialization, rest) ←
        fill "serialize_type" draft.serialization (readInteger 0 IntKind.u8.max bytes)
      return ({ draft with serialization }, rest)
    | _, draft, bytes => do
      let (data, rest) ← fill "data" draft.data (readValue (nestingLimit - 1) bytes)
      return ({ draft with data }, rest)

/-- The response, in which only the text and the data may be missing. -/
def ResponseDraft.finish (draft : ResponseDraft) : Except BodyFault Response := do
  let requestId ← need "request_id" draft.requestId
  let code ← need "code" draft.code
  let compression ← need "compress_type" draft.compression
  let serialization ← need "serialize_type" draft.serialization
  return ⟨UInt64.ofInt requestId, Int16.ofInt code, draft.text.getD "",
    UInt8.ofInt compression, UInt8.ofInt serialization, draft.data.getD .null⟩

/-- Reads a request at the front of the bytes. -/
def decodeRequest (bytes : Octets) : Except BodyFault Request := do
  let draft ← RequestDraft.layout.read bytes
  draft.finish

/-- Reads a response at the front of the bytes. -/
def decodeResponse (bytes : Octets) : Except BodyFault Response := do
  let draft ← ResponseDraft.layout.read bytes
  draft.finish

/-- Reads the message of a frame of the given kind and ignores what follows it. -/
def decode (kind : FrameKind) (bytes : Octets) : Except CodecFault Message :=
  match kind with
  | .request => ((decodeRequest bytes).map .request).mapError .malformed
  | .response => ((decodeResponse bytes).map .response).mapError .malformed
  | .ping | .pong => .error (.noShape kind)

end MsgPack
end WireCall
