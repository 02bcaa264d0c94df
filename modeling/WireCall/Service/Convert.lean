import WireCall.Service.Scalar

namespace WireCall

/-!
# Converting typed values

`Shape.decode` reads a dynamic value at a type and `Shape.encode` writes a typed value as a dynamic
one.  The positions of tuples and arrays are read in order, before their number is found to be too
large.  A mapping is the list of its entries, whose keys are the texts in `Service.Scalar`.  A
record is read from an object, whose other members are skipped, or from a list of all its fields.

An integer outside the range of bodies and a mapping with a key that no text stands for have no
dynamic form; a float that is not finite is written as null.
-/

/-! ### Arrays -/

/-- Reads exactly `size` items. -/
def decodeArray {α : Type} (size : Nat) (decode : Value → Except Mismatch α) (v : Value) :
    Except Mismatch { items : List α // items.length = size } :=
  match v with
  | .list vs => do
    -- The items are read first, so an item that does not fit is reported before a wrong length.
    let items ← (vs.take size).mapM decode
    if h : items.length = size then
      if vs.length = size then .ok ⟨items, h⟩ else .error (.wrongLength vs.length .fewerElements)
    else .error (.wrongLength vs.length (.array size))
  | _ => .error (.wrongType v (.array size))

/-! ### Records under construction -/

/-- What has been read of a record. -/
def Fields.Draft : Fields → Type
  | .nil => Unit
  | .cons _ _ head tail => Option head.Carrier × tail.Draft

/-- Nothing has been read. -/
def Fields.blank : (fs : Fields) → fs.Draft
  | .nil => ()
  | .cons _ _ _ tail => (none, tail.blank)

/-- What a field is when an object does not have it. -/
def Shape.absent (name : String) (defaulted : Bool) : (s : Shape) → Except Mismatch s.Carrier
  | .optional _ => .ok none
  | s => if defaulted then .ok s.zero else .error (.missingField name)

/-- The record, in which the fields not read are absent. -/
def Fields.finish : (fs : Fields) → fs.Draft → Except Mismatch fs.Carrier
  | .nil, _ => .ok ()
  | .cons name defaulted head tail, (first, rest) => do
    let a ← match first with
      | some a => pure a
      | none => head.absent name defaulted
    let as ← tail.finish rest
    return (a, as)

/-! ### Reading -/

mutual

/-- Reads a value of a shape. -/
def Shape.decode : (s : Shape) → Value → Except Mismatch s.Carrier
  | .unit, v =>
    match v with
    | .null => .ok ()
    | _ => .error (.wrongType v .unit)
  | .bool, v =>
    match v with
    | .bool b => .ok b
    | _ => .error (.wrongType v .boolean)
  | .int kind, v => kind.decode v
  | .single, v => Binary32.decode v
  | .double, v => Binary64.decode v
  | .char, v => decodeChar v
  | .text, v =>
    match v with
    | .str s => .ok s
    | _ => .error (.wrongType v .text)
  | .any, v => .ok v
  | .optional content, v =>
    match v with
    | .null => .ok none
    | _ => (content.decode v).map some
  | .list item, v =>
    match v with
    | .list vs => vs.mapM item.decode
    | _ => .error (.wrongType v .sequence)
  | .array size item, v => decodeArray size item.decode v
  | .mapping key item, v =>
    match v with
    | .object ms => ms.mapM fun m => do return (← key.decodeKey m.1, ← item.decode m.2)
    | _ => .error (.wrongType v .mapping)
  | .tuple parts, v =>
    match v with
    | .list vs => do
      let (as, left) ← parts.decode parts.size 0 vs
      if left.isEmpty then .ok as else .error (.wrongLength vs.length .fewerElements)
    | _ => .error (.wrongType v (.tuple parts.size))
  | .record name fields, v =>
    match v with
    | .object ms => do
      let draft ← ms.foldlM (fun draft m => fields.fill m.1 m.2 draft) fields.blank
      fields.finish draft
    | .list vs => do
      let (as, left) ← fields.decode (.recordOf name fields.size) 0 vs
      if left.isEmpty then .ok as else .error (.wrongLength vs.length .fewerElements)
    | _ => .error (.wrongType v (.record name))

/-- Reads the positions of a tuple of `size`, the next one having the given index, and hands back
what is left over. -/
def Shapes.decode : (ss : Shapes) → (size index : Nat) → List Value →
    Except Mismatch (ss.Carrier × List Value)
  | .nil, _, _, vs => .ok ((), vs)
  | .cons _ _, size, index, [] => .error (.wrongLength index (.tuple size))
  | .cons head tail, size, index, v :: vs => do
    let a ← head.decode v
    let (as, left) ← tail.decode size (index + 1) vs
    return ((a, as), left)

/-- Reads the fields of a record by position, and hands back what is left over. -/
def Fields.decode : (fs : Fields) → Expected → (index : Nat) → List Value →
    Except Mismatch (fs.Carrier × List Value)
  | .nil, _, _, vs => .ok ((), vs)
  -- By position, only a field with a default may be missing; an optional one has to be there.
  | .cons _ defaulted head tail, expected, index, [] => do
    let a ← if defaulted then pure head.zero else throw (.wrongLength index expected)
    let (as, left) ← tail.decode expected (index + 1) []
    return ((a, as), left)
  | .cons _ _ head tail, expected, index, v :: vs => do
    let a ← head.decode v
    let (as, left) ← tail.decode expected (index + 1) vs
    return ((a, as), left)

/-- Reads a member of an object into the field that it names, if there is one. -/
def Fields.fill : (fs : Fields) → String → Value → fs.Draft → Except Mismatch fs.Draft
  | .nil, _, _, draft => .ok draft
  | .cons name _ head tail, key, v, (first, rest) =>
    if key = name then do
      let a ← head.decode v
      return (some a, rest)
    else do
      let rest ← tail.fill key v rest
      return (first, rest)

end

/-- Reads the arguments of a call as one value.  Where null is a value of the shape, it stands for
no arguments; otherwise the arguments are the positions of a list. -/
def Shape.decodeArguments (s : Shape) (args : List Value) : Except Mismatch s.Carrier :=
  if args.isEmpty then
    match s.decode .null with
    | .ok a => .ok a
    | .error _ => s.decode (.list [])
  else s.decode (.list args)

/-! ### Writing -/

mutual

/-- The dynamic form of a value. -/
def Shape.encode : (s : Shape) → s.Carrier → Except Unsendable Value
  | .unit, _ => .ok .null
  | .bool, b => .ok (.bool b)
  | .int _, n =>
    match WireInt.ofInt? n.val with
    | some n => .ok (.int n)
    | none => .error .integerOutOfRange
  | .single, x => .ok (.ofBinary64 (Binary32.widen x))
  | .double, x => .ok (.ofBinary64 x)
  | .char, c => .ok (.str (String.singleton c))
  | .text, s => .ok (.str s)
  | .any, v => .ok v
  | .optional content, a =>
    match a with
    | none => .ok .null
    | some a => content.encode a
  | .list item, as => do return .list (← as.mapM item.encode)
  | .array _ item, as => do return .list (← as.val.mapM item.encode)
  | .mapping key item, as => do
    let entries ← as.mapM fun a => do
      let k ← key.encodeKey a.1
      return (k, ← item.encode a.2)
    return .ofEntries entries
  | .tuple parts, as => do return .list (← parts.encode as)
  | .record _ fields, as => do return .ofEntries (← fields.encode as)

/-- The dynamic forms of the positions. -/
def Shapes.encode : (ss : Shapes) → ss.Carrier → Except Unsendable (List Value)
  | .nil, _ => .ok []
  | .cons head tail, (a, as) => do return (← head.encode a) :: (← tail.encode as)

/-- The names and dynamic forms of the fields. -/
def Fields.encode : (fs : Fields) → fs.Carrier → Except Unsendable (List (String × Value))
  | .nil, _ => .ok []
  | .cons name _ head tail, (a, as) => do
    return (name, ← head.encode a) :: (← tail.encode as)

end

end WireCall
