import WireCall.Mismatch
import WireCall.Service.Shape

namespace WireCall

/-!
# Scalars and keys

Integers are read only from integers in range, floats from all numbers, and a character from a text
of just one.

The keys of an object are texts, and a mapping may still have keys of other types: `Shape.encodeKey`
writes truth values, numbers and characters as texts, and `Shape.decodeKey` reads them back.  Only
the keys of a mapping are read so; the text of a number is no number anywhere else.  Nothing that is
absent or has parts is a key, and neither is a float that is not finite.
-/

/-! ### Numbers and characters -/

/-- Reads an integer of a kind. -/
def IntKind.decode (kind : IntKind) (v : Value) : Except Mismatch kind.Carrier :=
  match v with
  | .int n =>
    match kind.ofInt? n.val with
    | some a => .ok a
    | none => .error (.wrongValue v (.integer kind))
  | _ => .error (.wrongType v (.integer kind))

/-- Reads a float from any number. -/
def Binary64.decode (v : Value) : Except Mismatch Binary64 :=
  match v with
  | .int n => .ok (.ofInt n.val)
  | .float x => .ok x.float
  | _ => .error (.wrongType v .double)

/-- Reads a short float from any number. -/
def Binary32.decode (v : Value) : Except Mismatch Binary32 :=
  match v with
  | .int n => .ok (.ofInt n.val)
  | .float x => .ok (.ofBinary64 x.float)
  | _ => .error (.wrongType v .single)

/-- Reads a character from a text of exactly one. -/
def decodeChar (v : Value) : Except Mismatch Char :=
  match v with
  | .str s =>
    match s.toList with
    | [c] => .ok c
    | _ => .error (.wrongValue v .character)
  | _ => .error (.wrongType v .character)

/-- A text of one character is read as that character. -/
@[simp] theorem decodeChar_singleton (c : Char) :
    decodeChar (.str (String.singleton c)) = .ok c := by
  rw [decodeChar, String.toList_singleton]

/-! ### Keys that are written -/

/-- The key that a dynamic value is. -/
def Value.asKey : Value → Except Unsendable String
  | .bool b => .ok (toString b)
  | .int n => .ok (String.ofList (Numeral.write n.val))
  | .float x => .ok x.text
  | .str k => .ok k
  | .null | .list _ | .object _ => .error .keyNotText

/-- The text of a float, if there is one, as a key. -/
def floatKey (text? : Option String) : Except Unsendable String :=
  match text? with
  | some k => .ok k
  | none => .error .keyNotFinite

/-- The key that a typed value is.  An optional value is none, even if it is present. -/
def Shape.encodeKey : (s : Shape) → s.Carrier → Except Unsendable String
  | .bool, (b : Bool) => .ok (toString b)
  | .int _, n => .ok (String.ofList (Numeral.write n.val))
  | .single, x => floatKey (Binary32.text? x)
  | .double, x => floatKey (Binary64.text? x)
  | .char, c => .ok (String.singleton c)
  | .text, k => .ok k
  | .any, v => v.asKey
  | .unit, _ | .optional _, _ | .list _, _ | .array _ _, _ | .mapping _ _, _ | .tuple _, _
  | .record _ _, _ => .error .keyNotText

/-! ### Keys that are read -/

/-- Reads a key that has to be a numeral from its first character on and to the end. -/
def decodeNumeralKey {α : Type} (read : List Char → Except Mismatch (α × List Char)) (k : String) :
    Except Mismatch α :=
  if k.toList.head?.any fun c => c = '-' ∨ (Decimal.digit? c).isSome then do
    let (a, rest) ← read k.toList
    if rest.isEmpty then .ok a else .error .keyNotNumeral
  else .error .keyNotNumeral

/-- Reads a numeral off the beginning of a text as a number of some type. -/
def decodeNumeral {α : Type} (decode : Value → Except Mismatch α) (text : List Char) :
    Except Mismatch (α × List Char) :=
  match Numeral.scan text with
  | .error stop => .error (.badNumeral stop.fault (.onNext text stop.rest))
  | .ok (n, rest) =>
    match n.value? with
    | none => .error (.badNumeral .outOfRange (n.excessPlace text rest))
    | some v =>
      match decode v with
      | .ok a => .ok (a, rest)
      | .error cause => .error (.placed cause (.before text rest))

namespace IntKind

/-- Reads the digits of an integer of 128 bits off the beginning of a text. -/
def decodeWide (kind : IntKind) (text : List Char) : Except Mismatch (kind.Carrier × List Char) :=
  let (negative, cs) := Numeral.scanMinus text
  if negative ∧ kind = .u128 then .error (.badNumeral .outOfRange (.before text cs))
  else
    match Numeral.scanWhole cs with
    | .error stop => .error (.badNumeral .malformed (.onNext text stop.rest))
    | .ok (ds, rest) =>
      match kind.ofInt? (Numeral.signed negative (Numeral.ofDigits ds)) with
      | some a => .ok (a, rest)
      | none => .error (.badNumeral .outOfRange (.before text rest))

/-- Reads a key that has to be an integer of a kind. -/
def decodeKey (kind : IntKind) (k : String) : Except Mismatch kind.Carrier :=
  -- No dynamic number has more than 64 bits, so wider ones are read from the digits.
  if kind = .i128 ∨ kind = .u128 then decodeNumeralKey kind.decodeWide k
  else decodeNumeralKey (decodeNumeral kind.decode) k

end IntKind

/-- Reads a value of a shape from a key.  No key stands for an absent value. -/
def Shape.decodeKey : (s : Shape) → String → Except Mismatch s.Carrier
  | .unit, k => .error (.wrongType (.str k) .unit)
  | .bool, k =>
    if k = "true" then .ok true
    else if k = "false" then .ok false
    else .error (.wrongType (.str k) .boolean)
  | .int kind, k => kind.decodeKey k
  | .single, k => decodeNumeralKey (decodeNumeral Binary32.decode) k
  | .double, k => decodeNumeralKey (decodeNumeral Binary64.decode) k
  | .char, k => decodeChar (.str k)
  | .text, k => .ok k
  | .any, k => .ok (.str k)
  | .optional content, k => (content.decodeKey k).map some
  | .list _, k => .error (.wrongType (.str k) .sequence)
  | .array size _, k => .error (.wrongType (.str k) (.array size))
  | .mapping _ _, k => .error (.wrongType (.str k) .mapping)
  | .tuple parts, k => .error (.wrongType (.str k) (.tuple parts.size))
  | .record name _, k => .error (.wrongType (.str k) (.record name))

end WireCall
