import WireCall.Number.Numeral
import WireCall.Number.Shortest
import WireCall.Text.Quoted

namespace WireCall

/-!
# Values that do not fit

A dynamic value that does not fit the type it is needed at is refused with a `Mismatch`, which
says what was seen and what was expected.  The key of a member that is needed as a number is read as
a text of its own, and what is wrong with it has a place there.  A typed result that has no dynamic
form is refused with an `Unsendable`.
-/

/-- What a typed position expects. -/
inductive Expected where
  | boolean
  | integer (kind : IntKind)
  | single
  | double
  | character
  | text
  | unit
  | mapping
  | sequence
  | array (size : Nat)
  | tuple (size : Nat)
  | record (name : String)
  | recordOf (name : String) (fields : Nat)
  | fewerElements
deriving DecidableEq, Repr

/-- The expectation in words. -/
def Expected.describe : Expected → String
  | boolean => "a boolean"
  | integer kind => kind.name
  | single => "f32"
  | double => "f64"
  | character => "a character"
  | text => "a string"
  | unit => "unit"
  | mapping => "a map"
  | sequence => "a sequence"
  | array size => s!"an array of length {size}"
  | tuple size => s!"a tuple of size {size}"
  | record name => s!"struct {name}"
  | recordOf name fields => s!"struct {name} with {fields} elements"
  | fewerElements => "fewer elements in array"

/-- What was seen in place of the expected, in words. -/
def Value.describe : Value → String
  | .null => "null"
  | .bool b => if b then "boolean `true`" else "boolean `false`"
  | .int n => s!"integer `{n.val}`"
  | .float x => s!"floating point `{x.text}`"
  | .str s => s!"string {Text.quoted s}"
  | .list _ => "sequence"
  | .object _ => "map"

/-- Why a value does not fit a type. -/
inductive Mismatch where
  | wrongType (seen : Value) (expected : Expected)
  | wrongValue (seen : Value) (expected : Expected)
  | wrongLength (length : Nat) (expected : Expected)
  | missingField (name : String)
  | keyNotNumeral
  | badNumeral (fault : NumeralFault) (place : Place)
  | placed (cause : Mismatch) (place : Place)
  | other (text : String)
deriving Repr

/-- The reason in words. -/
def Mismatch.message : Mismatch → String
  | wrongType seen expected => s!"invalid type: {seen.describe}, expected {expected.describe}"
  | wrongValue seen expected => s!"invalid value: {seen.describe}, expected {expected.describe}"
  | wrongLength length expected => s!"invalid length {length}, expected {expected.describe}"
  | missingField name => s!"missing field `{name}`"
  | keyNotNumeral => "invalid value: expected key to be a number in quotes"
  | badNumeral fault place => s!"{fault.message} at line {place.line} column {place.column}"
  | placed cause place => s!"{cause.message} at line {place.line} column {place.column}"
  | other text => text

/-- Why a typed result has no dynamic form. -/
inductive Unsendable where
  | keyNotText
  | keyNotFinite
  | integerOutOfRange
deriving DecidableEq, Repr

/-- The reason in words. -/
def Unsendable.message : Unsendable → String
  | keyNotText => "key must be a string"
  | keyNotFinite => "float key must be finite (got NaN or +/-inf)"
  | integerOutOfRange => "number out of range"

end WireCall
