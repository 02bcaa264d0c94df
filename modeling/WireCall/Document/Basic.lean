import WireCall.Number.Decimal

namespace WireCall

/-!
# JSON documents

Settings are loaded from JSON.  A `Document` keeps what matters for that: numbers as they were
written, members in the order of the text with repeated keys, and a literal whose escapes denote
no text (half of a surrogate pair) as `none`: such a literal is well-formed JSON, and it matters
only where its text is needed.
-/

/-- A JSON document. -/
inductive Document where
  | null
  | bool (b : Bool)
  | number (literal : List Char)
  | text (s : Option String)
  | array (items : List Document)
  | object (members : List (Option String × Document))
deriving BEq, Repr, Inhabited

namespace Document

/-- The natural that a document spells without sign, fraction and exponent. -/
def natural? : Document → Option Nat
  | number literal => Decimal.read? literal
  | _ => none

/-- The document for a natural. -/
def ofNat (n : Nat) : Document := number (Nat.toDigits 10 n)

/-- The document for a text. -/
def ofText (s : String) : Document := text (some s)

/-- An object whose keys are texts. -/
def ofMembers (members : List (String × Document)) : Document :=
  object (members.map fun m => (some m.1, m.2))

end Document
end WireCall
