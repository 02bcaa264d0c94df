import WireCall.Document.Basic
import WireCall.Text.Quoted

namespace WireCall

/-!
# Writing JSON

Documents are written without blanks.  In a literal, quotes, backslashes and controls are escaped,
the common controls by a letter and the others by four hexadecimal digits; everything else stands
for itself.
-/

namespace Document

/-- A character inside a literal. -/
def escapeChar (c : Char) : List Char :=
  if c = '\x22' then ['\\', '\x22']
  else if c = '\\' then ['\\', '\\']
  else if c = '\x08' then ['\\', 'b']
  else if c = '\x0c' then ['\\', 'f']
  else if c = '\n' then ['\\', 'n']
  else if c = '\r' then ['\\', 'r']
  else if c = '\t' then ['\\', 't']
  else if c.toNat < 0x20 then
    ['\\', 'u', '0', '0', Nat.digitChar (c.toNat / 16), Nat.digitChar (c.toNat % 16)]
  else [c]

/-- A literal with its quotes; one that denotes no text is written as a lone escape. -/
def writeText : Option String → List Char
  | some s => '\x22' :: s.toList.flatMap escapeChar ++ ['\x22']
  | none => "\x22\\ud800\x22".toList

mutual

/-- The document as text. -/
def write : Document → List Char
  | .null => ['n', 'u', 'l', 'l']
  | .bool b => if b then ['t', 'r', 'u', 'e'] else ['f', 'a', 'l', 's', 'e']
  | .number literal => literal
  | .text s => writeText s
  | .array items => '[' :: writeItems items ++ [']']
  | .object members => '\x7b' :: writeMembers members ++ ['\x7d']

/-- Items with commas between them. -/
def writeItems : List Document → List Char
  | [] => []
  | [d] => write d
  | d :: ds => write d ++ ',' :: writeItems ds

/-- Members with commas between them. -/
def writeMembers : List (Option String × Document) → List Char
  | [] => []
  | [(k, d)] => writeText k ++ ':' :: write d
  | (k, d) :: ms => writeText k ++ ':' :: write d ++ ',' :: writeMembers ms

end

/-- The text of a document. -/
def render (d : Document) : String := String.ofList d.write

end Document
end WireCall
