import WireCall.Document.Basic

namespace WireCall

/-!
# Tokens of JSON

The text is read one character at a time by a machine (`Lexer.step`), which never looks ahead: a
number ends with the character that cannot continue it, and that character is then read on its
own.  Tokens need no blanks between them; two that may not stand side by side are refused later.
-/

namespace Document

/-- A token. -/
inductive Token where
  | openBrace | closeBrace | openBracket | closeBracket | colon | comma
  | null
  | bool (b : Bool)
  | number (literal : List Char)
  | text (s : Option String)
deriving DecidableEq, Repr

namespace Lexer

/-! ### States -/

/-- Where in a number the machine is: what has been read decides what may follow. -/
inductive NumberPart where
  | sign | zero | whole | point | fraction | exponent | exponentSign | exponentDigits
deriving DecidableEq, Repr

/-- Whether a number may end here. -/
def NumberPart.mayEnd : NumberPart → Bool
  | zero | whole | fraction | exponentDigits => true
  | _ => false

/-- The part that a character leads to, if it continues the number. -/
def NumberPart.next? (part : NumberPart) (c : Char) : Option NumberPart :=
  let digit := '0' ≤ c ∧ c ≤ '9'
  match part with
  | sign => if c = '0' then some zero else if digit then some whole else none
  | zero =>
    if c = '.' then some point else if c = 'e' ∨ c = 'E' then some exponent else none
  | whole =>
    if digit then some whole
    else if c = '.' then some point
    else if c = 'e' ∨ c = 'E' then some exponent
    else none
  | point => if digit then some fraction else none
  | fraction =>
    if digit then some fraction else if c = 'e' ∨ c = 'E' then some exponent else none
  | exponent =>
    if digit then some exponentDigits else if c = '+' ∨ c = '-' then some exponentSign else none
  | exponentSign | exponentDigits => if digit then some exponentDigits else none

/-- A literal between its quotes: the characters so far in reverse order, the first half of a
surrogate pair that waits for the second, and whether every escape so far denotes a character. -/
structure TextPart where
  chars : List Char
  half : Option Nat
  sound : Bool
deriving DecidableEq, Repr

namespace TextPart

/-- The literal just after its opening quote. -/
def empty : TextPart := ⟨[], none, true⟩

/-- Adds a character. -/
def addChar (t : TextPart) (c : Char) : TextPart :=
  ⟨c :: t.chars, none, t.sound && t.half.isNone⟩

/-- Adds the 16-bit unit of an escape; two halves of a surrogate pair make one character. -/
def addUnit (t : TextPart) (unit : Nat) : TextPart :=
  if 0xd800 ≤ unit ∧ unit < 0xdc00 then ⟨t.chars, some unit, t.sound && t.half.isNone⟩
  else if 0xdc00 ≤ unit ∧ unit < 0xe000 then
    match t.half with
    | some high =>
      ⟨Char.ofNat (0x10000 + (high - 0xd800) * 0x400 + (unit - 0xdc00)) :: t.chars, none, t.sound⟩
    | none => ⟨t.chars, none, false⟩
  else t.addChar (Char.ofNat unit)

/-- The text of the finished literal. -/
def finish (t : TextPart) : Option String :=
  if t.sound && t.half.isNone then some (String.ofList t.chars.reverse) else none

end TextPart

/-- What the machine is in the middle of. -/
inductive Mode where
  | between
  | word (left : List Char) (token : Token)
  | number (part : NumberPart) (literal : List Char)
  | text (part : TextPart)
  | escape (part : TextPart)
  | unit (part : TextPart) (digits value : Nat)
deriving DecidableEq, Repr

/-- The mode and the tokens read so far, the latest first. -/
structure State where
  mode : Mode
  tokens : List Token
deriving DecidableEq, Repr

/-! ### Steps -/

/-- The value of a hexadecimal digit. -/
def hexDigit? (c : Char) : Option Nat :=
  if '0' ≤ c ∧ c ≤ '9' then some (c.toNat - '0'.toNat)
  else if 'a' ≤ c ∧ c ≤ 'f' then some (c.toNat - 'a'.toNat + 10)
  else if 'A' ≤ c ∧ c ≤ 'F' then some (c.toNat - 'A'.toNat + 10)
  else none

/-- The character that a one-letter escape stands for. -/
def escaped? (c : Char) : Option Char :=
  match c with
  | '\x22' => some '\x22'
  | '\\' => some '\\'
  | '/' => some '/'
  | 'b' => some '\x08'
  | 'f' => some '\x0c'
  | 'n' => some '\n'
  | 'r' => some '\r'
  | 't' => some '\t'
  | _ => none

/-- Starts a token with its first character. -/
def start (tokens : List Token) (c : Char) : Option State :=
  match c with
  | ' ' | '\t' | '\n' | '\r' => some ⟨.between, tokens⟩
  | '\x7b' => some ⟨.between, .openBrace :: tokens⟩
  | '\x7d' => some ⟨.between, .closeBrace :: tokens⟩
  | '[' => some ⟨.between, .openBracket :: tokens⟩
  | ']' => some ⟨.between, .closeBracket :: tokens⟩
  | ':' => some ⟨.between, .colon :: tokens⟩
  | ',' => some ⟨.between, .comma :: tokens⟩
  | '\x22' => some ⟨.text .empty, tokens⟩
  | 'n' => some ⟨.word ['u', 'l', 'l'] .null, tokens⟩
  | 't' => some ⟨.word ['r', 'u', 'e'] (.bool true), tokens⟩
  | 'f' => some ⟨.word ['a', 'l', 's', 'e'] (.bool false), tokens⟩
  | '-' => some ⟨.number .sign ['-'], tokens⟩
  | _ =>
    match NumberPart.sign.next? c with
    | some part => some ⟨.number part [c], tokens⟩
    | none => none

/-- Takes one character. -/
def step (s : State) (c : Char) : Option State :=
  match s.mode with
  | .between => start s.tokens c
  | .word (l :: left) token =>
    if c = l then
      match left with
      | [] => some ⟨.between, token :: s.tokens⟩
      | _ :: _ => some ⟨.word left token, s.tokens⟩
    else none
  | .word [] token => start (token :: s.tokens) c
  | .number part literal =>
    match part.next? c with
    | some part => some ⟨.number part (c :: literal), s.tokens⟩
    -- The character is none of the number's, so it starts the next token.
    | none => if part.mayEnd then start (.number literal.reverse :: s.tokens) c else none
  | .text part =>
    if c = '\x22' then some ⟨.between, .text part.finish :: s.tokens⟩
    else if c = '\\' then some ⟨.escape part, s.tokens⟩
    else if c.toNat < 0x20 then none
    else some ⟨.text (part.addChar c), s.tokens⟩
  | .escape part =>
    if c = 'u' then some ⟨.unit part 0 0, s.tokens⟩
    else
      match escaped? c with
      | some c => some ⟨.text (part.addChar c), s.tokens⟩
      | none => none
  | .unit part digits value =>
    match hexDigit? c with
    | none => none
    | some d =>
      let value := 16 * value + d
      if digits = 3 then some ⟨.text (part.addUnit value), s.tokens⟩
      else some ⟨.unit part (digits + 1) value, s.tokens⟩

/-- The tokens at the end of the text. -/
def finish (s : State) : Option (List Token) :=
  match s.mode with
  | .between => some s.tokens.reverse
  | .number part literal =>
    if part.mayEnd then some (.number literal.reverse :: s.tokens).reverse else none
  | _ => none

/-- The tokens of a text. -/
def tokens (cs : List Char) : Option (List Token) := do
  let s ← cs.foldlM step ⟨.between, []⟩
  finish s

end Lexer
end Document
end WireCall
