import WireCall.Document.Reader

namespace WireCall.Document

/-!
# The grammar of JSON

What a text has to be to spell a document, without a word on how it is read.

* `NumberLiteral` and `Body` are the grammars of numbers and of what stands between the quotes of a
  literal, and `Denotes` says which text such a literal denotes, if it denotes one.
* `Token.Spelled` puts them together with the words and the marks, and `Spaced` is a sequence of
  tokens with blanks before, between and behind them.
* `tokens` are the tokens of a document: its containers with their brackets, commas and colons.

A text spells a document if it is spaced out of the tokens of the document (`Spells`).
-/

/-! ### Blanks -/

/-- The character is a blank. -/
def IsBlank (c : Char) : Prop := c = ' ' ∨ c = '\t' ∨ c = '\n' ∨ c = '\r'

/-! ### Numbers -/

/-- The character is a decimal digit. -/
def IsDigit (c : Char) : Prop := '0' ≤ c ∧ c ≤ '9'

instance (c : Char) : Decidable (IsDigit c) := inferInstanceAs (Decidable (_ ∧ _))

/-- One digit or more. -/
def Digits (cs : List Char) : Prop := cs ≠ [] ∧ ∀ c ∈ cs, IsDigit c

/-- Perhaps a minus. -/
def Sign (cs : List Char) : Prop := cs = [] ∨ cs = ['-']

/-- One digit or more, the first of which is not zero. -/
def Counting (cs : List Char) : Prop :=
  ∃ d ds, cs = d :: ds ∧ IsDigit d ∧ d ≠ '0' ∧ ∀ c ∈ ds, IsDigit c

/-- What stands before the point: a sign, and a zero or digits that do not begin with one. -/
def Whole (cs : List Char) : Prop :=
  ∃ sign whole, cs = sign ++ whole ∧ Sign sign ∧ (whole = ['0'] ∨ Counting whole)

/-- A point and digits. -/
def Fraction (cs : List Char) : Prop := ∃ ds, cs = '.' :: ds ∧ Digits ds

/-- What stands before the exponent. -/
def Mantissa (cs : List Char) : Prop :=
  ∃ whole fraction, cs = whole ++ fraction ∧ Whole whole ∧ (fraction = [] ∨ Fraction fraction)

/-- An `e`, perhaps a sign, and digits. -/
def Exponent (cs : List Char) : Prop :=
  ∃ e sign ds, cs = e :: (sign ++ ds) ∧ (e = 'e' ∨ e = 'E') ∧
    (sign = [] ∨ sign = ['+'] ∨ sign = ['-']) ∧ Digits ds

/-- A number. -/
def NumberLiteral (cs : List Char) : Prop :=
  ∃ mantissa exponent, cs = mantissa ++ exponent ∧ Mantissa mantissa ∧
    (exponent = [] ∨ Exponent exponent)

/-! ### Literals -/

/-- What a literal is made of: characters, and 16-bit units written as escapes. -/
inductive Element where
  | char (c : Char)
  | unit (u : Nat)

/-- The number that hexadecimal digits stand for, after those that stand for `value`. -/
def hexValue? (value : Nat) : List Char → Option Nat
  | [] => some value
  | c :: cs => (Lexer.hexDigit? c).bind fun d => hexValue? (16 * value + d) cs

/-- How an element is written: a character as itself, unless it is a quote, a backslash or a
control, or as a backslash with a letter; a unit as a backslash with a `u` and four digits. -/
inductive Element.Spelled : Element → List Char → Prop
  | plain {c : Char} (hquote : c ≠ '\x22') (hescape : c ≠ '\\') (hcontrol : 0x20 ≤ c.toNat) :
      Spelled (.char c) [c]
  | letter {letter c : Char} (hletter : Lexer.escaped? letter = some c) :
      Spelled (.char c) ['\\', letter]
  | unit {digits : List Char} {u : Nat} (hlength : digits.length = 4)
      (hvalue : hexValue? 0 digits = some u) : Spelled (.unit u) ('\\' :: 'u' :: digits)

/-- What stands between the quotes. -/
inductive Body : List Element → List Char → Prop
  | nil : Body [] []
  | cons {e : Element} {es : List Element} {cs rest : List Char} (hfirst : e.Spelled cs)
      (hrest : Body es rest) : Body (e :: es) (cs ++ rest)

/-- The unit is the first half of a surrogate pair. -/
def IsHigh (u : Nat) : Prop := 0xd800 ≤ u ∧ u < 0xdc00

/-- The unit is the second half of a surrogate pair. -/
def IsLow (u : Nat) : Prop := 0xdc00 ≤ u ∧ u < 0xe000

/-- The character of a surrogate pair. -/
def paired (high low : Nat) : Char :=
  Char.ofNat (0x10000 + (high - 0xd800) * 0x400 + (low - 0xdc00))

/-- The elements denote these characters.  Half of a surrogate pair denotes nothing without the
other half behind or before it. -/
inductive Denotes : List Element → List Char → Prop
  | nil : Denotes [] []
  | char {c : Char} {es : List Element} {cs : List Char} (hrest : Denotes es cs) :
      Denotes (.char c :: es) (c :: cs)
  | unit {u : Nat} {es : List Element} {cs : List Char} (hhigh : ¬ IsHigh u) (hlow : ¬ IsLow u)
      (hrest : Denotes es cs) : Denotes (.unit u :: es) (Char.ofNat u :: cs)
  | pair {u v : Nat} {es : List Element} {cs : List Char} (hhigh : IsHigh u) (hlow : IsLow v)
      (hrest : Denotes es cs) : Denotes (.unit u :: .unit v :: es) (paired u v :: cs)

/-! ### Tokens -/

/-- How a token is written. -/
inductive Token.Spelled : Token → List Char → Prop
  | openBrace : Spelled .openBrace ['\x7b']
  | closeBrace : Spelled .closeBrace ['\x7d']
  | openBracket : Spelled .openBracket ['[']
  | closeBracket : Spelled .closeBracket [']']
  | colon : Spelled .colon [':']
  | comma : Spelled .comma [',']
  | null : Spelled .null ['n', 'u', 'l', 'l']
  | true : Spelled (.bool true) ['t', 'r', 'u', 'e']
  | false : Spelled (.bool false) ['f', 'a', 'l', 's', 'e']
  | number {literal : List Char} (hnumber : NumberLiteral literal) :
      Spelled (.number literal) literal
  | text {es : List Element} {body : List Char} {s : Option String} (hbody : Body es body)
      (hdenotes : ∀ text, s = some text ↔ Denotes es text.toList) :
      Spelled (.text s) ('\x22' :: (body ++ ['\x22']))

/-- The characters are those of the tokens, with blanks before, between and behind them. -/
inductive Spaced : List Token → List Char → Prop
  | done {blanks : List Char} (hblanks : ∀ c ∈ blanks, IsBlank c) : Spaced [] blanks
  | token {t : Token} {ts : List Token} {blanks cs rest : List Char}
      (hblanks : ∀ c ∈ blanks, IsBlank c) (hfirst : t.Spelled cs) (hrest : Spaced ts rest) :
      Spaced (t :: ts) (blanks ++ (cs ++ rest))

/-! ### Documents -/

mutual

/-- The tokens of a document. -/
def tokens : Document → List Token
  | .null => [.null]
  | .bool b => [.bool b]
  | .number literal => [.number literal]
  | .text s => [.text s]
  | .array items =>
    .openBracket :: (List.intercalate [.comma] (itemTokens items) ++ [.closeBracket])
  | .object members =>
    .openBrace :: (List.intercalate [.comma] (memberTokens members) ++ [.closeBrace])

/-- The tokens of each item. -/
def itemTokens : List Document → List (List Token)
  | [] => []
  | d :: ds => tokens d :: itemTokens ds

/-- The tokens of each member: its key, a colon and its value. -/
def memberTokens : List (Option String × Document) → List (List Token)
  | [] => []
  | (key, d) :: ms => (.text key :: .colon :: tokens d) :: memberTokens ms

end

/-- The text spells the document. -/
def Spells (d : Document) (s : String) : Prop := Spaced d.tokens s.toList

end WireCall.Document
