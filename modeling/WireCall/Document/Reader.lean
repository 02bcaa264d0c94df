import WireCall.Document.Token

namespace WireCall

/-!
# Reading JSON

Tokens are put together by a machine that keeps the containers which are still open on a stack, so
nesting is not limited.  Its state says what may come next.
-/

namespace Document

/-- A container that is still open: an array with its items so far, or an object with its members
so far, and the key whose value is being read; all in reverse order. -/
inductive Open where
  | array (items : List Document)
  | object (members : List (Option String × Document))
  | member (members : List (Option String × Document)) (key : Option String)
deriving Repr

/-- What may come next. -/
inductive Expect where
  | value
  | firstItem
  | firstKey
  | key
  | colon
  | separator
  | finished (d : Document)
deriving Repr

/-- What may come next, and the open containers, the innermost first. -/
structure Assembly where
  expect : Expect
  stack : List Open
deriving Repr

namespace Assembly

/-- A document is complete: it goes into the innermost open container. -/
def complete (d : Document) : List Open → Option Assembly
  | [] => some ⟨.finished d, []⟩
  | .array items :: stack => some ⟨.separator, .array (d :: items) :: stack⟩
  | .member members key :: stack => some ⟨.separator, .object ((key, d) :: members) :: stack⟩
  | .object _ :: _ => none

/-- Takes the first token of a value. -/
def startValue (stack : List Open) (t : Token) : Option Assembly :=
  match t with
  | .null => complete .null stack
  | .bool b => complete (.bool b) stack
  | .number literal => complete (.number literal) stack
  | .text s => complete (.text s) stack
  | .openBracket => some ⟨.firstItem, .array [] :: stack⟩
  | .openBrace => some ⟨.firstKey, .object [] :: stack⟩
  | _ => none

/-- Takes a key. -/
def takeKey (stack : List Open) (t : Token) : Option Assembly :=
  match t, stack with
  | .text key, .object members :: stack => some ⟨.colon, .member members key :: stack⟩
  | _, _ => none

/-- Closes the innermost container. -/
def close (stack : List Open) (t : Token) : Option Assembly :=
  match t, stack with
  | .closeBracket, .array items :: stack => complete (.array items.reverse) stack
  | .closeBrace, .object members :: stack => complete (.object members.reverse) stack
  | _, _ => none

/-- Takes one token. -/
def step (a : Assembly) (t : Token) : Option Assembly :=
  match a.expect with
  | .value => startValue a.stack t
  | .firstItem => if t = .closeBracket then close a.stack t else startValue a.stack t
  | .firstKey => if t = .closeBrace then close a.stack t else takeKey a.stack t
  | .key => takeKey a.stack t
  | .colon => if t = .colon then some ⟨.value, a.stack⟩ else none
  | .separator =>
    if t = .comma then
      match a.stack with
      | .array _ :: _ => some ⟨.value, a.stack⟩
      | .object _ :: _ => some ⟨.key, a.stack⟩
      | _ => none
    else close a.stack t
  | .finished _ => none

end Assembly

/-- The document that the tokens spell. -/
def ofTokens? (tokens : List Token) : Option Document := do
  let a ← tokens.foldlM Assembly.step ⟨.value, []⟩
  match a.expect with
  | .finished d => some d
  | _ => none

/-- The document that a text spells. -/
def parse? (s : String) : Option Document := do
  let tokens ← Lexer.tokens s.toList
  ofTokens? tokens

end Document
end WireCall
