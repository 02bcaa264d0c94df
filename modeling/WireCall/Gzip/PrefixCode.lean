import WireCall.Gzip.Bits

namespace WireCall

/-!
# Prefix codes

A prefix code is given by the lengths of its words; the words are then fixed: shorter ones come
first, equally long ones follow the order of their symbols (`PrefixCode.words`).  Reading walks a
tree that has the symbols at the ends of their words.
-/

/-- A binary tree with symbols at its leaves; paths that no word takes end at `empty`. -/
inductive CodeTree where
  | empty
  | leaf (symbol : Nat)
  | node (zero one : CodeTree)
deriving Repr, Inhabited

namespace CodeTree

/-- The tree with a symbol added at the end of a path. -/
def insert (symbol : Nat) : List Bool → CodeTree → CodeTree
  | [], _ => leaf symbol
  | false :: path, node zero one => node (insert symbol path zero) one
  | true :: path, node zero one => node zero (insert symbol path one)
  | false :: path, _ => node (insert symbol path empty) empty
  | true :: path, _ => node empty (insert symbol path empty)

/-- The symbol at the end of a path, when the path ends at a leaf. -/
def atPath? : CodeTree → List Bool → Option Nat
  | leaf symbol, [] => some symbol
  | node zero one, b :: path => if b then one.atPath? path else zero.atPath? path
  | _, _ => none

/-- Reads bits down to a leaf.  Bits that leave every word are a fault as soon as they do; bits that
end within a word are merely too few. -/
def readSymbol : CodeTree → BitSource → Except Halt (Nat × BitSource)
  | empty, s => .error ⟨.badBlock, s⟩
  | leaf symbol, s => .ok (symbol, s)
  | node zero one, s =>
    match s.next? with
    | none => .error ⟨.truncated, s⟩
    | some (b, s) => if b then one.readSymbol s else zero.readSymbol s

end CodeTree

namespace PrefixCode

/-- The number of words of the given length. -/
def count (lengths : List Nat) (length : Nat) : Nat := lengths.count length

/-- The first word of each length from `length` on, when `code` is that of the length before. -/
def firstWords (lengths : List Nat) : Nat → Nat → Nat → List Nat
  | 0, _, _ => []
  | more + 1, length, code =>
    let first := 2 * (code + if length = 1 then 0 else count lengths (length - 1))
    first :: firstWords lengths more (length + 1) first

/-- Gives each symbol from `symbol` on its word, `next` holding the next word of each length. -/
def assign : Nat → List Nat → Array Nat → List (Nat × List Bool)
  | _, [], _ => []
  | symbol, length :: lengths, next =>
    if length = 0 then assign (symbol + 1) lengths next
    else
      let code := next.getD (length - 1) 0
      (symbol, bitsOfCode length code) ::
        assign (symbol + 1) lengths (next.setIfInBounds (length - 1) (code + 1))

/-- The words of the symbols 0, 1, … with the given lengths, of at most 15 bits; a symbol of
length 0 has no word. -/
def words (lengths : List Nat) : List (Nat × List Bool) :=
  assign 0 lengths (firstWords lengths 15 1 0).toArray

/-- The part of the space of 15-bit words that the words take, in units of one such word. -/
def weight (lengths : List Nat) : Nat :=
  lengths.foldl (fun acc length => if length = 0 then acc else acc + Nat.pow 2 (15 - length)) 0

/-- Whether every sequence of bits starts with a word, exactly one. -/
def isComplete (lengths : List Nat) : Bool := weight lengths = 32768

/-- Whether the code has at most one word. -/
def isSingle (lengths : List Nat) : Bool := (lengths.filter (· != 0)).length ≤ 1

/-- The number of bits that a reader looks up at once. -/
def lookupBits : Nat := 10

/-- The words that a code of one long word leaves unused past the bits that are looked up at once.
They are not told apart from words of symbol 0; all that are shorter are faults. -/
def strays (lengths : List Nat) : List (Nat × List Bool) :=
  match lengths.filter (· != 0) with
  | [length] =>
    (List.range' lookupBits (length - lookupBits)).map fun zeros =>
      (0, List.replicate zeros false ++ [true])
  | _ => []

/-- The tree of the code.  It starts from a node, since even in a code without words it takes a bit
to find a fault. -/
def tree (lengths : List Nat) : CodeTree :=
  (words lengths ++ strays lengths).foldl (fun t word => t.insert word.1 word.2)
    (.node .empty .empty)

end PrefixCode

end WireCall
