import WireCall.Gzip.PrefixCode

namespace WireCall

/-!
# The alphabet of compressed blocks

A block is a sequence of literal bytes and of matches, each a length from 3 to 258 and a distance
back from 1 to 32768.  Symbols 0 to 255 are the literals, 256 ends the block, and a higher symbol
gives a range of lengths in which extra bits pick one; distances have an alphabet of their own.
The module holds both tables and the words of the fixed code.
-/

namespace Gzip

/-- A piece of a block. -/
inductive Token where
  | literal (b : UInt8)
  | copy (length distance : Nat)
deriving DecidableEq, Repr

/-- The symbol at the end of a block. -/
def endOfBlock : Nat := 256

/-- The least length and the number of extra bits of the symbols from 257 on. -/
def lengthRanges : Array (Nat × Nat) := #[
  (3, 0), (4, 0), (5, 0), (6, 0), (7, 0), (8, 0), (9, 0), (10, 0), (11, 1), (13, 1), (15, 1),
  (17, 1), (19, 2), (23, 2), (27, 2), (31, 2), (35, 3), (43, 3), (51, 3), (59, 3), (67, 4),
  (83, 4), (99, 4), (115, 4), (131, 5), (163, 5), (195, 5), (227, 5), (258, 0)]

/-- The least distance and the number of extra bits of the distance symbols. -/
def distanceRanges : Array (Nat × Nat) := #[
  (1, 0), (2, 0), (3, 0), (4, 0), (5, 1), (7, 1), (9, 2), (13, 2), (17, 3), (25, 3), (33, 4),
  (49, 4), (65, 5), (97, 5), (129, 6), (193, 6), (257, 7), (385, 7), (513, 8), (769, 8),
  (1025, 9), (1537, 9), (2049, 10), (3073, 10), (4097, 11), (6145, 11), (8193, 12), (12289, 12),
  (16385, 13), (24577, 13)]

/-- The last of the ranges that starts at or below `n`: its index, start and extra bits. -/
def rangeOf (ranges : Array (Nat × Nat)) (n : Nat) : Nat × Nat × Nat :=
  let below := ranges.foldl (fun k range => if range.1 ≤ n then k + 1 else k) 0
  let index := below - 1
  (index, ranges.getD index (0, 0))

/-! ### The fixed code -/

/-- The word lengths of the fixed code for literals, lengths and the end of a block. -/
def fixedLengths : List Nat :=
  List.replicate 144 8 ++ List.replicate 112 9 ++ List.replicate 24 7 ++ List.replicate 8 8

/-- The word lengths of the fixed code for distances; its last two words have no range. -/
def fixedDistances : List Nat := List.replicate 32 5

/-- The tree of the fixed code for literals, lengths and the end of a block. -/
def fixedTree : CodeTree := PrefixCode.tree fixedLengths

/-- The tree of the fixed code for distances. -/
def fixedDistanceTree : CodeTree := PrefixCode.tree fixedDistances

/-- The word of a symbol in the fixed code. -/
def fixedWord (symbol : Nat) : List Bool :=
  if symbol < 144 then bitsOfCode 8 (0x30 + symbol)
  else if symbol < 256 then bitsOfCode 9 (0x190 + (symbol - 144))
  else if symbol < 280 then bitsOfCode 7 (symbol - 256)
  else bitsOfCode 8 (0xc0 + (symbol - 280))

end Gzip
end WireCall
