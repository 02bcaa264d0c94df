import WireCall.Gzip.Symbols
import WireCall.Fault

namespace WireCall

/-!
# Reading compressed blocks

The reader is a machine whose state is the unread bits, the bytes produced so far and the phase: at
the head of a block, inside a stored block, or inside a coded one.  `Inflate.step` takes one piece
and consumes at least one bit, so eight times the number of input bytes bounds a run.

The bytes produced last are kept in a window, from which matches are copied; it starts out with
zeros, so a match may reach back before the data.

A reader under a limit works ahead of it: it hands over what it has produced, and looks at the
limit, only when the window is full, when a portion of the bytes it reads is used up, or at the end
(`Inflate.run`).  A fault is therefore reported although the limit has been passed, if what has been
handed over before it does not pass the limit.
-/

namespace Inflate

open Gzip

/-- What the reader is in the middle of. -/
inductive Phase where
  | head
  | stored (left : Nat) (last : Bool)
  | coded (literals distances : CodeTree) (last : Bool)

/-- The state of the reader. -/
structure State where
  source : BitSource
  out : Array UInt8
  phase : Phase

/-- The outcome of one step. -/
inductive Step where
  | next (s : State)
  | done (source : BitSource) (out : Array UInt8)
  | broken (halt : Halt)

/-- After the last byte or symbol of a block. -/
def finishBlock (source : BitSource) (out : Array UInt8) (last : Bool) : Step :=
  if last then .done source out else .next ⟨source, out, .head⟩

/-- Appends `length` bytes, each the one `distance` places before it.  Before the first byte there
are zeros. -/
def copy (out : Array UInt8) (distance : Nat) : Nat → Array UInt8
  | 0 => out
  | length + 1 =>
    let b := if distance ≤ out.size then out.getD (out.size - distance) 0 else 0
    copy (out.push b) distance length

/-! ### Code lengths -/

/-- The order in which the word lengths of the code for word lengths are written. -/
def lengthOrder : List Nat := [16, 17, 18, 0, 8, 7, 9, 6, 10, 5, 11, 4, 12, 3, 13, 2, 14, 1, 15]

/-- Reads a word length of three bits for each of the symbols. -/
def readOrdered : List Nat → Array Nat → BitSource → Except Halt (Array Nat × BitSource)
  | [], lengths, s => .ok (lengths, s)
  | symbol :: symbols, lengths, s => do
    let (n, s) ← s.number 3
    readOrdered symbols (lengths.setIfInBounds symbol n) s

/-- Reads the word lengths of the two codes of a block, `total` in all, the ones read before being
in reverse order.  Symbols above 15 repeat a length. -/
def readLengths (tree : CodeTree) (total : Nat) :
    Nat → List Nat → BitSource → Except Halt (List Nat × BitSource)
  | 0, _, s => .error ⟨.badBlock, s⟩
  | fuel + 1, got, s =>
    if total ≤ got.length then
      if got.length = total then .ok (got.reverse, s) else .error ⟨.badBlock, s⟩
    else do
      let (symbol, s) ← tree.readSymbol s
      if symbol < 16 then readLengths tree total fuel (symbol :: got) s
      else
        -- 16 repeats the last length; 17 and 18 stand for short and long runs of zeros.
        let (width, least, repeated) : Nat × Nat × Option Nat :=
          if symbol = 16 then (2, 3, got.head?)
          else if symbol = 17 then (3, 3, some 0)
          else (7, 11, some 0)
        match repeated with
        | none => .error ⟨.badBlock, s⟩
        | some length =>
          let (n, s) ← s.number width
          readLengths tree total fuel (List.replicate (least + n) length ++ got) s

/-- The trees of the two codes that a block brings along. -/
def readTrees (s : BitSource) : Except Halt (CodeTree × CodeTree × BitSource) := do
  let (literals, s) ← s.number 5
  let (distances, s) ← s.number 5
  let (ordered, s) ← s.number 4
  -- No symbol above 285 and no distance symbol above 29 has a range.
  if 29 < literals ∨ 29 < distances then .error ⟨.badBlock, s⟩
  else
    let (lengths, s) ← readOrdered (lengthOrder.take (ordered + 4)) (Array.replicate 19 0) s
    if !PrefixCode.isComplete lengths.toList then .error ⟨.badBlock, s⟩
    else
      let (lengths, s) ←
        readLengths (PrefixCode.tree lengths.toList) (literals + 257 + distances + 1) 321 [] s
      let (forLiterals, forDistances) := lengths.splitAt (literals + 257)
      -- A code of a single word leaves half of the space free, and is allowed all the same.
      let sound (lengths : List Nat) : Bool :=
        PrefixCode.isComplete lengths || PrefixCode.isSingle lengths
      if sound forLiterals && sound forDistances then
        .ok (PrefixCode.tree forLiterals, PrefixCode.tree forDistances, s)
      else .error ⟨.badBlock, s⟩

/-! ### The machine -/

/-- Reads the head of a stored block: its length and the complement of its length, which start at a
whole byte. -/
def readStoredHead (s : BitSource) : Except Halt (Nat × BitSource) := do
  let (length, s) ← s.align.number 16
  let (complement, s) ← s.number 16
  if length + complement = 0xffff then return (length, s) else .error ⟨.badBlock, s⟩

/-- Reads the head of a block. -/
def stepHead (source : BitSource) (out : Array UInt8) : Step :=
  match source.number 3 with
  | .error halt => .broken halt
  | .ok (head, source) =>
    let last := head % 2 == 1
    match head / 2 with
    | 0 =>
      match readStoredHead source with
      | .error halt => .broken halt
      | .ok (0, source) => finishBlock source out last
      | .ok (length + 1, source) => .next ⟨source, out, .stored (length + 1) last⟩
    | 1 => .next ⟨source, out, .coded fixedTree fixedDistanceTree last⟩
    | 2 =>
      match readTrees source with
      | .error halt => .broken halt
      | .ok (literals, distances, source) => .next ⟨source, out, .coded literals distances last⟩
    | _ => .broken ⟨.badBlock, source⟩

/-- Reads one byte of a stored block. -/
def stepStored (source : BitSource) (out : Array UInt8) (left : Nat) (last : Bool) : Step :=
  match source.byte with
  | .error halt => .broken halt
  | .ok (b, source) =>
    if left ≤ 1 then finishBlock source (out.push b) last
    else .next ⟨source, out.push b, .stored (left - 1) last⟩

/-- Reads a length or a distance: the start of its range and the extra bits. -/
def readRange (ranges : Array (Nat × Nat)) (index : Nat) (s : BitSource) :
    Except Halt (Nat × BitSource) :=
  match ranges[index]? with
  | none => .error ⟨.badBlock, s⟩
  | some (least, width) => do
    let (extra, s) ← s.number width
    return (least + extra, s)

/-- Reads the length and the distance of a match whose first symbol has been read. -/
def readMatch (distances : CodeTree) (symbol : Nat) (s : BitSource) :
    Except Halt (Nat × Nat × BitSource) := do
  let (length, s) ← readRange lengthRanges (symbol - 257) s
  let (symbol, s) ← distances.readSymbol s
  let (distance, s) ← readRange distanceRanges symbol s
  return (length, distance, s)

/-- Reads one symbol of a coded block. -/
def stepCoded (source : BitSource) (out : Array UInt8) (literals distances : CodeTree)
    (last : Bool) : Step :=
  match literals.readSymbol source with
  | .error halt => .broken halt
  | .ok (symbol, source) =>
    if symbol < 256 then
      .next ⟨source, out.push (UInt8.ofNat symbol), .coded literals distances last⟩
    else if symbol = endOfBlock then finishBlock source out last
    else
      match readMatch distances symbol source with
      | .error halt => .broken halt
      | .ok (length, distance, source) =>
        .next ⟨source, copy out distance length, .coded literals distances last⟩

/-- Takes one piece. -/
def step : State → Step
  | ⟨source, out, .head⟩ => stepHead source out
  | ⟨source, out, .stored left last⟩ => stepStored source out left last
  | ⟨source, out, .coded literals distances last⟩ => stepCoded source out literals distances last

/-! ### Runs under a limit -/

/-- The number of bytes in a window, and in a portion of the bytes that are read. -/
def windowSize : Nat := 32768

/-- The number of bytes in all windows but the last, of `size` bytes in all. -/
def windowsBefore (size : Nat) : Nat := (size - 1) / windowSize * windowSize

/-- The number of bytes handed over when reading from the state `s` on has come to `reached`, being
`handed` at `s`: a new portion is only taken up when all bytes produced so far have been handed
over. -/
def handedAt (reached : BitSource) (handed : Nat) (s : State) : Nat :=
  if windowsBefore reached.taken = windowsBefore s.source.taken then handed else s.out.size

/-- The outcome of a run. -/
inductive Outcome where
  | complete (out : Array UInt8) (rest : Octets)
  | tooLong
  | broken (cause : GzipFault)
deriving DecidableEq, Repr

/-- The outcome when no more can be read, once `handed` bytes have been handed over. -/
def Outcome.ofHalt (limit handed : Nat) (cause : GzipFault) : Outcome :=
  if limit < handed then .tooLong else .broken cause

/-- Runs the machine for at most `fuel` steps, until it has handed over more than `limit` bytes,
`handed` being those at the last change of portions. -/
def run (limit : Nat) : Nat → Nat → State → Outcome
  | 0, _, _ => .broken .truncated
  | fuel + 1, handed, s =>
    if limit < max handed (windowsBefore s.out.size) then .tooLong
    else
      match step s with
      | .next s' => run limit fuel (handedAt s'.source handed s) s'
      | .done source out => if limit < out.size then .tooLong else .complete out source.align.rest
      -- What came before the end of the bytes is good, and is handed over first.
      | .broken ⟨.truncated, _⟩ => .ofHalt limit s.out.size .truncated
      | .broken ⟨cause, source⟩ => .ofHalt limit (handedAt source handed s) cause

/-- Reads the blocks at the front of the bytes, which come after `taken` others. -/
def ofOctets (limit taken : Nat) (bytes : Octets) : Outcome :=
  run limit (8 * bytes.length + 1) 0 ⟨.ofOctets taken bytes, #[], .head⟩

end Inflate
end WireCall
