import WireCall.Gzip.Inflate
import WireCall.Gzip.Deflate
import WireCall.Proofs.Gzip.Bits

namespace WireCall.Gzip

/-!
# The fixed code read back

The words of the fixed code end at their symbols in the tree of the code.  A length or a distance is
written as the index of its range and the offset in the range, and `readRange_rangeOf` reads it
back: a table of ranges leaves no gap, each of them reaching up to the start of the next
(`Gapless`), so the last range that starts at or below a number holds it.
-/

/-! ### Words -/

/-- In the fixed tree the word of a symbol leads to it. -/
theorem atPath?_fixedWord {symbol : Nat} (h : symbol < 288) :
    fixedTree.atPath? (fixedWord symbol) = some symbol := by
  have hwords : ∀ symbol < 288, fixedTree.atPath? (fixedWord symbol) = some symbol := by
    decide +kernel
  exact hwords symbol h

/-- In the fixed tree of distances the word of a symbol leads to it. -/
theorem atPath?_distanceWord {symbol : Nat} (h : symbol < 32) :
    fixedDistanceTree.atPath? (bitsOfCode 5 symbol) = some symbol := by
  have hwords : ∀ symbol < 32, fixedDistanceTree.atPath? (bitsOfCode 5 symbol) = some symbol := by
    decide +kernel
  exact hwords symbol h

/-! ### Ranges -/

/-- Each range starts after the one before it, and not after its end. -/
def Gapless : List (Nat × Nat) → Prop
  | [] | [_] => True
  | range :: next :: ranges =>
    range.1 < next.1 ∧ next.1 ≤ range.1 + Nat.pow 2 range.2 ∧ Gapless (next :: ranges)

instance Gapless.decidable : (ranges : List (Nat × Nat)) → Decidable (Gapless ranges)
  | [] | [_] => inferInstanceAs (Decidable True)
  | range :: next :: ranges =>
    have := Gapless.decidable (next :: ranges)
    inferInstanceAs (Decidable (range.1 < next.1 ∧ next.1 ≤ range.1 + Nat.pow 2 range.2 ∧
      Gapless (next :: ranges)))

/-- The first number past all ranges. -/
def endOf : List (Nat × Nat) → Nat
  | [] => 0
  | [range] => range.1 + Nat.pow 2 range.2
  | _ :: next :: ranges => endOf (next :: ranges)

/-- The number of ranges that start at or below `n`. -/
def startsBelow (n : Nat) (ranges : List (Nat × Nat)) : Nat :=
  ranges.countP fun range => decide (range.1 ≤ n)

/-- No range starts at or below a number before the first one. -/
theorem startsBelow_eq_zero {ranges : List (Nat × Nat)} {range : Nat × Nat} {n : Nat}
    (hgapless : Gapless (range :: ranges)) (hn : n < range.1) :
    startsBelow n (range :: ranges) = 0 := by
  induction ranges generalizing range with
  | nil =>
    rw [startsBelow, List.countP_cons_of_neg (by simpa using hn)]
    rfl
  | cons next ranges ih =>
    obtain ⟨hstart, -, hnext⟩ := hgapless
    rw [startsBelow, List.countP_cons_of_neg (by simpa using hn)]
    exact ih hnext (Nat.lt_trans hn hstart)

/-- The last range that starts at or below a number holds it. -/
theorem getElem?_startsBelow {ranges : List (Nat × Nat)} {range : Nat × Nat} {n : Nat}
    (hgapless : Gapless (range :: ranges)) (hlow : range.1 ≤ n)
    (hhigh : n < endOf (range :: ranges)) :
    ∃ found, (range :: ranges)[startsBelow n (range :: ranges) - 1]? = some found ∧
      found.1 ≤ n ∧ n < found.1 + Nat.pow 2 found.2 := by
  -- By induction on the ranges: the number is in the first one, or the search goes on behind it.
  induction ranges generalizing range with
  | nil =>
    refine ⟨range, ?_, hlow, hhigh⟩
    rw [startsBelow, List.countP_cons_of_pos (by simpa using hlow)]
    rfl
  | cons next ranges ih =>
    obtain ⟨-, hreach, hnext⟩ := hgapless
    have hcount : startsBelow n (range :: next :: ranges) =
        startsBelow n (next :: ranges) + 1 :=
      List.countP_cons_of_pos (by simpa using hlow)
    by_cases hstarts : next.1 ≤ n
    · obtain ⟨found, hfound, hbounds⟩ := ih hnext hstarts hhigh
      have hpos : startsBelow n (next :: ranges) ≠ 0 := by
        rw [startsBelow, List.countP_cons_of_pos (by simpa using hstarts)]
        exact Nat.succ_ne_zero _
      refine ⟨found, ?_, hbounds⟩
      obtain ⟨count, hcount'⟩ := Nat.exists_eq_succ_of_ne_zero hpos
      rw [hcount'] at hfound
      rw [hcount, hcount']
      exact hfound
    · refine ⟨range, ?_, hlow, by omega⟩
      rw [hcount, startsBelow_eq_zero hnext (by omega)]
      rfl

/-- The fold over the ranges counts those that start at or below the number. -/
theorem foldl_count (ranges : List (Nat × Nat)) (n count : Nat) :
    ranges.foldl (fun k range => if range.1 ≤ n then k + 1 else k) count =
      count + startsBelow n ranges := by
  induction ranges generalizing count with
  | nil => rfl
  | cons range ranges ih =>
    rw [List.foldl_cons, ih, startsBelow, startsBelow, List.countP_cons]
    by_cases h : range.1 ≤ n
    · rw [if_pos h, if_pos (by simpa using h)]
      omega
    · rw [if_neg h, if_neg (by simpa using h)]
      omega

/-- What the table says about a number in one of its ranges. -/
theorem rangeOf_spec {ranges : Array (Nat × Nat)} {range : Nat × Nat}
    {others : List (Nat × Nat)} {n : Nat} (htable : ranges.toList = range :: others)
    (hgapless : Gapless (range :: others)) (hlow : range.1 ≤ n)
    (hhigh : n < endOf (range :: others)) :
    ∃ index least width, rangeOf ranges n = (index, least, width) ∧
      ranges[index]? = some (least, width) ∧ least ≤ n ∧ n - least < Nat.pow 2 width := by
  obtain ⟨⟨least, width⟩, hfound, hleast, hwidth⟩ := getElem?_startsBelow hgapless hlow hhigh
  have hindex : ranges[startsBelow n (range :: others) - 1]? = some (least, width) := by
    rw [← Array.getElem?_toList, htable, hfound]
  refine ⟨startsBelow n (range :: others) - 1, least, width, ?_, hindex, hleast, ?_⟩
  · rw [rangeOf, ← Array.foldl_toList, foldl_count, htable, Nat.zero_add,
      Array.getD_eq_getD_getElem?, hindex]
    rfl
  · show n - least < Nat.pow 2 width
    have : n < least + Nat.pow 2 width := hwidth
    omega

/-- Lengths are from 3 to 258. -/
theorem rangeOf_length {length : Nat} (hlow : 3 ≤ length) (hhigh : length ≤ 258) :
    ∃ index least width, rangeOf lengthRanges length = (index, least, width) ∧
      lengthRanges[index]? = some (least, width) ∧ least ≤ length ∧
        length - least < Nat.pow 2 width :=
  rangeOf_spec rfl (by decide) hlow (Nat.lt_succ_of_le hhigh)

/-- Distances are from 1 to 32768. -/
theorem rangeOf_distance {distance : Nat} (hlow : 1 ≤ distance) (hhigh : distance ≤ 32768) :
    ∃ index least width, rangeOf distanceRanges distance = (index, least, width) ∧
      distanceRanges[index]? = some (least, width) ∧ least ≤ distance ∧
        distance - least < Nat.pow 2 width :=
  rangeOf_spec rfl (by decide) hlow (Nat.lt_succ_of_le hhigh)

/-- A number in a range is read back from its extra bits. -/
theorem readRange_of_shows {ranges : Array (Nat × Nat)} {index least width n : Nat}
    (hindex : ranges[index]? = some (least, width)) (hlow : least ≤ n)
    (hhigh : n - least < Nat.pow 2 width) {s : BitSource} {bits : List Bool}
    (h : s.Shows (bitsOfNat width (n - least) ++ bits)) :
    ∃ s', Inflate.readRange ranges index s = .ok (n, s') ∧ s'.Shows bits := by
  obtain ⟨s', hnumber, hs'⟩ := BitSource.number_of_shows hhigh h
  refine ⟨s', ?_, hs'⟩
  rw [Inflate.readRange, hindex]
  show (s.number width >>= fun r => Except.ok (least + r.1, r.2)) = _
  rw [hnumber]
  show Except.ok (least + (n - least), s') = _
  rw [Nat.add_sub_cancel' hlow]

end WireCall.Gzip
