import Mathlib.Algebra.CharP.Two
import Mathlib.Algebra.Polynomial.Degree.IsMonicOfDegree
import Mathlib.Algebra.Polynomial.Div
import Mathlib.Tactic.ComputeDegree
import Mathlib.Algebra.Field.ZMod
import WireCall.Gzip.Crc32
import WireCall.Proofs.Gzip.Bits

namespace WireCall.Crc32

open Polynomial

/-!
# The check value as a remainder

A run of bits stands for a polynomial over the field of two elements, the first bit being the
coefficient of the highest power (`ofBits`).  The check value of some data is a remainder: the bits
of the data, of which the first 32 are flipped, are followed by 32 zeros and divided by `generator`,
and the remainder is flipped again (`IsCheckOf`).  To flip the first 32 bits of the data and of the
zeros behind it is to add 32 ones, as many places up as the data has bits.

The register of the computation always holds the remainder of what has been taken in so far.  A step
of one bit multiplies it by `X` (`dvd_turn`), and a step of one byte by `X ^ 8` with the byte added
on top (`dvd_step`): the table holds what eight single steps make of the lowest byte of the
register, and the other bytes only move.

Main statement: the computed value is the only one with the required remainder (`isCheckOf_iff`).
-/

noncomputable section

/-- The polynomial whose coefficients are the bits, the first one for the highest power. -/
def ofBits : List Bool → (ZMod 2)[X]
  | [] => 0
  | b :: bits => (if b then X ^ bits.length else 0) + ofBits bits

/-- The divisor without its highest power. -/
def tail : (ZMod 2)[X] :=
  X ^ 26 + X ^ 23 + X ^ 22 + X ^ 16 + X ^ 12 + X ^ 11 + X ^ 10 + X ^ 8 + X ^ 7 + X ^ 5 + X ^ 4 +
    X ^ 2 + X + 1

/-- The divisor. -/
def generator : (ZMod 2)[X] := X ^ 32 + tail

/-- The bits of a word, the lowest first. -/
def wordBits (n : UInt32) : List Bool := bitsOfNat 32 n.toNat

/-- The word is the check value of the data. -/
def IsCheckOf (check : UInt32) (data : Octets) : Prop :=
  ofBits ((wordBits check).map not) =
    (ofBits (data.flatMap bitsOfByte) * X ^ 32 +
      ofBits (List.replicate 32 true) * X ^ (8 * data.length)) %ₘ generator

/-! ### Bits of numbers -/

theorem bitsOfNat_zero (width : Nat) : bitsOfNat width 0 = List.replicate width false := by
  induction width with
  | zero => rfl
  | succ width ih => rw [bitsOfNat, Nat.zero_div, ih, List.replicate_succ]; rfl

/-- The low bits of a number stand before its high ones. -/
theorem bitsOfNat_add (width more n : Nat) :
    bitsOfNat (width + more) n = bitsOfNat width n ++ bitsOfNat more (n / 2 ^ width) := by
  induction width generalizing n with
  | zero => rw [Nat.zero_add, Nat.pow_zero, Nat.div_one]; rfl
  | succ width ih =>
    rw [Nat.succ_add, bitsOfNat, bitsOfNat, ih, Nat.div_div_eq_div_mul, Nat.pow_succ',
      List.cons_append]

/-- Cutting a number to its width keeps its bits. -/
theorem bitsOfNat_mod (width n : Nat) : bitsOfNat width (n % 2 ^ width) = bitsOfNat width n := by
  induction width generalizing n with
  | zero => rfl
  | succ width ih =>
    have hbit : n % (2 * 2 ^ width) % 2 = n % 2 := Nat.mod_mul_right_mod n 2 (2 ^ width)
    have hrest : n % (2 * 2 ^ width) / 2 = n / 2 % 2 ^ width := Nat.mod_mul_right_div_self n 2 _
    rw [bitsOfNat, bitsOfNat, Nat.pow_succ', hbit, hrest, ih]

/-- Exclusive or goes bit by bit. -/
theorem bitsOfNat_xor (width n m : Nat) :
    bitsOfNat width (n ^^^ m) = List.zipWith xor (bitsOfNat width n) (bitsOfNat width m) := by
  induction width generalizing n m with
  | zero => rfl
  | succ width ih =>
    have hbit : ((n ^^^ m) % 2 == 1) = xor (n % 2 == 1) (m % 2 == 1) := by
      have hxor := @Nat.xor_mod_two_eq_one n m
      rcases Nat.mod_two_eq_zero_or_one n with hn | hn <;>
        rcases Nat.mod_two_eq_zero_or_one m with hm | hm <;>
        simp_all
    rw [bitsOfNat, bitsOfNat, bitsOfNat, List.zipWith_cons_cons, Nat.xor_div_two, ih, hbit]

/-- A number within the width is that of its bits. -/
theorem natOfBits_bitsOfNat {width n : Nat} (h : n < 2 ^ width) :
    natOfBits (bitsOfNat width n) = n := by
  induction width generalizing n with
  | zero => exact (Nat.lt_one_iff.mp h).symm
  | succ width ih =>
    have hhalf : n / 2 < 2 ^ width := by
      rw [Nat.pow_succ] at h
      omega
    -- The lowest bit and the half make up the number.
    rw [bitsOfNat, natOfBits, ih hhalf]
    rcases Nat.mod_two_eq_zero_or_one n with hbit | hbit
    · rw [hbit]
      show 0 + 2 * (n / 2) = n
      omega
    · rw [hbit]
      show 1 + 2 * (n / 2) = n
      omega

/-- Bits are those of their number. -/
theorem bitsOfNat_natOfBits (bits : List Bool) : bitsOfNat bits.length (natOfBits bits) = bits := by
  induction bits with
  | nil => rfl
  | cons b bits ih =>
    have hbit : ((b.toNat + 2 * natOfBits bits) % 2 == 1) = b := by cases b <;> simp
    have hrest : (b.toNat + 2 * natOfBits bits) / 2 = natOfBits bits := by
      have := b.toNat_le
      omega
    rw [List.length_cons, natOfBits, bitsOfNat, hbit, hrest, ih]

/-- The bits of a byte are those of its number. -/
theorem bitsOfNat_toNat (b : UInt8) : bitsOfNat 8 b.toNat = bitsOfByte b := by
  rw [← natOfBits_bitsOfByte]
  exact bitsOfNat_natOfBits (bitsOfByte b)

theorem wordBits_injective {n m : UInt32} (h : wordBits n = wordBits m) : n = m := by
  apply UInt32.toNat_inj.mp
  rw [← natOfBits_bitsOfNat n.toNat_lt, ← natOfBits_bitsOfNat m.toNat_lt]
  exact congrArg natOfBits h

/-! ### Polynomials of bits -/

/-- Bits behind bits shift the polynomial of the first ones. -/
theorem ofBits_append (bits more : List Bool) :
    ofBits (bits ++ more) = ofBits bits * X ^ more.length + ofBits more := by
  induction bits with
  | nil => simp [ofBits]
  | cons b bits ih =>
    rw [List.cons_append, ofBits, ofBits, ih, List.length_append]
    split <;> ring

/-- Zeros make the zero polynomial. -/
theorem ofBits_replicate_false (count : Nat) : ofBits (List.replicate count false) = 0 := by
  induction count with
  | zero => rfl
  | succ count ih => simp [List.replicate_succ, ofBits, ih]

/-- Bits that are added without carries. -/
theorem ofBits_zipWith_xor {bits bits' : List Bool} (h : bits.length = bits'.length) :
    ofBits (List.zipWith xor bits bits') = ofBits bits + ofBits bits' := by
  induction bits generalizing bits' with
  | nil =>
    obtain rfl := List.length_eq_zero_iff.mp h.symm
    simp [ofBits]
  | cons b bits ih =>
    cases bits' with
    | nil => cases h
    | cons b' bits' =>
      have hlength : bits.length = bits'.length := Nat.succ.inj h
      -- In characteristic two a bit in both polynomials cancels.
      have hbit (p : (ZMod 2)[X]) : (if xor b b' then p else 0) =
          (if b then p else 0) + if b' then p else 0 := by
        cases b <;> cases b' <;> simp [CharTwo.add_self_eq_zero]
      rw [List.zipWith_cons_cons, ofBits, ofBits, ofBits, ih hlength, List.length_zipWith,
        ← hlength, Nat.min_self, hbit, add_add_add_comm]

/-- The degree stays below the number of bits. -/
theorem degree_ofBits_lt (bits : List Bool) : (ofBits bits).degree < bits.length := by
  induction bits with
  | nil => simp [ofBits]
  | cons b bits ih =>
    have hlt : (bits.length : WithBot ℕ) < (b :: bits).length := by
      rw [List.length_cons]
      exact_mod_cast Nat.lt_succ_self _
    refine lt_of_le_of_lt (degree_add_le _ _) (max_lt ?_ (lt_trans ih hlt))
    split
    · rw [degree_X_pow]
      exact hlt
    · simp

/-- As many bits make the same polynomial only if they are the same. -/
theorem ofBits_injective {bits bits' : List Bool} (hlength : bits.length = bits'.length)
    (h : ofBits bits = ofBits bits') : bits = bits' := by
  induction bits generalizing bits' with
  | nil => exact (List.length_eq_zero_iff.mp hlength.symm).symm
  | cons b bits ih =>
    cases bits' with
    | nil => cases hlength
    | cons b' bits' =>
      have hrest : bits.length = bits'.length := Nat.succ.inj hlength
      have hhigh (bits : List Bool) : (ofBits bits).coeff bits.length = 0 :=
        coeff_eq_zero_of_degree_lt (degree_ofBits_lt bits)
      have hhigh' : (ofBits bits').coeff bits.length = 0 := hrest ▸ hhigh bits'
      -- The first bit is the coefficient of the highest power.
      have hbit : b = b' := by
        have hcoeff := congrArg (fun p => coeff p bits.length) h
        simp only [ofBits, coeff_add, hhigh, hhigh', ← hrest, add_zero] at hcoeff
        cases b <;> cases b' <;> simp_all
      obtain rfl := hbit
      rw [ofBits, ofBits, hrest] at h
      rw [ih hrest (add_left_cancel h)]

/-! ### The register -/

/-- The polynomial in the register. -/
def ofWord (n : UInt32) : (ZMod 2)[X] := ofBits (wordBits n)

/-- Exclusive or of words is the sum of their polynomials. -/
theorem ofWord_xor (n m : UInt32) : ofWord (n ^^^ m) = ofWord n + ofWord m := by
  rw [ofWord, wordBits, UInt32.toNat_xor, bitsOfNat_xor, ofBits_zipWith_xor (by simp)]
  rfl

/-- The constant of the register is the generator without its top term. -/
theorem ofWord_generator : ofWord 0xedb88320 = tail := by
  have hbits : wordBits 0xedb88320 = [false, false, false, false, false, true, false, false, true,
    true, false, false, false, false, false, true, false, false, false, true, true, true, false,
    true, true, false, true, true, false, true, true, true] := by decide
  rw [ofWord, hbits, tail]
  simp [ofBits]
  ring

/-- One bit of the shift register. -/
def turn (register : UInt32) : UInt32 :=
  if register &&& 1 = 1 then (register >>> 1) ^^^ 0xedb88320 else register >>> 1

theorem shift_succ (count : Nat) (n : UInt32) : shift (count + 1) n = shift count (turn n) :=
  rfl

/-- To move the bits down is to multiply by `X`, but for the bit that leaves the register. -/
theorem X_mul_ofWord (n : UInt32) :
    X * ofWord n = (if n &&& 1 = 1 then X ^ 32 else 0) + ofWord (n >>> 1) := by
  have hhalf : n.toNat / 2 / 2 ^ 31 = 0 := by
    have := n.toNat_lt
    omega
  -- The bits of the register are its lowest one and those of the half.
  have hword : wordBits n = (n.toNat % 2 == 1) :: bitsOfNat 31 (n.toNat / 2) := rfl
  have hshift : wordBits (n >>> 1) = bitsOfNat 31 (n.toNat / 2) ++ [false] := by
    have hnat : (n >>> 1).toNat = n.toNat / 2 := by
      rw [UInt32.toNat_shiftRight]
      exact Nat.shiftRight_eq_div_pow n.toNat 1
    rw [wordBits, hnat, bitsOfNat_add 31 1, hhalf]
    rfl
  have hlow : (n &&& 1 = 1) ↔ (n.toNat % 2 == 1) = true := by
    rw [← UInt32.toNat_inj, UInt32.toNat_and, beq_iff_eq]
    exact Nat.and_one_is_mod n.toNat ▸ Iff.rfl
  -- Multiplying by the variable shifts the bits, and the lowest one comes out as the top term.
  rw [ofWord, ofWord, hword, hshift, ofBits, ofBits_append, length_bitsOfNat]
  simp only [hlow]
  split <;> simp [ofBits] <;> ring

/-- A turn of the register multiplies by the variable, modulo the generator. -/
theorem dvd_turn (n : UInt32) : generator ∣ X * ofWord n - ofWord (turn n) := by
  rw [X_mul_ofWord, turn]
  split
  · rw [ofWord_xor, ofWord_generator, add_comm (X ^ 32), add_sub_add_left_eq_sub,
      CharTwo.sub_eq_add]
    exact dvd_refl generator
  · rw [zero_add, sub_self]
    exact dvd_zero _

/-- A shift multiplies by a power of the variable, modulo the generator. -/
theorem dvd_shift (count : Nat) (n : UInt32) :
    generator ∣ X ^ count * ofWord n - ofWord (shift count n) := by
  induction count generalizing n with
  | zero =>
    rw [pow_zero, one_mul, shift, sub_self]
    exact dvd_zero _
  | succ count ih =>
    have hsplit : X ^ (count + 1) * ofWord n - ofWord (shift (count + 1) n) =
        X ^ count * (X * ofWord n - ofWord (turn n)) +
          (X ^ count * ofWord (turn n) - ofWord (shift count (turn n))) := by
      rw [shift_succ]
      ring
    rw [hsplit]
    exact dvd_add (Dvd.dvd.mul_left (dvd_turn n) _) (ih (turn n))

/-! ### A byte -/

/-- The lowest byte of the register with the next byte added. -/
def mixed (register : UInt32) (b : UInt8) : UInt32 := (register ^^^ b.toUInt32) &&& 0xff

/-- The mixed byte is the exclusive or of the byte and the register's low one. -/
theorem toNat_mixed (register : UInt32) (b : UInt8) :
    (mixed register b).toNat = (register.toNat ^^^ b.toNat) % 2 ^ 8 := by
  rw [mixed, UInt32.toNat_and, UInt32.toNat_xor, UInt8.toNat_toUInt32]
  exact Nat.and_two_pow_sub_one_eq_mod _ 8

/-- A byte is taken in by shifting the mixed byte and the rest of the register apart. -/
theorem step_eq (register : UInt32) (b : UInt8) :
    step register b = shift 8 (mixed register b) ^^^ (register >>> 8) := by
  have hlt : (mixed register b).toNat < 256 := by
    rw [toNat_mixed]
    exact Nat.mod_lt _ (by decide)
  have hentry : table.getD (mixed register b).toNat 0 = shift 8 (mixed register b) := by
    simp [table, hlt]
  show table.getD (mixed register b).toNat 0 ^^^ _ = _
  rw [hentry]

/-- Taking a byte in multiplies the register by the eighth power and adds the byte, modulo the
generator. -/
theorem dvd_step (register : UInt32) (b : UInt8) :
    generator ∣ ofBits (bitsOfByte b) * X ^ 32 + ofWord register * X ^ 8 -
      ofWord (step register b) := by
  -- The low byte meets the byte of the data and goes through the table; the rest only moves.
  let low := bitsOfNat 8 register.toNat
  let high := bitsOfNat 24 (register.toNat / 2 ^ 8)
  have hregister : ofWord register = ofBits low * X ^ 24 + ofBits high := by
    rw [ofWord, wordBits, bitsOfNat_add 8 24, ofBits_append, length_bitsOfNat]
  have hmoved : ofWord (register >>> 8) = ofBits high * X ^ 8 := by
    have hnat : (register >>> 8).toNat = register.toNat / 2 ^ 8 := by
      rw [UInt32.toNat_shiftRight]
      exact Nat.shiftRight_eq_div_pow register.toNat 8
    have hzero : register.toNat / 2 ^ 8 / 2 ^ 24 = 0 := by
      have := register.toNat_lt
      omega
    rw [ofWord, wordBits, hnat, bitsOfNat_add 24 8, hzero, bitsOfNat_zero, ofBits_append,
      ofBits_replicate_false, List.length_replicate, add_zero]
  have hmixed : ofWord (mixed register b) = (ofBits low + ofBits (bitsOfByte b)) * X ^ 24 := by
    have hzero : (register.toNat ^^^ b.toNat) % 2 ^ 8 / 2 ^ 8 = 0 :=
      Nat.div_eq_of_lt (Nat.mod_lt _ (by decide))
    rw [ofWord, wordBits, toNat_mixed, bitsOfNat_add 8 24, hzero, bitsOfNat_zero, bitsOfNat_mod,
      bitsOfNat_xor, bitsOfNat_toNat, ofBits_append, ofBits_replicate_false, add_zero,
      List.length_replicate, ofBits_zipWith_xor (by simp)]
  have hshift := dvd_shift 8 (mixed register b)
  have hsplit : ofBits (bitsOfByte b) * X ^ 32 + ofWord register * X ^ 8 -
      ofWord (step register b) =
      X ^ 8 * ofWord (mixed register b) - ofWord (shift 8 (mixed register b)) := by
    rw [step_eq, ofWord_xor, hmoved, hmixed, hregister]
    ring
  rwa [hsplit]

/-! ### All of the data -/

/-- What remains of a byte and of the bytes behind it, `register` and `next` being the polynomials
before and after the byte. -/
theorem sub_eq_add_of_byte (byte bits register next result : (ZMod 2)[X]) (count : Nat) :
    (byte * X ^ (8 * count) + bits) * X ^ 32 + register * X ^ (8 * (count + 1)) - result =
      X ^ (8 * count) * (byte * X ^ 32 + register * X ^ 8 - next) +
        (bits * X ^ 32 + next * X ^ (8 * count) - result) := by
  ring

/-- Taking bytes in one after the other adds up to the polynomial of them all, modulo the generator.
-/
theorem dvd_foldl (data : Octets) (register : UInt32) :
    generator ∣ ofBits (data.flatMap bitsOfByte) * X ^ 32 +
      ofWord register * X ^ (8 * data.length) - ofWord (data.foldl step register) := by
  induction data generalizing register with
  | nil => simp [ofBits]
  | cons b data ih =>
    have hbits : ofBits ((b :: data).flatMap bitsOfByte) =
        ofBits (bitsOfByte b) * X ^ (8 * data.length) + ofBits (data.flatMap bitsOfByte) := by
      rw [List.flatMap_cons, ofBits_append, length_flatMap_bitsOfByte]
    rw [hbits, List.length_cons, List.foldl_cons,
      sub_eq_add_of_byte _ _ _ (ofWord (step register b))]
    exact dvd_add (Dvd.dvd.mul_left (dvd_step register b) _) (ih (step register b))

/-- Exclusive or with ones turns every bit over. -/
theorem zipWith_xor_true (bits : List Bool) :
    List.zipWith xor bits (List.replicate bits.length true) = bits.map not := by
  induction bits with
  | nil => rfl
  | cons b bits ih =>
    rw [List.length_cons, List.replicate_succ, List.zipWith_cons_cons, ih, Bool.xor_true]
    rfl

theorem wordBits_ones : wordBits 0xffffffff = List.replicate 32 true := by decide

/-- Turning every bit of a word over is exclusive or with ones. -/
theorem map_not_wordBits (n : UInt32) : (wordBits n).map not = wordBits (n ^^^ 0xffffffff) := by
  have hlength : (wordBits n).length = 32 := length_bitsOfNat 32 n.toNat
  rw [← zipWith_xor_true, hlength, ← wordBits_ones, wordBits, wordBits, wordBits,
    UInt32.toNat_xor, bitsOfNat_xor]

/-- The generator has degree 32. -/
theorem isMonicOfDegree_generator : IsMonicOfDegree generator 32 := by
  have htail : tail.natDegree ≤ 26 := by
    unfold tail
    compute_degree
  exact (isMonicOfDegree_X_pow (ZMod 2) 32).add_right (Nat.lt_of_le_of_lt htail (by decide))

/-- A register has a degree below the generator's, so it is a remainder. -/
theorem degree_ofWord_lt (n : UInt32) : (ofWord n).degree < generator.degree := by
  have hlt := degree_ofBits_lt (wordBits n)
  have hlength : (wordBits n).length = 32 := length_bitsOfNat 32 n.toNat
  rw [hlength] at hlt
  rwa [degree_eq_natDegree isMonicOfDegree_generator.ne_zero,
    isMonicOfDegree_generator.natDegree_eq]

/-- **The check value is the flipped remainder of the data.**  The computed value, and no other,
has the remainder for its bits that the division of the data by `generator` leaves. -/
theorem isCheckOf_iff (check : UInt32) (data : Octets) :
    IsCheckOf check data ↔ check = ofOctets data := by
  -- The register has a degree below the generator's, so it is the remainder itself.
  have hremainder : (ofBits (data.flatMap bitsOfByte) * X ^ 32 +
      ofBits (List.replicate 32 true) * X ^ (8 * data.length)) %ₘ generator =
      ofWord (data.foldl step 0xffffffff) := by
    rw [← wordBits_ones]
    show (_ + ofWord 0xffffffff * _) %ₘ generator = _
    rw [modByMonic_eq_of_dvd_sub isMonicOfDegree_generator.monic (dvd_foldl data 0xffffffff),
      (modByMonic_eq_self_iff isMonicOfDegree_generator.monic).mpr (degree_ofWord_lt _)]
  rw [IsCheckOf, hremainder, map_not_wordBits]
  constructor
  · intro h
    have hword := wordBits_injective (ofBits_injective (by simp [wordBits]) h)
    rw [ofOctets, ← hword, UInt32.xor_assoc, UInt32.xor_self, UInt32.xor_zero]
  · rintro rfl
    rw [ofOctets, UInt32.xor_assoc, UInt32.xor_self, UInt32.xor_zero]
    rfl

end

end WireCall.Crc32
