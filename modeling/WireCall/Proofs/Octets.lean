import WireCall.Octets

namespace WireCall.Octets

/-!
# Bytes and what they stand for

Numbers, texts and cuts are read from bytes in one way only: the digits of the number that some
bytes stand for are these bytes (`bigEndian_ofBigEndian`), a text that was read from some bytes has
them (`ofText_of_text?`), and the two parts of a cut make up the whole (`split?_eq_some_iff`).
-/

/-! ### Fixed-width integers -/

/-- A number of bytes is below what their width can hold. -/
theorem ofBigEndian_lt (bytes : Octets) : ofBigEndian bytes < Nat.pow 256 bytes.length := by
  induction bytes with
  | nil => exact Nat.zero_lt_one
  | cons b bytes ih =>
    have hb : b.toNat ≤ 255 := Nat.le_of_lt_succ b.toNat_lt
    have hpow : Nat.pow 256 (bytes.length + 1) = 256 * Nat.pow 256 bytes.length := Nat.pow_succ'
    have hhigh : b.toNat * Nat.pow 256 bytes.length ≤ 255 * Nat.pow 256 bytes.length :=
      Nat.mul_le_mul_right _ hb
    rw [ofBigEndian_cons, List.length_cons, hpow]
    omega

/-- Only the low-order digits are written. -/
theorem bigEndian_mul_add (width k n : Nat) :
    bigEndian width (k * Nat.pow 256 width + n) = bigEndian width n := by
  induction width generalizing k with
  | zero => rfl
  | succ width ih =>
    have hpos : 0 < Nat.pow 256 width := Nat.pow_pos (by decide)
    have hsplit : k * Nat.pow 256 (width + 1) + n = k * 256 * Nat.pow 256 width + n := by
      rw [show Nat.pow 256 (width + 1) = 256 * Nat.pow 256 width from Nat.pow_succ',
        Nat.mul_assoc]
    -- What exceeds the width does not reach the bytes: in each of them it is a multiple of 256.
    have hdigit : (k * 256 * Nat.pow 256 width + n) / Nat.pow 256 width =
        k * 256 + n / Nat.pow 256 width := by
      rw [Nat.mul_comm (k * 256), Nat.mul_add_div hpos]
    have hbyte : UInt8.ofNat (k * 256 + n / Nat.pow 256 width) =
        UInt8.ofNat (n / Nat.pow 256 width) := by
      apply UInt8.toNat_inj.mp
      rw [UInt8.toNat_ofNat', UInt8.toNat_ofNat', Nat.add_comm, Nat.add_mul_mod_self_right]
    rw [bigEndian, bigEndian, hsplit, hdigit, hbyte, ih]

/-- The digits of the number that some bytes stand for are these bytes. -/
theorem bigEndian_ofBigEndian (bytes : Octets) :
    bigEndian bytes.length (ofBigEndian bytes) = bytes := by
  induction bytes with
  | nil => rfl
  | cons b bytes ih =>
    have hpos : 0 < Nat.pow 256 bytes.length := Nat.pow_pos (by decide)
    have hdigit : (b.toNat * Nat.pow 256 bytes.length + ofBigEndian bytes) /
        Nat.pow 256 bytes.length = b.toNat := by
      rw [Nat.mul_comm, Nat.mul_add_div hpos, Nat.div_eq_of_lt (ofBigEndian_lt bytes), Nat.add_zero]
    rw [List.length_cons, ofBigEndian_cons, bigEndian, hdigit, bigEndian_mul_add, ih,
      UInt8.ofNat_toNat]

theorem ofLittleEndian_lt (bytes : Octets) : ofLittleEndian bytes < Nat.pow 256 bytes.length := by
  induction bytes with
  | nil => exact Nat.zero_lt_one
  | cons b bytes ih =>
    have hb : b.toNat ≤ 255 := Nat.le_of_lt_succ b.toNat_lt
    have hpow : Nat.pow 256 (bytes.length + 1) = 256 * Nat.pow 256 bytes.length := Nat.pow_succ'
    rw [ofLittleEndian, List.length_cons, hpow]
    omega

/-! ### Cuts and texts -/

/-- Bytes split exactly into a front of the length asked for and the rest. -/
theorem split?_eq_some_iff {n : Nat} {bytes front back : Octets} :
    split? n bytes = some (front, back) ↔ front.length = n ∧ bytes = front ++ back := by
  constructor
  · intro h
    rw [split?] at h
    split at h
    · rename_i hlength
      rw [List.splitAt_eq] at h hlength
      obtain ⟨rfl, rfl⟩ := Prod.mk.inj (Option.some.inj h)
      exact ⟨hlength, (List.take_append_drop n bytes).symm⟩
    · cases h
  · rintro ⟨rfl, rfl⟩
    exact split?_append front back

theorem split?_of_length {n : Nat} {front : Octets} (h : front.length = n)
    (back : Octets) : split? n (front ++ back) = some (front, back) :=
  split?_eq_some_iff.mpr ⟨h, rfl⟩

/-! ### Texts -/

/-- Bytes that are a text are the bytes of that text. -/
theorem ofText_of_text? {bytes : Octets} {s : String} (h : text? bytes = some s) :
    ofText s = bytes := by
  rw [text?, String.fromUTF8?] at h
  split at h
  · obtain rfl := Option.some.inj h
    rfl
  · cases h

/-- A text takes as many bytes as its UTF-8 form. -/
theorem length_ofText (s : String) : (ofText s).length = s.utf8ByteSize := by
  rw [ofText, Array.length_toList]
  rfl

/-- The bytes of two texts add up. -/
theorem length_ofText_append (s t : String) :
    (ofText (s ++ t)).length = (ofText s).length + (ofText t).length := by
  rw [length_ofText, length_ofText, length_ofText, String.utf8ByteSize_append]

/-- A character takes at most four bytes. -/
theorem length_ofText_ofList_le (cs : List Char) :
    (ofText (String.ofList cs)).length ≤ 4 * cs.length := by
  induction cs with
  | nil => exact Nat.le_refl _
  | cons c cs ih =>
    have hc := c.utf8Size_le_four
    rw [String.ofList_cons, length_ofText_append, length_ofText, String.utf8ByteSize_singleton,
      List.length_cons]
    omega

end WireCall.Octets
