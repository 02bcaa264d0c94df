namespace WireCall

/-!
# Octets

Everything that crosses a connection is a run of bytes, kept here as a list so that a reader can
hand back what it left unread.  The module holds fixed-width integers in both byte orders, the
bytes of a text, and the exact cut `Octets.split?`.

Main statements: a fixed-width integer reads back (`ofBigEndian_bigEndian`,
`ofLittleEndian_littleEndian`), a cut at the seam of two runs gives the two runs
(`split?_append`), and the bytes of a text read back as that text (`text?_ofText`).
-/

/-- A run of bytes, the first byte first. -/
abbrev Octets := List UInt8

namespace Octets

/-! ### Fixed-width integers -/

/-- The `width` low-order bytes of `n`, most significant first. -/
def bigEndian : Nat → Nat → Octets
  | 0, _ => []
  | width + 1, n => UInt8.ofNat (n / Nat.pow 256 width) :: bigEndian width n

/-- The number whose base-256 digits are `bs`, most significant first. -/
def ofBigEndian (bs : Octets) : Nat :=
  bs.foldl (fun acc b => acc * 256 + b.toNat) 0

/-- The `width` low-order bytes of `n`, least significant first. -/
def littleEndian : Nat → Nat → Octets
  | 0, _ => []
  | width + 1, n => UInt8.ofNat n :: littleEndian width (n / 256)

/-- The number whose base-256 digits are `bs`, least significant first. -/
def ofLittleEndian : Octets → Nat
  | [] => 0
  | b :: bs => b.toNat + 256 * ofLittleEndian bs

/-- A number takes the width it is given, and its high bytes are cut off if need be. -/
@[simp] theorem length_bigEndian (width n : Nat) : (bigEndian width n).length = width := by
  induction width with
  | zero => rfl
  | succ width ih => simp [bigEndian, ih]

@[simp] theorem length_littleEndian (width n : Nat) : (littleEndian width n).length = width := by
  induction width generalizing n with
  | zero => rfl
  | succ width ih => simp [littleEndian, ih]

/-- Reading on from a number shifts it by the bytes still to come. -/
theorem ofBigEndian_foldl (bs : Octets) (acc : Nat) :
    bs.foldl (fun acc b => acc * 256 + b.toNat) acc =
      acc * Nat.pow 256 bs.length + ofBigEndian bs := by
  induction bs generalizing acc with
  | nil => simp [ofBigEndian]
  | cons b bs ih =>
    -- Both sides are taken apart at the accumulator, which the first byte has entered.
    simp only [ofBigEndian, List.foldl_cons, List.length_cons]
    have step : Nat.pow 256 (bs.length + 1) = 256 * Nat.pow 256 bs.length := Nat.pow_succ'
    rw [ih, ih (0 * 256 + b.toNat), step]
    simp [Nat.add_mul, Nat.mul_assoc, Nat.add_assoc]

/-- The first byte is the most significant one. -/
@[simp] theorem ofBigEndian_cons (b : UInt8) (bs : Octets) :
    ofBigEndian (b :: bs) = b.toNat * Nat.pow 256 bs.length + ofBigEndian bs := by
  rw [ofBigEndian, List.foldl_cons, ofBigEndian_foldl]
  simp

/-- What is read back is the number modulo what the width can hold. -/
theorem ofBigEndian_bigEndian (width n : Nat) :
    ofBigEndian (bigEndian width n) = n % Nat.pow 256 width := by
  induction width with
  | zero => simp [bigEndian, ofBigEndian, Nat.mod_one]
  | succ width ih =>
    have low : (UInt8.ofNat (n / Nat.pow 256 width)).toNat = n / Nat.pow 256 width % 256 := by simp
    have step : Nat.pow 256 (width + 1) = Nat.pow 256 width * 256 := rfl
    -- The first byte is the digit of the highest place, and the others are `n` below that place.
    rw [bigEndian, ofBigEndian_cons, length_bigEndian, ih, low, step, Nat.mod_mul,
      Nat.mul_comm, Nat.add_comm]

/-- What is read back is the number modulo what the width can hold. -/
theorem ofLittleEndian_littleEndian (width n : Nat) :
    ofLittleEndian (littleEndian width n) = n % Nat.pow 256 width := by
  induction width generalizing n with
  | zero => simp [littleEndian, ofLittleEndian, Nat.mod_one]
  | succ width ih =>
    have low : (UInt8.ofNat n).toNat = n % 256 := by simp
    have step : Nat.pow 256 (width + 1) = 256 * Nat.pow 256 width := Nat.pow_succ'
    rw [littleEndian, ofLittleEndian, ih, low, step, Nat.mod_mul]

/-! ### Cutting -/

/-- The first `n` bytes and what follows them; nothing when there are fewer than `n`. -/
def split? (n : Nat) (bs : Octets) : Option (Octets × Octets) :=
  let cut := bs.splitAt n
  if cut.1.length = n then some cut else none

/-- Splitting at the border of two parts gives the parts back. -/
theorem split?_append (front back : Octets) :
    split? front.length (front ++ back) = some (front, back) := by
  simp [split?]

/-! ### Text -/

/-- The bytes of a text. -/
def ofText (s : String) : Octets := s.toUTF8.data.toList

/-- The text with these bytes, if they are well-formed. -/
def text? (bs : Octets) : Option String := String.fromUTF8? ⟨bs.toArray⟩

/-- The bytes of a text are read as that text. -/
theorem text?_ofText (s : String) : text? (ofText s) = some s := by
  have bytes : (⟨(ofText s).toArray⟩ : ByteArray) = s.toByteArray := by simp [ofText]
  rw [text?, bytes, String.fromUTF8?, dif_pos s.isValidUTF8]
  rfl

end Octets
end WireCall
