import WireCall.MsgPack.Reader
import WireCall.MsgPack.Writer
import WireCall.Proofs.Octets

namespace WireCall

/-!
# Heads of MessagePack items

Whatever head the writer chooses for an integer, a float, a text or a container, the reader reads
it as that integer, float, text or size, and stops right behind it.  The writer takes the shortest
form, so each of these facts is a case split on the number that is written, with one line for each
marker.
-/

namespace MsgPack

/-! ### Naturals and blobs -/

/-- A number within the width is read back. -/
theorem readNatural_bigEndian {width n : Nat} (h : n < Nat.pow 256 width) (rest : Octets) :
    readNatural width (Octets.bigEndian width n ++ rest) = .ok (n, rest) := by
  rw [readNatural, Octets.split?_of_length (Octets.length_bigEndian width n)]
  simp only [Octets.ofBigEndian_bigEndian, Nat.mod_eq_of_lt h]

theorem readBlob_append {n : Nat} {blob : Octets} (h : blob.length = n) (rest : Octets) :
    readBlob n (blob ++ rest) = .ok (blob, rest) := by
  rw [readBlob, Octets.split?_of_length h]

theorem readUnsigned_bigEndian {width n : Nat} (h : n < Nat.pow 256 width) (rest : Octets) :
    readUnsigned width (Octets.bigEndian width n ++ rest) =
      .ok (.unsigned (UInt64.ofNat n), rest) := by
  rw [readUnsigned, readNatural_bigEndian h]
  rfl

theorem readCount_bigEndian {width n : Nat} (make : Nat → Head) (h : n < Nat.pow 256 width)
    (rest : Octets) :
    readCount width make (Octets.bigEndian width n ++ rest) = .ok (make n, rest) := by
  rw [readCount, readNatural_bigEndian h]
  rfl

/-- A blob is read back behind its length. -/
theorem readSized_bigEndian {width : Nat} (make : Octets → Head) {blob : Octets}
    (h : blob.length < Nat.pow 256 width) (rest : Octets) :
    readSized width make (Octets.bigEndian width blob.length ++ (blob ++ rest)) =
      .ok (make blob, rest) := by
  rw [readSized, readNatural_bigEndian h]
  show (readBlob blob.length (blob ++ rest) >>= fun r => Except.ok (make r.1, r.2)) = _
  rw [readBlob_append rfl]
  rfl

/-- A negative integer in two's complement reads back, in any width that holds it. -/
theorem readSigned_complement {width : Nat} {n : Int} (hneg : n < 0)
    (hfit : -(Nat.pow 256 width : Int) ≤ 2 * n) (rest : Octets) :
    readSigned width (complement width n ++ rest) = .ok (.signed (Int64.ofInt n), rest) := by
  -- The natural that is written has its highest bit set, and so stands for a negative integer.
  obtain ⟨k, hk⟩ : ∃ k : Nat, n + Nat.pow 256 width = k := Int.eq_ofNat_of_zero_le (by omega)
  have hlt : k < Nat.pow 256 width := by omega
  have hhigh : ¬ 2 * k < Nat.pow 256 width := by omega
  rw [readSigned, complement, hk, Int.toNat_natCast, readNatural_bigEndian hlt]
  show Except.ok (Head.signed (Int64.ofInt (if 2 * k < Nat.pow 256 width then (k : Int)
    else k - Nat.pow 256 width)), rest) = _
  rw [if_neg hhigh, ← hk, Int.add_sub_cancel]

/-! ### Markers that hold a number -/

section Markers

variable {marker : UInt8}

theorem not_lt_of_toNat_le {bound : UInt8} (h : bound.toNat ≤ marker.toNat) : ¬ marker < bound := by
  rw [UInt8.lt_iff_toNat_lt]
  exact Nat.not_lt.mpr h

/-- The lowest markers are the small numbers themselves. -/
theorem readHead_of_lt_0x80 (h : marker.toNat < 0x80) (rest : Octets) :
    readHead (marker :: rest) = .ok (.unsigned marker.toUInt64, rest) := by
  unfold readHead
  exact if_pos (UInt8.lt_iff_toNat_lt.mpr h)

/-- The markers from 0x80 count the members of a small map. -/
theorem readHead_of_lt_0x90 (hlow : 0x80 ≤ marker.toNat) (h : marker.toNat < 0x90)
    (rest : Octets) : readHead (marker :: rest) = .ok (.map (marker - 0x80).toNat, rest) := by
  have h1 : ¬ marker < 0x80 := not_lt_of_toNat_le hlow
  unfold readHead
  simp only [if_neg h1]
  exact if_pos (UInt8.lt_iff_toNat_lt.mpr h)

/-- The markers from 0x90 count the items of a small array. -/
theorem readHead_of_lt_0xa0 (hlow : 0x90 ≤ marker.toNat) (h : marker.toNat < 0xa0)
    (rest : Octets) : readHead (marker :: rest) = .ok (.array (marker - 0x90).toNat, rest) := by
  have h1 : ¬ marker < 0x80 := not_lt_of_toNat_le (Nat.le_trans (by decide) hlow)
  have h2 : ¬ marker < 0x90 := not_lt_of_toNat_le hlow
  unfold readHead
  simp only [if_neg h1, if_neg h2]
  exact if_pos (UInt8.lt_iff_toNat_lt.mpr h)

/-- The markers from 0xa0 tell the length of a small text. -/
theorem readHead_of_lt_0xc0 (hlow : 0xa0 ≤ marker.toNat) (h : marker.toNat < 0xc0)
    (rest : Octets) :
    readHead (marker :: rest) = do
      let (blob, rest) ← readBlob (marker - 0xa0).toNat rest
      return (.text blob, rest) := by
  have h1 : ¬ marker < 0x80 := not_lt_of_toNat_le (Nat.le_trans (by decide) hlow)
  have h2 : ¬ marker < 0x90 := not_lt_of_toNat_le (Nat.le_trans (by decide) hlow)
  have h3 : ¬ marker < 0xa0 := not_lt_of_toNat_le hlow
  conv => lhs; unfold readHead
  simp only [if_neg h1, if_neg h2, if_neg h3]
  exact if_pos (UInt8.lt_iff_toNat_lt.mpr h)

/-- The highest markers are the small negative numbers. -/
theorem readHead_of_0xe0_le (h : 0xe0 ≤ marker.toNat) (rest : Octets) :
    readHead (marker :: rest) = .ok (.signed (Int64.ofInt (marker.toNat - 256)), rest) := by
  have h1 : ¬ marker < 0x80 := not_lt_of_toNat_le (Nat.le_trans (by decide) h)
  have h2 : ¬ marker < 0x90 := not_lt_of_toNat_le (Nat.le_trans (by decide) h)
  have h3 : ¬ marker < 0xa0 := not_lt_of_toNat_le (Nat.le_trans (by decide) h)
  have h4 : ¬ marker < 0xc0 := not_lt_of_toNat_le (Nat.le_trans (by decide) h)
  unfold readHead
  have h5 : 0xe0 ≤ marker := UInt8.le_iff_toNat_le.mpr h
  simp only [if_neg h1, if_neg h2, if_neg h3, if_neg h4]
  exact if_pos h5

end Markers

/-! ### Integers -/

theorem toNat_ofNat_of_lt {n : Nat} (h : n < 256) : (UInt8.ofNat n).toNat = n := by
  rw [UInt8.toNat_ofNat']
  exact Nat.mod_eq_of_lt h

/-- A natural number below 2^64 is read back. -/
theorem readHead_natural {n : Nat} (h : n < 0x10000000000000000) (rest : Octets) :
    readHead (natural n ++ rest) = .ok (.unsigned (UInt64.ofNat n), rest) := by
  unfold natural
  -- The number was written in the narrowest form that holds it, and each form is read as it stands.
  split
  · rename_i hn
    have hbyte : (UInt8.ofNat n).toNat = n := toNat_ofNat_of_lt (by omega)
    have hvalue : (UInt8.ofNat n).toUInt64 = UInt64.ofNat n := by
      rw [← UInt64.toNat_inj, UInt8.toNat_toUInt64, hbyte, UInt64.toNat_ofNat',
        Nat.mod_eq_of_lt h]
    rw [List.singleton_append, readHead_of_lt_0x80 (by rw [hbyte]; exact hn), hvalue]
  · split
    · rename_i hn
      exact readUnsigned_bigEndian hn rest
    · split
      · rename_i hn
        exact readUnsigned_bigEndian hn rest
      · split
        · rename_i hn
          exact readUnsigned_bigEndian hn rest
        · exact readUnsigned_bigEndian h rest

/-- A negative integer of 64 bits is read back. -/
theorem readHead_integer_of_neg {n : Int} (hneg : n < 0) (hlow : -0x8000000000000000 ≤ n)
    (rest : Octets) : readHead (integer n ++ rest) = .ok (.signed (Int64.ofInt n), rest) := by
  rw [integer, if_neg (by omega)]
  split
  · -- The marker is the lowest byte of the integer itself.
    obtain ⟨k, hk⟩ : ∃ k : Nat, n + 256 = k := Int.eq_ofNat_of_zero_le (by omega)
    have hbyte : (UInt8.ofNat k).toNat = k := toNat_ofNat_of_lt (by omega)
    have hform : complement 1 n = [UInt8.ofNat k] := by
      have hpow : n + (Nat.pow 256 1 : Nat) = k := hk
      rw [complement, hpow, Int.toNat_natCast, Octets.bigEndian, Octets.bigEndian]
      simp
    rw [hform, List.singleton_append, readHead_of_0xe0_le (by rw [hbyte]; omega), hbyte, ← hk,
      Int.add_sub_cancel]
  · split
    · exact readSigned_complement hneg (by show -(256 : Int) ≤ _; omega) rest
    · split
      · exact readSigned_complement hneg (by show -(65536 : Int) ≤ _; omega) rest
      · split
        · exact readSigned_complement hneg (by show -(4294967296 : Int) ≤ _; omega) rest
        · exact readSigned_complement hneg
            (by show -(18446744073709551616 : Int) ≤ _; omega) rest

/-! ### Floats, texts and containers -/

/-- A double is read back bit by bit. -/
theorem readHead_double (x : Binary64) (rest : Octets) :
    readHead (double x ++ rest) = .ok (.double x, rest) := by
  show (readNatural 8 (Octets.bigEndian 8 x.bits.toNat ++ rest) >>= fun r =>
    Except.ok (Head.double ⟨UInt64.ofNat r.1⟩, r.2)) = _
  rw [readNatural_bigEndian x.bits.toNat_lt]
  show Except.ok (Head.double ⟨UInt64.ofNat x.bits.toNat⟩, rest) = _
  rw [UInt64.ofNat_toNat]

/-- A size below the next kind of markers stands in the marker itself. -/
theorem toNat_marker {base : UInt8} {n : Nat} (h : base.toNat + n < 256) :
    (base + UInt8.ofNat n).toNat = base.toNat + n := by
  rw [UInt8.toNat_add, toNat_ofNat_of_lt (by omega)]
  exact Nat.mod_eq_of_lt h

/-- The size is what is left of such a marker. -/
theorem toNat_marker_sub {base : UInt8} {n : Nat} (h : base.toNat + n < 256) :
    (base + UInt8.ofNat n - base).toNat = n := by
  have hn : (UInt8.ofNat n).toNat = n := toNat_ofNat_of_lt (by omega)
  rw [UInt8.add_comm, UInt8.add_sub_cancel, hn]

/-- The bytes of a text are read back behind their header. -/
theorem readHead_textHeader {blob : Octets} (h : blob.length < 0x100000000) (rest : Octets) :
    readHead (textHeader blob.length ++ (blob ++ rest)) = .ok (.text blob, rest) := by
  unfold textHeader
  split
  · -- A short text has its length in the marker.
    rename_i hn
    have hsize : (0xa0 : UInt8).toNat + blob.length < 256 := by
      show 160 + blob.length < 256
      omega
    have hmarker := toNat_marker hsize
    rw [List.singleton_append, readHead_of_lt_0xc0 (by rw [hmarker]; exact Nat.le_add_right ..)
      (by rw [hmarker]; show 160 + _ < 192; omega), toNat_marker_sub hsize, readBlob_append rfl]
    rfl
  · split
    · rename_i hn
      exact readSized_bigEndian .text hn rest
    · split
      · rename_i hn
        exact readSized_bigEndian .text hn rest
      · exact readSized_bigEndian .text h rest

/-- A text shorter than 2^32 bytes is read back. -/
theorem readHead_text {s : String} (h : (Octets.ofText s).length < 0x100000000) (rest : Octets) :
    readHead (text s ++ rest) = .ok (.text (Octets.ofText s), rest) := by
  rw [text, List.append_assoc]
  exact readHead_textHeader h rest

/-- A count below 2^32 is read back from an array's header. -/
theorem readHead_arrayHeader {n : Nat} (h : n < 0x100000000) (rest : Octets) :
    readHead (arrayHeader n ++ rest) = .ok (.array n, rest) := by
  unfold arrayHeader
  split
  · rename_i hn
    have hsize : (0x90 : UInt8).toNat + n < 256 := by
      show 144 + n < 256
      omega
    have hmarker := toNat_marker hsize
    rw [List.singleton_append, readHead_of_lt_0xa0 (by rw [hmarker]; exact Nat.le_add_right ..)
      (by rw [hmarker]; show 144 + _ < 160; omega), toNat_marker_sub hsize]
  · split
    · rename_i hn
      exact readCount_bigEndian .array hn rest
    · exact readCount_bigEndian .array h rest

theorem readHead_mapHeader {n : Nat} (h : n < 0x100000000) (rest : Octets) :
    readHead (mapHeader n ++ rest) = .ok (.map n, rest) := by
  unfold mapHeader
  split
  · rename_i hn
    have hsize : (0x80 : UInt8).toNat + n < 256 := by
      show 128 + n < 256
      omega
    have hmarker := toNat_marker hsize
    rw [List.singleton_append, readHead_of_lt_0x90 (by rw [hmarker]; exact Nat.le_add_right ..)
      (by rw [hmarker]; show 128 + _ < 144; omega), toNat_marker_sub hsize]
  · split
    · rename_i hn
      exact readCount_bigEndian .map hn rest
    · exact readCount_bigEndian .map h rest

end MsgPack
end WireCall
