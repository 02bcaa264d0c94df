import WireCall.Proofs.MsgPack.Head

namespace WireCall.MsgPack

/-!
# Well-formed heads and items

A writer takes the shortest form of a number or of a size, and a reader takes every form.
`Head.Form` says which bytes are a form of a head: the number stands in the marker, or in as many
bytes behind the marker as this marker says, with zeros in front or not.  From there `Item` says
which bytes are any item at all that nests no deeper than some depth.

Both are matched by a reader that takes exactly these bytes, whatever follows them: the head is read
(`readHead_of_form`), and the item is skipped (`skipValue_of_item`).  The skipper looks at heads and
counts only, so it is proved along the definition of `Item`, once for a single item and once for a
sequence of them.
-/

/-! ### Heads -/

/-- The number is in the marker itself, which counts from `base` on and has room for `bound`
numbers. -/
def Narrow (base : UInt8) (bound n : Nat) (bytes : Octets) : Prop :=
  n < bound ∧ bytes = [base + UInt8.ofNat n]

/-- The number stands behind one of the markers, in as many bytes as this marker says. -/
def Wide (markers : List (UInt8 × Nat)) (n : Nat) (bytes : Octets) : Prop :=
  ∃ marker width, (marker, width) ∈ markers ∧ n < Nat.pow 256 width ∧
    bytes = marker :: Octets.bigEndian width n

/-- The markers of unsigned integers, with the widths of the integers. -/
def unsignedMarkers : List (UInt8 × Nat) := [(0xcc, 1), (0xcd, 2), (0xce, 4), (0xcf, 8)]

/-- The markers of signed integers, with the widths of the integers. -/
def signedMarkers : List (UInt8 × Nat) := [(0xd0, 1), (0xd1, 2), (0xd2, 4), (0xd3, 8)]

/-- The markers of texts, with the widths of their lengths. -/
def textMarkers : List (UInt8 × Nat) := [(0xd9, 1), (0xda, 2), (0xdb, 4)]

/-- The markers of bytes, with the widths of their lengths. -/
def binaryMarkers : List (UInt8 × Nat) := [(0xc4, 1), (0xc5, 2), (0xc6, 4)]

/-- The markers of arrays, with the widths of their sizes. -/
def arrayMarkers : List (UInt8 × Nat) := [(0xdc, 2), (0xdd, 4)]

/-- The markers of maps, with the widths of their sizes. -/
def mapMarkers : List (UInt8 × Nat) := [(0xde, 2), (0xdf, 4)]

/-- The natural that stands for an integer in two's complement. -/
def residue (width : Nat) (n : Int) : Nat := (n % Nat.pow 256 width).toNat

/-- The bytes are a form of the head.  Extensions are left out: no value is one. -/
def Head.Form : Head → Octets → Prop
  | .nil, bytes => bytes = [0xc0]
  | .bool b, bytes => bytes = [if b then 0xc3 else 0xc2]
  | .unsigned n, bytes => Narrow 0x00 128 n.toNat bytes ∨ Wide unsignedMarkers n.toNat bytes
  | .signed n, bytes =>
    (-32 ≤ n.toInt ∧ n.toInt < 0 ∧ bytes = Octets.bigEndian 1 (residue 1 n.toInt)) ∨
      ∃ marker width, (marker, width) ∈ signedMarkers ∧
        (-(Nat.pow 256 width : Int) ≤ 2 * n.toInt ∧ 2 * n.toInt < Nat.pow 256 width) ∧
          bytes = marker :: Octets.bigEndian width (residue width n.toInt)
  | .single x, bytes => bytes = 0xca :: Octets.bigEndian 4 x.bits.toNat
  | .double x, bytes => bytes = 0xcb :: Octets.bigEndian 8 x.bits.toNat
  | .text blob, bytes => ∃ header, bytes = header ++ blob ∧
      (Narrow 0xa0 32 blob.length header ∨ Wide textMarkers blob.length header)
  | .binary blob, bytes => ∃ header, bytes = header ++ blob ∧
      Wide binaryMarkers blob.length header
  | .array count, bytes => Narrow 0x90 16 count bytes ∨ Wide arrayMarkers count bytes
  | .map count, bytes => Narrow 0x80 16 count bytes ∨ Wide mapMarkers count bytes
  | .extension, _ => False

section Markers

variable {marker : UInt8} {width : Nat}

/-- Behind a marker of the unsigned ones comes a number of its width. -/
theorem readHead_unsigned (h : (marker, width) ∈ unsignedMarkers) (bytes : Octets) :
    readHead (marker :: bytes) = readUnsigned width bytes := by
  simp only [unsignedMarkers, List.mem_cons, List.not_mem_nil, or_false] at h
  rcases h with h | h | h | h <;> cases h <;> rfl

theorem readHead_signed (h : (marker, width) ∈ signedMarkers) (bytes : Octets) :
    readHead (marker :: bytes) = readSigned width bytes := by
  simp only [signedMarkers, List.mem_cons, List.not_mem_nil, or_false] at h
  rcases h with h | h | h | h <;> cases h <;> rfl

/-- Behind a marker of the sized texts come its length and the text. -/
theorem readHead_sizedText (h : (marker, width) ∈ textMarkers) (bytes : Octets) :
    readHead (marker :: bytes) = readSized width .text bytes := by
  simp only [textMarkers, List.mem_cons, List.not_mem_nil, or_false] at h
  rcases h with h | h | h <;> cases h <;> rfl

theorem readHead_sizedBinary (h : (marker, width) ∈ binaryMarkers) (bytes : Octets) :
    readHead (marker :: bytes) = readSized width .binary bytes := by
  simp only [binaryMarkers, List.mem_cons, List.not_mem_nil, or_false] at h
  rcases h with h | h | h <;> cases h <;> rfl

/-- Behind a marker of the counted arrays comes its count. -/
theorem readHead_countedArray (h : (marker, width) ∈ arrayMarkers) (bytes : Octets) :
    readHead (marker :: bytes) = readCount width .array bytes := by
  simp only [arrayMarkers, List.mem_cons, List.not_mem_nil, or_false] at h
  rcases h with h | h <;> cases h <;> rfl

theorem readHead_countedMap (h : (marker, width) ∈ mapMarkers) (bytes : Octets) :
    readHead (marker :: bytes) = readCount width .map bytes := by
  simp only [mapMarkers, List.mem_cons, List.not_mem_nil, or_false] at h
  rcases h with h | h <;> cases h <;> rfl

end Markers

/-- A residue fits into its width. -/
theorem residue_lt (width : Nat) (n : Int) : residue width n < Nat.pow 256 width := by
  have hpos : 0 < Nat.pow 256 width := Nat.pow_pos (by decide)
  have hlt := Int.emod_lt_of_pos n (Int.natCast_pos.mpr hpos)
  have hnonneg := Int.emod_nonneg n (Int.natCast_ne_zero.mpr (Nat.ne_of_gt hpos))
  rw [residue]
  omega

/-- Reducing a negative number of the width adds the modulus once. -/
theorem emod_of_neg {width : Nat} {n : Int} (hneg : n < 0) (hlow : -(Nat.pow 256 width : Int) ≤ n) :
    n % (Nat.pow 256 width : Int) = n + Nat.pow 256 width := by
  rw [← Int.add_emod_right, Int.emod_eq_of_lt (by omega) (by omega)]

/-- An integer in two's complement reads back, in any width that holds it. -/
theorem readSigned_residue {width : Nat} {n : Int} (hlow : -(Nat.pow 256 width : Int) ≤ 2 * n)
    (hhigh : 2 * n < Nat.pow 256 width) (rest : Octets) :
    readSigned width (Octets.bigEndian width (residue width n) ++ rest) =
      .ok (.signed (Int64.ofInt n), rest) := by
  rw [readSigned, readNatural_bigEndian (residue_lt width n)]
  show Except.ok (Head.signed (Int64.ofInt (if 2 * residue width n < Nat.pow 256 width then
    (residue width n : Int) else residue width n - Nat.pow 256 width)), rest) = _
  congr 4
  -- A residue in the upper half stands for a negative number.
  by_cases hneg : n < 0
  · have hmod := @emod_of_neg width n hneg (by omega)
    have hresidue : (residue width n : Int) = n + Nat.pow 256 width := by
      rw [residue, hmod]
      omega
    rw [if_neg (by omega), hresidue, Int.add_sub_cancel]
  · have hmod : n % (Nat.pow 256 width : Int) = n := Int.emod_eq_of_lt (by omega) (by omega)
    have hresidue : (residue width n : Int) = n := by
      rw [residue, hmod]
      omega
    rw [if_pos (by omega), hresidue]

/-- **Every form of a head is read as this head.** -/
theorem readHead_of_form {head : Head} {bytes : Octets} (h : head.Form bytes) (rest : Octets) :
    readHead (bytes ++ rest) = .ok (head, rest) := by
  -- By cases on the head: each has its short form and its wide ones, or one form only.
  cases head with
  | nil =>
    obtain rfl := h
    rfl
  | bool b =>
    obtain rfl := h
    cases b <;> rfl
  | unsigned n =>
    rcases h with ⟨hn, rfl⟩ | ⟨marker, width, hmarker, hn, rfl⟩
    · have hbyte : (0x00 + UInt8.ofNat n.toNat).toNat = n.toNat := by
        rw [UInt8.zero_add, toNat_ofNat_of_lt (by omega)]
      have hvalue : (0x00 + UInt8.ofNat n.toNat).toUInt64 = n := by
        rw [← UInt64.toNat_inj, UInt8.toNat_toUInt64, hbyte]
      rw [List.singleton_append, readHead_of_lt_0x80 (by rw [hbyte]; exact hn), hvalue]
    · rw [List.cons_append, readHead_unsigned hmarker, readUnsigned_bigEndian hn,
        UInt64.ofNat_toNat]
  | signed n =>
    rcases h with ⟨hlow, hneg, rfl⟩ | ⟨marker, width, hmarker, ⟨hlow, hhigh⟩, rfl⟩
    · -- The marker is the lowest byte of the integer itself.
      obtain ⟨k, hk⟩ : ∃ k : Nat, n.toInt + 256 = k := Int.eq_ofNat_of_zero_le (by omega)
      have hresidue : residue 1 n.toInt = k := by
        have hpow : (Nat.pow 256 1 : Int) = 256 := rfl
        rw [residue, hpow]
        omega
      have hform : Octets.bigEndian 1 k = [UInt8.ofNat k] := by
        show [UInt8.ofNat (k / 1)] = _
        rw [Nat.div_one]
      have hbyte : (UInt8.ofNat k).toNat = k := toNat_ofNat_of_lt (by omega)
      rw [hresidue, hform, List.singleton_append, readHead_of_0xe0_le (by rw [hbyte]; omega),
        hbyte, ← hk, Int.add_sub_cancel, Int64.ofInt_toInt]
    · rw [List.cons_append, readHead_signed hmarker, readSigned_residue hlow hhigh,
        Int64.ofInt_toInt]
  | single x =>
    obtain rfl := h
    show (readNatural 4 (Octets.bigEndian 4 x.bits.toNat ++ rest) >>= fun r =>
      Except.ok (Head.single ⟨UInt32.ofNat r.1⟩, r.2)) = _
    rw [readNatural_bigEndian x.bits.toNat_lt]
    show Except.ok (Head.single ⟨UInt32.ofNat x.bits.toNat⟩, rest) = _
    rw [UInt32.ofNat_toNat]
  | double x =>
    obtain rfl := h
    exact readHead_double x rest
  | text blob =>
    obtain ⟨header, rfl, ⟨hn, rfl⟩ | ⟨marker, width, hmarker, hn, rfl⟩⟩ := h
    · have hsize : (0xa0 : UInt8).toNat + blob.length < 256 := by
        show 160 + blob.length < 256
        omega
      have hmarker := toNat_marker hsize
      rw [List.append_assoc, List.singleton_append,
        readHead_of_lt_0xc0 (by rw [hmarker]; exact Nat.le_add_right ..)
        (by rw [hmarker]; show 160 + _ < 192; omega), toNat_marker_sub hsize, readBlob_append rfl]
      rfl
    · rw [List.append_assoc, List.cons_append, readHead_sizedText hmarker,
        readSized_bigEndian .text hn]
  | binary blob =>
    obtain ⟨header, rfl, marker, width, hmarker, hn, rfl⟩ := h
    rw [List.append_assoc, List.cons_append, readHead_sizedBinary hmarker,
      readSized_bigEndian .binary hn]
  | array count =>
    rcases h with ⟨hn, rfl⟩ | ⟨marker, width, hmarker, hn, rfl⟩
    · have hsize : (0x90 : UInt8).toNat + count < 256 := by
        show 144 + count < 256
        omega
      have hmarker := toNat_marker hsize
      rw [List.singleton_append, readHead_of_lt_0xa0 (by rw [hmarker]; exact Nat.le_add_right ..)
        (by rw [hmarker]; show 144 + _ < 160; omega), toNat_marker_sub hsize]
    · rw [List.cons_append, readHead_countedArray hmarker, readCount_bigEndian .array hn]
  | map count =>
    rcases h with ⟨hn, rfl⟩ | ⟨marker, width, hmarker, hn, rfl⟩
    · have hsize : (0x80 : UInt8).toNat + count < 256 := by
        show 128 + count < 256
        omega
      have hmarker := toNat_marker hsize
      rw [List.singleton_append, readHead_of_lt_0x90 (by rw [hmarker]; exact Nat.le_add_right ..)
        (by rw [hmarker]; show 128 + _ < 144; omega), toNat_marker_sub hsize]
    · rw [List.cons_append, readHead_countedMap hmarker, readCount_bigEndian .map hn]
  | extension => exact absurd h id

/-! ### The forms of heads that are written -/

/-- A natural number is written in a form of its unsigned head. -/
theorem form_natural (n : UInt64) : (Head.unsigned n).Form (natural n.toNat) := by
  have hlt := n.toNat_lt
  -- The number takes the narrowest of the forms that hold it.
  rw [natural]
  split
  · rename_i hn
    exact .inl ⟨hn, by rw [UInt8.zero_add]⟩
  · split
    · rename_i hn
      exact .inr ⟨0xcc, 1, by simp [unsignedMarkers], hn, rfl⟩
    · split
      · rename_i hn
        exact .inr ⟨0xcd, 2, by simp [unsignedMarkers], hn, rfl⟩
      · split
        · rename_i hn
          exact .inr ⟨0xce, 4, by simp [unsignedMarkers], hn, rfl⟩
        · exact .inr ⟨0xcf, 8, by simp [unsignedMarkers], hlt, rfl⟩

/-- The complement of a negative number is its residue in bytes. -/
theorem complement_eq {width : Nat} {n : Int} (hneg : n < 0)
    (hlow : -(Nat.pow 256 width : Int) ≤ n) :
    complement width n = Octets.bigEndian width (residue width n) := by
  rw [complement, residue, emod_of_neg hneg hlow]

/-- A negative integer is written in a form of its signed head. -/
theorem form_integer {n : Int64} (hneg : n.toInt < 0) :
    (Head.signed n).Form (integer n.toInt) := by
  have hwide {marker : UInt8} {width : Nat} (hmarker : (marker, width) ∈ signedMarkers)
      (hlow : -(Nat.pow 256 width : Int) ≤ 2 * n.toInt) :
      (Head.signed n).Form (marker :: complement width n.toInt) :=
    .inr ⟨marker, width, hmarker, ⟨hlow, by omega⟩, by rw [complement_eq hneg (by omega)]⟩
  have hlow := n.le_toInt
  rw [integer, if_neg (by omega)]
  split
  · rename_i hn
    have hpow : (Nat.pow 256 1 : Int) = 256 := rfl
    exact .inl ⟨hn, hneg, complement_eq hneg (by omega)⟩
  · split
    · exact hwide (by simp [signedMarkers]) (by show -(256 : Int) ≤ _; omega)
    · split
      · exact hwide (by simp [signedMarkers]) (by show -(65536 : Int) ≤ _; omega)
      · split
        · exact hwide (by simp [signedMarkers]) (by show -(4294967296 : Int) ≤ _; omega)
        · exact hwide (by simp [signedMarkers]) (by show -(18446744073709551616 : Int) ≤ _; omega)

/-- A short text is written in a form of its head. -/
theorem form_text {s : String} (h : (Octets.ofText s).length < 4294967296) :
    (Head.text (Octets.ofText s)).Form (text s) := by
  refine ⟨textHeader (Octets.ofText s).length, rfl, ?_⟩
  rw [textHeader]
  split
  · rename_i hn
    exact .inl ⟨hn, rfl⟩
  · split
    · rename_i hn
      exact .inr ⟨0xd9, 1, by simp [textMarkers], hn, rfl⟩
    · split
      · rename_i hn
        exact .inr ⟨0xda, 2, by simp [textMarkers], hn, rfl⟩
      · exact .inr ⟨0xdb, 4, by simp [textMarkers], h, rfl⟩

/-- A count below 2^32 is written in a form of the array's head. -/
theorem form_arrayHeader {n : Nat} (h : n < 4294967296) : (Head.array n).Form (arrayHeader n) := by
  rw [arrayHeader]
  split
  · rename_i hn
    exact .inl ⟨hn, rfl⟩
  · split
    · rename_i hn
      exact .inr ⟨0xdc, 2, by simp [arrayMarkers], hn, rfl⟩
    · exact .inr ⟨0xdd, 4, by simp [arrayMarkers], h, rfl⟩

theorem form_mapHeader {n : Nat} (h : n < 4294967296) : (Head.map n).Form (mapHeader n) := by
  rw [mapHeader]
  split
  · rename_i hn
    exact .inl ⟨hn, rfl⟩
  · split
    · rename_i hn
      exact .inr ⟨0xde, 2, by simp [mapMarkers], hn, rfl⟩
    · exact .inr ⟨0xdf, 4, by simp [mapMarkers], h, rfl⟩

/-! ### Sizes -/

/-- What is written in at most four bytes is below 2^32. -/
theorem Wide.lt {markers : List (UInt8 × Nat)} {n : Nat} {bytes : Octets}
    (h : Wide markers n bytes) (hwidths : ∀ marker ∈ markers, marker.2 ≤ 4) :
    n < 4294967296 := by
  obtain ⟨marker, width, hmarker, hn, -⟩ := h
  have hpow : Nat.pow 256 width ≤ Nat.pow 256 4 :=
    Nat.pow_le_pow_right (by decide) (hwidths _ hmarker)
  exact Nat.lt_of_lt_of_le hn hpow

/-- A text in written form is shorter than 2^32 bytes. -/
theorem length_lt_of_form {blob bytes : Octets} (h : (Head.text blob).Form bytes) :
    blob.length < 4294967296 := by
  obtain ⟨header, -, ⟨hn, -⟩ | hwide⟩ := h
  · omega
  · exact hwide.lt (by decide)

/-! ### Items that are skipped -/

/-- The head is a whole item. -/
def Head.IsScalar : Head → Prop
  | .array _ | .map _ | .extension => False
  | _ => True

/-- The bytes are so many items one after the other. -/
def Sequence (item : Octets → Prop) : Nat → Octets → Prop
  | 0, bytes => bytes = []
  | count + 1, bytes => ∃ first more, bytes = first ++ more ∧ item first ∧ Sequence item count more

/-- The bytes are an item in which at most `depth` arrays and maps are open at once.  Texts need not
be well-formed, and a map may have any items for keys. -/
def Item : Nat → Octets → Prop
  | 0, bytes => ∃ head : Head, head.IsScalar ∧ head.Form bytes
  | depth + 1, bytes => (∃ head : Head, head.IsScalar ∧ head.Form bytes) ∨
      ∃ count header body, bytes = header ++ body ∧
        (((Head.array count).Form header ∧ Sequence (Item depth) count body) ∨
          ((Head.map count).Form header ∧ Sequence (Item depth) (2 * count) body))

/-- A sequence of items that can be skipped is skipped whole. -/
theorem skipMany_of_sequence {skip : Octets → Except BodyFault Octets} {item : Octets → Prop}
    (hskip : ∀ {bytes}, item bytes → ∀ rest, skip (bytes ++ rest) = .ok rest) {count : Nat}
    {body : Octets} (h : Sequence item count body) (rest : Octets) :
    skipMany skip count (body ++ rest) = .ok rest := by
  induction count generalizing body with
  | zero =>
    obtain rfl := h
    rfl
  | succ count ih =>
    obtain ⟨first, more, rfl, hfirst, hmore⟩ := h
    rw [List.append_assoc, skipMany, hskip hfirst]
    exact ih hmore

/-- A scalar in any form is skipped, at every depth. -/
theorem skipValue_of_scalar {head : Head} (hscalar : head.IsScalar) {bytes : Octets}
    (h : head.Form bytes) (budget : Nat) (rest : Octets) :
    skipValue budget (bytes ++ rest) = .ok rest := by
  rw [skipValue, readHead_of_form h]
  cases head with
  | array | map | extension => exact absurd hscalar id
  | _ => rfl

/-- **Every item is skipped**, and nothing behind it, if the budget allows its nesting. -/
theorem skipValue_of_item {depth : Nat} {bytes : Octets} (h : Item depth bytes) {budget : Nat}
    (hbudget : depth ≤ budget) (rest : Octets) :
    skipValue budget (bytes ++ rest) = .ok rest := by
  -- By induction on the depth: containers are skipped item by item, one level down.
  induction depth generalizing budget bytes rest with
  | zero =>
    obtain ⟨head, hscalar, hform⟩ := h
    exact skipValue_of_scalar hscalar hform budget rest
  | succ depth ih =>
    rcases h with ⟨head, hscalar, hform⟩ | ⟨count, header, body, rfl, hcontainer⟩
    · exact skipValue_of_scalar hscalar hform budget rest
    · obtain ⟨budget, rfl⟩ : ∃ n, budget = n + 1 := ⟨budget - 1, by omega⟩
      have hskip : ∀ {bytes}, Item depth bytes → ∀ rest,
          skipValue budget (bytes ++ rest) = .ok rest :=
        fun hitem rest => ih hitem (Nat.le_of_succ_le_succ hbudget) rest
      rw [List.append_assoc, skipValue]
      rcases hcontainer with ⟨hheader, hbody⟩ | ⟨hheader, hbody⟩
      · rw [readHead_of_form hheader]
        exact skipMany_of_sequence hskip hbody rest
      · rw [readHead_of_form hheader]
        exact skipMany_of_sequence hskip hbody rest

end WireCall.MsgPack
