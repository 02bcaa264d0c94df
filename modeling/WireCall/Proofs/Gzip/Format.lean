import WireCall.Proofs.Gzip.Crc32
import WireCall.Proofs.Gzip.Member

namespace WireCall.Gzip

/-!
# The form of a member

What a member of the writer looks like, told without the writer.  A member is the plain header, one
block in the fixed code, the check value of the data and the size of the data, both with the lowest
byte first (`IsMember`).  The block is a sequence of tokens that spell the data: a literal adds a
byte, and a match adds bytes each of which stands `distance` places before itself (`Token.Adds`), so
a match may reach into the bytes that it adds.

The matches of the writer come from comparing bytes, and `of_lt_agreement` says what has been
compared.  The tokens got so far therefore spell a prefix of the data, which every turn of the
tokenizer extends (`Spells.literal`, `Spells.copy`).

Main statement: what is compressed is a member that holds the data, and the data comes back from it,
whatever follows (`compress_isMember`).
-/

/-! ### Tokens -/

/-- The token adds the piece to the bytes before it. -/
def Token.Adds (before piece : Octets) : Token → Prop
  | .literal b => piece = [b]
  | .copy length distance =>
    piece.length = length ∧ distance ≤ before.length ∧ ∀ k < length,
      (before ++ piece)[before.length + k]? = (before ++ piece)[before.length + k - distance]?

/-- The tokens, all of which can be written, stand for the data. -/
inductive Spells : List Token → Octets → Prop where
  | nil : Spells [] []
  | snoc {tokens : List Token} {token : Token} {before piece : Octets}
      (spells : Spells tokens before) (range : token.InRange) (adds : token.Adds before piece) :
      Spells (tokens ++ [token]) (before ++ piece)

/-- The bits stand for the token in the fixed code: a symbol, and for a match the extra bits of its
length, the symbol of its distance and the extra bits of that.  The greatest length has a symbol of
its own. -/
inductive Token.Form : Token → List Bool → Prop where
  | literal (b : UInt8) : Form (.literal b) (fixedWord b.toNat)
  | copy {i j least least' width width' extra extra' : Nat}
      (length : lengthRanges[i]? = some (least, width)) (extra_lt : extra < 2 ^ width)
      (greatest : least + extra = 258 → width = 0)
      (distance : distanceRanges[j]? = some (least', width')) (extra_lt' : extra' < 2 ^ width') :
      Form (.copy (least + extra) (least' + extra'))
        (fixedWord (257 + i) ++ bitsOfNat width extra ++ bitsOfCode 5 j ++ bitsOfNat width' extra')

/-! ### Members -/

/-- The bytes are a single block in the fixed code that holds the tokens. -/
def IsBlock (block : Octets) (tokens : List Token) : Prop :=
  ∃ words padding, List.Forall₂ Token.Form tokens words ∧ padding < 8 ∧
    block.flatMap bitsOfByte =
      [true, true, false] ++ words.flatten ++ fixedWord endOfBlock ++ List.replicate padding false

/-- The bytes are a member that holds the data. -/
def IsMember (member data : Octets) : Prop :=
  ∃ block tokens check, IsBlock block tokens ∧ Spells tokens data ∧
    Crc32.IsCheckOf check data ∧
      member = plainHeader ++ block ++ Octets.littleEndian 4 check.toNat ++
        Octets.littleEndian 4 (data.length % 2 ^ 32)

/-! ### What the tokenizer compares -/

/-- Places that have been counted hold the same bytes. -/
theorem of_lt_agreement {data : Array UInt8} {p i fuel k : Nat}
    (hk : k < Deflate.agreement data p i fuel) (hp : p < i) :
    i + k < data.size ∧ data.toList[i + k]? = data.toList[p + k]? := by
  -- By induction on the bytes looked at: the first of them agrees, and the others are one place on.
  induction fuel generalizing p i k with
  | zero => cases hk
  | succ fuel ih =>
    rw [Deflate.agreement] at hk
    split at hk
    · rename_i hsame
      obtain ⟨hi, hbyte⟩ := hsame
      cases k with
      | zero =>
        refine ⟨hi, ?_⟩
        rw [Array.getD_eq_getD_getElem?, Array.getD_eq_getD_getElem?,
          Array.getElem?_eq_getElem hi, Array.getElem?_eq_getElem (Nat.lt_trans hp hi)] at hbyte
        rw [Nat.add_zero, Nat.add_zero, Array.getElem?_toList, Array.getElem?_toList,
          Array.getElem?_eq_getElem hi, Array.getElem?_eq_getElem (Nat.lt_trans hp hi)]
        exact congrArg some hbyte.symm
      | succ k =>
        have hrest := ih (Nat.lt_of_succ_lt_succ hk) (Nat.succ_lt_succ hp)
        rwa [Nat.succ_add, Nat.succ_add] at hrest
    · cases hk

/-- A literal spells the next byte of the data. -/
theorem Spells.literal {data : Array UInt8} {i : Nat} {tokens : List Token}
    (h : Spells tokens (data.toList.take i)) (hi : i < data.size) :
    Spells (tokens ++ [.literal data[i]]) (data.toList.take (i + 1)) := by
  have hget : data.toList[i]? = some data[i] := by
    rw [Array.getElem?_toList, Array.getElem?_eq_getElem hi]
  rw [List.take_add_one, hget]
  exact h.snoc trivial rfl

/-- A copy of what stands at an earlier place spells as many bytes of the data as agree. -/
theorem Spells.copy {data : Array UInt8} {p i length : Nat} {tokens : List Token}
    (h : Spells tokens (data.toList.take i)) (hi : i < data.size)
    (hlength : Deflate.lengthAt? data p i = some length) :
    Spells (tokens ++ [.copy length (i - p)]) (data.toList.take (i + length)) := by
  obtain ⟨hp, hdistance, hlow, rfl⟩ := Deflate.of_lengthAt? hlength
  have hbefore : (data.toList.take i).length = i := by
    rw [List.length_take, Array.length_toList, Nat.min_eq_left (Nat.le_of_lt hi)]
  -- The last of the places that have been counted is still inside the data.
  have hlast : Deflate.agreement data p i 258 - 1 < Deflate.agreement data p i 258 := by omega
  have hend := (of_lt_agreement hlast hp).1
  rw [List.take_add]
  refine h.snoc ⟨⟨hlow, Deflate.agreement_le data p i 258⟩, Nat.sub_pos_of_lt hp, hdistance⟩
    ⟨?_, hbefore.symm ▸ Nat.sub_le i p, fun k hk => ?_⟩
  · rw [List.length_take, List.length_drop, Array.length_toList]
    omega
  · rw [← List.take_add, hbefore, List.getElem?_take_of_lt (by omega),
      List.getElem?_take_of_lt (by omega), (of_lt_agreement hk hp).2]
    congr 1
    omega

/-- From anywhere in the data the tokens found spell the rest of it. -/
theorem spells_tokenizeFrom {data : Array UInt8} {i : Nat} {seen : Array Nat} {got : List Token}
    (h : Spells got.reverse (data.toList.take i)) :
    Spells (Deflate.tokenizeFrom data i seen got) data.toList := by
  -- The invariant of the tokenizer: what it has got spells the bytes that it has passed.
  fun_induction Deflate.tokenizeFrom data i seen got with
  | case1 i seen got hi candidate seen' length hlength ih =>
    refine ih ?_
    rw [List.reverse_cons]
    exact h.copy hi hlength
  | case2 i seen got hi candidate seen' hnone ih =>
    refine ih ?_
    rw [List.reverse_cons]
    exact h.literal hi
  | case3 i seen got hi =>
    rwa [List.take_of_length_le (by rw [Array.length_toList]; omega)] at h

/-- The tokens of the data spell it. -/
theorem spells_tokenize (data : Array UInt8) : Spells (Deflate.tokenize data) data.toList :=
  spells_tokenizeFrom .nil

/-! ### What the writer writes -/

/-- A token in range is written in the form the format gives it. -/
theorem form_tokenBits {token : Token} (h : token.InRange) :
    token.Form (Deflate.tokenBits token) := by
  cases token with
  | literal b => exact .literal b
  | copy length distance =>
    obtain ⟨⟨hlow, hhigh⟩, hnear, hfar⟩ := h
    obtain ⟨i, least, width, hrange, hi, hleast, hextra⟩ := rangeOf_length hlow hhigh
    obtain ⟨j, least', width', hrange', hj, hleast', hextra'⟩ := rangeOf_distance hnear hfar
    -- The longest match has a symbol of its own, with no extra bits.
    have hgreatest : least + (length - least) = 258 → width = 0 := by
      intro h258
      obtain rfl : length = 258 := by omega
      have hlast : rangeOf lengthRanges 258 = (28, 258, 0) := by decide
      rw [hlast] at hrange
      cases hrange
      rfl
    have hform := Token.Form.copy hi hextra hgreatest hj hextra'
    rw [Nat.add_sub_cancel' hleast, Nat.add_sub_cancel' hleast'] at hform
    rwa [Deflate.tokenBits, hrange, hrange']

/-- What is written for data is one block of the tokens found in it. -/
theorem isBlock_ofOctets (data : Octets) :
    IsBlock (Deflate.ofOctets data) (Deflate.tokenize data.toArray) := by
  obtain ⟨count, hcount, hbits⟩ := flatMap_ofOctets data
  refine ⟨(Deflate.tokenize data.toArray).map Deflate.tokenBits, count, ?_, hcount, ?_⟩
  · rw [List.forall₂_map_right_iff, List.forall₂_same]
    exact fun token htoken => form_tokenBits (Deflate.inRange_tokenize data.toArray token htoken)
  · rw [hbits, List.flatMap_def, List.append_assoc, List.append_assoc, Deflate.blockHead]

/-- The bytes of a number depend on it only modulo what they can hold. -/
theorem littleEndian_mod (width n : Nat) :
    Octets.littleEndian width (n % 256 ^ width) = Octets.littleEndian width n := by
  induction width generalizing n with
  | zero => rfl
  | succ width ih =>
    have hbyte : UInt8.ofNat (n % 256 ^ (width + 1)) = UInt8.ofNat n := by
      apply UInt8.toNat_inj.mp
      rw [UInt8.toNat_ofNat', UInt8.toNat_ofNat', Nat.pow_succ']
      exact Nat.mod_mul_right_mod n 256 _
    have hrest : n % 256 ^ (width + 1) / 256 = n / 256 % 256 ^ width := by
      rw [Nat.pow_succ']
      exact Nat.mod_mul_right_div_self n 256 _
    rw [Octets.littleEndian, Octets.littleEndian, hbyte, hrest, ih]

/-- **What is compressed is one member, and comes back.**  The data, which is shorter than the
machine can count, is read from its member whatever follows it, and the member ends in the check
value of the data and its size modulo `2 ^ 32`. -/
theorem compress_isMember (data : Octets) (hsize : data.length < 2 ^ 64) :
    (∀ rest, decompress (2 ^ 64 - 1) (compress data ++ rest) = .ok data) ∧
      IsMember (compress data) data := by
  refine ⟨fun rest => ?_, Deflate.ofOctets data, Deflate.tokenize data.toArray,
    Crc32.ofOctets data, isBlock_ofOctets data, spells_tokenize data.toArray,
    (Crc32.isCheckOf_iff _ data).mpr rfl, ?_⟩
  · rw [decompress_compress_append, if_pos (by omega)]
  · have hmod : Octets.littleEndian 4 (data.length % 2 ^ 32) =
        Octets.littleEndian 4 data.length := littleEndian_mod 4 data.length
    rw [compress, trailer, hmod]
    simp only [List.append_assoc]

/-- A run of one byte is a literal and a match that reaches into itself. -/
theorem compress_isMember_sample :
    (List.replicate 9 0x61 : Octets).length < 2 ^ 64 ∧
      decompress (2 ^ 64 - 1) (compress (List.replicate 9 0x61) ++ [0x1f, 0x00]) =
        .ok (List.replicate 9 0x61) ∧
      IsMember (compress (List.replicate 9 0x61)) (List.replicate 9 0x61) :=
  have hsize : (List.replicate 9 0x61 : Octets).length < 2 ^ 64 := by decide
  ⟨hsize, (compress_isMember _ hsize).1 [0x1f, 0x00], (compress_isMember _ hsize).2⟩

end WireCall.Gzip
