import Mathlib.Algebra.GroupWithZero.Nat
import WireCall.Proofs.Octets
import WireCall.Proofs.Protobuf.Wire

namespace WireCall.Protobuf

/-!
# How many bytes fields take

A reader accepts numbers with more groups than they need, so a field is never shorter on the wire
than its own form: the fields of a message together take no more bytes than the message
(`readFields_size`).

The length in front of some bytes grows with them, but slowly.  When a form gets half as long again
the length in front of it takes one more byte at most, and this is made up for by the key and the
length that were there before; so the growth by one half carries over from the payload of a field to
the field (`framed_grows`).
-/

/-! ### Varints -/

/-- A larger number takes no fewer groups. -/
theorem length_varintGroups_mono (groups : Nat) {m n : Nat} (h : m ≤ n) :
    (varintGroups groups m).length ≤ (varintGroups groups n).length := by
  induction groups generalizing m n with
  | zero => exact Nat.le_refl _
  | succ groups ih =>
    rw [varintGroups, varintGroups]
    split
    · split
      · exact Nat.le_refl _
      · exact Nat.succ_le_succ (Nat.zero_le _)
    · rw [if_neg (by omega)]
      exact Nat.succ_le_succ (ih (Nat.div_le_div_right h))

/-- One more group allowed takes no fewer groups. -/
theorem length_varintGroups_le_succ (groups n : Nat) :
    (varintGroups groups n).length ≤ (varintGroups (groups + 1) n).length := by
  induction groups generalizing n with
  | zero => exact Nat.zero_le _
  | succ groups ih =>
    rw [varintGroups, varintGroups]
    split
    · exact Nat.le_refl _
    · exact Nat.succ_le_succ (ih (n / 128))

/-- A number takes no more groups than allowed. -/
theorem length_varintGroups_le (groups n : Nat) : (varintGroups groups n).length ≤ groups := by
  induction groups generalizing n with
  | zero => exact Nat.le_refl _
  | succ groups ih =>
    rw [varintGroups]
    split
    · exact Nat.succ_le_succ (Nat.zero_le _)
    · exact Nat.succ_le_succ (ih _)

theorem length_varint_le (n : Nat) : (varint n).length ≤ 10 := length_varintGroups_le 10 n

/-- A varint takes a byte at least. -/
theorem length_varint_pos (n : Nat) : 0 < (varint n).length :=
  List.length_pos_iff.mpr (varint_ne_nil n)

theorem length_varint_mono {m n : Nat} (h : m ≤ n) : (varint m).length ≤ (varint n).length :=
  length_varintGroups_mono 10 h

/-- One byte more has room for a number that is up to 128 times as large. -/
theorem length_varint_le_succ {m n : Nat} (h : m / 128 ≤ n) :
    (varint m).length ≤ (varint n).length + 1 := by
  rw [varint, varintGroups]
  split
  · exact Nat.succ_le_succ (Nat.zero_le _)
  · refine Nat.succ_le_succ (Nat.le_trans (length_varintGroups_mono 9 h) ?_)
    exact length_varintGroups_le_succ 9 n

/-- The varint of a sum is no longer than both varints. -/
theorem length_varint_add_le (m n : Nat) :
    (varint (m + n)).length ≤ (varint m).length + (varint n).length := by
  have hm := length_varint_pos m
  have hn := length_varint_pos n
  rcases Nat.le_total m n with hle | hle
  · have := length_varint_le_succ (m := m + n) (n := n) (by omega)
    omega
  · have := length_varint_le_succ (m := m + n) (n := m) (by omega)
    omega

/-! ### Fields with a length in front -/

/-- The bytes of a field with a small number and so many bytes behind their length. -/
def framed (n : Nat) : Nat := 1 + (varint n).length + n

/-- The key of a field below sixteen is one byte. -/
theorem length_key {number : Nat} (hnumber : number < 16) (wireType : WireType) :
    (key number wireType).length = 1 := by
  have htype := wireType.number_lt
  rw [key, varint, varintGroups, if_pos (by omega)]
  rfl

/-- A varint field takes eleven bytes at most. -/
theorem length_varintField_le {number : Nat} (hnumber : number < 16) (n : Nat) :
    (varintField number n).length ≤ 11 := by
  have hlength := length_varint_le n
  rw [varintField]
  split
  · exact Nat.zero_le _
  · rw [List.length_append, length_key hnumber]
    omega

/-- A delimited field takes the frame of its bytes. -/
theorem length_delimitedField {number : Nat} (hnumber : number < 16) (bytes : Octets) :
    (delimitedField number bytes).length = framed bytes.length := by
  rw [delimitedField, List.length_append, List.length_append, length_key hnumber, framed]

theorem framed_mono {m n : Nat} (h : m ≤ n) : framed m ≤ framed n := by
  have := length_varint_mono h
  rw [framed, framed]
  omega

/-- One frame around all takes no more than two frames. -/
theorem framed_add_le (m n : Nat) : framed (m + n) ≤ framed m + framed n := by
  have := length_varint_add_le m n
  rw [framed, framed, framed]
  omega

/-- The growth of bytes by one half carries over to their frame. -/
theorem framed_grows_of_zero {m n : Nat} (h : 2 * m ≤ 3 * n) : 2 * framed m ≤ 3 * framed n := by
  have hlength := length_varint_le_succ (m := m) (n := n) (by omega)
  have hpos := length_varint_pos n
  rw [framed, framed]
  omega

/-- Growth by one half of what is read carries over from payloads to fields. -/
theorem framed_grows {m k n : Nat} (h : 2 * m ≤ 2 * k + 3 * n) :
    2 * framed m ≤ 2 * framed k + 3 * framed n := by
  rcases Nat.le_total m k with hle | hle
  · have := framed_mono hle
    omega
  · obtain ⟨more, rfl⟩ := Nat.exists_eq_add_of_le hle
    have hmore := framed_grows_of_zero (m := more) (n := n) (by omega)
    have := framed_add_le k more
    omega

/-! ### Reading -/

/-- The number that was read takes no more bytes than were read for it. -/
theorem readGroups_size {groups : Nat} {bytes : Octets} {r : Nat × Octets}
    (h : readGroups groups bytes = .ok r) :
    (varintGroups groups r.1).length + r.2.length ≤ bytes.length := by
  induction groups generalizing bytes r with
  | zero => cases h
  | succ groups ih =>
    cases bytes with
    | nil => cases h
    | cons b rest =>
      rw [readGroups] at h
      split at h
      · rename_i hlow
        split at h
        · cases h
        · obtain rfl := Except.ok.inj h
          have hbyte : b.toNat < 128 := UInt8.lt_iff_toNat_lt.mp hlow
          dsimp only
          rw [varintGroups, if_pos hbyte]
          exact Nat.le_of_eq (Nat.add_comm 1 rest.length)
      · -- A marked group is followed by others, which may be padding.
        have hbyte := b.toNat_lt
        split at h
        · rename_i n rest' hread
          obtain rfl := Except.ok.inj h
          have hrest := ih hread
          dsimp only at hrest ⊢
          rw [varintGroups]
          split
          · rw [List.length_cons, List.length_nil, List.length_cons]
            omega
          · have hdiv : (b.toNat - 128 + 128 * n) / 128 = n := by omega
            rw [hdiv, List.length_cons, List.length_cons]
            omega
        · cases h

/-- What was read from groups is below what they can hold. -/
theorem readGroups_lt {groups : Nat} {bytes : Octets} {r : Nat × Octets}
    (h : readGroups (groups + 1) bytes = .ok r) : r.1 < 2 * Nat.pow 128 groups := by
  induction groups generalizing bytes r with
  | zero =>
    cases bytes with
    | nil => cases h
    | cons b rest =>
      rw [readGroups] at h
      split at h
      · split at h
        · cases h
        · rename_i hsmall
          obtain rfl := Except.ok.inj h
          have hbyte : b < 2 := UInt8.not_le.mp fun hle => hsmall ⟨rfl, hle⟩
          exact UInt8.lt_iff_toNat_lt.mp hbyte
      · cases h
  -- By induction on the groups: each of them holds seven bits more than those behind it.
  | succ groups ih =>
    have hpow : Nat.pow 128 (groups + 1) = 128 * Nat.pow 128 groups := Nat.pow_succ'
    have hpos : 0 < Nat.pow 128 groups := Nat.pow_pos (by decide)
    cases bytes with
    | nil => cases h
    | cons b rest =>
      rw [readGroups] at h
      split at h
      · rename_i hlow
        split at h
        · cases h
        · obtain rfl := Except.ok.inj h
          have hbyte : b.toNat < 128 := UInt8.lt_iff_toNat_lt.mp hlow
          show b.toNat < _
          omega
      · have hbyte := b.toNat_lt
        split at h
        · rename_i n rest' hread
          obtain rfl := Except.ok.inj h
          have hlt : n < 2 * Nat.pow 128 groups := ih hread
          show b.toNat - 128 + 128 * n < _
          omega
        · cases h

/-- A varint that was read is of 64 bits and takes no more bytes than were read for it. -/
theorem readVarint_size {bytes : Octets} {r : Nat × Octets} (h : readVarint bytes = .ok r) :
    r.1 < 0x10000000000000000 ∧ (varint r.1).length + r.2.length ≤ bytes.length :=
  ⟨readGroups_lt h, readGroups_size h⟩

/-- A key takes a byte at least. -/
theorem readKey_size {bytes : Octets} {r : Key × Octets} (h : readKey bytes = .ok r) :
    r.2.length < bytes.length := by
  obtain ⟨⟨n, rest⟩, hn, h⟩ := bind_eq_ok_iff.mp h
  have hsize := (readVarint_size hn).2
  have hpos := length_varint_pos n
  dsimp only at h hsize
  split at h
  · cases h
  · split at h
    · cases h
    · split at h
      · cases h
      · obtain rfl := Except.ok.inj h
        show rest.length < _
        omega

/-- Bytes are read as many as asked for, and the others stay. -/
theorem readBytes_size {count : Nat} {bytes : Octets} {r : Octets × Octets}
    (h : readBytes count bytes = .ok r) :
    r.1.length = count ∧ r.1.length + r.2.length = bytes.length := by
  rw [readBytes] at h
  split at h
  · rename_i cut hcut
    obtain rfl := Except.ok.inj h
    obtain ⟨hlength, hbytes⟩ := Octets.split?_eq_some_iff.mp hcut
    exact ⟨hlength, by rw [hbytes, List.length_append]⟩
  · cases h

/-- A payload that was read can be written, and takes no more bytes then. -/
theorem readPayload_size {wireType : WireType} {bytes : Octets} {r : Payload × Octets}
    (h : readPayload wireType bytes = .ok r) :
    r.1.InRange ∧ r.1.encode.length + r.2.length ≤ bytes.length := by
  -- By cases on the wire type; groups are skipped and never read as payloads.
  cases wireType with
  | varint =>
    obtain ⟨n, hn, h⟩ := bind_eq_ok_iff.mp h
    obtain rfl := Except.ok.inj h
    exact readVarint_size hn
  | fixed64 =>
    obtain ⟨front, hfront, h⟩ := bind_eq_ok_iff.mp h
    obtain rfl := Except.ok.inj h
    obtain ⟨hlength, hsum⟩ := readBytes_size hfront
    have hlt := Octets.ofLittleEndian_lt front.1
    rw [hlength] at hlt
    refine ⟨hlt, ?_⟩
    rw [Payload.encode, Octets.length_littleEndian]
    exact Nat.le_of_eq (hlength ▸ hsum)
  | delimited =>
    obtain ⟨count, hcount, h⟩ := bind_eq_ok_iff.mp h
    obtain ⟨front, hfront, h⟩ := bind_eq_ok_iff.mp h
    obtain rfl := Except.ok.inj h
    have hprefix := (readVarint_size hcount).2
    obtain ⟨hlength, hsum⟩ := readBytes_size hfront
    refine ⟨trivial, ?_⟩
    rw [Payload.encode, List.length_append, hlength]
    show _ + front.2.length ≤ _
    omega
  | fixed32 =>
    obtain ⟨front, hfront, h⟩ := bind_eq_ok_iff.mp h
    obtain rfl := Except.ok.inj h
    obtain ⟨hlength, hsum⟩ := readBytes_size hfront
    have hlt := Octets.ofLittleEndian_lt front.1
    rw [hlength] at hlt
    refine ⟨hlt, ?_⟩
    rw [Payload.encode, Octets.length_littleEndian]
    exact Nat.le_of_eq (hlength ▸ hsum)
  | groupStart | groupEnd => cases h

/-- Skipping a group never goes back. -/
theorem skipGroup_size {skip : Key → Octets → Except BodyFault Octets}
    (hskip : ∀ key bytes rest, skip key bytes = .ok rest → rest.length ≤ bytes.length)
    {number fuel : Nat} {bytes rest : Octets} (h : skipGroup skip number fuel bytes = .ok rest) :
    rest.length ≤ bytes.length := by
  -- By induction on the fields of the group, up to its end.
  induction fuel generalizing bytes with
  | zero => cases h
  | succ fuel ih =>
    obtain ⟨⟨key, behind⟩, hkey, h⟩ := bind_eq_ok_iff.mp h
    have hsize := readKey_size hkey
    dsimp only at h hsize
    split at h
    · split at h
      · obtain rfl := Except.ok.inj h
        exact Nat.le_of_lt hsize
      · cases h
    · obtain ⟨next, hnext, h⟩ := bind_eq_ok_iff.mp h
      have hrest := ih h
      have := hskip _ _ _ hnext
      omega

/-- Skipping a payload never goes back. -/
theorem skipPayload_size {budget : Nat} {key : Key} {bytes rest : Octets}
    (h : skipPayload budget key bytes = .ok rest) : rest.length ≤ bytes.length := by
  induction budget generalizing key bytes rest with
  | zero => cases h
  | succ budget ih =>
    rw [skipPayload] at h
    split at h
    · exact skipGroup_size (fun _ _ _ => ih) h
    · cases h
    · obtain ⟨payload, hpayload, h⟩ := bind_eq_ok_iff.mp h
      obtain rfl := Except.ok.inj h
      have := (readPayload_size hpayload).2
      omega

/-- The bytes that a field with a small number takes. -/
def Field.size (field : Field) : Nat := 1 + field.payload.encode.length

/-- The fields that were read are in range and take no more bytes than were read. -/
theorem readFieldsOnto_size {schema : Schema} {budget fuel : Nat} {got fields : List Field}
    {bytes : Octets} (hgot : ∀ field ∈ got, field.payload.InRange)
    (h : readFieldsOnto schema budget fuel got bytes = .ok fields) :
    (∀ field ∈ fields, field.payload.InRange) ∧
      (fields.map Field.size).sum ≤ (got.map Field.size).sum + bytes.length := by
  induction fuel generalizing got bytes with
  | zero =>
    cases bytes with
    | nil =>
      obtain rfl := Except.ok.inj h
      refine ⟨fun field hfield => hgot field (List.mem_reverse.mp hfield), ?_⟩
      rw [List.map_reverse, List.sum_reverse]
      exact Nat.le_add_right _ _
    | cons => cases h
  | succ fuel ih =>
    -- Without bytes the reading is over; else there is a field to be taken or skipped.
    by_cases hnil : bytes = []
    · subst hnil
      obtain rfl := Except.ok.inj h
      refine ⟨fun field hfield => hgot field (List.mem_reverse.mp hfield), ?_⟩
      rw [List.map_reverse, List.sum_reverse]
      exact Nat.le_add_right _ _
    · rw [readFieldsOnto_of_ne_nil hnil] at h
      obtain ⟨⟨key, behind⟩, hkey, h⟩ := bind_eq_ok_iff.mp h
      have hsize := readKey_size hkey
      dsimp only at h hsize
      split at h
      · obtain ⟨⟨payload, rest⟩, hpayload, h⟩ := bind_eq_ok_iff.mp h
        obtain ⟨hrange, hbytes⟩ := readPayload_size hpayload
        obtain ⟨hall, hsum⟩ := ih (List.forall_mem_cons.mpr ⟨hrange, hgot⟩) h
        refine ⟨hall, Nat.le_trans hsum ?_⟩
        rw [List.map_cons, List.sum_cons, Field.size]
        dsimp only at hbytes ⊢
        omega
      · obtain ⟨rest, hrest, h⟩ := bind_eq_ok_iff.mp h
        obtain ⟨hall, hsum⟩ := ih hgot h
        have := skipPayload_size hrest
        exact ⟨hall, by omega⟩

/-- The fields of a message can be written, and take no more bytes then than the message. -/
theorem readFields_size {schema : Schema} {budget : Nat} {bytes : Octets} {fields : List Field}
    (h : readFields schema budget bytes = .ok fields) :
    (∀ field ∈ fields, field.payload.InRange) ∧ (fields.map Field.size).sum ≤ bytes.length := by
  have hsize := readFieldsOnto_size (by simp) h
  rwa [List.map_nil, List.sum_nil, Nat.zero_add] at hsize

end WireCall.Protobuf
