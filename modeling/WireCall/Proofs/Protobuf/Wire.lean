import WireCall.Protobuf.Wire
import WireCall.Proofs.Recovery

namespace WireCall.Protobuf

/-!
# Fields in Protocol Buffers read back

What a writer puts into a message is a sequence of fields, and `Field.encode` is the form of one.
`readFields_flatMap` splits the forms of several fields into these fields again, for every schema
that has them.  The only thing that can go wrong is a length that does not fit into a varint.

Scalars that are zero and texts that are empty are not written at all; `ofVarint` and `ofText` are
the fields that stand for them, and `foldlM_ofVarint` and `foldlM_ofText` say that a reader which
starts from zero and from the empty text does not see the difference.
-/

/-! ### Varints -/

/-- A group with another one behind it is marked. -/
theorem marked_not_lt (n : Nat) : ¬ (128 + UInt8.ofNat (n % 128) < 128) := by
  have hbyte : (128 + UInt8.ofNat (n % 128)).toNat = 128 + n % 128 := by
    rw [UInt8.toNat_add, UInt8.toNat_ofNat']
    show (128 + n % 128 % 256) % 256 = 128 + n % 128
    omega
  rw [UInt8.lt_iff_toNat_lt, hbyte]
  exact Nat.not_lt.mpr (Nat.le_add_right 128 _)

/-- A number that needs more than the last bit of the last group is refused. -/
theorem readGroups_varintGroups_of_le (groups n : Nat) (rest : Octets)
    (hlarge : 2 * Nat.pow 128 groups ≤ n) :
    readGroups (groups + 1) (varintGroups (groups + 1) n ++ rest) = .error .varintTooLong := by
  induction groups generalizing n with
  | zero =>
    have hone : Nat.pow 128 0 = 1 := rfl
    rw [varintGroups]
    by_cases hlow : n < 128
    · -- The one group is not marked, but it has more than one bit.
      have hbyte : (UInt8.ofNat n).toNat = n := by
        rw [UInt8.toNat_ofNat']
        omega
      have hunmarked : UInt8.ofNat n < 128 := by
        rw [UInt8.lt_iff_toNat_lt, hbyte]
        exact hlow
      have hbits : 2 ≤ UInt8.ofNat n := by
        rw [UInt8.le_iff_toNat_le, hbyte]
        show 2 ≤ n
        omega
      rw [if_pos hlow, List.cons_append, readGroups, if_pos hunmarked, if_pos ⟨rfl, hbits⟩]
    · rw [if_neg hlow, List.cons_append, readGroups, if_neg (marked_not_lt n)]
      rfl
  | succ groups ih =>
    have hstep : Nat.pow 128 (groups + 1) = Nat.pow 128 groups * 128 := rfl
    have hpos : 0 < Nat.pow 128 groups := Nat.pow_pos (by decide)
    -- With one group taken off, what is left is still too large for the others.
    have hlarger : 2 * Nat.pow 128 groups ≤ n / 128 := by
      rw [Nat.le_div_iff_mul_le (by decide)]
      omega
    rw [varintGroups, if_neg (by omega), List.cons_append, readGroups, if_neg (marked_not_lt n),
      ih _ hlarger]

/-- A number is read back from its varint if it has 64 bits. -/
theorem readVarint_recovers (n : Nat) (rest : Octets) :
    Recovers (readVarint (varint n ++ rest)) (n < 0x10000000000000000) (n, rest) := by
  by_cases hsmall : n < 0x10000000000000000
  · exact .of_eq (readVarint_varint hsmall rest)
  · exact .of_error hsmall (readGroups_varintGroups_of_le 9 n rest (Nat.le_of_not_lt hsmall))

theorem varint_ne_nil (n : Nat) : varint n ≠ [] := by
  rw [varint, varintGroups]
  split <;> exact List.cons_ne_nil _ _

/-! ### Keys -/

/-- The wire types take three bits. -/
theorem WireType.number_lt (wireType : WireType) : wireType.number < 8 := by
  cases wireType <;> decide

/-- Every wire type is found again by its number. -/
@[simp] theorem WireType.ofNumber?_number (wireType : WireType) :
    ofNumber? wireType.number = some wireType := by
  cases wireType <;> rfl

/-- A varint with a number in range and a wire type is a key. -/
theorem readKey_of_readVarint {number : Nat} {wireType : WireType} {bytes rest : Octets}
    (hpos : 0 < number) (hsmall : number < 0x20000000)
    (h : readVarint bytes = .ok (8 * number + wireType.number, rest)) :
    readKey bytes = .ok (⟨number, wireType⟩, rest) := by
  have htype := wireType.number_lt
  have hdiv : (8 * number + wireType.number) / 8 = number := by omega
  have hmod : (8 * number + wireType.number) % 8 = wireType.number := by omega
  have hkey : ¬ 0x100000000 ≤ 8 * number + wireType.number := by omega
  rw [readKey, h]
  show (if 0x100000000 ≤ 8 * number + wireType.number then _ else _) = _
  rw [if_neg hkey, hmod, WireType.ofNumber?_number, hdiv]
  show (if number = 0 then _ else _) = _
  rw [if_neg (by omega)]
  rfl

/-- A key in range is read back. -/
theorem readKey_key {number : Nat} (hpos : 0 < number) (hsmall : number < 0x20000000)
    (wireType : WireType) (rest : Octets) :
    readKey (key number wireType ++ rest) = .ok (⟨number, wireType⟩, rest) := by
  have htype := wireType.number_lt
  exact readKey_of_readVarint hpos hsmall (readVarint_varint (by omega) rest)

/-! ### Payloads -/

namespace Payload

/-- How the payload is delimited. -/
def wireType : Payload → WireType
  | varint _ => .varint
  | fixed64 _ => .fixed64
  | delimited _ => .delimited
  | fixed32 _ => .fixed32

/-- The payload as bytes. -/
def encode : Payload → Octets
  | varint n => Protobuf.varint n
  | fixed64 n => Octets.littleEndian 8 n
  | delimited bytes => Protobuf.varint bytes.length ++ bytes
  | fixed32 n => Octets.littleEndian 4 n

/-- A number is small enough for the width that it is written in. -/
def InRange : Payload → Prop
  | varint n => n < 0x10000000000000000
  | fixed64 n => n < 0x10000000000000000
  | delimited _ => True
  | fixed32 n => n < 0x100000000

end Payload

/-- Bytes are read back by their length. -/
theorem readBytes_append (front rest : Octets) :
    readBytes front.length (front ++ rest) = .ok (front, rest) := by
  rw [readBytes, Octets.split?_append]

/-- A payload is read back, or its length was too long to tell. -/
theorem readPayload_encode {payload : Payload} {p : Prop} (hrange : payload.InRange)
    (hsize : p → payload.encode.length < 0x10000000000000000) (rest : Octets) :
    Recovers (readPayload payload.wireType (payload.encode ++ rest)) p (payload, rest) := by
  cases payload with
  | varint n =>
    have hread : Recovers (readVarint (Protobuf.varint n ++ rest)) p (n, rest) :=
      .of_eq (readVarint_varint hrange rest)
    exact .bind hread (.of_eq rfl)
  | fixed64 n =>
    have hread := readBytes_append (Octets.littleEndian 8 n) rest
    rw [Octets.length_littleEndian] at hread
    refine .bind (.of_eq hread) (.of_eq ?_)
    show Except.ok (Payload.fixed64 (Octets.ofLittleEndian (Octets.littleEndian 8 n)), rest) = _
    rw [Octets.ofLittleEndian_littleEndian, Nat.mod_eq_of_lt hrange]
  | delimited bytes =>
    -- The length comes first; when it is read back, that many bytes are there.
    have hlength : p → bytes.length < 0x10000000000000000 := by
      intro hp
      refine Nat.lt_of_le_of_lt ?_ (hsize hp)
      rw [Payload.encode, List.length_append]
      exact Nat.le_add_left ..
    rw [Payload.encode, List.append_assoc]
    refine .bind ((readVarint_recovers bytes.length (bytes ++ rest)).weaken hlength) ?_
    exact .bind (.of_eq (readBytes_append bytes rest)) (.of_eq rfl)
  | fixed32 n =>
    have hread := readBytes_append (Octets.littleEndian 4 n) rest
    rw [Octets.length_littleEndian] at hread
    refine .bind (.of_eq hread) (.of_eq ?_)
    show Except.ok (Payload.fixed32 (Octets.ofLittleEndian (Octets.littleEndian 4 n)), rest) = _
    rw [Octets.ofLittleEndian_littleEndian, Nat.mod_eq_of_lt hrange]

/-! ### Fields -/

/-- The field as bytes. -/
def Field.encode (field : Field) : Octets :=
  key field.number field.payload.wireType ++ field.payload.encode

theorem Field.encode_ne_nil (field : Field) : field.encode ≠ [] := by
  have hkey : key field.number field.payload.wireType ≠ [] := varint_ne_nil _
  simp [Field.encode, hkey]

/-- The schema has the field, and its number can be written. -/
structure Schema.Takes (schema : Schema) (field : Field) : Prop where
  positive : 0 < field.number
  small : field.number < 0x20000000
  known : schema ⟨field.number, field.payload.wireType⟩ = some field.payload.wireType
  inRange : field.payload.InRange

/-- A schema takes a field that it knows under its number and its wire type. -/
theorem Schema.Takes.of_number {schema : Schema} (number : Nat) {payload : Payload}
    (hnumber : 0 < number ∧ number < 0x20000000)
    (hknown : schema ⟨number, payload.wireType⟩ = some payload.wireType)
    (hrange : payload.InRange) : schema.Takes ⟨number, payload⟩ :=
  ⟨hnumber.1, hnumber.2, hknown, hrange⟩

/-- While there are bytes, a key is read and its field taken or skipped. -/
theorem readFieldsOnto_of_ne_nil {schema : Schema} {budget fuel : Nat} {got : List Field}
    {bytes : Octets} (hbytes : bytes ≠ []) :
    readFieldsOnto schema budget (fuel + 1) got bytes = (do
      let (key, rest) ← readKey bytes
      match schema key with
      | some wireType =>
        let (payload, rest) ← readPayload wireType rest
        readFieldsOnto schema budget fuel (⟨key.number, payload⟩ :: got) rest
      | none =>
        let rest ← skipPayload budget key rest
        readFieldsOnto schema budget fuel got rest) := by
  cases bytes with
  | nil => exact absurd rfl hbytes
  | cons => rfl

/-- A field that the schema has is read with its payload. -/
theorem readFieldsOnto_encode {schema : Schema} {field : Field} (h : schema.Takes field)
    (budget fuel : Nat) (got : List Field) (more : Octets) :
    readFieldsOnto schema budget (fuel + 1) got (field.encode ++ more) =
      readPayload field.payload.wireType (field.payload.encode ++ more) >>= fun r =>
        readFieldsOnto schema budget fuel (⟨field.number, r.1⟩ :: got) r.2 := by
  have hne : field.encode ++ more ≠ [] := by simp [field.encode_ne_nil]
  have hkey := readKey_key h.positive h.small field.payload.wireType
    (field.payload.encode ++ more)
  rw [readFieldsOnto_of_ne_nil hne, Field.encode, List.append_assoc, hkey]
  show (match schema ⟨field.number, field.payload.wireType⟩ with
    | some _ => _
    | none => _) = _
  rw [h.known]

/-- Fields that the schema takes are read back, in their order. -/
theorem readFieldsOnto_flatMap {schema : Schema} {fields : List Field} {p : Prop}
    (hfields : ∀ field ∈ fields, schema.Takes field) (budget : Nat)
    (hsize : p → (fields.flatMap Field.encode).length < 0x10000000000000000)
    (got : List Field) {fuel : Nat} (hfuel : fields.length ≤ fuel) :
    Recovers (readFieldsOnto schema budget fuel got (fields.flatMap Field.encode)) p
      (got.reverse ++ fields) := by
  induction fields generalizing got fuel with
  -- By induction on the fields: each is read as it was written, unless its length was too long to
  -- tell.
  | nil =>
    refine .of_eq ?_
    rw [List.flatMap_nil, readFieldsOnto, List.append_nil]
  | cons field fields ih =>
    obtain ⟨fuel, rfl⟩ : ∃ n, fuel = n + 1 := ⟨fuel - 1, by simp at hfuel; omega⟩
    have htakes := hfields field (by simp)
    rw [List.flatMap_cons] at hsize ⊢
    have hpayload : Recovers (readPayload field.payload.wireType
        (field.payload.encode ++ fields.flatMap Field.encode)) p
        (field.payload, fields.flatMap Field.encode) := by
      refine readPayload_encode htakes.inRange (fun hp => ?_) _
      have hlength := hsize hp
      simp only [Field.encode, List.length_append] at hlength
      omega
    have hrest : Recovers
        (readFieldsOnto schema budget fuel (field :: got) (fields.flatMap Field.encode)) p
        ((field :: got).reverse ++ fields) := by
      refine ih (fun f hf => hfields f (by simp [hf])) (fun hp => ?_) _ (by simpa using hfuel)
      have hlength := hsize hp
      rw [List.length_append] at hlength
      omega
    rw [List.reverse_cons, List.append_assoc] at hrest
    rw [readFieldsOnto_encode htakes]
    exact .bind hpayload hrest

/-- The forms of fields that the schema has are split into these fields, or a length among them
does not fit into 64 bits. -/
theorem readFields_flatMap {schema : Schema} {fields : List Field} {p : Prop}
    (hfields : ∀ field ∈ fields, schema.Takes field) (budget : Nat)
    (hsize : p → (fields.flatMap Field.encode).length < 0x10000000000000000) :
    Recovers (readFields schema budget (fields.flatMap Field.encode)) p fields := by
  have hfuel : fields.length ≤ (fields.flatMap Field.encode).length := by
    clear hfields hsize
    induction fields with
    | nil => exact Nat.zero_le _
    | cons field fields ih =>
      have hpos := List.length_pos_iff.mpr field.encode_ne_nil
      rw [List.flatMap_cons, List.length_append, List.length_cons]
      omega
  exact readFieldsOnto_flatMap hfields budget hsize [] hfuel

/-! ### Fields that may be absent -/

/-- The field for an integer: none for zero. -/
def ofVarint (number n : Nat) : List Field := if n = 0 then [] else [⟨number, .varint n⟩]

/-- The field for a text: none for the empty one. -/
def ofText (number : Nat) (s : String) : List Field :=
  if s.isEmpty then [] else [⟨number, .delimited (Octets.ofText s)⟩]

/-- A delimited field is its key, its length and its bytes. -/
theorem delimitedField_eq (number : Nat) (bytes : Octets) :
    delimitedField number bytes = Field.encode ⟨number, .delimited bytes⟩ := by
  rw [delimitedField, List.append_assoc]
  rfl

/-- A varint field is written as such, unless it is zero. -/
theorem varintField_eq (number n : Nat) :
    varintField number n = (ofVarint number n).flatMap Field.encode := by
  rw [varintField, ofVarint]
  split
  · rfl
  · rw [List.flatMap_singleton]
    rfl

theorem textField_eq (number : Nat) (s : String) :
    textField number s = (ofText number s).flatMap Field.encode := by
  rw [textField, ofText]
  split
  · rfl
  · rw [List.flatMap_singleton, delimitedField_eq]

/-- A varint makes one field at most. -/
theorem mem_ofVarint {number n : Nat} {field : Field} (h : field ∈ ofVarint number n) :
    field = ⟨number, .varint n⟩ := by
  rw [ofVarint] at h
  split at h
  · cases h
  · exact List.mem_singleton.mp h

theorem mem_ofText {number : Nat} {s : String} {field : Field} (h : field ∈ ofText number s) :
    field = ⟨number, .delimited (Octets.ofText s)⟩ := by
  rw [ofText] at h
  split at h
  · cases h
  · exact List.mem_singleton.mp h

section Fold

variable {δ ε : Type} {step : δ → Field → Except ε δ} {draft : δ} {more : List Field}

/-- A varint field takes its step, and zero takes none since it changes nothing. -/
theorem foldlM_ofVarint {number n : Nat} (draft' : δ)
    (hstep : step draft ⟨number, .varint n⟩ = .ok draft') (hzero : n = 0 → draft' = draft) :
    (ofVarint number n ++ more).foldlM step draft = more.foldlM step draft' := by
  rw [ofVarint]
  split
  · rename_i hn
    rw [hzero hn, List.nil_append]
  · rw [List.singleton_append, List.foldlM_cons, hstep]
    rfl

/-- A text field takes its step, and the empty text takes none since it changes nothing. -/
theorem foldlM_ofText {number : Nat} {s : String} (draft' : δ)
    (hstep : step draft ⟨number, .delimited (Octets.ofText s)⟩ = .ok draft')
    (hempty : s = "" → draft' = draft) :
    (ofText number s ++ more).foldlM step draft = more.foldlM step draft' := by
  rw [ofText]
  split
  · rename_i hs
    rw [hempty (String.isEmpty_iff.mp hs), List.nil_append]
  · rw [List.singleton_append, List.foldlM_cons, hstep]
    rfl

end Fold
end WireCall.Protobuf
