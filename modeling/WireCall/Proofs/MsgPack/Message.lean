import WireCall.Proofs.MsgPack.Value

namespace WireCall.MsgPack

/-!
# Messages in MessagePack read back

A message is written as a map from the names of its fields in a fixed order.  The reader takes any
order and any subset, by way of a draft that is filled field by field; on what the writer wrote it
fills every field once.  All fields but the last are read back without conditions, and the last one
holds the values, whose nesting decides.

Main statement: the body of a message, with anything behind it, decodes to the message or to a
fault of the codec, and to the message if its values nest at most 1021 lists and objects
(`decode_encode_append`).
-/

/-- The containers that may be open at once in a value of a message, where reading starts below
the message itself and, for an argument, below the list of arguments. -/
def valueLimit : Nat := 1021

/-! ### Fields -/

/-- A natural number in range is read back as an integer. -/
theorem readInteger_natural {least greatest : Int} {n : Nat} (h : n < 0x10000000000000000)
    (hrange : least ≤ n ∧ (n : Int) ≤ greatest) (rest : Octets) :
    readInteger least greatest (natural n ++ rest) = .ok ((n : Int), rest) := by
  rw [readInteger, readHead_natural h]
  show (if least ≤ ((UInt64.ofNat n).toNat : Int) ∧ ((UInt64.ofNat n).toNat : Int) ≤ greatest
    then Except.ok (((UInt64.ofNat n).toNat : Int), rest)
    else Except.error BodyFault.outOfRange) = _
  rw [UInt64.toNat_ofNat', Nat.mod_eq_of_lt h, if_pos hrange]

/-- An integer in range is read back. -/
theorem readInteger_integer {least greatest n : Int} (hlow : -0x8000000000000000 ≤ n)
    (hhigh : n < 0x8000000000000000) (hrange : least ≤ n ∧ n ≤ greatest) (rest : Octets) :
    readInteger least greatest (integer n ++ rest) = .ok (n, rest) := by
  by_cases hneg : n < 0
  · rw [readInteger, readHead_integer_of_neg hneg hlow]
    show (if least ≤ (Int64.ofInt n).toInt ∧ (Int64.ofInt n).toInt ≤ greatest
      then Except.ok ((Int64.ofInt n).toInt, rest) else Except.error BodyFault.outOfRange) = _
    rw [Int64.toInt_ofInt_of_le hlow hhigh, if_pos hrange]
  · obtain ⟨k, rfl⟩ : ∃ k : Nat, n = k := Int.eq_ofNat_of_zero_le (by omega)
    rw [integer, if_pos (by omega), Int.toNat_natCast]
    exact readInteger_natural (by omega) hrange rest

/-- A text shorter than 2^32 bytes is read back. -/
theorem readText_text {s : String} (h : (Octets.ofText s).length < 0x100000000) (rest : Octets) :
    readText (text s ++ rest) = .ok (s, rest) := by
  rw [readText, readHead_text h]
  exact textOf_bind s fun s => Except.ok (s, rest)

/-- Items are read back, or refused for nesting too deep. -/
theorem readValues_items {items : List Value} (hcount : items.length < 0x100000000)
    (hnormal : ∀ v ∈ items, v.Normal) (hshort : ∀ v ∈ items, v.Short) (budget : Nat)
    (rest : Octets) :
    Recovers
      (readValues (budget + 1) (arrayHeader items.length ++ (items.flatMap encodeValue ++ rest)))
      (∀ v ∈ items, NestsWithin budget v) (items, rest) := by
  rw [readValues, readHead_arrayHeader hcount]
  refine .bind (.of_eq rfl) (readMany_flatMap (fun v hv rest => ?_) [] rest)
  exact (readValue_encodeValue v (hnormal v hv) (hshort v hv) budget rest).weaken fun h => h v hv

/-! ### Entries -/

namespace Layout

variable {δ : Type} {layout : Layout δ}

/-- An entry under the name of a field is read into this field. -/
theorem readEntries_text (field : Nat) {budget count : Nat} {name : String} {draft draft' : δ}
    {bytes rest : Octets} {p : Prop} {r : δ × Octets}
    (hname : layout.names.findIdx? (fun n => Octets.ofText n == Octets.ofText name) = some field)
    (hshort : (Octets.ofText name).length < 0x100000000)
    (hfield : Recovers (layout.readField field draft bytes) p (draft', rest))
    (hrest : Recovers (layout.readEntries budget count draft' rest) p r) :
    Recovers (layout.readEntries budget (count + 1) draft (text name ++ bytes)) p r := by
  have hkey : layout.fieldOf (.text (Octets.ofText name)) = .ok (some field) := by
    rw [fieldOf, hname]
  rw [readEntries, readHead_text hshort]
  refine .bind (.of_eq rfl) ?_
  show Recovers (layout.fieldOf (.text (Octets.ofText name)) >>= _) p r
  rw [hkey]
  exact .bind (.of_eq rfl) (.bind hfield hrest)

/-- A message is read as the entries of its map. -/
theorem read_map {count : Nat} {bytes : Octets} {p : Prop} {draft : δ} {rest : Octets}
    (hcount : count < 0x100000000)
    (h : Recovers (layout.readEntries (nestingLimit - 1) count layout.empty bytes) p
      (draft, rest)) : Recovers (layout.read (mapHeader count ++ bytes)) p draft := by
  rw [read, readHead_mapHeader hcount]
  exact .bind (.of_eq rfl) (.bind h (.of_eq rfl))

end Layout

/-! ### Messages -/

/-- A request is written as a map of its four fields, in order. -/
theorem encodeRequest_eq (r : Request) :
    encodeRequest r = mapHeader 4 ++ (text "request_id" ++ (natural r.requestId.toNat ++
      (text "service_name" ++ (text r.service ++ (text "method_name" ++ (text r.method ++
        (text "args" ++ (arrayHeader r.args.length ++ r.args.flatMap encodeValue)))))))) := by
  rw [encodeRequest, toList_writeItems_eq]
  simp only [List.append_assoc]

/-- A response is written as a map of its six fields, in order. -/
theorem encodeResponse_eq (r : Response) :
    encodeResponse r = mapHeader 6 ++ (text "request_id" ++ (natural r.requestId.toNat ++
      (text "code" ++ (integer r.code.toInt ++ (text "msg" ++ (text r.text ++
        (text "compress_type" ++ (natural r.compression.toNat ++
          (text "serialize_type" ++ (natural r.serialization.toNat ++
            (text "data" ++ encodeValue r.data))))))))))) := by
  rw [encodeResponse, toList_writeValue]
  simp only [List.append_assoc]
  rfl

/-- A field that is still empty takes what is read for it. -/
theorem fill_none {α : Type} {name : String} {read : Except BodyFault (α × Octets)} {p : Prop}
    {a : α} {rest : Octets} (h : Recovers read p (a, rest)) :
    Recovers (fill name none read) p (some a, rest) := h.map _

/-! Ids and tags are read as integers in the range of their types. -/

/-- An id is in the range that its field allows. -/
theorem id_range (id : UInt64) : (0 : Int) ≤ id.toNat ∧ (id.toNat : Int) ≤ IntKind.u64.max := by
  have := id.toNat_lt
  show (0 : Int) ≤ id.toNat ∧ (id.toNat : Int) ≤ 18446744073709551615
  omega

theorem tag_range (tag : UInt8) : (0 : Int) ≤ tag.toNat ∧ (tag.toNat : Int) ≤ IntKind.u8.max := by
  have := tag.toNat_lt
  show (0 : Int) ≤ tag.toNat ∧ (tag.toNat : Int) ≤ 255
  omega

theorem code_range (code : Int16) :
    IntKind.i16.min ≤ code.toInt ∧ code.toInt ≤ IntKind.i16.max :=
  ⟨code.le_toInt, Int.le_of_lt_add_one code.toInt_lt⟩

/-- An id is read back from its number. -/
theorem ofInt_id (id : UInt64) : UInt64.ofInt id.toNat = id := by
  have hmod : ((id.toNat : Int) % 2 ^ 64).toNat = id.toNat := by
    have := id.toNat_lt
    omega
  rw [UInt64.ofInt, hmod, UInt64.ofNat_toNat]

theorem ofInt_tag (tag : UInt8) : UInt8.ofInt tag.toNat = tag := by
  have hmod : ((tag.toNat : Int) % 2 ^ 8).toNat = tag.toNat := by
    have := tag.toNat_lt
    omega
  rw [UInt8.ofInt, hmod, UInt8.ofNat_toNat]

/-- The draft with every field of a request. -/
def RequestDraft.ofRequest (r : Request) : RequestDraft :=
  ⟨some r.requestId.toNat, some r.service, some r.method, some r.args⟩

/-- The draft that holds all of a request makes that request. -/
theorem RequestDraft.finish_ofRequest (r : Request) : (ofRequest r).finish = .ok r := by
  show Except.ok (⟨UInt64.ofInt r.requestId.toNat, r.service, r.method, r.args⟩ : Request) = _
  rw [ofInt_id]

/-- The draft with every field of a response. -/
def ResponseDraft.ofResponse (r : Response) : ResponseDraft :=
  ⟨some r.requestId.toNat, some r.code.toInt, some r.text, some r.compression.toNat,
    some r.serialization.toNat, some r.data⟩

theorem ResponseDraft.finish_ofResponse (r : Response) : (ofResponse r).finish = .ok r := by
  show Except.ok (⟨UInt64.ofInt r.requestId.toNat, Int16.ofInt r.code.toInt, r.text,
    UInt8.ofInt r.compression.toNat, UInt8.ofInt r.serialization.toNat, r.data⟩ : Response) = _
  rw [ofInt_id, Int16.ofInt_toInt, ofInt_tag, ofInt_tag]

/-- A normal and short request is read back, or refused for nesting too deep. -/
theorem decodeRequest_encodeRequest (r : Request) (hnormal : (Message.request r).Normal)
    (hshort : (Message.request r).Short) (rest : Octets) :
    Recovers (decodeRequest (encodeRequest r ++ rest)) (∀ v ∈ r.args, NestsWithin valueLimit v)
      r := by
  have hservice : (Octets.ofText r.service).length < 0x100000000 :=
    hshort.texts r.service (by simp [Message.texts])
  have hmethod : (Octets.ofText r.method).length < 0x100000000 :=
    hshort.texts r.method (by simp [Message.texts])
  have hargs := readValues_items hshort.count hnormal hshort.values valueLimit rest
  -- The four entries are read one after the other, each into a field that is still empty.
  have hentries : Recovers
      (RequestDraft.layout.readEntries (nestingLimit - 1) 4 {}
        (text "request_id" ++ (natural r.requestId.toNat ++ (text "service_name" ++
          (text r.service ++ (text "method_name" ++ (text r.method ++ (text "args" ++
            (arrayHeader r.args.length ++ (r.args.flatMap encodeValue ++ rest))))))))))
      (∀ v ∈ r.args, NestsWithin valueLimit v) (.ofRequest r, rest) := by
    refine Layout.readEntries_text 0 (by decide) (by decide)
      (.bind (fill_none (.of_eq (readInteger_natural r.requestId.toNat_lt (id_range _) _)))
        (.of_eq rfl)) ?_
    refine Layout.readEntries_text 1 (by decide) (by decide)
      (.bind (fill_none (.of_eq (readText_text hservice _))) (.of_eq rfl)) ?_
    refine Layout.readEntries_text 2 (by decide) (by decide)
      (.bind (fill_none (.of_eq (readText_text hmethod _))) (.of_eq rfl)) ?_
    refine Layout.readEntries_text 3 (by decide) (by decide)
      (.bind (fill_none hargs) (.of_eq rfl)) ?_
    exact .of_eq rfl
  rw [encodeRequest_eq]
  simp only [List.append_assoc]
  exact .bind (Layout.read_map (by decide) hentries) (.of_eq (RequestDraft.finish_ofRequest r))

/-- Data may nest one level deeper than an argument, which stands in the list of arguments. -/
theorem decodeResponse_encodeResponse (r : Response) (hnormal : (Message.response r).Normal)
    (hshort : (Message.response r).Short) (rest : Octets) :
    Recovers (decodeResponse (encodeResponse r ++ rest)) (NestsWithin (valueLimit + 1) r.data)
      r := by
  have htext : (Octets.ofText r.text).length < 0x100000000 :=
    hshort.texts r.text (by simp [Message.texts])
  have hdata : Recovers (readValue (nestingLimit - 1) (encodeValue r.data ++ rest))
      (NestsWithin (valueLimit + 1) r.data) (r.data, rest) :=
    readValue_encodeValue r.data (hnormal _ (by simp [Message.values]))
      (hshort.values _ (by simp [Message.values])) _ rest
  have hlow := r.code.le_toInt
  have hhigh := r.code.toInt_lt
  have hentries : Recovers
      (ResponseDraft.layout.readEntries (nestingLimit - 1) 6 {}
        (text "request_id" ++ (natural r.requestId.toNat ++ (text "code" ++
          (integer r.code.toInt ++ (text "msg" ++ (text r.text ++ (text "compress_type" ++
            (natural r.compression.toNat ++ (text "serialize_type" ++
              (natural r.serialization.toNat ++ (text "data" ++
                (encodeValue r.data ++ rest)))))))))))))
      (NestsWithin (valueLimit + 1) r.data) (.ofResponse r, rest) := by
    -- The fields are read in the order in which they were written, each into the draft of those
    -- before.
    refine Layout.readEntries_text 0 (by decide) (by decide)
      (.bind (fill_none (.of_eq (readInteger_natural r.requestId.toNat_lt (id_range _) _)))
        (.of_eq rfl)) ?_
    refine Layout.readEntries_text 1 (by decide) (by decide)
      (.bind (fill_none (.of_eq (readInteger_integer (by omega) (by omega) (code_range _) _)))
        (.of_eq rfl)) ?_
    refine Layout.readEntries_text 2 (by decide) (by decide)
      (.bind (fill_none (.of_eq (readText_text htext _))) (.of_eq rfl)) ?_
    refine Layout.readEntries_text 3 (by decide) (by decide)
      (.bind (fill_none (.of_eq (readInteger_natural (tag_lt _) (tag_range _) _)))
        (.of_eq rfl)) ?_
    refine Layout.readEntries_text 4 (by decide) (by decide)
      (.bind (fill_none (.of_eq (readInteger_natural (tag_lt _) (tag_range _) _)))
        (.of_eq rfl)) ?_
    refine Layout.readEntries_text 5 (by decide) (by decide)
      (.bind (fill_none hdata) (.of_eq rfl)) ?_
    exact .of_eq rfl
  rw [encodeResponse_eq]
  simp only [List.append_assoc]
  exact .bind (Layout.read_map (by decide) hentries) (.of_eq (ResponseDraft.finish_ofResponse r))

/-- The body of a message, with anything behind it, is read back as the message, or a value of it
is nested too deep. -/
theorem decode_encode_recovers (m : Message) (hnormal : m.Normal) (hshort : m.Short)
    (rest : Octets) :
    Recovers (decode m.kind (encode m ++ rest)) (∀ v ∈ m.values, NestsWithin valueLimit v) m := by
  cases m with
  | request r => exact ((decodeRequest_encodeRequest r hnormal hshort rest).map _).mapError _
  | response r =>
    refine (((decodeResponse_encodeResponse r hnormal hshort rest).map _).mapError _).weaken ?_
    intro h lists objects u hu
    exact Nat.le_succ_of_le (h r.data (by simp [Message.values]) hu)

/-- **Round trip of a body.**  Whatever stands behind the body of a message, it decodes to the
message or to a fault of the codec, and to the message if no value in it has more than 1021 lists
and objects open at once, an empty one counted. -/
theorem decode_encode_append (m : Message) (hnormal : m.Normal) (hshort : m.Short)
    (rest : Octets) :
    (decode m.kind (encode m ++ rest) = .ok m ∨
      ∃ fault, decode m.kind (encode m ++ rest) = .error fault) ∧
    ((∀ v ∈ m.values, NestsWithin 1021 v) → decode m.kind (encode m ++ rest) = .ok m) := by
  have h := decode_encode_recovers m hnormal hshort rest
  exact ⟨h.ok_or_error, fun hnests => h.eq_ok hnests⟩

/-- The body of the sample request is read back with a byte behind it that begins no value. -/
theorem decode_encode_append_sample :
    (Message.request .sample).Normal ∧ (Message.request .sample).Short ∧
      (∀ v ∈ Request.sample.args, NestsWithin 1021 v) ∧
      decode .request (encode (.request .sample) ++ [0xc1]) = .ok (.request .sample) := by
  have hnests : ∀ v ∈ Request.sample.args, NestsWithin 1021 v := by decide
  refine ⟨Request.sample_normal, Request.sample_short, hnests, ?_⟩
  exact (decode_encode_append (.request .sample) Request.sample_normal Request.sample_short
    [0xc1]).2 hnests

end WireCall.MsgPack
