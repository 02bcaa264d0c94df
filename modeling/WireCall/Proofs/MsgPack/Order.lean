import WireCall.Proofs.MsgPack.Entries

namespace WireCall.MsgPack

/-!
# Messages as maps in any order

A map carries a message if its fields have the contents of the message, each of them once, and those
that are left out have a default that the message has (`Carries`).  All such maps are read alike,
since the fields that were gathered are looked up by their indices in the end
(`finish_of_carries`), and the map that is written for the message is among them (`body_encode`).

Main statements: a map that carries a message is read as this message, unless a value of it is
nested too deep, and in any case like the map that is written (`decode_of_carries`,
`decode_eq_of_carries`); a map that lacks a field without a default or has a field twice is refused
(`decode_of_spoilt`).
-/

/-! ### Messages -/

/-- The names of the fields of a message. -/
def fieldNames : FrameKind → List String
  | .request => RequestDraft.layout.names
  | .response => ResponseDraft.layout.names
  | .ping | .pong => []

/-- What the fields of a message take. -/
def fieldSlot : FrameKind → Nat → Slot
  | .request => RequestDraft.slot
  | _ => ResponseDraft.slot

/-- What stands for a field that is left out: the arguments of a request, the text and the data of a
response may be. -/
def absent : FrameKind → Nat → Option Value
  | .request, 3 => some (.list [])
  | .response, 2 => some (.str "")
  | .response, 5 => some .null
  | _, _ => none

/-- The contents of the fields of a message. -/
def contents : Message → List Value
  | .request r =>
    [.int (.ofUInt64 r.requestId), .str r.service, .str r.method, .list r.args]
  | .response r =>
    [.int (.ofUInt64 r.requestId), .int (.ofInt64 r.code.toInt64), .str r.text,
      .int (.ofUInt64 r.compression.toUInt64), .int (.ofUInt64 r.serialization.toUInt64), r.data]

/-- The fields have the contents of the message, each of them once, and the fields that are left out
are not missed. -/
structure Carries (m : Message) (fields : List (Nat × Value)) : Prop where
  once : (fields.map Prod.fst).Nodup
  right : ∀ field ∈ fields, (contents m)[field.1]? = some field.2
  others : ∀ {i v}, (contents m)[i]? = some v → i ∉ fields.map Prod.fst → absent m.kind i = some v

/-- The message whose fields are known. -/
def finish : FrameKind → List (Nat × Value) → Except BodyFault Message
  | .request, known => (RequestDraft.ofKnown known).finish.map .request
  | _, known => (ResponseDraft.ofKnown known).finish.map .response

/-- A map with the fields of a message is read as the message that the fields make up. -/
theorem decode_of_gather {kind : FrameKind} {fields : List (Nat × Value)} {bytes : Octets}
    (h : Body (fieldNames kind) fields bytes) (hkind : kind = .request ∨ kind = .response)
    (rest : Octets) :
    decode kind (bytes ++ rest) =
      (gather (fieldNames kind) (fieldSlot kind) [] fields >>= finish kind).mapError
        .malformed := by
  rcases hkind with rfl | rfl
  · rw [decode, decodeRequest, Layout.read_of_body RequestDraft.fills h]
    show _ = (gather RequestDraft.layout.names RequestDraft.slot [] fields >>= _).mapError _
    cases gather RequestDraft.layout.names RequestDraft.slot [] fields <;> rfl
  · rw [decode, decodeResponse, Layout.read_of_body ResponseDraft.fills h]
    show _ = (gather ResponseDraft.layout.names ResponseDraft.slot [] fields >>= _).mapError _
    cases gather ResponseDraft.layout.names ResponseDraft.slot [] fields <;> rfl

/-- Only requests and responses have fields. -/
theorem kind_of_mem {kind : FrameKind} {i : Nat} (h : i < (fieldNames kind).length) :
    kind = .request ∨ kind = .response := by
  cases kind with
  | request => exact .inl rfl
  | response => exact .inr rfl
  | ping | pong => exact absurd h (Nat.not_lt_zero i)

section Carried

variable {m : Message} {fields : List (Nat × Value)}

/-- A content of the message is in its field, or it is the one that may be left out. -/
theorem Carries.mem_or_absent (h : Carries m fields) {i : Nat} {v : Value}
    (hi : (contents m)[i]? = some v) :
    (i, v) ∈ fields ∨ (i ∉ fields.map Prod.fst ∧ absent m.kind i = some v) := by
  by_cases hmem : i ∈ fields.map Prod.fst
  · obtain ⟨⟨j, w⟩, hfield, rfl⟩ := List.mem_map.mp hmem
    have hright := h.right _ hfield
    rw [hi] at hright
    obtain rfl := Option.some.inj hright
    exact .inl hfield
  · exact .inr ⟨hmem, h.others hi hmem⟩

/-- Fields that carry a message know each of its contents, or the one that stands for its absence.
-/
theorem Carries.lookup (h : Carries m fields) {i : Nat} {v : Value}
    (hi : (contents m)[i]? = some v) :
    fields.reverse.lookup i = some v ∨
      (fields.reverse.lookup i = none ∧ absent m.kind i = some v) := by
  rcases h.mem_or_absent hi with hfield | ⟨hmem, habsent⟩
  · -- No index is there twice, so the first entry that is found is the right one.
    have hnodup : (fields.reverse.map Prod.fst).Nodup := by
      rw [List.map_reverse, List.nodup_reverse]
      exact h.once
    exact .inl (lookup_of_mem hnodup (List.mem_reverse.mpr hfield))
  · refine .inr ⟨lookup_eq_none_iff.mpr ?_, habsent⟩
    rwa [List.map_reverse, List.mem_reverse]

/-- A field whose absence means nothing is known with its content. -/
theorem Carries.lookup_of_absent (h : Carries m fields) {i : Nat} {v : Value}
    (hi : (contents m)[i]? = some v) (hneeded : absent m.kind i = none) :
    fields.reverse.lookup i = some v := by
  rcases h.lookup hi with hlookup | ⟨-, habsent⟩
  · exact hlookup
  · rw [hneeded] at habsent
    cases habsent

/-- The integer of a code is the code's number. -/
theorem val_ofInt64_code (code : Int16) : (WireInt.ofInt64 code.toInt64).val = code.toInt :=
  Int16.toInt_toInt64 code

theorem val_ofUInt64_tag (tag : UInt8) : (WireInt.ofUInt64 tag.toUInt64).val = tag.toNat := by
  show (tag.toUInt64.toNat : Int) = _
  rw [UInt8.toNat_toUInt64]

/-- The fields of a message make up this message. -/
theorem finish_of_carries (h : Carries m fields) : finish m.kind fields.reverse = .ok m := by
  cases m with
  | request r =>
    have hid := h.lookup_of_absent (i := 0) rfl rfl
    have hservice := h.lookup_of_absent (i := 1) rfl rfl
    have hmethod := h.lookup_of_absent (i := 2) rfl rfl
    -- Arguments that are missing are no arguments.
    have hargs : ((fields.reverse.lookup 3).map valuesIn).getD [] = r.args := by
      rcases h.lookup (i := 3) rfl with hlookup | ⟨hlookup, habsent⟩
      · rw [hlookup]
        rfl
      · rw [hlookup]
        exact Value.list.inj (Option.some.inj habsent)
    have hfinish : (RequestDraft.ofKnown fields.reverse).finish = .ok r := by
      rw [RequestDraft.ofKnown, hid, hservice, hmethod]
      show Except.ok (⟨UInt64.ofInt r.requestId.toNat, r.service, r.method, _⟩ : Request) = _
      rw [ofInt_id, hargs]
    show (RequestDraft.ofKnown fields.reverse).finish.map Message.request = _
    rw [hfinish]
    rfl
  | response r =>
    have hid := h.lookup_of_absent (i := 0) rfl rfl
    have hcode := h.lookup_of_absent (i := 1) rfl rfl
    have hcompression := h.lookup_of_absent (i := 3) rfl rfl
    have hserialization := h.lookup_of_absent (i := 4) rfl rfl
    -- A text that is missing is empty, and data that are missing are null.
    have htext : ((fields.reverse.lookup 2).map textIn).getD "" = r.text := by
      rcases h.lookup (i := 2) rfl with hlookup | ⟨hlookup, habsent⟩
      · rw [hlookup]
        rfl
      · rw [hlookup]
        exact Value.str.inj (Option.some.inj habsent)
    have hdata : (fields.reverse.lookup 5).getD .null = r.data := by
      rcases h.lookup (i := 5) rfl with hlookup | ⟨hlookup, habsent⟩
      · rw [hlookup]
        rfl
      · rw [hlookup]
        exact Option.some.inj habsent
    have hfinish : (ResponseDraft.ofKnown fields.reverse).finish = .ok r := by
      rw [ResponseDraft.ofKnown, hid, hcode, hcompression, hserialization]
      show Except.ok (⟨UInt64.ofInt r.requestId.toNat,
        Int16.ofInt (WireInt.ofInt64 r.code.toInt64).val, _,
        UInt8.ofInt (WireInt.ofUInt64 r.compression.toUInt64).val,
        UInt8.ofInt (WireInt.ofUInt64 r.serialization.toUInt64).val, _⟩ : Response) = _
      rw [ofInt_id, val_ofInt64_code, val_ofUInt64_tag, val_ofUInt64_tag, Int16.ofInt_toInt,
        ofInt_tag, ofInt_tag, htext, hdata]
    show (ResponseDraft.ofKnown fields.reverse).finish.map Message.response = _
    rw [hfinish]
    rfl

/-! ### Nesting -/

/-- An integer within the bounds passes the check of its slot. -/
theorem check_integer {least greatest : Int} {n : WireInt} (h : least ≤ n.val ∧ n.val ≤ greatest) :
    (Slot.integer least greatest).check (.int n) = .ok () := if_pos h

/-- The contents of a message suit its fields, unless a value of it is nested too deep. -/
theorem check_contents {i : Nat} {v : Value} (h : (contents m)[i]? = some v) :
    (fieldSlot m.kind i).check v = .ok () ∨
      ((fieldSlot m.kind i).check v = .error .tooDeep ∧
        ∃ u ∈ m.values, ¬ NestsWithin valueLimit u) := by
  have htag (tag : UInt8) : (0 : Int) ≤ (WireInt.ofUInt64 tag.toUInt64).val ∧
      (WireInt.ofUInt64 tag.toUInt64).val ≤ IntKind.u8.max := by
    rw [val_ofUInt64_tag]
    exact tag_range tag
  -- Only values can nest too deep; every other content fits its slot.
  cases m with
  | request r =>
    match i, h with
    | 0, rfl => exact .inl (check_integer (id_range r.requestId))
    | 1, rfl | 2, rfl => exact .inl rfl
    | 3, rfl =>
      by_cases hnests : ∀ v ∈ r.args, NestsWithin valueLimit v
      · exact .inl (orTooDeep_of hnests ())
      · refine .inr ⟨orTooDeep_of_not hnests (), ?_⟩
        by_contra hnone
        exact hnests fun v hv => by_contra fun hdeep => hnone ⟨v, hv, hdeep⟩
  | response r =>
    match i, h with
    | 0, rfl => exact .inl (check_integer (id_range r.requestId))
    | 1, rfl =>
      refine .inl (check_integer ?_)
      rw [val_ofInt64_code]
      exact code_range r.code
    | 2, rfl => exact .inl rfl
    | 3, rfl => exact .inl (check_integer (htag r.compression))
    | 4, rfl => exact .inl (check_integer (htag r.serialization))
    | 5, rfl =>
      by_cases hnests : NestsWithin (valueLimit + 1) r.data
      · exact .inl (orTooDeep_of hnests ())
      · refine .inr ⟨orTooDeep_of_not hnests (), r.data, by simp [Message.values], ?_⟩
        exact fun hless => hnests fun _ _ _ hu => Nat.le_succ_of_le (hless hu)

/-- What stands for a field that is left out suits the field. -/
theorem check_absent {kind : FrameKind} {i : Nat} {v : Value} (h : absent kind i = some v) :
    (fieldSlot kind i).check v = .ok () := by
  match kind, i, h with
  | .request, 3, rfl => exact orTooDeep_of nofun ()
  | .response, 2, rfl => rfl
  | .response, 5, rfl => exact orTooDeep_of (nestsWithin_scalar rfl) ()

/-- No content of the message is nested too deep for its field. -/
def Shallow (m : Message) : Prop :=
  ∀ ⦃i v⦄, (contents m)[i]? = some v → (fieldSlot m.kind i).check v = .ok ()

/-- A message whose values nest within the limit is shallow. -/
theorem shallow_of_nestsWithin (h : ∀ v ∈ m.values, NestsWithin valueLimit v) : Shallow m := by
  intro i v hi
  rcases check_contents hi with hcheck | ⟨-, u, hu, hdeep⟩
  · exact hcheck
  · exact absurd (h u hu) hdeep

/-- **A map that carries a message is read as this message**, unless a value of the message is
nested too deep. -/
theorem decode_of_carries {bytes : Octets} (hbody : Body (fieldNames m.kind) fields bytes)
    (hcarries : Carries m fields) (rest : Octets) :
    (Shallow m ∧ decode m.kind (bytes ++ rest) = .ok m) ∨
      (¬ Shallow m ∧ decode m.kind (bytes ++ rest) = .error (.malformed .tooDeep)) := by
  have hkind : m.kind = .request ∨ m.kind = .response := by
    cases m with
    | request => exact .inl rfl
    | response => exact .inr rfl
  rw [decode_of_gather hbody hkind]
  -- The contents are those of a message, so nothing but their nesting can be refused.
  rcases @gather_of_checks (fieldNames m.kind) (fieldSlot m.kind) [] fields hcarries.once
    (fun _ _ => List.not_mem_nil)
    (fun field hfield => (check_contents (hcarries.right field hfield)).imp_right And.left) with
    ⟨hchecks, hgather⟩ | ⟨⟨field, hfield, hdeep⟩, hgather⟩
  · refine .inl ⟨fun i v hi => ?_, ?_⟩
    · rcases hcarries.mem_or_absent hi with hfield | ⟨-, habsent⟩
      · exact hchecks (i, v) hfield
      · exact check_absent habsent
    · rw [hgather, List.append_nil]
      show (finish m.kind fields.reverse).mapError _ = _
      rw [finish_of_carries hcarries]
      rfl
  · refine .inr ⟨fun hshallow => ?_, by rw [hgather]; rfl⟩
    rw [hshallow (hcarries.right field hfield)] at hdeep
    cases hdeep

/-! ### The map that is written -/

/-- All fields of a message, in their order. -/
def allFields (m : Message) : List (Nat × Value) := (contents m).zipIdx.map Prod.swap

/-- The fields of a message are its contents with their places. -/
theorem mem_allFields_iff {field : Nat × Value} :
    field ∈ allFields m ↔ (contents m)[field.1]? = some field.2 := by
  constructor
  · intro h
    obtain ⟨⟨v, i⟩, hentry, rfl⟩ := List.mem_map.mp h
    exact List.mem_zipIdx_iff_getElem?.mp hentry
  · intro h
    exact List.mem_map.mpr
      ⟨(field.2, field.1), List.mem_zipIdx_iff_getElem?.mpr h, rfl⟩

/-- All the fields of a message carry it. -/
theorem carries_allFields (m : Message) : Carries m (allFields m) where
  once := by
    rw [allFields, List.map_map]
    show ((contents m).zipIdx.map Prod.snd).Nodup
    rw [List.zipIdx_map_snd]
    exact List.nodup_range'
  right field hfield := mem_allFields_iff.mp hfield
  others {i v} hi hmem := absurd (List.mem_map.mpr ⟨(i, v), mem_allFields_iff.mpr hi, rfl⟩) hmem

/-- An entry may be written under its name in text, before the others. -/
theorem Entries.text {names : List String} {count i : Nat} {name : String} {v : Value}
    {value more : Octets} (hname : names[i]? = some name)
    (hshort : (Octets.ofText name).length < 4294967296) (hwritten : Written v value)
    (h : Entries names count fields more) :
    Entries names (count + 1) ((i, v) :: fields) (MsgPack.text name ++ (value ++ more)) := by
  have hnamed : (Head.text (Octets.ofText name)).Names names i := ⟨name, hname, rfl⟩
  exact .known hnamed (form_text hshort) hwritten h

/-- The last entry may be written under its name in text. -/
theorem Entries.lastText {names : List String} {i : Nat} {name : String} {v : Value}
    {value : Octets} (hname : names[i]? = some name)
    (hshort : (Octets.ofText name).length < 4294967296) (hwritten : Written v value) :
    Entries names 1 [(i, v)] (MsgPack.text name ++ value) := by
  have h := Entries.text hname hshort hwritten .nil
  rwa [List.append_nil] at h

/-- An id is written as its natural number. -/
theorem written_id (id : UInt64) : Written (.int (.ofUInt64 id)) (natural id.toNat) := by
  rw [Written]
  exact .inl ⟨id, rfl, form_natural id⟩

theorem written_tag (tag : UInt8) :
    Written (.int (.ofUInt64 tag.toUInt64)) (natural tag.toNat) := by
  have h := written_id tag.toUInt64
  rwa [UInt8.toNat_toUInt64] at h

theorem written_code (code : Int16) :
    Written (.int (.ofInt64 code.toInt64)) (integer code.toInt) := by
  have h := written_integer (.ofInt64 code.toInt64)
  rwa [val_ofInt64_code] at h

/-- A short text is written as such. -/
theorem written_text {s : String} (h : (Octets.ofText s).length < 4294967296) :
    Written (.str s) (MsgPack.text s) := by
  rw [Written]
  exact form_text h

/-- What is written for a message is a map with all its fields. -/
theorem body_encode {m : Message} (hnormal : m.Normal) (hshort : m.Short) :
    Body (fieldNames m.kind) (allFields m) (encode m) := by
  -- The entries stand under their names, in the order of the fields.
  cases m with
  | request r =>
    have hservice := hshort.texts r.service (by simp [Message.texts])
    have hmethod := hshort.texts r.method (by simp [Message.texts])
    have hargs : Written (.list r.args) (arrayHeader r.args.length ++ r.args.flatMap encodeValue) :=
      written_list.mpr ⟨_, _, rfl, form_arrayHeader hshort.count,
        each_flatMap fun v hv => written_encodeValue (hnormal v hv) (hshort.values v hv)⟩
    rw [encode, encodeRequest_eq]
    exact ⟨4, _, _, rfl, form_mapHeader (by decide),
      .text rfl (by decide) (written_id r.requestId) <|
      .text rfl (by decide) (written_text hservice) <|
      .text rfl (by decide) (written_text hmethod) <|
      .lastText rfl (by decide) hargs⟩
  | response r =>
    have htext := hshort.texts r.text (by simp [Message.texts])
    have hdata := written_encodeValue (hnormal r.data (by simp [Message.values]))
      (hshort.values r.data (by simp [Message.values]))
    rw [encode, encodeResponse_eq]
    exact ⟨6, _, _, rfl, form_mapHeader (by decide),
      .text rfl (by decide) (written_id r.requestId) <|
      .text rfl (by decide) (written_code r.code) <|
      .text rfl (by decide) (written_text htext) <|
      .text rfl (by decide) (written_tag r.compression) <|
      .text rfl (by decide) (written_tag r.serialization) <|
      .lastText rfl (by decide) hdata⟩

/-- A message that a map carries is normal and short. -/
theorem normal_and_short_of_carries {bytes : Octets}
    (hbody : Body (fieldNames m.kind) fields bytes) (hcarries : Carries m fields) :
    m.Normal ∧ m.Short := by
  obtain ⟨count, header, entries, -, -, hentries⟩ := hbody
  -- A content is a value that was written, or the one that stands for its absence.
  have hcontent {i : Nat} {v : Value} (hi : (contents m)[i]? = some v) : v.Normal ∧ v.Short := by
    rcases hcarries.mem_or_absent hi with hfield | ⟨-, habsent⟩
    · obtain ⟨value, hwritten⟩ := hentries.written _ hfield
      exact ⟨normal_of_written hwritten, short_of_written hwritten⟩
    · match m.kind, i, habsent with
      | .request, 3, rfl => exact ⟨by decide, by decide⟩
      | .response, 2, rfl => exact ⟨by decide, by decide⟩
      | .response, 5, rfl => exact ⟨by decide, by decide⟩
  cases m with
  | request r =>
    obtain ⟨hnormal, hshort⟩ := hcontent (i := 3) rfl
    refine ⟨Value.normal_list.mp hnormal, ⟨?_, hshort.small, fun v hv => hshort.item hv⟩⟩
    intro s hs
    simp only [Message.texts, List.mem_cons, List.not_mem_nil, or_false] at hs
    rcases hs with rfl | rfl
    · exact (hcontent (i := 1) rfl).2.small
    · exact (hcontent (i := 2) rfl).2.small
  | response r =>
    obtain ⟨hnormal, hshort⟩ := hcontent (i := 5) rfl
    refine ⟨List.forall_mem_singleton.mpr hnormal, ⟨?_, by simp [Message.values], ?_⟩⟩
    · exact List.forall_mem_singleton.mpr (hcontent (i := 2) rfl).2.small
    · exact List.forall_mem_singleton.mpr hshort

/-- All maps that carry a message are read alike, and like the map that is written for it. -/
theorem decode_eq_of_carries {bytes : Octets} (hbody : Body (fieldNames m.kind) fields bytes)
    (hcarries : Carries m fields) (rest : Octets) :
    decode m.kind (bytes ++ rest) = decode m.kind (encode m) := by
  have hread := decode_of_carries hbody hcarries rest
  -- The map that is written carries the message too, so it meets with the same fate.
  obtain ⟨hnormal, hshort⟩ := normal_and_short_of_carries hbody hcarries
  have hwritten := decode_of_carries (body_encode hnormal hshort) (carries_allFields m) []
  rw [List.append_nil] at hwritten
  rcases hread with ⟨hshallow, hread⟩ | ⟨hdeep, hread⟩ <;>
    rcases hwritten with ⟨hshallow', hwritten⟩ | ⟨hdeep', hwritten⟩
  · rw [hread, hwritten]
  · exact absurd hshallow hdeep'
  · exact absurd hshallow' hdeep
  · rw [hread, hwritten]

/-- Any body whose fields carry a message that does not nest too deep is read as the message. -/
theorem decode_eq_ok_of_carries {bytes : Octets} (hbody : Body (fieldNames m.kind) fields bytes)
    (hcarries : Carries m fields) (hnests : ∀ v ∈ m.values, NestsWithin valueLimit v)
    (rest : Octets) : decode m.kind (bytes ++ rest) = .ok m := by
  rcases decode_of_carries hbody hcarries rest with ⟨-, hread⟩ | ⟨hdeep, -⟩
  · exact hread
  · exact absurd (shallow_of_nestsWithin hnests) hdeep

end Carried

/-! ### Any map -/

/-- A field that was needed and found was among those read. -/
theorem lookup_of_need {α : Type} {name : String} {content : Value → α} {a : α}
    {found : Option Value} (h : need name (found.map content) = .ok a) : found ≠ none := by
  rintro rfl
  cases h

/-- A message is only made up when all fields without a default are known. -/
theorem lookup_of_finish {kind : FrameKind} {known : List (Nat × Value)} {m : Message}
    (h : finish kind known = .ok m) {i : Nat} (hi : i < (fieldNames kind).length)
    (hneeded : absent kind i = none) : known.lookup i ≠ none := by
  rcases kind_of_mem hi with rfl | rfl
  · -- Whatever finishes has found every field that it needed.
    obtain ⟨r, hr, -⟩ := map_eq_ok_iff.mp h
    obtain ⟨id, hid, hr⟩ := bind_eq_ok_iff.mp hr
    obtain ⟨service, hservice, hr⟩ := bind_eq_ok_iff.mp hr
    obtain ⟨method, hmethod, -⟩ := bind_eq_ok_iff.mp hr
    match i, hi, hneeded with
    | 0, _, _ => exact lookup_of_need hid
    | 1, _, _ => exact lookup_of_need hservice
    | 2, _, _ => exact lookup_of_need hmethod
    | 3, _, h => cases h
  · obtain ⟨r, hr, -⟩ := map_eq_ok_iff.mp h
    obtain ⟨id, hid, hr⟩ := bind_eq_ok_iff.mp hr
    obtain ⟨code, hcode, hr⟩ := bind_eq_ok_iff.mp hr
    obtain ⟨compression, hcompression, hr⟩ := bind_eq_ok_iff.mp hr
    obtain ⟨serialization, hserialization, -⟩ := bind_eq_ok_iff.mp hr
    match i, hi, hneeded with
    | 0, _, _ => exact lookup_of_need hid
    | 1, _, _ => exact lookup_of_need hcode
    | 3, _, _ => exact lookup_of_need hcompression
    | 4, _, _ => exact lookup_of_need hserialization
    | 2, _, h => cases h
    | 5, _, h => cases h

/-- A map that is read as a message holds each field once, and all fields without a default. -/
theorem fields_of_decode {kind : FrameKind} {fields : List (Nat × Value)} {bytes rest : Octets}
    {m : Message} (hbody : Body (fieldNames kind) fields bytes)
    (h : decode kind (bytes ++ rest) = .ok m) :
    (fields.map Prod.fst).Nodup ∧ ∀ i < (fieldNames kind).length, absent kind i = none →
      i ∈ fields.map Prod.fst := by
  cases kind with
  | ping | pong => cases h
  | request | response =>
    rw [decode_of_gather hbody (by simp)] at h
    obtain ⟨known, hgather, hfinish⟩ := bind_eq_ok_iff.mp (mapError_eq_ok_iff.mp h)
    obtain ⟨rfl, hnodup⟩ := gather_eq_ok hgather
    have hreverse := hnodup List.nodup_nil
    rw [List.append_nil, List.map_reverse, List.nodup_reverse] at hreverse
    refine ⟨hreverse, fun i hi hneeded => ?_⟩
    -- A field that is not in the map is not known in the end, and `finish` would have missed it.
    by_contra hmissing
    refine lookup_of_finish hfinish hi hneeded (lookup_eq_none_iff.mpr ?_)
    rwa [List.append_nil, List.map_reverse, List.mem_reverse]

/-- The fields of a map lack one that has no default, or one of them is there twice. -/
def Spoilt (kind : FrameKind) (fields : List (Nat × Value)) : Prop :=
  (∃ i < (fieldNames kind).length, absent kind i = none ∧ i ∉ fields.map Prod.fst) ∨
    ¬ (fields.map Prod.fst).Nodup

/-- **A spoilt map is refused**, whatever else is in it. -/
theorem decode_of_spoilt {kind : FrameKind} {fields : List (Nat × Value)} {bytes : Octets}
    (hbody : Body (fieldNames kind) fields bytes) (h : Spoilt kind fields) (rest : Octets) :
    ∃ fault, decode kind (bytes ++ rest) = .error fault := by
  cases hread : decode kind (bytes ++ rest) with
  | error fault => exact ⟨fault, rfl⟩
  | ok m =>
    obtain ⟨honce, hall⟩ := fields_of_decode hbody hread
    rcases h with ⟨i, hi, hneeded, hmissing⟩ | hrepeated
    · exact absurd (hall i hi hneeded) hmissing
    · exact absurd honce hrepeated

end WireCall.MsgPack
