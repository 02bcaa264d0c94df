import WireCall.Proofs.Protobuf.Accepted
import WireCall.Proofs.Protobuf.Message

namespace WireCall.Protobuf

/-!
# Which messages the reader of Protocol Buffers accepts

The fields of a message may come in any order and several times: of a scalar or a text the last one
counts, arguments are gathered, and the data of a response grows like any value.  So the texts and
values that a message has in the end are at most half as long again as the bytes that were read
(`decodeRequest_grows`, `decodeResponse_grows`), and the few integers in it take a bounded number of
bytes.

Main statement: every message that was read from less than `2^63` bytes has a body from which it is
read again (`decode_encode_of_decode`), and so has the response that sends an argument back
(`decode_encode_ok_of_decode`).
-/

variable {bytes : Octets}

/-! ### Reading -/

/-- The bytes of the texts and arguments that have been read. -/
def RequestDraft.size (d : RequestDraft) : Nat :=
  (textField 2 d.service).length + (textField 3 d.method).length + itemsSize d.args

/-- A field keeps the arguments readable and adds no more than one half over its own size. -/
theorem RequestDraft.step_grows {draft next : RequestDraft} {field : Field}
    (hargs : ∀ v ∈ draft.args, Readable (nestingLimit - 1) v)
    (hnext : draft.step field = .ok next) :
    (∀ v ∈ next.args, Readable (nestingLimit - 1) v) ∧
      2 * next.size ≤ 2 * draft.size + 3 * field.size := by
  obtain ⟨number, payload⟩ := field
  rw [step] at hnext
  dsimp only at hnext
  -- Only an argument adds a value; it is charged for by its field.
  split at hnext
  · obtain rfl := Except.ok.inj hnext
    exact ⟨hargs, Nat.le_add_right _ _⟩
  · obtain ⟨s, hs, hnext⟩ := bind_eq_ok_iff.mp hnext
    obtain rfl := Except.ok.inj hnext
    have htext := length_textField_of_textOf (show 2 < 16 by decide) 2 hs
    exact ⟨hargs, by dsimp only [size]; omega⟩
  · obtain ⟨s, hs, hnext⟩ := bind_eq_ok_iff.mp hnext
    obtain rfl := Except.ok.inj hnext
    have htext := length_textField_of_textOf (show 3 < 16 by decide) 3 hs
    exact ⟨hargs, by dsimp only [size]; omega⟩
  · obtain ⟨arg, harg, hnext⟩ := bind_eq_ok_iff.mp hnext
    obtain rfl := Except.ok.inj hnext
    obtain ⟨hvalue, hgrows⟩ := (readsSoundly _).value harg
    have hframed := framed_grows_of_zero hgrows
    refine ⟨List.forall_mem_cons.mpr ⟨hvalue, hargs⟩, ?_⟩
    rw [size_delimited]
    dsimp only [size]
    rw [itemsSize_cons]
    omega
  · cases hnext

/-- A request that was read is readable, and has grown by one half at most. -/
theorem decodeRequest_grows {r : Request} (h : decodeRequest bytes = .ok r) :
    (∀ v ∈ r.args, Readable (nestingLimit - 1) v) ∧
      2 * ((textField 2 r.service).length + (textField 3 r.method).length + itemsSize r.args) ≤
        3 * bytes.length := by
  obtain ⟨fields, hfields, h⟩ := bind_eq_ok_iff.mp h
  obtain ⟨draft, hdraft, h⟩ := bind_eq_ok_iff.mp h
  obtain rfl := Except.ok.inj h
  obtain ⟨hrange, hbytes⟩ := readFields_size hfields
  obtain ⟨hreadable, hsize⟩ := foldlM_grows
    (fun d : RequestDraft => ∀ v ∈ d.args, Readable (nestingLimit - 1) v) RequestDraft.size
    (fun _ _ _ _ => RequestDraft.step_grows) hrange (by simp) hdraft
  refine ⟨fun v hv => hreadable v (List.mem_reverse.mp hv), ?_⟩
  have hempty : RequestDraft.size {} = 0 := rfl
  rw [hempty, RequestDraft.size] at hsize
  dsimp only
  rw [itemsSize_reverse]
  omega

/-- The bytes of the text and of the data that have been read. -/
def ResponseDraft.size (d : ResponseDraft) : Nat :=
  (textField 3 d.text).length + framedUnlessEmpty d.data.size

theorem ResponseDraft.step_grows {draft next : ResponseDraft} {field : Field}
    (hdata : draft.data.Readable (nestingLimit - 1)) (hnext : draft.step field = .ok next) :
    next.data.Readable (nestingLimit - 1) ∧
      2 * next.size ≤ 2 * draft.size + 3 * field.size := by
  obtain ⟨number, payload⟩ := field
  rw [step] at hnext
  dsimp only at hnext
  -- Only the last field touches the data, which it adds to.
  split at hnext
  · obtain rfl := Except.ok.inj hnext
    exact ⟨hdata, Nat.le_add_right _ _⟩
  · obtain rfl := Except.ok.inj hnext
    exact ⟨hdata, Nat.le_add_right _ _⟩
  · obtain ⟨s, hs, hnext⟩ := bind_eq_ok_iff.mp hnext
    obtain rfl := Except.ok.inj hnext
    have htext := length_textField_of_textOf (show 3 < 16 by decide) 3 hs
    exact ⟨hdata, by dsimp only [size]; omega⟩
  · obtain rfl := Except.ok.inj hnext
    exact ⟨hdata, Nat.le_add_right _ _⟩
  · obtain rfl := Except.ok.inj hnext
    exact ⟨hdata, Nat.le_add_right _ _⟩
  · obtain ⟨data, hread, hnext⟩ := bind_eq_ok_iff.mp hnext
    obtain rfl := Except.ok.inj hnext
    obtain ⟨hnew, hgrows⟩ := readsSoundly _ _ _ _ hdata hread
    have hframed := framedUnlessEmpty_grows hgrows
    rw [size_delimited]
    exact ⟨hnew, by dsimp only [size]; omega⟩
  · cases hnext

/-- A finished draft keeps its text and its data. -/
theorem ResponseDraft.eq_of_finish {draft : ResponseDraft} {r : Response}
    (h : draft.finish = .ok r) : r.text = draft.text ∧ r.data = draft.data.value := by
  rw [finish] at h
  split at h
  · cases h
  · split at h
    · cases h
    · split at h
      · cases h
      · obtain rfl := Except.ok.inj h
        exact ⟨rfl, rfl⟩

/-- A response that was read is readable, and has grown by one half at most. -/
theorem decodeResponse_grows {r : Response} (h : decodeResponse bytes = .ok r) :
    Readable (nestingLimit - 1) r.data ∧
      2 * ((textField 3 r.text).length + framedUnlessEmpty (encodeValue r.data).length) ≤
        3 * bytes.length := by
  obtain ⟨draft, hdraft, h⟩ := bind_eq_ok_iff.mp h
  obtain ⟨fields, hfields, hdraft⟩ := bind_eq_ok_iff.mp (mapError_eq_ok_iff.mp hdraft)
  obtain ⟨htext, hdata⟩ := ResponseDraft.eq_of_finish h
  have hnull : (Draft.null).Readable (nestingLimit - 1) := trivial
  obtain ⟨hrange, hbytes⟩ := readFields_size hfields
  obtain ⟨hreadable, hsize⟩ := foldlM_grows
    (fun d : ResponseDraft => d.data.Readable (nestingLimit - 1)) ResponseDraft.size
    (fun _ _ _ _ => ResponseDraft.step_grows) hrange hnull hdraft
  have hempty : ResponseDraft.size {} = 0 := rfl
  rw [hempty, ResponseDraft.size] at hsize
  have hvalue := framedUnlessEmpty_mono draft.data.length_value_le
  rw [htext, hdata]
  exact ⟨hreadable.value, by omega⟩

/-! ### Reading again -/

/-- A request takes little more than its texts and its arguments. -/
theorem length_encodeRequest_le (r : Request) : (encodeRequest r).length ≤
    11 + ((textField 2 r.service).length + (textField 3 r.method).length + itemsSize r.args) := by
  have hid := length_varintField_le (show 1 < 16 by decide) r.requestId.toNat
  have hargs : (r.args.flatMap fun v => delimitedField 4 (encodeValue v)).length =
      itemsSize r.args := by
    rw [List.length_flatMap, itemsSize]
    simp only [length_delimitedField (show 4 < 16 by decide)]
  rw [encodeRequest, toList_writeItems]
  simp only [List.length_append, hargs]
  omega

theorem length_encodeResponse_le (r : Response) : (encodeResponse r).length ≤
    46 + ((textField 3 r.text).length + framedUnlessEmpty (encodeValue r.data).length) := by
  have hid := length_varintField_le (show 1 < 16 by decide) r.requestId.toNat
  have hcode := length_varintField_le (show 2 < 16 by decide)
    (r.code.toInt % 0x10000000000000000).toNat
  have hcompression := length_varintField_le (show 4 < 16 by decide) r.compression.toNat
  have hserialization := length_varintField_le (show 5 < 16 by decide) r.serialization.toNat
  -- Empty data have a field all the same.
  have hdata : framed (encodeValue r.data).length ≤
      2 + framedUnlessEmpty (encodeValue r.data).length := by
    rw [framedUnlessEmpty]
    split
    · rename_i hempty
      rw [hempty]
      decide
    · exact Nat.le_add_left _ _
  rw [encodeResponse]
  simp only [List.length_append, length_delimitedField (show 6 < 16 by decide)]
  omega

/-- A request with readable arguments is read back. -/
theorem decodeRequest_of_readable {r : Request}
    (hargs : ∀ v ∈ r.args, Readable (nestingLimit - 1) v)
    (hlength : (encodeRequest r).length < 0x10000000000000000) :
    decodeRequest (encodeRequest r) = .ok r :=
  (decodeRequest_encodeRequest r fun v hv => (hargs v hv).normal).eq_ok
    ⟨fun v hv => (hargs v hv).opens, hlength⟩

theorem decodeResponse_of_readable {r : Response} (hdata : Readable (nestingLimit - 1) r.data)
    (hlength : (encodeResponse r).length < 0x10000000000000000) :
    decodeResponse (encodeResponse r) = .ok r := by
  have hnormal : (Message.response r).Normal := List.forall_mem_singleton.mpr hdata.normal
  exact (decodeResponse_encodeResponse r hnormal).eq_ok ⟨hdata.opens, hlength⟩

/-- **Accepted bodies.**  A message that was read from less than `2^63` bytes is normal, and is read
again from its own body. -/
theorem decode_encode_of_decode {kind : FrameKind} {m : Message}
    (hbytes : bytes.length < 0x8000000000000000) (h : decode kind bytes = .ok m) :
    m.Normal ∧ decode kind (encode m) = .ok m := by
  cases kind with
  | request =>
    obtain ⟨r, hr, rfl⟩ := map_eq_ok_iff.mp (mapError_eq_ok_iff.mp h)
    obtain ⟨hargs, hgrows⟩ := decodeRequest_grows hr
    -- The message has grown by one half at most, so its length is still one that can be told.
    have hlength := length_encodeRequest_le r
    refine ⟨fun v hv => (hargs v hv).normal, ?_⟩
    rw [decode, encode, decodeRequest_of_readable hargs (by omega)]
    rfl
  | response =>
    obtain ⟨r, hr, rfl⟩ := map_eq_ok_iff.mp h
    obtain ⟨hdata, hgrows⟩ := decodeResponse_grows hr
    have hlength := length_encodeResponse_le r
    refine ⟨List.forall_mem_singleton.mpr hdata.normal, ?_⟩
    rw [decode, encode, decodeResponse_of_readable hdata (by omega)]
    rfl
  | ping | pong => cases h

/-- An argument that was read can be sent back as the data of a response. -/
theorem decode_encode_ok_of_decode {r : Request} (hbytes : bytes.length < 0x8000000000000000)
    (h : decode .request bytes = .ok (.request r)) {v : Value} (hv : v ∈ r.args) (id : UInt64)
    (compression serialization : UInt8) :
    decode .response
        (encode (.response ((Response.ok id v).withTags compression serialization))) =
      .ok (.response ((Response.ok id v).withTags compression serialization)) := by
  obtain ⟨r', hr, heq⟩ := map_eq_ok_iff.mp (mapError_eq_ok_iff.mp h)
  cases heq
  obtain ⟨hargs, hgrows⟩ := decodeRequest_grows hr
  have hlength := length_encodeResponse_le ((Response.ok id v).withTags compression serialization)
  -- The data is one of the arguments, and the text is empty.
  have hitem : framed (encodeValue v).length ≤ itemsSize r.args := by
    obtain ⟨front, back, hsplit⟩ := List.append_of_mem hv
    rw [hsplit, itemsSize_append, itemsSize_cons]
    omega
  have hdata : framedUnlessEmpty (encodeValue v).length ≤ framed (encodeValue v).length := by
    rw [framedUnlessEmpty]
    split
    · exact Nat.zero_le _
    · exact Nat.le_refl _
  have htext : (textField 3 ((Response.ok id v).withTags compression serialization).text).length =
      0 := rfl
  have hvalue : ((Response.ok id v).withTags compression serialization).data = v := rfl
  rw [htext, hvalue] at hlength
  rw [decode, encode, decodeResponse_of_readable (hargs v hv) (by omega)]
  rfl

end WireCall.Protobuf
