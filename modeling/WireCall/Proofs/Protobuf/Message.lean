import WireCall.Proofs.Protobuf.Value

namespace WireCall.Protobuf

/-!
# Messages in Protocol Buffers read back

A request and a response are sequences of fields like the values in them, but a field whose scalar
is zero or whose text is empty is left out.  The reader starts from a message in which all fields
are zero or empty, so nothing is lost.  The code of a response is a signed number that is written
as its two's complement in 64 bits and read back from the low 32 of them.

Main statement: the body of a message decodes to the message or to a fault of the codec, and to the
message if no value in it opens too many nested messages (`decode_encode`).  An empty list or
object opens one message more than a scalar in its place would (`decode_deepestRequest_tooDeep`).
-/

/-- The messages that may be opened below a value of a message. -/
def valueLimit : Nat := 99

/-! ### Requests -/

/-- The fields of a request. -/
def requestFields (r : Request) : List Field :=
  ofVarint 1 r.requestId.toNat ++ (ofText 2 r.service ++ (ofText 3 r.method ++ itemFields 4 r.args))

/-- A request is written as its fields, in order. -/
theorem encodeRequest_eq (r : Request) :
    encodeRequest r = (requestFields r).flatMap Field.encode := by
  rw [encodeRequest, toList_writeItems, requestFields]
  simp only [List.flatMap_append, flatMap_itemFields, ← varintField_eq, ← textField_eq,
    List.append_assoc]

/-- The schema of a request takes all its fields. -/
theorem requestFields_taken (r : Request) :
    ∀ field ∈ requestFields r, (Schema.upTo 4).Takes field := by
  intro field hfield
  simp only [requestFields, List.mem_append] at hfield
  rcases hfield with hid | hservice | hmethod | hargs
  · rw [mem_ofVarint hid]
    exact .of_number 1 (by decide) rfl r.requestId.toNat_lt
  · rw [mem_ofText hservice]
    exact .of_number 2 (by decide) rfl trivial
  · rw [mem_ofText hmethod]
    exact .of_number 3 (by decide) rfl trivial
  · obtain ⟨v, -, rfl⟩ := List.mem_map.mp hargs
    exact .of_number 4 (by decide) rfl trivial

/-- The arguments are gathered one by one, the last one in front. -/
theorem foldlM_itemFields {args : List Value} {p : Prop}
    (hargs : ∀ v ∈ args, Recovers (readValue (nestingLimit - 1) .null (encodeValue v)) p
      (.ofValue v))
    (hnormal : ∀ v ∈ args, v.Normal) (draft : RequestDraft) :
    Recovers ((itemFields 4 args).foldlM RequestDraft.step draft) p
      { draft with args := args.reverse ++ draft.args } := by
  induction args generalizing draft with
  | nil => exact .of_eq rfl
  | cons v vs ih =>
    have hstep : Recovers (RequestDraft.step draft (itemField 4 (encodeValue v))) p
        { draft with args := v :: draft.args } := by
      refine .bind (hargs v (by simp)) (.of_eq ?_)
      show Except.ok { draft with args := (Draft.ofValue v).value :: draft.args } = _
      rw [Draft.value_ofValue (hnormal v (by simp))]
    have hrest := ih (fun u hu => hargs u (by simp [hu])) (fun u hu => hnormal u (by simp [hu]))
      { draft with args := v :: draft.args }
    rw [itemFields, List.map_cons, List.foldlM_cons, List.reverse_cons, List.append_assoc]
    exact .bind hstep hrest

/-- The first field sets the id. -/
theorem step_id (draft : RequestDraft) (id : UInt64) :
    RequestDraft.step draft ⟨1, .varint id.toNat⟩ = .ok { draft with requestId := id } := by
  show Except.ok { draft with requestId := UInt64.ofNat id.toNat } = _
  rw [UInt64.ofNat_toNat]

theorem step_service (draft : RequestDraft) (s : String) :
    RequestDraft.step draft ⟨2, .delimited (Octets.ofText s)⟩ =
      .ok { draft with service := s } :=
  textOf_bind s fun s => Except.ok ({ draft with service := s } : RequestDraft)

theorem step_method (draft : RequestDraft) (s : String) :
    RequestDraft.step draft ⟨3, .delimited (Octets.ofText s)⟩ =
      .ok { draft with method := s } :=
  textOf_bind s fun s => Except.ok ({ draft with method := s } : RequestDraft)

/-- Only the id zero is left out. -/
theorem id_eq_zero {id : UInt64} (h : id.toNat = 0) : id = 0 := UInt64.toNat_inj.mp h

/-- A normal request is read back, or refused for nesting too deep or being too long. -/
theorem decodeRequest_encodeRequest (r : Request) (hnormal : (Message.request r).Normal) :
    Recovers (decodeRequest (encodeRequest r))
      ((∀ v ∈ r.args, Opens nestingLimit v) ∧ (encodeRequest r).length < 0x10000000000000000)
      r := by
  rw [encodeRequest_eq]
  have hargs : ∀ v ∈ r.args, Recovers (readValue (nestingLimit - 1) .null (encodeValue v))
      ((∀ v ∈ r.args, Opens nestingLimit v) ∧
        ((requestFields r).flatMap Field.encode).length < 0x10000000000000000) (.ofValue v) := by
    intro v hv
    have hmem : itemField 4 (encodeValue v) ∈ requestFields r := by
      have hitem : itemField 4 (encodeValue v) ∈ itemFields 4 r.args :=
        List.mem_map.mpr ⟨v, hv, rfl⟩
      simp [requestFields, hitem]
    refine (readValue_encodeValue v (hnormal v hv) _).weaken fun hp => ⟨hp.1 v hv, ?_⟩
    exact Nat.lt_of_le_of_lt (length_le_flatMap hmem) hp.2
  have hfold : Recovers ((requestFields r).foldlM RequestDraft.step {})
      ((∀ v ∈ r.args, Opens nestingLimit v) ∧
        ((requestFields r).flatMap Field.encode).length < 0x10000000000000000)
      ⟨r.requestId, r.service, r.method, r.args.reverse⟩ := by
    -- Each field is taken, or it is absent and the draft has its value from the start.
    rw [requestFields, foldlM_ofVarint ⟨r.requestId, "", "", []⟩ (step_id _ _)
        (by intro h; rw [id_eq_zero h]),
      foldlM_ofText ⟨r.requestId, r.service, "", []⟩ (step_service _ _) (by intro h; rw [h]),
      foldlM_ofText ⟨r.requestId, r.service, r.method, []⟩ (step_method _ _) (by intro h; rw [h])]
    have hrest := foldlM_itemFields hargs hnormal ⟨r.requestId, r.service, r.method, []⟩
    rwa [List.append_nil] at hrest
  refine .bind (readFields_flatMap (requestFields_taken r) _ And.right) (.bind hfold (.of_eq ?_))
  show Except.ok (⟨r.requestId, r.service, r.method, r.args.reverse.reverse⟩ : Request) = _
  rw [List.reverse_reverse]

/-! ### Responses -/

/-- The two's complement of a code in 64 bits. -/
def codeBits (code : Int16) : Nat := (code.toInt % 0x10000000000000000).toNat

/-- The bits of a code are a 64-bit number. -/
theorem codeBits_lt (code : Int16) : codeBits code < 0x10000000000000000 := by
  rw [codeBits]
  omega

/-- A code is read back from its bits. -/
theorem signedLow32_codeBits (code : Int16) : signedLow32 (codeBits code) = code.toInt := by
  have hlow : -32768 ≤ code.toInt := code.le_toInt
  have hhigh : code.toInt < 32768 := code.toInt_lt
  rw [signedLow32, low32, codeBits]
  split <;> omega

theorem code_eq_zero {code : Int16} (h : codeBits code = 0) : code.toInt = 0 := by
  have hcode := signedLow32_codeBits code
  rw [h] at hcode
  exact hcode.symm

/-- A tag is read back from its low bits. -/
theorem low32_tag (tag : UInt8) : low32 tag.toNat = tag.toNat := by
  have := tag.toNat_lt
  rw [low32]
  omega

/-- The fields of a response. -/
def responseFields (r : Response) : List Field :=
  ofVarint 1 r.requestId.toNat ++ (ofVarint 2 (codeBits r.code) ++ (ofText 3 r.text ++
    (ofVarint 4 r.compression.toNat ++ (ofVarint 5 r.serialization.toNat ++
      [itemField 6 (encodeValue r.data)]))))

/-- A response is written as its fields, in order. -/
theorem encodeResponse_eq (r : Response) :
    encodeResponse r = (responseFields r).flatMap Field.encode := by
  rw [encodeResponse, responseFields]
  simp only [List.flatMap_append, List.flatMap_singleton, ← varintField_eq, ← textField_eq,
    itemField, ← delimitedField_eq, codeBits, List.append_assoc]

theorem responseFields_taken (r : Response) :
    ∀ field ∈ responseFields r, (Schema.upTo 6).Takes field := by
  intro field hfield
  simp only [responseFields, List.mem_append] at hfield
  -- Each setting has its own number and its own range.
  rcases hfield with hid | hcode | htext | hcompression | hserialization | hdata
  · rw [mem_ofVarint hid]
    exact .of_number 1 (by decide) rfl r.requestId.toNat_lt
  · rw [mem_ofVarint hcode]
    exact .of_number 2 (by decide) rfl (codeBits_lt r.code)
  · rw [mem_ofText htext]
    exact .of_number 3 (by decide) rfl trivial
  · rw [mem_ofVarint hcompression]
    exact .of_number 4 (by decide) rfl (tag_lt r.compression)
  · rw [mem_ofVarint hserialization]
    exact .of_number 5 (by decide) rfl (tag_lt r.serialization)
  · rw [List.mem_singleton.mp hdata]
    exact .of_number 6 (by decide) rfl trivial

/-- The draft with every field of a response. -/
def ResponseDraft.ofResponse (r : Response) : ResponseDraft :=
  ⟨r.requestId, r.code.toInt, r.text, r.compression.toNat, r.serialization.toNat,
    .ofValue r.data⟩

/-- The draft that holds all of a normal response makes that response. -/
theorem ResponseDraft.finish_ofResponse {r : Response} (hnormal : r.data.Normal) :
    (ofResponse r).finish = .ok r := by
  have hcode : ¬ (r.code.toInt < IntKind.i16.min ∨ IntKind.i16.max < r.code.toInt) := by
    have hlow : IntKind.i16.min ≤ r.code.toInt := r.code.le_toInt
    have hhigh : r.code.toInt ≤ IntKind.i16.max := Int.le_of_lt_add_one r.code.toInt_lt
    omega
  have htag : ∀ tag : UInt8, ¬ 255 < tag.toNat := fun tag =>
    Nat.not_lt.mpr (Nat.le_of_lt_succ tag.toNat_lt)
  rw [finish, ofResponse, if_neg hcode, if_neg (htag _), if_neg (htag _),
    Draft.value_ofValue hnormal, Int16.ofInt_toInt, UInt8.ofNat_toNat, UInt8.ofNat_toNat]

/-- The third field sets the text. -/
theorem ResponseDraft.step_text (draft : ResponseDraft) (s : String) :
    step draft ⟨3, .delimited (Octets.ofText s)⟩ = .ok { draft with text := s } :=
  textOf_bind s fun s => Except.ok ({ draft with text := s } : ResponseDraft)

/-- The fields of a response make the draft that holds all of it. -/
theorem foldlM_responseFields {r : Response} {p : Prop}
    (hdata : Recovers (readValue (nestingLimit - 1) .null (encodeValue r.data)) p
      (.ofValue r.data)) :
    Recovers ((responseFields r).foldlM ResponseDraft.step {}) p (.ofResponse r) := by
  have hid : ResponseDraft.step {} ⟨1, .varint r.requestId.toNat⟩ =
      .ok { requestId := r.requestId } := by
    show Except.ok ({ requestId := UInt64.ofNat r.requestId.toNat } : ResponseDraft) = _
    rw [UInt64.ofNat_toNat]
  have hcode (draft : ResponseDraft) : ResponseDraft.step draft ⟨2, .varint (codeBits r.code)⟩ =
      .ok { draft with code := r.code.toInt } := by
    show Except.ok { draft with code := signedLow32 (codeBits r.code) } = _
    rw [signedLow32_codeBits]
  have hcompression (draft : ResponseDraft) :
      ResponseDraft.step draft ⟨4, .varint r.compression.toNat⟩ =
        .ok { draft with compression := r.compression.toNat } := by
    show Except.ok { draft with compression := low32 r.compression.toNat } = _
    rw [low32_tag]
  have hserialization (draft : ResponseDraft) :
      ResponseDraft.step draft ⟨5, .varint r.serialization.toNat⟩ =
        .ok { draft with serialization := r.serialization.toNat } := by
    show Except.ok { draft with serialization := low32 r.serialization.toNat } = _
    rw [low32_tag]
  -- A field that was left out would have set what is there from the start.
  rw [responseFields, foldlM_ofVarint _ hid (by intro h; rw [id_eq_zero h]),
    foldlM_ofVarint _ (hcode _) (by intro h; rw [code_eq_zero h]),
    foldlM_ofText _ (ResponseDraft.step_text _ _) (by intro h; rw [h]),
    foldlM_ofVarint _ (hcompression _) (by intro h; rw [h]),
    foldlM_ofVarint _ (hserialization _) (by intro h; rw [h]), List.foldlM_cons]
  exact .bind (.bind hdata (.of_eq rfl)) (.of_eq rfl)

/-- A normal response is read back, or refused for nesting too deep or being too long. -/
theorem decodeResponse_encodeResponse (r : Response) (hnormal : (Message.response r).Normal) :
    Recovers (decodeResponse (encodeResponse r))
      (Opens nestingLimit r.data ∧ (encodeResponse r).length < 0x10000000000000000) r := by
  have hnormal : r.data.Normal := hnormal r.data (by simp [Message.values])
  rw [encodeResponse_eq]
  have hdata : Recovers (readValue (nestingLimit - 1) .null (encodeValue r.data))
      (Opens nestingLimit r.data ∧
        ((responseFields r).flatMap Field.encode).length < 0x10000000000000000)
      (.ofValue r.data) := by
    have hmem : itemField 6 (encodeValue r.data) ∈ responseFields r := by simp [responseFields]
    refine (readValue_encodeValue r.data hnormal _).weaken fun hp => ⟨hp.1, ?_⟩
    exact Nat.lt_of_le_of_lt (length_le_flatMap hmem) hp.2
  have hfields := readFields_flatMap (responseFields_taken r) nestingLimit
    (And.right : (Opens nestingLimit r.data ∧ _) → _)
  exact .bind ((hfields.bind (foldlM_responseFields hdata)).mapError _)
    (.of_eq (ResponseDraft.finish_ofResponse hnormal))

/-! ### Messages -/

/-- The body of a message is read back as the message, or a value of it is nested too deep, or a
length in it is too large to be written. -/
theorem decode_encode_recovers (m : Message) (hnormal : m.Normal) :
    Recovers (decode m.kind (encode m))
      ((∀ v ∈ m.values, NestsWithin valueLimit v) ∧ (encode m).length < 0x10000000000000000) m := by
  cases m with
  | request r =>
    refine (((decodeRequest_encodeRequest r hnormal).map _).mapError _).weaken fun hp => ⟨?_, hp.2⟩
    exact fun v hv => opens_of_nestsWithin (hp.1 v hv)
  | response r =>
    refine ((decodeResponse_encodeResponse r hnormal).map _).weaken fun hp => ⟨?_, hp.2⟩
    exact opens_of_nestsWithin (hp.1 r.data (by simp [Message.values]))

/-- **Round trip of a body.**  The body of a message decodes to the message or to a fault of the
codec, and to the message if the body fits into memory and at most 100 nested messages are open at
any occurrence in a value of it: one for the value, two for each list around the occurrence, three
for each object around it, and one for the occurrence if it is an empty list or object. -/
theorem decode_encode (m : Message) (hnormal : m.Normal) :
    (decode m.kind (encode m) = .ok m ∨ ∃ fault, decode m.kind (encode m) = .error fault) ∧
    ((encode m).length < 0x10000000000000000 →
      (∀ v ∈ m.values, ∀ ⦃lists objects u⦄, v.Holds lists objects u →
        1 + 2 * lists + 3 * objects + u.isHollow.toNat ≤ 100) →
      decode m.kind (encode m) = .ok m) := by
  have h := decode_encode_recovers m hnormal
  refine ⟨h.ok_or_error, fun hlength hnests => h.eq_ok ⟨fun v hv lists objects u hu => ?_, hlength⟩⟩
  have hbound := hnests v hv hu
  show 2 * lists + 3 * objects + u.isHollow.toNat ≤ 99
  omega

/-- The body of the sample request is read back. -/
theorem decode_encode_sample :
    (Message.request .sample).Normal ∧ (encode (.request .sample)).length < 0x10000000000000000 ∧
      decode .request (encode (.request .sample)) = .ok (.request .sample) := by
  have hlength : (encode (.request .sample)).length < 0x10000000000000000 := by decide +kernel
  refine ⟨Request.sample_normal, hlength, ?_⟩
  exact (decode_encode (.request .sample) Request.sample_normal).2 hlength (by decide)

/-- The value in this many objects, each with the one key `k`. -/
def nested : Nat → Value → Value
  | 0, v => v
  | depth + 1, v => .object [("k", nested depth v)]

/-- The request with an empty object in 33 others as its argument. -/
def deepestRequest : Request := ⟨1, "a", "b", [nested 33 (.object [])]⟩

theorem deepestRequest_normal : (Message.request deepestRequest).Normal := by decide

/-- The deepest request is refused. -/
theorem decodeRequest_deepestRequest :
    decodeRequest (encodeRequest deepestRequest) = .error .tooDeep := by
  have hcheck : (match decodeRequest (encodeRequest deepestRequest) with
    | .error .tooDeep => true
    | _ => false) = true := by decide +kernel
  split at hcheck
  · rename_i hread
    exact hread
  · cases hcheck

/-- An empty object opens a message of its own: below 33 objects it is refused, although no more
than 100 messages are open around it. -/
theorem decode_deepestRequest_tooDeep :
    (Message.request deepestRequest).Normal ∧
      (∀ v ∈ (Message.request deepestRequest).values, ∀ ⦃lists objects u⦄,
        v.Holds lists objects u → 1 + 2 * lists + 3 * objects ≤ 100) ∧
      decode .request (encode (.request deepestRequest)) = .error (.malformed .tooDeep) := by
  refine ⟨deepestRequest_normal, by decide, ?_⟩
  rw [decode, encode, decodeRequest_deepestRequest]
  rfl

end WireCall.Protobuf
