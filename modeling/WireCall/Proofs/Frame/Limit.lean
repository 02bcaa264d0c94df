import WireCall.Proofs.Frame.Body

namespace WireCall

/-!
# Messages under a limit

Every message can be put into a frame with known tags.  What the frame gives is decided by the
length of the body before it was compressed: the message itself if the body is within the limit, and
otherwise a fault of the compression, however few bytes the frame has (`Message.message_frame_eq`).
Of the header only the kind and the two tags are looked at.

A message within the limit has to respect the nesting of its serialization as well, and there an
empty list or object counts by itself (`toFrame_deepestRequest_tooDeep`).
-/

namespace Compression

/-- The limit is compared with the data, not with its compressed form. -/
theorem decompress_compress (c : Compression) (limit : Nat) (data : Octets) :
    c.decompress limit (c.compress data) =
      if data.length ≤ limit then .ok data else .error (.exceeds limit) := by
  cases c
  have h := Gzip.decompress_compress_append limit data []
  rwa [List.append_nil] at h

end Compression

namespace Message

variable {m : Message} {c : Compression} {z : Serialization}

/-- The frame of a message is a request or a response. -/
theorem kind_frame (m : Message) (c : Compression) (z : Serialization) :
    (m.frame c z).header.kind = .request ∨ (m.frame c z).header.kind = .response := by
  cases m with
  | request r => exact .inl rfl
  | response r => exact .inr rfl

/-- A frame is opened layer by layer, and the limit stands between the two. -/
theorem message_frame_eq_decode (m : Message) (c : Compression) (z : Serialization)
    (maximum : UInt32) : (m.frame c z).message maximum =
      if (z.encode m).length ≤ maximum.toNat then
        (z.decode m.kind (z.encode m)).mapError .codec
      else .error (.compression (.exceeds maximum.toNat)) := by
  have hcompression : (m.frame c z).header.compression = c.tag := rfl
  have hserialization : (m.frame c z).header.serialization = z.tag := rfl
  have hbody : (m.frame c z).body = c.compress (z.encode m) := rfl
  rw [Frame.message_of_body (kind_frame m c z), hcompression, hserialization, hbody,
    Compression.ofTag_tag, Serialization.ofTag_tag]
  show ((c.decompress maximum.toNat (c.compress (z.encode m))).mapError Fault.compression >>=
    fun plain => (z.decode m.kind plain).mapError Fault.codec) = _
  rw [Compression.decompress_compress]
  split <;> rfl

/-- What the frame of a message gives whose values are not nested too deep. -/
theorem message_frame_eq (hnormal : m.Normal) (hshort : m.Short)
    (hnests : ∀ v ∈ m.values, z.Nests v) (maximum : UInt32) : (m.frame c z).message maximum =
      if (z.encode m).length ≤ maximum.toNat then .ok m
      else .error (.compression (.exceeds maximum.toNat)) := by
  rw [message_frame_eq_decode]
  split
  · rename_i hlength
    have hlimit := maximum.toNat_lt
    have hdecode := Serialization.decode_encode_of_nests hnormal hshort (by omega) hnests
    rw [hdecode]
    rfl
  · rfl

/-- **Messages under a limit.**  A message goes into a frame under its kind, its id and the two
tags.  The frame gives it back if the body before compression is within the limit, and is refused
for the length of this body otherwise.  Neither version nor length nor id of the header matter for
this. -/
theorem toFrame_message (hnormal : m.Normal) (hshort : m.Short)
    (hnests : ∀ v ∈ m.values, z.Nests v) (maximum : UInt32) :
    ∃ f, m.toFrame Compression.gzip.tag z.tag = .ok f ∧ f.header.kind = m.kind ∧
      f.header.compression = Compression.gzip.tag ∧ f.header.serialization = z.tag ∧
      f.header.requestId = m.requestId ∧
      ((z.encode m).length ≤ maximum.toNat → f.message maximum = .ok m) ∧
      (maximum.toNat < (z.encode m).length → ∃ cause,
        f.message maximum = .error (.compression cause) ∧
        cause.message = s!"decompressed body exceeds {maximum.toNat} bytes") ∧
      ∀ version fullLength requestId,
        (Frame.mk { f.header with version, fullLength, requestId } f.body).message maximum =
          f.message maximum := by
  have hmessage : (m.frame .gzip z).message maximum = _ :=
    message_frame_eq hnormal hshort hnests maximum
  refine ⟨m.frame .gzip z, toFrame_tag m .gzip z, rfl, rfl, rfl, rfl, ?_, ?_, ?_⟩
  · intro hlength
    rw [hmessage, if_pos hlength]
  · intro hlength
    rw [if_neg (Nat.not_le_of_lt hlength)] at hmessage
    exact ⟨_, hmessage, rfl⟩
  · intro version fullLength requestId
    rfl

/-- The sample request goes through a frame with either tag, and is refused under a limit that its
body passes. -/
theorem toFrame_message_sample :
    (∀ z : Serialization, ∃ f, (Message.request .sample).toFrame 0 z.tag = .ok f ∧
      f.message Header.defaultMaximum = .ok (.request .sample)) ∧
    ∃ f cause, (Message.request .sample).toFrame 0 1 = .ok f ∧
      f.message 20 = .error (.compression cause) ∧
      cause.message = "decompressed body exceeds 20 bytes" := by
  have hnests : ∀ (z : Serialization), ∀ v ∈ (Message.request .sample).values, z.Nests v := by
    intro z
    cases z <;> decide
  have hlength : ∀ z : Serialization, (z.encode (.request .sample)).length ≤ 67108864 ∧
      20 < (z.encode (.request .sample)).length := by
    intro z
    cases z <;> decide +kernel
  constructor
  · intro z
    obtain ⟨f, hframe, -, -, -, -, hmessage, -⟩ := toFrame_message Request.sample_normal
      Request.sample_short (hnests z) Header.defaultMaximum
    exact ⟨f, hframe, hmessage (hlength z).1⟩
  · -- The message text of the refusal names the limit.
    obtain ⟨f, hframe, -, -, -, -, -, hmessage, -⟩ := toFrame_message Request.sample_normal
      Request.sample_short (hnests .protobuf) 20
    obtain ⟨cause, hcause, htext⟩ := hmessage (hlength .protobuf).2
    exact ⟨f, cause, hframe, hcause, htext⟩

/-- An empty object below 33 others is not counted by `1 + 2 * lists + 3 * objects`; its request is
within the limit, and yet its frame does not give it back. -/
theorem toFrame_deepestRequest_tooDeep :
    (Message.request Protobuf.deepestRequest).Normal ∧
      (Message.request Protobuf.deepestRequest).Short ∧
      (∀ v ∈ (Message.request Protobuf.deepestRequest).values, ∀ ⦃lists objects u⦄,
        v.Holds lists objects u → 1 + 2 * lists + 3 * objects ≤ 100) ∧
      (Serialization.protobuf.encode (.request Protobuf.deepestRequest)).length ≤
        Header.defaultMaximum.toNat ∧
      ∃ f, (Message.request Protobuf.deepestRequest).toFrame 0 1 = .ok f ∧
        f.message Header.defaultMaximum = .error (.codec (.malformed .tooDeep)) := by
  have hlength : (Serialization.protobuf.encode (.request Protobuf.deepestRequest)).length ≤
      Header.defaultMaximum.toNat := by decide +kernel
  refine ⟨Protobuf.deepestRequest_normal, by decide, by decide, hlength, _,
    toFrame_tag _ .gzip .protobuf, ?_⟩
  rw [message_frame_eq_decode, if_pos hlength, kind, Serialization.decode, Serialization.encode,
    Protobuf.decode, Protobuf.encode, Protobuf.decodeRequest_deepestRequest]
  rfl

end Message
end WireCall
