import Mathlib.Data.Nat.Digits.Defs
import WireCall.Proofs.Lobby.Guest
import WireCall.Proofs.MsgPack.Size
import WireCall.Proofs.Traffic.Isolation

namespace WireCall

/-!
# The refusal of a connection

A refused connection gets one frame, with the tags 0 in its header and in its body.  Its text names
the time for which the connection may wait, and every such time has at most 23 digits, so the frame
is small: it may be read under any limit of 512 bytes or more.

Main statement: the bytes that a refused connection gets are one frame and nothing else, and give
the response with the code 700 (`Traffic.read_refuse`).
-/

/-- Milliseconds never take more than 23 digits. -/
theorem Duration.milliseconds_lt (d : Duration) : d.milliseconds < 10 ^ 23 := by
  have hbound := d.bound
  rw [milliseconds]
  omega

namespace Traffic

variable {maximum : UInt32} {cause : RateFault}

/-- The text of a refusal is short. -/
theorem length_refusal_text_le (patience : Duration) :
    (Octets.ofText (refusal patience.refusal).text).length ≤ 134 := by
  by_cases hzero : patience.isZero = true
  · rw [Duration.refusal, if_pos hzero]
    decide
  · have hdigits : (Nat.toDigits 10 patience.milliseconds).length ≤ 23 :=
      Nat.toDigits_length 10 _ 23 (by decide) patience.milliseconds_lt
    have hnumber := Octets.length_ofText_ofList_le (Nat.toDigits 10 patience.milliseconds)
    have htext : (refusal (.noTokenWithin patience.milliseconds)).text = "rate limited: " ++
        ("no token available within " ++ String.ofList (Nat.toDigits 10 patience.milliseconds) ++
          "ms") := rfl
    -- Beside the number the text is fixed.
    have hfixed : (Octets.ofText "rate limited: ").length = 14 ∧
        (Octets.ofText "no token available within ").length = 26 ∧
        (Octets.ofText "ms").length = 2 := by decide
    rw [Duration.refusal, if_neg hzero, htext, Octets.length_ofText_append,
      Octets.length_ofText_append, Octets.length_ofText_append]
    omega

/-- A refusal with a short text is a short message. -/
theorem length_encode_refusal_le (hlength : (Octets.ofText (refusal cause).text).length ≤ 134) :
    (Serialization.msgPack.encode (.response (refusal cause))).length ≤ 215 := by
  have hheader : (MsgPack.textHeader (Octets.ofText (refusal cause).text).length).length ≤ 5 := by
    rw [MsgPack.textHeader]
    repeat' split
    all_goals simp
  have htext : (MsgPack.text (refusal cause).text).length ≤ 139 := by
    rw [MsgPack.text, List.length_append]
    omega
  -- The other parts do not depend on the cause: the names of the fields and four small numbers.
  have hnames : (MsgPack.mapHeader 6).length = 1 ∧ (MsgPack.text "request_id").length = 11 ∧
      (MsgPack.text "code").length = 5 ∧ (MsgPack.text "msg").length = 4 ∧
      (MsgPack.text "compress_type").length = 14 ∧ (MsgPack.text "serialize_type").length = 15 ∧
      (MsgPack.text "data").length = 5 := by decide
  have hnumbers : (MsgPack.natural (refusal cause).requestId.toNat).length = 1 ∧
      (MsgPack.integer (refusal cause).code.toInt).length = 3 ∧
      (MsgPack.natural (refusal cause).compression.toNat).length = 1 ∧
      (MsgPack.natural (refusal cause).serialization.toNat).length = 1 ∧
      (MsgPack.encodeValue (refusal cause).data).length = 1 := ⟨rfl, rfl, rfl, rfl, rfl⟩
  show (MsgPack.encodeResponse (refusal cause)).length ≤ 215
  rw [MsgPack.encodeResponse_eq]
  simp only [List.length_append]
  omega

/-- The refusal for any patience fits under a limit of 512 bytes. -/
theorem fits_refusal (patience : Duration) (hmaximum : 512 ≤ maximum.toNat) :
    (Message.response (refusal patience.refusal)).Fits maximum .gzip .msgPack := by
  have hlength := length_encode_refusal_le (length_refusal_text_le patience)
  refine .of_length (refusal_normal _) (MsgPack.short_of_length_encode ?_) (by omega)
  exact Nat.lt_of_le_of_lt hlength (by decide)

/-- **The refusal.**  The bytes of a refusal are one frame, a response with id 0 and the tags 0,
whose body says the same, with the code 700, the cause and no data; every limit of 512 bytes or
more allows to read it. -/
theorem read_refuse (patience : Duration) : ∃ f : Frame,
    Responder.refuse patience.refusal = f.encode ∧ f.header.kind = .response ∧
    f.header.requestId = 0 ∧ f.header.compression = 0 ∧ f.header.serialization = 0 ∧
    ∀ maximum : UInt32, 512 ≤ maximum.toNat →
      (∃ rest, Frame.read maximum [f.encode] = .ok (f, rest) ∧ rest.flatten = []) ∧
      f.message maximum = .ok (.response
        ⟨0, 700, (Fault.rateLimited patience.refusal).message, 0, 0, .null⟩) := by
  refine ⟨(Message.response (refusal patience.refusal)).frame .gzip .msgPack, refuse_eq _, rfl,
    rfl, rfl, rfl, fun maximum hmaximum => ?_⟩
  have hfits := fits_refusal patience hmaximum
  have hnests : ∀ v ∈ (Message.response (refusal patience.refusal)).values,
      Serialization.msgPack.Nests v := by
    intro v hv
    rw [List.mem_singleton.mp hv]
    show Serialization.msgPack.Nests .null
    decide
  exact ⟨Frame.read_of_flatten (Message.sound_frame hfits) (by simp),
    Message.message_frame hfits hnests⟩

end Traffic
end WireCall
