import WireCall.Codec
import WireCall.Frame.Stream

namespace WireCall

/-!
# Messages in frames

A message is serialized, compressed and put behind a header; opening a frame goes back the same
way.  The serialized body may not be longer than the limit that also bounds the frame, however
small its compressed form is.
-/

/-- Puts a message into a frame with the two given tags and the id of the message. -/
def Message.toFrame (m : Message) (compression serialization : UInt8) : Except Fault Frame := do
  let s ← (Serialization.ofTag serialization).mapError .codec
  let c ← (Compression.ofTag compression).mapError .compression
  let body := c.compress (s.encode m)
  return ⟨Header.forBody m.kind compression serialization m.requestId body.length, body⟩

/-- Takes the message out of a frame.  Probes have none; otherwise the compression tag, the
serialization tag, the compressed body and the serialized body are judged in this order. -/
def Frame.message (f : Frame) (maximum : UInt32) : Except Fault Message := do
  match f.header.kind with
  | .ping | .pong => .error (.protocol (.unsupportedKind f.header.kind))
  | .request | .response =>
    let c ← (Compression.ofTag f.header.compression).mapError .compression
    let s ← (Serialization.ofTag f.header.serialization).mapError .codec
    let plain ← (c.decompress maximum.toNat f.body).mapError .compression
    (s.decode f.header.kind plain).mapError .codec

end WireCall
