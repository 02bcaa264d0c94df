import WireCall.Proofs.Codec
import WireCall.Proofs.MsgPack.Accepted
import WireCall.Proofs.Protobuf.AcceptedMessage

namespace WireCall.Serialization

/-!
# Accepted bodies can be sent back

A peer may write a body in any way that the reader puts up with: integers with more bytes than they
need, short floats and floats that are not finite, an object with a key twice, a field in several
pieces, values nested as deep as they may be.  What was read from it is in the form in which it is
written, and stays within the limits of the reader wherever an echo puts it (`decode_reencoded`).
-/

/-- **Accepted bodies.**  Whatever message a serialization reads, from any bytes that fit into
memory, has its objects in order and is read again from its own body; and every argument of a
request that was read comes back unchanged as the data of a response, whatever id and tags the
response has. -/
theorem decode_reencoded {z : Serialization} {kind : FrameKind} {bytes : Octets} {m : Message}
    (hbytes : bytes.length < 0x8000000000000000) (h : z.decode kind bytes = .ok m) :
    m.Normal ∧ z.decode kind (z.encode m) = .ok m ∧
    ∀ r, m = .request r → ∀ v ∈ r.args, ∀ id,
      z.decode .response (z.encode (.response (.ok id v))) = .ok (.response (.ok id v)) ∧
      ∀ compression serialization,
        z.decode .response
            (z.encode (.response ((Response.ok id v).withTags compression serialization))) =
          .ok (.response ((Response.ok id v).withTags compression serialization)) := by
  have hkind := kind_of_decode h
  -- Each serialization has its own reason: Protocol Buffers may grow, so it needs the bound.
  have hagain : m.Normal ∧ z.decode kind (z.encode m) = .ok m := by
    cases z with
    | msgPack => exact MsgPack.decode_encode_of_decode h
    | protobuf => exact Protobuf.decode_encode_of_decode hbytes h
  refine ⟨hagain.1, hagain.2, ?_⟩
  rintro r rfl v hv id
  obtain rfl : FrameKind.request = kind := hkind
  -- The tags of a response do not touch its data, so the echo is one statement for all tags.
  have hecho (compression serialization : UInt8) :
      z.decode .response
          (z.encode (.response ((Response.ok id v).withTags compression serialization))) =
        .ok (.response ((Response.ok id v).withTags compression serialization)) := by
    cases z with
    | msgPack => exact MsgPack.decode_encode_ok_of_decode h hv id compression serialization
    | protobuf => exact Protobuf.decode_encode_ok_of_decode hbytes h hv id compression serialization
  exact ⟨hecho 0 0, hecho⟩

/-- A request in which the id takes a byte too many, the service comes behind the argument, and this
is an object in two pieces with the same key. -/
theorem decode_reencoded_sample :
    protobuf.decode .request [0x08, 0x87, 0x00, 0x22, 0x0c, 0x3a, 0x04, 0x0a, 0x02, 0x0a, 0x00,
        0x3a, 0x04, 0x0a, 0x02, 0x0a, 0x00, 0x12, 0x01, 0x62] =
      .ok (.request ⟨7, "b", "", [.object [("", .null)]]⟩) ∧
    protobuf.decode .request (protobuf.encode (.request ⟨7, "b", "", [.object [("", .null)]]⟩)) =
      .ok (.request ⟨7, "b", "", [.object [("", .null)]]⟩) ∧
    protobuf.decode .response (protobuf.encode (.response (.ok 9 (.object [("", .null)])))) =
      .ok (.response (.ok 9 (.object [("", .null)]))) := by
  have hread : protobuf.decode .request [0x08, 0x87, 0x00, 0x22, 0x0c, 0x3a, 0x04, 0x0a, 0x02,
      0x0a, 0x00, 0x3a, 0x04, 0x0a, 0x02, 0x0a, 0x00, 0x12, 0x01, 0x62] =
        .ok (.request ⟨7, "b", "", [.object [("", .null)]]⟩) := by rfl
  obtain ⟨-, hagain, hecho⟩ := decode_reencoded (by decide) hread
  exact ⟨hread, hagain, (hecho _ rfl _ List.mem_cons_self 9).1⟩

end WireCall.Serialization
