import WireCall.Proofs.Codec
import WireCall.Proofs.MsgPack.Order
import WireCall.Proofs.Protobuf.Order

namespace WireCall.Serialization

/-!
# Bodies of other writers

A newer peer may write the fields of a message in another order, and fields that this version does
not know.  `Rearranges` says when bytes are a message in this way.  For MessagePack they are a map
whose entries have names or indices for keys, contents in any form, and fields left out that have a
default; for Protocol Buffers they are the fields as they are written.  The unknown fields may stand
anywhere, and the reader must step over each of them exactly, since it takes what follows for the
next field (`decode_rearranged`).
-/

/-- The bytes are the message with its fields in any order and with unknown fields between them. -/
def Rearranges : Serialization → Message → Octets → Prop
  | msgPack, m, bytes => ∃ fields, MsgPack.Carries m fields ∧
      MsgPack.Body (MsgPack.fieldNames m.kind) fields bytes
  | protobuf, m, bytes => ∃ fields, Protobuf.Reorders m fields ∧
      Protobuf.Pieces (Protobuf.lastField m.kind) fields bytes

/-- **Fields in any order.**  A rearranged body is read like the one that is written for the
message, and so as the message itself if its values are not nested too deep.  A map that lacks a
field without a default or has a field twice is refused, whatever else is in it. -/
theorem decode_rearranged :
    (∀ z m bytes, Rearranges z m bytes →
      z.decode m.kind bytes = z.decode m.kind (z.encode m)) ∧
    (∀ m bytes, msgPack.Rearranges m bytes → (∀ v ∈ m.values, msgPack.Nests v) →
      msgPack.decode m.kind bytes = .ok m) ∧
    (∀ m bytes, protobuf.Rearranges m bytes → m.Normal →
      (protobuf.encode m).length < 0x10000000000000000 → (∀ v ∈ m.values, protobuf.Nests v) →
      protobuf.decode m.kind bytes = .ok m) ∧
    ∀ kind fields bytes, MsgPack.Body (MsgPack.fieldNames kind) fields bytes →
      MsgPack.Spoilt kind fields → ∃ fault, msgPack.decode kind bytes = .error fault := by
  refine ⟨fun z m bytes h => ?_, fun m bytes h hnests => ?_,
    fun m bytes h hnormal hlength hnests => ?_, fun kind fields bytes hbody h => ?_⟩
  · -- Whatever order the fields have, they are those of the message.
    cases z with
    | msgPack =>
      obtain ⟨fields, hcarries, hbody⟩ := h
      have hread := MsgPack.decode_eq_of_carries hbody hcarries []
      rwa [List.append_nil] at hread
    | protobuf =>
      obtain ⟨fields, hfields, hpieces⟩ := h
      exact Protobuf.decode_of_pieces hfields hpieces
  · obtain ⟨fields, hcarries, hbody⟩ := h
    have hwithin : ∀ v ∈ m.values, MsgPack.NestsWithin MsgPack.valueLimit v :=
      fun v hv => nestsWithin_of_nests (hnests v hv)
    have hread := MsgPack.decode_eq_ok_of_carries hbody hcarries hwithin []
    rwa [List.append_nil] at hread
  · obtain ⟨fields, hfields, hpieces⟩ := h
    exact (Protobuf.decode_of_pieces hfields hpieces).trans
      (protobuf_decode_encode hnormal hlength hnests)
  · have hread := MsgPack.decode_of_spoilt hbody h []
    rwa [List.append_nil] at hread

/-- A response as a map with indices for keys, in another order, with an id that takes a byte more
than it needs, with an unknown entry and without its data; and a request with its service behind an
argument and an unknown field of four bytes between them. -/
theorem decode_rearranged_sample :
    msgPack.Rearranges (.response ⟨7, 200, "", 0, 0, .null⟩)
        [0x85, 0x01, 0xcd, 0x00, 0xc8, 0xa1, 0x78, 0x92, 0xc0, 0xc3, 0x00, 0xcc, 0x07, 0x04, 0x00,
          0x03, 0x00] ∧
      msgPack.decode .response
          [0x85, 0x01, 0xcd, 0x00, 0xc8, 0xa1, 0x78, 0x92, 0xc0, 0xc3, 0x00, 0xcc, 0x07, 0x04, 0x00,
            0x03, 0x00] =
        .ok (.response ⟨7, 200, "", 0, 0, .null⟩) ∧
      protobuf.Rearranges (.request ⟨7, "b", "", [.null]⟩)
        [0x22, 0x00, 0x4d, 0x01, 0x02, 0x03, 0x04, 0x12, 0x01, 0x62, 0x08, 0x07] ∧
      protobuf.decode .request
          [0x22, 0x00, 0x4d, 0x01, 0x02, 0x03, 0x04, 0x12, 0x01, 0x62, 0x08, 0x07] =
        .ok (.request ⟨7, "b", "", [.null]⟩) := by
  -- The fields stand under their indices; the text under the name `x` is unknown and is skipped.
  have hindex (i n : UInt64) {count : Nat} {fields : List (Nat × Value)} {value more : Octets}
      (hi : i.toNat < 6) (hvalue : (MsgPack.Head.unsigned n).Form value)
      (h : MsgPack.Entries (MsgPack.fieldNames .response) count fields more) :
      MsgPack.Entries (MsgPack.fieldNames .response) (count + 1)
        ((i.toNat, .int (.ofUInt64 n)) :: fields)
        ([0x00 + UInt8.ofNat i.toNat] ++ (value ++ more)) := by
    have hnamed : (MsgPack.Head.unsigned i).Names (MsgPack.fieldNames .response) i.toNat :=
      ⟨rfl, hi⟩
    have hwritten : MsgPack.Written (.int (.ofUInt64 n)) value := by
      rw [MsgPack.Written]
      exact .inl ⟨n, rfl, hvalue⟩
    exact .known hnamed (.inl ⟨by omega, rfl⟩) hwritten h
  have hmap : msgPack.Rearranges (.response ⟨7, 200, "", 0, 0, .null⟩)
      [0x85, 0x01, 0xcd, 0x00, 0xc8, 0xa1, 0x78, 0x92, 0xc0, 0xc3, 0x00, 0xcc, 0x07, 0x04, 0x00,
        0x03, 0x00] := by
    have htail := hindex 0 7 (by decide) (.inr ⟨0xcc, 1, by decide, by decide, rfl⟩) <|
      hindex 4 0 (by decide) (.inl ⟨by decide, rfl⟩) <|
      hindex 3 0 (by decide) (.inl ⟨by decide, rfl⟩) .nil
    have hstrange : (MsgPack.Head.text [0x78]).IsStrange (MsgPack.fieldNames .response) := by
      show ∀ name ∈ MsgPack.fieldNames .response, Octets.ofText name ≠ [0x78]
      decide
    have hskipped : MsgPack.Item 1021 [0x92, 0xc0, 0xc3] := by
      refine .inr ⟨2, [0x92], [0xc0, 0xc3], rfl, .inl ⟨.inl ⟨by decide, rfl⟩, ?_⟩⟩
      exact ⟨[0xc0], [0xc3], rfl, .inl ⟨.nil, trivial, rfl⟩, [0xc3], [], rfl,
        .inl ⟨.bool true, trivial, rfl⟩, rfl⟩
    have hentries := hindex 1 200 (by decide) (.inr ⟨0xcd, 2, by decide, by decide, rfl⟩) <|
      .unknown hstrange ⟨[0xa1], rfl, .inl ⟨by decide, rfl⟩⟩ hskipped htail
    refine ⟨_, ⟨?_, ?_, ?_⟩, 5, [0x85], _, rfl, .inl ⟨by decide, rfl⟩, hentries⟩
    · decide
    · exact List.forall_mem_cons.mpr ⟨rfl, List.forall_mem_cons.mpr ⟨rfl,
        List.forall_mem_cons.mpr ⟨rfl,
          List.forall_mem_cons.mpr ⟨rfl, List.forall_mem_nil _⟩⟩⟩⟩
    · -- Text and data are missing, which stands for the empty text and for null.
      intro i v hi hmem
      rcases i with _ | _ | _ | _ | _ | _ | i
      · exact absurd (by decide) hmem
      · exact absurd (by decide) hmem
      · cases hi
        rfl
      · exact absurd (by decide) hmem
      · exact absurd (by decide) hmem
      · cases hi
        rfl
      · cases hi
  have hfields : protobuf.Rearranges (.request ⟨7, "b", "", [.null]⟩)
      [0x22, 0x00, 0x4d, 0x01, 0x02, 0x03, 0x04, 0x12, 0x01, 0x62, 0x08, 0x07] := by
    have hgroups : Protobuf.Groups (0x4d : UInt8).toNat [0x4d] := .last (by decide)
    have hkey : Protobuf.VarintForm (8 * 9 + Protobuf.WireType.fixed32.number) [0x4d] :=
      ⟨hgroups, by decide, by decide⟩
    have hpayload : Protobuf.PayloadForm .fixed32 [0x01, 0x02, 0x03, 0x04] := rfl
    have hpieces : Protobuf.Pieces 4
        [⟨4, .delimited []⟩, ⟨2, .delimited [0x62]⟩, ⟨1, .varint 7⟩] _ :=
      .known <| .unknown ⟨by decide, by decide⟩ hkey hpayload <| .known <| .known .nil
    exact ⟨_, ⟨by decide, by decide⟩, hpieces⟩
  obtain ⟨-, hmessage, hmessage', -⟩ := decode_rearranged
  exact ⟨hmap, hmessage _ _ hmap (by decide), hfields,
    hmessage' _ _ hfields (by decide) (by decide) (by decide)⟩

end WireCall.Serialization
