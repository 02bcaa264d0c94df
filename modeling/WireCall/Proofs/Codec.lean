import WireCall.Codec
import WireCall.Proofs.MsgPack.Message
import WireCall.Proofs.MsgPack.Size
import WireCall.Proofs.Protobuf.Message
import WireCall.Proofs.Gzip.Member

namespace WireCall

/-!
# Codecs by their tags

What holds of each serialization and each compression, put together for the ones that a tag names:
a tag names at most one, compressed bytes stand for the same data under every limit that the data
is within (`Compression.decompress_eq_ok_iff`), and a message whose values are not nested too deep
for its serialization comes back from its body (`Serialization.decode_encode_of_nests`).  From a
body of less than `2^32` bytes no other message is ever read (`Serialization.eq_of_decode_encode`).
-/

namespace Compression

/-- No two tags name one compression: a tag is read as a compression exactly when it is its own. -/
theorem ofTag_eq_ok_iff {tag : UInt8} {c : Compression} : ofTag tag = .ok c ↔ tag = c.tag := by
  constructor
  · intro h
    unfold ofTag at h
    split at h
    · cases h
      rfl
    · cases h
  · rintro rfl
    exact ofTag_tag c

/-- The bytes hold the data, whatever the limit of the reader may be. -/
def Inflates : Compression → Octets → Octets → Prop
  | gzip => Gzip.Inflates

/-- Decompression succeeds exactly on bytes that inflate to data within the limit. -/
theorem decompress_eq_ok_iff {c : Compression} {limit : Nat} {bytes data : Octets} :
    c.decompress limit bytes = .ok data ↔ c.Inflates bytes data ∧ data.length ≤ limit := by
  cases c
  exact Gzip.decompress_eq_ok_iff

theorem inflates_compress (c : Compression) (data : Octets) :
    c.Inflates (c.compress data) data := by
  cases c
  refine ⟨data.length, ?_⟩
  have h := Gzip.decompress_compress_append data.length data []
  rwa [List.append_nil, if_pos (Nat.le_refl _)] at h

/-- Bytes inflate to one thing only. -/
theorem Inflates.unique {c : Compression} {bytes data data' : Octets} (h : c.Inflates bytes data)
    (h' : c.Inflates bytes data') : data = data' := by
  cases c
  exact Gzip.Inflates.unique h h'

end Compression

namespace Serialization

/-- No two tags name one serialization: a tag is read as a serialization exactly when it is its own.
-/
theorem ofTag_eq_ok_iff {tag : UInt8} {z : Serialization} : ofTag tag = .ok z ↔ tag = z.tag := by
  constructor
  · intro h
    unfold ofTag at h
    split at h
    · cases h
      rfl
    · cases h
      rfl
    · cases h
  · rintro rfl
    exact ofTag_tag z

/-- The value is not nested too deep to be read back: at most 1021 lists and objects are open at
once, or at most 100 nested messages, of which a list takes two, an object three, and an empty list
or object one by itself. -/
def Nests : Serialization → Value → Prop
  | msgPack, v => ∀ ⦃lists objects u⦄, v.Holds lists objects u →
      lists + objects + u.isContainer.toNat ≤ 1021
  | protobuf, v => ∀ ⦃lists objects u⦄, v.Holds lists objects u →
      1 + 2 * lists + 3 * objects + u.isHollow.toNat ≤ 100

instance (z : Serialization) (v : Value) : Decidable (z.Nests v) :=
  match z with
  | msgPack => inferInstanceAs (Decidable (∀ ⦃lists objects u⦄, v.Holds lists objects u →
      lists + objects + u.isContainer.toNat ≤ 1021))
  | protobuf => inferInstanceAs (Decidable (∀ ⦃lists objects u⦄, v.Holds lists objects u →
      1 + 2 * lists + 3 * objects + u.isHollow.toNat ≤ 100))

/-- A value that MessagePack can carry nests within the reader's limit. -/
theorem nestsWithin_of_nests {v : Value} (h : msgPack.Nests v) :
    MsgPack.NestsWithin MsgPack.valueLimit v := by
  intro lists objects u hu
  have hbound := h hu
  show 1 * lists + 1 * objects + u.isContainer.toNat ≤ 1021
  omega

/-- A message whose values nest within the reader's limit survives Protobuf. -/
theorem protobuf_decode_encode {m : Message} (hnormal : m.Normal)
    (hlength : (protobuf.encode m).length < 0x10000000000000000)
    (hnests : ∀ v ∈ m.values, protobuf.Nests v) :
    protobuf.decode m.kind (protobuf.encode m) = .ok m := by
  refine (Protobuf.decode_encode_recovers m hnormal).eq_ok ⟨fun v hv lists objects u hu => ?_,
    hlength⟩
  have hbound := hnests v hv hu
  show 2 * lists + 3 * objects + u.isHollow.toNat ≤ 99
  omega

/-- A message whose values nest within the reader's limit survives either serialization. -/
theorem decode_encode_of_nests {z : Serialization} {m : Message} (hnormal : m.Normal)
    (hshort : m.Short) (hlength : (z.encode m).length < 0x10000000000000000)
    (hnests : ∀ v ∈ m.values, z.Nests v) : z.decode m.kind (z.encode m) = .ok m := by
  cases z with
  | msgPack =>
    have h := MsgPack.decode_encode_recovers m hnormal hshort []
    rw [List.append_nil] at h
    exact h.eq_ok fun v hv => nestsWithin_of_nests (hnests v hv)
  | protobuf => exact protobuf_decode_encode hnormal hlength hnests

/-- In fewer bytes than `2^32` there is no text and no container that is too long. -/
theorem decode_encode_of_length {z : Serialization} {m : Message} (hnormal : m.Normal)
    (hlength : (z.encode m).length < 4294967296) (hnests : ∀ v ∈ m.values, z.Nests v) :
    z.decode m.kind (z.encode m) = .ok m := by
  cases z with
  | msgPack =>
    have hshort := MsgPack.short_of_length_encode hlength
    exact decode_encode_of_nests hnormal hshort (by omega) hnests
  | protobuf => exact protobuf_decode_encode hnormal (by omega) hnests

/-- A body that is read gives the message that was written. -/
theorem eq_of_decode_encode {z : Serialization} {m m' : Message} (hnormal : m.Normal)
    (hlength : (z.encode m).length < 4294967296) (h : z.decode m.kind (z.encode m) = .ok m') :
    m' = m := by
  -- Decoding what was written never gives another message: it gives this one or none.
  have hread : z.decode m.kind (z.encode m) = .ok m ∨
      ∃ e, z.decode m.kind (z.encode m) = .error e := by
    cases z with
    | msgPack =>
      have hshort := MsgPack.short_of_length_encode hlength
      have hrecovers := MsgPack.decode_encode_recovers m hnormal hshort []
      rw [List.append_nil] at hrecovers
      exact hrecovers.ok_or_error
    | protobuf => exact (Protobuf.decode_encode_recovers m hnormal).ok_or_error
  rcases hread with hread | ⟨e, hread⟩
  · exact Except.ok.inj (h.symm.trans hread)
  · cases h.symm.trans hread

/-- A body gives a message of the kind that its frame announces. -/
theorem kind_of_decode {z : Serialization} {kind : FrameKind} {bytes : Octets} {m : Message}
    (h : z.decode kind bytes = .ok m) : m.kind = kind := by
  cases z with
  | msgPack =>
    cases kind with
    | request =>
      obtain ⟨r, -, rfl⟩ := map_eq_ok_iff.mp (mapError_eq_ok_iff.mp h)
      rfl
    | response =>
      obtain ⟨r, -, rfl⟩ := map_eq_ok_iff.mp (mapError_eq_ok_iff.mp h)
      rfl
    | ping | pong => cases h
  | protobuf =>
    cases kind with
    | request =>
      obtain ⟨r, -, rfl⟩ := map_eq_ok_iff.mp (mapError_eq_ok_iff.mp h)
      rfl
    | response =>
      obtain ⟨r, -, rfl⟩ := map_eq_ok_iff.mp h
      rfl
    | ping | pong => cases h

end Serialization
end WireCall
