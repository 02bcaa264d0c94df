import WireCall.Frame.Body
import WireCall.Proofs.Codec
import WireCall.Proofs.Frame.Stream

namespace WireCall

/-!
# Messages in frames

`message_eq_ok_iff` says what it takes for a frame to give a message: its tags are known, its body
holds data within the limit, and the data is a message of the kind that the header names.

In the other direction every message has a frame with known tags, `Message.frame`.  The frame may
be read under a limit if the message fits (`Message.Fits`), and gives the message again if the
values of the message are not nested too deep (`message_frame`).
-/

/-! ### Opening a frame -/

namespace Frame

/-- A probe carries no message, whatever its body. -/
theorem message_of_probe {f : Frame} (hkind : f.header.kind = .ping ∨ f.header.kind = .pong)
    (maximum : UInt32) :
    f.message maximum = .error (.protocol (.unsupportedKind f.header.kind)) := by
  rw [message]
  rcases hkind with hkind | hkind <;> rw [hkind]

/-- The message of any other frame is its body inflated within the limit and decoded, by the tags of
the header, and the first step that fails says why. -/
theorem message_of_body {f : Frame}
    (hkind : f.header.kind = .request ∨ f.header.kind = .response) (maximum : UInt32) :
    f.message maximum = (do
      let c ← (Compression.ofTag f.header.compression).mapError .compression
      let z ← (Serialization.ofTag f.header.serialization).mapError .codec
      let plain ← (c.decompress maximum.toNat f.body).mapError .compression
      (z.decode f.header.kind plain).mapError .codec) := by
  rw [message]
  rcases hkind with hkind | hkind <;> rw [hkind]

/-- A frame gives a message exactly if its tags are known, and what its body holds is within the
limit and is the form of the message. -/
theorem message_eq_ok_iff {maximum : UInt32} {f : Frame} {m : Message} :
    f.message maximum = .ok m ↔ ∃ c z plain, f.header.compression = Compression.tag c ∧
      f.header.serialization = Serialization.tag z ∧ c.Inflates f.body plain ∧
      plain.length ≤ maximum.toNat ∧ z.decode f.header.kind plain = .ok m := by
  by_cases hkind : f.header.kind = .request ∨ f.header.kind = .response
  · rw [message_of_body hkind]
    constructor
    · -- Every step succeeded, so every one of its conditions holds.
      intro h
      obtain ⟨c, hc, h⟩ := bind_eq_ok_iff.mp h
      obtain ⟨z, hz, h⟩ := bind_eq_ok_iff.mp h
      obtain ⟨plain, hplain, h⟩ := bind_eq_ok_iff.mp h
      obtain ⟨hinflates, hlength⟩ :=
        Compression.decompress_eq_ok_iff.mp (mapError_eq_ok_iff.mp hplain)
      exact ⟨c, z, plain, Compression.ofTag_eq_ok_iff.mp (mapError_eq_ok_iff.mp hc),
        Serialization.ofTag_eq_ok_iff.mp (mapError_eq_ok_iff.mp hz), hinflates, hlength,
        mapError_eq_ok_iff.mp h⟩
    · rintro ⟨c, z, plain, hc, hz, hinflates, hlength, hdecode⟩
      rw [Compression.ofTag_eq_ok_iff.mpr hc, Serialization.ofTag_eq_ok_iff.mpr hz]
      show ((c.decompress maximum.toNat f.body).mapError Fault.compression >>= fun plain =>
        (z.decode f.header.kind plain).mapError Fault.codec) = _
      rw [Compression.decompress_eq_ok_iff.mpr ⟨hinflates, hlength⟩]
      exact mapError_eq_ok_iff.mpr hdecode
  · -- A probe gives no message, and no serialization has a form for one.
    have hprobe : f.header.kind = .ping ∨ f.header.kind = .pong := by
      cases hk : f.header.kind <;> simp [hk] at hkind ⊢
    rw [message_of_probe hprobe]
    constructor
    · intro h
      cases h
    · rintro ⟨c, z, plain, -, -, -, -, hdecode⟩
      have hm := Serialization.kind_of_decode hdecode
      rcases hprobe with hk | hk
      · rw [hk] at hm
        cases m <;> cases hm
      · rw [hk] at hm
        cases m <;> cases hm

end Frame

/-! ### Making a frame -/

namespace Message

/-- The frame of a message. -/
def frame (m : Message) (c : Compression) (z : Serialization) : Frame :=
  ⟨Header.forBody m.kind c.tag z.tag m.requestId (c.compress (z.encode m)).length,
    c.compress (z.encode m)⟩

/-- Known tags are all it takes to put a message into a frame. -/
theorem toFrame_tag (m : Message) (c : Compression) (z : Serialization) :
    m.toFrame c.tag z.tag = .ok (m.frame c z) := by
  rw [toFrame, Serialization.ofTag_tag, Compression.ofTag_tag]
  rfl

/-- The message is one that a peer with this limit takes, apart from the nesting of its values: the
keys of its objects ascend, its texts and containers are shorter than `2^32`, and its body is
within the limit, both as it is and as a frame of compressed bytes. -/
structure Fits (m : Message) (maximum : UInt32) (c : Compression) (z : Serialization) : Prop where
  normal : m.Normal
  short : m.Short
  plain : (z.encode m).length ≤ maximum.toNat
  compressed : 17 + (c.compress (z.encode m)).length ≤ maximum.toNat

variable {m : Message} {maximum : UInt32} {c : Compression} {z : Serialization}

/-- Compression does little harm, so a body of less than half of the limit fits. -/
theorem Fits.of_length (hnormal : m.Normal) (hshort : m.Short)
    (hlength : 2 * (z.encode m).length + 37 ≤ maximum.toNat) : m.Fits maximum c z where
  normal := hnormal
  short := hshort
  plain := by omega
  compressed := by
    cases c
    have hcompress : (Compression.gzip.compress (z.encode m)).length ≤
        2 * (z.encode m).length + 20 := Gzip.length_compress_le _
    omega

/-- The body of a message that fits is read back, unless its values are nested too deep. -/
theorem Fits.decode_encode_of_nests (h : m.Fits maximum c z) (hnests : ∀ v ∈ m.values, z.Nests v) :
    z.decode m.kind (z.encode m) = .ok m := by
  have hplain := h.plain
  have hlimit := maximum.toNat_lt
  exact Serialization.decode_encode_of_nests h.normal h.short (by omega) hnests

/-- A frame whose length is within the limit is sound. -/
theorem sound_frame_of_length
    (hcompressed : 17 + (c.compress (z.encode m)).length ≤ maximum.toNat) :
    (m.frame c z).Sound maximum := by
  have hlimit := maximum.toNat_lt
  -- The length is below the limit, so it is not cut when it is put into 32 bits.
  have hlength : (m.frame c z).header.fullLength.toNat =
      17 + (c.compress (z.encode m)).length := by
    show (UInt32.ofNat (17 + (c.compress (z.encode m)).length)).toNat = _
    rw [UInt32.toNat_ofNat', Nat.mod_eq_of_lt (by omega)]
  refine ⟨⟨rfl, ?_, ?_⟩, ?_⟩
  · rw [hlength]
    exact Nat.le_add_right 17 _
  · rw [UInt32.le_iff_toNat_le, hlength]
    exact hcompressed
  · rw [Header.bodyLength, hlength]
    show (c.compress (z.encode m)).length = 17 + (c.compress (z.encode m)).length - 17
    omega

/-- A message that fits makes a sound frame. -/
theorem sound_frame (h : m.Fits maximum c z) : (m.frame c z).Sound maximum :=
  sound_frame_of_length h.compressed

/-- **Round trip of a frame.**  A message that fits and is not nested too deep is what its frame
gives. -/
theorem message_frame (h : m.Fits maximum c z) (hnests : ∀ v ∈ m.values, z.Nests v) :
    (m.frame c z).message maximum = .ok m :=
  Frame.message_eq_ok_iff.mpr ⟨c, z, z.encode m, rfl, rfl, c.inflates_compress _, h.plain,
    h.decode_encode_of_nests hnests⟩

end Message
end WireCall
