import WireCall.Proofs.Frame.Body

namespace WireCall

/-!
# What a stream delivers

A stream delivers a message if it starts with a frame that may be read and that holds the message
(`Delivers`).  `delivers_iff` says that this is what a reader finds on the stream, and
`Delivers.eq_of_frame` that nothing else than the message itself is found where its own frame, or
the beginning of it, has arrived: a frame that was cut short delivers nothing, and a message that is
nested too deep is lost and not mistaken for another one.
-/

/-- The stream starts with the frame `f`, under a header of the current version and of a length
within the limit; the frame is of the kind of `m` and carries these tags, and its body holds `m` in
no more bytes than the limit allows. -/
structure Delivers (maximum : UInt32) (s : Inbound) (f : Frame) (c : Compression)
    (z : Serialization) (m : Message) : Prop where
  front : f.encode <+: s.flatten
  sound : f.Sound maximum
  kind : f.header.kind = m.kind
  compression : f.header.compression = c.tag
  serialization : f.header.serialization = z.tag
  body : ∃ plain, c.Inflates f.body plain ∧ plain.length ≤ maximum.toNat ∧
    z.decode m.kind plain = .ok m

/-- Even a frame without a body has a header. -/
theorem Frame.encode_ne_nil (f : Frame) : f.encode ≠ [] := by
  intro hnil
  have hlength := f.header.length_encode
  rw [Frame.encode, List.append_eq_nil_iff] at hnil
  rw [hnil.1] at hlength
  cases hlength

variable {maximum : UInt32} {s : Inbound} {f : Frame} {c c' : Compression}
  {z z' : Serialization} {m m' : Message}

/-- What is delivered is what is read. -/
theorem delivers_iff : (∃ f c z, Delivers maximum s f c z m) ↔
    ∃ f rest, Frame.read maximum s = .ok (f, rest) ∧ f.message maximum = .ok m := by
  constructor
  · rintro ⟨f, c, z, h⟩
    -- What the stream delivers is what reading finds, field by field.
    obtain ⟨plain, hinflates, hlength, hdecode⟩ := h.body
    obtain ⟨rest, hread⟩ := Frame.read_eq_ok_iff.mpr ⟨h.sound, h.front⟩
    rw [← h.kind] at hdecode
    exact ⟨f, rest, hread, Frame.message_eq_ok_iff.mpr
      ⟨c, z, plain, h.compression, h.serialization, hinflates, hlength, hdecode⟩⟩
  · rintro ⟨f, rest, hread, hmessage⟩
    obtain ⟨hsound, hfront⟩ := Frame.read_eq_ok_iff.mp ⟨rest, hread⟩
    obtain ⟨c, z, plain, hc, hz, hinflates, hlength, hdecode⟩ :=
      Frame.message_eq_ok_iff.mp hmessage
    -- Only messages are decoded, so the kind of the frame is that of the message.
    have hkind := Serialization.kind_of_decode hdecode
    rw [← hkind] at hdecode
    exact ⟨f, c, z, hfront, hsound, hkind.symm, hc, hz, plain, hinflates, hlength, hdecode⟩

namespace Delivers

/-- A message that fits and is not nested too deep is delivered by its frame. -/
theorem of_fits (hfits : m.Fits maximum c z) (hnests : ∀ v ∈ m.values, z.Nests v)
    (hfront : (m.frame c z).encode <+: s.flatten) : Delivers maximum s (m.frame c z) c z m where
  front := hfront
  sound := Message.sound_frame hfits
  kind := rfl
  compression := rfl
  serialization := rfl
  body := ⟨z.encode m, c.inflates_compress _, hfits.plain, hfits.decode_encode_of_nests hnests⟩

/-- On a stream that starts with the frame of a message, what is delivered is what is read from the
body of this frame. -/
theorem decode_eq (h : Delivers maximum s f c' z' m') (hfits : m.Fits maximum c z)
    (hfront : (m.frame c z).encode <+: s.flatten) : z.decode m'.kind (z.encode m) = .ok m' := by
  -- Two frames at the front of one stream are the same, and so are their tags.
  obtain ⟨after, hafter⟩ := h.front
  obtain ⟨after', hafter'⟩ := hfront
  obtain ⟨rfl, -⟩ := Frame.encode_injective h.sound.body (Message.sound_frame hfits).body
    (hafter.trans hafter'.symm)
  obtain ⟨plain, hinflates, -, hdecode⟩ := h.body
  have hc : c = c' := Except.ok.inj
    ((Compression.ofTag_tag c).symm.trans (Compression.ofTag_eq_ok_iff.mpr h.compression))
  have hz : z = z' := Except.ok.inj
    ((Serialization.ofTag_tag z).symm.trans (Serialization.ofTag_eq_ok_iff.mpr h.serialization))
  subst hc hz
  rwa [hinflates.unique (c.inflates_compress (z.encode m))] at hdecode

/-- Another stream that starts with the same frame, or one with another id in its header, delivers
the same. -/
theorem congr {s' : Inbound} {bytes bytes' : Octets} (h : Delivers maximum s f c z m) (f' : Frame)
    (id : UInt64) (hlength : f'.body.length = f'.header.bodyLength)
    (hs : s.flatten = f'.encode ++ bytes)
    (hs' : s'.flatten = (Frame.mk { f'.header with requestId := id } f'.body).encode ++ bytes') :
    Delivers maximum s' ⟨{ f'.header with requestId := id }, f'.body⟩ c z m := by
  obtain ⟨after, hafter⟩ := h.front
  obtain ⟨rfl, -⟩ := Frame.encode_injective h.sound.body hlength (hafter.trans hs)
  exact {
    front := ⟨bytes', hs'.symm⟩
    sound := ⟨⟨h.sound.header.version, h.sound.header.size_le, h.sound.header.le_maximum⟩, hlength⟩
    kind := h.kind
    compression := h.compression
    serialization := h.serialization
    body := h.body }

/-- A stream that delivers something is not empty. -/
theorem flatten_ne_nil (h : Delivers maximum s f c z m) : s.flatten ≠ [] := by
  intro hnil
  have hfront := h.front
  rw [hnil, List.prefix_nil] at hfront
  exact f.encode_ne_nil hfront

/-- A stream delivers at most one message. -/
theorem unique {f' : Frame} (h : Delivers maximum s f c z m)
    (h' : Delivers maximum s f' c' z' m') : m = m' := by
  obtain ⟨g, rest, hread, hmessage⟩ := delivers_iff.mp ⟨f, c, z, h⟩
  obtain ⟨g', rest', hread', hmessage'⟩ := delivers_iff.mp ⟨f', c', z', h'⟩
  obtain ⟨rfl, -⟩ := Prod.mk.inj (Except.ok.inj (hread.symm.trans hread'))
  exact Except.ok.inj (hmessage.symm.trans hmessage')

end Delivers

/-- The frame of a message that fits is short enough for its length field. -/
theorem Message.Fits.length_encode_lt (h : m.Fits maximum c z) :
    (m.frame c z).encode.length < 4294967296 := by
  have hcompressed := h.compressed
  have hlimit := maximum.toNat_lt
  rw [Frame.encode, List.length_append, Header.length_encode]
  show 17 + (c.compress (z.encode m)).length < _
  omega

/-- The header of a frame that is short enough for its length field says how long the body is. -/
theorem Message.bodyLength_frame (hlength : (m.frame c z).encode.length < 4294967296) :
    (m.frame c z).body.length = (m.frame c z).header.bodyLength := by
  rw [Frame.encode, List.length_append, Header.length_encode] at hlength
  have hfull : (m.frame c z).header.fullLength.toNat =
      Header.size + (m.frame c z).body.length := by
    show (UInt32.ofNat (Header.size + (m.frame c z).body.length)).toNat = _
    rw [UInt32.toNat_ofNat', Nat.mod_eq_of_lt hlength]
  rw [Header.bodyLength, hfull, Nat.add_sub_cancel_left]

/-- **No mistaken messages.**  What is delivered where the bytes of a message's frame arrive, or the
first of them, is this message in this frame. -/
theorem Delivers.eq_of_frame (h : Delivers maximum s f c z m) (hnormal : m'.Normal)
    (hlength : (m'.frame c' z').encode.length < 4294967296)
    (hfront : s.flatten <+: (m'.frame c' z').encode) :
    f = m'.frame c' z' ∧ c = c' ∧ z = z' ∧ m = m' := by
  -- The frame that was read is a frame at the front of the one that was sent.
  obtain ⟨after, hafter⟩ := h.front.trans hfront
  rw [← List.append_nil (m'.frame c' z').encode] at hafter
  obtain ⟨rfl, -⟩ := Frame.encode_injective h.sound.body (Message.bodyLength_frame hlength) hafter
  have hc : c = c' := Except.ok.inj
    ((Compression.ofTag_eq_ok_iff.mpr h.compression).symm.trans (Compression.ofTag_tag c'))
  have hz : z = z' := Except.ok.inj
    ((Serialization.ofTag_eq_ok_iff.mpr h.serialization).symm.trans (Serialization.ofTag_tag z'))
  subst hc hz
  obtain ⟨plain, hinflates, hplain, hdecode⟩ := h.body
  obtain rfl := hinflates.unique (c.inflates_compress (z.encode m'))
  have hlimit := maximum.toNat_lt
  rw [← h.kind] at hdecode
  exact ⟨rfl, rfl, rfl, Serialization.eq_of_decode_encode hnormal (by omega) hdecode⟩

end WireCall
