import WireCall.Frame.Stream
import WireCall.Proofs.Octets

namespace WireCall

/-!
# Frames taken off a stream

A header is read from exactly the bytes that are written for it, if it may be read at all: its
version is the current one, its length is at least that of a header and within the limit
(`Header.Sound`, `decode_eq_ok_iff`).  So a frame comes off a stream exactly if its bytes stand at
the front of what the stream delivers (`read_eq_ok_iff`); how the bytes are cut into chunks and what
comes behind the frame plays no part.
-/

namespace Header

/-- The header may be read: its version is the current one, and its length is at least that of a
header and within the limit. -/
structure Sound (maximum : UInt32) (h : Header) : Prop where
  version : h.version = currentVersion
  size_le : size ≤ h.fullLength.toNat
  le_maximum : h.fullLength ≤ maximum

instance (maximum : UInt32) (h : Header) : Decidable (h.Sound maximum) :=
  decidable_of_iff (h.version = currentVersion ∧ size ≤ h.fullLength.toNat ∧
    h.fullLength ≤ maximum) ⟨fun ⟨a, b, c⟩ => ⟨a, b, c⟩, fun ⟨a, b, c⟩ => ⟨a, b, c⟩⟩

theorem exists_bytes {bytes : Octets} (hlength : bytes.length = 17) :
    ∃ a b c d e f g h i j k l m n o p q,
      bytes = [a, b, c, d, e, f, g, h, i, j, k, l, m, n, o, p, q] :=
  match bytes, hlength with
  | [a, b, c, d, e, f, g, h, i, j, k, l, m, n, o, p, q], _ =>
    ⟨a, b, c, d, e, f, g, h, i, j, k, l, m, n, o, p, q, rfl⟩

theorem encode_eq (h : Header) :
    h.encode = [ProtocolFault.expectedMagic, h.version] ++
      (Octets.bigEndian 4 h.fullLength.toNat ++ ([h.kind.tag, h.compression, h.serialization] ++
        Octets.bigEndian 8 h.requestId.toNat)) := rfl

/-- Four bytes are the big-endian form of the number they are. -/
theorem bigEndian_fullLength (bytes : Octets) (hlength : bytes.length = 4) :
    Octets.bigEndian 4 (UInt32.ofNat (Octets.ofBigEndian bytes)).toNat = bytes := by
  have hlt : Octets.ofBigEndian bytes < 2 ^ 32 := by
    have h := Octets.ofBigEndian_lt bytes
    rwa [hlength] at h
  rw [UInt32.toNat_ofNat', Nat.mod_eq_of_lt hlt, ← hlength, Octets.bigEndian_ofBigEndian]

theorem bigEndian_requestId (bytes : Octets) (hlength : bytes.length = 8) :
    Octets.bigEndian 8 (UInt64.ofNat (Octets.ofBigEndian bytes)).toNat = bytes := by
  have hlt : Octets.ofBigEndian bytes < 2 ^ 64 := by
    have h := Octets.ofBigEndian_lt bytes
    rwa [hlength] at h
  rw [UInt64.toNat_ofNat', Nat.mod_eq_of_lt hlt, ← hlength, Octets.bigEndian_ofBigEndian]

/-- The length of a frame survives its four bytes. -/
theorem ofNat_ofBigEndian_fullLength (n : UInt32) :
    UInt32.ofNat (Octets.ofBigEndian (Octets.bigEndian 4 n.toNat)) = n := by
  rw [Octets.ofBigEndian_bigEndian, Nat.mod_eq_of_lt n.toNat_lt, UInt32.ofNat_toNat]

theorem ofNat_ofBigEndian_requestId (n : UInt64) :
    UInt64.ofNat (Octets.ofBigEndian (Octets.bigEndian 8 n.toNat)) = n := by
  rw [Octets.ofBigEndian_bigEndian, Nat.mod_eq_of_lt n.toNat_lt, UInt64.ofNat_toNat]

/-- The reader of headers accepts the bytes of the headers that may be read, and nothing else. -/
theorem decode_eq_ok_iff {maximum : UInt32} {bytes : Vector UInt8 17} {h : Header} :
    decode maximum bytes = .ok h ↔ bytes.toList = h.encode ∧ h.Sound maximum := by
  -- The bytes in the groups that are written together.
  have hgroups : bytes.toList = [bytes[0], bytes[1]] ++ ([bytes[2], bytes[3], bytes[4], bytes[5]] ++
      ([bytes[6], bytes[7], bytes[8]] ++ [bytes[9], bytes[10], bytes[11], bytes[12], bytes[13],
        bytes[14], bytes[15], bytes[16]])) := by
    obtain ⟨⟨bytes⟩, hlength⟩ := bytes
    obtain ⟨a, b, c, d, e, f, g, h, i, j, k, l, m, n, o, p, q, rfl⟩ := exists_bytes hlength
    rfl
  constructor
  · intro hdecode
    rw [decode] at hdecode
    split at hdecode
    · cases hdecode
    · rename_i hmagic
      split at hdecode
      · cases hdecode
      · rename_i hversion
        split at hdecode
        · cases hdecode
        · rename_i hsize
          split at hdecode
          · cases hdecode
          · rename_i hmaximum
            split at hdecode
            · cases hdecode
            · rename_i kind hkind
              obtain rfl := Except.ok.inj hdecode
              refine ⟨?_, Decidable.of_not_not hversion, Nat.le_of_not_lt hsize,
                UInt32.not_lt.mp hmaximum⟩
              rw [hgroups, encode_eq, bigEndian_fullLength _ rfl,
                bigEndian_requestId _ rfl, Decidable.of_not_not hmagic,
                FrameKind.ofTag?_eq_some_iff.mp hkind]
  · rintro ⟨hbytes, hsound⟩
    rw [hgroups, encode_eq] at hbytes
    obtain ⟨hfront, hbytes⟩ := List.append_inj hbytes rfl
    obtain ⟨hlength, hbytes⟩ := List.append_inj hbytes (by rw [Octets.length_bigEndian]; rfl)
    obtain ⟨htags, hid⟩ := List.append_inj hbytes rfl
    obtain ⟨hmagic, hversion⟩ := List.cons.inj hfront
    obtain ⟨hkind, htags⟩ := List.cons.inj htags
    obtain ⟨hcompression, hserialization⟩ := List.cons.inj htags
    rw [decode, hlength, hid, hmagic, (List.cons.inj hversion).1, hkind, hcompression,
      (List.cons.inj hserialization).1, ofNat_ofBigEndian_fullLength, ofNat_ofBigEndian_requestId,
      FrameKind.ofTag?_tag]
    rw [if_neg (by simp), if_neg (by simp [hsound.version]),
      if_neg (Nat.not_lt.mpr hsound.size_le), if_neg (UInt32.not_lt.mpr hsound.le_maximum)]

/-- No two headers are written alike. -/
theorem encode_injective {h h' : Header} (hencode : h.encode = h'.encode) : h = h' := by
  rw [encode_eq, encode_eq] at hencode
  -- The parts have fixed lengths, so equal bytes are equal part by part.
  obtain ⟨hfront, hencode⟩ := List.append_inj hencode rfl
  obtain ⟨hlength, hencode⟩ := List.append_inj hencode (by simp)
  obtain ⟨htags, hid⟩ := List.append_inj hencode rfl
  have hlength := congrArg (fun bytes => UInt32.ofNat (Octets.ofBigEndian bytes)) hlength
  have hid := congrArg (fun bytes => UInt64.ofNat (Octets.ofBigEndian bytes)) hid
  simp only [ofNat_ofBigEndian_fullLength, ofNat_ofBigEndian_requestId] at hlength hid
  simp only [List.cons.injEq] at hfront htags
  have hkind : h.kind = h'.kind := by
    have := FrameKind.ofTag?_tag h.kind
    rw [htags.1, FrameKind.ofTag?_tag] at this
    exact (Option.some.inj this).symm
  obtain ⟨version, fullLength, kind, compression, serialization, requestId⟩ := h
  simp only at hfront htags hlength hid hkind
  rw [hfront.2.1, hlength, hkind, htags.2.1, htags.2.2.1, hid]

end Header

namespace Frame

/-- The frame may be read, and its body is as long as the header says. -/
structure Sound (maximum : UInt32) (f : Frame) : Prop where
  header : f.header.Sound maximum
  body : f.body.length = f.header.bodyLength

/-- Frames whose headers tell their length cannot be confused, whatever follows them. -/
theorem encode_injective {f f' : Frame} {bytes bytes' : Octets}
    (hbody : f.body.length = f.header.bodyLength) (hbody' : f'.body.length = f'.header.bodyLength)
    (h : f.encode ++ bytes = f'.encode ++ bytes') : f = f' ∧ bytes = bytes' := by
  rw [encode, encode, List.append_assoc, List.append_assoc] at h
  obtain ⟨hheader, hrest⟩ := List.append_inj h (by simp)
  have hheader := Header.encode_injective hheader
  obtain ⟨hbodies, hbytes⟩ := List.append_inj hrest (by rw [hbody, hbody', hheader])
  obtain ⟨header, body⟩ := f
  simp only at hheader hbodies
  exact ⟨by rw [hheader, hbodies], hbytes⟩

/-- Chunks that hold the bytes hand them over, and keep those behind them. -/
theorem take?_of_flatten {s : Inbound} {front back : Octets} (hs : s.flatten = front ++ back) :
    ∃ rest, s.take? front.length = some (front, rest) ∧ rest.flatten = back := by
  have hlength : front.length ≤ s.flatten.length := by
    rw [hs, List.length_append]
    exact Nat.le_add_right ..
  obtain ⟨rest, htake, hrest⟩ := Inbound.take?_some hlength
  rw [hs, List.take_left] at htake
  rw [hs, List.drop_left] at hrest
  exact ⟨rest, htake, hrest⟩

/-- What is handed over stood at the front of the stream. -/
theorem flatten_of_take? {s rest : Inbound} {n : Nat} {bytes : Octets}
    (h : s.take? n = some (bytes, rest)) : s.flatten = bytes ++ rest.flatten := by
  by_cases hlength : n ≤ s.flatten.length
  · obtain ⟨rest', htake, hrest⟩ := Inbound.take?_some hlength
    rw [htake] at h
    obtain ⟨rfl, rfl⟩ := Prod.mk.inj (Option.some.inj h)
    rw [hrest, List.take_append_drop]
  · rw [Inbound.take?_none (Nat.lt_of_not_le hlength)] at h
    cases h

theorem toList_headerBytes (bytes : Octets) (hlength : bytes.length = 17) :
    (headerBytes bytes hlength).toList = bytes := rfl

/-- A frame that may be read is taken off a stream that starts with its bytes, however the stream
is cut. -/
theorem read_of_flatten {maximum : UInt32} {s : Inbound} {f : Frame} {bytes : Octets}
    (hsound : f.Sound maximum) (hs : s.flatten = f.encode ++ bytes) :
    ∃ rest, read maximum s = .ok (f, rest) ∧ rest.flatten = bytes := by
  -- Seventeen bytes of header come first, and the length in it tells how many follow.
  rw [encode, List.append_assoc] at hs
  obtain ⟨rest, htake, hrest⟩ := take?_of_flatten hs
  obtain ⟨rest', htake', hrest'⟩ := take?_of_flatten hrest
  rw [hsound.body] at htake'
  refine ⟨rest', ?_, hrest'⟩
  rw [read]
  split
  · rename_i hnone
    rw [Header.length_encode] at htake
    exact absurd (hnone.symm.trans htake) nofun
  · rename_i front back hfront
    rw [Header.length_encode] at htake
    obtain ⟨rfl, rfl⟩ := Prod.mk.inj (Option.some.inj (hfront.symm.trans htake))
    have hdecode : Header.decode maximum
        (headerBytes f.header.encode (Inbound.take?_length hfront)) = .ok f.header :=
      Header.decode_eq_ok_iff.mpr ⟨toList_headerBytes _ _, hsound.header⟩
    rw [hdecode]
    dsimp only
    rw [htake']

/-- A frame that was read is sound and stood at the front of the stream. -/
theorem sound_of_read {maximum : UInt32} {s rest : Inbound} {f : Frame}
    (h : read maximum s = .ok (f, rest)) :
    f.Sound maximum ∧ s.flatten = f.encode ++ rest.flatten := by
  -- Three things can go wrong in reading, and each of them yields no frame.
  rw [read] at h
  split at h
  · cases h
  · rename_i front back hfront
    split at h
    · cases h
    · rename_i header hdecode
      split at h
      · cases h
      · rename_i body rest' hbody
        obtain ⟨rfl, rfl⟩ := Prod.mk.inj (Except.ok.inj h)
        obtain ⟨hencode, hsound⟩ := Header.decode_eq_ok_iff.mp hdecode
        rw [toList_headerBytes] at hencode
        refine ⟨⟨hsound, Inbound.take?_length hbody⟩, ?_⟩
        rw [flatten_of_take? hfront, flatten_of_take? hbody, hencode, encode, List.append_assoc]

/-- A frame comes off a stream exactly if it may be read and its bytes stand at the front of what
the stream delivers. -/
theorem read_eq_ok_iff {maximum : UInt32} {s : Inbound} {f : Frame} :
    (∃ rest, read maximum s = .ok (f, rest)) ↔ f.Sound maximum ∧ f.encode <+: s.flatten := by
  constructor
  · rintro ⟨rest, hread⟩
    obtain ⟨hsound, hs⟩ := sound_of_read hread
    exact ⟨hsound, rest.flatten, hs.symm⟩
  · rintro ⟨hsound, bytes, hs⟩
    obtain ⟨rest, hread, -⟩ := read_of_flatten hsound hs.symm
    exact ⟨rest, hread⟩

end Frame
end WireCall
