import WireCall.Frame.Body
import WireCall.Proofs.Frame.Sequence
import WireCall.Proofs.Recovery

namespace WireCall

/-!
# The length that a frame announces

The length of a frame is kept in 32 bits.  As long as a header and its body come to less than
`2^32` bytes, the frame announces its own length and is taken off a stream unchanged.  Beyond that
the length has come round: the frame announces a smaller one (`toNat_fullLength_ofBody`), which a
reader believes.  It refuses the frame (`split_ofBody_of_lt_size`), or takes the beginning of the
body for all of it and the rest for what follows (`split_ofBody_append`).

Main statement: the two cases of a frame that was made for a body (`Frame.read_ofBody`).
-/

namespace Frame

/-- The frame that is made for a body. -/
def ofBody (kind : FrameKind) (compression serialization : UInt8) (requestId : UInt64)
    (body : Octets) : Frame :=
  ⟨.forBody kind compression serialization requestId body.length, body⟩

/-- Every message is put into a frame that is made for its body. -/
theorem eq_ofBody_of_toFrame {m : Message} {compression serialization : UInt8} {f : Frame}
    (h : m.toFrame compression serialization = .ok f) :
    f = ofBody m.kind compression serialization m.requestId f.body := by
  obtain ⟨z, -, h⟩ := bind_eq_ok_iff.mp h
  obtain ⟨c, -, h⟩ := bind_eq_ok_iff.mp h
  obtain rfl := Except.ok.inj h
  rfl

variable {kind : FrameKind} {compression serialization : UInt8} {requestId : UInt64}
  {body : Octets}

/-- The length written into a header wraps at 2^32. -/
theorem toNat_fullLength_ofBody :
    (ofBody kind compression serialization requestId body).header.fullLength.toNat =
      (17 + body.length) % 4294967296 :=
  UInt32.toNat_ofNat'

/-- The length read off a header is that of the body, but for the wrap. -/
theorem bodyLength_ofBody :
    (ofBody kind compression serialization requestId body).header.bodyLength =
      (17 + body.length) % 4294967296 - 17 := by
  rw [Header.bodyLength, toNat_fullLength_ofBody]
  rfl

/-- A header made for a body may be read, unless its length has come round to less than that of a
header. -/
theorem sound_header_ofBody (h : 17 ≤ (17 + body.length) % 4294967296) :
    (ofBody kind compression serialization requestId body).header.Sound 4294967295 where
  version := rfl
  size_le := by
    rw [toNat_fullLength_ofBody]
    exact h
  le_maximum := by
    rw [UInt32.le_iff_toNat_le]
    exact Nat.le_of_lt_succ (UInt32.toNat_lt _)

/-- A frame short of the wrap is sound under the largest limit. -/
theorem sound_ofBody (h : 17 + body.length < 4294967296) :
    (ofBody kind compression serialization requestId body).Sound 4294967295 where
  header := sound_header_ofBody (by omega)
  body := by
    rw [bodyLength_ofBody]
    show body.length = _
    omega

/-- A frame whose length has come round to less than that of a header is refused. -/
theorem split_ofBody_of_lt_size (kind : FrameKind) (compression serialization : UInt8)
    (requestId : UInt64) {body : Octets} (h : (17 + body.length) % 4294967296 < 17)
    (bytes : Octets) : ∃ cause, split 4294967295
      ((ofBody kind compression serialization requestId body).encode ++ bytes) =
        .error (.protocol cause) := by
  rw [encode, List.append_assoc]
  refine split_of_refused (Header.length_encode _) (.inr (.inr (.inl ?_))) _
  rw [Header.take_drop_encode, Octets.ofBigEndian_bigEndian, Nat.mod_eq_of_lt (UInt32.toNat_lt _),
    toNat_fullLength_ofBody]
  exact h

/-- The body of any other frame ends where the announced length says, and what is left of it is
taken for what follows the frame. -/
theorem split_ofBody_append (kind : FrameKind) (compression serialization : UInt8)
    (requestId : UInt64) {front back : Octets}
    (h : 17 + front.length = (17 + (front ++ back).length) % 4294967296) (bytes : Octets) :
    split 4294967295
      ((ofBody kind compression serialization requestId (front ++ back)).encode ++ bytes) =
        .ok (⟨(ofBody kind compression serialization requestId (front ++ back)).header, front⟩,
          back ++ bytes) := by
  let cut : Frame :=
    ⟨(ofBody kind compression serialization requestId (front ++ back)).header, front⟩
  have hsound : cut.Sound 4294967295 := by
    refine ⟨sound_header_ofBody (by omega), ?_⟩
    rw [bodyLength_ofBody, ← h]
    exact (Nat.add_sub_cancel_left 17 _).symm
  have hbytes : (ofBody kind compression serialization requestId (front ++ back)).encode ++ bytes =
      cut.encode ++ (back ++ bytes) := by
    simp only [encode, ofBody, cut, List.append_assoc]
  rw [hbytes, split_append hsound]

/-- **Announced lengths.**  Every message is put into a frame made for its body.  Such a frame
announces its own length exactly if this is less than `2^32`; then it is taken off a stream as it
is, with nothing lost of what follows it.  A longer frame announces its length modulo `2^32`: it is
refused if that is less than the length of a header, and otherwise a frame with a shorter body is
read in its place, and the rest of the body is what the stream goes on with. -/
theorem read_ofBody (kind : FrameKind) (compression serialization : UInt8) (requestId : UInt64)
    (body : Octets) {s : Inbound} {bytes : Octets}
    (hs : s.flatten = (ofBody kind compression serialization requestId body).encode ++ bytes) :
    (∀ (m : Message) (c z : UInt8) (f : Frame), m.toFrame c z = .ok f →
      f = ofBody m.kind c z m.requestId f.body) ∧
    ((ofBody kind compression serialization requestId body).header.fullLength.toNat =
      17 + body.length ↔ 17 + body.length < 4294967296) ∧
    (17 + body.length < 4294967296 → ∃ rest, rest.flatten = bytes ∧
      read 4294967295 s = .ok (ofBody kind compression serialization requestId body, rest)) ∧
    (4294967296 ≤ 17 + body.length → (17 + body.length) % 4294967296 < 17 →
      ∃ cause, read 4294967295 s = .error (.protocol cause)) ∧
    (4294967296 ≤ 17 + body.length → 17 ≤ (17 + body.length) % 4294967296 →
      ∃ front back rest, body = front ++ back ∧
        17 + front.length = (17 + body.length) % 4294967296 ∧ rest.flatten = back ++ bytes ∧
        read 4294967295 s =
          .ok (⟨(ofBody kind compression serialization requestId body).header, front⟩, rest)) := by
  refine ⟨fun m c z f => eq_ofBody_of_toFrame, ?_, ?_, ?_, ?_⟩
  · rw [toNat_fullLength_ofBody]
    omega
  · intro hshort
    obtain ⟨rest, hread, hrest⟩ := read_of_flatten (sound_ofBody hshort) hs
    exact ⟨rest, hrest, hread⟩
  · intro _ hrefused
    obtain ⟨cause, hsplit⟩ := split_ofBody_of_lt_size kind compression serialization requestId
      hrefused bytes
    rw [← hs] at hsplit
    exact ⟨cause, read_of_split_error hsplit⟩
  · intro hlong hsize
    -- As many bytes of the body are read as are announced behind the header.
    obtain ⟨front, back, rfl, hfront⟩ : ∃ front back, body = front ++ back ∧
        17 + front.length = (17 + body.length) % 4294967296 :=
      ⟨body.take ((17 + body.length) % 4294967296 - 17),
        body.drop ((17 + body.length) % 4294967296 - 17), (List.take_append_drop ..).symm,
        by rw [List.length_take]; omega⟩
    have hsplit := split_ofBody_append kind compression serialization requestId hfront bytes
    rw [← hs] at hsplit
    obtain ⟨rest, hread, hrest⟩ := read_of_split hsplit
    exact ⟨front, back, rest, rfl, hfront, hrest, hread⟩

/-- A frame with a body of five bytes announces 22 and is read from two chunks. -/
theorem read_ofBody_sample :
    (ofBody .request 0 1 7 [1, 2, 3, 4, 5]).header.fullLength.toNat = 22 ∧
      ∃ rest, rest.flatten = [0x1d] ∧
        read 4294967295 [(ofBody .request 0 1 7 [1, 2, 3, 4, 5]).encode, [0x1d]] =
          .ok (ofBody .request 0 1 7 [1, 2, 3, 4, 5], rest) := by
  have hs : List.flatten [(ofBody .request 0 1 7 [1, 2, 3, 4, 5]).encode, [0x1d]] =
      (ofBody .request 0 1 7 [1, 2, 3, 4, 5]).encode ++ [0x1d] := rfl
  have h := read_ofBody .request 0 1 7 [1, 2, 3, 4, 5] hs
  exact ⟨h.2.1.mpr (by decide), h.2.2.1 (by decide)⟩

/-- A frame with a body of `2^32` bytes announces a length of 17, and is read as one without a
body. -/
theorem read_ofBody_wraps :
    (ofBody .request 0 0 1 (List.replicate 4294967296 0)).header.fullLength.toNat ≠
        17 + (List.replicate 4294967296 (0 : UInt8)).length ∧
      ∃ f rest, read 4294967295 [(ofBody .request 0 0 1 (List.replicate 4294967296 0)).encode] =
          .ok (f, rest) ∧ f.body ≠ List.replicate 4294967296 0 := by
  generalize hbody : List.replicate 4294967296 (0 : UInt8) = body
  have hlength : body.length = 4294967296 := by rw [← hbody, List.length_replicate]
  have hs : List.flatten [(ofBody .request 0 0 1 body).encode] =
      (ofBody .request 0 0 1 ([] ++ body)).encode ++ [] := by
    rw [List.flatten_singleton, List.append_nil, List.nil_append]
  -- A body of 2^32 bytes wraps to the length of an empty one, so the frame is read with no body at
  -- all.
  have hfront : 17 + ([] : Octets).length = (17 + ([] ++ body : Octets).length) % 4294967296 := by
    rw [List.nil_append, hlength]
    decide
  have hsplit := split_ofBody_append .request 0 0 1 hfront []
  rw [← hs] at hsplit
  obtain ⟨rest, hread, -⟩ := read_of_split hsplit
  refine ⟨?_, _, rest, hread, ?_⟩
  · rw [toNat_fullLength_ofBody, hlength]
    decide
  · show [] ≠ body
    rintro rfl
    cases hlength

end Frame
end WireCall
