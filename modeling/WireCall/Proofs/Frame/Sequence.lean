import WireCall.Proofs.Frame.Stream
import WireCall.Proofs.Recovery

namespace WireCall

/-!
# Frames one after the other

A stream carries frame after frame.  What a reader makes of it is a matter of the bytes alone:
`Frame.split` cuts the first frame off the bytes, and `map_flatten_read` says that reading from
chunks does the same, whatever the chunks are.  From this follows how the readings of several frames
go on (`readMany_append`): they give the frames whose bytes are there, each of them unchanged, and
then behave as if the stream had started behind the last one.

Main statement: what follows the frames is itself read as a frame, or is the beginning of one and
ends early, or is refused for its first 17 bytes (`readMany_frames`).
-/

namespace Header

/-- The bytes do not start with a header that may be read: the magic byte, the version, the length
or the kind is wrong. -/
def Refused (maximum : UInt32) (bytes : Octets) : Prop :=
  bytes[0]? ≠ some ProtocolFault.expectedMagic ∨ bytes[1]? ≠ some currentVersion ∨
    Octets.ofBigEndian ((bytes.drop 2).take 4) < size ∨
    maximum.toNat < Octets.ofBigEndian ((bytes.drop 2).take 4) ∨
    ∀ kind : FrameKind, bytes[6]? ≠ some kind.tag

/-- The length stands in four bytes behind magic number and version. -/
theorem take_drop_encode (h : Header) :
    (h.encode.drop 2).take 4 = Octets.bigEndian 4 h.fullLength.toNat := by
  rw [encode_eq]
  show (Octets.bigEndian 4 h.fullLength.toNat ++ _).take 4 = _
  exact List.take_left' (Octets.length_bigEndian 4 _)

/-- The header of a sound frame is not refused. -/
theorem not_refused_encode {maximum : UInt32} {h : Header} (hsound : h.Sound maximum) :
    ¬ Refused maximum h.encode := by
  have hlength : Octets.ofBigEndian ((h.encode.drop 2).take 4) = h.fullLength.toNat := by
    rw [take_drop_encode, Octets.ofBigEndian_bigEndian, Nat.mod_eq_of_lt h.fullLength.toNat_lt]
  have hmaximum := UInt32.le_iff_toNat_le.mp hsound.le_maximum
  have hsize := hsound.size_le
  rintro (hmagic | hversion | hshort | hlong | hkind)
  · exact hmagic rfl
  · exact hversion (congrArg some hsound.version)
  · omega
  · omega
  · exact hkind h.kind rfl

/-- The bytes of a header are either read or found to be wrong. -/
theorem decode_of_refused {maximum : UInt32} {bytes : Vector UInt8 17}
    (hrefused : Refused maximum bytes.toList) : ∃ cause, decode maximum bytes = .error cause := by
  cases hdecode : decode maximum bytes with
  | error cause => exact ⟨cause, rfl⟩
  | ok h =>
    obtain ⟨hbytes, hsound⟩ := decode_eq_ok_iff.mp hdecode
    rw [hbytes] at hrefused
    exact absurd hrefused (not_refused_encode hsound)

end Header

namespace Frame

/-! ### One frame -/

/-- The frame at the front of some bytes, with the bytes behind it. -/
def split (maximum : UInt32) (bytes : Octets) : Except Fault (Frame × Octets) :=
  if h : 17 ≤ bytes.length then
    match Header.decode maximum (headerBytes (bytes.take 17) (List.length_take_of_le h)) with
    | .error cause => .error (.protocol cause)
    | .ok header =>
      if header.bodyLength ≤ (bytes.drop 17).length then
        .ok (⟨header, (bytes.drop 17).take header.bodyLength⟩,
          (bytes.drop 17).drop header.bodyLength)
      else .error (.transport .endOfStream)
  else .error (.transport .endOfStream)

/-- Reading from chunks is cutting the bytes. -/
theorem map_flatten_read (maximum : UInt32) (s : Inbound) :
    (read maximum s).map (fun r => (r.1, r.2.flatten)) = split maximum s.flatten := by
  by_cases hhead : 17 ≤ s.flatten.length
  · obtain ⟨rest, htake, hrest⟩ := Inbound.take?_some hhead
    rw [read, split, dif_pos hhead]
    split
    · rename_i hnone
      cases hnone.symm.trans htake
    · rename_i front back hfront
      obtain ⟨rfl, rfl⟩ := Prod.mk.inj (Option.some.inj (hfront.symm.trans htake))
      rw [← hrest]
      cases hdecode : Header.decode maximum
        (headerBytes (s.flatten.take 17) (List.length_take_of_le hhead)) with
      | error cause => rfl
      | ok header =>
        -- The header is there, so the body decides.
        dsimp only
        by_cases hbody : header.bodyLength ≤ back.flatten.length
        · obtain ⟨rest', htake', hrest'⟩ := Inbound.take?_some hbody
          rw [htake', if_pos hbody, ← hrest']
          rfl
        · rw [Inbound.take?_none (Nat.lt_of_not_le hbody), if_neg hbody]
          rfl
  · have hnone := Inbound.take?_none (Nat.lt_of_not_le hhead)
    rw [read, split, dif_neg hhead]
    split
    · rfl
    · rename_i front back hfront
      cases hnone.symm.trans hfront

/-- Reading from chunks finds the frame that splitting the bytes finds, and leaves the same bytes.
-/
theorem read_of_split {maximum : UInt32} {s : Inbound} {f : Frame} {bytes : Octets}
    (h : split maximum s.flatten = .ok (f, bytes)) :
    ∃ rest, read maximum s = .ok (f, rest) ∧ rest.flatten = bytes := by
  rw [← map_flatten_read] at h
  obtain ⟨⟨g, rest⟩, hread, hpair⟩ := map_eq_ok_iff.mp h
  obtain ⟨rfl, rfl⟩ := Prod.mk.inj hpair
  exact ⟨rest, hread, rfl⟩

/-- Reading from chunks fails as splitting the bytes does. -/
theorem read_of_split_error {maximum : UInt32} {s : Inbound} {fault : Fault}
    (h : split maximum s.flatten = .error fault) : read maximum s = .error fault := by
  rw [← map_flatten_read] at h
  cases hread : read maximum s with
  | ok r =>
    rw [hread] at h
    cases h
  | error cause =>
    rw [hread] at h
    rw [Except.error.inj h]

/-- A sound frame is split off whatever follows it. -/
theorem split_append {maximum : UInt32} {f : Frame} (hsound : f.Sound maximum) (bytes : Octets) :
    split maximum (f.encode ++ bytes) = .ok (f, bytes) := by
  have hflatten : List.flatten [f.encode ++ bytes] = f.encode ++ bytes := List.flatten_singleton
  obtain ⟨rest, hread, hrest⟩ := read_of_flatten hsound hflatten
  rw [← hflatten, ← map_flatten_read, hread]
  show Except.ok (f, rest.flatten) = _
  rw [hrest]

/-- The beginning of a frame is not a frame. -/
theorem split_of_cutShort {maximum : UInt32} {f : Frame} {bytes : Octets} (hsound : f.Sound maximum)
    (hcut : bytes <+: f.encode) (hne : bytes ≠ f.encode) :
    split maximum bytes = .error (.transport .endOfStream) := by
  obtain ⟨missing, hmissing⟩ := hcut
  have hshort : bytes.length < f.encode.length := by
    rw [← hmissing, List.length_append]
    have hpos : missing ≠ [] := by
      rintro rfl
      exact hne (by rwa [List.append_nil] at hmissing)
    have := List.length_pos_iff.mpr hpos
    omega
  rw [split]
  split
  · rename_i hhead
    -- All of the header is there: it is the one of `f`, and the body ends early.
    have hfront : bytes.take 17 = f.header.encode := by
      have htake := congrArg (List.take 17) hmissing
      have hheader : f.header.encode.length = 17 := f.header.length_encode
      rwa [List.take_append_of_le_length hhead, encode, List.take_left' hheader] at htake
    have hdecode : Header.decode maximum
        (headerBytes (bytes.take 17) (List.length_take_of_le hhead)) = .ok f.header :=
      Header.decode_eq_ok_iff.mpr ⟨hfront, hsound.header⟩
    rw [hdecode]
    dsimp only
    rw [if_neg]
    have hbody := hsound.body
    rw [encode, List.length_append, Header.length_encode, Header.size] at hshort
    rw [List.length_drop]
    omega
  · rfl

/-- A header that may not be read is refused as soon as it is complete. -/
theorem split_of_refused {maximum : UInt32} {front : Octets} (hlength : front.length = 17)
    (hrefused : Header.Refused maximum front) (bytes : Octets) :
    ∃ cause, split maximum (front ++ bytes) = .error (.protocol cause) := by
  have hhead : 17 ≤ (front ++ bytes).length := by
    rw [List.length_append]
    omega
  have htake : (front ++ bytes).take 17 = front := List.take_left' hlength
  have hbytes : Header.Refused maximum (headerBytes ((front ++ bytes).take 17)
      (List.length_take_of_le hhead)).toList := by
    rw [toList_headerBytes, htake]
    exact hrefused
  obtain ⟨cause, hdecode⟩ := Header.decode_of_refused hbytes
  refine ⟨cause, ?_⟩
  rw [split, dif_pos hhead, hdecode]

/-! ### Several frames -/

/-- Reads frame after frame, at most `count` of them: the frames, and the stream behind them or the
failure to read one more. -/
def readMany (maximum : UInt32) : Nat → Inbound → List Frame × Except Fault Inbound
  | 0, s => ([], .ok s)
  | count + 1, s =>
    match read maximum s with
    | .error fault => ([], .error fault)
    | .ok (f, rest) =>
      let (frames, last) := readMany maximum count rest
      (f :: frames, last)

variable {maximum : UInt32}

/-- Where no frame can be split off, reading on yields none. -/
theorem readMany_of_error {s : Inbound} {fault : Fault}
    (h : split maximum s.flatten = .error fault) (count : Nat) :
    readMany maximum (count + 1) s = ([], .error fault) := by
  rw [readMany, read_of_split_error h]

/-- Where a frame can be split off, reading on yields it and then what the rest yields. -/
theorem readMany_of_ok {s : Inbound} {f : Frame} {bytes : Octets}
    (h : split maximum s.flatten = .ok (f, bytes)) :
    ∃ rest : Inbound, rest.flatten = bytes ∧ ∀ count, readMany maximum (count + 1) s =
      (f :: (readMany maximum count rest).1, (readMany maximum count rest).2) := by
  obtain ⟨rest, hread, hrest⟩ := read_of_split h
  refine ⟨rest, hrest, fun count => ?_⟩
  rw [readMany, hread]

/-- Two streams with the same bytes are read alike. -/
theorem readMany_congr (count : Nat) {s t : Inbound} (h : s.flatten = t.flatten) :
    (readMany maximum count s).1 = (readMany maximum count t).1 ∧
      (readMany maximum count s).2.map List.flatten =
        (readMany maximum count t).2.map List.flatten := by
  -- By induction on the number of frames: what the chunks hold decides each of them.
  induction count generalizing s t with
  | zero =>
    show [] = [] ∧ Except.ok s.flatten = Except.ok t.flatten
    rw [h]
    exact ⟨rfl, rfl⟩
  | succ count ih =>
    cases hsplit : split maximum s.flatten with
    | error fault =>
      rw [readMany_of_error hsplit, readMany_of_error (h ▸ hsplit)]
      exact ⟨rfl, rfl⟩
    | ok r =>
      obtain ⟨rest, hrest, hs⟩ := readMany_of_ok hsplit
      obtain ⟨rest', hrest', ht⟩ := readMany_of_ok (h ▸ hsplit)
      obtain ⟨hframes, hlast⟩ := ih (hrest.trans hrest'.symm)
      rw [hs, ht]
      exact ⟨congrArg (List.cons r.1) hframes, hlast⟩

/-- Frames that may be read come off the stream in order, and the stream is left behind the last
one. -/
theorem readMany_append {frames : List Frame} (hsound : ∀ f ∈ frames, f.Sound maximum)
    {s t : Inbound} (hs : s.flatten = frames.flatMap encode ++ t.flatten) (count : Nat) :
    (readMany maximum (frames.length + count) s).1 =
        frames ++ (readMany maximum count t).1 ∧
      (readMany maximum (frames.length + count) s).2.map List.flatten =
        (readMany maximum count t).2.map List.flatten := by
  -- By induction on the frames: each is split off before the next.
  induction frames generalizing s with
  | nil =>
    rw [List.length_nil, Nat.zero_add, List.nil_append]
    exact readMany_congr count hs
  | cons f frames ih =>
    rw [List.flatMap_cons, List.append_assoc] at hs
    have hsplit : split maximum s.flatten = .ok (f, frames.flatMap encode ++ t.flatten) := by
      rw [hs]
      exact split_append (hsound f (by simp)) _
    obtain ⟨rest, hrest, hread⟩ := readMany_of_ok hsplit
    obtain ⟨hframes, hlast⟩ := ih (fun g hg => hsound g (by simp [hg])) hrest
    rw [List.length_cons, Nat.add_right_comm, hread, List.cons_append]
    exact ⟨congrArg (List.cons f) hframes, hlast⟩

/-- What follows the frames and is no frame ends the reading. -/
theorem readMany_append_error {frames : List Frame} (hsound : ∀ f ∈ frames, f.Sound maximum)
    {s : Inbound} {bytes : Octets} (hs : s.flatten = frames.flatMap encode ++ bytes) {fault : Fault}
    (hfault : split maximum bytes = .error fault) (count : Nat) :
    readMany maximum (frames.length + (count + 1)) s = (frames, .error fault) := by
  have hbytes : List.flatten [bytes] = bytes := List.flatten_singleton
  rw [← hbytes] at hs hfault
  obtain ⟨hframes, hlast⟩ := readMany_append hsound hs (count + 1)
  rw [readMany_of_error hfault, List.append_nil] at hframes
  rw [readMany_of_error hfault] at hlast
  refine Prod.ext hframes ?_
  -- The outcome is that of the bytes alone, so it is a fault whatever has come before.
  cases hsecond : (readMany maximum (frames.length + (count + 1)) s).2 with
  | error cause =>
    rw [hsecond] at hlast
    exact congrArg Except.error (Except.error.inj hlast)
  | ok rest =>
    rw [hsecond] at hlast
    cases hlast

/-- **Frames on a stream.**  From a stream that starts with the bytes of some frames, in chunks of
any size, these frames are read in order and unchanged, and reading goes on as from a stream of what
follows.  If that is the beginning of a frame, reading ends with the stream; if its first 17 bytes
are refused, reading ends with them, whatever comes behind. -/
theorem readMany_frames {frames : List Frame} (hsound : ∀ f ∈ frames, f.Sound maximum)
    {s : Inbound} {bytes : Octets} (hs : s.flatten = frames.flatMap encode ++ bytes) :
    (∀ (t : Inbound) (count : Nat), t.flatten = bytes →
      (readMany maximum (frames.length + count) s).1 = frames ++ (readMany maximum count t).1 ∧
      (readMany maximum (frames.length + count) s).2.map List.flatten =
        (readMany maximum count t).2.map List.flatten) ∧
    (∀ (f : Frame) (count : Nat), f.Sound maximum → bytes <+: f.encode → bytes ≠ f.encode →
      readMany maximum (frames.length + (count + 1)) s =
        (frames, .error (.transport .endOfStream))) ∧
    ∀ front after : Octets, bytes = front ++ after → front.length = 17 →
      Header.Refused maximum front → ∃ cause, ∀ count,
        readMany maximum (frames.length + (count + 1)) s = (frames, .error (.protocol cause)) := by
  refine ⟨?_, ?_, ?_⟩
  · rintro t count rfl
    exact readMany_append hsound hs count
  · intro f count hf hcut hne
    exact readMany_append_error hsound hs (split_of_cutShort hf hcut hne) count
  · rintro front after rfl hlength hrefused
    obtain ⟨cause, hsplit⟩ := split_of_refused hlength hrefused after
    exact ⟨cause, readMany_append_error hsound hs hsplit⟩

/-- A probe, which has no body. -/
def probe : Frame := ⟨.forBody .ping 0 0 7 0, []⟩

/-- A frame whose body looks like a frame. -/
def nesting : Frame := ⟨.forBody .request 0 1 9 17, probe.encode⟩

/-- Two frames in odd chunks are read, and then the stream ends within a third one, or goes on with
a wrong byte. -/
theorem readMany_frames_sample :
    probe.Sound 64 ∧ nesting.Sound 64 ∧
      readMany 64 3
          [probe.encode ++ nesting.encode.take 5, nesting.encode.drop 5, probe.encode.take 16] =
        ([probe, nesting], .error (.transport .endOfStream)) ∧
      ∃ cause, readMany 64 3 [probe.encode, nesting.encode ++ [0], probe.encode.drop 1] =
        ([probe, nesting], .error (.protocol cause)) := by
  have hprobe : probe.Sound 64 := ⟨by decide, rfl⟩
  have hnesting : nesting.Sound 64 := ⟨by decide, rfl⟩
  have hsound : ∀ f ∈ [probe, nesting], f.Sound 64 := by
    intro f hf
    simp only [List.mem_cons, List.not_mem_nil, or_false] at hf
    rcases hf with rfl | rfl
    · exact hprobe
    · exact hnesting
  have hshort : List.flatten
      [probe.encode ++ nesting.encode.take 5, nesting.encode.drop 5, probe.encode.take 16] =
        [probe, nesting].flatMap encode ++ probe.encode.take 16 := by decide
  have hwrong : List.flatten [probe.encode, nesting.encode ++ [0], probe.encode.drop 1] =
      [probe, nesting].flatMap encode ++ 0 :: probe.encode.drop 1 := by decide
  refine ⟨hprobe, hnesting, ?_, ?_⟩
  · exact (readMany_frames hsound hshort).2.1 probe 0 hprobe (List.take_prefix 16 _) (by decide)
  · obtain ⟨cause, hread⟩ := (readMany_frames hsound hwrong).2.2 (0 :: probe.encode.drop 1) []
      (by decide) (by decide) (.inl (by decide))
    exact ⟨cause, hread 0⟩

end Frame
end WireCall
