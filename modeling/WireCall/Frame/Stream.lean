import WireCall.Frame.Header

namespace WireCall

/-!
# Frames on a stream

A frame is a header and the bytes of its body.  A stream delivers bytes in chunks of any size;
`Inbound.take?` gathers an exact number of bytes across chunks, and `Frame.read` takes one frame
off the front of a stream.  A frame is never returned in part: the stream either holds all of it or
fails with the end of the stream.

Main statement: what is gathered does not depend on where the chunks are cut
(`Inbound.take?_some`, `Inbound.take?_none`).
-/

/-- A header and the bytes of the body that follows it. -/
structure Frame where
  header : Header
  body : Octets
deriving DecidableEq, Repr, Inhabited

/-- The frame as bytes: the header just as it is, then the body. -/
def Frame.encode (f : Frame) : Octets := f.header.encode ++ f.body

/-- The bytes that a stream will deliver before it ends, cut into the chunks in which they
arrive. -/
abbrev Inbound := List Octets

namespace Inbound

/-- Gathers `n` bytes, with the chunks gathered before in reverse order. -/
def gather : Nat → List Octets → Inbound → Option (Octets × Inbound)
  | 0, got, rest => some (got.reverse.flatten, rest)
  | _ + 1, _, [] => none
  | n + 1, got, chunk :: rest =>
    if n + 1 < chunk.length then
      let cut := chunk.splitAt (n + 1)
      some ((cut.1 :: got).reverse.flatten, cut.2 :: rest)
    else gather (n + 1 - chunk.length) (chunk :: got) rest

/-- The next `n` bytes and the stream after them; nothing when it ends before. -/
def take? (n : Nat) (s : Inbound) : Option (Octets × Inbound) := gather n [] s

/-- Gathering across chunk borders yields the next bytes of the stream behind those held already,
and leaves exactly the bytes after them. -/
theorem gather_some {n : Nat} {got : List Octets} {s : Inbound} (h : n ≤ s.flatten.length) :
    ∃ rest, gather n got s = some (got.reverse.flatten ++ s.flatten.take n, rest) ∧
      rest.flatten = s.flatten.drop n := by
  fun_induction gather n got s with
  | case1 got s => exact ⟨s, by simp⟩
  | case2 n got => simp at h
  | case3 n got chunk rest short cut =>
    -- The chunk holds more than is missing: its tail goes back to the stream.
    refine ⟨cut.2 :: rest, ?_, ?_⟩
    · simp [cut, List.take_append_of_le_length (Nat.le_of_lt short)]
    · simp [cut, List.drop_append_of_le_length (Nat.le_of_lt short)]
  | case4 n got chunk rest long ih =>
    -- The chunk is used up, and what it does not hold is gathered from the rest.
    have enough : n + 1 - chunk.length ≤ rest.flatten.length := by
      simp only [List.flatten_cons, List.length_append] at h
      omega
    obtain ⟨left, taken, after⟩ := ih enough
    refine ⟨left, ?_, ?_⟩
    · rw [taken, List.flatten_cons, List.take_append,
        List.take_of_length_le (Nat.le_of_not_lt long)]
      simp
    · rw [after, List.flatten_cons, List.drop_append,
        List.drop_of_length_le (Nat.le_of_not_lt long)]
      simp

/-- Gathering more than the stream holds fails, at whatever chunk it runs dry. -/
theorem gather_none {n : Nat} {got : List Octets} {s : Inbound} (h : s.flatten.length < n) :
    gather n got s = none := by
  fun_induction gather n got s with
  | case1 got s => simp at h
  | case2 n got => rfl
  | case3 n got chunk rest short cut =>
    simp only [List.flatten_cons, List.length_append] at h
    omega
  | case4 n got chunk rest long ih =>
    apply ih
    simp only [List.flatten_cons, List.length_append] at h
    omega

/-- Taking no more bytes than there are yields the first of them and leaves the others, however they
are cut. -/
theorem take?_some {n : Nat} {s : Inbound} (h : n ≤ s.flatten.length) :
    ∃ rest, s.take? n = some (s.flatten.take n, rest) ∧ rest.flatten = s.flatten.drop n := by
  obtain ⟨rest, taken, after⟩ := @gather_some n [] s h
  exact ⟨rest, by simpa [Inbound.take?] using taken, after⟩

/-- Taking more bytes than the stream holds yields none. -/
theorem take?_none {n : Nat} {s : Inbound} (h : s.flatten.length < n) : s.take? n = none :=
  gather_none h

/-- What is taken has the length asked for. -/
theorem take?_length {n : Nat} {s rest : Inbound} {bytes : Octets}
    (h : s.take? n = some (bytes, rest)) : bytes.length = n := by
  rcases Nat.lt_or_ge s.flatten.length n with short | enough
  · simp [take?_none short] at h
  · obtain ⟨rest', taken, -⟩ := take?_some enough
    rw [taken] at h
    cases h
    rw [List.length_take, Nat.min_eq_left enough]

end Inbound

namespace Frame

/-- The 17 bytes of a header as a vector. -/
def headerBytes (bytes : Octets) (h : bytes.length = 17) : Vector UInt8 17 :=
  ⟨bytes.toArray, by simpa using h⟩

/-- Takes exactly one frame off the front of a stream.  The header is judged as soon as it is
complete; the stream has to hold the whole body. -/
def read (maximum : UInt32) (s : Inbound) : Except Fault (Frame × Inbound) :=
  match taken : s.take? 17 with
  | none => .error (.transport .endOfStream)
  | some (bytes, rest) =>
    match Header.decode maximum (headerBytes bytes (Inbound.take?_length taken)) with
    | .error cause => .error (.protocol cause)
    | .ok header =>
      match rest.take? header.bodyLength with
      | none => .error (.transport .endOfStream)
      | some (body, rest) => .ok (⟨header, body⟩, rest)

end Frame
end WireCall
