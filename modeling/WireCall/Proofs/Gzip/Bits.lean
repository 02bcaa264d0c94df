import WireCall.Gzip.PrefixCode

namespace WireCall

/-!
# Bits written and read back

`BitSource.Shows s bits` says that `bits` are the unread bits of the source and that fewer than
eight of them belong to a byte that has been taken up.  Every reader is described by what it takes
off these bits: a number (`number_of_shows`), a word of a code (`readSymbol_of_shows`), and the
bits up to the next whole byte (`rest_align_of_shows`).

On the other side stands the sink: its bytes hold the bits that were written and then fewer than
eight zeros (`flatMap_finish`).
-/

/-! ### Numbers -/

/-- Zeros on top do not change a number. -/
theorem natOfBits_append_replicate (bits : List Bool) (count : Nat) :
    natOfBits (bits ++ List.replicate count false) = natOfBits bits := by
  induction bits with
  | nil =>
    induction count with
    | zero => rfl
    | succ count ih =>
      show 0 + 2 * natOfBits (List.replicate count false) = 0
      rw [List.nil_append] at ih
      rw [ih]
      rfl
  | cons b bits ih => rw [List.cons_append, natOfBits, ih, natOfBits]

@[simp] theorem length_bitsOfNat (width n : Nat) : (bitsOfNat width n).length = width := by
  induction width generalizing n with
  | zero => rfl
  | succ width ih => rw [bitsOfNat, List.length_cons, ih]

@[simp] theorem length_bitsOfByte (b : UInt8) : (bitsOfByte b).length = 8 := rfl

/-- Eight bits packed into a byte come out of it in the same order. -/
theorem bitsOfByte_ofNat_natOfBits {bits : List Bool} (hlength : bits.length = 8) :
    bitsOfByte (UInt8.ofNat (natOfBits bits)) = bits := by
  match bits, hlength with
  | [a, b, c, d, e, f, g, h], _ => exact BitSink.bitsOfByte_natOfBits a b c d e f g h

/-- The bits of a byte are those of its number. -/
theorem natOfBits_bitsOfByte (b : UInt8) : natOfBits (bitsOfByte b) = b.toNat := by
  have hbytes : ∀ n < 256, natOfBits (bitsOfByte (UInt8.ofNat n)) = n := by decide +kernel
  have hbyte := hbytes b.toNat b.toNat_lt
  rwa [UInt8.ofNat_toNat] at hbyte

/-- A byte is known by its bits. -/
theorem bitsOfByte_injective {b c : UInt8} (h : bitsOfByte b = bitsOfByte c) : b = c := by
  apply UInt8.toNat_inj.mp
  rw [← natOfBits_bitsOfByte, h, natOfBits_bitsOfByte]

theorem length_flatMap_bitsOfByte (bytes : Octets) :
    (bytes.flatMap bitsOfByte).length = 8 * bytes.length := by
  induction bytes with
  | nil => rfl
  | cons b bytes ih =>
    rw [List.flatMap_cons, List.length_append, ih, length_bitsOfByte, List.length_cons]
    omega

/-- Runs of bytes with the same bits are the same. -/
theorem flatMap_bitsOfByte_injective {bytes bytes' : Octets}
    (h : bytes.flatMap bitsOfByte = bytes'.flatMap bitsOfByte) : bytes = bytes' := by
  induction bytes generalizing bytes' with
  | nil =>
    cases bytes' with
    | nil => rfl
    | cons => simp [bitsOfByte] at h
  | cons b bytes ih =>
    cases bytes' with
    | nil => simp [bitsOfByte] at h
    | cons b' bytes' =>
      rw [List.flatMap_cons, List.flatMap_cons] at h
      obtain ⟨hbyte, hrest⟩ := List.append_inj h rfl
      rw [bitsOfByte_injective hbyte, ih hrest]

namespace BitSource

/-! ### Reading -/

/-- The unread bits, of which fewer than eight belong to a byte that has been taken up. -/
structure Shows (s : BitSource) (bits : List Bool) : Prop where
  view : s.toBits = bits
  pending : s.pending.length < 8

/-- A source over bytes shows their bits. -/
theorem shows_ofOctets (taken : Nat) (bytes : Octets) :
    (ofOctets taken bytes).Shows (bytes.flatMap bitsOfByte) :=
  ⟨rfl, Nat.zero_lt_succ 7⟩

/-- A source that shows a bit hands it over and shows the others. -/
theorem next?_of_shows {s : BitSource} {b : Bool} {bits : List Bool} (h : s.Shows (b :: bits)) :
    ∃ s', s.next? = some (b, s') ∧ s'.Shows bits := by
  obtain ⟨pending, rest, taken⟩ := s
  have hview := h.view
  cases pending with
  | cons c pending =>
    obtain ⟨rfl, hbits⟩ := List.cons.inj hview
    exact ⟨_, rfl, hbits, Nat.lt_of_succ_lt h.pending⟩
  | nil =>
    cases rest with
    | nil => cases hview
    | cons c rest =>
      obtain ⟨rfl, hbits⟩ := List.cons.inj hview
      exact ⟨_, rfl, hbits, Nat.lt_succ_self 7⟩

/-- A source that shows the bits of a number hands the number over. -/
theorem number_of_shows {width n : Nat} (hn : n < Nat.pow 2 width) {s : BitSource}
    {bits : List Bool}
    (h : s.Shows (bitsOfNat width n ++ bits)) :
    ∃ s', s.number width = .ok (n, s') ∧ s'.Shows bits := by
  induction width generalizing n s with
  | zero =>
    obtain rfl : n = 0 := Nat.lt_one_iff.mp hn
    exact ⟨s, rfl, h⟩
  | succ width ih =>
    obtain ⟨s', hnext, hs'⟩ := next?_of_shows h
    have hhalf : n / 2 < Nat.pow 2 width := by
      have hpow : Nat.pow 2 (width + 1) = Nat.pow 2 width * 2 := rfl
      omega
    obtain ⟨s'', hnumber, hs''⟩ := ih hhalf hs'
    refine ⟨s'', ?_, hs''⟩
    -- The lowest bit comes first, and the others are those of the half.
    have hlow : (n % 2 == 1).toNat + 2 * (n / 2) = n := by
      rcases Nat.mod_two_eq_zero_or_one n with hbit | hbit
      · rw [hbit]
        show 0 + 2 * (n / 2) = n
        omega
      · rw [hbit]
        show 1 + 2 * (n / 2) = n
        omega
    rw [number, hnext]
    show (s'.number width >>= fun r => Except.ok ((n % 2 == 1).toNat + 2 * r.1, r.2)) = _
    rw [hnumber]
    show Except.ok ((n % 2 == 1).toNat + 2 * (n / 2), s'') = _
    rw [hlow]

/-- A source that shows the path to a symbol hands the symbol over. -/
theorem readSymbol_of_shows {t : CodeTree} {path : List Bool} {symbol : Nat}
    (hpath : t.atPath? path = some symbol) {s : BitSource} {bits : List Bool}
    (h : s.Shows (path ++ bits)) :
    ∃ s', t.readSymbol s = .ok (symbol, s') ∧ s'.Shows bits := by
  induction path generalizing t s with
  | nil =>
    cases t with
    | leaf => exact ⟨s, by rw [CodeTree.readSymbol, Option.some.inj hpath], h⟩
    | empty | node => cases hpath
  | cons b path ih =>
    cases t with
    | empty | leaf => cases hpath
    | node zero one =>
      -- The first bit decides the branch.
      obtain ⟨s', hnext, hs'⟩ := next?_of_shows h
      rw [CodeTree.atPath?] at hpath
      rw [CodeTree.readSymbol, hnext]
      cases b with
      | false => exact ih hpath hs'
      | true => exact ih hpath hs'

/-- Once the last bits of a byte are dropped, the bytes behind it are left. -/
theorem rest_align_of_shows {s : BitSource} {padding : List Bool} {bytes : Octets}
    (hpadding : padding.length < 8) (h : s.Shows (padding ++ bytes.flatMap bitsOfByte)) :
    s.align.rest = bytes := by
  have hview : s.pending ++ s.rest.flatMap bitsOfByte = padding ++ bytes.flatMap bitsOfByte :=
    h.view
  have hlength := congrArg List.length hview
  rw [List.length_append, List.length_append, length_flatMap_bitsOfByte,
    length_flatMap_bitsOfByte] at hlength
  have hpending := h.pending
  obtain ⟨-, hrest⟩ := List.append_inj hview (by omega)
  exact flatMap_bitsOfByte_injective hrest

end BitSource

namespace BitSink

/-! ### Writing -/

/-- Fewer than eight bits belong to a byte that is not full yet. -/
def Tidy (s : BitSink) : Prop := s.pending.length < 8

/-- Pushing a bit keeps the pending bits below a byte. -/
theorem tidy_push {s : BitSink} (h : s.Tidy) (b : Bool) : (s.push b).Tidy := by
  rw [push]
  split
  · exact Nat.zero_lt_succ 7
  · rename_i hfull
    have hpending : s.pending.length < 8 := h
    show s.pending.length + 1 < 8
    omega

theorem tidy_pushAll {s : BitSink} (h : s.Tidy) (bits : List Bool) : (s.pushAll bits).Tidy := by
  induction bits generalizing s with
  | nil => exact h
  | cons b bits ih => exact ih (tidy_push h b)

/-- Bits pushed into a sink stand behind the bits written before, in their order. -/
theorem toBits_pushAll (s : BitSink) (bits : List Bool) :
    (s.pushAll bits).toBits = s.toBits ++ bits := by
  induction bits generalizing s with
  | nil => rw [List.append_nil]; rfl
  | cons b bits ih =>
    show ((s.push b).pushAll bits).toBits = _
    rw [ih, toBits_push, List.append_assoc]
    rfl

/-- The bytes of a sink hold the bits that were written, and zeros up to the end of the last
byte. -/
theorem flatMap_finish {s : BitSink} (h : s.Tidy) :
    ∃ count < 8, s.finish.flatMap bitsOfByte = s.toBits ++ List.replicate count false := by
  have htidy : s.pending.length < 8 := h
  rw [finish, toBits]
  by_cases hempty : s.pending.isEmpty = true
  · refine ⟨0, by decide, ?_⟩
    rw [if_pos hempty, List.isEmpty_iff.mp hempty, List.reverse_nil, List.replicate_zero,
      List.append_nil, List.append_nil]
  · have hpos := List.length_pos_iff.mpr (mt List.isEmpty_iff.mpr hempty)
    -- The last byte is filled up with zeros, which stand behind all that was written.
    refine ⟨8 - s.pending.length, by omega, ?_⟩
    have hlength :
        (s.pending.reverse ++ List.replicate (8 - s.pending.length) false).length = 8 := by
      rw [List.length_append, List.length_reverse, List.length_replicate]
      omega
    have hbyte := bitsOfByte_ofNat_natOfBits hlength
    rw [natOfBits_append_replicate] at hbyte
    rw [if_neg hempty, Array.toList_push, List.flatMap_append, List.flatMap_singleton, hbyte,
      List.append_assoc]

end BitSink
end WireCall
