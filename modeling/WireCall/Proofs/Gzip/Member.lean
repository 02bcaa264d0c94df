import WireCall.Gzip.Member
import WireCall.Proofs.Gzip.Inflate

namespace WireCall.Gzip

/-!
# Members read back

Main statement: the data that a member was made of comes back, whatever follows the member, as long
as it is within the limit of the reader (`decompress_compress_append`).

A member of any origin stands for the same data under every limit that the data is within
(`decompress_eq_ok_iff`).  A member of the writer is at most twice as long as its data, but for a
few bytes (`length_compress_le`).
-/

/-! ### Members of the writer -/

/-- The bits of the block that holds the data: the head, the tokens, the end, and zeros up to a
whole byte. -/
theorem flatMap_ofOctets (data : Octets) :
    ∃ count < 8, (Deflate.ofOctets data).flatMap bitsOfByte = Deflate.blockHead ++
      ((Deflate.tokenize data.toArray).flatMap Deflate.tokenBits ++ (fixedWord endOfBlock ++
        List.replicate count false)) := by
  -- Pushing token by token is pushing all their bits at once.
  have htokens (tokens : List Token) (sink : BitSink) :
      tokens.foldl (fun sink token => sink.pushAll (Deflate.tokenBits token)) sink =
        sink.pushAll (tokens.flatMap Deflate.tokenBits) := by
    induction tokens generalizing sink with
    | nil => rfl
    | cons token tokens ih =>
      rw [List.foldl_cons, ih, List.flatMap_cons, BitSink.pushAll, BitSink.pushAll,
        BitSink.pushAll, List.foldl_append]
  have htidy : BitSink.Tidy {} := Nat.zero_lt_succ 7
  rw [Deflate.ofOctets, htokens]
  obtain ⟨count, hcount, hbits⟩ := BitSink.flatMap_finish (BitSink.tidy_pushAll
    (BitSink.tidy_pushAll (BitSink.tidy_pushAll htidy Deflate.blockHead)
      ((Deflate.tokenize data.toArray).flatMap Deflate.tokenBits)) (fixedWord endOfBlock))
  refine ⟨count, hcount, ?_⟩
  rw [hbits, BitSink.toBits_pushAll, BitSink.toBits_pushAll, BitSink.toBits_pushAll]
  simp only [List.append_assoc]
  rfl

/-- No symbol has an empty word. -/
theorem fixedWord_ne_nil (symbol : Nat) : fixedWord symbol ≠ [] := by
  rw [fixedWord]
  split
  · simp [bitsOfCode, bitsOfNat]
  · split
    · simp [bitsOfCode, bitsOfNat]
    · split <;> simp [bitsOfCode, bitsOfNat]

/-- No token is written with no bits. -/
theorem tokenBits_ne_nil (token : Token) : Deflate.tokenBits token ≠ [] := by
  cases token with
  | literal b => exact fixedWord_ne_nil _
  | copy length distance => simp [Deflate.tokenBits, fixedWord_ne_nil]

/-- There are at most as many tokens as bits. -/
theorem length_le_flatMap_tokenBits (tokens : List Token) :
    tokens.length ≤ (tokens.flatMap Deflate.tokenBits).length := by
  induction tokens with
  | nil => exact Nat.le_refl _
  | cons token tokens ih =>
    have hpos := List.length_pos_iff.mpr (tokenBits_ne_nil token)
    rw [List.flatMap_cons, List.length_append, List.length_cons]
    omega

/-- The block that holds the data is read back, and the reader stops behind it. -/
theorem ofOctets_append (limit taken : Nat) (data rest : Octets) :
    Inflate.ofOctets limit taken (Deflate.ofOctets data ++ rest) =
      .ofAll limit data.toArray rest := by
  obtain ⟨count, hcount, hbits⟩ := flatMap_ofOctets data
  have hshows := BitSource.shows_ofOctets taken (Deflate.ofOctets data ++ rest)
  rw [List.flatMap_append, hbits] at hshows
  simp only [List.append_assoc] at hshows
  obtain ⟨source, hstep, hsource⟩ := Inflate.step_head #[] hshows
  -- Each token takes a bit at least, so the bits of the block suffice for its tokens.
  have hfuel : (Deflate.tokenize data.toArray).length <
      8 * (Deflate.ofOctets data ++ rest).length := by
    have htokens := length_le_flatMap_tokenBits (Deflate.tokenize data.toArray)
    have hlength := congrArg List.length hbits
    rw [length_flatMap_bitsOfByte, List.length_append, List.length_append] at hlength
    have hhead : Deflate.blockHead.length = 3 := rfl
    rw [List.length_append]
    omega
  have hpadding : (List.replicate count false).length < 8 := by
    rw [List.length_replicate]
    exact hcount
  refine (Inflate.run_next hstep (Nat.le_refl 0) (Nat.zero_le _)
    (Inflate.run_tokens (Deflate.inRange_tokenize data.toArray) hfuel ?_ hpadding hsource)).trans ?_
  · exact Inflate.handedAt_le (Nat.le_refl 0)
  · rw [Deflate.foldl_tokenize]

/-- The plain header is skipped whole. -/
theorem skipHeader_plainHeader (bytes : Octets) : skipHeader (plainHeader ++ bytes) = .ok bytes :=
  rfl

/-- **Round trip of a member.**  The data that a member was made of comes back, whatever follows
the member, unless it passes the limit. -/
theorem decompress_compress_append (limit : Nat) (data rest : Octets) :
    decompress limit (compress data ++ rest) =
      if data.length ≤ limit then .ok data else .error (.exceeds limit) := by
  -- The header is of a fixed form, and behind it come block and trailer.
  have hheader : skipHeader (compress data ++ rest) =
      .ok (Deflate.ofOctets data ++ (trailer data ++ rest)) := by
    rw [compress, List.append_assoc, List.append_assoc, skipHeader_plainHeader]
  rw [decompress, hheader]
  dsimp only
  rw [ofOctets_append, Inflate.Outcome.ofAll, List.size_toArray]
  by_cases hlimit : data.length ≤ limit
  · have hlength : (trailer data).length = 8 := by simp [trailer]
    have htrailer := Octets.split?_append (trailer data) rest
    rw [hlength] at htrailer
    rw [if_neg (Nat.not_lt.mpr hlimit), if_pos hlimit]
    dsimp only
    rw [htrailer]
    exact if_pos rfl
  · rw [if_pos (Nat.lt_of_not_le hlimit), if_neg hlimit]

/-! ### Sizes -/

/-- No word is longer than nine bits. -/
theorem length_fixedWord_le (symbol : Nat) : (fixedWord symbol).length ≤ 9 := by
  rw [fixedWord]
  split
  · simp [bitsOfCode]
  · split
    · simp [bitsOfCode]
    · split <;> simp [bitsOfCode]

/-- No range takes more extra bits than the largest in its table. -/
theorem width_le_of_getElem? {ranges : Array (Nat × Nat)} {index least width : Nat}
    (hranges : ∀ range ∈ ranges.toList, range.2 ≤ 13) (h : ranges[index]? = some (least, width)) :
    width ≤ 13 := by
  rw [← Array.getElem?_toList] at h
  exact hranges _ (List.mem_of_getElem? h)

/-- A token takes no more than 14 bits for each byte that it stands for. -/
theorem length_tokenBits_le {token : Token} (hrange : token.InRange) (out : Array UInt8) :
    (Deflate.tokenBits token).length ≤ 14 * ((token.apply out).size - out.size) := by
  cases token with
  -- A literal takes nine bits for its byte.
  | literal b =>
    have hword := length_fixedWord_le b.toNat
    rw [Token.apply, Array.size_push, Deflate.tokenBits]
    omega
  | copy length distance =>
    -- A copy is at least three bytes long, and its two words and extra bits take 42 bits at most.
    obtain ⟨⟨hshortest, hlongest⟩, hnearest, hfarthest⟩ := hrange
    obtain ⟨i, least, width, hlength, hi, -⟩ := rangeOf_length hshortest hlongest
    obtain ⟨j, least', width', hdistance, hj, -⟩ := rangeOf_distance hnearest hfarthest
    have hwidth : width ≤ 13 := width_le_of_getElem? (by decide) hi
    have hwidth' : width' ≤ 13 := width_le_of_getElem? (by decide) hj
    have hword := length_fixedWord_le (257 + i)
    simp only [Token.apply, Token.size_copy, Deflate.tokenBits, hlength, hdistance, bitsOfCode,
      List.length_append, List.length_reverse, length_bitsOfNat]
    omega

/-- Tokens take at most fourteen bits for each byte that they stand for. -/
theorem length_flatMap_tokenBits_le {tokens : List Token}
    (hrange : ∀ token ∈ tokens, token.InRange) (out : Array UInt8) :
    (tokens.flatMap Deflate.tokenBits).length ≤
      14 * ((tokens.foldl Token.apply out).size - out.size) := by
  induction tokens generalizing out with
  | nil => exact Nat.zero_le _
  | cons token tokens ih =>
    have hfirst := length_tokenBits_le (hrange token (by simp)) out
    have hrest := ih (fun t ht => hrange t (by simp [ht])) (token.apply out)
    have hsize := Token.size_le_size_apply out token
    have hsizes := Token.size_le_size_foldl tokens (token.apply out)
    rw [List.flatMap_cons, List.length_append, List.foldl_cons]
    omega

/-- Compression at worst doubles the data and adds twenty bytes. -/
theorem length_compress_le (data : Octets) : (compress data).length ≤ 2 * data.length + 20 := by
  obtain ⟨count, hcount, hbits⟩ := flatMap_ofOctets data
  have htokens := length_flatMap_tokenBits_le (Deflate.inRange_tokenize data.toArray) #[]
  rw [Deflate.foldl_tokenize, List.size_toArray] at htokens
  have hend := length_fixedWord_le endOfBlock
  have hlength := congrArg List.length hbits
  simp only [length_flatMap_bitsOfByte, List.length_append, List.length_replicate] at hlength
  have hhead : Deflate.blockHead.length = 3 := rfl
  have hheader : plainHeader.length = 10 := rfl
  have htrailer : (trailer data).length = 8 := by simp [trailer]
  rw [compress, List.length_append, List.length_append]
  have hzero : (#[] : Array UInt8).size = 0 := rfl
  omega

/-! ### Members of any origin -/

/-- A member holds the data, whoever made it: a reader with some limit gets it. -/
def Inflates (bytes data : Octets) : Prop := ∃ limit, decompress limit bytes = .ok data

/-- Decompression succeeds exactly on a header, a complete run and the trailer of its output. -/
theorem decompress_eq_ok {limit : Nat} {bytes data : Octets} :
    decompress limit bytes = .ok data ↔ ∃ body out rest after, skipHeader bytes = .ok body ∧
      Inflate.ofOctets limit (bytes.length - body.length) body = .complete out rest ∧
      Octets.split? 8 rest = some (trailer data, after) ∧ out.toList = data := by
  constructor
  · intro h
    -- Decompression succeeds in one way only: header, blocks within the limit, and their own
    -- trailer.
    rw [decompress] at h
    split at h
    · cases h
    · rename_i body hheader
      split at h
      · cases h
      · cases h
      · rename_i out rest hblocks
        dsimp only at h
        split at h
        · cases h
        · rename_i found after htrailer
          split at h
          · rename_i hfound
            obtain rfl := Except.ok.inj h
            exact ⟨body, out, rest, after, hheader, hblocks, by rw [htrailer, hfound], rfl⟩
          · cases h
  · rintro ⟨body, out, rest, after, hheader, hblocks, htrailer, rfl⟩
    rw [decompress, hheader]
    dsimp only
    rw [hblocks]
    dsimp only
    rw [htrailer]
    exact if_pos rfl

/-- A reader gets the data of a member exactly if the data is within its limit. -/
theorem decompress_eq_ok_iff {limit : Nat} {bytes data : Octets} :
    decompress limit bytes = .ok data ↔ Inflates bytes data ∧ data.length ≤ limit := by
  constructor
  · intro h
    obtain ⟨body, out, rest, after, -, hblocks, -, rfl⟩ := decompress_eq_ok.mp h
    have hlimit := (Inflate.size_of_run_complete hblocks).2
    exact ⟨⟨limit, h⟩, by rwa [Array.length_toList]⟩
  · rintro ⟨⟨limit', h⟩, hlimit⟩
    obtain ⟨body, out, rest, after, hheader, hblocks, htrailer, rfl⟩ := decompress_eq_ok.mp h
    rw [Array.length_toList] at hlimit
    have hblocks' := Inflate.run_complete_of_size_le hblocks (Nat.zero_le _) hlimit
    exact decompress_eq_ok.mpr ⟨body, out, rest, after, hheader, hblocks', htrailer, rfl⟩

/-- Bytes inflate to one thing only. -/
theorem Inflates.unique {bytes data data' : Octets} (h : Inflates bytes data)
    (h' : Inflates bytes data') : data = data' := by
  have hfirst := decompress_eq_ok_iff.mpr ⟨h, Nat.le_max_left data.length data'.length⟩
  have hsecond := decompress_eq_ok_iff.mpr ⟨h', Nat.le_max_right data.length data'.length⟩
  rw [hfirst] at hsecond
  exact Except.ok.inj hsecond

end WireCall.Gzip
