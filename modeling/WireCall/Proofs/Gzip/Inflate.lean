import WireCall.Proofs.Gzip.Symbols
import WireCall.Proofs.Gzip.Tokens

namespace WireCall.Inflate

open Gzip

/-!
# Reading a block in the fixed code

A block that `Deflate.ofOctets` wrote is read token by token: each step of the reader takes the bits
of one token off the source and applies it (`step_token`).  `run_tokens` follows a whole block under
a limit, whatever comes behind it.

A limit only matters when it is passed.  `run_complete_of_size_le` says that a reader with another
limit gives the same bytes if they are within its own limit, so how many bytes a stream stands for
does not depend on who reads it.
-/

/-! ### Steps -/

/-- The head of the block is read, and the fixed trees are taken. -/
theorem step_head (out : Array UInt8) {source : BitSource} {bits : List Bool}
    (h : source.Shows (Deflate.blockHead ++ bits)) :
    ∃ source', step ⟨source, out, .head⟩ =
      .next ⟨source', out, .coded fixedTree fixedDistanceTree true⟩ ∧ source'.Shows bits := by
  have hhead : 3 < Nat.pow 2 3 := by decide
  obtain ⟨source', hnumber, hsource⟩ := BitSource.number_of_shows hhead h
  refine ⟨source', ?_, hsource⟩
  rw [step, stepHead, hnumber]
  rfl

/-- A match is read part by part: its length, the word of its distance and the distance. -/
theorem readMatch_of_parts {distances : CodeTree} {symbol word length distance : Nat}
    {s s₁ s₂ s₃ : BitSource} (hlength : readRange lengthRanges (symbol - 257) s = .ok (length, s₁))
    (hword : distances.readSymbol s₁ = .ok (word, s₂))
    (hdistance : readRange distanceRanges word s₂ = .ok (distance, s₃)) :
    readMatch distances symbol s = .ok (length, distance, s₃) := by
  rw [readMatch, hlength]
  show (distances.readSymbol s₁ >>= fun r =>
    readRange distanceRanges r.1 r.2 >>= fun r => Except.ok (length, r.1, r.2)) = _
  rw [hword]
  show (readRange distanceRanges word s₂ >>= fun r => Except.ok (length, r.1, r.2)) = _
  rw [hdistance]
  rfl

/-- A token written in range is read and applied to the output. -/
theorem step_token {source : BitSource} {out : Array UInt8} {token : Token} {bits : List Bool}
    (hrange : token.InRange) (h : source.Shows (Deflate.tokenBits token ++ bits)) :
    ∃ source', step ⟨source, out, .coded fixedTree fixedDistanceTree true⟩ =
      .next ⟨source', token.apply out, .coded fixedTree fixedDistanceTree true⟩ ∧
        source'.Shows bits := by
  cases token with
  | literal b =>
    have hb : b.toNat < 256 := b.toNat_lt
    obtain ⟨source', hsymbol, hsource⟩ :=
      BitSource.readSymbol_of_shows (atPath?_fixedWord (by omega)) h
    refine ⟨source', ?_, hsource⟩
    rw [step, stepCoded, hsymbol]
    show (if b.toNat < 256 then _ else _) = _
    rw [if_pos hb, UInt8.ofNat_toNat]
    rfl
  | copy length distance =>
    obtain ⟨⟨hshortest, hlongest⟩, hnearest, hfarthest⟩ := hrange
    obtain ⟨i, least, width, hlength, hi, hleast, hwidth⟩ := rangeOf_length hshortest hlongest
    obtain ⟨j, least', width', hdistance, hj, hleast', hwidth'⟩ :=
      rangeOf_distance hnearest hfarthest
    have hi29 : i < 29 := (Array.getElem?_eq_some_iff.mp hi).1
    have hj30 : j < 30 := (Array.getElem?_eq_some_iff.mp hj).1
    simp only [Deflate.tokenBits, hlength, hdistance, List.append_assoc] at h
    -- The symbol of the length, its extra bits, the symbol of the distance, its extra bits.
    obtain ⟨s₁, hsymbol, hs₁⟩ := BitSource.readSymbol_of_shows (atPath?_fixedWord (by omega)) h
    obtain ⟨s₂, hread, hs₂⟩ := readRange_of_shows hi hleast hwidth hs₁
    obtain ⟨s₃, hword, hs₃⟩ := BitSource.readSymbol_of_shows (atPath?_distanceWord (by omega)) hs₂
    obtain ⟨s₄, hread', hs₄⟩ := readRange_of_shows hj hleast' hwidth' hs₃
    refine ⟨s₄, ?_, hs₄⟩
    rw [← Nat.add_sub_cancel_left 257 i] at hread
    have hmatch := readMatch_of_parts hread hword hread'
    rw [step, stepCoded, hsymbol]
    show (if 257 + i < 256 then _ else if 257 + i = endOfBlock then _ else _) = _
    have hnotEnd : 257 + i ≠ endOfBlock := by
      show 257 + i ≠ 256
      omega
    rw [if_neg (by omega), if_neg hnotEnd, hmatch]
    rfl

/-- At the end of the last block the machine stops with its output. -/
theorem step_endOfBlock {source : BitSource} {out : Array UInt8} {bits : List Bool}
    (h : source.Shows (fixedWord endOfBlock ++ bits)) :
    ∃ source', step ⟨source, out, .coded fixedTree fixedDistanceTree true⟩ = .done source' out ∧
      source'.Shows bits := by
  obtain ⟨source', hsymbol, hsource⟩ :=
    BitSource.readSymbol_of_shows (atPath?_fixedWord (by decide)) h
  refine ⟨source', ?_, hsource⟩
  rw [step, stepCoded, hsymbol]
  rfl

/-! ### Runs -/

/-- No more bytes lie in whole windows than there are. -/
theorem windowsBefore_le (size : Nat) : windowsBefore size ≤ size := by
  rw [windowsBefore]
  exact Nat.le_trans (Nat.div_mul_le_self _ _) (Nat.sub_le _ _)

/-- No more bytes have been handed over than were produced. -/
theorem handedAt_le {reached : BitSource} {handed : Nat} {s : State} (h : handed ≤ s.out.size) :
    handedAt reached handed s ≤ s.out.size := by
  rw [handedAt]
  split
  · exact h
  · exact Nat.le_refl _

/-- The outcome when the bytes are all there: they count if they are within the limit. -/
def Outcome.ofAll (limit : Nat) (out : Array UInt8) (rest : Octets) : Outcome :=
  if limit < out.size then .tooLong else .complete out rest

/-- A step of a run that comes to an end with `final`. -/
theorem run_next {limit fuel handed : Nat} {s s' : State} {final : Array UInt8} {rest : Octets}
    (hstep : step s = .next s') (hhanded : handed ≤ s.out.size) (hfinal : s.out.size ≤ final.size)
    (hrun : run limit fuel (handedAt s'.source handed s) s' = .ofAll limit final rest) :
    run limit (fuel + 1) handed s = .ofAll limit final rest := by
  rw [run, hstep]
  by_cases hlimit : limit < max handed (windowsBefore s.out.size)
  · -- What has been handed over is part of all bytes, so these pass the limit, too.
    have hwindows := windowsBefore_le s.out.size
    rw [if_pos hlimit, Outcome.ofAll, if_pos (by omega)]
  · rw [if_neg hlimit]
    exact hrun

/-- A run that stops hands over all its output if it is within the limit. -/
theorem run_done {limit fuel handed : Nat} {s : State} {source : BitSource} {out : Array UInt8}
    (hstep : step s = .done source out) (hhanded : handed ≤ s.out.size)
    (hout : s.out.size ≤ out.size) :
    run limit (fuel + 1) handed s = .ofAll limit out source.align.rest := by
  rw [run, hstep]
  by_cases hlimit : limit < max handed (windowsBefore s.out.size)
  · have hwindows := windowsBefore_le s.out.size
    rw [if_pos hlimit, Outcome.ofAll, if_pos (by omega)]
  · rw [if_neg hlimit]
    rfl

/-- **A block read back.**  A reader inside a block in the fixed code applies the tokens of the
block and stops behind it. -/
theorem run_tokens {limit fuel handed : Nat} {tokens : List Token} {source : BitSource}
    {out : Array UInt8} {padding : List Bool} {rest : Octets}
    (hrange : ∀ token ∈ tokens, token.InRange) (hfuel : tokens.length < fuel)
    (hhanded : handed ≤ out.size) (hpadding : padding.length < 8)
    (h : source.Shows (tokens.flatMap Deflate.tokenBits ++ (fixedWord endOfBlock ++
      (padding ++ rest.flatMap bitsOfByte)))) :
    run limit fuel handed ⟨source, out, .coded fixedTree fixedDistanceTree true⟩ =
      .ofAll limit (tokens.foldl Token.apply out) rest := by
  -- By induction on the tokens: each is one step of the machine, and the end of the block the last
  -- one.
  induction tokens generalizing fuel handed source out with
  | nil =>
    obtain ⟨fuel, rfl⟩ : ∃ n, fuel = n + 1 := ⟨fuel - 1, by simp at hfuel; omega⟩
    obtain ⟨source', hstep, hsource⟩ := step_endOfBlock h
    rw [run_done hstep hhanded (Nat.le_refl _), BitSource.rest_align_of_shows hpadding hsource]
    rfl
  | cons token tokens ih =>
    obtain ⟨fuel, rfl⟩ : ∃ n, fuel = n + 1 := ⟨fuel - 1, by simp at hfuel; omega⟩
    rw [List.flatMap_cons, List.append_assoc] at h
    obtain ⟨source', hstep, hsource⟩ := step_token (hrange token (by simp)) h
    have hsize := Token.size_le_size_apply out token
    have hhanded' : handedAt source' handed
        ⟨source, out, .coded fixedTree fixedDistanceTree true⟩ ≤ (token.apply out).size :=
      Nat.le_trans (handedAt_le hhanded) hsize
    have hrest := ih (fun t ht => hrange t (by simp [ht])) (Nat.lt_of_succ_lt_succ hfuel)
      hhanded' hsource
    exact run_next hstep hhanded (Token.size_le_size_foldl (token :: tokens) out) hrest

/-! ### Limits -/

/-- No byte is taken back: what is there after the step is no shorter than `size`. -/
def Step.Grows (size : Nat) : Step → Prop
  | .next s => size ≤ s.out.size
  | .done _ out => size ≤ out.size
  | .broken _ => True

/-- The end of a block takes nothing off the output. -/
theorem grows_finishBlock {size : Nat} {source : BitSource} {out : Array UInt8} {last : Bool}
    (h : size ≤ out.size) : (finishBlock source out last).Grows size := by
  rw [finishBlock]
  split
  · exact h
  · exact h

theorem grows_stepHead (source : BitSource) (out : Array UInt8) :
    (stepHead source out).Grows out.size := by
  rw [stepHead]
  split
  · trivial
  · dsimp only
    split
    · split
      · trivial
      · exact grows_finishBlock (Nat.le_refl _)
      · exact Nat.le_refl _
    · exact Nat.le_refl _
    · split
      · trivial
      · exact Nat.le_refl _
    · trivial

theorem grows_stepStored (source : BitSource) (out : Array UInt8) (left : Nat) (last : Bool) :
    (stepStored source out left last).Grows out.size := by
  have hpush (b : UInt8) : out.size ≤ (out.push b).size := Token.size_le_size_apply out (.literal b)
  rw [stepStored]
  split
  · trivial
  · split
    · exact grows_finishBlock (hpush _)
    · exact hpush _

theorem grows_stepCoded (source : BitSource) (out : Array UInt8) (literals distances : CodeTree)
    (last : Bool) : (stepCoded source out literals distances last).Grows out.size := by
  rw [stepCoded]
  split
  · trivial
  · split
    · exact Token.size_le_size_apply out (.literal _)
    · split
      · exact grows_finishBlock (Nat.le_refl _)
      · split
        · trivial
        · exact Token.size_le_size_apply out (.copy _ _)

/-- No step takes anything off the output. -/
theorem grows_step (s : State) : (step s).Grows s.out.size := by
  obtain ⟨source, out, phase⟩ := s
  cases phase with
  | head => exact grows_stepHead source out
  | stored left last => exact grows_stepStored source out left last
  | coded literals distances last => exact grows_stepCoded source out literals distances last

/-- A run that halts with a fault is not complete. -/
theorem ofHalt_ne_complete {limit handed : Nat} {cause : GzipFault} {out : Array UInt8}
    {rest : Octets} : Outcome.ofHalt limit handed cause ≠ .complete out rest := by
  rw [Outcome.ofHalt]
  split <;> exact nofun

/-- A run that comes to its end has produced all bytes from the current ones on, and no more than
its limit. -/
theorem size_of_run_complete {limit fuel handed : Nat} {s : State} {out : Array UInt8}
    {rest : Octets} (h : run limit fuel handed s = .complete out rest) :
    s.out.size ≤ out.size ∧ out.size ≤ limit := by
  -- By induction on the steps: none of them takes output back, and the last one checks the limit.
  induction fuel generalizing handed s with
  | zero => cases h
  | succ fuel ih =>
    have hgrows := grows_step s
    rw [run] at h
    split at h
    · cases h
    · cases hstep : step s with
      | next s' =>
        rw [hstep] at h hgrows
        obtain ⟨hsize, hlimit⟩ := ih h
        exact ⟨Nat.le_trans hgrows hsize, hlimit⟩
      | done source final =>
        rw [hstep] at h hgrows
        dsimp only at h
        split at h
        · cases h
        · rename_i hlimit
          obtain ⟨rfl, -⟩ := Outcome.complete.inj h
          exact ⟨hgrows, Nat.le_of_not_lt hlimit⟩
      | broken halt =>
        rw [hstep] at h
        obtain ⟨cause, source⟩ := halt
        cases cause <;> exact absurd h ofHalt_ne_complete

/-- A run with another limit comes to the same end, if the bytes are within this limit. -/
theorem run_complete_of_size_le {limit limit' fuel handed : Nat} {s : State} {out : Array UInt8}
    {rest : Octets} (h : run limit fuel handed s = .complete out rest)
    (hhanded : handed ≤ s.out.size) (hlimit' : out.size ≤ limit') :
    run limit' fuel handed s = .complete out rest := by
  induction fuel generalizing handed s with
  | zero => cases h
  | succ fuel ih =>
    have hwindows := windowsBefore_le s.out.size
    have hsize := (size_of_run_complete h).1
    -- The first run was within the smaller output, so no check of the second one can fail.
    rw [run] at h
    split at h
    · cases h
    · rw [run, if_neg (by omega)]
      have hgrows := grows_step s
      cases hstep : step s with
      | next s' =>
        rw [hstep] at h hgrows
        exact ih h (Nat.le_trans (handedAt_le hhanded) hgrows)
      | done source final =>
        rw [hstep] at h
        dsimp only at h ⊢
        split at h
        · cases h
        · obtain ⟨rfl, rfl⟩ := Outcome.complete.inj h
          rw [if_neg (by omega)]
      | broken halt =>
        rw [hstep] at h
        obtain ⟨cause, source⟩ := halt
        cases cause <;> exact absurd h ofHalt_ne_complete

end WireCall.Inflate
