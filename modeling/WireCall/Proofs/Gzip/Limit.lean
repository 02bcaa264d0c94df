import Mathlib.Algebra.GroupWithZero.Nat
import WireCall.Proofs.Gzip.Member
import WireCall.Proofs.Gzip.Progress
import WireCall.Proofs.Octets

namespace WireCall

/-!
# Reading under a limit

A limit has no part in what a member stands for.  A reader without one hands over the data and ends
well or with a fault (`Inflate.yield`, `Gzip.stream`); a reader under a limit gives up if more is
handed over than the limit allows, and else comes to the same end (`Inflate.run_eq_within`).  What
has been handed over never becomes less, so a limit that has been passed during the run is one that
all data passes; the machine never runs out of steps, since each takes a bit.

The data of a stream is taken up piece by piece until there is no room for another byte, with room
for one byte more than the limit (`Gzip.collect`).  In whatever pieces it comes, that one byte
decides whether the limit is passed (`Gzip.readAll_eq_within`), so nothing behind it is needed.

Main statement: what is read under one limit and under another (`Gzip.decompress_by_limit`).
-/

namespace Inflate

open Gzip BitSource

/-! ### Blocks -/

/-- What a reader without a limit hands over, and how it ends: with the bytes behind the blocks, or
with a fault. -/
structure Yield where
  out : Array UInt8
  ending : Except GzipFault Octets

/-- What is left of it under a limit. -/
def Yield.within (limit : Nat) (y : Yield) : Outcome :=
  if limit < y.out.size then .tooLong
  else
    match y.ending with
    | .ok rest => .complete y.out rest
    | .error cause => .broken cause

/-- Runs the machine without a limit, `handed` being the bytes handed over at the last change of
portions. -/
def yield : Nat → Nat → State → Yield
  | 0, _, s => ⟨s.out, .error .truncated⟩
  | fuel + 1, handed, s =>
    match step s with
    | .next s' => yield fuel (handedAt s'.source handed s) s'
    | .done source out => ⟨out, .ok source.align.rest⟩
    | .broken ⟨.truncated, _⟩ => ⟨s.out, .error .truncated⟩
    | .broken ⟨cause, source⟩ =>
      ⟨s.out.extract 0 (max (handedAt source handed s) (windowsBefore s.out.size)), .error cause⟩

/-- More bytes lie in more whole windows. -/
theorem windowsBefore_mono {n m : Nat} (h : n ≤ m) : windowsBefore n ≤ windowsBefore m :=
  Nat.mul_le_mul_right _ (Nat.div_le_div_right (Nat.sub_le_sub_right h 1))

/-- What has been handed over stays handed over. -/
theorem le_handedAt {reached : BitSource} {handed : Nat} {s : State} (h : handed ≤ s.out.size) :
    handed ≤ handedAt reached handed s := by
  unfold handedAt
  split
  · exact Nat.le_refl _
  · exact h

/-- What has been handed over stays so. -/
theorem le_size_yield {fuel handed : Nat} {s : State} (hhanded : handed ≤ s.out.size) :
    max handed (windowsBefore s.out.size) ≤ (yield fuel handed s).out.size := by
  -- By induction on the steps: all that has been handed over is part of what is yielded in the end.
  induction fuel generalizing handed s with
  | zero => exact Nat.max_le.mpr ⟨hhanded, windowsBefore_le _⟩
  | succ fuel ih =>
    have hgrows := grows_step s
    have hwindows := windowsBefore_le s.out.size
    unfold yield
    cases hstep : step s with
    | next s' =>
      rw [hstep] at hgrows
      have hle : handedAt s'.source handed s ≤ s'.out.size :=
        Nat.le_trans (handedAt_le hhanded) hgrows
      have hrest := ih hle
      have hmono := windowsBefore_mono hgrows
      have hkept := @le_handedAt s'.source _ _ hhanded
      dsimp only
      omega
    | done source out =>
      rw [hstep] at hgrows
      have hle : s.out.size ≤ out.size := hgrows
      dsimp only
      omega
    | broken halt =>
      obtain ⟨cause, source⟩ := halt
      have hkept := @le_handedAt source _ _ hhanded
      have hle := @handedAt_le source _ _ hhanded
      cases cause <;> simp only [Array.size_extract] <;> omega

/-- The outcome when nothing more can be read, after what has been handed over at this step. -/
theorem ofHalt_eq_within {limit handed : Nat} {out : Array UInt8} (cause : GzipFault)
    (hhanded : handed ≤ out.size) (hlimit : ¬ limit < windowsBefore out.size) :
    Outcome.ofHalt limit handed cause =
      Yield.within limit ⟨out.extract 0 (max handed (windowsBefore out.size)), .error cause⟩ := by
  have hwindows := windowsBefore_le out.size
  have hsize : (out.extract 0 (max handed (windowsBefore out.size))).size =
      max handed (windowsBefore out.size) := by
    rw [Array.size_extract]
    omega
  unfold Outcome.ofHalt Yield.within
  dsimp only
  rw [hsize]
  by_cases hpassed : limit < handed
  · rw [if_pos hpassed, if_pos (by omega)]
  · rw [if_neg hpassed, if_neg (by omega)]

/-- **Limits.**  A run under a limit is the run without one, given up if too much is handed over. -/
theorem run_eq_within {limit fuel handed : Nat} {s : State} (hhanded : handed ≤ s.out.size)
    (hsound : s.Sound) (hfuel : s.source.left < fuel) :
    run limit fuel handed s = (yield fuel handed s).within limit := by
  induction fuel generalizing handed s with
  | zero => exact absurd hfuel (Nat.not_lt_zero _)
  | succ fuel ih =>
    have hsize := @le_size_yield (fuel + 1) _ _ hhanded
    by_cases hlimit : limit < max handed (windowsBefore s.out.size)
    · -- The limit has been passed, and so it is by all that is handed over.
      rw [run, if_pos hlimit, Yield.within, if_pos (Nat.lt_of_lt_of_le hlimit hsize)]
    · have hprogress := step_progress hsound
      have hgrows := grows_step s
      rw [run, if_neg hlimit, yield]
      cases hstep : step s with
      | next s' =>
        -- The step has taken a bit and a unit of fuel.
        rw [hstep] at hprogress hgrows
        obtain ⟨hreaches, hsound'⟩ := hprogress
        have hleft := hreaches.left
        exact ih (Nat.le_trans (handedAt_le hhanded) hgrows) hsound' (by omega)
      | done source out => rfl
      | broken halt =>
        obtain ⟨cause, source⟩ := halt
        have hle := @handedAt_le source _ _ hhanded
        cases cause with
        | truncated => rfl
        | badHeader => exact ofHalt_eq_within .badHeader hle (by omega)
        | badBlock => exact ofHalt_eq_within .badBlock hle (by omega)
        | badTrailer => exact ofHalt_eq_within .badTrailer hle (by omega)

/-- What is left behind the blocks was there before. -/
theorem suffix_of_yield {fuel handed : Nat} {s : State} {rest : Octets} (hsound : s.Sound)
    (hending : (yield fuel handed s).ending = .ok rest) : rest <:+ s.source.rest := by
  -- By induction on the steps: each reaches a source behind the one before.
  induction fuel generalizing handed s with
  | zero => cases hending
  | succ fuel ih =>
    have hprogress := step_progress hsound
    rw [yield] at hending
    cases hstep : step s with
    | next s' =>
      rw [hstep] at hprogress hending
      obtain ⟨hreaches, hsound'⟩ := hprogress
      exact (ih hsound' hending).trans hreaches.rest
    | done source out =>
      rw [hstep] at hprogress hending
      obtain rfl := Except.ok.inj hending
      have hreaches : Reaches 1 s.source source := hprogress
      exact hreaches.rest
    | broken halt =>
      rw [hstep] at hending
      obtain ⟨cause, source⟩ := halt
      cases cause <;> cases hending

/-- The machine before the first block. -/
def start (taken : Nat) (bytes : Octets) : State := ⟨.ofOctets taken bytes, #[], .head⟩

theorem sound_start (taken : Nat) (bytes : Octets) : (start taken bytes).Sound := trivial

/-- Inflating within a limit is cutting what the bytes yield without one. -/
theorem ofOctets_eq_within (limit taken : Nat) (bytes : Octets) :
    ofOctets limit taken bytes =
      (yield (8 * bytes.length + 1) 0 (start taken bytes)).within limit := by
  refine run_eq_within (Nat.le_refl 0) (sound_start taken bytes) ?_
  show ([] : List Bool).length + 8 * bytes.length < 8 * bytes.length + 1
  rw [List.length_nil]
  omega

end Inflate

namespace Gzip

/-! ### Members -/

/-- What the reader of a member hands over without a limit, and whether it ends well. -/
structure Stream where
  data : Octets
  ending : Except GzipFault Unit

/-- What is left of it under a limit. -/
def Stream.within (limit : Nat) (s : Stream) : Except CompressionFault Octets :=
  if limit < s.data.length then .error (.exceeds limit)
  else
    match s.ending with
    | .ok () => .ok s.data
    | .error cause => .error (.malformed cause)

/-- Checks the trailer at the front of the bytes. -/
def checkTrailer (data rest : Octets) : Except GzipFault Unit :=
  match Octets.split? 8 rest with
  | none => .error .truncated
  | some (found, _) => if found = trailer data then .ok () else .error .badTrailer

/-- The member at the front of the bytes as a stream. -/
def stream (bytes : Octets) : Stream :=
  match skipHeader bytes with
  | .error cause => ⟨[], .error cause⟩
  | .ok body =>
    let blocks := Inflate.yield (8 * body.length + 1) 0
      (Inflate.start (bytes.length - body.length) body)
    ⟨blocks.out.toList, blocks.ending >>= checkTrailer blocks.out.toList⟩

/-- What is read under a limit is the stream, given up if it is too long. -/
theorem decompress_eq_within (limit : Nat) (bytes : Octets) :
    decompress limit bytes = (stream bytes).within limit := by
  unfold decompress stream
  cases skipHeader bytes with
  | error cause => rfl
  | ok body =>
    dsimp only
    -- Without the limit the blocks yield what they yield; the limit and the trailer are checked
    -- after them.
    rw [Inflate.ofOctets_eq_within]
    generalize Inflate.yield _ _ _ = blocks
    obtain ⟨out, ending⟩ := blocks
    unfold Inflate.Yield.within Stream.within
    dsimp only
    rw [Array.length_toList]
    by_cases hlimit : limit < out.size
    · rw [if_pos hlimit, if_pos hlimit]
    · rw [if_neg hlimit, if_neg hlimit]
      cases ending with
      | error cause => rfl
      | ok rest =>
        have hcheck : (Except.ok rest >>= checkTrailer out.toList) = checkTrailer out.toList rest :=
          rfl
        rw [hcheck]
        unfold checkTrailer
        dsimp only
        cases Octets.split? 8 rest with
        | none => rfl
        | some found =>
          dsimp only
          by_cases htrailer : found.1 = trailer out.toList
          · rw [if_pos htrailer, if_pos htrailer]
          · rw [if_neg htrailer, if_neg htrailer]

/-- A trailer that is found good is that of the data. -/
theorem checkTrailer_eq_ok_iff {data rest : Octets} :
    checkTrailer data rest = .ok () ↔ ∃ after, rest = trailer data ++ after := by
  have hlength : (trailer data).length = 8 := by simp [trailer]
  unfold checkTrailer
  constructor
  · intro h
    split at h
    · cases h
    · rename_i found after hsplit
      split at h
      · rename_i hfound
        exact ⟨after, hfound ▸ (Octets.split?_eq_some_iff.mp hsplit).2⟩
      · cases h
  · rintro ⟨after, rfl⟩
    rw [Octets.split?_eq_some_iff.mpr ⟨hlength, rfl⟩]
    exact if_pos rfl

/-- A stream that ends well has its trailer behind the header. -/
theorem trailer_of_stream {bytes : Octets} (hending : (stream bytes).ending = .ok ()) :
    ∃ body front after, skipHeader bytes = .ok body ∧
      body = front ++ trailer (stream bytes).data ++ after := by
  unfold stream at hending ⊢
  cases hheader : skipHeader bytes with
  | error cause =>
    rw [hheader] at hending
    cases hending
  | ok body =>
    rw [hheader] at hending
    obtain ⟨rest, hrest, hcheck⟩ := bind_eq_ok_iff.mp hending
    obtain ⟨after, rfl⟩ := checkTrailer_eq_ok_iff.mp hcheck
    obtain ⟨front, hfront⟩ := Inflate.suffix_of_yield (Inflate.sound_start _ _) hrest
    exact ⟨body, front, after, rfl, (List.append_assoc front _ after ▸ hfront).symm⟩

/-! ### Limits of a stream -/

namespace Stream

variable {s : Stream} {limit limit' : Nat}

/-- A cut succeeds exactly on a yield that ends well within the limit. -/
theorem within_eq_ok_iff {data : Octets} :
    s.within limit = .ok data ↔ s.data.length ≤ limit ∧ s.ending = .ok () ∧ s.data = data := by
  unfold within
  by_cases hlimit : limit < s.data.length
  · rw [if_pos hlimit]
    exact ⟨nofun, fun h => absurd h.1 (Nat.not_le_of_lt hlimit)⟩
  · rw [if_neg hlimit]
    cases hending : s.ending with
    | error cause => exact ⟨nofun, fun h => by cases h.2.1⟩
    | ok =>
      constructor
      · exact fun h => ⟨Nat.le_of_not_lt hlimit, rfl, Except.ok.inj h⟩
      · rintro ⟨-, -, rfl⟩
        rfl

/-- Under another limit the data is the same, or too long. -/
theorem within_of_ok {data : Octets} (h : s.within limit = .ok data) (limit' : Nat) :
    s.within limit' = if data.length ≤ limit' then .ok data else .error (.exceeds limit') := by
  obtain ⟨-, hending, rfl⟩ := within_eq_ok_iff.mp h
  by_cases hlimit' : s.data.length ≤ limit'
  · rw [if_pos hlimit', within_eq_ok_iff.mpr ⟨hlimit', hending, rfl⟩]
  · rw [if_neg hlimit', within, if_pos (Nat.lt_of_not_le hlimit')]

/-- What is refused under a limit is refused under a lower one. -/
theorem within_error_of_le {fault : CompressionFault} (h : s.within limit = .error fault)
    (hle : limit' ≤ limit) : ∃ fault', s.within limit' = .error fault' := by
  cases hwithin : s.within limit' with
  | error fault' => exact ⟨fault', rfl⟩
  | ok data =>
    obtain ⟨hlength, hending, hdata⟩ := within_eq_ok_iff.mp hwithin
    rw [within_eq_ok_iff.mpr ⟨Nat.le_trans hlength hle, hending, hdata⟩] at h
    cases h

end Stream

/-! ### Taking up a stream -/

/-- Takes up the pieces of a stream until there is no more room, or else until it ends. -/
def collect (ending : Except GzipFault Unit) : Nat → List Octets → Except GzipFault Octets
  | 0, _ => .ok []
  | _ + 1, [] => ending.map fun _ => []
  | room + 1, piece :: pieces => do
    let rest ← collect ending (room + 1 - piece.length) pieces
    return piece.take (room + 1) ++ rest

/-- The room for data under a limit: one byte more, but no more than can be counted. -/
def room (limit : UInt64) : Nat := min (limit.toNat + 1) (2 ^ 64 - 1)

/-- Takes up a stream under a limit. -/
def readAll (limit : UInt64) (ending : Except GzipFault Unit) (pieces : List Octets) :
    Except CompressionFault Octets := do
  let data ← (collect ending (room limit) pieces).mapError .malformed
  if limit.toNat < data.length then .error (.exceeds limit.toNat) else .ok data

/-- The ending of a stream matters only if there is room for all of its data. -/
theorem collect_eq (ending : Except GzipFault Unit) (room : Nat) (pieces : List Octets) :
    collect ending room pieces =
      if room ≤ pieces.flatten.length then .ok (pieces.flatten.take room)
      else ending.map fun _ => pieces.flatten := by
  -- By induction on the pieces, while the room left gets less by each of them.
  induction pieces generalizing room with
  | nil =>
    cases room with
    | zero => rfl
    | succ room => rfl
  | cons piece pieces ih =>
    cases room with
    | zero => rw [collect, if_pos (Nat.zero_le _), List.take_zero]
    | succ room =>
      rw [collect, ih, List.flatten_cons, List.length_append]
      by_cases hroom : room + 1 - piece.length ≤ pieces.flatten.length
      · rw [if_pos hroom, if_pos (by omega), List.take_append]
        rfl
      · rw [if_neg hroom, if_neg (by omega)]
        have htake : piece.take (room + 1) = piece := List.take_of_length_le (by omega)
        rw [htake]
        cases ending <;> rfl

/-- **Room for one byte more.**  A stream that is taken up under a limit, in any pieces, gives what
is left of it under the limit. -/
theorem readAll_eq_within {s : Stream} {pieces : List Octets} (hpieces : pieces.flatten = s.data)
    (hlength : s.data.length < 2 ^ 64 - 1) (limit : UInt64) :
    readAll limit s.ending pieces = s.within limit.toNat := by
  unfold readAll Stream.within
  rw [collect_eq, hpieces]
  by_cases hlimit : limit.toNat < s.data.length
  · -- All the room is used up, and the last byte in it is one too many.
    have hroom : room limit = limit.toNat + 1 := by
      unfold room
      omega
    have htaken : limit.toNat < (s.data.take (limit.toNat + 1)).length := by
      rw [List.length_take]
      omega
    rw [hroom, if_pos hlimit, if_pos (Nat.succ_le_of_lt hlimit)]
    exact if_pos htaken
  · -- There is room left at the end of the data, so the ending is seen.
    have hroom : ¬ room limit ≤ s.data.length := by
      unfold room
      omega
    rw [if_neg hroom, if_neg hlimit]
    cases s.ending with
    | error cause => rfl
    | ok => exact if_neg hlimit

/-! ### One limit and another -/

/-- **Limits are transparent.**  Let there be no limit but the greatest one.  If the data of a
member is read, it is read under every limit that it is within, and under any other the fault is
that it exceeds the limit; if it is not read, it is read under no limit.  So whatever is read is
within its limit, is all of the data with its trailer checked, and is read under every higher limit
as well.

The reader under a limit takes up what the reader without one hands over, in any pieces, until it
has one byte more than the limit allows.  It learns how the stream ends only if it does not get that
far, and its outcome is the same.  There is no byte more than the greatest limit, but no data that
can be held comes near it. -/
theorem decompress_by_limit (bytes : Octets) :
    (∀ data, decompress (2 ^ 64 - 1) bytes = .ok data → ∀ limit : UInt64,
      decompress limit.toNat bytes =
          (if data.length ≤ limit.toNat then .ok data else .error (.exceeds limit.toNat)) ∧
        (CompressionFault.exceeds limit.toNat).message =
          s!"decompressed body exceeds {limit.toNat} bytes") ∧
    (∀ fault, decompress (2 ^ 64 - 1) bytes = .error fault → ∀ limit : UInt64,
      ∃ fault', decompress limit.toNat bytes = .error fault') ∧
    (∀ (limit : UInt64) data, decompress limit.toNat bytes = .ok data →
      data.length ≤ limit.toNat ∧ decompress (2 ^ 64 - 1) bytes = .ok data ∧
      (∀ limit' : UInt64, limit ≤ limit' → decompress limit'.toNat bytes = .ok data) ∧
      ∃ body front after, skipHeader bytes = .ok body ∧
        body = front ++ trailer data ++ after) ∧
    ∀ (limit : UInt64) (pieces : List Octets), pieces.flatten = (stream bytes).data →
      (stream bytes).data.length < 2 ^ 64 - 1 →
        decompress limit.toNat bytes = readAll limit (stream bytes).ending pieces := by
  have hgreatest (limit : UInt64) : limit.toNat ≤ 2 ^ 64 - 1 := Nat.le_sub_one_of_lt limit.toNat_lt
  simp only [decompress_eq_within]
  refine ⟨?_, ?_, ?_, ?_⟩
  · intro data hdata limit
    exact ⟨Stream.within_of_ok hdata limit.toNat, rfl⟩
  · intro fault hfault limit
    exact Stream.within_error_of_le hfault (hgreatest limit)
  · intro limit data hdata
    obtain ⟨hlength, hending, hall⟩ := Stream.within_eq_ok_iff.mp hdata
    -- Within a larger limit everything goes as before.
    have hread (limit' : Nat) (hle : limit.toNat ≤ limit') :
        (stream bytes).within limit' = .ok data :=
      Stream.within_eq_ok_iff.mpr ⟨Nat.le_trans hlength hle, hending, hall⟩
    refine ⟨hall ▸ hlength, hread _ (hgreatest limit), ?_, hall ▸ trailer_of_stream hending⟩
    intro limit' hle
    exact hread _ (UInt64.le_iff_toNat_le.mp hle)
  · intro limit pieces hpieces hlength
    exact (readAll_eq_within hpieces hlength limit).symm

/-- Three bytes are read under a limit of three, and exceed one of two. -/
theorem decompress_by_limit_sample :
    decompress 3 (compress [1, 2, 3]) = .ok [1, 2, 3] ∧
    decompress 2 (compress [1, 2, 3]) = .error (.exceeds 2) := by
  have hread : decompress (2 ^ 64 - 1) (compress [1, 2, 3]) = .ok [1, 2, 3] := by
    have happend := decompress_compress_append (2 ^ 64 - 1) [1, 2, 3] []
    rwa [List.append_nil, if_pos (by decide)] at happend
  obtain ⟨hwithin, -⟩ := decompress_by_limit (compress [1, 2, 3])
  exact ⟨(hwithin _ hread 3).1.trans (if_pos (by decide)),
    (hwithin _ hread 2).1.trans (if_neg (by decide))⟩

end Gzip
end WireCall
