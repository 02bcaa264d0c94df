import WireCall.Gzip.Inflate
import WireCall.Gzip.Deflate

namespace WireCall

/-!
# Tokens of the data

Cutting data into tokens loses nothing: `Token.apply` is what a reader does with a token, and the
tokens of the data, applied one after the other, give the data (`foldl_tokenize`).  All tokens are
in the range of the alphabet (`inRange_tokenize`).

A match comes from comparing bytes (`agreement`), so copying it extends a prefix of the data to a
longer prefix of the data, also where the copied bytes overlap the ones that are produced.
-/

namespace Gzip.Token

/-- The bytes produced so far with what the token adds to them. -/
def apply (out : Array UInt8) : Token → Array UInt8
  | literal b => out.push b
  | copy length distance => Inflate.copy out distance length

/-- The length and the distance of a match are ones that can be written. -/
def InRange : Token → Prop
  | literal _ => True
  | copy length distance => (3 ≤ length ∧ length ≤ 258) ∧ 1 ≤ distance ∧ distance ≤ 32768

/-- A copy adds its length to the output. -/
theorem size_copy (out : Array UInt8) (distance length : Nat) :
    (Inflate.copy out distance length).size = out.size + length := by
  induction length generalizing out with
  | zero => rfl
  | succ length ih =>
    rw [Inflate.copy, ih, Array.size_push]
    omega

/-- No token takes anything off the output. -/
theorem size_le_size_apply (out : Array UInt8) (token : Token) :
    out.size ≤ (token.apply out).size := by
  cases token with
  | literal b =>
    rw [apply, Array.size_push]
    exact Nat.le_succ _
  | copy length distance =>
    rw [apply, size_copy]
    exact Nat.le_add_right ..

/-- Tokens take nothing off the output. -/
theorem size_le_size_foldl (tokens : List Token) (out : Array UInt8) :
    out.size ≤ (tokens.foldl apply out).size := by
  induction tokens generalizing out with
  | nil => exact Nat.le_refl _
  | cons token tokens ih => exact Nat.le_trans (size_le_size_apply out token) (ih _)

end Gzip.Token

namespace Deflate

open Gzip

/-! ### Matches -/

/-- No more bytes are found to agree than are looked at. -/
theorem agreement_le (data : Array UInt8) (p i fuel : Nat) : agreement data p i fuel ≤ fuel := by
  induction fuel generalizing p i with
  | zero => exact Nat.le_refl _
  | succ fuel ih =>
    have hrest := ih (p + 1) (i + 1)
    rw [agreement]
    split <;> omega

/-- Another byte of the data behind a prefix of it. -/
theorem toList_push_take {data out : Array UInt8} {i : Nat} (hi : i < data.size)
    (hout : out.toList = data.toList.take i) :
    (out.push (data.getD i 0)).toList = data.toList.take (i + 1) := by
  have hget : data.toList[i]? = some (data.getD i 0) := by
    rw [Array.getElem?_toList, Array.getD_eq_getD_getElem?, Array.getElem?_eq_getElem hi]
    rfl
  rw [Array.toList_push, hout, List.take_add_one, hget]
  rfl

/-- Copying as many bytes as agree extends a prefix of the data. -/
theorem toList_copy_agreement {data out : Array UInt8} {p i : Nat} (hp : p < i)
    (hout : out.toList = data.toList.take i) (fuel : Nat) :
    (Inflate.copy out (i - p) (agreement data p i fuel)).toList =
      data.toList.take (i + agreement data p i fuel) := by
  induction fuel generalizing p i out with
  | zero => exact hout
  | succ fuel ih =>
    rw [agreement]
    by_cases hsame : i < data.size ∧ data.getD p 0 = data.getD i 0
    · obtain ⟨hi, hbyte⟩ := hsame
      -- All bytes up to the place are in the output, so the byte to copy is that of the data.
      have hsize : out.size = i := by
        have hlength := congrArg List.length hout
        rw [List.length_take, Array.length_toList, Array.length_toList] at hlength
        omega
      have hcopied : (if i - p ≤ out.size then out.getD (out.size - (i - p)) 0 else 0) =
          data.getD i 0 := by
        have hindex : out.size - (i - p) = p := by omega
        have hget : out[p]? = data[p]? := by
          rw [← Array.getElem?_toList, hout, List.getElem?_take_of_lt hp, Array.getElem?_toList]
        rw [if_pos (by omega), hindex, ← hbyte, Array.getD_eq_getD_getElem?, hget,
          Array.getD_eq_getD_getElem?]
      have hdistance : i - p = i + 1 - (p + 1) := by omega
      have hnext : (Inflate.copy (out.push (data.getD i 0)) (i + 1 - (p + 1))
          (agreement data (p + 1) (i + 1) fuel)).toList =
            data.toList.take (i + 1 + agreement data (p + 1) (i + 1) fuel) :=
        ih (Nat.succ_lt_succ hp) (toList_push_take hi hout)
      rw [if_pos ⟨hi, hbyte⟩, Inflate.copy, hcopied, hdistance, hnext, Nat.add_assoc,
        Nat.add_comm 1]
    · rw [if_neg hsame]
      exact hout

/-- A match lies before the place, within the window, and is as long as the two places agree. -/
theorem of_lengthAt? {data : Array UInt8} {p i length : Nat}
    (h : lengthAt? data p i = some length) :
    p < i ∧ i - p ≤ 32768 ∧ 3 ≤ length ∧ length = agreement data p i 258 := by
  rw [lengthAt?] at h
  split at h
  · rename_i hplace
    simp only at h
    split at h
    · rename_i hlong
      obtain rfl := Option.some.inj h
      exact ⟨hplace.1, hplace.2, hlong, rfl⟩
    · cases h
  · cases h

/-! ### Runs of the tokenizer -/

/-- The tokens in `got`, the latest first, can be written and stand for the first `i` bytes of the
data. -/
structure Covers (data : Array UInt8) (i : Nat) (got : List Token) : Prop where
  inRange : ∀ token ∈ got, token.InRange
  replay : (got.reverse.foldl Token.apply #[]).toList = data.toList.take i

/-- A literal covers one byte more. -/
theorem Covers.literal {data : Array UInt8} {i : Nat} {got : List Token} (h : Covers data i got)
    (hi : i < data.size) : Covers data (i + 1) (.literal data[i] :: got) := by
  have hbyte : data.getD i 0 = data[i] := by
    rw [Array.getD_eq_getD_getElem?, Array.getElem?_eq_getElem hi]
    rfl
  constructor
  · intro token htoken
    rcases List.mem_cons.mp htoken with rfl | htoken
    · trivial
    · exact h.inRange token htoken
  · rw [List.reverse_cons, List.foldl_append, ← hbyte]
    exact toList_push_take hi h.replay

/-- A copy covers as many bytes more as agree. -/
theorem Covers.copy {data : Array UInt8} {p i length : Nat} {got : List Token}
    (h : Covers data i got) (hlength : lengthAt? data p i = some length) :
    Covers data (i + length) (.copy length (i - p) :: got) := by
  obtain ⟨hp, hdistance, hlow, rfl⟩ := of_lengthAt? hlength
  constructor
  · intro token htoken
    rcases List.mem_cons.mp htoken with rfl | htoken
    · exact ⟨⟨hlow, agreement_le data p i 258⟩, by omega, hdistance⟩
    · exact h.inRange token htoken
  · rw [List.reverse_cons, List.foldl_append]
    exact toList_copy_agreement hp h.replay 258

/-- The tokenizer covers more and more of the data until it has covered all of it. -/
theorem covers_tokenizeFrom {data : Array UInt8} {i : Nat} {seen : Array Nat} {got : List Token}
    (h : Covers data i got) :
    ∃ stop, data.size ≤ stop ∧ Covers data stop (tokenizeFrom data i seen got).reverse := by
  fun_induction tokenizeFrom data i seen got with
  | case1 i seen got hi candidate seen' length hlength ih => exact ih (h.copy hlength)
  | case2 i seen got hi candidate seen' hnone ih => exact ih (h.literal hi)
  | case3 i seen got hi => exact ⟨i, Nat.le_of_not_lt hi, by rwa [List.reverse_reverse]⟩

/-- The tokens found in data cover all of it. -/
theorem covers_tokenize (data : Array UInt8) :
    ∃ stop, data.size ≤ stop ∧ Covers data stop (tokenize data).reverse :=
  covers_tokenizeFrom ⟨by simp, by simp⟩

/-- Every token of the data can be written. -/
theorem inRange_tokenize (data : Array UInt8) : ∀ token ∈ tokenize data, token.InRange := by
  obtain ⟨stop, -, hcovers⟩ := covers_tokenize data
  intro token htoken
  exact hcovers.inRange token (List.mem_reverse.mpr htoken)

/-- The tokens of the data stand for the data. -/
theorem foldl_tokenize (data : Array UInt8) : (tokenize data).foldl Token.apply #[] = data := by
  obtain ⟨stop, hstop, hcovers⟩ := covers_tokenize data
  have hreplay := hcovers.replay
  rw [List.reverse_reverse, List.take_of_length_le (by rwa [Array.length_toList])] at hreplay
  exact Array.toList_inj.mp hreplay

end Deflate
end WireCall
