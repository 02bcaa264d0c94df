import WireCall.Protobuf.Reader
import WireCall.Proofs.Recovery

namespace WireCall.Protobuf

/-!
# The integers of a response

The code and the two tags of a response travel as varints and have less room in the response.  They
become narrower in two steps: each varint is cut to its low 32 bits when its field is read, and what
is left then has to fit (`ResponseDraft.finish`).  Only the second step refuses anything.

Of several fields with one number the last one counts (`foldlM_last`), so the integers of an
accepted response are those of the last varints, cut to 32 bits.  As long as these varints are in
the range of 32 bits the cut changes nothing, and both steps together are the check of the range
(`Integers.cut_eq_onWire`).

Main statement: what an accepted response has for integers, and when it is refused for them
(`decode_narrows`).  A varint that is wider than 32 bits and has low bits that fit is not refused
(`decode_narrows_wraps`).
-/

/-! ### Integers on the wire -/

/-- The varint of the field, if it is a varint with the given number. -/
def Field.varint? (number : Nat) : Field → Option Nat
  | ⟨found, .varint n⟩ => if found = number then some n else none
  | _ => none

/-- The last varint with the given number; zero if there is none. -/
def lastVarint (number : Nat) (fields : List Field) : Nat :=
  (fields.filterMap (Field.varint? number)).getLastD 0

/-- The integer whose two's complement in 64 bits the varint is. -/
def signed64 (n : Nat) : Int :=
  if n < 0x8000000000000000 then n else (n : Int) - 0x10000000000000000

/-- The integers of a response that have less room than a varint. -/
structure Integers where
  code : Int
  compression : Int
  serialization : Int
deriving DecidableEq

namespace Integers

/-- The integers are in the ranges that they have in a response. -/
def Fit (n : Integers) : Prop :=
  (-0x8000 ≤ n.code ∧ n.code < 0x8000) ∧ (0 ≤ n.compression ∧ n.compression < 0x100) ∧
    0 ≤ n.serialization ∧ n.serialization < 0x100

/-- The integers are in the ranges of 32 bits. -/
def FitIn32 (n : Integers) : Prop :=
  (-0x80000000 ≤ n.code ∧ n.code < 0x80000000) ∧
    (0 ≤ n.compression ∧ n.compression < 0x100000000) ∧
      0 ≤ n.serialization ∧ n.serialization < 0x100000000

instance (n : Integers) : Decidable n.Fit :=
  inferInstanceAs (Decidable ((_ ∧ _) ∧ (_ ∧ _) ∧ _ ∧ _))

instance (n : Integers) : Decidable n.FitIn32 :=
  inferInstanceAs (Decidable ((_ ∧ _) ∧ (_ ∧ _) ∧ _ ∧ _))

/-- The integers that the varints stand for. -/
def onWire (fields : List Field) : Integers :=
  ⟨signed64 (lastVarint 2 fields), lastVarint 4 fields, lastVarint 5 fields⟩

/-- The integers that the low 32 bits of the varints stand for. -/
def cut (fields : List Field) : Integers :=
  ⟨signedLow32 (lastVarint 2 fields), low32 (lastVarint 4 fields), low32 (lastVarint 5 fields)⟩

/-- The integers in a response. -/
def ofResponse (r : Response) : Integers :=
  ⟨r.code.toInt, r.compression.toNat, r.serialization.toNat⟩

/-- A number of 32 bits is not changed by cutting it to them. -/
theorem signedLow32_eq {n : Nat} (h : -0x80000000 ≤ signed64 n ∧ signed64 n < 0x80000000) :
    signedLow32 n = signed64 n := by
  rw [signed64] at h
  rw [signedLow32, low32, signed64]
  split at h
  · rename_i hsmall
    rw [if_pos hsmall]
    split <;> omega
  · rename_i hlarge
    rw [if_neg hlarge]
    split <;> omega

/-- Integers that fit in 32 bits are not changed by the cut. -/
theorem cut_eq_onWire {fields : List Field} (h : (onWire fields).FitIn32) :
    cut fields = onWire fields := by
  obtain ⟨hcode, ⟨-, hcompression⟩, -, hserialization⟩ := h
  have hlow {n : Nat} (hn : (n : Int) < 0x100000000) : low32 n = n :=
    Nat.mod_eq_of_lt (by omega)
  rw [cut, onWire, signedLow32_eq hcode, hlow hcompression, hlow hserialization]

end Integers

/-! ### Reading -/

/-- A part of the draft that each varint of one number replaces is in the end that of the last
one. -/
theorem foldlM_last {α : Type} {part : ResponseDraft → α} {number : Nat} {taken : Nat → α}
    (hstep : ∀ {draft next field}, ResponseDraft.step draft field = .ok next →
      part next = (field.varint? number).elim (part draft) taken)
    {fields : List Field} {draft next : ResponseDraft}
    (h : fields.foldlM ResponseDraft.step draft = .ok next) {n : Nat}
    (hdraft : part draft = taken n) :
    part next = taken ((fields.filterMap (Field.varint? number)).getLastD n) := by
  -- `n` is the last varint so far: the draft has what was made of it.
  induction fields generalizing draft n with
  | nil =>
    obtain rfl := Except.ok.inj h
    exact hdraft
  | cons field fields ih =>
    rw [List.foldlM_cons] at h
    obtain ⟨draft', hdraft', h⟩ := bind_eq_ok_iff.mp h
    have hpart := hstep hdraft'
    rw [List.filterMap_cons]
    cases hfield : field.varint? number with
    | none =>
      rw [hfield] at hpart
      exact ih h (hpart.trans hdraft)
    | some m =>
      rw [hfield] at hpart
      rw [List.getLastD_cons]
      exact ih h hpart

/-- A field sets the integer of its number, cut to 32 bits, and keeps the others. -/
theorem ResponseDraft.step_integers {draft next : ResponseDraft} {field : Field}
    (h : step draft field = .ok next) :
    next.code = (field.varint? 2).elim draft.code signedLow32 ∧
      next.compression = (field.varint? 4).elim draft.compression low32 ∧
        next.serialization = (field.varint? 5).elim draft.serialization low32 := by
  obtain ⟨number, payload⟩ := field
  rw [step] at h
  dsimp only at h
  -- Each field sets one integer at most.
  split at h
  · obtain rfl := Except.ok.inj h
    exact ⟨rfl, rfl, rfl⟩
  · obtain rfl := Except.ok.inj h
    exact ⟨rfl, rfl, rfl⟩
  · obtain ⟨s, -, h⟩ := bind_eq_ok_iff.mp h
    obtain rfl := Except.ok.inj h
    exact ⟨rfl, rfl, rfl⟩
  · obtain rfl := Except.ok.inj h
    exact ⟨rfl, rfl, rfl⟩
  · obtain rfl := Except.ok.inj h
    exact ⟨rfl, rfl, rfl⟩
  · obtain ⟨data, -, h⟩ := bind_eq_ok_iff.mp h
    obtain rfl := Except.ok.inj h
    exact ⟨rfl, rfl, rfl⟩
  · cases h

/-- The integers of the draft at the end. -/
theorem integers_of_foldlM {fields : List Field} {draft : ResponseDraft}
    (h : fields.foldlM ResponseDraft.step {} = .ok draft) :
    (⟨draft.code, draft.compression, draft.serialization⟩ : Integers) = .cut fields := by
  have hcode := foldlM_last (fun hstep => (ResponseDraft.step_integers hstep).1) h
    (n := 0) rfl
  have hcompression := foldlM_last (fun hstep => (ResponseDraft.step_integers hstep).2.1) h
    (n := 0) rfl
  have hserialization := foldlM_last (fun hstep => (ResponseDraft.step_integers hstep).2.2) h
    (n := 0) rfl
  rw [hcode, hcompression, hserialization]
  rfl

/-- A draft makes a response only if its integers fit, and the response has them. -/
theorem ResponseDraft.finish_eq_ok {draft : ResponseDraft} {r : Response}
    (h : draft.finish = .ok r) :
    (⟨draft.code, draft.compression, draft.serialization⟩ : Integers).Fit ∧
      Integers.ofResponse r = ⟨draft.code, draft.compression, draft.serialization⟩ := by
  have hmin : IntKind.i16.min = -0x8000 := rfl
  have hmax : IntKind.i16.max = 0x7fff := rfl
  rw [finish, hmin, hmax] at h
  split at h
  · cases h
  · rename_i hcode
    -- The three checks have passed, so nothing is lost in narrowing.
    split at h
    · cases h
    · rename_i hcompression
      split at h
      · cases h
      · rename_i hserialization
        obtain rfl := Except.ok.inj h
        have hsigned : (Int16.ofInt draft.code).toInt = draft.code :=
          Int16.toInt_ofInt_of_le (by omega) (by omega)
        have htag {n : Nat} (hn : ¬ 255 < n) : (UInt8.ofNat n).toNat = n := by
          rw [UInt8.toNat_ofNat']
          omega
        constructor
        · simp only [Integers.Fit]
          omega
        · rw [Integers.ofResponse, hsigned, htag hcompression, htag hserialization]

/-- A response is read only with the integers of its fields, cut to 32 bits, and only if these fit.
-/
theorem decode_response_eq_ok {bytes : Octets} {m : Message}
    (h : decode .response bytes = .ok m) :
    ∃ r fields, m = .response r ∧ readFields (.upTo 6) nestingLimit bytes = .ok fields ∧
      (Integers.cut fields).Fit ∧ Integers.ofResponse r = .cut fields := by
  obtain ⟨r, hr, rfl⟩ := map_eq_ok_iff.mp h
  obtain ⟨draft, hdraft, hfinish⟩ := bind_eq_ok_iff.mp hr
  obtain ⟨fields, hfields, hfold⟩ := bind_eq_ok_iff.mp (mapError_eq_ok_iff.mp hdraft)
  have hfinish := ResponseDraft.finish_eq_ok hfinish
  rw [integers_of_foldlM hfold] at hfinish
  exact ⟨r, fields, rfl, hfields, hfinish⟩

/-- **The integers of a response.**  An accepted response has the low 32 bits of the last varints
for its code and tags, zero where there is none, and one whose integers do not fit then is refused.
So as long as the last varints are in the range of 32 bits, a response is refused if they do not
fit, and has exactly them otherwise. -/
theorem decode_narrows (bytes : Octets) :
    (∀ m, decode .response bytes = .ok m →
      ∃ r fields, m = .response r ∧ readFields (.upTo 6) nestingLimit bytes = .ok fields ∧
        Integers.ofResponse r = .cut fields) ∧
    ∀ fields, readFields (.upTo 6) nestingLimit bytes = .ok fields →
      (¬ (Integers.cut fields).Fit → ∃ fault, decode .response bytes = .error fault) ∧
      ((Integers.onWire fields).FitIn32 →
        (¬ (Integers.onWire fields).Fit → ∃ fault, decode .response bytes = .error fault) ∧
        ∀ r, decode .response bytes = .ok (.response r) →
          Integers.ofResponse r = .onWire fields) := by
  refine ⟨fun m h => ?_, fun fields hfields => ?_⟩
  · obtain ⟨r, fields, hm, hfields, -, hintegers⟩ := decode_response_eq_ok h
    exact ⟨r, fields, hm, hfields, hintegers⟩
  · -- The fields read are the ones given, so all is said by them.
    have hread {m : Message} (h : decode .response bytes = .ok m) :
        (Integers.cut fields).Fit ∧ ∀ r, m = .response r → Integers.ofResponse r = .cut fields := by
      obtain ⟨r, fields', rfl, hfields', hfit, hintegers⟩ := decode_response_eq_ok h
      obtain rfl : fields' = fields := Except.ok.inj (hfields'.symm.trans hfields)
      exact ⟨hfit, fun r' hr' => Message.response.inj hr' ▸ hintegers⟩
    have hrefused (hfit : ¬ (Integers.cut fields).Fit) :
        ∃ fault, decode .response bytes = .error fault := by
      cases h : decode .response bytes with
      | ok m => exact absurd (hread h).1 hfit
      | error fault => exact ⟨fault, rfl⟩
    refine ⟨hrefused, fun hsmall => ?_⟩
    rw [← Integers.cut_eq_onWire hsmall]
    exact ⟨hrefused, fun r h => (hread h).2 r rfl⟩

/-- The code 200 with a tag for its compression. -/
theorem decode_narrows_sample :
    readFields (.upTo 6) nestingLimit [0x10, 0xc8, 0x01, 0x20, 0x01] =
        .ok [⟨2, .varint 200⟩, ⟨4, .varint 1⟩] ∧
      (Integers.onWire [⟨2, .varint 200⟩, ⟨4, .varint 1⟩]).FitIn32 ∧
      decode .response [0x10, 0xc8, 0x01, 0x20, 0x01] =
        .ok (.response ⟨0, 200, "", 1, 0, .null⟩) ∧
      Integers.ofResponse ⟨0, 200, "", 1, 0, .null⟩ = ⟨200, 1, 0⟩ := by
  have hfields : readFields (.upTo 6) nestingLimit [0x10, 0xc8, 0x01, 0x20, 0x01] =
      .ok [⟨2, .varint 200⟩, ⟨4, .varint 1⟩] := rfl
  have hsmall : (Integers.onWire [⟨2, .varint 200⟩, ⟨4, .varint 1⟩]).FitIn32 := by decide
  have hdecode : decode .response [0x10, 0xc8, 0x01, 0x20, 0x01] =
      .ok (.response ⟨0, 200, "", 1, 0, .null⟩) := by
    rw [decode, decodeResponse, readResponse, hfields]
    rfl
  exact ⟨hfields, hsmall, hdecode, (((decode_narrows _).2 _ hfields).2 hsmall).2 _ hdecode⟩

/-- The varint `2 ^ 32 + 200` is not in the range of a code, and its low bits are the code 200. -/
theorem decode_narrows_wraps :
    ∃ fields, readFields (.upTo 6) nestingLimit [0x10, 0xc8, 0x81, 0x80, 0x80, 0x10] =
        .ok fields ∧
      (Integers.onWire fields).code = 0x1000000c8 ∧ ¬ (Integers.onWire fields).Fit ∧
      decode .response [0x10, 0xc8, 0x81, 0x80, 0x80, 0x10] =
        .ok (.response ⟨0, 200, "", 0, 0, .null⟩) := by
  have hfields : readFields (.upTo 6) nestingLimit [0x10, 0xc8, 0x81, 0x80, 0x80, 0x10] =
      .ok [⟨2, .varint 0x1000000c8⟩] := rfl
  refine ⟨_, hfields, by decide, by decide, ?_⟩
  rw [decode, decodeResponse, readResponse, hfields]
  rfl

end WireCall.Protobuf
