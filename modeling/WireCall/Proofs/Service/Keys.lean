import WireCall.Service.Scalar

namespace WireCall

/-!
# Keys of mappings

The members of an object have texts for keys, and a mapping may be keyed by truth values, integers,
characters or texts all the same: each of their values is written as a key, from which the same
value is read (`Shape.Keyable.exists_decodeKey_eq_ok`), so no two keys of a mapping fall together in
the object (`Shape.Keyable.encodeKey_inj`).  For integers this is because a numeral is scanned just
as far as it was written (`Numeral.scan_write`).

No other type can be relied on to have keys (`Shape.exists_encodeKey_eq_error`).
-/

/-! ### Integers in digits -/

namespace Numeral

/-- Digits that can all be read are read to the end, and stand for the same number. -/
theorem digits_of_readFrom {acc m : Nat} {cs : List Char} (h : Decimal.readFrom acc cs = some m) :
    ∃ ds, digits cs = (ds, []) ∧ ds.foldl (fun acc d => 10 * acc + d) acc = m := by
  induction cs generalizing acc with
  | nil => exact ⟨[], rfl, Option.some.inj h⟩
  | cons c cs ih =>
    rw [Decimal.readFrom] at h
    cases hdigit : Decimal.digit? c with
    | none =>
      rw [hdigit] at h
      cases h
    | some d =>
      rw [hdigit] at h
      obtain ⟨ds, hds, hvalue⟩ := ih h
      refine ⟨d :: ds, ?_, hvalue⟩
      rw [digits, hdigit, hds]

/-- The digits of a natural are read to the end, and stand for it. -/
theorem digits_toDigits (n : Nat) : ∃ ds, digits (Nat.toDigits 10 n) = (ds, []) ∧ ofDigits ds = n :=
  digits_of_readFrom (Decimal.readFrom_toDigits n)

/-- Digits that begin with no zero, or with one that stands alone, are taken as they are. -/
theorem scanWhole_of_digits {cs rest : List Char} {d : Nat} {ds : List Nat}
    (hdigits : digits cs = (d :: ds, rest)) (hzero : d = 0 → ds = []) :
    scanWhole cs = .ok (d :: ds, rest) := by
  rw [scanWhole, someDigits, hdigits]
  by_cases hd : d = 0
  · subst hd
    rw [hzero rfl]
    rfl
  · obtain ⟨d, rfl⟩ := Nat.exists_eq_succ_of_ne_zero hd
    rfl

/-- The digits of a natural have no needless zero in front. -/
theorem scanWhole_toDigits (n : Nat) :
    ∃ ds, scanWhole (Nat.toDigits 10 n) = .ok (ds, []) ∧ ofDigits ds = n := by
  obtain ⟨ds, hdigits, hvalue⟩ := digits_toDigits n
  obtain ⟨d, cs, hcons, hlt, hzero⟩ := Decimal.exists_toDigits_eq_cons n
  have hfirst : d :: (digits cs).1 = ds := by
    rw [hcons, digits, Decimal.digit?_digitChar hlt] at hdigits
    exact (Prod.mk.inj hdigits).1
  refine ⟨ds, ?_, hvalue⟩
  subst hfirst
  refine scanWhole_of_digits hdigits fun hd => ?_
  -- Only the number zero begins with a zero, and it has no other digit.
  obtain rfl := hzero hd
  obtain ⟨-, rfl⟩ := List.cons.inj hcons
  rfl

/-- What is written for an integer is its sign and its digits. -/
theorem scanMinus_write (i : Int) :
    scanMinus (write i) = (decide (i < 0), Nat.toDigits 10 i.natAbs) := by
  unfold write
  by_cases hneg : i < 0
  · rw [if_pos hneg, decide_eq_true hneg]
    rfl
  · rw [if_neg hneg, decide_eq_false hneg]
    -- No digit is a minus.
    obtain ⟨d, cs, hcons, hlt, -⟩ := Decimal.exists_toDigits_eq_cons i.natAbs
    have hdigit : ∀ d < 10, Nat.digitChar d ≠ '-' := by decide
    rw [hcons, scanMinus]
    exact fun cs' h => hdigit d hlt (List.cons.inj h).1

/-- The sign and the magnitude of an integer make the integer. -/
theorem signed_natAbs (i : Int) : signed (decide (i < 0)) i.natAbs = i := by
  unfold signed
  by_cases hneg : i < 0
  · rw [decide_eq_true hneg, if_pos rfl]
    omega
  · rw [decide_eq_false hneg, if_neg Bool.false_ne_true]
    omega

/-- A numeral is scanned just as far as an integer was written, and it has no other parts. -/
theorem scan_write (i : Int) : ∃ ds, ofDigits ds = i.natAbs ∧
    scan (write i) = .ok (⟨decide (i < 0), ds, [], none⟩, []) := by
  obtain ⟨ds, hwhole, hvalue⟩ := scanWhole_toDigits i.natAbs
  refine ⟨ds, hvalue, ?_⟩
  rw [scan, scanMinus_write]
  dsimp only
  rw [hwhole]
  rfl

/-- An integer of 64 bits is the number of the numeral that is written for it. -/
theorem value?_of_ofDigits {ds : List Nat} (i : WireInt) (hvalue : ofDigits ds = i.val.natAbs) :
    value? ⟨decide (i.val < 0), ds, [], none⟩ = some (.int i) := by
  have hsign : ¬ (decide (i.val < 0) = true ∧ ofDigits ds = 0) := by
    rw [decide_eq_true_iff, hvalue]
    omega
  have hinteger : integer? ⟨decide (i.val < 0), ds, [], none⟩ = some i := by
    rw [integer?, if_pos ⟨rfl, rfl, hsign⟩, hvalue, signed_natAbs, WireInt.ofInt?_val]
  rw [value?, hinteger]

/-- What is written for an integer begins with a digit or a minus. -/
theorem head?_write (i : Int) :
    (write i).head?.any (fun c => c = '-' ∨ (Decimal.digit? c).isSome) = true := by
  unfold write
  by_cases hneg : i < 0
  · rw [if_pos hneg]
    rfl
  · rw [if_neg hneg]
    obtain ⟨d, cs, hcons, hlt, -⟩ := Decimal.exists_toDigits_eq_cons i.natAbs
    rw [hcons]
    simp [Decimal.digit?_digitChar hlt]

end Numeral

/-! ### Keys of integers -/

namespace IntKind

variable {kind : IntKind}

/-- A reader that reads all that is written for an integer reads the key. -/
theorem decodeNumeralKey_write {α : Type} {read : List Char → Except Mismatch (α × List Char)}
    {i : Int} {a : α} (hread : read (Numeral.write i) = .ok (a, [])) :
    decodeNumeralKey read (String.ofList (Numeral.write i)) = .ok a := by
  rw [decodeNumeralKey, String.toList_ofList, if_pos (Numeral.head?_write i), hread]
  rfl

/-- The digits of an integer of 128 bits are read one by one. -/
theorem decodeWide_write (a : kind.Carrier) :
    kind.decodeWide (Numeral.write a.val) = .ok (a, []) := by
  obtain ⟨ds, hwhole, hvalue⟩ := Numeral.scanWhole_toDigits a.val.natAbs
  have hsign : ¬ (decide (a.val < 0) = true ∧ kind = .u128) := by
    rintro ⟨hneg, rfl⟩
    have hlower : (0 : Int) ≤ a.val := a.lower
    have hneg := of_decide_eq_true hneg
    omega
  rw [decodeWide, Numeral.scanMinus_write]
  dsimp only
  rw [if_neg hsign, hwhole]
  dsimp only
  rw [hvalue, Numeral.signed_natAbs, ofInt?_val]

/-- An integer of at most 64 bits can be carried. -/
theorem exists_wireInt (hsigned : kind ≠ .i128) (hunsigned : kind ≠ .u128) (a : kind.Carrier) :
    ∃ n : WireInt, n.val = a.val := by
  have hlower : -9223372036854775808 ≤ kind.min := by
    cases kind <;> simp [min] at hsigned ⊢
  have hupper : kind.max < 18446744073709551616 := by
    cases kind <;> simp [max] at hsigned hunsigned ⊢
  have ha := a.lower
  have ha' := a.upper
  exact ⟨⟨a.val, by omega, by omega⟩, rfl⟩

/-- An integer of at most 64 bits is read as a number. -/
theorem decodeNumeral_write (hsigned : kind ≠ .i128) (hunsigned : kind ≠ .u128) (a : kind.Carrier) :
    decodeNumeral kind.decode (Numeral.write a.val) = .ok (a, []) := by
  obtain ⟨n, hn⟩ := exists_wireInt hsigned hunsigned a
  obtain ⟨ds, hvalue, hscan⟩ := Numeral.scan_write a.val
  have hnumber := Numeral.value?_of_ofDigits n (hn ▸ hvalue)
  have hdecode : kind.decode (.int n) = .ok a := by
    rw [IntKind.decode, hn, ofInt?_val]
  rw [hn] at hnumber
  rw [decodeNumeral, hscan]
  dsimp only
  rw [hnumber]
  dsimp only
  rw [hdecode]

/-- An integer of any width is read back from its digits. -/
theorem decodeKey_write (a : kind.Carrier) :
    kind.decodeKey (String.ofList (Numeral.write a.val)) = .ok a := by
  unfold decodeKey
  by_cases hwide : kind = .i128 ∨ kind = .u128
  · rw [if_pos hwide]
    exact decodeNumeralKey_write (decodeWide_write a)
  · rw [if_neg hwide]
    have hnarrow := not_or.mp hwide
    exact decodeNumeralKey_write (decodeNumeral_write hnarrow.1 hnarrow.2 a)

end IntKind

/-! ### Keys of any type -/

namespace Shape

/-- A type whose values are all keys, each one another key. -/
inductive Keyable : Shape → Prop
  | bool : Keyable .bool
  | int {kind : IntKind} : Keyable (.int kind)
  | char : Keyable .char
  | text : Keyable .text

/-- What is written for a value is a key from which the value is read. -/
theorem Keyable.exists_decodeKey_eq_ok {s : Shape} (h : s.Keyable) (x : s.Carrier) :
    ∃ k, s.encodeKey x = .ok k ∧ s.decodeKey k = .ok x := by
  cases h with
  | bool =>
    cases x with
    | false => exact ⟨"false", rfl, rfl⟩
    | true => exact ⟨"true", rfl, rfl⟩
  | int => exact ⟨_, rfl, IntKind.decodeKey_write x⟩
  | char => exact ⟨String.singleton x, rfl, decodeChar_singleton x⟩
  | text => exact ⟨x, rfl, rfl⟩

/-- No two values are the same key. -/
theorem Keyable.encodeKey_inj {s : Shape} (h : s.Keyable) {x y : s.Carrier}
    (heq : s.encodeKey x = s.encodeKey y) : x = y := by
  obtain ⟨k, hk, hx⟩ := h.exists_decodeKey_eq_ok x
  obtain ⟨k', hk', hy⟩ := h.exists_decodeKey_eq_ok y
  obtain rfl := Except.ok.inj (hk.symm.trans (heq.trans hk'))
  exact Except.ok.inj (hx.symm.trans hy)

/-- Every other type has a value that is no key: one that is absent, that has parts or that is no
finite float. -/
theorem exists_encodeKey_eq_error {s : Shape} (h : ¬ s.Keyable) :
    ∃ x cause, s.encodeKey x = .error cause := by
  cases s with
  | bool => exact absurd .bool h
  | int kind => exact absurd .int h
  | char => exact absurd .char h
  | text => exact absurd .text h
  | single => exact ⟨(⟨0x7f800000⟩ : Binary32), .keyNotFinite, rfl⟩
  | double => exact ⟨Binary64.infinity, .keyNotFinite, rfl⟩
  | any => exact ⟨Value.null, .keyNotText, rfl⟩
  | unit | optional _ | list _ | array _ _ | mapping _ _ | tuple _ | record _ _ =>
    exact ⟨zero _, .keyNotText, rfl⟩

end Shape
end WireCall
