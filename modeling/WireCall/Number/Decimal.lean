namespace WireCall

/-!
# Decimal naturals

Reading the digits of a natural.  Signs, blanks and separators are no digits, and leading zeros are
allowed.

Main statement: what `Nat.toDigits` writes reads back (`Decimal.read?_toDigits`).
-/

namespace Decimal

/-- The value of a decimal digit. -/
def digit? (c : Char) : Option Nat :=
  if '0' ≤ c ∧ c ≤ '9' then some (c.toNat - '0'.toNat) else none

/-- The number that the digits stand for, after those that stand for `acc`. -/
def readFrom (acc : Nat) : List Char → Option Nat
  | [] => some acc
  | c :: cs =>
    match digit? c with
    | some d => readFrom (10 * acc + d) cs
    | none => none

/-- The number that the digits stand for; there has to be at least one. -/
def read? : List Char → Option Nat
  | [] => none
  | c :: cs => readFrom 0 (c :: cs)

/-- Each of the ten digits is read as the number it is written for. -/
theorem digit?_digitChar {d : Nat} (h : d < 10) : digit? (Nat.digitChar d) = some d := by
  match d, h with
  | 0, _ | 1, _ | 2, _ | 3, _ | 4, _ | 5, _ | 6, _ | 7, _ | 8, _ | 9, _ => rfl

/-- Reading goes from left to right, so a text may be read in two parts. -/
theorem readFrom_append (acc : Nat) (cs ds : List Char) :
    readFrom acc (cs ++ ds) = (readFrom acc cs).bind fun n => readFrom n ds := by
  induction cs generalizing acc with
  | nil => rfl
  | cons c cs ih =>
    simp only [List.cons_append, readFrom]
    cases digit? c with
    | none => rfl
    | some d => exact ih _

/-- The decimal digits of a number are read as that number. -/
theorem readFrom_toDigits (n : Nat) : readFrom 0 (Nat.toDigits 10 n) = some n := by
  induction n using Nat.strongRecOn with
  | ind n ih =>
    by_cases small : n < 10
    · rw [Nat.toDigits_of_lt_base small]
      simp [readFrom, digit?_digitChar small]
    · -- The last digit is appended to the digits of the tenth part.
      have whole : 10 * (n / 10) + n % 10 = n := by omega
      rw [Nat.toDigits_of_base_le (by decide) (by omega), readFrom_append, ih (n / 10) (by omega)]
      simp [readFrom, digit?_digitChar (Nat.mod_lt n (by decide : 0 < 10)), whole]

/-- A written number is read back whole. -/
theorem read?_toDigits (n : Nat) : read? (Nat.toDigits 10 n) = some n := by
  have written := readFrom_toDigits n
  cases h : Nat.toDigits 10 n with
  | nil =>
    have nonempty := Nat.length_toDigits_pos (b := 10) (n := n)
    simp [h] at nonempty
  | cons c cs => rwa [h] at written

/-- There is a first digit, and it is a zero only for the number zero. -/
theorem exists_toDigits_eq_cons (n : Nat) :
    ∃ d cs, Nat.toDigits 10 n = Nat.digitChar d :: cs ∧ d < 10 ∧ (d = 0 → n = 0) := by
  induction n using Nat.strongRecOn with
  | ind n ih =>
    by_cases small : n < 10
    · exact ⟨n, [], Nat.toDigits_of_lt_base small, small, id⟩
    · -- The first digit is that of the tenth part.
      obtain ⟨d, cs, digits, hd, zero⟩ := ih (n / 10) (by omega)
      refine ⟨d, cs ++ [Nat.digitChar (n % 10)], ?_, hd, fun h => ?_⟩
      · rw [Nat.toDigits_of_base_le (by decide) (by omega), digits, List.cons_append]
      · have tenth := zero h
        omega

end Decimal
end WireCall
