import Mathlib.Logic.Basic
import WireCall.Proofs.Document.Grammar

namespace WireCall.Document

/-!
# Reading numbers

`NumberPart.Moves` lists what a character does to the machine inside a number, and every fact about
numbers is derived from this list.

The part in which the machine is says what has been read so far (`NumberPart.Begun`), and each move
leads from what was read to what is now read (`Begun.next`).  So where a number may end, a number
has been read (`Begun.number`).  The other way round, the machine runs through the pieces of a
number one after the other, and may end behind the last one (`exists_runs`).
-/

/-! ### One more digit -/

section Digits

variable {c : Char} (hdigit : IsDigit c)

include hdigit

/-- Digits with one more digit are digits. -/
theorem forall_isDigit_snoc {ds : List Char} (h : ∀ c ∈ ds, IsDigit c) :
    ∀ c' ∈ ds ++ [c], IsDigit c' := by
  intro c' hc'
  rcases List.mem_append.mp hc' with hc' | hc'
  · exact h c' hc'
  · rwa [List.mem_singleton.mp hc']

theorem Digits.one : Digits [c] :=
  ⟨List.cons_ne_nil c [], fun _ hc' => List.mem_singleton.mp hc' ▸ hdigit⟩

/-- A row of digits may go on with a digit. -/
theorem Digits.snoc {ds : List Char} (h : Digits ds) : Digits (ds ++ [c]) :=
  ⟨by simp, forall_isDigit_snoc hdigit h.2⟩

theorem Counting.snoc {w : List Char} (h : Counting w) : Counting (w ++ [c]) := by
  obtain ⟨d, ds, rfl, hd, hzero, hds⟩ := h
  exact ⟨d, ds ++ [c], rfl, hd, hzero, forall_isDigit_snoc hdigit hds⟩

theorem Fraction.snoc {f : List Char} (h : Fraction f) : Fraction (f ++ [c]) := by
  obtain ⟨ds, rfl, hds⟩ := h
  exact ⟨ds ++ [c], rfl, Digits.snoc hdigit hds⟩

theorem Exponent.snoc {e : List Char} (h : Exponent e) : Exponent (e ++ [c]) := by
  obtain ⟨e, sign, ds, rfl, he, hsign, hds⟩ := h
  exact ⟨e, sign, ds ++ [c], by simp, he, hsign, Digits.snoc hdigit hds⟩

end Digits

/-- A whole number is a mantissa. -/
theorem Mantissa.of_whole {w : List Char} (hw : Whole w) : Mantissa w :=
  ⟨w, [], (List.append_nil w).symm, hw, .inl rfl⟩

namespace Lexer.NumberPart

/-! ### What a character does -/

/-- The character leads from the one part to the other. -/
inductive Moves : NumberPart → Char → NumberPart → Prop
  | zero : Moves sign '0' zero
  | first {c : Char} (hdigit : IsDigit c) (hzero : c ≠ '0') : Moves sign c whole
  | more {c : Char} (hdigit : IsDigit c) : Moves whole c whole
  | point {part : NumberPart} (hpart : part = .zero ∨ part = whole) : Moves part '.' point
  | fraction {part : NumberPart} {c : Char} (hpart : part = .point ∨ part = .fraction)
      (hdigit : IsDigit c) : Moves part c fraction
  | exponent {part : NumberPart} {c : Char}
      (hpart : part = .zero ∨ part = whole ∨ part = .fraction) (hc : c = 'e' ∨ c = 'E') :
      Moves part c exponent
  | exponentSign {c : Char} (hc : c = '+' ∨ c = '-') : Moves .exponent c exponentSign
  | exponentDigits {part : NumberPart} {c : Char}
      (hpart : part = .exponent ∨ part = .exponentSign ∨ part = .exponentDigits)
      (hdigit : IsDigit c) : Moves part c exponentDigits

/-- Every move of the grammar is a step of the lexer. -/
theorem Moves.next?_eq {part part' : NumberPart} {c : Char} (h : Moves part c part') :
    part.next? c = some part' := by
  cases h with
  | zero => rfl
  | first hdigit hzero =>
    rw [next?, if_neg hzero]
    exact if_pos hdigit
  | more hdigit => exact if_pos hdigit
  | point hpart => rcases hpart with rfl | rfl <;> rfl
  | fraction hpart hdigit => rcases hpart with rfl | rfl <;> exact if_pos hdigit
  | exponent hpart hc => rcases hpart with rfl | rfl | rfl <;> rcases hc with rfl | rfl <;> rfl
  | exponentSign hc => rcases hc with rfl | rfl <;> rfl
  | exponentDigits hpart hdigit => rcases hpart with rfl | rfl | rfl <;> exact if_pos hdigit

/-- Every step of the lexer is a move of the grammar. -/
theorem moves_of_next? {part part' : NumberPart} {c : Char} (h : part.next? c = some part') :
    Moves part c part' := by
  -- Part by part, the conditions of the step are those of a move.
  cases part <;>
    simp only [next?, ite_eq_iff, Option.some.injEq, reduceCtorEq, and_false, or_false] at h
  case sign =>
    rcases h with ⟨rfl, rfl⟩ | ⟨hzero, hdigit, rfl⟩
    · exact .zero
    · exact .first hdigit hzero
  case zero =>
    rcases h with ⟨rfl, rfl⟩ | ⟨-, hc, rfl⟩
    · exact .point (.inl rfl)
    · exact .exponent (.inl rfl) hc
  case whole =>
    rcases h with ⟨hdigit, rfl⟩ | ⟨-, ⟨rfl, rfl⟩ | ⟨-, hc, rfl⟩⟩
    · exact .more hdigit
    · exact .point (.inr rfl)
    · exact .exponent (.inr (.inl rfl)) hc
  case point =>
    obtain ⟨hdigit, rfl⟩ := h
    exact .fraction (.inl rfl) hdigit
  case fraction =>
    rcases h with ⟨hdigit, rfl⟩ | ⟨-, hc, rfl⟩
    · exact .fraction (.inr rfl) hdigit
    · exact .exponent (.inr (.inr rfl)) hc
  case exponent =>
    rcases h with ⟨hdigit, rfl⟩ | ⟨-, hc, rfl⟩
    · exact .exponentDigits (.inl rfl) hdigit
    · exact .exponentSign hc
  case exponentSign =>
    obtain ⟨hdigit, rfl⟩ := h
    exact .exponentDigits (.inr (.inl rfl)) hdigit
  case exponentDigits =>
    obtain ⟨hdigit, rfl⟩ := h
    exact .exponentDigits (.inr (.inr rfl)) hdigit

/-! ### What has been read -/

/-- What has been read of a number when the machine is in this part of it. -/
def Begun : NumberPart → List Char → Prop
  | sign, cs => Sign cs
  | zero, cs => ∃ s, cs = s ++ ['0'] ∧ Sign s
  | whole, cs => ∃ s w, cs = s ++ w ∧ Sign s ∧ Counting w
  | point, cs => ∃ w, cs = w ++ ['.'] ∧ Whole w
  | fraction, cs => ∃ w f, cs = w ++ f ∧ Whole w ∧ Fraction f
  | exponent, cs => ∃ m e, cs = m ++ [e] ∧ Mantissa m ∧ (e = 'e' ∨ e = 'E')
  | exponentSign, cs => ∃ m e s, cs = m ++ [e, s] ∧ Mantissa m ∧ (e = 'e' ∨ e = 'E') ∧
      (s = '+' ∨ s = '-')
  | exponentDigits, cs => ∃ m e, cs = m ++ e ∧ Mantissa m ∧ Exponent e

variable {part part' : NumberPart} {cs : List Char} {c : Char}

/-- Before a point there is a whole number. -/
theorem Begun.toWhole (h : part.Begun cs) (hpart : part = .zero ∨ part = .whole) : Whole cs := by
  rcases hpart with rfl | rfl
  · obtain ⟨s, rfl, hs⟩ := h
    exact ⟨s, ['0'], rfl, hs, .inl rfl⟩
  · obtain ⟨s, w, rfl, hs, hw⟩ := h
    exact ⟨s, w, rfl, hs, .inr hw⟩

/-- Before an exponent there is a mantissa. -/
theorem Begun.toMantissa (h : part.Begun cs)
    (hpart : part = .zero ∨ part = .whole ∨ part = .fraction) : Mantissa cs := by
  rcases hpart with rfl | rfl | rfl
  · exact .of_whole (h.toWhole (.inl rfl))
  · exact .of_whole (h.toWhole (.inr rfl))
  · obtain ⟨w, f, rfl, hw, hf⟩ := h
    exact ⟨w, f, rfl, hw, .inr hf⟩

/-- Each move leads from what has been read to what is now read. -/
theorem Begun.next (h : part.Begun cs) (hmoves : Moves part c part') : part'.Begun (cs ++ [c]) := by
  cases hmoves with
  | zero => exact ⟨cs, rfl, h⟩
  | first hdigit hzero => exact ⟨cs, [c], rfl, h, c, [], rfl, hdigit, hzero, nofun⟩
  | more hdigit =>
    obtain ⟨s, w, rfl, hs, hw⟩ := h
    exact ⟨s, w ++ [c], List.append_assoc s w [c], hs, hw.snoc hdigit⟩
  | point hpart => exact ⟨cs, rfl, h.toWhole hpart⟩
  | fraction hpart hdigit =>
    rcases hpart with rfl | rfl
    · obtain ⟨w, rfl, hw⟩ := h
      exact ⟨w, ['.', c], by simp, hw, [c], rfl, .one hdigit⟩
    · obtain ⟨w, f, rfl, hw, hf⟩ := h
      exact ⟨w, f ++ [c], List.append_assoc w f [c], hw, hf.snoc hdigit⟩
  | exponent hpart hc => exact ⟨cs, c, rfl, h.toMantissa hpart, hc⟩
  | exponentSign hc =>
    obtain ⟨m, e, rfl, hm, he⟩ := h
    exact ⟨m, e, c, by simp, hm, he, hc⟩
  | exponentDigits hpart hdigit =>
    -- The exponent has an `e` so far, or a sign as well, or digits already.
    rcases hpart with rfl | rfl | rfl
    · obtain ⟨m, e, rfl, hm, he⟩ := h
      exact ⟨m, [e, c], by simp, hm, e, [], [c], rfl, he, .inl rfl, .one hdigit⟩
    · obtain ⟨m, e, s, rfl, hm, he, hs⟩ := h
      refine ⟨m, [e, s, c], by simp, hm, e, [s], [c], rfl, he, .inr ?_, .one hdigit⟩
      exact hs.imp (congrArg ([·])) (congrArg ([·]))
    · obtain ⟨m, e, rfl, hm, he⟩ := h
      exact ⟨m, e ++ [c], List.append_assoc m e [c], hm, he.snoc hdigit⟩

/-- Where a number may end, a number has been read. -/
theorem Begun.number (h : part.Begun cs) (hend : part.mayEnd = true) : NumberLiteral cs := by
  have hmantissa (hpart : part = .zero ∨ part = .whole ∨ part = .fraction) : NumberLiteral cs :=
    ⟨cs, [], (List.append_nil cs).symm, h.toMantissa hpart, .inl rfl⟩
  cases part with
  | zero => exact hmantissa (.inl rfl)
  | whole => exact hmantissa (.inr (.inl rfl))
  | fraction => exact hmantissa (.inr (.inr rfl))
  | exponentDigits =>
    obtain ⟨m, e, rfl, hm, he⟩ := h
    exact ⟨m, e, rfl, hm, .inr he⟩
  | sign | point | exponent | exponentSign => cases hend

/-! ### Running through a number -/

/-- The characters lead from the one part to the other. -/
inductive Runs : NumberPart → List Char → NumberPart → Prop
  | stay (part : NumberPart) : Runs part [] part
  | move {part part' part'' : NumberPart} {c : Char} {cs : List Char} (hmoves : Moves part c part')
      (hrest : Runs part' cs part'') : Runs part (c :: cs) part''

/-- Moves follow one another. -/
theorem Runs.append {part'' : NumberPart} {ds : List Char} (h : Runs part cs part')
    (h' : Runs part' ds part'') : Runs part (cs ++ ds) part'' := by
  induction h with
  | stay part => exact h'
  | move hmoves hrest ih => exact .move hmoves (ih h')

/-- Where digits lead back to the same part, they may follow one another. -/
theorem runs_loop (hback : ∀ c, IsDigit c → Moves part c part) (hdigits : ∀ c ∈ cs, IsDigit c) :
    Runs part cs part := by
  induction cs with
  | nil => exact .stay part
  | cons c cs ih =>
    have hc := hdigits c (by simp)
    exact .move (hback c hc) (ih fun c' hc' => hdigits c' (by simp [hc']))

/-- A row of digits leads into the part that takes digits and stays there. -/
theorem runs_digits (h : Digits cs) (hfirst : ∀ c, IsDigit c → Moves part c part')
    (hback : ∀ c, IsDigit c → Moves part' c part') : Runs part cs part' := by
  cases cs with
  | nil => exact absurd rfl h.1
  | cons c cs =>
    have hc := h.2 c (by simp)
    exact .move (hfirst c hc) (runs_loop hback fun c' hc' => h.2 c' (by simp [hc']))

/-- A counting number leads from the sign into the whole part. -/
theorem runs_counting (h : Counting cs) : Runs sign cs whole := by
  obtain ⟨d, ds, rfl, hd, hzero, hds⟩ := h
  exact .move (.first hd hzero) (runs_loop (fun _ => .more) hds)

/-- A fraction leads from the whole part into the decimals. -/
theorem runs_fraction (h : Fraction cs) (hpart : part = .zero ∨ part = .whole) :
    Runs part cs fraction := by
  obtain ⟨ds, rfl, hds⟩ := h
  exact .move (.point hpart)
    (runs_digits hds (fun _ => .fraction (.inl rfl)) fun _ => .fraction (.inr rfl))

/-- An exponent leads from any part of the number into its own digits. -/
theorem runs_exponent (h : Exponent cs) (hpart : part = .zero ∨ part = .whole ∨ part = .fraction) :
    Runs part cs exponentDigits := by
  obtain ⟨e, s, ds, rfl, he, hs, hds⟩ := h
  have hback (c : Char) : IsDigit c → Moves .exponentDigits c .exponentDigits :=
    .exponentDigits (.inr (.inr rfl))
  refine .move (.exponent hpart he) ?_
  rcases hs with rfl | hs
  · exact runs_digits hds (fun _ => .exponentDigits (.inl rfl)) hback
  · have hdigits : Runs exponentSign ds exponentDigits :=
      runs_digits hds (fun _ => .exponentDigits (.inr (.inl rfl))) hback
    rcases hs with rfl | rfl
    · exact .move (.exponentSign (.inl rfl)) hdigits
    · exact .move (.exponentSign (.inr rfl)) hdigits

/-- Behind its sign, the machine runs through a number to a part where it may end. -/
theorem exists_runs (h : NumberLiteral cs) : ∃ s rest part, cs = s ++ rest ∧ Sign s ∧
    Runs sign rest part ∧ part.mayEnd = true := by
  obtain ⟨m, e, rfl, ⟨w, f, rfl, ⟨s, w, rfl, hs, hw⟩, hf⟩, he⟩ := h
  -- The whole part, the decimals and the exponent follow one another, and each may be missing.
  obtain ⟨part, hpart, hruns⟩ : ∃ part, (part = .zero ∨ part = .whole) ∧ Runs .sign w part := by
    rcases hw with rfl | hw
    · exact ⟨zero, .inl rfl, .move .zero (.stay zero)⟩
    · exact ⟨whole, .inr rfl, runs_counting hw⟩
  obtain ⟨part', hpart', hruns'⟩ : ∃ part', (part' = .zero ∨ part' = .whole ∨ part' = .fraction) ∧
      Runs .sign (w ++ f) part' := by
    rcases hf with rfl | hf
    · exact ⟨part, hpart.imp_right .inl, by rwa [List.append_nil]⟩
    · exact ⟨fraction, .inr (.inr rfl), hruns.append (runs_fraction hf hpart)⟩
  have hsplit (e : List Char) : s ++ w ++ f ++ e = s ++ (w ++ f ++ e) := by
    simp only [List.append_assoc]
  rcases he with rfl | he
  · refine ⟨s, w ++ f ++ [], part', hsplit [], hs, by rwa [List.append_nil], ?_⟩
    rcases hpart' with rfl | rfl | rfl <;> rfl
  · exact ⟨s, w ++ f ++ e, exponentDigits, hsplit e, hs, hruns'.append (runs_exponent he hpart'),
      rfl⟩

/-- A character that is no digit, point or `e` does not continue a number that may end. -/
theorem next?_eq_none (hend : part.mayEnd = true) (hdigit : ¬ IsDigit c) (hpoint : c ≠ '.')
    (hexponent : ¬ (c = 'e' ∨ c = 'E')) : part.next? c = none := by
  cases hnext : part.next? c with
  | none => rfl
  | some part' =>
    cases moves_of_next? hnext with
    | zero | first | exponentSign => cases hend
    | point hpart => exact absurd rfl hpoint
    | exponent hpart hc => exact absurd hc hexponent
    | more hc | fraction hpart hc | exponentDigits hpart hc => exact absurd hc hdigit

end Lexer.NumberPart
end WireCall.Document
