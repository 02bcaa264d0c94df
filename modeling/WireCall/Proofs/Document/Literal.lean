import WireCall.Proofs.Document.Grammar

namespace WireCall.Document

/-!
# Reading literals

The machine adds the elements of a literal one after the other (`TextPart.add`).  Half of a
surrogate pair waits for the other half, and whatever else follows it makes the literal one that
denotes nothing; `Outlook` says what the literal comes to if certain elements follow, and adding an
element is the same as having it among those (`outlook_add`).

Main statement: what the machine makes of a literal is what its elements denote
(`finish_foldl_add_eq_some_iff`).
-/

/-! ### What elements denote -/

section Denotes

variable {c : Char} {u v : Nat} {es : List Element} {cs : List Char}

/-- A plain character stands for itself. -/
theorem denotes_char_iff :
    Denotes (.char c :: es) cs ↔ ∃ rest, cs = c :: rest ∧ Denotes es rest := by
  constructor
  · rintro ⟨⟩
    exact ⟨_, rfl, ‹_›⟩
  · rintro ⟨rest, rfl, hrest⟩
    exact .char hrest

/-- The halves of a pair have ranges apart. -/
theorem not_isLow_of_isHigh (hhigh : IsHigh u) : ¬ IsLow u := by
  unfold IsHigh at hhigh
  unfold IsLow
  omega

/-- A unit that is no half of a pair stands for its character. -/
theorem denotes_unit_iff (hhigh : ¬ IsHigh u) (hlow : ¬ IsLow u) :
    Denotes (.unit u :: es) cs ↔ ∃ rest, cs = Char.ofNat u :: rest ∧ Denotes es rest := by
  constructor
  · intro h
    cases h with
    | unit _ _ hrest => exact ⟨_, rfl, hrest⟩
    | pair hhigh' => exact absurd hhigh' hhigh
  · rintro ⟨rest, rfl, hrest⟩
    exact .unit hhigh hlow hrest

/-- A high unit and the low one behind it stand for one character together. -/
theorem denotes_pair_iff (hhigh : IsHigh u) (hlow : IsLow v) :
    Denotes (.unit u :: .unit v :: es) cs ↔ ∃ rest, cs = paired u v :: rest ∧ Denotes es rest := by
  constructor
  · intro h
    cases h with
    | unit hhigh' => exact absurd hhigh hhigh'
    | pair _ _ hrest => exact ⟨_, rfl, hrest⟩
  · rintro ⟨rest, rfl, hrest⟩
    exact .pair hhigh hlow hrest

/-- The first half of a pair denotes nothing by itself. -/
theorem not_denotes_high (hhigh : IsHigh u) (halone : ∀ v rest, es = .unit v :: rest → ¬ IsLow v) :
    ¬ Denotes (.unit u :: es) cs := by
  intro h
  cases h with
  | unit hhigh' => exact hhigh' hhigh
  | pair _ hlow => exact halone _ _ rfl hlow

/-- The second half of a pair denotes nothing by itself. -/
theorem not_denotes_low (hlow : IsLow u) : ¬ Denotes (.unit u :: es) cs := by
  intro h
  cases h with
  | unit _ hlow' => exact hlow' hlow
  | pair hhigh => exact not_isLow_of_isHigh hhigh hlow

end Denotes

namespace Lexer.TextPart

/-! ### Adding elements -/

/-- Adds an element. -/
def add (t : TextPart) : Element → TextPart
  | .char c => t.addChar c
  | .unit u => t.addUnit u

/-- A high unit is kept back, and spoils the text if another one was waiting. -/
theorem addUnit_of_high {u : Nat} (hhigh : IsHigh u) (t : TextPart) :
    t.addUnit u = ⟨t.chars, some u, t.sound && t.half.isNone⟩ := if_pos hhigh

/-- A low unit completes the high one that waits, and spoils the text if none does. -/
theorem addUnit_of_low {u : Nat} (hlow : IsLow u) (t : TextPart) :
    t.addUnit u = match t.half with
      | some high => ⟨paired high u :: t.chars, none, t.sound⟩
      | none => ⟨t.chars, none, false⟩ := by
  have hhigh : ¬ (0xd800 ≤ u ∧ u < 0xdc00) := fun h => not_isLow_of_isHigh h hlow
  rw [addUnit, if_neg hhigh]
  exact if_pos hlow

/-- Any other unit is added as its character. -/
theorem addUnit_of_plain {u : Nat} (hhigh : ¬ IsHigh u) (hlow : ¬ IsLow u) (t : TextPart) :
    t.addUnit u = t.addChar (Char.ofNat u) := by
  rw [addUnit]
  exact (if_neg hhigh).trans (if_neg hlow)

/-- The half of a pair that waits for the other one. -/
def waiting (t : TextPart) : List Element := t.half.toList.map .unit

/-- What the literal comes to if these elements follow. -/
def Outlook (t : TextPart) (es : List Element) (text : String) : Prop :=
  t.sound = true ∧
    ∃ cs, Denotes (t.waiting ++ es) cs ∧ text = String.ofList (t.chars.reverse ++ cs)

/-- A half that waits is the first one of its pair. -/
def Waits (t : TextPart) : Prop := ∀ high, t.half = some high → IsHigh high

/-- After every element, a unit that waits is a high one. -/
theorem waits_add {t : TextPart} (e : Element) : (t.add e).Waits := by
  intro high hhalf
  cases e with
  | char c => cases hhalf
  | unit u =>
    by_cases hhigh : IsHigh u
    · rw [add, addUnit_of_high hhigh] at hhalf
      exact Option.some.inj hhalf ▸ hhigh
    · by_cases hlow : IsLow u
      · rw [add, addUnit_of_low hlow] at hhalf
        split at hhalf <;> cases hhalf
      · rw [add, addUnit_of_plain hhigh hlow] at hhalf
        cases hhalf

/-- A literal that is not sound comes to nothing. -/
theorem not_outlook_of_unsound {t : TextPart} (hsound : t.sound = false) {es : List Element}
    {text : String} : ¬ t.Outlook es text := by
  rintro ⟨hsound', -⟩
  rw [hsound] at hsound'
  cases hsound'

/-- A half that waits comes to nothing unless the other half follows. -/
theorem not_outlook_of_half {chars : List Char} {high : Nat} {sound : Bool} (hhigh : IsHigh high)
    {es : List Element} (halone : ∀ v rest, es = .unit v :: rest → ¬ IsLow v) {text : String} :
    ¬ (TextPart.mk chars (some high) sound).Outlook es text := by
  rintro ⟨-, cs, hdenotes, -⟩
  exact not_denotes_high hhigh halone hdenotes

/-- An element with which a character is complete comes to this character. -/
theorem outlook_cons_iff {t : TextPart} {e : Element} {es : List Element} {c : Char}
    (hchar : ∀ cs, Denotes (t.waiting ++ e :: es) cs ↔ ∃ rest, cs = c :: rest ∧ Denotes es rest)
    {text : String} :
    (TextPart.mk (c :: t.chars) none t.sound).Outlook es text ↔ t.Outlook (e :: es) text := by
  have hjoin (rest : List Char) :
      (c :: t.chars).reverse ++ rest = t.chars.reverse ++ c :: rest := by simp
  refine and_congr_right fun _ => ?_
  constructor
  · rintro ⟨rest, hrest, rfl⟩
    exact ⟨c :: rest, (hchar _).mpr ⟨rest, rfl, hrest⟩, congrArg _ (hjoin rest)⟩
  · rintro ⟨cs, hcs, rfl⟩
    obtain ⟨rest, rfl, hrest⟩ := (hchar cs).mp hcs
    exact ⟨rest, hrest, congrArg _ (hjoin rest).symm⟩

/-- Adding the character of an element takes that element off the outlook. -/
theorem outlook_addChar {t : TextPart} (hwaits : t.Waits) {e : Element} {c : Char}
    (hchar : ∀ es cs, Denotes (e :: es) cs ↔ ∃ rest, cs = c :: rest ∧ Denotes es rest)
    (hlow : ∀ v, e = .unit v → ¬ IsLow v) {es : List Element} {text : String} :
    (t.addChar c).Outlook es text ↔ t.Outlook (e :: es) text := by
  obtain ⟨chars, half, sound⟩ := t
  cases half with
  | none =>
    have hadd : addChar ⟨chars, none, sound⟩ c = ⟨c :: chars, none, sound⟩ :=
      congrArg (TextPart.mk (c :: chars) none) (Bool.and_true sound)
    rw [hadd]
    exact outlook_cons_iff (t := ⟨chars, none, sound⟩) (hchar es)
  | some high =>
    refine iff_of_false (not_outlook_of_unsound (Bool.and_false sound)) ?_
    refine not_outlook_of_half (hwaits high rfl) fun v rest h => ?_
    exact hlow v (List.cons.inj h).1

/-- To add an element is to have it among those that follow. -/
theorem outlook_add {t : TextPart} (hwaits : t.Waits) (e : Element) {es : List Element}
    {text : String} : (t.add e).Outlook es text ↔ t.Outlook (e :: es) text := by
  cases e with
  | char c => exact outlook_addChar hwaits (fun _ _ => denotes_char_iff) nofun
  | unit u =>
    -- A high unit waits for a low one, and only if none waits already.
    by_cases hhigh : IsHigh u
    · rw [add, addUnit_of_high hhigh]
      obtain ⟨chars, half, sound⟩ := t
      cases half with
      | none =>
        show (TextPart.mk chars (some u) (sound && true)).Outlook es text ↔ _
        rw [Bool.and_true]
        exact Iff.rfl
      | some high =>
        refine iff_of_false (not_outlook_of_unsound (Bool.and_false sound)) ?_
        refine not_outlook_of_half (hwaits high rfl) fun v rest h => ?_
        obtain rfl := Element.unit.inj (List.cons.inj h).1
        exact not_isLow_of_isHigh hhigh
    · -- A low unit needs a high one before it; any other unit stands for itself.
      by_cases hlow : IsLow u
      · rw [add, addUnit_of_low hlow]
        obtain ⟨chars, half, sound⟩ := t
        cases half with
        | none =>
          refine iff_of_false (not_outlook_of_unsound rfl) ?_
          rintro ⟨-, cs, hdenotes, -⟩
          exact not_denotes_low hlow hdenotes
        | some high =>
          exact outlook_cons_iff (t := ⟨chars, some high, sound⟩) fun _ =>
            denotes_pair_iff (hwaits high rfl) hlow
      · rw [add, addUnit_of_plain hhigh hlow]
        refine outlook_addChar hwaits (fun _ _ => denotes_unit_iff hhigh hlow) fun v h => ?_
        exact Element.unit.inj h ▸ hlow

/-! ### The literal as a whole -/

/-- A text ends well exactly when nothing waits and nothing has spoilt it. -/
theorem finish_eq_some_iff {t : TextPart} (hwaits : t.Waits) {text : String} :
    t.finish = some text ↔ t.Outlook [] text := by
  obtain ⟨chars, half, sound⟩ := t
  unfold finish
  -- A half that waits makes the text unsound, and there is nothing left to complete it.
  cases half with
  | some high =>
    have hunsound : (sound && (some high).isNone) = false := Bool.and_false sound
    dsimp only
    rw [hunsound]
    have halone : ∀ v rest, ([] : List Element) = .unit v :: rest → ¬ IsLow v := nofun
    exact iff_of_false nofun (not_outlook_of_half (hwaits high rfl) halone)
  | none =>
    cases sound with
    | false => exact iff_of_false nofun (not_outlook_of_unsound rfl)
    | true =>
      constructor
      · intro h
        refine ⟨rfl, [], .nil, ?_⟩
        rw [List.append_nil]
        exact (Option.some.inj h).symm
      · rintro ⟨-, cs, hdenotes, rfl⟩
        cases hdenotes
        rw [List.append_nil]
        rfl

/-- Adding elements ends well exactly when they stand for the text still expected. -/
theorem finish_foldl_add_iff {es : List Element} {t : TextPart} (hwaits : t.Waits)
    {text : String} : (es.foldl add t).finish = some text ↔ t.Outlook es text := by
  induction es generalizing t with
  | nil => exact finish_eq_some_iff hwaits
  | cons e es ih => rw [List.foldl_cons, ih (waits_add e), outlook_add hwaits]

/-- What the machine makes of the elements of a literal is what they denote. -/
theorem finish_foldl_add_eq_some_iff {es : List Element} {text : String} :
    (es.foldl add empty).finish = some text ↔ Denotes es text.toList := by
  have hwaits : empty.Waits := fun high hhalf => nomatch hhalf
  rw [finish_foldl_add_iff hwaits]
  constructor
  · rintro ⟨-, cs, hdenotes, rfl⟩
    rwa [String.toList_ofList]
  · intro hdenotes
    exact ⟨rfl, text.toList, hdenotes, (String.ofList_toList).symm⟩

end Lexer.TextPart
end WireCall.Document
