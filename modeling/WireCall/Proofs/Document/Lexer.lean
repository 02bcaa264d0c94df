import Mathlib.Data.List.Chain
import WireCall.Proofs.Document.Literal
import WireCall.Proofs.Document.Number

namespace WireCall.Document

/-!
# Reading tokens

The state of the machine says how the characters so far are spaced out of tokens, up to the token
in the middle of which the machine is (`State.Reads`).  One step takes one more character into
account (`State.Reads.step`), so where the machine may end, the text is spaced out of the tokens
that it has read (`spaced_of_tokens`).

The other way round, the machine runs through each spelled token (`run_token`).  It leaves a number
only with the next character, so in a text with a number behind a number it may read on too far.

Main statement: the tokens that the machine reads are the ones that the text is spaced out of, if no
two of them are numbers side by side (`tokens_eq_some_iff`).
-/

/-! ### Spaced tokens -/

/-- Spaced tokens behind spaced tokens are spaced tokens. -/
theorem Spaced.append {ts us : List Token} {cs ds : List Char} (h : Spaced ts cs)
    (h' : Spaced us ds) : Spaced (ts ++ us) (cs ++ ds) := by
  induction h with
  | @done blanks hblanks =>
    -- The blanks behind the first tokens are now before the next one.
    cases h' with
    | @done blanks' hblanks' => exact .done (List.forall_mem_append.mpr ⟨hblanks, hblanks'⟩)
    | @token t ts blanks' cs rest hblanks' hfirst hrest =>
      rw [← List.append_assoc]
      exact .token (List.forall_mem_append.mpr ⟨hblanks, hblanks'⟩) hfirst hrest
  | @token t ts blanks cs rest hblanks hfirst hrest ih =>
    rw [List.append_assoc, List.append_assoc]
    exact .token hblanks hfirst ih

/-- The empty text has no tokens. -/
theorem Spaced.nil : Spaced [] [] := .done nofun

theorem Spaced.of_spelled {t : Token} {cs : List Char} (h : t.Spelled cs) : Spaced [t] cs := by
  have hspaced : Spaced [t] ([] ++ (cs ++ [])) := .token nofun h .nil
  rwa [List.nil_append, List.append_nil] at hspaced

/-- A token may be spelled behind a spaced row. -/
theorem Spaced.snoc {ts : List Token} {t : Token} {cs ds : List Char} (h : Spaced ts cs)
    (ht : t.Spelled ds) : Spaced (ts ++ [t]) (cs ++ ds) := h.append (.of_spelled ht)

/-- A blank may stand behind a spaced row. -/
theorem Spaced.blank {ts : List Token} {cs : List Char} {c : Char} (h : Spaced ts cs)
    (hc : IsBlank c) : Spaced ts (cs ++ [c]) := by
  have hblank : Spaced [] [c] := .done (List.forall_mem_singleton.mpr hc)
  have hspaced := h.append hblank
  rwa [List.append_nil] at hspaced

theorem Body.append {es es' : List Element} {body body' : List Char} (h : Body es body)
    (h' : Body es' body') : Body (es ++ es') (body ++ body') := by
  induction h with
  | nil => exact h'
  | cons hfirst hrest ih =>
    rw [List.append_assoc]
    exact .cons hfirst ih

/-- An element may be spelled behind a body. -/
theorem Body.snoc {es : List Element} {e : Element} {body cs : List Char} (h : Body es body)
    (he : e.Spelled cs) : Body (es ++ [e]) (body ++ cs) := by
  have hone : Body [e] (cs ++ []) := .cons he .nil
  rw [List.append_nil] at hone
  exact h.append hone

namespace Lexer

/-! ### What has been read -/

/-- Hex digits are read from left to right, so they may be read in two parts. -/
theorem hexValue?_append (value : Nat) (cs ds : List Char) :
    hexValue? value (cs ++ ds) = (hexValue? value cs).bind fun v => hexValue? v ds := by
  induction cs generalizing value with
  | nil => rfl
  | cons c cs ih =>
    rw [List.cons_append, hexValue?, hexValue?]
    cases hexDigit? c with
    | none => rfl
    | some d => exact ih (16 * value + d)

/-- One more hex digit multiplies by sixteen. -/
theorem hexValue?_snoc {cs : List Char} {c : Char} {value d : Nat}
    (hvalue : hexValue? 0 cs = some value) (hdigit : hexDigit? c = some d) :
    hexValue? 0 (cs ++ [c]) = some (16 * value + d) := by
  rw [hexValue?_append, hvalue]
  show hexValue? value [c] = _
  rw [hexValue?, hdigit]
  rfl

/-- How the characters so far are accounted for in each mode, by those before the token in the
middle of which the machine is and by the beginning of this token. -/
def Mode.Begun : Mode → List Char → Prop
  | .between, cs => cs = []
  | .word left t, cs => left ≠ [] ∧ t.Spelled (cs ++ left)
  | .number part literal, cs => cs = literal.reverse ∧ part.Begun cs
  | .text part, cs => ∃ es body, cs = '\x22' :: body ∧ Body es body ∧
      part = es.foldl TextPart.add .empty
  | .escape part, cs => ∃ es body, cs = '\x22' :: (body ++ ['\\']) ∧ Body es body ∧
      part = es.foldl TextPart.add .empty
  | .unit part digits value, cs => ∃ es body hex, cs = '\x22' :: (body ++ '\\' :: 'u' :: hex) ∧
      Body es body ∧ part = es.foldl TextPart.add .empty ∧ hex.length = digits ∧ digits < 4 ∧
      hexValue? 0 hex = some value

/-- The characters are spaced out of the tokens that have been read, and of the beginning of the
next one. -/
def State.Reads (s : State) (cs : List Char) : Prop :=
  ∃ before begun, cs = before ++ begun ∧ Spaced s.tokens.reverse before ∧ s.mode.Begun begun

/-- Between two tokens there is nothing that has begun. -/
theorem State.reads_between {tokens : List Token} {cs : List Char}
    (h : Spaced tokens.reverse cs) : (State.mk .between tokens).Reads cs :=
  ⟨cs, [], (List.append_nil cs).symm, h, rfl⟩

/-- A token that is complete. -/
theorem State.reads_token {tokens : List Token} {t : Token} {before begun : List Char}
    (hbefore : Spaced tokens.reverse before) (ht : t.Spelled begun) :
    (State.mk .between (t :: tokens)).Reads (before ++ begun) := by
  refine reads_between ?_
  rw [List.reverse_cons]
  exact hbefore.snoc ht

/-- The first character of a token: a blank is none, a mark is all of it, and the others begin
one. -/
theorem State.reads_start {tokens : List Token} {s : State} {cs : List Char} {c : Char}
    (hbefore : Spaced tokens.reverse cs) (h : start tokens c = some s) : s.Reads (cs ++ [c]) := by
  -- A character between tokens is a blank, a mark on its own, or the beginning of something longer.
  have hblank (hc : IsBlank c) : (State.mk .between tokens).Reads (cs ++ [c]) :=
    reads_between (hbefore.blank hc)
  have hmark {t : Token} (ht : t.Spelled [c]) :
      (State.mk .between (t :: tokens)).Reads (cs ++ [c]) :=
    reads_token hbefore ht
  have hbegin {mode : Mode} (hmode : mode.Begun [c]) : (State.mk mode tokens).Reads (cs ++ [c]) :=
    ⟨cs, [c], rfl, hbefore, hmode⟩
  unfold start at h
  split at h
  case h_1 => exact Option.some.inj h ▸ hblank (.inl rfl)
  case h_2 => exact Option.some.inj h ▸ hblank (.inr (.inl rfl))
  case h_3 => exact Option.some.inj h ▸ hblank (.inr (.inr (.inl rfl)))
  case h_4 => exact Option.some.inj h ▸ hblank (.inr (.inr (.inr rfl)))
  case h_5 => exact Option.some.inj h ▸ hmark .openBrace
  case h_6 => exact Option.some.inj h ▸ hmark .closeBrace
  case h_7 => exact Option.some.inj h ▸ hmark .openBracket
  case h_8 => exact Option.some.inj h ▸ hmark .closeBracket
  case h_9 => exact Option.some.inj h ▸ hmark .colon
  case h_10 => exact Option.some.inj h ▸ hmark .comma
  case h_11 => exact Option.some.inj h ▸ hbegin ⟨[], [], rfl, .nil, rfl⟩
  case h_12 => exact Option.some.inj h ▸ hbegin ⟨List.cons_ne_nil _ _, .null⟩
  case h_13 => exact Option.some.inj h ▸ hbegin ⟨List.cons_ne_nil _ _, .true⟩
  case h_14 => exact Option.some.inj h ▸ hbegin ⟨List.cons_ne_nil _ _, .false⟩
  case h_15 => exact Option.some.inj h ▸ hbegin ⟨rfl, .inr rfl⟩
  case h_16 =>
    split at h
    · next part hnext =>
      have hbegun : NumberPart.sign.Begun [] := .inl rfl
      exact Option.some.inj h ▸ hbegin ⟨rfl, hbegun.next (NumberPart.moves_of_next? hnext)⟩
    · cases h

/-- One more element of a literal. -/
theorem Mode.begun_text {es : List Element} {e : Element} {body cs : List Char}
    (hbody : Body es body) (he : e.Spelled cs) :
    (Mode.text ((es.foldl TextPart.add .empty).add e)).Begun ('\x22' :: body ++ cs) :=
  ⟨es ++ [e], body ++ cs, rfl, hbody.snoc he, by rw [List.foldl_append]; rfl⟩

/-- One step takes one more character into account. -/
theorem State.Reads.step {s s' : State} {cs : List Char} {c : Char} (h : s.Reads cs)
    (hstep : Lexer.step s c = some s') : s'.Reads (cs ++ [c]) := by
  obtain ⟨mode, tokens⟩ := s
  obtain ⟨before, begun, rfl, hbefore, hbegun⟩ := h
  dsimp only at hbefore hbegun
  have hmore {mode : Mode} (hmode : mode.Begun (begun ++ [c])) :
      (State.mk mode tokens).Reads (before ++ begun ++ [c]) :=
    ⟨before, begun ++ [c], List.append_assoc before begun [c], hbefore, hmode⟩
  have hdone {t : Token} (ht : t.Spelled (begun ++ [c])) :
      (State.mk .between (t :: tokens)).Reads (before ++ begun ++ [c]) := by
    rw [List.append_assoc]
    exact reads_token hbefore ht
  unfold Lexer.step at hstep
  cases mode with
  | between =>
    obtain rfl : begun = [] := hbegun
    rw [List.append_nil]
    exact reads_start hbefore hstep
  | word left t =>
    obtain ⟨hne, hspelled⟩ := hbegun
    cases left with
    | nil => exact absurd rfl hne
    | cons l left =>
      dsimp only at hstep
      split at hstep
      · next hc =>
        subst hc
        rw [List.append_cons] at hspelled
        cases left with
        | nil =>
          rw [List.append_nil] at hspelled
          exact Option.some.inj hstep ▸ hdone hspelled
        | cons l' left => exact Option.some.inj hstep ▸ hmore ⟨List.cons_ne_nil _ _, hspelled⟩
      · cases hstep
  | number part literal =>
    obtain ⟨rfl, hpart⟩ := hbegun
    dsimp only at hstep
    split at hstep
    · next part' hnext =>
      refine Option.some.inj hstep ▸ hmore ⟨?_, hpart.next (NumberPart.moves_of_next? hnext)⟩
      rw [List.reverse_cons]
    · split at hstep
      · next hend =>
        -- The number ends here, and the character is the first one behind it.
        refine reads_start ?_ hstep
        rw [List.reverse_cons]
        exact hbefore.snoc (.number (hpart.number hend))
      · cases hstep
  | text part =>
    obtain ⟨es, body, rfl, hbody, rfl⟩ := hbegun
    dsimp only at hstep
    split at hstep
    · next hquote =>
      subst hquote
      refine Option.some.inj hstep ▸ hdone ?_
      exact .text hbody fun text => TextPart.finish_foldl_add_eq_some_iff
    · next hquote =>
      split at hstep
      · next hescape =>
        subst hescape
        exact Option.some.inj hstep ▸ hmore ⟨es, body, rfl, hbody, rfl⟩
      · next hescape =>
        split at hstep
        · cases hstep
        · next hcontrol =>
          refine Option.some.inj hstep ▸ hmore ?_
          exact Mode.begun_text hbody (.plain hquote hescape (Nat.le_of_not_lt hcontrol))
  | escape part =>
    obtain ⟨es, body, rfl, hbody, rfl⟩ := hbegun
    dsimp only at hstep
    have hjoin (cs : List Char) :
        '\x22' :: (body ++ ['\\']) ++ cs = '\x22' :: body ++ '\\' :: cs := by
      simp
    split at hstep
    · next hunit =>
      subst hunit
      exact Option.some.inj hstep ▸ hmore
        ⟨es, body, [], hjoin _, hbody, rfl, rfl, Nat.zero_lt_succ 3, rfl⟩
    · split at hstep
      · next c' hletter =>
        refine Option.some.inj hstep ▸ hmore ?_
        rw [hjoin]
        exact Mode.begun_text hbody (.letter hletter)
      · cases hstep
  | unit part digits value =>
    obtain ⟨es, body, hex, rfl, hbody, rfl, rfl, hfew, hvalue⟩ := hbegun
    dsimp only at hstep
    split at hstep
    · cases hstep
    · next d hdigit =>
      have hvalue' := hexValue?_snoc hvalue hdigit
      have hlength : (hex ++ [c]).length = hex.length + 1 := List.length_append
      have hjoin : '\x22' :: (body ++ '\\' :: 'u' :: hex) ++ [c] =
          '\x22' :: body ++ '\\' :: 'u' :: (hex ++ [c]) := by simp
      split at hstep
      · next hlast =>
        refine Option.some.inj hstep ▸ hmore ?_
        rw [hjoin]
        exact Mode.begun_text hbody (.unit (by omega) hvalue')
      · next hlast =>
        exact Option.some.inj hstep ▸ hmore
          ⟨es, body, hex ++ [c], hjoin, hbody, rfl, hlength, by omega, hvalue'⟩

/-- At the end of the text no token is in the middle, unless it is a number. -/
theorem State.Reads.finish {s : State} {cs : List Char} {ts : List Token} (h : s.Reads cs)
    (hfinish : Lexer.finish s = some ts) : Spaced ts cs := by
  obtain ⟨mode, tokens⟩ := s
  obtain ⟨before, begun, rfl, hbefore, hbegun⟩ := h
  unfold Lexer.finish at hfinish
  -- The text may end between tokens or behind a number; everywhere else a token is unfinished.
  cases mode with
  | between =>
    obtain rfl : begun = [] := hbegun
    rw [List.append_nil]
    exact Option.some.inj hfinish ▸ hbefore
  | number part literal =>
    obtain ⟨rfl, hpart⟩ := hbegun
    dsimp only at hfinish
    split at hfinish
    · next hend =>
      obtain rfl := Option.some.inj hfinish
      rw [List.reverse_cons]
      exact hbefore.snoc (.number (hpart.number hend))
    · cases hfinish
  | word | text | escape | unit => cases hfinish

/-- Reading on keeps the tie between the state and the text read so far. -/
theorem State.Reads.run {s s' : State} {cs ds : List Char} (h : s.Reads cs)
    (hrun : ds.foldlM Lexer.step s = some s') : s'.Reads (cs ++ ds) := by
  induction ds generalizing s cs with
  | nil =>
    rw [List.append_nil]
    exact Option.some.inj hrun ▸ h
  | cons d ds ih =>
    rw [List.foldlM_cons] at hrun
    obtain ⟨s₁, hstep, hrest⟩ := Option.bind_eq_some_iff.mp hrun
    rw [List.append_cons]
    exact ih (h.step hstep) hrest

/-- A text is spaced out of the tokens that are read from it. -/
theorem spaced_of_tokens {cs : List Char} {ts : List Token} (h : tokens cs = some ts) :
    Spaced ts cs := by
  obtain ⟨s, hrun, hfinish⟩ := Option.bind_eq_some_iff.mp h
  have hbefore : (State.mk .between []).Reads [] := State.reads_between .nil
  exact (hbefore.run hrun).finish hfinish

/-! ### Running through a token -/

/-- The machine has read these tokens, the latest first: it is between two tokens, or behind a
number that may end. -/
inductive Settled : State → List Token → Prop
  | between (tokens : List Token) : Settled ⟨.between, tokens⟩ tokens
  | number {part : NumberPart} {literal : List Char} {tokens : List Token}
      (hend : part.mayEnd = true) :
      Settled ⟨.number part literal, tokens⟩ (.number literal.reverse :: tokens)

/-- At a settled state the text may end, and its tokens are those read. -/
theorem Settled.finish {s : State} {tokens : List Token} (h : Settled s tokens) :
    Lexer.finish s = some tokens.reverse := by
  cases h with
  | between => rfl
  | number hend => exact if_pos hend

/-- The character continues no number that may end. -/
def Stops (c : Char) : Prop := ∀ part : NumberPart, part.mayEnd = true → part.next? c = none

/-- A character that no number goes on with ends a number. -/
theorem stops_of_ne {c : Char} (hdigit : ¬ IsDigit c) (hpoint : c ≠ '.')
    (hexponent : ¬ (c = 'e' ∨ c = 'E')) : Stops c :=
  fun _ hend => NumberPart.next?_eq_none hend hdigit hpoint hexponent

theorem stops_of_isBlank {c : Char} (h : IsBlank c) : Stops c := by
  rcases h with rfl | rfl | rfl | rfl <;> exact stops_of_ne (by decide) (by decide) (by decide)

/-- A character that stops a number is the same behind one as between two tokens. -/
theorem Settled.step_eq {s : State} {tokens : List Token} (h : Settled s tokens) {c : Char}
    (hstops : Stops c) : step s c = start tokens c := by
  cases h with
  | between => rfl
  | @number part literal tokens hend =>
    unfold step
    dsimp only
    rw [hstops part hend]
    exact if_pos hend

/-- A blank between tokens is skipped. -/
theorem start_of_isBlank {c : Char} (h : IsBlank c) (tokens : List Token) :
    start tokens c = some ⟨.between, tokens⟩ := by
  rcases h with rfl | rfl | rfl | rfl <;> rfl

/-! ### Numbers -/

variable {tokens : List Token} {cs : List Char}

/-- The lexer goes through a number as its parts allow, and keeps the characters. -/
theorem run_runs {part part' : NumberPart} (h : NumberPart.Runs part cs part')
    (literal : List Char) :
    cs.foldlM step ⟨.number part literal, tokens⟩ =
      some ⟨.number part' (cs.reverse ++ literal), tokens⟩ := by
  induction h generalizing literal with
  | stay part => rfl
  | @move part part' part'' c cs hmoves hrest ih =>
    have hstep : step ⟨.number part literal, tokens⟩ c =
        some ⟨.number part' (c :: literal), tokens⟩ := by
      unfold step
      dsimp only
      rw [hmoves.next?_eq]
    rw [List.foldlM_cons, hstep, List.reverse_cons, List.append_assoc]
    exact ih (c :: literal)

/-- A digit that begins a number. -/
theorem start_of_moves {c : Char} {part : NumberPart} (h : NumberPart.Moves .sign c part) :
    start tokens c = some ⟨.number part [c], tokens⟩ := by
  have hdigit : IsDigit c := by
    cases h with
    | zero => decide
    | first hdigit => exact hdigit
    | point hpart | fraction hpart => rcases hpart with hpart | hpart <;> cases hpart
    | exponent hpart | exponentDigits hpart =>
      rcases hpart with hpart | hpart | hpart <;> cases hpart
  unfold start
  split
  case h_16 => rw [h.next?_eq]
  all_goals exact absurd hdigit (by decide)

/-- A number literal is read up to its end, where it may stop. -/
theorem run_number (tokens : List Token) (h : NumberLiteral cs) : ∃ part, part.mayEnd = true ∧
    cs.foldlM step ⟨.between, tokens⟩ = some ⟨.number part cs.reverse, tokens⟩ := by
  obtain ⟨s, rest, part, rfl, hs, hruns, hend⟩ := NumberPart.exists_runs h
  refine ⟨part, hend, ?_⟩
  -- Without a sign the first move starts the number; with one the sign does.
  rcases hs with rfl | rfl
  · cases hruns with
    | stay part => cases hend
    | @move _ part' _ c cs hmoves hrest =>
      have hstart : step ⟨.between, tokens⟩ c = some ⟨.number part' [c], tokens⟩ :=
        start_of_moves hmoves
      rw [List.nil_append, List.foldlM_cons, hstart, List.reverse_cons]
      exact run_runs hrest [c]
  · have hstart : step ⟨.between, tokens⟩ '-' = some ⟨.number .sign ['-'], tokens⟩ := rfl
    rw [List.cons_append, List.nil_append, List.foldlM_cons, hstart, List.reverse_cons]
    exact run_runs hruns ['-']

/-! ### Literals -/

/-- The digits of a unit, of which some have been read. -/
theorem run_hex {part : TextPart} {digits value u : Nat} (hlength : digits + cs.length = 4)
    (hmore : cs ≠ []) (hvalue : hexValue? value cs = some u) :
    cs.foldlM step ⟨.unit part digits value, tokens⟩ = some ⟨.text (part.addUnit u), tokens⟩ := by
  -- By induction on the digits still to come, of which the fourth completes the unit.
  induction cs generalizing digits value with
  | nil => exact absurd rfl hmore
  | cons c cs ih =>
    rw [hexValue?] at hvalue
    obtain ⟨d, hdigit, hvalue⟩ := Option.bind_eq_some_iff.mp hvalue
    rw [List.length_cons] at hlength
    rw [List.foldlM_cons]
    have hstep : step ⟨.unit part digits value, tokens⟩ c =
        if digits = 3 then some ⟨.text (part.addUnit (16 * value + d)), tokens⟩
        else some ⟨.unit part (digits + 1) (16 * value + d), tokens⟩ := by
      unfold step
      dsimp only
      rw [hdigit]
    rw [hstep]
    cases cs with
    | nil =>
      rw [if_pos (by simpa using hlength)]
      exact congrArg (fun u => some (State.mk (.text (part.addUnit u)) tokens))
        (Option.some.inj hvalue)
    | cons c' cs =>
      rw [List.length_cons] at hlength
      rw [if_neg (by omega)]
      exact ih (by rw [List.length_cons]; omega) (List.cons_ne_nil c' cs) hvalue

/-- An element spelled out is added to the text being read. -/
theorem run_element {e : Element} (h : e.Spelled cs) (part : TextPart) :
    cs.foldlM step ⟨.text part, tokens⟩ = some ⟨.text (part.add e), tokens⟩ := by
  cases h with
  | @plain c hquote hescape hcontrol =>
    have hstep : step ⟨.text part, tokens⟩ c = some ⟨.text (part.addChar c), tokens⟩ := by
      unfold step
      dsimp only
      rw [if_neg hquote, if_neg hescape, if_neg (Nat.not_lt_of_le hcontrol)]
    rw [List.foldlM_cons, hstep]
    rfl
  -- The letter of a unit is the only one that opens more than one character.
  | @letter letter c hletter =>
    have hunit : letter ≠ 'u' := by
      rintro rfl
      cases hletter
    have hstep : step ⟨.escape part, tokens⟩ letter = some ⟨.text (part.addChar c), tokens⟩ := by
      unfold step
      dsimp only
      rw [if_neg hunit, hletter]
    show [letter].foldlM step ⟨.escape part, tokens⟩ = _
    rw [List.foldlM_cons, hstep]
    rfl
  | @unit digits u hlength hvalue =>
    show digits.foldlM step ⟨.unit part 0 0, tokens⟩ = _
    refine run_hex (by omega) ?_ hvalue
    rintro rfl
    cases hlength

/-- A body spelled out adds its elements to the text being read, in their order. -/
theorem run_body {es : List Element} {body : List Char} (h : Body es body) (part : TextPart) :
    body.foldlM step ⟨.text part, tokens⟩ =
      some ⟨.text (es.foldl TextPart.add part), tokens⟩ := by
  induction h generalizing part with
  | nil => rfl
  | @cons e es cs rest hfirst hrest ih =>
    rw [List.foldlM_append, run_element hfirst]
    exact ih (part.add e)

/-! ### Tokens -/

/-- A token that is no number begins with a character that stops one, and the machine is between two
tokens behind it. -/
theorem run_token (tokens : List Token) {t : Token} (h : t.Spelled cs)
    (ht : ∀ literal, t ≠ .number literal) :
    (∃ c rest, cs = c :: rest ∧ Stops c) ∧
      cs.foldlM step ⟨.between, tokens⟩ = some ⟨.between, t :: tokens⟩ := by
  have hstops (c : Char) (rest : List Char) (hdigit : ¬ IsDigit c) (hpoint : c ≠ '.')
      (hexponent : ¬ (c = 'e' ∨ c = 'E')) : ∃ c' rest', c :: rest = c' :: rest' ∧ Stops c' :=
    ⟨c, rest, rfl, stops_of_ne hdigit hpoint hexponent⟩
  -- A number would run on, so it is settled elsewhere; every other token is over with its last
  -- character.
  cases h with
  | openBrace | closeBrace | openBracket | closeBracket | colon | comma | null | true | false =>
    exact ⟨hstops _ _ (by decide) (by decide) (by decide), rfl⟩
  | number hnumber => exact absurd rfl (ht cs)
  | @text es body s hbody hdenotes =>
    refine ⟨hstops _ _ (by decide) (by decide) (by decide), ?_⟩
    have hfinish : (es.foldl TextPart.add .empty).finish = s := by
      refine Option.ext fun text => ?_
      rw [TextPart.finish_foldl_add_eq_some_iff, hdenotes]
    show (body ++ ['\x22']).foldlM step ⟨.text .empty, tokens⟩ = _
    rw [List.foldlM_append, run_body hbody, ← hfinish]
    rfl

/-- Not both are numbers. -/
def Apart : Token → Token → Prop
  | .number _, .number _ => False
  | _, _ => True

/-- A settled state that does not end in a number is between tokens. -/
theorem Settled.eq_between {s : State} (h : Settled s tokens)
    (hnumber : ∀ literal rest, tokens ≠ .number literal :: rest) : s = ⟨.between, tokens⟩ := by
  cases h with
  | between => rfl
  | number hend => exact absurd rfl (hnumber _ _)

/-- From between two tokens or from behind a number, the machine runs through any token that may
follow. -/
theorem Settled.run_spelled {s : State} (h : Settled s tokens) {t : Token} (ht : t.Spelled cs)
    (hapart : ∀ u ∈ tokens.head?, Apart u t) :
    ∃ s', cs.foldlM step s = some s' ∧ Settled s' (t :: tokens) := by
  -- A number needs the state to be between tokens, and any other token begins with a stop.
  by_cases hnumber : ∃ literal, t = .number literal
  · obtain ⟨literal, rfl⟩ := hnumber
    have hbetween : s = ⟨.between, tokens⟩ := h.eq_between fun literal' rest hrest =>
      hapart (.number literal') (by rw [hrest]; rfl)
    cases ht with
    | number hnumber =>
      obtain ⟨part, hend, hrun⟩ := run_number tokens hnumber
      have hsettled : Settled ⟨.number part cs.reverse, tokens⟩
          (.number cs.reverse.reverse :: tokens) := .number hend
      rw [List.reverse_reverse] at hsettled
      exact ⟨_, hbetween ▸ hrun, hsettled⟩
  · obtain ⟨⟨c, rest, rfl, hstops⟩, hrun⟩ :=
      run_token tokens ht fun literal hliteral => hnumber ⟨literal, hliteral⟩
    refine ⟨_, ?_, .between (t :: tokens)⟩
    rw [← hrun, List.foldlM_cons, List.foldlM_cons, h.step_eq hstops]
    rfl

/-- Blanks keep a settled state settled. -/
theorem Settled.run_blanks {s : State} (h : Settled s tokens) (hblanks : ∀ c ∈ cs, IsBlank c) :
    ∃ s', cs.foldlM step s = some s' ∧ Settled s' tokens := by
  induction cs generalizing s with
  | nil => exact ⟨s, rfl, h⟩
  | cons c cs ih =>
    have hc := hblanks c (by simp)
    have hstep : step s c = some ⟨.between, tokens⟩ := by
      rw [h.step_eq (stops_of_isBlank hc), start_of_isBlank hc]
    rw [List.foldlM_cons, hstep]
    exact ih (.between tokens) fun c' hc' => hblanks c' (by simp [hc'])

/-- The machine runs through all tokens of a text, if no two numbers are side by side. -/
theorem Settled.run {s : State} {ts : List Token} (h : Settled s tokens) (hspaced : Spaced ts cs)
    (hapart : (tokens.head?.toList ++ ts).IsChain Apart) :
    ∃ s', cs.foldlM step s = some s' ∧ Settled s' (ts.reverse ++ tokens) := by
  -- By induction on the row: blanks, a token, and then the others.
  induction hspaced generalizing s tokens with
  | done hblanks => exact h.run_blanks hblanks
  | @token t ts blanks cs rest hblanks hfirst hrest ih =>
    obtain ⟨s₁, hrun₁, h₁⟩ := h.run_blanks hblanks
    have hnext : ∀ u ∈ tokens.head?, Apart u t := by
      intro u hu
      rw [Option.mem_def.mp hu] at hapart
      exact (List.isChain_cons_cons.mp hapart).1
    have hothers : (t :: ts).IsChain Apart := by
      cases hhead : tokens.head? with
      | none =>
        rw [hhead] at hapart
        exact hapart
      | some u =>
        rw [hhead] at hapart
        exact (List.isChain_cons_cons.mp hapart).2
    obtain ⟨s₂, hrun₂, h₂⟩ := h₁.run_spelled hfirst hnext
    obtain ⟨s₃, hrun₃, h₃⟩ := ih h₂ hothers
    refine ⟨s₃, ?_, ?_⟩
    · rw [List.foldlM_append, hrun₁]
      show (cs ++ rest).foldlM step s₁ = _
      rw [List.foldlM_append, hrun₂]
      exact hrun₃
    · rw [List.reverse_cons, List.append_assoc]
      exact h₃

/-- The machine reads the tokens that a text is spaced out of, and no others. -/
theorem tokens_eq_some_iff {cs : List Char} {ts : List Token} (hapart : ts.IsChain Apart) :
    Lexer.tokens cs = some ts ↔ Spaced ts cs := by
  refine ⟨spaced_of_tokens, fun hspaced => ?_⟩
  obtain ⟨s, hrun, hsettled⟩ := (Settled.between []).run hspaced hapart
  rw [Lexer.tokens, hrun]
  show finish s = _
  rw [hsettled.finish, List.append_nil, List.reverse_reverse]

end Lexer
end WireCall.Document
