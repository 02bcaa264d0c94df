import WireCall.Document.Printer
import WireCall.Proofs.Document.Assembly

namespace WireCall.Document

/-!
# Documents that are written and read again

The writer puts each character of a text into the literal as one element, which denotes this
character again (`exists_spelled_escapeChar`), and it writes a document as its tokens without a
blank between them (`spaced_write`).  It copies the literals of numbers as they stand, so all of
them have to be literals of numbers (`Printable`).

Main statement: the text of a document spells this document (`spells_render`), and so it is read as
this document.
-/

/-! ### Literals -/

/-- The escape of a control character reads as its code. -/
theorem hexValue?_control : ∀ u < 0x20,
    hexValue? 0 ['0', '0', Nat.digitChar (u / 16), Nat.digitChar (u % 16)] = some u := by
  decide

/-- A control is far below the surrogates, so its number denotes it. -/
theorem denotes_control {c : Char} (hcontrol : c.toNat < 0x20) {es : List Element} {cs : List Char}
    (hes : Denotes es cs) : Denotes (.unit c.toNat :: es) (c :: cs) := by
  have hunit : Denotes (.unit c.toNat :: es) (Char.ofNat c.toNat :: cs) := by
    apply Denotes.unit _ _ hes
    · unfold IsHigh
      omega
    · unfold IsLow
      omega
  rwa [Char.ofNat_toNat] at hunit

/-- A character is written as one element, and in front of others the element denotes it. -/
theorem exists_spelled_escapeChar (c : Char) : ∃ e : Element, e.Spelled (escapeChar c) ∧
    ∀ es cs, Denotes es cs → Denotes (e :: es) (c :: cs) := by
  have hchar {cs : List Char} (h : Element.Spelled (.char c) cs) : ∃ e : Element, e.Spelled cs ∧
      ∀ es cs, Denotes es cs → Denotes (e :: es) (c :: cs) :=
    ⟨.char c, h, fun _ _ => .char⟩
  unfold escapeChar
  -- seven characters have a letter, the other controls a number, and the rest stands for itself
  split_ifs with hquote hescape hback hfeed hnewline hreturn htab hcontrol
  · exact hchar (.letter (by simp [hquote, Lexer.escaped?]))
  · exact hchar (.letter (by simp [hescape, Lexer.escaped?]))
  · exact hchar (.letter (by simp [hback, Lexer.escaped?]))
  · exact hchar (.letter (by simp [hfeed, Lexer.escaped?]))
  · exact hchar (.letter (by simp [hnewline, Lexer.escaped?]))
  · exact hchar (.letter (by simp [hreturn, Lexer.escaped?]))
  · exact hchar (.letter (by simp [htab, Lexer.escaped?]))
  · exact ⟨.unit c.toNat, .unit rfl (hexValue?_control _ hcontrol), fun _ _ =>
      denotes_control hcontrol⟩
  · exact hchar (.plain hquote hescape (Nat.le_of_not_lt hcontrol))

/-- What is written between the quotes denotes the text. -/
theorem exists_body_flatMap (cs : List Char) :
    ∃ es, Body es (cs.flatMap escapeChar) ∧ Denotes es cs := by
  induction cs with
  | nil => exact ⟨[], .nil, .nil⟩
  | cons c cs ih =>
    obtain ⟨es, hbody, hdenotes⟩ := ih
    obtain ⟨e, hspelled, hfirst⟩ := exists_spelled_escapeChar c
    rw [List.flatMap_cons]
    exact ⟨e :: es, .cons hspelled hbody, hfirst es cs hdenotes⟩

/-- Elements denote one text at most. -/
theorem Denotes.eq_iff {es : List Element} {s : String} (h : Denotes es s.toList) (text : String) :
    some s = some text ↔ Denotes es text.toList := by
  rw [← Lexer.TextPart.finish_foldl_add_eq_some_iff] at h ⊢
  rw [h]

/-- A text is spelled by its literal, and the lone escape spells one that denotes no text. -/
theorem spelled_writeText (s : Option String) : (Token.text s).Spelled (writeText s) := by
  cases s with
  | some s =>
    obtain ⟨es, hbody, hdenotes⟩ := exists_body_flatMap s.toList
    exact .text hbody hdenotes.eq_iff
  | none =>
    have hspelled : Element.Spelled (.unit 0xd800) "\\ud800".toList := .unit rfl rfl
    have hbody : Body [.unit 0xd800] ("\\ud800".toList ++ []) := .cons hspelled .nil
    refine .text hbody fun text => iff_of_false (Option.some_ne_none text).symm ?_
    exact not_denotes_high (by unfold IsHigh; decide) nofun

/-! ### Documents -/

/-- What stands for a number in the document is the literal of one. -/
inductive Printable : Document → Prop
  | null : Printable .null
  | bool (b : Bool) : Printable (.bool b)
  | number {literal : List Char} (hnumber : NumberLiteral literal) : Printable (.number literal)
  | text (s : Option String) : Printable (.text s)
  | array {items : List Document} (hitems : ∀ d ∈ items, Printable d) : Printable (.array items)
  | object {members : List (Option String × Document)} (hmembers : ∀ m ∈ members, Printable m.2) :
      Printable (.object members)

/-- Pieces with commas between them are spaced out of the tokens of the pieces. -/
theorem Spaced.intercalate {α : Type} {tokensOf : α → List Token} {write : α → List Char}
    {as : List α} (h : ∀ a ∈ as, Spaced (tokensOf a) (write a)) :
    Spaced (List.intercalate [.comma] (as.map tokensOf))
      (List.intercalate [','] (as.map write)) := by
  induction as with
  | nil => exact .nil
  | cons a as ih =>
    obtain ⟨ha, has⟩ := List.forall_mem_cons.mp h
    cases as with
    | nil => simpa using ha
    | cons b as =>
      simp only [List.map_cons, List.intercalate_cons_cons]
      exact (ha.snoc .comma).append (ih has)

/-- The pieces of an array are the tokens of its items, in their order. -/
theorem itemTokens_eq_map (items : List Document) : itemTokens items = items.map tokens := by
  induction items with
  | nil => rfl
  | cons d items ih => rw [itemTokens, ih, List.map_cons]

/-- The pieces of an object are those of its members, in their order. -/
theorem memberTokens_eq_map (members : List (Option String × Document)) :
    memberTokens members = members.map fun m => .text m.1 :: .colon :: m.2.tokens := by
  induction members with
  | nil => rfl
  | cons m members ih => rw [memberTokens, ih, List.map_cons]

/-- Items are written with commas between them. -/
theorem writeItems_eq_intercalate (items : List Document) :
    writeItems items = List.intercalate [','] (items.map write) := by
  induction items with
  | nil => rfl
  | cons d items ih =>
    cases items with
    | nil => simp [writeItems]
    | cons d' items =>
      rw [writeItems, ih]
      · simp [List.intercalate_cons_cons]
      · simp

theorem writeMembers_eq_intercalate (members : List (Option String × Document)) :
    writeMembers members =
      List.intercalate [','] (members.map fun m => writeText m.1 ++ ':' :: write m.2) := by
  induction members with
  | nil => rfl
  | cons m members ih =>
    cases members with
    | nil => simp [writeMembers]
    | cons m' members =>
      rw [writeMembers, ih]
      · simp [List.intercalate_cons_cons]
      · simp

/-- Brackets stand before and behind what they enclose. -/
theorem Spaced.enclosed {opening closing : Token} {o c : Char} {ts : List Token} {cs : List Char}
    (hopening : opening.Spelled [o]) (hts : Spaced ts cs) (hclosing : closing.Spelled [c]) :
    Spaced (opening :: (ts ++ [closing])) (o :: cs ++ [c]) :=
  (Spaced.of_spelled hopening).append (hts.snoc hclosing)

/-- A document is written as its tokens, by induction over the document. -/
theorem spaced_write {d : Document} (h : d.Printable) : Spaced d.tokens d.write := by
  induction h with
  | null => exact .of_spelled .null
  | bool b =>
    unfold tokens write
    cases b
    · exact .of_spelled .false
    · exact .of_spelled .true
  | number hnumber =>
    unfold tokens write
    exact .of_spelled (.number hnumber)
  | text s =>
    unfold tokens write
    exact .of_spelled (spelled_writeText s)
  | @array items hitems ih =>
    unfold tokens write
    rw [itemTokens_eq_map, writeItems_eq_intercalate]
    exact .enclosed .openBracket (.intercalate ih) .closeBracket
  | @object members hmembers ih =>
    unfold tokens write
    rw [memberTokens_eq_map, writeMembers_eq_intercalate]
    apply Spaced.enclosed .openBrace _ .closeBrace
    apply Spaced.intercalate
    intro m hm
    have hkey : Spaced [.text m.1] (writeText m.1) := .of_spelled (spelled_writeText m.1)
    have hcolon : Spaced [.colon] [':'] := .of_spelled .colon
    exact hkey.append (hcolon.append (ih m hm))

/-- **The text of a document spells the document.** -/
theorem spells_render {d : Document} (h : d.Printable) : d.Spells d.render := by
  unfold Spells render
  rw [String.toList_ofList]
  exact spaced_write h

end WireCall.Document
