import WireCall.Proofs.Document.Lexer

namespace WireCall.Document

/-!
# Putting tokens together

The containers that are still open say which tokens have been spent on them before the next value or
key (`spentBefore`), and with what may come next they say which tokens have been spent at all
(`Assembly.Spent`).  Every step spends the token that it takes (`Assembly.Spent.step`), so a
document that is finished has been put together of its own tokens.

The other way round, the machine runs through the tokens of a document just as if the document were
completed at once (`run_tokens`), by induction over the document.

Main statements: the tokens of a document give this document and no others do
(`ofTokens?_eq_some_iff`), and a text is read as a document exactly if it spells the document
(`parse?_eq_some_iff`).
-/

/-- Induction over a document: what holds of an array when it holds of its items, and of an object
when it holds of the values of its members, holds of every document. -/
@[elab_as_elim]
theorem inductionOn {motive : Document → Prop} (d : Document) (null : motive .null)
    (bool : ∀ b, motive (.bool b)) (number : ∀ literal, motive (.number literal))
    (text : ∀ s, motive (.text s))
    (array : ∀ items, (∀ d ∈ items, motive d) → motive (.array items))
    (object : ∀ members : List (Option String × Document), (∀ m ∈ members, motive m.2) →
      motive (.object members)) : motive d := by
  refine @Document.rec motive (fun items => ∀ d ∈ items, motive d)
    (fun members => ∀ m ∈ members, motive m.2) (fun m => motive m.2)
    null bool number text array object ?_ ?_ ?_ ?_ ?_ d
  · simp
  · intro d ds hd hds
    exact List.forall_mem_cons.mpr ⟨hd, hds⟩
  · simp
  · intro m ms hm hms
    exact List.forall_mem_cons.mpr ⟨hm, hms⟩
  · intro key d hd
    exact hd

/-! ### Tokens of containers -/

/-- The pieces with a comma behind each of them. -/
def withCommas (pieces : List (List Token)) : List Token := pieces.flatMap (· ++ [.comma])

/-- Pieces behind pieces keep their commas. -/
theorem withCommas_append (xs ys : List (List Token)) :
    withCommas (xs ++ ys) = withCommas xs ++ withCommas ys := List.flatMap_append

/-- Behind the last piece there is one comma more than between them. -/
theorem intercalate_append_comma {pieces : List (List Token)} (hne : pieces ≠ []) :
    List.intercalate [.comma] pieces ++ [.comma] = withCommas pieces := by
  induction pieces with
  | nil => exact absurd rfl hne
  | cons x xs ih =>
    cases xs with
    | nil => simp [withCommas]
    | cons y ys =>
      rw [List.intercalate_cons_cons, List.append_assoc, ih (List.cons_ne_nil y ys)]
      rfl

theorem itemTokens_append (items items' : List Document) :
    itemTokens (items ++ items') = itemTokens items ++ itemTokens items' := by
  induction items with
  | nil => rfl
  | cons d items ih => rw [List.cons_append, itemTokens, itemTokens, ih, List.cons_append]

theorem memberTokens_append (members members' : List (Option String × Document)) :
    memberTokens (members ++ members') = memberTokens members ++ memberTokens members' := by
  induction members with
  | nil => rfl
  | cons m members ih => rw [List.cons_append, memberTokens, memberTokens, ih, List.cons_append]

/-! ### Tokens that have been spent -/

/-- The tokens that are spent on the open containers before the next value or key. -/
def spentBefore : List Open → List Token
  | [] => []
  | .array items :: stack =>
    spentBefore stack ++ .openBracket :: withCommas (itemTokens items.reverse)
  | .object members :: stack =>
    spentBefore stack ++ .openBrace :: withCommas (memberTokens members.reverse)
  | .member members key :: stack =>
    spentBefore stack ++ .openBrace ::
      (withCommas (memberTokens members.reverse) ++ [.text key, .colon])

namespace Assembly

/-- The tokens that have been spent so far; where a colon or a comma comes next, it is the last one
that has to be spent before the next value or key. -/
def Spent (a : Assembly) (ts : List Token) : Prop :=
  match a.expect with
  | .value | .key => ts = spentBefore a.stack
  | .firstItem => ts = spentBefore a.stack ∧ ∃ stack, a.stack = .array [] :: stack
  | .firstKey => ts = spentBefore a.stack ∧ ∃ stack, a.stack = .object [] :: stack
  | .colon => ts ++ [.colon] = spentBefore a.stack
  | .separator => ts ++ [.comma] = spentBefore a.stack
  | .finished d => ts = d.tokens

variable {stack : List Open} {d : Document} {a : Assembly} {ts : List Token} {t : Token}

/-- Taking a finished value in spends exactly its tokens. -/
theorem spent_complete (h : complete d stack = some a) :
    a.Spent (spentBefore stack ++ d.tokens) := by
  -- By cases on what stands open: only a value that is waited for can be taken in.
  cases stack with
  | nil => exact Option.some.inj h ▸ List.nil_append _
  | cons top stack =>
    cases top with
    | array items =>
      refine Option.some.inj h ▸ ?_
      show _ ++ [_] = spentBefore stack ++
        .openBracket :: withCommas (itemTokens (d :: items).reverse)
      rw [List.reverse_cons, itemTokens_append, withCommas_append]
      simp [spentBefore, withCommas, itemTokens]
    | member members key =>
      refine Option.some.inj h ▸ ?_
      show _ ++ [_] = spentBefore stack ++
        .openBrace :: withCommas (memberTokens ((key, d) :: members).reverse)
      rw [List.reverse_cons, memberTokens_append, withCommas_append]
      simp [spentBefore, withCommas, memberTokens]
    | object members => cases h

/-- A token that starts a value is spent, and nothing else. -/
theorem spent_startValue (hts : ts = spentBefore stack) (h : startValue stack t = some a) :
    a.Spent (ts ++ [t]) := by
  subst hts
  cases t with
  | null | bool b | number literal | text s => exact spent_complete h
  | openBracket => exact Option.some.inj h ▸ ⟨rfl, stack, rfl⟩
  | openBrace => exact Option.some.inj h ▸ ⟨rfl, stack, rfl⟩
  | closeBrace | closeBracket | colon | comma => cases h

/-- A token taken as a key is spent, and nothing else. -/
theorem spent_takeKey (hts : ts = spentBefore stack) (h : takeKey stack t = some a) :
    a.Spent (ts ++ [t]) := by
  subst hts
  unfold takeKey at h
  split at h
  · next key members stack =>
    refine Option.some.inj h ▸ ?_
    show _ ++ [_] = spentBefore (.member members key :: stack)
    simp [spentBefore]
  · cases h

/-- The last entry of an open container is complete, and a comma would go with it; or the container
has just been opened. -/
def Closable (stack : List Open) (ts : List Token) : Prop :=
  ts ++ [.comma] = spentBefore stack ∨
    ts = spentBefore stack ∧ ∃ rest, stack = .array [] :: rest ∨ stack = .object [] :: rest

/-- With the comma behind the last piece taken away, there are commas between the pieces only. -/
theorem eq_intercalate_of_append_comma {front : List Token} {opening : Token}
    {pieces : List (List Token)} (hopening : opening ≠ .comma)
    (h : ts ++ [.comma] = front ++ opening :: withCommas pieces) :
    ts = front ++ opening :: List.intercalate [.comma] pieces := by
  by_cases hpieces : pieces = []
  · subst hpieces
    have hlast := congrArg List.getLast? h
    simp [withCommas] at hlast
    exact absurd hlast.symm hopening
  · rw [← intercalate_append_comma hpieces, ← List.cons_append, ← List.append_assoc] at h
    exact List.append_cancel_right h

/-- Tokens after which an array may be closed are its bracket and its items with commas between. -/
theorem Closable.eq_of_array {items : List Document}
    (h : Closable (.array items :: stack) ts) : ts = spentBefore stack ++
      .openBracket :: List.intercalate [.comma] (itemTokens items.reverse) := by
  rcases h with hts | ⟨hts, rest, hempty | hempty⟩
  · exact eq_intercalate_of_append_comma (by decide) hts
  · obtain ⟨⟨rfl⟩, -⟩ := List.cons.inj hempty
    exact hts
  · cases hempty

/-- Tokens after which an object may be closed are its brace and its members with commas between. -/
theorem Closable.eq_of_object {members : List (Option String × Document)}
    (h : Closable (.object members :: stack) ts) : ts = spentBefore stack ++
      .openBrace :: List.intercalate [.comma] (memberTokens members.reverse) := by
  rcases h with hts | ⟨hts, rest, hempty | hempty⟩
  · exact eq_intercalate_of_append_comma (by decide) hts
  · cases hempty
  · obtain ⟨⟨rfl⟩, -⟩ := List.cons.inj hempty
    exact hts

/-- A closing token is spent, and the value it closes is taken in. -/
theorem spent_close (hts : Closable stack ts) (h : close stack t = some a) :
    a.Spent (ts ++ [t]) := by
  unfold close at h
  split at h
  · have hspent := spent_complete h
    rw [tokens, ← List.cons_append, ← List.append_assoc, ← hts.eq_of_array] at hspent
    exact hspent
  · have hspent := spent_complete h
    rw [tokens, ← List.cons_append, ← List.append_assoc, ← hts.eq_of_object] at hspent
    exact hspent
  · cases h

/-- A step spends the token that it takes. -/
theorem Spent.step (hspent : a.Spent ts) {b : Assembly} (h : a.step t = some b) :
    b.Spent (ts ++ [t]) := by
  obtain ⟨expect, stack⟩ := a
  cases expect with
  | value => exact spent_startValue hspent h
  | firstItem =>
    obtain ⟨hts, rest, hempty⟩ := hspent
    simp only [Assembly.step] at h
    split at h
    · exact spent_close (.inr ⟨hts, rest, .inl hempty⟩) h
    · exact spent_startValue hts h
  | firstKey =>
    obtain ⟨hts, rest, hempty⟩ := hspent
    simp only [Assembly.step] at h
    split at h
    · exact spent_close (.inr ⟨hts, rest, .inr hempty⟩) h
    · exact spent_takeKey hts h
  | key => exact spent_takeKey hspent h
  | colon =>
    simp only [Assembly.step] at h
    split at h
    · next hcolon =>
      cases h
      exact hcolon ▸ hspent
    · cases h
  | separator =>
    simp only [Assembly.step] at h
    split at h
    · next hcomma =>
      -- between two entries the container stays open, so the comma is the one still to be spent
      split at h
      · cases h
        exact hcomma ▸ hspent
      · cases h
        exact hcomma ▸ hspent
      · cases h
    · exact spent_close (.inl hspent) h
  | finished d => cases h

/-- A run spends the tokens that it takes. -/
theorem Spent.run {more : List Token} {b : Assembly} (hspent : a.Spent ts)
    (h : more.foldlM Assembly.step a = some b) : b.Spent (ts ++ more) := by
  induction more generalizing a ts with
  | nil =>
    cases h
    rwa [List.append_nil]
  | cons t more ih =>
    rw [List.foldlM_cons] at h
    obtain ⟨next, hstep, hrest⟩ := Option.bind_eq_some_iff.mp h
    rw [List.append_cons]
    exact ih (hspent.step hstep) hrest

end Assembly

/-! ### Running through the tokens of a document -/

/-- The machine takes the tokens of the document where a value comes next, and completes it. -/
def RunsThrough (d : Document) : Prop :=
  ∀ stack, d.tokens.foldlM Assembly.step ⟨.value, stack⟩ = Assembly.complete d stack

variable {stack : List Open}

/-- No document begins with the bracket that closes an array, so it does not matter whether it is
the first item. -/
theorem foldlM_firstItem (d : Document) (more : List Token) :
    (d.tokens ++ more).foldlM Assembly.step ⟨.firstItem, stack⟩ =
      (d.tokens ++ more).foldlM Assembly.step ⟨.value, stack⟩ := by
  cases d <;> simp [tokens, Assembly.step]

/-- The first of several pieces is what they begin with. -/
theorem exists_intercalate_eq_append (piece : List Token) (pieces : List (List Token)) :
    ∃ more, List.intercalate [.comma] (piece :: pieces) = piece ++ more := by
  cases pieces with
  | nil => exact ⟨[], by simp⟩
  | cons next pieces => exact ⟨_, List.intercalate_cons_cons.trans (List.append_assoc ..)⟩

/-- The machine takes the items of an array with commas between them. -/
theorem run_items (stack : List Open) {items : List Document} (acc : List Document)
    (hitems : ∀ d ∈ items, d.RunsThrough) (hne : items ≠ []) :
    (List.intercalate [.comma] (itemTokens items)).foldlM Assembly.step
        ⟨.value, .array acc :: stack⟩ =
      some ⟨.separator, .array (items.reverse ++ acc) :: stack⟩ := by
  induction items generalizing acc with
  | nil => exact absurd rfl hne
  | cons d items ih =>
    obtain ⟨hd, hitems⟩ := List.forall_mem_cons.mp hitems
    cases items with
    | nil => simp [itemTokens, hd (.array acc :: stack), Assembly.complete]
    | cons d' items =>
      have hrest := ih (d :: acc) hitems (List.cons_ne_nil d' items)
      simp only [itemTokens] at hrest
      rw [itemTokens, itemTokens, List.intercalate_cons_cons, List.append_assoc,
        List.foldlM_append, hd]
      -- the comma leads from behind the first item to the next one
      simpa [Assembly.complete, Assembly.step] using hrest

/-- The machine takes the members of an object with commas between them. -/
theorem run_members (stack : List Open) {members : List (Option String × Document)}
    (acc : List (Option String × Document)) (hmembers : ∀ m ∈ members, m.2.RunsThrough)
    (hne : members ≠ []) :
    (List.intercalate [.comma] (memberTokens members)).foldlM Assembly.step
        ⟨.key, .object acc :: stack⟩ =
      some ⟨.separator, .object (members.reverse ++ acc) :: stack⟩ := by
  -- By induction on the members: each one goes on top of those put together before.
  induction members generalizing acc with
  | nil => exact absurd rfl hne
  | cons m members ih =>
    obtain ⟨key, d⟩ := m
    obtain ⟨hd, hmembers⟩ := List.forall_mem_cons.mp hmembers
    cases members with
    | nil =>
      simp [memberTokens, Assembly.step, Assembly.takeKey, hd (.member acc key :: stack),
        Assembly.complete]
    | cons m' members =>
      have hrest := ih ((key, d) :: acc) hmembers (List.cons_ne_nil m' members)
      simp only [memberTokens] at hrest
      rw [memberTokens, memberTokens, List.intercalate_cons_cons]
      simp only [List.cons_append, List.append_assoc, List.foldlM_cons, Assembly.step,
        Assembly.takeKey, if_true, Option.bind_eq_bind, Option.bind_some, List.foldlM_append, hd _]
      simpa [Assembly.complete, Assembly.step] using hrest

/-- Every document is run through, by induction over the document. -/
theorem run_tokens (d : Document) : d.RunsThrough := by
  induction d using inductionOn with
  | null | bool b | number literal | text s =>
    intro stack
    simp [tokens, Assembly.step, Assembly.startValue]
  | array items ih =>
    intro stack
    suffices hopened : List.foldlM Assembly.step ⟨.firstItem, .array [] :: stack⟩
        (List.intercalate [.comma] (itemTokens items) ++ [.closeBracket]) =
          Assembly.complete (.array items) stack by
      rw [tokens, List.foldlM_cons]
      exact hopened
    cases items with
    | nil => simp [itemTokens, Assembly.step, Assembly.close]
    | cons d items =>
      have hrun := run_items stack [] ih (List.cons_ne_nil d items)
      rw [itemTokens] at hrun ⊢
      obtain ⟨more, hmore⟩ := exists_intercalate_eq_append d.tokens (itemTokens items)
      rw [hmore] at hrun ⊢
      rw [List.append_assoc, foldlM_firstItem, ← List.append_assoc, List.foldlM_append, hrun]
      simp [Assembly.step, Assembly.close]
  | object members ih =>
    intro stack
    suffices hopened : List.foldlM Assembly.step ⟨.firstKey, .object [] :: stack⟩
        (List.intercalate [.comma] (memberTokens members) ++ [.closeBrace]) =
          Assembly.complete (.object members) stack by
      rw [tokens, List.foldlM_cons]
      exact hopened
    cases members with
    | nil => simp [memberTokens, Assembly.step, Assembly.close]
    | cons m members =>
      have hrun := run_members stack [] ih (List.cons_ne_nil m members)
      obtain ⟨key, d⟩ := m
      rw [memberTokens] at hrun ⊢
      obtain ⟨more, hmore⟩ := exists_intercalate_eq_append (.text key :: .colon :: d.tokens)
        (memberTokens members)
      rw [hmore] at hrun ⊢
      -- a key is no brace, so it does not matter whether it is the first one
      have hkey : ∀ ts, (Token.text key :: ts).foldlM Assembly.step
          ⟨.firstKey, .object [] :: stack⟩ =
            (Token.text key :: ts).foldlM Assembly.step ⟨.key, .object [] :: stack⟩ :=
        fun ts => by simp [Assembly.step]
      rw [List.append_assoc, List.cons_append, hkey, ← List.cons_append, ← List.append_assoc,
        List.foldlM_append, hrun]
      simp [Assembly.step, Assembly.close]

/-- The tokens of a document, and no others, give this document. -/
theorem ofTokens?_eq_some_iff {ts : List Token} {d : Document} :
    ofTokens? ts = some d ↔ ts = d.tokens := by
  constructor
  · intro h
    -- Whatever the run has spent is all of the tokens, and a finished document has spent its own.
    obtain ⟨a, hrun, hfinished⟩ := Option.bind_eq_some_iff.mp h
    have hbegin : (Assembly.mk .value []).Spent [] := rfl
    have hspent := hbegin.run hrun
    obtain ⟨expect, stack⟩ := a
    cases expect with
    | finished d' =>
      cases hfinished
      exact hspent
    | value | firstItem | firstKey | key | colon | separator => cases hfinished
  · rintro rfl
    simp [ofTokens?, run_tokens d [], Assembly.complete]

/-! ### Texts -/

/-- Behind a token that is no number any token can stand without a blank. -/
theorem apart_of_left {t u : Token} (ht : ∀ literal, t ≠ .number literal) : Lexer.Apart t u := by
  cases t with
  | number literal => exact absurd rfl (ht literal)
  | _ => trivial

/-- Before a token that is no number any token can stand without a blank. -/
theorem apart_of_right {t u : Token} (hu : ∀ literal, u ≠ .number literal) : Lexer.Apart t u := by
  cases u with
  | number literal => exact absurd rfl (hu literal)
  | _ => cases t <;> trivial

/-- Two chains of tokens make one if a comma stands between them. -/
theorem isChain_intercalate {pieces : List (List Token)}
    (hpieces : ∀ piece ∈ pieces, piece.IsChain Lexer.Apart) :
    (List.intercalate [.comma] pieces).IsChain Lexer.Apart := by
  induction pieces with
  | nil => exact List.isChain_nil
  | cons piece pieces ih =>
    obtain ⟨hpiece, hpieces⟩ := List.forall_mem_cons.mp hpieces
    cases pieces with
    | nil => rwa [List.intercalate_singleton]
    | cons next pieces =>
      rw [List.intercalate_cons_cons, List.append_assoc, List.isChain_append]
      refine ⟨hpiece, List.isChain_cons.mpr ⟨fun u _ => apart_of_left (by simp), ih hpieces⟩, ?_⟩
      intro t _ u hu
      cases hu
      exact apart_of_right (by simp)

/-- Brackets around a chain of tokens make a longer one. -/
theorem isChain_enclosed {ts : List Token} {opening closing : Token}
    (hopening : ∀ literal, opening ≠ .number literal)
    (hclosing : ∀ literal, closing ≠ .number literal) (hts : ts.IsChain Lexer.Apart) :
    (opening :: (ts ++ [closing])).IsChain Lexer.Apart := by
  refine List.isChain_cons.mpr ⟨fun u _ => apart_of_left hopening, List.isChain_append.mpr
    ⟨hts, List.isChain_singleton closing, ?_⟩⟩
  intro t _ u hu
  cases hu
  exact apart_of_right hclosing

/-- The pieces of an array are the tokens of its items. -/
theorem mem_itemTokens {items : List Document} {piece : List Token} :
    piece ∈ itemTokens items ↔ ∃ d ∈ items, piece = d.tokens := by
  induction items with
  | nil => simp [itemTokens]
  | cons d items ih => simp [itemTokens, ih]

/-- The pieces of an object are key, colon and value of its members. -/
theorem mem_memberTokens {members : List (Option String × Document)} {piece : List Token} :
    piece ∈ memberTokens members ↔ ∃ m ∈ members, piece = .text m.1 :: .colon :: m.2.tokens := by
  induction members with
  | nil => simp [memberTokens]
  | cons m members ih => simp [memberTokens, ih]

/-- No two numbers are side by side in a document. -/
theorem isChain_tokens (d : Document) : d.tokens.IsChain Lexer.Apart := by
  induction d using inductionOn with
  | null | bool b | number literal | text s => exact List.isChain_singleton _
  | array items ih =>
    refine isChain_enclosed (by simp) (by simp) (isChain_intercalate fun piece hpiece => ?_)
    obtain ⟨d, hd, rfl⟩ := mem_itemTokens.mp hpiece
    exact ih d hd
  | object members ih =>
    refine isChain_enclosed (by simp) (by simp) (isChain_intercalate fun piece hpiece => ?_)
    obtain ⟨m, hm, rfl⟩ := mem_memberTokens.mp hpiece
    exact List.isChain_cons.mpr ⟨fun u _ => apart_of_left (by simp),
      List.isChain_cons.mpr ⟨fun u _ => apart_of_left (by simp), ih m hm⟩⟩

/-- A text is read as a document exactly if it spells this document. -/
theorem parse?_eq_some_iff {s : String} {d : Document} : parse? s = some d ↔ d.Spells s := by
  rw [parse?, Option.bind_eq_bind, Option.bind_eq_some_iff, Spells,
    ← Lexer.tokens_eq_some_iff (isChain_tokens d)]
  constructor
  · rintro ⟨ts, hlex, hts⟩
    rwa [← ofTokens?_eq_some_iff.mp hts]
  · exact fun hlex => ⟨d.tokens, hlex, ofTokens?_eq_some_iff.mpr rfl⟩

/-- A text spells one document at most. -/
theorem Spells.eq {s : String} {d d' : Document} (h : d.Spells s) (h' : d'.Spells s) : d = d' :=
  Option.some.inj ((parse?_eq_some_iff.mpr h).symm.trans (parse?_eq_some_iff.mpr h'))

end WireCall.Document
