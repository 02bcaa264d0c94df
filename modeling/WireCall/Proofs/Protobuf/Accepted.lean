import WireCall.Proofs.Members
import WireCall.Proofs.Protobuf.Length
import WireCall.Proofs.Protobuf.Value

namespace WireCall.Protobuf

/-!
# What the reader of Protocol Buffers accepts

The reader takes numbers with more groups than they need, fields in any order and several times,
and joins lists and objects that come in pieces.  What it hands back is nevertheless always
something that can be written and read again: the keys of objects are brought into order, no more
messages are open at once than the budget allowed, and the form of the value is at most half as long
again as the bytes that were read (`readsSoundly`).

The readers of lists, entries and objects are taken one by one, with what holds of values below
them as a hypothesis (`readList_grows`, `readEntry_grows`, `readObject_grows`); the induction is on
the budget.
-/

/-! ### Sizes of forms -/

/-- The bytes of the items of a list, each behind its length. -/
def itemsSize (items : List Value) : Nat :=
  (items.map fun v => framed (encodeValue v).length).sum

/-- The bytes of the entries of an object, each behind its length. -/
def entriesSize (entries : List (String × Value)) : Nat :=
  (entries.map fun e => framed (entry e.1 (encodeValue e.2)).length).sum

/-- The bytes of a field that is absent when its payload is empty. -/
def framedUnlessEmpty (n : Nat) : Nat := if n = 0 then 0 else framed n

/-- A list takes the frame around its items. -/
theorem length_encodeValue_list (items : List Value) :
    (encodeValue (.list items)).length = framed (itemsSize items) := by
  rw [encodeValue, length_delimitedField (by decide), toList_writeItems, List.nil_append,
    List.length_flatMap, itemsSize]
  simp only [length_delimitedField (show 1 < 16 by decide)]

theorem length_encodeValue_object (members : List (String × Value)) :
    (encodeValue (.object members)).length = framed (entriesSize members) := by
  rw [encodeValue, length_delimitedField (by decide), toList_writeMembers, List.nil_append,
    List.length_flatMap, entriesSize]
  simp only [length_delimitedField (show 1 < 16 by decide)]

/-- An entry takes its name and its framed value. -/
theorem length_entry (name : String) (value : Octets) :
    (entry name value).length = (textField 1 name).length + framedUnlessEmpty value.length := by
  rw [entry, List.length_append, framedUnlessEmpty]
  cases value with
  | nil => rfl
  | cons b bytes =>
    rw [if_neg (by simp), if_neg (by simp), length_delimitedField (by decide)]

/-- A text takes at most its frame, since an empty one is left out. -/
theorem length_textField_le {number : Nat} (hnumber : number < 16) (s : String) :
    (textField number s).length ≤ framed (Octets.ofText s).length := by
  rw [textField]
  split
  · exact Nat.zero_le _
  · exact Nat.le_of_eq (length_delimitedField hnumber _)

/-- More bytes take more room in a frame. -/
theorem framedUnlessEmpty_mono {m n : Nat} (h : m ≤ n) :
    framedUnlessEmpty m ≤ framedUnlessEmpty n := by
  rw [framedUnlessEmpty, framedUnlessEmpty]
  split
  · exact Nat.zero_le _
  · rw [if_neg (by omega)]
    exact framed_mono h

/-- The growth of bytes by one half carries over to their frame. -/
theorem framedUnlessEmpty_grows {m k n : Nat} (h : 2 * m ≤ 2 * k + 3 * n) :
    2 * framedUnlessEmpty m ≤ 2 * framedUnlessEmpty k + 3 * framed n := by
  rw [framedUnlessEmpty, framedUnlessEmpty]
  split
  · exact Nat.zero_le _
  · split
    · have := framed_grows_of_zero (m := m) (n := n) (by omega)
      omega
    · exact framed_grows h

theorem size_delimited (number : Nat) (bytes : Octets) :
    Field.size ⟨number, .delimited bytes⟩ = framed bytes.length := by
  rw [Field.size, Payload.encode, List.length_append, framed, Nat.add_assoc]

/-! ### Scalars -/

/-- The unfolding of the naturals into the integers loses nothing. -/
theorem zigzag_unzigzag (n : Nat) : zigzag (unzigzag n) = n := by
  unfold zigzag unzigzag
  split <;> split <;> omega

/-- The signed integer of a varint is the unfolded one. -/
theorem val_signed {n : Nat} (h : n < 0x10000000000000000) : (signed n).val = unzigzag n := by
  have hbounds : -0x8000000000000000 ≤ unzigzag n ∧ unzigzag n < 0x8000000000000000 := by
    unfold unzigzag
    split <;> omega
  exact Int64.toInt_ofInt_of_le hbounds.1 hbounds.2

/-- A signed integer takes its key and its varint. -/
theorem length_encodeValue_signed {n : Nat} (h : n < 0x10000000000000000) :
    (encodeValue (.int (signed n))).length = 1 + (varint n).length := by
  have hsmall : unzigzag n < 0x8000000000000000 := by
    unfold unzigzag
    split <;> omega
  rw [encodeValue, integer, val_signed h, if_pos hsmall, zigzag_unzigzag, List.length_append]
  rfl

/-- An unsigned number in the signed range is written as a signed one, which takes a bit more. -/
theorem length_encodeValue_unsigned {n : Nat} (h : n < 0x10000000000000000) :
    (encodeValue (.int (.ofUInt64 (UInt64.ofNat n)))).length ≤ 2 + (varint n).length := by
  have hval : (WireInt.ofUInt64 (UInt64.ofNat n)).val = n := by
    show ((UInt64.ofNat n).toNat : Int) = n
    rw [UInt64.toNat_ofNat', Nat.mod_eq_of_lt h]
  rw [encodeValue, integer, hval]
  -- The number is written with a sign where that fits, and then its varint is of twice the number.
  split
  · have hzigzag : zigzag (n : Int) = 2 * n := by
      rw [zigzag, if_pos (Int.natCast_nonneg n), Int.toNat_natCast]
    have hlength := length_varint_le_succ (m := 2 * n) (n := n) (by omega)
    rw [hzigzag, List.length_append]
    show 1 + _ ≤ _
    omega
  · rw [List.length_append, Int.toNat_natCast]
    show 1 + _ ≤ _
    omega

/-- A double takes at most nine bytes. -/
theorem length_encodeValue_ofBinary64_le (x : Binary64) :
    (encodeValue (.ofBinary64 x)).length ≤ 9 := by
  rw [Value.ofBinary64]
  split
  · rw [encodeValue, List.length_append, Octets.length_littleEndian]
    exact Nat.le_refl _
  · exact Nat.zero_le _

/-- A text that was read has the bytes it was read from. -/
theorem ofText_of_textOf {bytes : Octets} {s : String} (h : textOf bytes = .ok s) :
    Octets.ofText s = bytes := by
  rw [textOf] at h
  split at h
  · rename_i s' htext
    obtain rfl := Except.ok.inj h
    exact Octets.ofText_of_text? htext
  · cases h

/-- A text that was read takes the frame of its bytes. -/
theorem length_encodeValue_str {bytes : Octets} {s : String} (h : textOf bytes = .ok s) :
    (encodeValue (.str s)).length = framed bytes.length := by
  rw [encodeValue, ofText_of_textOf h, length_delimitedField (by decide)]

/-- A text that was read takes no more bytes than the field in which it stood. -/
theorem length_textField_of_textOf {number : Nat} (hnumber : number < 16) (n : Nat)
    {bytes : Octets} {s : String} (hs : textOf bytes = .ok s) :
    (textField number s).length ≤ Field.size ⟨n, .delimited bytes⟩ := by
  have htext := length_textField_le hnumber s
  rwa [ofText_of_textOf hs, ← size_delimited n] at htext

/-! ### Values that can be read again -/

/-- The value is normal, and is read back when so many messages may be opened inside of it. -/
structure Readable (budget : Nat) (v : Value) : Prop where
  normal : v.Normal
  opens : Opens (budget + 1) v

/-- The same for a value in an entry, where null is not written and needs no message. -/
def ReadableMember (budget : Nat) (v : Value) : Prop :=
  v = .null ∨ ∃ b, budget = b + 1 ∧ Readable b v

namespace Draft

/-- The bytes of the value as read so far; entries count even when later ones have their keys. -/
def size : Draft → Nat
  | null => 0
  | scalar v => (encodeValue v).length
  | list items => framed (itemsSize items)
  | object entries => framed (entriesSize entries)

/-- What is in the draft can be read again below it. -/
def Readable (budget : Nat) : Draft → Prop
  | null => True
  | scalar v => v.isContainer = false
  | list items => ∃ b, budget = b + 1 ∧
      ∀ v ∈ items, ∃ b', b = b' + 1 ∧ Protobuf.Readable b' v
  | object entries => ∃ b, budget = b + 1 ∧
      ∀ e ∈ entries, ∃ b', b = b' + 1 ∧ ReadableMember b' e.2

/-- The value of a draft takes no more bytes than the draft was charged for. -/
theorem length_value_le (draft : Draft) : (encodeValue draft.value).length ≤ draft.size := by
  cases draft with
  | null | scalar => exact Nat.le_refl _
  | list items => exact Nat.le_of_eq (length_encodeValue_list items)
  | object entries =>
    rw [value, Value.ofEntries, length_encodeValue_object]
    exact framed_mono (Members.sum_ofEntries_le _ entries)

end Draft

/-- A scalar takes one message at most. -/
theorem messages_le_one {v : Value} (hscalar : v.isContainer = false) : messages v ≤ 1 := by
  cases v with
  | null => exact Nat.zero_le _
  | bool | int | float | str => exact Nat.le_refl _
  | list | object => cases hscalar

/-- A scalar is readable at every depth. -/
theorem Readable.of_scalar {budget : Nat} {v : Value} (hscalar : v.isContainer = false) :
    Readable budget v where
  normal := by
    cases v with
    | list | object => cases hscalar
    | null | bool | int | float | str => trivial
  opens := .of_scalar hscalar (Nat.le_trans (messages_le_one hscalar) (Nat.le_add_left 1 budget))

/-- A readable draft has a readable value. -/
theorem Draft.Readable.value {budget : Nat} {draft : Draft} (h : draft.Readable budget) :
    Protobuf.Readable budget draft.value := by
  -- By cases on the draft; a container that was read has opened one message, and one more for its
  -- parts.
  cases draft with
  | null => exact .of_scalar rfl
  | scalar v => exact .of_scalar h
  | list items =>
    obtain ⟨b, rfl, hitems⟩ := h
    refine ⟨Value.normal_list.mpr fun v hv => ?_, .of_items ?_ fun v hv => ?_⟩
    · obtain ⟨b', -, hreadable⟩ := hitems v hv
      exact hreadable.normal
    · cases items with
      | nil => exact Nat.le_add_left 2 b
      | cons v vs =>
        obtain ⟨b', rfl, -⟩ := hitems v List.mem_cons_self
        exact Nat.le_add_left 3 b'
    · obtain ⟨b', rfl, hreadable⟩ := hitems v hv
      exact ⟨b' + 1, rfl, hreadable.opens⟩
  | object entries =>
    obtain ⟨b, rfl, hentries⟩ := h
    have hmembers : ∀ m ∈ Members.ofEntries entries, ∃ b', b = b' + 1 ∧ ReadableMember b' m.2 :=
      fun m hm => hentries m (Members.mem_of_mem_ofEntries hm)
    refine ⟨Value.normal_object.mpr ⟨Members.ascending_ofEntries entries, fun m hm => ?_⟩,
      .of_members ?_ fun m hm => ?_⟩
    · obtain ⟨b', -, hnull | ⟨b'', -, hreadable⟩⟩ := hmembers m hm
      · rw [hnull]
        trivial
      · exact hreadable.normal
    · cases hcases : Members.ofEntries entries with
      | nil => exact Nat.le_add_left 2 b
      | cons m ms =>
        obtain ⟨b', rfl, -⟩ := hmembers m (hcases ▸ List.mem_cons_self)
        exact Nat.le_add_left 3 b'
    · obtain ⟨b', rfl, hnull | ⟨b'', rfl, hreadable⟩⟩ := hmembers m hm
      · -- A member that is null opens no message below the one of its entry.
        refine ⟨b', rfl, ?_⟩
        rw [hnull]
        exact .of_scalar rfl (Nat.zero_le _)
      · exact ⟨b'' + 1, rfl, hreadable.opens⟩

/-! ### Fields one after the other -/

/-- What is gathered field by field grows by at most one half of what is read. -/
theorem foldlM_grows {δ : Type} {step : δ → Field → Except BodyFault δ} (p : δ → Prop)
    (size : δ → Nat)
    (hstep : ∀ d field d', field.payload.InRange → p d → step d field = .ok d' →
      p d' ∧ 2 * size d' ≤ 2 * size d + 3 * field.size)
    {fields : List Field} (hrange : ∀ field ∈ fields, field.payload.InRange) {d d' : δ} (hd : p d)
    (h : fields.foldlM step d = .ok d') :
    p d' ∧ 2 * size d' ≤ 2 * size d + 3 * (fields.map Field.size).sum := by
  induction fields generalizing d with
  | nil =>
    obtain rfl := Except.ok.inj h
    exact ⟨hd, Nat.le_add_right _ _⟩
  | cons field fields ih =>
    rw [List.foldlM_cons] at h
    obtain ⟨next, hnext, h⟩ := bind_eq_ok_iff.mp h
    obtain ⟨hp, hsize⟩ := hstep _ _ _ (hrange field (by simp)) hd hnext
    obtain ⟨hp', hsize'⟩ := ih (fun f hf => hrange f (by simp [hf])) hp h
    refine ⟨hp', ?_⟩
    rw [List.map_cons, List.sum_cons]
    omega

/-- Fields read one by one keep what holds of each, and the growth of each bounds that of all. -/
theorem mapM_grows {α : Type} {item : Field → Except BodyFault α} (p : α → Prop) (size : α → Nat)
    (hitem : ∀ field a, item field = .ok a → p a ∧ 2 * size a ≤ 3 * field.size)
    {fields : List Field} {as : List α} (h : fields.mapM item = .ok as) :
    (∀ a ∈ as, p a) ∧ 2 * (as.map size).sum ≤ 3 * (fields.map Field.size).sum := by
  -- By induction on the fields, whose sizes add up.
  induction fields generalizing as with
  | nil =>
    obtain rfl := Except.ok.inj h
    exact ⟨fun a ha => (by cases ha), Nat.le_refl _⟩
  | cons field fields ih =>
    rw [List.mapM_cons] at h
    obtain ⟨a, ha, h⟩ := bind_eq_ok_iff.mp h
    obtain ⟨rest, hrest, h⟩ := bind_eq_ok_iff.mp h
    obtain rfl := Except.ok.inj h
    obtain ⟨hp, hsize⟩ := hitem _ _ ha
    obtain ⟨hp', hsize'⟩ := ih hrest
    refine ⟨List.forall_mem_cons.mpr ⟨hp, hp'⟩, ?_⟩
    rw [List.map_cons, List.sum_cons, List.map_cons, List.sum_cons]
    omega

/-! ### Reading values -/

/-- Reading within this budget keeps drafts readable, and makes them longer by at most one half of
what is read. -/
def ReadsSoundly (budget : Nat) : Prop :=
  ∀ draft bytes draft', draft.Readable budget → readValue budget draft bytes = .ok draft' →
    draft'.Readable budget ∧ 2 * draft'.size ≤ 2 * draft.size + 3 * bytes.length

variable {budget : Nat} {bytes : Octets}

/-- A value that is read from the start is at most half as long again as what is read. -/
theorem ReadsSoundly.value (hsound : ReadsSoundly budget) {draft : Draft}
    (h : readValue budget .null bytes = .ok draft) :
    Readable budget draft.value ∧ 2 * (encodeValue draft.value).length ≤ 3 * bytes.length := by
  obtain ⟨hreadable, hgrows⟩ := hsound .null bytes draft trivial h
  have hlength := draft.length_value_le
  have hnull : Draft.null.size = 0 := rfl
  exact ⟨hreadable.value, by omega⟩

/-- A list that was read is readable, and has grown by one half at most. -/
theorem readList_grows (hlower : ∀ b < budget, ReadsSoundly b) {items : List Value}
    (h : readList budget bytes = .ok items) :
    (∀ v ∈ items, ∃ b, budget = b + 1 ∧ Readable b v) ∧
      2 * itemsSize items ≤ 3 * bytes.length := by
  rw [readList] at h
  obtain ⟨fields, hfields, h⟩ := bind_eq_ok_iff.mp h
  obtain ⟨-, hbytes⟩ := readFields_size hfields
  obtain ⟨hitems, hsize⟩ := mapM_grows (fun v => ∃ b, budget = b + 1 ∧ Readable b v)
    (fun v => framed (encodeValue v).length) (by
      rintro ⟨number, payload⟩ v hv
      cases payload with
      -- An item is a message of its own, so it takes one level.
      | delimited part =>
        cases budget with
        | zero => cases hv
        | succ budget =>
          obtain ⟨draft, hdraft, hv⟩ := bind_eq_ok_iff.mp hv
          obtain rfl := Except.ok.inj hv
          obtain ⟨hreadable, hgrows⟩ := (hlower budget (Nat.lt_succ_self _)).value hdraft
          rw [size_delimited]
          exact ⟨⟨budget, rfl, hreadable⟩, framed_grows_of_zero hgrows⟩
      | varint | fixed64 | fixed32 => cases hv) h
  exact ⟨hitems, Nat.le_trans hsize (Nat.mul_le_mul_left 3 hbytes)⟩

/-- An entry that was read is readable, and has grown by one half at most. -/
theorem readEntry_grows (hlower : ∀ b < budget, ReadsSoundly b) {e : String × Value}
    (h : readEntry budget bytes = .ok e) :
    ReadableMember budget e.2 ∧ 2 * (entry e.1 (encodeValue e.2)).length ≤ 3 * bytes.length := by
  rw [readEntry] at h
  obtain ⟨fields, hfields, h⟩ := bind_eq_ok_iff.mp h
  obtain ⟨⟨name, draft⟩, hfold, h⟩ := bind_eq_ok_iff.mp h
  obtain rfl := Except.ok.inj h
  obtain ⟨hrange, hbytes⟩ := readFields_size hfields
  -- Until a value comes, the entry has null and needs no message for it.
  obtain ⟨hreadable, hsize⟩ := foldlM_grows
    (fun e : String × Draft => e.2 = .null ∨ ∃ b, budget = b + 1 ∧ e.2.Readable b)
    (fun e => (textField 1 e.1).length + framedUnlessEmpty e.2.size) (by
      rintro ⟨name, draft⟩ ⟨number, payload⟩ next - hdraft hnext
      dsimp only at hnext hdraft ⊢
      split at hnext
      · obtain ⟨s, hs, hnext⟩ := bind_eq_ok_iff.mp hnext
        obtain rfl := Except.ok.inj hnext
        have htext := length_textField_of_textOf (show 1 < 16 by decide) 1 hs
        refine ⟨hdraft, ?_⟩
        dsimp only
        omega
      · cases budget with
        | zero => cases hnext
        | succ budget =>
          obtain ⟨draft', hdraft', hnext⟩ := bind_eq_ok_iff.mp hnext
          obtain rfl := Except.ok.inj hnext
          have hold : draft.Readable budget := by
            rcases hdraft with rfl | ⟨b, hb, hdraft⟩
            · trivial
            · obtain rfl := Nat.succ.inj hb
              exact hdraft
          obtain ⟨hnew, hgrows⟩ := hlower budget (Nat.lt_succ_self _) draft _ draft' hold hdraft'
          have hframed := framedUnlessEmpty_grows hgrows
          refine ⟨.inr ⟨budget, rfl, hnew⟩, ?_⟩
          rw [size_delimited]
          dsimp only
          omega
      · cases hnext) hrange (.inl rfl) hfold
  dsimp only at hreadable hsize ⊢
  have hempty : (textField 1 "").length + framedUnlessEmpty Draft.null.size = 0 := rfl
  have hvalue := framedUnlessEmpty_mono draft.length_value_le
  rw [length_entry]
  refine ⟨?_, by omega⟩
  rcases hreadable with rfl | ⟨b, rfl, hreadable⟩
  · exact .inl rfl
  · exact .inr ⟨b, rfl, hreadable.value⟩

/-- An object that was read is readable, and has grown by one half at most. -/
theorem readObject_grows (hlower : ∀ b < budget, ReadsSoundly b) {entries : List (String × Value)}
    (h : readObject budget bytes = .ok entries) :
    (∀ e ∈ entries, ∃ b, budget = b + 1 ∧ ReadableMember b e.2) ∧
      2 * entriesSize entries ≤ 3 * bytes.length := by
  rw [readObject] at h
  obtain ⟨fields, hfields, h⟩ := bind_eq_ok_iff.mp h
  obtain ⟨-, hbytes⟩ := readFields_size hfields
  obtain ⟨hentries, hsize⟩ := mapM_grows
    (fun e : String × Value => ∃ b, budget = b + 1 ∧ ReadableMember b e.2)
    (fun e => framed (entry e.1 (encodeValue e.2)).length) (by
      rintro ⟨number, payload⟩ e he
      cases payload with
      -- An entry is a message of its own, and its value one more.
      | delimited part =>
        cases budget with
        | zero => cases he
        | succ budget =>
          obtain ⟨hreadable, hgrows⟩ :=
            readEntry_grows (fun b hb => hlower b (Nat.lt_succ_of_lt hb)) he
          rw [size_delimited]
          exact ⟨⟨budget, rfl, hreadable⟩, framed_grows_of_zero hgrows⟩
      | varint | fixed64 | fixed32 => cases he) h
  exact ⟨hentries, Nat.le_trans hsize (Nat.mul_le_mul_left 3 hbytes)⟩

/-- The items of two lists take the room of both. -/
theorem itemsSize_append (front back : List Value) :
    itemsSize (front ++ back) = itemsSize front + itemsSize back := by
  rw [itemsSize, List.map_append, List.sum_append]
  rfl

theorem entriesSize_append (front back : List (String × Value)) :
    entriesSize (front ++ back) = entriesSize front + entriesSize back := by
  rw [entriesSize, List.map_append, List.sum_append]
  rfl

/-- The first item takes its frame. -/
theorem itemsSize_cons (v : Value) (items : List Value) :
    itemsSize (v :: items) = framed (encodeValue v).length + itemsSize items := by
  rw [itemsSize, List.map_cons, List.sum_cons]
  rfl

/-- The room of items does not depend on their order. -/
theorem itemsSize_reverse (items : List Value) : itemsSize items.reverse = itemsSize items := by
  rw [itemsSize, List.map_reverse, List.sum_reverse]
  rfl

/-- A list that comes in pieces is no longer than its pieces. -/
theorem Draft.addItems_grows {draft : Draft} {more : List Value} {n : Nat}
    (hdraft : draft.Readable (budget + 1))
    (hmore : ∀ v ∈ more, ∃ b, budget = b + 1 ∧ Protobuf.Readable b v)
    (hsize : 2 * itemsSize more ≤ 3 * n) :
    (draft.addItems more).Readable (budget + 1) ∧
      2 * (draft.addItems more).size ≤ 2 * draft.size + 3 * framed n := by
  have hframed := framed_grows_of_zero hsize
  cases draft with
  | list items =>
    obtain ⟨b, hb, hitems⟩ := hdraft
    obtain rfl := Nat.succ.inj hb
    have hsum := framed_add_le (itemsSize items) (itemsSize more)
    refine ⟨⟨budget, rfl, List.forall_mem_append.mpr ⟨hitems, hmore⟩⟩, ?_⟩
    rw [addItems, size, size, itemsSize_append]
    omega
  | null | scalar | object =>
    exact ⟨⟨budget, rfl, hmore⟩, Nat.le_trans hframed (Nat.le_add_left _ _)⟩

/-- Adding entries keeps a draft readable and within its growth. -/
theorem Draft.addEntries_grows {draft : Draft} {more : List (String × Value)} {n : Nat}
    (hdraft : draft.Readable (budget + 1))
    (hmore : ∀ e ∈ more, ∃ b, budget = b + 1 ∧ ReadableMember b e.2)
    (hsize : 2 * entriesSize more ≤ 3 * n) :
    (draft.addEntries more).Readable (budget + 1) ∧
      2 * (draft.addEntries more).size ≤ 2 * draft.size + 3 * framed n := by
  have hframed := framed_grows_of_zero hsize
  cases draft with
  | object entries =>
    obtain ⟨b, hb, hentries⟩ := hdraft
    obtain rfl := Nat.succ.inj hb
    have hsum := framed_add_le (entriesSize entries) (entriesSize more)
    refine ⟨⟨budget, rfl, List.forall_mem_append.mpr ⟨hentries, hmore⟩⟩, ?_⟩
    rw [addEntries, size, size, entriesSize_append]
    omega
  | null | scalar | list =>
    exact ⟨⟨budget, rfl, hmore⟩, Nat.le_trans hframed (Nat.le_add_left _ _)⟩

/-- A scalar takes the place of whatever was there. -/
theorem Draft.scalar_grows {draft : Draft} {v : Value} {n : Nat} (hscalar : v.isContainer = false)
    (hsize : 2 * (encodeValue v).length ≤ 3 * n) :
    (scalar v).Readable budget ∧ 2 * (scalar v).size ≤ 2 * draft.size + 3 * n :=
  ⟨hscalar, Nat.le_trans hsize (Nat.le_add_left _ _)⟩

theorem isContainer_ofBinary64 (x : Binary64) : (Value.ofBinary64 x).isContainer = false := by
  rw [Value.ofBinary64]
  split <;> rfl

/-! The forms of the scalars, measured by the fields from which they are read. -/

/-- A boolean grows by one half at most. -/
theorem size_bool_le (b : Bool) (n : Nat) :
    2 * (encodeValue (.bool b)).length ≤ 3 * Field.size ⟨1, .varint n⟩ := by
  have hpos := length_varint_pos n
  rw [encodeValue, Field.size, Payload.encode]
  show 2 * 2 ≤ _
  omega

theorem size_signed_le {n : Nat} (h : (Payload.varint n).InRange) :
    2 * (encodeValue (.int (signed n))).length ≤ 3 * Field.size ⟨2, .varint n⟩ := by
  rw [length_encodeValue_signed h, Field.size, Payload.encode]
  omega

/-- An unsigned integer grows by one half at most: it is written as a signed one where that fits. -/
theorem size_unsigned_le {n : Nat} (h : (Payload.varint n).InRange) :
    2 * (encodeValue (.int (.ofUInt64 (UInt64.ofNat n)))).length ≤
      3 * Field.size ⟨3, .varint n⟩ := by
  have hpos := length_varint_pos n
  have hlength := length_encodeValue_unsigned h
  rw [Field.size, Payload.encode]
  omega

theorem size_ofBinary64_le (n : Nat) :
    2 * (encodeValue (.ofBinary64 ⟨UInt64.ofNat n⟩)).length ≤ 3 * Field.size ⟨4, .fixed64 n⟩ := by
  have hlength := length_encodeValue_ofBinary64_le ⟨UInt64.ofNat n⟩
  rw [Field.size, Payload.encode, Octets.length_littleEndian]
  omega

theorem size_str_le {s : String} (hs : textOf bytes = .ok s) :
    2 * (encodeValue (.str s)).length ≤ 3 * Field.size ⟨5, .delimited bytes⟩ := by
  rw [length_encodeValue_str hs, size_delimited]
  omega

/-- A value is read soundly if the values below are. -/
theorem readsSoundly_of_lower (hlower : ∀ b < budget, ReadsSoundly b) : ReadsSoundly budget := by
  intro draft bytes draft' hdraft h
  rw [readValue] at h
  obtain ⟨fields, hfields, h⟩ := bind_eq_ok_iff.mp h
  obtain ⟨hrange, hbytes⟩ := readFields_size hfields
  have hgrows : draft'.Readable budget ∧
      2 * draft'.size ≤ 2 * draft.size + 3 * (fields.map Field.size).sum := by
    refine foldlM_grows (fun d => d.Readable budget) Draft.size ?_ hrange hdraft h
    -- Field by field: a scalar replaces the draft, and a container adds to it.
    rintro draft ⟨number, payload⟩ next hpayload hdraft hnext
    dsimp only at hnext
    split at hnext
    · obtain rfl := Except.ok.inj hnext
      exact Draft.scalar_grows rfl (size_bool_le _ _)
    · obtain rfl := Except.ok.inj hnext
      exact Draft.scalar_grows rfl (size_signed_le hpayload)
    · obtain rfl := Except.ok.inj hnext
      exact Draft.scalar_grows rfl (size_unsigned_le hpayload)
    · obtain rfl := Except.ok.inj hnext
      exact Draft.scalar_grows (isContainer_ofBinary64 _) (size_ofBinary64_le _)
    · obtain ⟨s, hs, hnext⟩ := bind_eq_ok_iff.mp hnext
      obtain rfl := Except.ok.inj hnext
      exact Draft.scalar_grows rfl (size_str_le hs)
    · cases budget with
      | zero => cases hnext
      | succ budget =>
        obtain ⟨more, hmore, hnext⟩ := bind_eq_ok_iff.mp hnext
        obtain rfl := Except.ok.inj hnext
        obtain ⟨hitems, hsize⟩ :=
          readList_grows (fun b hb => hlower b (Nat.lt_succ_of_lt hb)) hmore
        rw [size_delimited]
        exact Draft.addItems_grows hdraft hitems hsize
    · cases budget with
      | zero => cases hnext
      | succ budget =>
        obtain ⟨more, hmore, hnext⟩ := bind_eq_ok_iff.mp hnext
        obtain rfl := Except.ok.inj hnext
        obtain ⟨hentries, hsize⟩ :=
          readObject_grows (fun b hb => hlower b (Nat.lt_succ_of_lt hb)) hmore
        rw [size_delimited]
        exact Draft.addEntries_grows hdraft hentries hsize
    · cases hnext
  exact ⟨hgrows.1, by omega⟩

/-- **Accepted values.**  Whatever the bytes are, the value that is read from them is read back
within the same budget, and its form is at most half as long again. -/
theorem readsSoundly (budget : Nat) : ReadsSoundly budget := by
  induction budget using Nat.strong_induction_on with
  | _ budget ih => exact readsSoundly_of_lower ih

end WireCall.Protobuf
