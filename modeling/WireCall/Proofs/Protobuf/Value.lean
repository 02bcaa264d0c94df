import WireCall.Protobuf.Writer
import WireCall.Protobuf.Reader
import WireCall.Proofs.Protobuf.Wire
import WireCall.Proofs.Values

namespace WireCall.Protobuf

/-!
# Values in Protocol Buffers read back

The form of a value is the forms of its fields (`encodeValue_eq`): one field, which tells the kind,
or none for null.  `readValue_encodeValue` reads it back.

A list opens a message for itself and one for each item, an object one for itself, one for each
entry and one for each value in it that is not null.  So the budget of messages goes down by two
along an item and by three along a member.  `Opens` counts these messages exactly; `NestsWithin` is
the condition on the lists and objects around an occurrence that implies it.
-/

/-- The messages that a value takes up by itself: its own, unless it is null and need not be there,
the one of the list or the object, and the one of an item or an entry in it. -/
def messages : Value → Nat
  | .null => 0
  | .list items => if items.isEmpty then 2 else 3
  | .object members => if members.isEmpty then 2 else 3
  | .bool _ | .int _ | .float _ | .str _ => 1

/-- No more than `limit` messages are open at once in the value, its own included. -/
def Opens (limit : Nat) (v : Value) : Prop := v.Bounded 2 3 messages limit

/-- The messages around any occurrence in the value, and the one that an empty list or object opens
by itself, stay within the budget. -/
def NestsWithin (budget : Nat) (v : Value) : Prop :=
  v.Bounded 2 3 (fun u => u.isHollow.toNat) budget

instance (budget : Nat) (v : Value) : Decidable (NestsWithin budget v) :=
  inferInstanceAs (Decidable (v.Bounded ..))

/-- A value that nests within a depth opens within one more. -/
theorem opens_of_nestsWithin {budget : Nat} {v : Value} (h : NestsWithin budget v) :
    Opens (budget + 1) v := by
  intro lists objects u hu
  have hself := h hu
  cases u with
  | null =>
    show 2 * lists + 3 * objects + 0 ≤ budget + 1
    omega
  | bool | int | float | str => exact Nat.succ_le_succ hself
  | list items =>
    cases items with
    | nil => exact Nat.succ_le_succ hself
    | cons v vs =>
      -- The first item stands below one list more.
      have hitem := h (hu.trans (.item (List.mem_cons_self) (.self v)))
      show 2 * lists + 3 * objects + 3 ≤ budget + 1
      omega
  | object members =>
    cases members with
    | nil => exact Nat.succ_le_succ hself
    | cons m ms =>
      have hmember := h (hu.trans (.member (List.mem_cons_self) (.self m.2)))
      show 2 * lists + 3 * objects + 3 ≤ budget + 1
      omega

/-- A container takes two messages at least. -/
theorem two_le_messages {v : Value} (hcontainer : v.isContainer = true) : 2 ≤ messages v := by
  cases v with
  | list items =>
    rw [messages]
    split <;> decide
  | object members =>
    rw [messages]
    split <;> decide
  | null | bool | int | float | str => cases hcontainer

/-- Any value but null takes a message. -/
theorem messages_pos {v : Value} (hnull : v ≠ .null) : 0 < messages v := by
  cases v with
  | null => exact absurd rfl hnull
  | bool | int | float | str => exact Nat.one_pos
  | list | object => exact Nat.lt_of_succ_lt (two_le_messages rfl)

/-! ### The fields of a value -/

/-- The field of an item or of an entry. -/
def itemField (number : Nat) (bytes : Octets) : Field := ⟨number, .delimited bytes⟩

/-- The items of a list as fields. -/
def itemFields (number : Nat) (items : List Value) : List Field :=
  items.map fun v => itemField number (encodeValue v)

/-- The key of a member and its value, each absent when it is empty. -/
def entryFields (name : String) (value : Octets) : List Field :=
  ofText 1 name ++ if value.isEmpty then [] else [itemField 2 value]

/-- The entries of an object as fields. -/
def memberFields (members : List (String × Value)) : List Field :=
  members.map fun m => itemField 1 ((entryFields m.1 (encodeValue m.2)).flatMap Field.encode)

/-- The field that tells the kind of the value. -/
def valueFields : Value → List Field
  | .null => []
  | .bool b => [⟨1, .varint (if b then 1 else 0)⟩]
  | .int n =>
    if n.val < 0x8000000000000000 then [⟨2, .varint (zigzag n.val)⟩]
    else [⟨3, .varint n.val.toNat⟩]
  | .float x => [⟨4, .fixed64 x.float.bits.toNat⟩]
  | .str s => [⟨5, .delimited (Octets.ofText s)⟩]
  | .list items => [⟨6, .delimited ((itemFields 1 items).flatMap Field.encode)⟩]
  | .object members => [⟨7, .delimited ((memberFields members).flatMap Field.encode)⟩]

/-- The fields of items are their delimited forms. -/
theorem flatMap_itemFields (number : Nat) (items : List Value) :
    (itemFields number items).flatMap Field.encode =
      items.flatMap fun v => delimitedField number (encodeValue v) := by
  rw [itemFields, List.flatMap_map]
  simp only [delimitedField_eq, itemField]

/-- An entry is its fields. -/
theorem entry_eq (name : String) (value : Octets) :
    entry name value = (entryFields name value).flatMap Field.encode := by
  rw [entry, entryFields, List.flatMap_append, textField_eq]
  split
  · rfl
  · rw [List.flatMap_singleton, itemField, delimitedField_eq]

theorem flatMap_memberFields (members : List (String × Value)) :
    (memberFields members).flatMap Field.encode =
      members.flatMap fun m => delimitedField 1 (entry m.1 (encodeValue m.2)) := by
  rw [memberFields, List.flatMap_map]
  simp only [delimitedField_eq, itemField, entry_eq]

/-- A value is its fields. -/
theorem encodeValue_eq (v : Value) : encodeValue v = (valueFields v).flatMap Field.encode := by
  -- By cases on the value; an integer has the signed field where that fits.
  cases v with
  | null => rfl
  | bool b => cases b <;> rfl
  | int n =>
    rw [encodeValue, integer, valueFields]
    split
    · rw [List.flatMap_singleton]
      rfl
    · rw [List.flatMap_singleton]
      rfl
  | float x =>
    rw [encodeValue, valueFields, List.flatMap_singleton]
    rfl
  | str s => rw [encodeValue, valueFields, List.flatMap_singleton, delimitedField_eq]
  | list items =>
    rw [encodeValue, toList_writeItems, valueFields, List.flatMap_singleton, ← delimitedField_eq,
      flatMap_itemFields]
    rfl
  | object members =>
    rw [encodeValue, toList_writeMembers, valueFields, List.flatMap_singleton,
      ← delimitedField_eq, flatMap_memberFields]
    rfl

/-- The folded form of a 64-bit integer has 64 bits. -/
theorem zigzag_lt {n : Int} (hlow : -0x8000000000000000 ≤ n) (hhigh : n < 0x8000000000000000) :
    zigzag n < 0x10000000000000000 := by
  rw [zigzag]
  split <;> omega

/-- The schema of a value takes all its fields. -/
theorem valueFields_taken (v : Value) : ∀ field ∈ valueFields v, (Schema.upTo 7).Takes field := by
  intro field hfield
  -- By cases on the value: each kind has a field of its own number and range.
  cases v with
  | null => cases hfield
  | bool b =>
    rw [List.mem_singleton.mp hfield]
    refine .of_number 1 (by decide) rfl ?_
    show (if b then 1 else 0) < 0x10000000000000000
    cases b <;> decide
  | int n =>
    have hlow := n.lower
    have hhigh := n.upper
    rw [valueFields] at hfield
    split at hfield
    · rw [List.mem_singleton.mp hfield]
      exact .of_number 2 (by decide) rfl (zigzag_lt hlow (by omega))
    · rw [List.mem_singleton.mp hfield]
      refine .of_number 3 (by decide) rfl ?_
      show n.val.toNat < 0x10000000000000000
      omega
  | float x =>
    rw [List.mem_singleton.mp hfield]
    exact .of_number 4 (by decide) rfl x.float.bits.toNat_lt
  | str s =>
    rw [List.mem_singleton.mp hfield]
    exact .of_number 5 (by decide) rfl trivial
  | list items =>
    rw [List.mem_singleton.mp hfield]
    exact .of_number 6 (by decide) rfl trivial
  | object members =>
    rw [List.mem_singleton.mp hfield]
    exact .of_number 7 (by decide) rfl trivial

/-! ### Reading the parts -/

/-- A reader of a text goes on with the text that was written. -/
theorem textOf_bind {α : Type} (s : String) (next : String → Except BodyFault α) :
    (textOf (Octets.ofText s) >>= next) = next s := by
  rw [textOf, Octets.text?_ofText]
  rfl

/-- What the fields of a value are read into. -/
def Draft.ofValue : Value → Draft
  | .null => .null
  | .list items => .list items
  | .object members => .object members
  | v => .scalar v

/-- The draft made of a normal value has that value. -/
theorem Draft.value_ofValue {v : Value} (hnormal : v.Normal) : (ofValue v).value = v := by
  cases v with
  | object members =>
    -- The keys ascend, so bringing the entries in order changes nothing.
    rw [ofValue, value, Value.ofEntries,
      Members.ofEntries_of_ascending (Value.normal_object.mp hnormal).1]
  | null | bool | int | float | str | list => rfl

/-- A value takes up no bytes only when it is null. -/
theorem encodeValue_eq_nil {v : Value} (h : encodeValue v = []) : v = .null := by
  rw [encodeValue_eq] at h
  have hfields : valueFields v = [] := by
    rw [List.flatMap_eq_nil_iff] at h
    exact List.eq_nil_iff_forall_not_mem.mpr fun field hfield =>
      field.encode_ne_nil (h field hfield)
  cases v with
  | null => rfl
  | int n =>
    rw [valueFields] at hfields
    split at hfields <;> cases hfields
  | bool | float | str | list | object => cases hfields

/-- A part in a field is no longer than the form of all fields. -/
theorem length_le_flatMap {fields : List Field} {number : Nat} {bytes : Octets}
    (h : ⟨number, .delimited bytes⟩ ∈ fields) :
    bytes.length ≤ (fields.flatMap Field.encode).length := by
  have hfield : bytes.length ≤ (Field.encode ⟨number, .delimited bytes⟩).length := by
    rw [Field.encode, Payload.encode, List.length_append, List.length_append]
    omega
  obtain ⟨front, back, rfl⟩ := List.append_of_mem h
  rw [List.flatMap_append, List.flatMap_cons, List.length_append, List.length_append]
  omega

/-- A value takes no more bytes than its entry. -/
theorem length_le_entryFields (name : String) (value : Octets) :
    value.length ≤ ((entryFields name value).flatMap Field.encode).length := by
  by_cases hempty : value.isEmpty = true
  · rw [List.isEmpty_iff.mp hempty]
    exact Nat.zero_le _
  · have hmem : itemField 2 value ∈ entryFields name value := by
      rw [entryFields, if_neg hempty]
      exact List.mem_append_right _ (List.mem_singleton_self _)
    exact length_le_flatMap hmem

/-! ### Reading values

In each of the following readers `p` is the condition on what is read; it implies that every length
in the form can be written, and so much budget that the parts are read back. -/

/-- A list is read back if its items are. -/
theorem readList_itemFields {budget : Nat} {items : List Value} {p : Prop}
    (hsize : p → ((itemFields 1 items).flatMap Field.encode).length < 0x10000000000000000)
    (hbudget : p → items ≠ [] → 0 < budget)
    (hitems : ∀ v ∈ items, ∀ b, budget = b + 1 →
      Recovers (readValue b .null (encodeValue v)) p (.ofValue v))
    (hnormal : ∀ v ∈ items, v.Normal) :
    Recovers (readList budget ((itemFields 1 items).flatMap Field.encode)) p items := by
  have hfields : ∀ field ∈ itemFields 1 items, (Schema.upTo 1).Takes field := by
    intro field hfield
    obtain ⟨v, -, rfl⟩ := List.mem_map.mp hfield
    exact .of_number 1 (by decide) rfl trivial
  rw [readList]
  refine .bind (readFields_flatMap hfields budget hsize) (.mapM fun v hv => ?_)
  cases budget with
  | zero => exact .of_error (fun hp => absurd (hbudget hp (List.ne_nil_of_mem hv)) (by decide)) rfl
  | succ budget =>
    have hvalue := Draft.value_ofValue (hnormal v hv)
    exact .bind (hitems v hv budget rfl) (.of_eq (congrArg Except.ok hvalue))

/-- An entry is read back if its value is. -/
theorem readEntry_entryFields {budget : Nat} {name : String} {v : Value} {p : Prop}
    (hsize : p → ((entryFields name (encodeValue v)).flatMap Field.encode).length <
      0x10000000000000000)
    (hbudget : p → v ≠ .null → 0 < budget)
    (hvalue : ∀ b, budget = b + 1 →
      Recovers (readValue b .null (encodeValue v)) p (.ofValue v))
    (hnormal : v.Normal) :
    Recovers (readEntry budget ((entryFields name (encodeValue v)).flatMap Field.encode)) p
      (name, v) := by
  have hfields : ∀ field ∈ entryFields name (encodeValue v), (Schema.upTo 2).Takes field := by
    intro field hfield
    rcases List.mem_append.mp hfield with hname | hrest
    · rw [mem_ofText hname]
      exact .of_number 1 (by decide) rfl trivial
    · split at hrest
      · cases hrest
      · rw [List.mem_singleton.mp hrest]
        exact .of_number 2 (by decide) rfl trivial
  rw [readEntry]
  refine .bind (readFields_flatMap hfields budget hsize)
    (.bind (?_ : Recovers _ p (name, Draft.ofValue v)) (.of_eq ?_))
  · -- The key is set by its field, or it is the empty one from the start.
    rw [entryFields, foldlM_ofText (name, Draft.null)]
    · by_cases hempty : (encodeValue v).isEmpty = true
      · rw [if_pos hempty, encodeValue_eq_nil (List.isEmpty_iff.mp hempty)]
        exact .of_eq rfl
      · rw [if_neg hempty, List.foldlM_cons]
        have hnull : v ≠ .null := by
          rintro rfl
          exact hempty rfl
        cases budget with
        | zero => exact .of_error (fun hp => absurd (hbudget hp hnull) (by decide)) rfl
        | succ budget => exact .bind (.bind (hvalue budget rfl) (.of_eq rfl)) (.of_eq rfl)
    · exact textOf_bind name fun key => Except.ok (key, Draft.null)
    · intro hname
      rw [hname]
  · show Except.ok (name, (Draft.ofValue v).value) = _
    rw [Draft.value_ofValue hnormal]

/-- An object is read back if its values are. -/
theorem readObject_memberFields {budget : Nat} {members : List (String × Value)} {p : Prop}
    (hsize : p → ((memberFields members).flatMap Field.encode).length < 0x10000000000000000)
    (hbudget : p → ∀ m ∈ members, 0 < budget ∧ (m.2 ≠ .null → 1 < budget))
    (hmembers : ∀ m ∈ members, ∀ b, budget = b + 2 →
      Recovers (readValue b .null (encodeValue m.2)) p (.ofValue m.2))
    (hnormal : ∀ m ∈ members, m.2.Normal) :
    Recovers (readObject budget ((memberFields members).flatMap Field.encode)) p members := by
  have hfields : ∀ field ∈ memberFields members, Schema.delimited.Takes field := by
    intro field hfield
    obtain ⟨m, -, rfl⟩ := List.mem_map.mp hfield
    exact .of_number 1 (by decide) rfl trivial
  rw [readObject]
  refine .bind (readFields_flatMap hfields budget hsize) (.mapM fun m hm => ?_)
  cases budget with
  | zero => exact .of_error (fun hp => absurd (hbudget hp m hm).1 (by decide)) rfl
  | succ budget =>
    refine readEntry_entryFields (fun hp => ?_)
      (fun hp hnull => Nat.lt_of_succ_lt_succ ((hbudget hp m hm).2 hnull))
      (fun b hb => hmembers m hm b (by omega)) (hnormal m hm)
    exact Nat.lt_of_le_of_lt (length_le_flatMap (List.mem_map.mpr ⟨m, hm, rfl⟩)) (hsize hp)

/-- The fields of a value are read back, or its length was too long to tell. -/
theorem readFields_encodeValue (v : Value) (budget : Nat) :
    Recovers (readFields (.upTo 7) budget (encodeValue v))
      ((encodeValue v).length < 0x10000000000000000) (valueFields v) := by
  rw [encodeValue_eq]
  exact readFields_flatMap (valueFields_taken v) budget id

/-- An integer of 64 bits with a sign is read back from its folded form. -/
theorem signed_zigzag {n : WireInt} (h : n.val < 0x8000000000000000) :
    signed (zigzag n.val) = n := by
  rw [signed, unzigzag_zigzag, WireInt.ofInt64_ofInt h]

/-- **Round trip of a value.**  The form of a value is read back, or the nesting is too deep for
the budget, or a length in the form is too large to be written. -/
theorem readValue_encodeValue (v : Value) (hnormal : v.Normal) (budget : Nat) :
    Recovers (readValue budget .null (encodeValue v))
      (Opens (budget + 1) v ∧ (encodeValue v).length < 0x10000000000000000) (.ofValue v) := by
  have hfields (v : Value) (budget : Nat) : Recovers (readFields (.upTo 7) budget (encodeValue v))
      (Opens (budget + 1) v ∧ (encodeValue v).length < 0x10000000000000000) (valueFields v) :=
    (readFields_encodeValue v budget).weaken And.right
  induction v using Value.inductionOn generalizing budget with
  | null => exact .of_eq (by rw [readValue]; rfl)
  | bool b =>
    rw [readValue]
    refine .bind (hfields _ budget) (.of_eq ?_)
    cases b <;> rfl
  | int n =>
    rw [readValue]
    refine .bind (hfields _ budget) (.of_eq ?_)
    rw [valueFields]
    by_cases hsigned : n.val < 0x8000000000000000
    · rw [if_pos hsigned]
      show Except.ok (Draft.scalar (.int (signed (zigzag n.val)))) = _
      rw [signed_zigzag hsigned]
      rfl
    · rw [if_neg hsigned]
      show Except.ok (Draft.scalar (.int (.ofUInt64 (UInt64.ofNat n.val.toNat)))) = _
      rw [WireInt.ofUInt64_ofNat (Int.toNat_of_nonneg (by omega)).symm]
      rfl
  | float x =>
    rw [readValue]
    refine .bind (hfields _ budget) (.of_eq ?_)
    show Except.ok (Draft.scalar (.ofBinary64 ⟨UInt64.ofNat x.float.bits.toNat⟩)) = _
    rw [UInt64.ofNat_toNat, Value.ofBinary64, FiniteFloat.of?_float]
    rfl
  | str s =>
    rw [readValue]
    refine .bind (hfields _ budget) ?_
    rw [valueFields, List.foldlM_cons]
    exact .bind (.of_eq (textOf_bind s fun s => Except.ok (Draft.scalar (.str s)))) (.of_eq rfl)
  | list items ih =>
    rw [readValue]
    refine .bind (hfields _ budget) ?_
    rw [valueFields, List.foldlM_cons]
    cases budget with
    | zero =>
      have hmessages := two_le_messages (v := .list items) rfl
      exact .of_error (fun hp => absurd hp.1.self (Nat.not_le_of_lt hmessages)) rfl
    | succ budget =>
      -- The items in the one field of the list are no longer than the whole form.
      have hform : ((itemFields 1 items).flatMap Field.encode).length ≤
          (encodeValue (.list items)).length := by
        rw [encodeValue_eq]
        exact length_le_flatMap (List.mem_singleton_self (itemField 6 _))
      refine .bind (.bind (readList_itemFields (fun hp => Nat.lt_of_le_of_lt hform hp.2) ?_ ?_
        (Value.normal_list.mp hnormal)) (.of_eq rfl)) (.of_eq rfl)
      · intro hp hitems
        have hself : messages (.list items) ≤ budget + 1 + 1 := hp.1.self
        rw [messages, if_neg (by simpa using hitems)] at hself
        omega
      · -- An item stands two messages deeper, and its own form is a part of the one field.
        intro v hv b hb
        subst hb
        refine (ih v hv (Value.normal_list.mp hnormal v hv) b).weaken fun hp => ⟨hp.1.item hv, ?_⟩
        have hitem : (encodeValue v).length ≤ ((itemFields 1 items).flatMap Field.encode).length :=
          length_le_flatMap (List.mem_map.mpr ⟨v, hv, rfl⟩)
        omega
  | object members ih =>
    obtain ⟨-, hnormal⟩ := Value.normal_object.mp hnormal
    rw [readValue]
    refine .bind (hfields _ budget) ?_
    rw [valueFields, List.foldlM_cons]
    cases budget with
    | zero =>
      have hmessages := two_le_messages (v := .object members) rfl
      exact .of_error (fun hp => absurd hp.1.self (Nat.not_le_of_lt hmessages)) rfl
    | succ budget =>
      have hform : ((memberFields members).flatMap Field.encode).length ≤
          (encodeValue (.object members)).length := by
        rw [encodeValue_eq]
        exact length_le_flatMap (List.mem_singleton_self (itemField 7 _))
      refine .bind (.bind (readObject_memberFields (fun hp => Nat.lt_of_le_of_lt hform hp.2) ?_ ?_
        hnormal) (.of_eq rfl)) (.of_eq rfl)
      · intro hp m hm
        have hmember : 3 + messages m.2 ≤ budget + 1 + 1 := hp.1 (.member hm (.self m.2))
        refine ⟨by omega, fun hnull => ?_⟩
        have hmessages := messages_pos hnull
        omega
      · -- A member stands three messages deeper, and its form is a part of its entry.
        intro m hm b hb
        subst hb
        refine (ih m hm (hnormal m hm) b).weaken fun hp => ⟨hp.1.member hm, ?_⟩
        have hvalue := length_le_entryFields m.1 (encodeValue m.2)
        have hentry : ((entryFields m.1 (encodeValue m.2)).flatMap Field.encode).length ≤
            ((memberFields members).flatMap Field.encode).length :=
          length_le_flatMap (List.mem_map.mpr ⟨m, hm, rfl⟩)
        omega

end WireCall.Protobuf
