import WireCall.Proofs.MsgPack.Head
import WireCall.Proofs.Values
import WireCall.Proofs.Recovery

namespace WireCall.MsgPack

/-!
# Values in MessagePack read back

A value is written as its head and, for a list or an object, the forms of what is in it one after
the other (`encodeValue_list`, `encodeValue_object`).  `readValue_encodeValue` reads such a form
back and leaves what follows it untouched; it fails only when more containers are open at once than
the budget allows.

The induction is on the value.  In a container the budget goes down by one, and the condition on
the occurrences in the container (`NestsWithin`) goes down with it.
-/

/-- No more than `limit` lists and objects are open at once in the value; an empty one counts. -/
def NestsWithin (limit : Nat) (v : Value) : Prop :=
  v.Bounded 1 1 (fun u => u.isContainer.toNat) limit

instance (limit : Nat) (v : Value) : Decidable (NestsWithin limit v) :=
  inferInstanceAs (Decidable (v.Bounded ..))

/-! ### What is written -/

/-- Items are appended one behind the other. -/
theorem toList_writeItems_eq (out : Array UInt8) (items : List Value) :
    (writeItems out items).toList = out.toList ++ items.flatMap encodeValue := by
  induction items generalizing out with
  | nil => simp [writeItems]
  | cons v vs ih =>
    rw [writeItems, ih, toList_writeValue, List.flatMap_cons, List.append_assoc]
    rfl

theorem toList_writeMembers_eq (out : Array UInt8) (members : List (String × Value)) :
    (writeMembers out members).toList =
      out.toList ++ members.flatMap fun m => text m.1 ++ encodeValue m.2 := by
  induction members generalizing out with
  | nil => simp [writeMembers]
  | cons m ms ih =>
    obtain ⟨k, v⟩ := m
    rw [writeMembers, ih, toList_writeValue, List.flatMap_cons]
    simp [encodeValue]

/-- A list is its header and its items. -/
theorem encodeValue_list (items : List Value) :
    encodeValue (.list items) = arrayHeader items.length ++ items.flatMap encodeValue := by
  rw [encodeValue, writeValue, toList_writeItems_eq]
  simp

theorem encodeValue_object (members : List (String × Value)) :
    encodeValue (.object members) =
      mapHeader members.length ++ members.flatMap fun m => text m.1 ++ encodeValue m.2 := by
  rw [encodeValue, writeValue, toList_writeMembers_eq]
  simp

/-! ### Integers and texts -/

/-- A reader of a text goes on with the text that was written. -/
theorem textOf_bind {α : Type} (s : String) (next : String → Except BodyFault α) :
    (textOf (Octets.ofText s) >>= next) = next s := by
  rw [textOf, Octets.text?_ofText]
  rfl

/-- An integer is read back at every depth. -/
theorem readValue_integer (budget : Nat) (n : WireInt) (rest : Octets) :
    readValue budget (integer n.val ++ rest) = .ok (.int n, rest) := by
  rw [readValue]
  by_cases hneg : n.val < 0
  · rw [readHead_integer_of_neg hneg n.lower]
    show Except.ok (Value.int (.ofInt64 (Int64.ofInt n.val)), rest) = _
    rw [WireInt.ofInt64_ofInt (by omega)]
  · obtain ⟨k, hk⟩ : ∃ k : Nat, n.val = k := Int.eq_ofNat_of_zero_le (by omega)
    have hk64 : k < 0x10000000000000000 := by
      have := n.upper
      omega
    rw [integer, if_pos (by omega), hk, Int.toNat_natCast, readHead_natural hk64]
    show Except.ok (Value.int (.ofUInt64 (UInt64.ofNat k)), rest) = _
    rw [WireInt.ofUInt64_ofNat hk]

/-! ### Items and members -/

/-- Items that a reader reads back one by one are read back in sequence. -/
theorem readMany_flatMap {α : Type} {read : Octets → Except BodyFault (α × Octets)}
    {form : α → Octets} {p : Prop} {items : List α}
    (h : ∀ a ∈ items, ∀ rest, Recovers (read (form a ++ rest)) p (a, rest))
    (got : List α) (rest : Octets) :
    Recovers (readMany read items.length got (items.flatMap form ++ rest)) p
      (got.reverse ++ items, rest) := by
  induction items generalizing got with
  | nil => exact .of_eq (by simp [readMany])
  | cons a as ih =>
    rw [List.flatMap_cons, List.append_assoc, List.length_cons, readMany]
    refine .bind (h a (by simp) _) ?_
    have hrest := ih (fun b hb => h b (by simp [hb])) (a :: got)
    rwa [List.reverse_cons, List.append_assoc] at hrest

/-- A member is read back if its value is. -/
theorem readMember_append {read : Octets → Except BodyFault (Value × Octets)} {p : Prop}
    {k : String} {v : Value} {bytes rest : Octets} (first : Bool)
    (hk : (Octets.ofText k).length < 0x100000000)
    (h : Recovers (read bytes) p (v, rest)) :
    Recovers (readMember read first (text k ++ bytes)) p ((k, v), rest) := by
  have hkey : readKey first (text k ++ bytes) = .ok (k, bytes) := by
    rw [readKey, readHead_text hk]
    exact textOf_bind k fun key => Except.ok (key, bytes)
  rw [readMember, hkey]
  exact .bind (.of_eq rfl) (.bind h (.of_eq rfl))

/-- Members are read back in sequence, the first of them with the stricter rule for keys. -/
theorem readMembers_flatMap {read : Octets → Except BodyFault (Value × Octets)} {p : Prop}
    {members : List (String × Value)}
    (hkeys : ∀ m ∈ members, (Octets.ofText m.1).length < 0x100000000)
    (h : ∀ m ∈ members, ∀ rest, Recovers (read (encodeValue m.2 ++ rest)) p (m.2, rest))
    (rest : Octets) :
    Recovers (readMembers read members.length
      ((members.flatMap fun m => text m.1 ++ encodeValue m.2) ++ rest)) p (members, rest) := by
  have hmember : ∀ first, ∀ m ∈ members, ∀ rest,
      Recovers (readMember read first (text m.1 ++ encodeValue m.2 ++ rest)) p (m, rest) := by
    intro first m hm rest
    rw [List.append_assoc]
    exact readMember_append first (hkeys m hm) (h m hm rest)
  cases members with
  | nil => exact .of_eq rfl
  | cons m ms =>
    rw [List.flatMap_cons, List.append_assoc, List.length_cons, readMembers]
    refine .bind (hmember true m (by simp) _) ?_
    exact readMany_flatMap (fun a ha => hmember false a (by simp [ha])) [m] rest

/-! ### Values -/

/-- **Round trip of a value.**  The form of a value is read back, whatever follows it, or the
nesting is too deep for the budget. -/
theorem readValue_encodeValue (v : Value) (hnormal : v.Normal) (hshort : v.Short) (budget : Nat)
    (rest : Octets) :
    Recovers (readValue budget (encodeValue v ++ rest)) (NestsWithin budget v) (v, rest) := by
  induction v using Value.inductionOn generalizing budget rest with
  | null => exact .of_eq (by rw [readValue]; rfl)
  | bool b => exact .of_eq (by cases b <;> rw [readValue] <;> rfl)
  | int n =>
    refine .of_eq ?_
    rw [show encodeValue (.int n) = integer n.val by simp [encodeValue, writeValue]]
    exact readValue_integer budget n rest
  | float x =>
    refine .of_eq ?_
    rw [show encodeValue (.float x) = double x.float by simp [encodeValue, writeValue], readValue,
      readHead_double]
    show Except.ok (Value.ofBinary64 x.float, rest) = _
    rw [Value.ofBinary64, FiniteFloat.of?_float]
  | str s =>
    refine .of_eq ?_
    rw [show encodeValue (.str s) = text s by simp [encodeValue, writeValue], readValue,
      readHead_text hshort.small]
    exact textOf_bind s fun s => Except.ok (Value.str s, rest)
  | list items ih =>
    rw [Value.normal_list] at hnormal
    rw [encodeValue_list, List.append_assoc, readValue, readHead_arrayHeader hshort.small]
    -- The list takes up one level of the budget, even when it is empty.
    cases budget with
    | zero => exact .of_error (fun h => absurd h.self (Nat.not_succ_le_zero 0)) rfl
    | succ budget =>
      refine .bind (.of_eq rfl)
        (.bind (readMany_flatMap (fun v hv rest => ?_) [] rest) (.of_eq rfl))
      exact (ih v hv (hnormal v hv) (hshort.item hv) budget rest).weaken fun h => h.item hv
  | object members ih =>
    obtain ⟨hascending, hnormal⟩ := Value.normal_object.mp hnormal
    rw [encodeValue_object, List.append_assoc, readValue, readHead_mapHeader hshort.small.1]
    cases budget with
    | zero => exact .of_error (fun h => absurd h.self (Nat.not_succ_le_zero 0)) rfl
    | succ budget =>
      refine .bind (.of_eq rfl)
        (.bind (readMembers_flatMap hshort.small.2 (fun m hm rest => ?_) rest) (.of_eq ?_))
      · exact (ih m hm (hnormal m hm) (hshort.member hm) budget rest).weaken fun h => h.member hm
      · -- The keys ascend, so bringing the entries in order changes nothing.
        show Except.ok (Value.ofEntries members, rest) = _
        rw [Value.ofEntries, Members.ofEntries_of_ascending hascending]

end WireCall.MsgPack
