import WireCall.Proofs.MsgPack.Form
import WireCall.Proofs.MsgPack.Value

namespace WireCall.MsgPack

/-!
# Values in any form

`Written` says which bytes are a form of a value: each of its numbers and sizes in any width that
holds it.  A reader takes exactly these bytes, if its budget allows the nesting of the value
(`readValue_of_written`).  What the writer writes is among the forms (`written_encodeValue`), and
only normal and short values have one (`normal_of_written`, `short_of_written`).
-/

/-! ### Values -/

mutual

/-- The bytes are a form of the value: integers in any width, floats in four bytes where these
suffice, objects with their keys ascending. -/
def Written : Value → Octets → Prop
  | .null, bytes => Head.nil.Form bytes
  | .bool b, bytes => (Head.bool b).Form bytes
  | .int n, bytes =>
    (∃ k, .ofUInt64 k = n ∧ (Head.unsigned k).Form bytes) ∨
      ∃ k, .ofInt64 k = n ∧ (Head.signed k).Form bytes
  | .float x, bytes =>
    (Head.double x.float).Form bytes ∨ ∃ y, y.widen = x.float ∧ (Head.single y).Form bytes
  | .str s, bytes => (Head.text (Octets.ofText s)).Form bytes
  | .list items, bytes => ∃ header body, bytes = header ++ body ∧
      (Head.array items.length).Form header ∧ AllWritten items body
  | .object members, bytes => ∃ header body, bytes = header ++ body ∧
      (Head.map members.length).Form header ∧ Members.Ascending members ∧
        MembersWritten members body

/-- The bytes are forms of the values one after the other. -/
def AllWritten : List Value → Octets → Prop
  | [], bytes => bytes = []
  | v :: vs, bytes => ∃ first more, bytes = first ++ more ∧ Written v first ∧ AllWritten vs more

/-- The bytes are forms of the keys and the values of the members one after the other. -/
def MembersWritten : List (String × Value) → Octets → Prop
  | [], bytes => bytes = []
  | (k, v) :: ms, bytes => ∃ key first more, bytes = key ++ (first ++ more) ∧
      (Head.text (Octets.ofText k)).Form key ∧ Written v first ∧ MembersWritten ms more

end

/-- The bytes are forms of the elements one after the other. -/
def Each {α : Type} (form : α → Octets → Prop) : List α → Octets → Prop
  | [], bytes => bytes = []
  | a :: as, bytes => ∃ first more, bytes = first ++ more ∧ form a first ∧ Each form as more

/-- The bytes are a form of the key and the value of a member. -/
def MemberWritten (m : String × Value) (bytes : Octets) : Prop :=
  ∃ key first, bytes = key ++ first ∧ (Head.text (Octets.ofText m.1)).Form key ∧
    Written m.2 first

/-- The items of a list are written one behind the other. -/
theorem allWritten_iff {items : List Value} {bytes : Octets} :
    AllWritten items bytes ↔ Each Written items bytes := by
  induction items generalizing bytes with
  | nil => rw [AllWritten, Each]
  | cons v vs ih => simp only [AllWritten, Each, ih]

theorem membersWritten_iff {members : List (String × Value)} {bytes : Octets} :
    MembersWritten members bytes ↔ Each MemberWritten members bytes := by
  induction members generalizing bytes with
  | nil => rw [MembersWritten, Each]
  | cons m ms ih =>
    simp only [MembersWritten, Each, ih]
    constructor
    · rintro ⟨key, first, more, rfl, hkey, hfirst, hmore⟩
      exact ⟨key ++ first, more, by rw [List.append_assoc], ⟨key, first, rfl, hkey, hfirst⟩, hmore⟩
    · rintro ⟨-, more, rfl, ⟨key, first, rfl, hkey, hfirst⟩, hmore⟩
      exact ⟨key, first, more, by rw [List.append_assoc], hkey, hfirst, hmore⟩

/-- A list is written as a head with its count and its items. -/
theorem written_list {items : List Value} {bytes : Octets} :
    Written (.list items) bytes ↔ ∃ header body, bytes = header ++ body ∧
      (Head.array items.length).Form header ∧ Each Written items body := by
  simp only [Written, allWritten_iff]

/-- An object is written as a head with its count and its members in ascending order. -/
theorem written_object {members : List (String × Value)} {bytes : Octets} :
    Written (.object members) bytes ↔ ∃ header body, bytes = header ++ body ∧
      (Head.map members.length).Form header ∧ Members.Ascending members ∧
        Each MemberWritten members body := by
  simp only [Written, membersWritten_iff]

/-! ### Reading values -/

/-- A list nests within a depth if its items do one level down. -/
theorem nestsWithin_list {budget : Nat} {items : List Value} :
    NestsWithin (budget + 1) (.list items) ↔ ∀ v ∈ items, NestsWithin budget v := by
  constructor
  · intro h v hv
    exact h.item hv
  · intro h
    exact .of_items (Nat.le_add_left 1 budget) fun v hv => ⟨budget, rfl, h v hv⟩

/-- An object nests within a depth if its values do one level down. -/
theorem nestsWithin_object {budget : Nat} {members : List (String × Value)} :
    NestsWithin (budget + 1) (.object members) ↔ ∀ m ∈ members, NestsWithin budget m.2 := by
  constructor
  · intro h m hm
    exact h.member hm
  · intro h
    exact .of_members (Nat.le_add_left 1 budget) fun m hm => ⟨budget, rfl, h m hm⟩

/-- A scalar nests within every depth. -/
theorem nestsWithin_scalar {budget : Nat} {v : Value} (hscalar : v.isContainer = false) :
    NestsWithin budget v :=
  .of_scalar hscalar (by rw [hscalar]; exact Nat.zero_le _)

/-- No container nests within depth zero. -/
theorem not_nestsWithin_zero {v : Value} (hcontainer : v.isContainer = true) :
    ¬ NestsWithin 0 v := by
  intro h
  have hself := h.self
  rw [hcontainer] at hself
  exact Nat.not_succ_le_zero 0 hself

/-- What a reader hands back, unless something in it is nested too deep. -/
def orTooDeep {α : Type} (p : Prop) [Decidable p] (a : α) : Except BodyFault α :=
  if p then .ok a else .error .tooDeep

theorem orTooDeep_of {α : Type} {p : Prop} [Decidable p] (h : p) (a : α) :
    orTooDeep p a = .ok a := if_pos h

theorem orTooDeep_of_not {α : Type} {p : Prop} [Decidable p] (h : ¬ p) (a : α) :
    orTooDeep p a = .error .tooDeep := if_neg h

theorem orTooDeep_congr {α : Type} {p q : Prop} [Decidable p] [Decidable q] (h : p ↔ q) (a : α) :
    orTooDeep p a = orTooDeep q a := by
  rw [orTooDeep, orTooDeep]
  split
  · rename_i hp
    rw [if_pos (h.mp hp)]
  · rename_i hp
    rw [if_neg fun hq => hp (h.mpr hq)]

/-- Items in any written form are read back, unless one of them nests too deep. -/
theorem readMany_of_each {α : Type} {form : α → Octets → Prop} {p : α → Prop}
    [DecidablePred p] {read : Octets → Except BodyFault (α × Octets)} {as : List α}
    {body : Octets}
    (hread : ∀ a ∈ as, ∀ {bytes}, form a bytes → ∀ rest,
      read (bytes ++ rest) = orTooDeep (p a) (a, rest))
    (h : Each form as body) (got : List α) (rest : Octets) :
    readMany read as.length got (body ++ rest) =
      orTooDeep (∀ a ∈ as, p a) (got.reverse ++ as, rest) := by
  -- By induction on the items: the first that nests too deep ends the reading, if there is one.
  induction as generalizing got body with
  | nil =>
    obtain rfl := h
    simp [readMany, orTooDeep]
  | cons a as ih =>
    obtain ⟨first, more, rfl, ha, has⟩ := h
    have hmore := ih (fun b hb => hread b (by simp [hb])) has (a :: got)
    rw [List.append_assoc, List.length_cons, readMany, hread a (by simp) ha]
    by_cases hp : p a
    · have hall : (∀ b ∈ a :: as, p b) ↔ ∀ b ∈ as, p b :=
        List.forall_mem_cons.trans (and_iff_right hp)
      rw [orTooDeep_of hp, orTooDeep_congr hall]
      rwa [List.reverse_cons, List.append_assoc] at hmore
    · rw [orTooDeep_of_not hp, orTooDeep_of_not fun hall => hp (hall a (by simp))]
      rfl

/-- A member in any written form is read back, unless its value nests too deep. -/
theorem readMember_of_written {read : Octets → Except BodyFault (Value × Octets)} {p : Prop}
    [Decidable p] {m : String × Value} {bytes : Octets} (first : Bool)
    (hread : ∀ {bytes}, Written m.2 bytes → ∀ rest,
      read (bytes ++ rest) = orTooDeep p (m.2, rest))
    (h : MemberWritten m bytes) (rest : Octets) :
    readMember read first (bytes ++ rest) = orTooDeep p (m, rest) := by
  obtain ⟨key, value, rfl, hkey, hvalue⟩ := h
  have hname : readKey first (key ++ (value ++ rest)) = .ok (m.1, value ++ rest) := by
    rw [readKey, readHead_of_form hkey]
    exact textOf_bind m.1 fun name => Except.ok (name, value ++ rest)
  rw [List.append_assoc, readMember, hname]
  show (read (value ++ rest) >>= fun r => Except.ok ((m.1, r.1), r.2)) = _
  rw [hread hvalue, orTooDeep, orTooDeep]
  split <;> rfl

/-- Members in any written form are read back, unless a value nests too deep. -/
theorem readMembers_of_each {read : Octets → Except BodyFault (Value × Octets)}
    {p : Value → Prop} [DecidablePred p] {members : List (String × Value)} {body : Octets}
    (hread : ∀ m ∈ members, ∀ {bytes}, Written m.2 bytes → ∀ rest,
      read (bytes ++ rest) = orTooDeep (p m.2) (m.2, rest))
    (h : Each MemberWritten members body) (rest : Octets) :
    readMembers read members.length (body ++ rest) =
      orTooDeep (∀ m ∈ members, p m.2) (members, rest) := by
  cases members with
  | nil =>
    obtain rfl := h
    simp [readMembers, orTooDeep]
  | cons m ms =>
    obtain ⟨first, more, rfl, hm, hms⟩ := h
    have hmore := readMany_of_each (p := fun m => p m.2)
      (fun m' hm' {_} hform => readMember_of_written false (hread m' (by simp [hm'])) hform)
      hms [m] rest
    rw [List.append_assoc, List.length_cons, readMembers,
      readMember_of_written true (hread m (by simp)) hm]
    by_cases hp : p m.2
    · have hall : (∀ m' ∈ m :: ms, p m'.2) ↔ ∀ m' ∈ ms, p m'.2 :=
        List.forall_mem_cons.trans (and_iff_right hp)
      rw [orTooDeep_of hp, orTooDeep_congr hall]
      exact hmore
    · rw [orTooDeep_of_not hp, orTooDeep_of_not fun hall => hp (hall m (by simp))]
      rfl

/-- **Every form of a value is read as this value**, unless it is nested too deep for the
budget. -/
theorem readValue_of_written {v : Value} {bytes : Octets} (h : Written v bytes) (budget : Nat)
    (rest : Octets) :
    readValue budget (bytes ++ rest) = orTooDeep (NestsWithin budget v) (v, rest) := by
  induction v using Value.inductionOn generalizing budget bytes rest with
  | null =>
    rw [Written] at h
    rw [orTooDeep_of (nestsWithin_scalar rfl), readValue, readHead_of_form h]
    rfl
  | bool b =>
    rw [Written] at h
    rw [orTooDeep_of (nestsWithin_scalar rfl), readValue, readHead_of_form h]
    rfl
  | int n =>
    rw [Written] at h
    rw [orTooDeep_of (nestsWithin_scalar rfl), readValue]
    rcases h with ⟨k, rfl, hk⟩ | ⟨k, rfl, hk⟩
    · rw [readHead_of_form hk]
      rfl
    · rw [readHead_of_form hk]
      rfl
  | float x =>
    have hx : Value.ofBinary64 x.float = .float x := by
      rw [Value.ofBinary64, FiniteFloat.of?_float]
    rw [Written] at h
    rw [orTooDeep_of (nestsWithin_scalar rfl), readValue]
    rcases h with hform | ⟨y, hy, hform⟩
    · rw [readHead_of_form hform]
      show Except.ok (Value.ofBinary64 x.float, rest) = _
      rw [hx]
    · rw [readHead_of_form hform]
      show Except.ok (Value.ofBinary64 y.widen, rest) = _
      rw [hy, hx]
  | str s =>
    rw [Written] at h
    rw [orTooDeep_of (nestsWithin_scalar rfl), readValue, readHead_of_form h]
    exact textOf_bind s fun s => Except.ok (Value.str s, rest)
  | list items ih =>
    obtain ⟨header, body, rfl, hheader, hbody⟩ := written_list.mp h
    rw [List.append_assoc, readValue, readHead_of_form hheader]
    cases budget with
    | zero => exact (orTooDeep_of_not (not_nestsWithin_zero rfl) _).symm
    | succ budget =>
      have hitems := readMany_of_each (fun v hv {_} hv' rest => ih v hv hv' budget rest)
        hbody [] rest
      show (readMany (readValue budget) items.length [] (body ++ rest) >>= fun r =>
        Except.ok (Value.list r.1, r.2)) = _
      rw [hitems, orTooDeep_congr nestsWithin_list, orTooDeep, orTooDeep]
      split <;> rfl
  | object members ih =>
    obtain ⟨header, body, rfl, hheader, hascending, hbody⟩ := written_object.mp h
    rw [List.append_assoc, readValue, readHead_of_form hheader]
    cases budget with
    | zero => exact (orTooDeep_of_not (not_nestsWithin_zero rfl) _).symm
    | succ budget =>
      have hmembers := readMembers_of_each (p := NestsWithin budget)
        (fun m hm {_} hm' rest => ih m hm hm' budget rest) hbody rest
      -- The keys ascend, so bringing the entries in order changes nothing.
      have hvalue : Value.ofEntries members = .object members := by
        rw [Value.ofEntries, Members.ofEntries_of_ascending hascending]
      show (readMembers (readValue budget) members.length (body ++ rest) >>= fun r =>
        Except.ok (Value.ofEntries r.1, r.2)) = _
      rw [hmembers, orTooDeep_congr nestsWithin_object, orTooDeep, orTooDeep]
      split
      · exact congrArg (fun v => Except.ok (v, rest)) hvalue
      · rfl

/-! ### Values that have a form -/

/-- Each of the items has a written form. -/
theorem Each.forall {α : Type} {form : α → Octets → Prop} {as : List α} {body : Octets}
    (h : Each form as body) : ∀ a ∈ as, ∃ bytes, form a bytes := by
  induction as generalizing body with
  | nil => exact nofun
  | cons a as ih =>
    obtain ⟨first, more, rfl, ha, has⟩ := h
    exact List.forall_mem_cons.mpr ⟨⟨first, ha⟩, ih has⟩

/-- A form of a value shows it in normal form. -/
theorem normal_of_written {v : Value} {bytes : Octets} (h : Written v bytes) : v.Normal := by
  induction v using Value.inductionOn generalizing bytes with
  | null | bool | int | float | str => trivial
  | list items ih =>
    obtain ⟨header, body, -, -, hbody⟩ := written_list.mp h
    refine Value.normal_list.mpr fun v hv => ?_
    obtain ⟨first, hfirst⟩ := hbody.forall v hv
    exact ih v hv hfirst
  | object members ih =>
    obtain ⟨header, body, -, -, hascending, hbody⟩ := written_object.mp h
    refine Value.normal_object.mpr ⟨hascending, fun m hm => ?_⟩
    obtain ⟨-, key, first, -, -, hfirst⟩ := hbody.forall m hm
    exact ih m hm hfirst

/-- A form of a value has no more than four bytes for each of its sizes. -/
theorem short_of_written {v : Value} {bytes : Octets} (h : Written v bytes) : v.Short := by
  -- By induction on the value: its head tells its length, and its parts are written in turn.
  induction v using Value.inductionOn generalizing bytes with
  | null | bool | int | float => exact .of_scalar rfl trivial
  | str s =>
    rw [Written] at h
    exact .of_scalar rfl (length_lt_of_form h)
  | list items ih =>
    obtain ⟨header, body, -, hheader, hbody⟩ := written_list.mp h
    refine .of_items ?_ fun v hv => ?_
    · rcases hheader with ⟨hn, -⟩ | hwide
      · exact Nat.lt_trans hn (by decide)
      · exact hwide.lt (by decide)
    · obtain ⟨first, hfirst⟩ := hbody.forall v hv
      exact ih v hv hfirst
  | object members ih =>
    obtain ⟨header, body, -, hheader, -, hbody⟩ := written_object.mp h
    have hcount : members.length < 4294967296 := by
      rcases hheader with ⟨hn, -⟩ | hwide
      · exact Nat.lt_trans hn (by decide)
      · exact hwide.lt (by decide)
    refine .of_members ⟨hcount, fun m hm => ?_⟩ fun m hm => ?_
    · obtain ⟨-, key, first, -, hkey, -⟩ := hbody.forall m hm
      exact length_lt_of_form hkey
    · obtain ⟨-, key, first, -, -, hfirst⟩ := hbody.forall m hm
      exact ih m hm hfirst

/-! ### The forms that are written -/

/-- An integer is written as such. -/
theorem written_integer (n : WireInt) : Written (.int n) (integer n.val) := by
  rw [Written]
  -- A negative integer has the signed form, and any other the unsigned one.
  by_cases hneg : n.val < 0
  · have hval : (Int64.ofInt n.val).toInt = n.val := Int64.toInt_ofInt_of_le n.lower (by omega)
    have hform := form_integer (n := Int64.ofInt n.val) (by rw [hval]; exact hneg)
    rw [hval] at hform
    exact .inr ⟨Int64.ofInt n.val, WireInt.ofInt64_ofInt (by omega), hform⟩
  · obtain ⟨k, hk⟩ : ∃ k : Nat, n.val = k := Int.eq_ofNat_of_zero_le (by omega)
    have hval : (UInt64.ofNat k).toNat = k := by
      have := n.upper
      rw [UInt64.toNat_ofNat', Nat.mod_eq_of_lt (by omega)]
    have hform := form_natural (UInt64.ofNat k)
    rw [hval] at hform
    rw [integer, if_pos (by omega), hk, Int.toNat_natCast]
    exact .inl ⟨UInt64.ofNat k, WireInt.ofUInt64_ofNat hk, hform⟩

/-- Items written one by one are written each. -/
theorem each_flatMap {α : Type} {form : α → Octets → Prop} {write : α → Octets} {as : List α}
    (h : ∀ a ∈ as, form a (write a)) : Each form as (as.flatMap write) := by
  induction as with
  | nil => rfl
  | cons a as ih =>
    exact ⟨write a, as.flatMap write, List.flatMap_cons, h a (by simp),
      ih fun b hb => h b (by simp [hb])⟩

/-- What is written for a value is a form of it. -/
theorem written_encodeValue {v : Value} (hnormal : v.Normal) (hshort : v.Short) :
    Written v (encodeValue v) := by
  induction v using Value.inductionOn with
  | null =>
    rw [Written]
    rfl
  | bool b =>
    rw [Written]
    cases b <;> rfl
  | int n =>
    rw [show encodeValue (.int n) = integer n.val by simp [encodeValue, writeValue]]
    exact written_integer n
  | float x =>
    rw [show encodeValue (.float x) = double x.float by simp [encodeValue, writeValue], Written]
    exact .inl rfl
  | str s =>
    rw [show encodeValue (.str s) = text s by simp [encodeValue, writeValue], Written]
    exact form_text hshort.small
  | list items ih =>
    rw [encodeValue_list]
    refine written_list.mpr ⟨_, _, rfl, form_arrayHeader hshort.small, each_flatMap fun v hv => ?_⟩
    exact ih v hv (Value.normal_list.mp hnormal v hv) (hshort.item hv)
  | object members ih =>
    obtain ⟨hascending, hnormal⟩ := Value.normal_object.mp hnormal
    rw [encodeValue_object]
    refine written_object.mpr ⟨_, _, rfl, form_mapHeader hshort.small.1, hascending,
      each_flatMap fun m hm => ⟨_, _, rfl, form_text (hshort.small.2 m hm), ?_⟩⟩
    exact ih m hm (hnormal m hm) (hshort.member hm)

end WireCall.MsgPack
