import WireCall.Proofs.Service.Arguments
import WireCall.Proofs.Service.Keys

namespace WireCall

/-!
# Types whose values can always be sent

A result is sent as the dynamic value that it is converted to.  Two things can have none: an integer
that takes more than 64 bits, and a mapping with a key that no text stands for.  `Shape.Sendable`
says of a type, constructor by constructor, that neither occurs in it: integers have at most 64
bits, and mappings are keyed by types all of whose values are keys.

Main statement: these are exactly the types of which every value has a dynamic form
(`Shape.sendable_iff`).
-/

/-! ### Forms of whole lists -/

/-- A list can be written if and only if each of its items can. -/
theorem exists_mapM_eq_ok_iff {ε α β : Type} {f : α → Except ε β} {xs : List α} :
    (∃ ys, xs.mapM f = .ok ys) ↔ ∀ x ∈ xs, ∃ y, f x = .ok y := by
  constructor
  · rintro ⟨ys, hys⟩ x hx
    obtain ⟨i, hi, rfl⟩ := List.getElem_of_mem hx
    have hforall := mapM_eq_ok_iff.mp hys
    exact ⟨_, hforall.get hi (hforall.length_eq ▸ hi)⟩
  · intro h
    obtain ⟨ys, hys, -⟩ := exists_mapM_eq_ok (p := fun _ _ => True)
      fun x hx => (h x hx).imp fun y hy => ⟨hy, trivial⟩
    exact ⟨ys, hys⟩

/-- What follows a step without a fault succeeds exactly if the step does. -/
theorem exists_bind_eq_ok_iff {ε α β : Type} {x : Except ε α} {f : α → β} :
    (∃ b, (x >>= fun a => pure (f a)) = .ok b) ↔ ∃ a, x = .ok a := by
  constructor
  · rintro ⟨b, hb⟩
    obtain ⟨a, ha, -⟩ := bind_eq_ok_iff.mp hb
    exact ⟨a, ha⟩
  · rintro ⟨a, rfl⟩
    exact ⟨f a, rfl⟩

/-- Two steps of which neither depends on the other succeed exactly if both do. -/
theorem exists_bind₂_eq_ok_iff {ε α β γ : Type} {x : Except ε α} {y : Except ε β} {f : α → β → γ} :
    (∃ c, (x >>= fun a => y >>= fun b => pure (f a b)) = .ok c) ↔
      (∃ a, x = .ok a) ∧ ∃ b, y = .ok b := by
  constructor
  · rintro ⟨c, hc⟩
    obtain ⟨a, ha, hc⟩ := bind_eq_ok_iff.mp hc
    exact ⟨⟨a, ha⟩, exists_bind_eq_ok_iff.mp ⟨c, hc⟩⟩
  · rintro ⟨⟨a, rfl⟩, b, rfl⟩
    exact ⟨f a b, rfl⟩

/-! ### Types -/

mutual

/-- No value of the type holds an integer of more than 64 bits or a mapping with something that is
no key. -/
def Shape.Sendable : Shape → Prop
  | .int kind => kind ≠ .i128 ∧ kind ≠ .u128
  | .optional content => content.Sendable
  | .list item => item.Sendable
  | .array size item => size = 0 ∨ item.Sendable
  | .mapping key item => key.Keyable ∧ item.Sendable
  | .tuple parts => parts.Sendable
  | .record _ fields => fields.Sendable
  | .unit | .bool | .single | .double | .char | .text | .any => True

/-- So it is at each position. -/
def Shapes.Sendable : Shapes → Prop
  | .nil => True
  | .cons head tail => head.Sendable ∧ tail.Sendable

/-- So it is in each field. -/
def Fields.Sendable : Fields → Prop
  | .nil => True
  | .cons _ _ head tail => head.Sendable ∧ tail.Sendable

end

namespace Shape

/-- Every value of the type has a dynamic form. -/
def AlwaysSends (s : Shape) : Prop := ∀ x : s.Carrier, ∃ v, s.encode x = .ok v

/-- An integer that can be carried is written as itself. -/
theorem encode_int_of_wireInt {kind : IntKind} {n : kind.Carrier} {i : WireInt}
    (h : i.val = n.val) : (int kind).encode n = .ok (.int i) := by
  have hcarried : WireInt.ofInt? n.val = some i := by
    rw [← h, WireInt.ofInt?_val]
  simp only [Shape.encode, hcarried]

/-- The greatest integer of 128 bits cannot be carried. -/
theorem alwaysSends_int_iff {kind : IntKind} :
    (int kind).AlwaysSends ↔ kind ≠ .i128 ∧ kind ≠ .u128 := by
  constructor
  · intro h
    constructor <;> rintro rfl
    · obtain ⟨v, hv⟩ := h (⟨IntKind.max .i128, by decide, by decide⟩ : IntKind.Carrier .i128)
      cases hv
    · obtain ⟨v, hv⟩ := h (⟨IntKind.max .u128, by decide, by decide⟩ : IntKind.Carrier .u128)
      cases hv
  · rintro ⟨hsigned, hunsigned⟩ n
    obtain ⟨i, hi⟩ := IntKind.exists_wireInt hsigned hunsigned n
    exact ⟨_, encode_int_of_wireInt hi⟩

/-- An optional type always sends if its content does. -/
theorem alwaysSends_optional_iff {content : Shape} :
    content.optional.AlwaysSends ↔ content.AlwaysSends := by
  constructor
  · intro h x
    exact h (some x)
  · intro h x
    cases x with
    | none => exact ⟨.null, rfl⟩
    | some x => exact h x

/-- A list is written as the list of what its items are written as. -/
theorem exists_encode_list_iff {item : Shape} {as : List item.Carrier} :
    (∃ v, item.list.encode as = .ok v) ↔ ∀ a ∈ as, ∃ v, item.encode a = .ok v :=
  exists_bind_eq_ok_iff.trans exists_mapM_eq_ok_iff

theorem alwaysSends_list_iff {item : Shape} : item.list.AlwaysSends ↔ item.AlwaysSends := by
  constructor
  · intro h a
    exact exists_encode_list_iff.mp (h [a]) a (List.mem_singleton.mpr rfl)
  · intro h as
    exact exists_encode_list_iff.mpr fun a _ => h a

/-- An array is sent exactly when its items are. -/
theorem exists_encode_array_iff {size : Nat} {item : Shape}
    {as : { items : List item.Carrier // items.length = size }} :
    (∃ v, (array size item).encode as = .ok v) ↔ ∀ a ∈ as.val, ∃ v, item.encode a = .ok v :=
  exists_bind_eq_ok_iff.trans exists_mapM_eq_ok_iff

/-- There is nothing to write in an array without items. -/
theorem alwaysSends_array_iff {size : Nat} {item : Shape} :
    (array size item).AlwaysSends ↔ size = 0 ∨ item.AlwaysSends := by
  constructor
  · intro h
    by_cases hsize : size = 0
    · exact .inl hsize
    · refine .inr fun a => ?_
      have hmem : a ∈ List.replicate size a := List.mem_replicate.mpr ⟨hsize, rfl⟩
      exact exists_encode_array_iff.mp (h ⟨List.replicate size a, List.length_replicate⟩) a hmem
  · rintro (rfl | h) as
    · refine exists_encode_array_iff.mpr fun a ha => ?_
      rw [List.eq_nil_of_length_eq_zero as.property] at ha
      cases ha
    · exact exists_encode_array_iff.mpr fun a _ => h a

/-- An entry is written if its key is a key and its item has a form. -/
theorem exists_encode_mapping_iff {key item : Shape} {as : List (key.Carrier × item.Carrier)} :
    (∃ v, (mapping key item).encode as = .ok v) ↔
      ∀ a ∈ as, (∃ k, key.encodeKey a.1 = .ok k) ∧ ∃ v, item.encode a.2 = .ok v := by
  refine exists_bind_eq_ok_iff.trans (exists_mapM_eq_ok_iff.trans ?_)
  exact forall_congr' fun a => imp_congr_right fun _ => exists_bind₂_eq_ok_iff

/-- One entry shows what can be wrong with a key, and one what can be wrong with an item. -/
theorem alwaysSends_mapping_iff {key item : Shape} :
    (mapping key item).AlwaysSends ↔ key.Keyable ∧ item.AlwaysSends := by
  have hsingle (k : key.Carrier) (a : item.Carrier) : (k, a) ∈ [(k, a)] :=
    List.mem_singleton.mpr rfl
  constructor
  · intro h
    constructor
    · -- One entry with a value that is no key makes a mapping that is not sent.
      by_contra hkey
      obtain ⟨k, cause, hk⟩ := exists_encodeKey_eq_error hkey
      obtain ⟨⟨k', hk'⟩, -⟩ := exists_encode_mapping_iff.mp (h [(k, item.zero)]) _ (hsingle _ _)
      cases hk.symm.trans hk'
    · intro a
      exact (exists_encode_mapping_iff.mp (h [(key.zero, a)]) _ (hsingle _ _)).2
  · rintro ⟨hkey, hitem⟩ as
    refine exists_encode_mapping_iff.mpr fun a _ => ⟨?_, hitem a.2⟩
    exact (hkey.exists_decodeKey_eq_ok a.1).imp fun k hk => hk.1

end Shape

/-- The positions can be written exactly if the first and the others can. -/
theorem Shapes.exists_encode_cons_iff {head : Shape} {tail : Shapes} {a : head.Carrier}
    {as : tail.Carrier} : (∃ vs, (Shapes.cons head tail).encode (a, as) = .ok vs) ↔
      (∃ v, head.encode a = .ok v) ∧ ∃ vs, tail.encode as = .ok vs :=
  exists_bind₂_eq_ok_iff

/-- The fields can be written exactly if the first and the others can. -/
theorem Fields.exists_encode_cons_iff {name : String} {defaulted : Bool} {head : Shape}
    {tail : Fields} {a : head.Carrier} {as : tail.Carrier} :
    (∃ vs, (Fields.cons name defaulted head tail).encode (a, as) = .ok vs) ↔
      (∃ v, head.encode a = .ok v) ∧ ∃ vs, tail.encode as = .ok vs :=
  exists_bind₂_eq_ok_iff

mutual

/-- **Sendable types.**  Every value of a type has a dynamic form if and only if the type has no
integers of more than 64 bits in it, and no mappings with keys of types that are not all keys. -/
theorem Shape.sendable_iff : ∀ {s : Shape}, s.Sendable ↔ s.AlwaysSends
  | .int _ => Shape.alwaysSends_int_iff.symm
  | .optional content =>
    (@Shape.sendable_iff content).trans Shape.alwaysSends_optional_iff.symm
  | .list item => (@Shape.sendable_iff item).trans Shape.alwaysSends_list_iff.symm
  | .array _ item =>
    (or_congr_right (@Shape.sendable_iff item)).trans Shape.alwaysSends_array_iff.symm
  | .mapping _ item =>
    (and_congr_right' (@Shape.sendable_iff item)).trans Shape.alwaysSends_mapping_iff.symm
  | .tuple parts =>
    (@Shapes.sendable_iff parts).trans (forall_congr' fun _ => exists_bind_eq_ok_iff).symm
  | .record _ fields =>
    (@Fields.sendable_iff fields).trans (forall_congr' fun _ => exists_bind_eq_ok_iff).symm
  | .unit | .bool | .single | .double | .char | .text | .any =>
    iff_of_true trivial fun _ => ⟨_, rfl⟩

/-- The positions can always be written exactly if they are of sendable types. -/
theorem Shapes.sendable_iff : ∀ {ss : Shapes},
    ss.Sendable ↔ ∀ as : ss.Carrier, ∃ vs, ss.encode as = .ok vs
  | .nil => iff_of_true trivial fun _ => ⟨[], rfl⟩
  | .cons head tail => by
    refine (and_congr Shape.sendable_iff Shapes.sendable_iff).trans ?_
    constructor
    · rintro ⟨hhead, htail⟩ ⟨a, as⟩
      exact Shapes.exists_encode_cons_iff.mpr ⟨hhead a, htail as⟩
    · intro h
      exact ⟨fun a => (Shapes.exists_encode_cons_iff.mp (h (a, tail.zero))).1,
        fun as => (Shapes.exists_encode_cons_iff.mp (h (head.zero, as))).2⟩

/-- The fields can always be written exactly if they are of sendable types. -/
theorem Fields.sendable_iff : ∀ {fs : Fields},
    fs.Sendable ↔ ∀ as : fs.Carrier, ∃ vs, fs.encode as = .ok vs
  | .nil => iff_of_true trivial fun _ => ⟨[], rfl⟩
  | .cons _ _ head tail => by
    refine (and_congr Shape.sendable_iff Fields.sendable_iff).trans ?_
    constructor
    · rintro ⟨hhead, htail⟩ ⟨a, as⟩
      exact Fields.exists_encode_cons_iff.mpr ⟨hhead a, htail as⟩
    · intro h
      exact ⟨fun a => (Fields.exists_encode_cons_iff.mp (h (a, tail.zero))).1,
        fun as => (Fields.exists_encode_cons_iff.mp (h (head.zero, as))).2⟩

end

end WireCall
