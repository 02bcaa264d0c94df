import WireCall.Proofs.Codec
import WireCall.Proofs.Service.Sendable

namespace WireCall

/-!
# Results of plain types

The plain types are the truth values, the integers of at most 64 bits, the floats, the texts, and
the optional values and lists of these, but no optional value of an optional one: an absent value
and the presence of an absent one would look the same.

Every value of a plain type has a dynamic form, and the value is read back from it exactly if all
floats in it are finite (`Shape.Plain.exists_writes`): a float that is not has null for a form,
which is no float.  A list is read back item by item, and an optional value is present as long as
the form of its content is not null.

There are as many lists around anything in the form as the type has inside one another, and no
objects, so types of at most 49 such lists are within the limits of both serializations
(`Shape.Plain.nests`).
-/

namespace Shape

/-- A type whose values have a form that says which type they are of. -/
inductive Plain : Shape → Prop
  | bool : Plain .bool
  | int {kind : IntKind} (hsigned : kind ≠ .i128) (hunsigned : kind ≠ .u128) : Plain (.int kind)
  | double : Plain .double
  | text : Plain .text
  | list {item : Shape} (hitem : item.Plain) : Plain (.list item)
  | optional {content : Shape} (hcontent : content.Plain)
      (hpresent : ∀ inner, content ≠ .optional inner) : Plain (.optional content)

/-- All floats in the value are finite. -/
def Finite : (s : Shape) → s.Carrier → Prop
  | .double, x => Binary64.isFinite x = true
  | .list item, (as : List item.Carrier) => ∀ a ∈ as, item.Finite a
  | .optional content, a => ∀ b, a = some b → content.Finite b
  | _, _ => True

/-- How many lists there are inside one another. -/
def listDepth : Shape → Nat
  | .list item => item.listDepth + 1
  | .optional content => content.listDepth
  | _ => 0

/-! ### Forms of values -/

/-- The value has the form `v`: a normal one without objects, with no more lists than the type has,
and from which the value is read exactly if it is finite. -/
structure Writes (s : Shape) (x : s.Carrier) (v : Value) : Prop where
  encode : s.encode x = .ok v
  decode : s.decode v = .ok x ↔ s.Finite x
  normal : v.Normal
  shallow : ∀ ⦃lists objects u⦄, v.Holds lists objects u →
    objects = 0 ∧ lists + u.isContainer.toNat ≤ s.listDepth

/-- What occurs in a value that is no container is this value. -/
theorem shallow_of_scalar {v : Value} (hscalar : v.isContainer = false) (depth : Nat) :
    ∀ ⦃lists objects u⦄, v.Holds lists objects u →
      objects = 0 ∧ lists + u.isContainer.toNat ≤ depth := by
  intro lists objects u hu
  cases hu with
  | self => simp [hscalar]
  | item => cases hscalar
  | member => cases hscalar

/-- A boolean is written as such. -/
theorem writes_bool (b : Bool) : bool.Writes b (.bool b) where
  encode := rfl
  decode := iff_of_true rfl trivial
  normal := trivial
  shallow := shallow_of_scalar rfl _

theorem writes_text (s : String) : text.Writes s (.str s) where
  encode := rfl
  decode := iff_of_true rfl trivial
  normal := trivial
  shallow := shallow_of_scalar rfl _

/-- An integer of at most 64 bits is written as itself. -/
theorem exists_writes_int {kind : IntKind} (hsigned : kind ≠ .i128) (hunsigned : kind ≠ .u128)
    (n : kind.Carrier) : ∃ v, (int kind).Writes n v := by
  obtain ⟨i, hi⟩ := IntKind.exists_wireInt hsigned hunsigned n
  refine ⟨.int i, encode_int_of_wireInt hi, ?_, trivial, shallow_of_scalar rfl _⟩
  exact iff_of_true (IntKind.decode_eq_ok_iff.mpr ⟨i, rfl, hi⟩) trivial

/-- A float that is not finite is written as null, which is read as no float. -/
theorem exists_writes_double (x : Binary64) : ∃ v, double.Writes x v := by
  refine ⟨.ofBinary64 x, rfl, ?_, ?_, ?_⟩
  · show Binary64.decode (.ofBinary64 x) = .ok x ↔ x.isFinite = true
    unfold Value.ofBinary64 FiniteFloat.of?
    by_cases hfinite : x.isFinite = true
    · rw [dif_pos hfinite]
      exact iff_of_true rfl hfinite
    · rw [dif_neg hfinite]
      exact iff_of_false nofun hfinite
  · unfold Value.ofBinary64
    split <;> trivial
  · refine shallow_of_scalar ?_ _
    unfold Value.ofBinary64
    split <;> rfl

section Items

variable {item : Shape} {as : List item.Carrier} {vs : List Value}
  (hwrites : List.Forall₂ (fun a v => item.Writes a v) as vs)

include hwrites

/-- Items are read back exactly when each of them is finite. -/
theorem forall₂_decode_iff :
    List.Forall₂ (fun v a => item.decode v = .ok a) vs as ↔ ∀ a ∈ as, item.Finite a := by
  induction hwrites with
  | nil => simp
  | cons hv hvs ih => rw [List.forall₂_cons, List.forall_mem_cons, ih, hv.decode]

/-- Each item of a written list is written. -/
theorem exists_writes_of_mem {v : Value} (hv : v ∈ vs) : ∃ a, item.Writes a v := by
  induction hwrites with
  | nil => cases hv
  | @cons a v' as vs hv' hvs ih =>
    rcases List.mem_cons.mp hv with rfl | hv
    · exact ⟨a, hv'⟩
    · exact ih hv

end Items

/-- The items of a list are written in their order. -/
theorem exists_writes_list {item : Shape} {as : List item.Carrier}
    (hitem : ∀ a ∈ as, ∃ v, item.Writes a v) : ∃ v, (list item).Writes as v := by
  obtain ⟨vs, hencode, hwrites⟩ := exists_mapM_eq_ok (p := fun a v => item.Writes a v)
    fun a ha => (hitem a ha).imp fun v hv => ⟨hv.encode, hv⟩
  refine ⟨.list vs, bind_eq_ok_iff.mpr ⟨vs, hencode, rfl⟩, ?_, ?_, ?_⟩
  · refine decode_list_eq_ok_iff.trans (Iff.trans ?_ (forall₂_decode_iff hwrites))
    simp
  · refine Value.normal_list.mpr fun v hv => ?_
    obtain ⟨a, ha⟩ := exists_writes_of_mem hwrites hv
    exact ha.normal
  · intro lists objects u hu
    have hdepth : (list item).listDepth = item.listDepth + 1 := rfl
    cases hu with
    | self =>
      have hself : (Value.list vs).isContainer.toNat = 1 := rfl
      omega
    | item hv hu =>
      -- Around an item there is one list more, as there is around its type.
      obtain ⟨a, ha⟩ := exists_writes_of_mem hwrites hv
      obtain ⟨hobjects, hlists⟩ := ha.shallow hu
      omega

/-- A value that is there is written as itself.  It is not read as an absent one, since it is not
written as null unless a float in it is not finite. -/
theorem exists_writes_optional {content : Shape} {a : Option content.Carrier}
    (hcontent : ∀ b, a = some b → ∃ v, content.Writes b v)
    (hnull : ∀ b, content.decode .null ≠ .ok b) : ∃ v, (optional content).Writes a v := by
  cases a with
  | none => exact ⟨.null, rfl, iff_of_true rfl nofun, trivial, shallow_of_scalar rfl _⟩
  | some b =>
    obtain ⟨v, hv⟩ := hcontent b rfl
    -- What is present is never written as null, so it is not read as absent.
    have hpresent : content.decode v = .ok b → v ≠ .null := by
      rintro hread rfl
      exact hnull b hread
    have hfinite : (optional content).Finite (some b) ↔ content.Finite b := by
      constructor
      · intro h
        exact h b rfl
      · intro h b' hb'
        exact Option.some.inj hb' ▸ h
    refine ⟨v, hv.encode, ?_, hv.normal, hv.shallow⟩
    rw [hfinite, ← hv.decode]
    refine decode_optional_eq_ok_iff.trans ?_
    constructor
    · rintro (⟨-, hnone⟩ | ⟨-, b', hb', hread⟩)
      · cases hnone
      · exact Option.some.inj hb' ▸ hread
    · intro hread
      exact .inr ⟨hpresent hread, b, rfl, hread⟩

namespace Plain

/-- Null is read at optional types only. -/
theorem decode_null_ne_ok {s : Shape} (h : s.Plain) (hpresent : ∀ inner, s ≠ .optional inner)
    (a : s.Carrier) : s.decode .null ≠ .ok a := by
  cases h with
  | optional hcontent hinner => exact absurd rfl (hpresent _)
  | bool | int hsigned hunsigned | double | text | list hitem => nofun

/-- Every value of a plain type has a form. -/
theorem exists_writes {s : Shape} (h : s.Plain) (x : s.Carrier) : ∃ v, s.Writes x v := by
  induction h with
  | bool => exact ⟨_, writes_bool x⟩
  | int hsigned hunsigned => exact exists_writes_int hsigned hunsigned x
  | double => exact exists_writes_double x
  | text => exact ⟨_, writes_text x⟩
  | list hitem ih => exact exists_writes_list fun a _ => ih a
  | optional hcontent hpresent ih =>
    exact exists_writes_optional (fun b _ => ih b) (hcontent.decode_null_ne_ok hpresent)

/-- A form with few lists around everything is within the limits of each serialization. -/
theorem nests {s : Shape} (h : s.Plain) (hdepth : s.listDepth ≤ 49) {x : s.Carrier} {v : Value}
    (hencode : s.encode x = .ok v) (z : Serialization) : z.Nests v := by
  obtain ⟨v', hwrites⟩ := h.exists_writes x
  obtain rfl := Except.ok.inj (hencode.symm.trans hwrites.encode)
  -- A hollow container counts once more, as the container that it is.
  have hhollow (u : Value) : u.isHollow.toNat ≤ u.isContainer.toNat := by
    cases u with
    | list _ | object _ => exact Bool.toNat_le _
    | null | bool _ | int _ | float _ | str _ => exact Nat.le_refl _
  cases z with
  | msgPack =>
    intro lists objects u hu
    obtain ⟨hobjects, hlists⟩ := hwrites.shallow hu
    omega
  | protobuf =>
    intro lists objects u hu
    obtain ⟨hobjects, hlists⟩ := hwrites.shallow hu
    have hu' := hhollow u
    omega

end Plain
end Shape
end WireCall
