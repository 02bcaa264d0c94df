import Mathlib.Data.List.Forall2
import WireCall.Proofs.Recovery
import WireCall.Proofs.Service.Dispatch

namespace WireCall

/-!
# What a method is called with

`Shape.Takes` says which dynamic values stand for a typed one, type by type: an integer is taken
from the same integer and from nothing else, a float from any number, an optional value from null or
from what its content takes, a list from a list item by item.  A tuple of positions takes a list
with one value for each of them, in their order (`Shapes.Takes`).

Conversion computes this relation (`Shape.decode_eq_ok_iff`, `Shapes.decode_eq_ok_iff`).  An empty
list of arguments is first tried as null, but null is no tuple, so a tuple is always read from the
list itself (`Shape.decodeArguments_tuple`).

Main statement: a method is run on exactly the arguments that its parameters take, and refuses all
others in its own name, whatever its body (`Shape.runs_or_refuses`).
-/

/-- A list is read item by item, and each item has to be read. -/
theorem mapM_eq_ok_iff {ε α β : Type} {f : α → Except ε β} {xs : List α} {ys : List β} :
    xs.mapM f = .ok ys ↔ List.Forall₂ (fun x y => f x = .ok y) xs ys := by
  induction xs generalizing ys with
  | nil =>
    rw [List.mapM_nil, List.forall₂_nil_left_iff]
    exact ⟨fun h => (Except.ok.inj h).symm, fun h => congrArg Except.ok h.symm⟩
  | cons x xs ih =>
    rw [List.mapM_cons, bind_eq_ok_iff, List.forall₂_cons_left_iff]
    constructor
    · rintro ⟨y, hy, h⟩
      obtain ⟨ys', hys, h⟩ := bind_eq_ok_iff.mp h
      exact ⟨y, ys', hy, ih.mp hys, (Except.ok.inj h).symm⟩
    · rintro ⟨y, ys', hy, hys, rfl⟩
      exact ⟨y, hy, bind_eq_ok_iff.mpr ⟨ys', ih.mpr hys, rfl⟩⟩

/-- A list is written item by item if every item can be. -/
theorem exists_mapM_eq_ok {ε α β : Type} {f : α → Except ε β} {p : α → β → Prop} {xs : List α}
    (h : ∀ x ∈ xs, ∃ y, f x = .ok y ∧ p x y) :
    ∃ ys, xs.mapM f = .ok ys ∧ List.Forall₂ p xs ys := by
  induction xs with
  | nil => exact ⟨[], rfl, .nil⟩
  | cons x xs ih =>
    obtain ⟨y, hy, hp⟩ := h x (by simp)
    obtain ⟨ys, hys, hps⟩ := ih fun x' hx' => h x' (by simp [hx'])
    refine ⟨y :: ys, ?_, .cons hp hps⟩
    rw [List.mapM_cons, hy]
    show (xs.mapM f >>= fun ys => pure (y :: ys)) = _
    rw [hys]
    rfl

/-! ### What stands for a typed value -/

mutual

/-- The dynamic value stands for the typed one.  Characters, arrays, mappings and records are taken
from whatever they are read from. -/
def Shape.Takes : (s : Shape) → Value → s.Carrier → Prop
  | .unit, v, _ => v = .null
  | .bool, v, b => v = .bool b
  | .int _, v, a => ∃ n, v = .int n ∧ n.val = a.val
  | .single, v, x =>
    (∃ n, v = .int n ∧ x = Binary32.ofInt n.val) ∨
      ∃ y, v = .float y ∧ x = Binary32.ofBinary64 y.float
  | .double, v, x =>
    (∃ n, v = .int n ∧ x = Binary64.ofInt n.val) ∨ ∃ y, v = .float y ∧ x = y.float
  | .text, v, s => v = .str s
  | .any, v, a => v = a
  | .optional content, v, a =>
    (v = .null ∧ a = none) ∨ (v ≠ .null ∧ ∃ b, a = some b ∧ content.Takes v b)
  | .list item, v, as => ∃ vs, v = .list vs ∧ List.Forall₂ (fun v a => item.Takes v a) vs as
  | .tuple parts, v, as => ∃ vs, v = .list vs ∧ parts.Takes vs as
  | s, v, a => s.decode v = .ok a

/-- The list has one value for each position, in order, and each stands for the one there. -/
def Shapes.Takes : (ss : Shapes) → List Value → ss.Carrier → Prop
  | .nil, vs, _ => vs = []
  | .cons head tail, vs, (a, as) => ∃ v rest, vs = v :: rest ∧ head.Takes v a ∧ tail.Takes rest as

end

namespace Shapes

/-- As many values are taken as there are parameters. -/
theorem length_of_takes : ∀ {ss : Shapes} {vs : List Value} {as : ss.Carrier},
    ss.Takes vs as → vs.length = ss.size
  | .nil, _, _, h => congrArg List.length h
  | .cons head tail, vs, (a, as), h => by
    obtain ⟨v, rest, rfl, -, htail⟩ := h
    rw [List.length_cons, length_of_takes htail]
    rfl

/-- Parameters do not take an empty list. -/
theorem not_takes_nil {head : Shape} {tail : Shapes} (as : (cons head tail).Carrier) :
    ¬ (cons head tail).Takes [] as := by
  intro h
  have hlength : 0 = tail.size + 1 := length_of_takes h
  omega

end Shapes

/-! ### Conversion of single values -/

namespace IntKind

/-- An integer is taken as one of a kind exactly when it is in range. -/
theorem ofInt?_eq_some_iff {kind : IntKind} {n : Int} {a : kind.Carrier} :
    kind.ofInt? n = some a ↔ n = a.val := by
  unfold ofInt?
  constructor
  · intro h
    split at h
    · exact congrArg Carrier.val (Option.some.inj h)
    · cases h
  · rintro rfl
    rw [dif_pos ⟨a.lower, a.upper⟩]

/-- A value decodes as an integer of a kind exactly when it is that integer. -/
theorem decode_eq_ok_iff {kind : IntKind} {v : Value} {a : kind.Carrier} :
    kind.decode v = .ok a ↔ ∃ n, v = .int n ∧ n.val = a.val := by
  cases v with
  | int n =>
    have hvalue : (∃ n', Value.int n = .int n' ∧ n'.val = a.val) ↔ kind.ofInt? n.val = some a := by
      simp [ofInt?_eq_some_iff]
    rw [hvalue, decode]
    cases kind.ofInt? n.val with
    | none => simp
    | some b => simp
  | null | bool _ | float _ | str _ | list _ | object _ => simp [decode]

end IntKind

/-- A value decodes as a double exactly when it is an integer, rounded, or the float itself. -/
theorem Binary64.decode_eq_ok_iff {v : Value} {x : Binary64} : Binary64.decode v = .ok x ↔
    (∃ n, v = .int n ∧ x = .ofInt n.val) ∨ ∃ y, v = .float y ∧ x = y.float := by
  cases v with
  | int _ | float _ => simp [Binary64.decode, eq_comm]
  | null | bool _ | str _ | list _ | object _ => simp [Binary64.decode]

/-- A value decodes as a single exactly when it is an integer or a float, rounded. -/
theorem Binary32.decode_eq_ok_iff {v : Value} {x : Binary32} : Binary32.decode v = .ok x ↔
    (∃ n, v = .int n ∧ x = .ofInt n.val) ∨ ∃ y, v = .float y ∧ x = .ofBinary64 y.float := by
  cases v with
  | int _ | float _ => simp [Binary32.decode, eq_comm]
  | null | bool _ | str _ | list _ | object _ => simp [Binary32.decode]

/-- Only null is the unit. -/
theorem Shape.decode_unit_eq_ok_iff {v : Value} {a : Unit} :
    Shape.unit.decode v = .ok a ↔ v = .null := by
  cases v with
  | null => exact ⟨fun _ => rfl, fun _ => rfl⟩
  | bool _ | int _ | float _ | str _ | list _ | object _ => exact ⟨nofun, nofun⟩

theorem Shape.decode_bool_eq_ok_iff {v : Value} {b : Bool} :
    Shape.bool.decode v = .ok b ↔ v = .bool b := by
  cases v with
  | bool b' => exact ⟨fun h => congrArg Value.bool (Except.ok.inj h),
      fun h => congrArg Except.ok (Value.bool.inj h)⟩
  | null | int _ | float _ | str _ | list _ | object _ => exact ⟨nofun, nofun⟩

theorem Shape.decode_text_eq_ok_iff {v : Value} {s : String} :
    Shape.text.decode v = .ok s ↔ v = .str s := by
  cases v with
  | str s' => exact ⟨fun h => congrArg Value.str (Except.ok.inj h),
      fun h => congrArg Except.ok (Value.str.inj h)⟩
  | null | bool _ | int _ | float _ | list _ | object _ => exact ⟨nofun, nofun⟩

/-! ### Conversion of what is inside -/

/-- An optional value is absent for null, and for nothing else. -/
theorem Shape.decode_optional_eq_ok_iff {content : Shape} {v : Value}
    {a : Option content.Carrier} : content.optional.decode v = .ok a ↔
      (v = .null ∧ a = none) ∨ (v ≠ .null ∧ ∃ b, a = some b ∧ content.decode v = .ok b) := by
  -- Any value but null has to be one of the content.
  have hcontent (hv : v ≠ .null) : (content.decode v).map some = .ok a ↔
      (v = .null ∧ a = none) ∨ (v ≠ .null ∧ ∃ b, a = some b ∧ content.decode v = .ok b) := by
    rw [map_eq_ok_iff]
    simp only [hv, false_and, ne_eq, not_false_eq_true, true_and, false_or]
    exact exists_congr fun b => and_comm.trans (and_congr_left' eq_comm)
  cases v with
  | null =>
    constructor
    · intro h
      exact .inl ⟨rfl, (Except.ok.inj h).symm⟩
    · rintro (⟨-, rfl⟩ | ⟨hne, -⟩)
      · rfl
      · exact absurd rfl hne
  | bool _ | int _ | float _ | str _ | list _ | object _ => exact hcontent nofun

/-- A list decodes exactly when its items do, one by one. -/
theorem Shape.decode_list_eq_ok_iff {item : Shape} {v : Value} {as : List item.Carrier} :
    item.list.decode v = .ok as ↔
      ∃ vs, v = .list vs ∧ List.Forall₂ (fun v a => item.decode v = .ok a) vs as := by
  cases v with
  | list vs =>
    have hitems : vs.mapM item.decode = .ok as ↔
        List.Forall₂ (fun v a => item.decode v = .ok a) vs as := mapM_eq_ok_iff
    constructor
    · intro h
      exact ⟨vs, rfl, hitems.mp h⟩
    · rintro ⟨vs', hvs, h⟩
      exact hitems.mpr (Value.list.inj hvs ▸ h)
  | null | bool _ | int _ | float _ | str _ | object _ => exact ⟨nofun, nofun⟩

/-- A tuple is a list whose positions are read with nothing left over. -/
theorem Shape.decode_tuple_eq_ok_iff {parts : Shapes} {v : Value} {as : parts.Carrier} :
    (Shape.tuple parts).decode v = .ok as ↔
      ∃ vs, v = .list vs ∧ parts.decode parts.size 0 vs = .ok (as, []) := by
  cases v with
  | list vs =>
    constructor
    · intro h
      obtain ⟨⟨as', left⟩, hparts, h⟩ := bind_eq_ok_iff.mp h
      cases left with
      | nil => exact ⟨vs, rfl, Except.ok.inj h ▸ hparts⟩
      | cons v left => cases h
    · rintro ⟨vs', hvs, hparts⟩
      obtain rfl := Value.list.inj hvs
      exact bind_eq_ok_iff.mpr ⟨(as, []), hparts, rfl⟩
  | null | bool _ | int _ | float _ | str _ | object _ => exact ⟨nofun, nofun⟩

/-- The positions after the first are read from what is behind the first value. -/
theorem Shapes.decode_cons_eq_ok_iff {head : Shape} {tail : Shapes} {size index : Nat}
    {vs left : List Value} {a : head.Carrier} {as : tail.Carrier} :
    (Shapes.cons head tail).decode size index vs = .ok ((a, as), left) ↔
      ∃ v rest, vs = v :: rest ∧ head.decode v = .ok a ∧
        tail.decode size (index + 1) rest = .ok (as, left) := by
  cases vs with
  | nil => exact ⟨nofun, nofun⟩
  | cons v rest =>
    constructor
    · intro h
      obtain ⟨a', hhead, h⟩ := bind_eq_ok_iff.mp h
      obtain ⟨⟨as', left'⟩, htail, h⟩ := bind_eq_ok_iff.mp h
      obtain ⟨hvalues, rfl⟩ := Prod.mk.inj (Except.ok.inj h)
      obtain ⟨rfl, rfl⟩ := Prod.mk.inj hvalues
      exact ⟨v, rest, rfl, hhead, htail⟩
    · rintro ⟨v', rest', hvs, hhead, htail⟩
      obtain ⟨rfl, rfl⟩ := List.cons.inj hvs
      exact bind_eq_ok_iff.mpr ⟨a, hhead, bind_eq_ok_iff.mpr ⟨(as, left), htail, rfl⟩⟩

/-! ### Conversion of any value -/

mutual

/-- Conversion succeeds with the value that is stood for. -/
theorem Shape.decode_eq_ok_iff : ∀ {s : Shape} {v : Value} {a : s.Carrier},
    s.decode v = .ok a ↔ s.Takes v a
  | .unit, _, _ => Shape.decode_unit_eq_ok_iff
  | .bool, _, _ => Shape.decode_bool_eq_ok_iff
  | .int _, _, _ => IntKind.decode_eq_ok_iff
  | .single, _, _ => Binary32.decode_eq_ok_iff
  | .double, _, _ => Binary64.decode_eq_ok_iff
  | .text, _, _ => Shape.decode_text_eq_ok_iff
  | .any, _, _ => ⟨Except.ok.inj, congrArg Except.ok⟩
  | .optional content, v, a => by
    refine Shape.decode_optional_eq_ok_iff.trans (or_congr_right (and_congr_right fun _ => ?_))
    exact exists_congr fun b => and_congr_right fun _ => Shape.decode_eq_ok_iff
  | .list item, v, as => by
    refine Shape.decode_list_eq_ok_iff.trans (exists_congr fun vs => and_congr_right fun _ => ?_)
    have hitem (v : Value) (a : item.Carrier) : item.decode v = .ok a ↔ item.Takes v a :=
      Shape.decode_eq_ok_iff
    simp only [hitem]
  | .tuple parts, v, as => by
    have hparts (vs : List Value) (as : parts.Carrier) :
        parts.decode parts.size 0 vs = .ok (as, []) ↔ parts.Takes vs as := by
      rw [Shapes.decode_eq_ok_iff]
      simp
    exact Shape.decode_tuple_eq_ok_iff.trans (exists_congr fun vs =>
      and_congr_right fun _ => hparts vs as)
  | .char, _, _ | .array _ _, _, _ | .mapping _ _, _, _ | .record _ _, _, _ => Iff.rfl

/-- The positions are read from the beginning of a list, and the rest is left over. -/
theorem Shapes.decode_eq_ok_iff : ∀ {ss : Shapes} {size index : Nat} {vs left : List Value}
    {as : ss.Carrier},
    ss.decode size index vs = .ok (as, left) ↔ ∃ taken, vs = taken ++ left ∧ ss.Takes taken as
  | .nil, size, index, vs, left, as => by
    constructor
    · intro h
      exact ⟨[], congrArg Prod.snd (Except.ok.inj h), rfl⟩
    · rintro ⟨taken, rfl, rfl⟩
      rfl
  | .cons head tail, size, index, vs, left, (a, as) => by
    rw [Shapes.decode_cons_eq_ok_iff]
    constructor
    · rintro ⟨v, rest, rfl, hhead, htail⟩
      obtain ⟨taken, rfl, htaken⟩ := Shapes.decode_eq_ok_iff.mp htail
      exact ⟨v :: taken, rfl, v, taken, rfl, Shape.decode_eq_ok_iff.mp hhead, htaken⟩
    · rintro ⟨taken, rfl, v, rest, rfl, hhead, htail⟩
      exact ⟨v, rest ++ left, rfl, Shape.decode_eq_ok_iff.mpr hhead,
        Shapes.decode_eq_ok_iff.mpr ⟨rest, rfl, htail⟩⟩

end

/-! ### Arguments of a call -/

namespace Shape

/-- An empty list is tried as null first, which is no tuple. -/
theorem decodeArguments_tuple (parts : Shapes) (args : List Value) :
    (tuple parts).decodeArguments args = (tuple parts).decode (.list args) := by
  unfold decodeArguments
  cases args with
  | nil => rfl
  | cons v rest => rfl

/-- Arguments convert to a tuple exactly when the parameters take them. -/
theorem decodeArguments_tuple_eq_ok_iff {parts : Shapes} {args : List Value}
    {as : parts.Carrier} : (tuple parts).decodeArguments args = .ok as ↔ parts.Takes args as := by
  rw [decodeArguments_tuple]
  refine decode_eq_ok_iff.trans ?_
  constructor
  · rintro ⟨vs, hvs, h⟩
    exact Value.list.inj hvs ▸ h
  · intro h
    exact ⟨args, rfl, h⟩

/-- Only the empty list converts to no arguments. -/
theorem decodeArguments_unit_eq_ok_iff {args : List Value} {a : Unit} :
    unit.decodeArguments args = .ok a ↔ args = [] := by
  unfold decodeArguments
  cases args with
  | nil => exact ⟨fun _ => rfl, fun _ => rfl⟩
  | cons v rest => exact ⟨nofun, nofun⟩

/-- An integer stands for a value of the kind if it is in range, and nothing else does. -/
theorem exists_int_takes_iff {kind : IntKind} {v : Value} :
    (∃ a, (int kind).Takes v a) ↔ ∃ n, v = .int n ∧ kind.min ≤ n.val ∧ n.val ≤ kind.max := by
  constructor
  · rintro ⟨a, n, rfl, hval⟩
    exact ⟨n, rfl, hval ▸ IntKind.Carrier.lower a, hval ▸ IntKind.Carrier.upper a⟩
  · rintro ⟨n, rfl, hlower, hupper⟩
    exact ⟨IntKind.Carrier.mk n.val hlower hupper, n, rfl, rfl⟩

/-! ### Which calls run -/

/-- Every method with these parameters is run on `args` and is given `a`: in a plain call, in one
that waits, and in a call through a table. -/
structure RunsOn (params : Shape) (args : List Value) (a : params.Carrier) : Prop where
  call : ∀ {σ : Type} (result : Shape)
    (body : params.Carrier → σ → Outcome String result.Carrier × σ) (name : String) (s : σ),
    (Method.mk params result body).call name args s =
      ((Method.mk params result body).conclude (body a s).1, (body a s).2)
  await : ∀ {σ : Type} (result : Shape)
    (start : params.Carrier → Task σ (Outcome String result.Carrier)) (name : String),
    (AsyncMethod.mk params result start).call name args =
      (start a).map (AsyncMethod.mk params result start).settled.conclude
  table : ∀ {σ : Type} (result : Shape)
    (body : params.Carrier → σ → Outcome String result.Carrier × σ) (t : ServiceTable σ)
    (q : Request) (owner : InstanceId),
    t.Finds q ⟨owner, ⟨params, result, body⟩⟩ → q.args = args →
      t.Runs q ⟨owner, ⟨params, result, body⟩⟩ a

/-- No method with these parameters is run on `args`: whatever its body, the state stays as it is,
and the fault has the name of the method. -/
def Refuses (params : Shape) (args : List Value) : Prop :=
  ∃ cause : Mismatch,
    (∀ {σ : Type} (result : Shape)
      (body : params.Carrier → σ → Outcome String result.Carrier × σ) (name : String) (s : σ),
      (Method.mk params result body).call name args s =
        (.failed (.argumentConversion name cause), s)) ∧
    (∀ {σ : Type} (result : Shape)
      (start : params.Carrier → Task σ (Outcome String result.Carrier)) (name : String),
      (AsyncMethod.mk params result start).call name args =
        .done (.failed (.argumentConversion name cause))) ∧
    ∀ {σ : Type} (result : Shape)
      (body : params.Carrier → σ → Outcome String result.Carrier × σ) (t : ServiceTable σ)
      (q : Request) (owner : InstanceId) (states : Instances σ),
      t.Finds q ⟨owner, ⟨params, result, body⟩⟩ → q.args = args →
        t.Ends q states (.failed (.argumentConversion q.method cause)) states

variable {params : Shape} {args : List Value}

/-- A method runs on arguments that convert. -/
theorem runsOn_of_ok {a : params.Carrier} (harguments : params.decodeArguments args = .ok a) :
    params.RunsOn args a where
  call result body name s := by
    unfold Method.call
    dsimp only
    rw [harguments]
  await result start name := by
    unfold AsyncMethod.call
    dsimp only
    rw [harguments]
  table result body t q owner hfinds hargs := by
    subst hargs
    exact ⟨hfinds, harguments⟩

/-- A method refuses arguments that do not convert. -/
theorem refuses_of_error {cause : Mismatch}
    (harguments : params.decodeArguments args = .error cause) : params.Refuses args := by
  refine ⟨cause, ?_, ?_, ?_⟩
  · intro σ result body name s
    exact Method.call_of_mismatch harguments name s
  · intro σ result start name
    unfold AsyncMethod.call
    dsimp only
    rw [harguments]
  · intro σ result body t q owner states hfinds hargs
    subst hargs
    exact .mismatch hfinds harguments

/-- A method that is given nothing is not run. -/
theorem refuses_of_ne_ok (hne : ∀ a, params.decodeArguments args ≠ .ok a) :
    params.Refuses args := by
  cases harguments : params.decodeArguments args with
  | error cause => exact refuses_of_error harguments
  | ok a => exact absurd harguments (hne a)

/-- **Arguments.**  A method whose parameters are a tuple of one position or more runs on a list of
exactly as many values, each of which stands for a value at its position, and it is given these in
their order, which are the only ones.  It refuses every other list, the empty one among them, even
if all positions are optional.  A method that takes nothing runs on the empty list and refuses every
other.  At the position of an integer there stands an integer in its range, and nothing else. -/
theorem runs_or_refuses (head : Shape) (tail : Shapes) (args : List Value) :
    (∀ as, (Shapes.cons head tail).Takes args as →
      args.length = tail.size + 1 ∧ (tuple (.cons head tail)).RunsOn args as ∧
        ∀ as', (Shapes.cons head tail).Takes args as' → as' = as) ∧
    ((∀ as, ¬ (Shapes.cons head tail).Takes args as) →
      (tuple (.cons head tail)).Refuses args) ∧
    (tuple (.cons head tail)).Refuses [] ∧
    unit.RunsOn [] () ∧ (args ≠ [] → unit.Refuses args) ∧
    ∀ kind v, (∃ a, (int kind).Takes v a) ↔
      ∃ n, v = .int n ∧ kind.min ≤ n.val ∧ n.val ≤ kind.max := by
  refine ⟨?_, ?_, ?_, ?_, ?_, fun _ _ => exists_int_takes_iff⟩
  · -- What the parameters take converts, and to one thing only.
    intro as htakes
    have harguments := decodeArguments_tuple_eq_ok_iff.mpr htakes
    refine ⟨Shapes.length_of_takes htakes, runsOn_of_ok harguments, fun as' htakes' => ?_⟩
    have harguments' := decodeArguments_tuple_eq_ok_iff.mpr htakes'
    exact Except.ok.inj (harguments'.symm.trans harguments)
  · intro hnone
    refine refuses_of_ne_ok fun as h => ?_
    exact hnone as (decodeArguments_tuple_eq_ok_iff.mp h)
  · refine refuses_of_ne_ok fun as h => ?_
    exact Shapes.not_takes_nil as (decodeArguments_tuple_eq_ok_iff.mp h)
  · exact runsOn_of_ok rfl
  · intro hne
    refine refuses_of_ne_ok fun a h => ?_
    exact hne (decodeArguments_unit_eq_ok_iff.mp h)

/-- Five and nothing are arguments for an integer and an optional one, but five alone is not, and
null is not nothing. -/
theorem runs_or_refuses_sample :
    let integers := two Catalogue.integer (.optional Catalogue.integer)
    let five : Value := .int (.ofUInt64 5)
    integers.RunsOn [five, .null] (ServiceTable.five, none, ()) ∧ integers.Refuses [five] ∧
      unit.Refuses [.null] := by
  intro integers five
  refine ⟨?_, ?_, ?_⟩
  · obtain ⟨hruns, -⟩ := runs_or_refuses Catalogue.integer
      (.cons (.optional Catalogue.integer) .nil) [five, .null]
    refine (hruns (ServiceTable.five, none, ()) ?_).2.1
    exact ⟨five, [.null], rfl, ⟨_, rfl, rfl⟩, .null, [], rfl, .inl ⟨rfl, rfl⟩, rfl⟩
  · obtain ⟨-, hrefuses, -⟩ := runs_or_refuses Catalogue.integer
      (.cons (.optional Catalogue.integer) .nil) [five]
    refine hrefuses fun as htakes => ?_
    have hlength : 1 = 2 := Shapes.length_of_takes htakes
    omega
  · obtain ⟨-, -, -, -, hrefuses, -⟩ := runs_or_refuses .unit .nil [.null]
    exact hrefuses (List.cons_ne_nil _ _)

end Shape
end WireCall
