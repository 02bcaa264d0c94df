import WireCall.Message
import WireCall.Octets

namespace WireCall

/-!
# Values and what is in them

An integer of a value is cut out of a 64-bit word by a reader, and `WireInt.ofUInt64_ofNat` and
`WireInt.ofInt64_ofInt` say that nothing is lost.

`v.Holds lists objects u` says that `u` occurs in `v` (as `v` itself, as an item or as a member,
at any depth), below that many lists and that many objects.  Every limit of a body codec is a
condition on all occurrences in the values of a message: `Value.Short` bounds texts and containers,
and `Value.Bounded` bounds the nesting, with a weight for each list and each object on the way and
one for the value that is found there.  Such a condition can be computed, by `Value.everywhere`.

`Value.inductionOn` is the induction along items and members that every proof about whole values
uses.
-/

/-! ### Integers in 64 bits -/

namespace WireInt

/-- An integer of the wire is known by its number. -/
theorem ext_val {m n : WireInt} (h : m.val = n.val) : m = n := by
  cases m
  cases n
  simpa using h

/-- A number of 64 bits without a sign is carried as itself. -/
theorem ofUInt64_ofNat {n : WireInt} {k : Nat} (h : n.val = k) :
    ofUInt64 (UInt64.ofNat k) = n := by
  apply ext_val
  have hk : k < 2 ^ 64 := by
    have := n.upper
    omega
  show ((UInt64.ofNat k).toNat : Int) = n.val
  rw [UInt64.toNat_ofNat', Nat.mod_eq_of_lt hk, h]

theorem ofInt64_ofInt {n : WireInt} (h : n.val < 0x8000000000000000) :
    ofInt64 (Int64.ofInt n.val) = n := by
  apply ext_val
  show (Int64.ofInt n.val).toInt = n.val
  exact Int64.toInt_ofInt_of_le n.lower h

end WireInt

/-- A tag can be written in 64 bits as well. -/
theorem tag_lt (tag : UInt8) : tag.toNat < 0x10000000000000000 :=
  Nat.lt_trans tag.toNat_lt (by decide)

namespace Value

/-- `u` occurs in the value, below this number of lists and this number of objects. -/
inductive Holds : Value → Nat → Nat → Value → Prop
  | self (v : Value) : Holds v 0 0 v
  | item {items : List Value} {v u : Value} {lists objects : Nat} :
      v ∈ items → Holds v lists objects u → Holds (.list items) (lists + 1) objects u
  | member {members : List (String × Value)} {m : String × Value} {u : Value}
      {lists objects : Nat} :
      m ∈ members → Holds m.2 lists objects u → Holds (.object members) lists (objects + 1) u

/-- Whether the value is a list or an object. -/
def isContainer : Value → Bool
  | .list _ | .object _ => true
  | _ => false

/-- Whether the value is a list or an object with nothing in it. -/
def isHollow : Value → Bool
  | .list items => items.isEmpty
  | .object members => members.isEmpty
  | _ => false

/-! ### Induction -/

/-- Induction over a value: what holds of a list when it holds of its items, and of an object when
it holds of its members, holds of every value. -/
@[elab_as_elim]
theorem inductionOn {motive : Value → Prop} (v : Value) (null : motive .null)
    (bool : ∀ b, motive (.bool b)) (int : ∀ n, motive (.int n)) (float : ∀ x, motive (.float x))
    (str : ∀ s, motive (.str s))
    (list : ∀ items, (∀ v ∈ items, motive v) → motive (.list items))
    (object : ∀ members : List (String × Value), (∀ m ∈ members, motive m.2) →
      motive (.object members)) : motive v := by
  -- The recursor also runs through the list of items, the list of members and each member.
  refine @Value.rec motive (fun items => ∀ v ∈ items, motive v)
    (fun members => ∀ m ∈ members, motive m.2) (fun m => motive m.2)
    null bool int float str list object ?_ ?_ ?_ ?_ ?_ v
  · simp
  · intro v vs hv hvs
    exact List.forall_mem_cons.mpr ⟨hv, hvs⟩
  · simp
  · intro m ms hm hms
    exact List.forall_mem_cons.mpr ⟨hm, hms⟩
  · intro k v hv
    exact hv

/-- What is held by what a value holds is held by the value. -/
theorem Holds.trans {v u w : Value} {lists objects lists' objects' : Nat}
    (hu : v.Holds lists objects u) (hw : u.Holds lists' objects' w) :
    v.Holds (lists + lists') (objects + objects') w := by
  induction hu with
  | self => rwa [Nat.zero_add, Nat.zero_add]
  | item hv _ ih =>
    rw [Nat.add_right_comm]
    exact .item hv (ih hw)
  | member hm _ ih =>
    rw [Nat.add_right_comm _ 1]
    exact .member hm (ih hw)

/-! ### What holds everywhere in a value -/

mutual

/-- Whether a test on the lists around it, the objects around it and the value itself passes at
every occurrence in a value that stands below `lists` lists and `objects` objects. -/
def everywhere (test : Nat → Nat → Value → Bool) (lists objects : Nat) : Value → Bool
  | .list items =>
    test lists objects (.list items) && itemsEverywhere test (lists + 1) objects items
  | .object members =>
    test lists objects (.object members) && membersEverywhere test lists (objects + 1) members
  | v => test lists objects v

/-- The test for every value of a list. -/
def itemsEverywhere (test : Nat → Nat → Value → Bool) (lists objects : Nat) : List Value → Bool
  | [] => true
  | v :: vs => everywhere test lists objects v && itemsEverywhere test lists objects vs

/-- The test for every value among the members. -/
def membersEverywhere (test : Nat → Nat → Value → Bool) (lists objects : Nat) :
    List (String × Value) → Bool
  | [] => true
  | (_, v) :: ms => everywhere test lists objects v && membersEverywhere test lists objects ms

end

variable {test : Nat → Nat → Value → Bool}

/-- A test passes everywhere in items exactly when it does in each. -/
theorem itemsEverywhere_iff {lists objects : Nat} {items : List Value} :
    itemsEverywhere test lists objects items = true ↔
      ∀ v ∈ items, v.everywhere test lists objects = true := by
  induction items with
  | nil => simp [itemsEverywhere]
  | cons v vs ih => simp [itemsEverywhere, ih]

theorem membersEverywhere_iff {lists objects : Nat} {members : List (String × Value)} :
    membersEverywhere test lists objects members = true ↔
      ∀ m ∈ members, m.2.everywhere test lists objects = true := by
  induction members with
  | nil => simp [membersEverywhere]
  | cons m ms ih => simp [membersEverywhere, ih]

/-- In a scalar there is only the scalar to test. -/
theorem everywhere_scalar {v : Value} (hscalar : v.isContainer = false) (lists objects : Nat) :
    v.everywhere test lists objects = true ↔
      ∀ ⦃l o u⦄, v.Holds l o u → test (lists + l) (objects + o) u = true := by
  have hself : v.everywhere test lists objects = test lists objects v := by
    cases v <;> first | rfl | exact absurd hscalar (by simp [isContainer])
  rw [hself]
  constructor
  · intro h l o u hu
    -- Nothing but the value itself occurs in it.
    cases hu with
    | self => exact h
    | item => exact absurd hscalar (by simp [isContainer])
    | member => exact absurd hscalar (by simp [isContainer])
  · intro h
    exact h (.self v)

/-- A test passes everywhere in a value exactly when it passes of all that the value holds. -/
theorem everywhere_iff (v : Value) (lists objects : Nat) :
    v.everywhere test lists objects = true ↔
      ∀ ⦃l o u⦄, v.Holds l o u → test (lists + l) (objects + o) u = true := by
  induction v using inductionOn generalizing lists objects with
  | null | bool | int | float | str => exact everywhere_scalar rfl lists objects
  | list items ih =>
    rw [everywhere, Bool.and_eq_true, itemsEverywhere_iff]
    constructor
    · rintro ⟨hself, hitems⟩ l o u hu
      cases hu with
      | self => exact hself
      | item hv hu =>
        -- Around an item there is one list more.
        have hitem := (ih _ hv _ _).mp (hitems _ hv) hu
        rwa [Nat.add_right_comm] at hitem
    · intro h
      refine ⟨h (.self _), fun v hv => (ih v hv _ _).mpr ?_⟩
      intro l o u hu
      have hitem := h (.item hv hu)
      rwa [← Nat.add_assoc, Nat.add_right_comm] at hitem
  | object members ih =>
    rw [everywhere, Bool.and_eq_true, membersEverywhere_iff]
    constructor
    · rintro ⟨hself, hmembers⟩ l o u hu
      cases hu with
      | self => exact hself
      | member hm hu =>
        -- Around a member there is one object more.
        have hmember := (ih _ hm _ _).mp (hmembers _ hm) hu
        rwa [Nat.add_right_comm objects] at hmember
    · intro h
      refine ⟨h (.self _), fun m hm => (ih m hm _ _).mpr ?_⟩
      intro l o u hu
      have hmember := h (.member hm hu)
      rwa [← Nat.add_assoc, Nat.add_right_comm] at hmember

/-- A condition on all occurrences in a value can be computed. -/
instance decidableHolds (v : Value) (p : Nat → Nat → Value → Prop)
    [∀ lists objects u, Decidable (p lists objects u)] :
    Decidable (∀ ⦃lists objects u⦄, v.Holds lists objects u → p lists objects u) :=
  decidable_of_iff (v.everywhere (fun lists objects u => decide (p lists objects u)) 0 0 = true)
    (by simp [everywhere_iff])

/-! ### Normal values -/

/-- Items are normal exactly when each is. -/
theorem allNormal_iff {items : List Value} : AllNormal items ↔ ∀ v ∈ items, v.Normal := by
  induction items with
  | nil => simp [AllNormal]
  | cons v vs ih => simp [AllNormal, ih]

theorem membersNormal_iff {members : List (String × Value)} :
    MembersNormal members ↔ ∀ m ∈ members, m.2.Normal := by
  induction members with
  | nil => simp [MembersNormal]
  | cons m ms ih => simp [MembersNormal, ih]

/-- A list is normal exactly when its items are. -/
theorem normal_list {items : List Value} : (list items).Normal ↔ ∀ v ∈ items, v.Normal := by
  rw [Normal, allNormal_iff]

/-- An object is normal exactly when its members ascend and have normal values. -/
theorem normal_object {members : List (String × Value)} :
    (object members).Normal ↔ Members.Ascending members ∧ ∀ m ∈ members, m.2.Normal := by
  rw [Normal, membersNormal_iff]

/-- The keys of an object ascend; what is inside of it does not count. -/
def Sorted : Value → Prop
  | .object members => Members.Ascending members
  | _ => True

instance : (v : Value) → Decidable v.Sorted
  | .null | .bool _ | .int _ | .float _ | .str _ | .list _ => inferInstanceAs (Decidable True)
  | .object members =>
    inferInstanceAs (Decidable (members.Pairwise fun x y => x.1 < y.1))

/-- A value is normal if all objects in it are sorted. -/
theorem normal_iff (v : Value) :
    v.Normal ↔ ∀ ⦃lists objects u⦄, v.Holds lists objects u → u.Sorted := by
  -- By induction on the value: a container holds itself and what its parts hold.
  induction v using inductionOn with
  | null | bool | int | float | str =>
    constructor
    · intro _ lists objects u hu
      cases hu
      trivial
    · intro _
      trivial
  | list items ih =>
    rw [normal_list]
    constructor
    · intro hitems lists objects u hu
      cases hu with
      | self => trivial
      | item hv hu => exact (ih _ hv).mp (hitems _ hv) hu
    · intro h v hv
      exact (ih v hv).mpr fun _ _ _ hu => h (.item hv hu)
  | object members ih =>
    rw [normal_object]
    constructor
    · rintro ⟨hself, hmembers⟩ lists objects u hu
      cases hu with
      | self => exact hself
      | member hm hu => exact (ih _ hm).mp (hmembers _ hm) hu
    · intro h
      refine ⟨h (.self _), fun m hm => ?_⟩
      exact (ih m hm).mpr fun _ _ _ hu => h (.member hm hu)

instance (v : Value) : Decidable v.Normal :=
  have := decidableHolds v fun _ _ u => u.Sorted
  decidable_of_iff' _ v.normal_iff

/-! ### Limits on sizes -/

/-- Texts and keys are shorter than `2^32` bytes, lists and objects have fewer entries than
that; what is inside of them does not count. -/
def Small : Value → Prop
  | .str s => (Octets.ofText s).length < 4294967296
  | .list items => items.length < 4294967296
  | .object members =>
    members.length < 4294967296 ∧ ∀ m ∈ members, (Octets.ofText m.1).length < 4294967296
  | _ => True

instance : (v : Value) → Decidable v.Small
  | .null | .bool _ | .int _ | .float _ => inferInstanceAs (Decidable True)
  | .str s => inferInstanceAs (Decidable ((Octets.ofText s).length < 4294967296))
  | .list items => inferInstanceAs (Decidable (items.length < 4294967296))
  | .object members => inferInstanceAs (Decidable (members.length < 4294967296 ∧
      ∀ m ∈ members, (Octets.ofText m.1).length < 4294967296))

/-- All texts and containers in the value are small. -/
def Short (v : Value) : Prop := ∀ ⦃lists objects u⦄, v.Holds lists objects u → u.Small

instance (v : Value) : Decidable v.Short :=
  decidableHolds v fun _ _ u => u.Small

theorem Short.small {v : Value} (h : v.Short) : v.Small := h (.self v)

/-- The items of a short list are short. -/
theorem Short.item {items : List Value} (h : (list items).Short) {v : Value} (hv : v ∈ items) :
    v.Short := fun _ _ _ hu => h (.item hv hu)

theorem Short.member {members : List (String × Value)} (h : (object members).Short)
    {m : String × Value} (hm : m ∈ members) : m.2.Short := fun _ _ _ hu => h (.member hm hu)

/-- A value that is no container is short if its own text is. -/
theorem Short.of_scalar {v : Value} (hscalar : v.isContainer = false) (hsmall : v.Small) :
    v.Short := by
  intro lists objects u hu
  cases hu with
  | self => exact hsmall
  | item => cases hscalar
  | member => cases hscalar

/-- A small list of short items is short. -/
theorem Short.of_items {items : List Value} (hsmall : (list items).Small)
    (h : ∀ v ∈ items, v.Short) : (list items).Short := by
  intro lists objects u hu
  cases hu with
  | self => exact hsmall
  | item hv hu => exact h _ hv hu

/-- A small object of short members is short. -/
theorem Short.of_members {members : List (String × Value)} (hsmall : (object members).Small)
    (h : ∀ m ∈ members, m.2.Short) : (object members).Short := by
  intro lists objects u hu
  cases hu with
  | self => exact hsmall
  | member hm hu => exact h _ hm hu

/-! ### Limits on the nesting -/

/-- For every occurrence, the lists and objects around it with these weights, and what the value
found there takes up by itself, stay within the budget. -/
def Bounded (list object : Nat) (own : Value → Nat) (budget : Nat) (v : Value) : Prop :=
  ∀ ⦃lists objects u⦄, v.Holds lists objects u →
    list * lists + object * objects + own u ≤ budget

variable {wl wo budget : Nat} {own : Value → Nat}

instance (v : Value) : Decidable (v.Bounded wl wo own budget) :=
  decidableHolds v fun lists objects u => wl * lists + wo * objects + own u ≤ budget

theorem Bounded.self {v : Value} (h : v.Bounded wl wo own budget) : own v ≤ budget := by
  simpa using h (.self v)

/-- The items of a bounded list are bounded by what is left. -/
theorem Bounded.item {items : List Value} (h : (list items).Bounded wl wo own (budget + wl))
    {v : Value} (hv : v ∈ items) : v.Bounded wl wo own budget := by
  intro lists objects u hu
  have hb := h (.item hv hu)
  rw [Nat.mul_add] at hb
  omega

theorem Bounded.member {members : List (String × Value)}
    (h : (object members).Bounded wl wo own (budget + wo)) {m : String × Value}
    (hm : m ∈ members) : m.2.Bounded wl wo own budget := by
  intro lists objects u hu
  have hb := h (.member hm hu)
  rw [Nat.mul_add] at hb
  omega

/-- A list is bounded if its items are by what is left. -/
theorem Bounded.of_items {items : List Value} (hself : own (list items) ≤ budget)
    (h : ∀ v ∈ items, ∃ b, budget = b + wl ∧ v.Bounded wl wo own b) :
    (list items).Bounded wl wo own budget := by
  intro lists objects u hu
  cases hu with
  | self => simpa using hself
  | item hv hu =>
    obtain ⟨b, rfl, hb⟩ := h _ hv
    have hitem := hb hu
    rw [Nat.mul_add]
    omega

/-- An object is bounded if its members are by what is left. -/
theorem Bounded.of_members {members : List (String × Value)}
    (hself : own (object members) ≤ budget)
    (h : ∀ m ∈ members, ∃ b, budget = b + wo ∧ m.2.Bounded wl wo own b) :
    (object members).Bounded wl wo own budget := by
  intro lists objects u hu
  cases hu with
  | self => simpa using hself
  | member hm hu =>
    obtain ⟨b, rfl, hb⟩ := h _ hm
    have hmember := hb hu
    rw [Nat.mul_add]
    omega

/-- A scalar within the budget is bounded by it. -/
theorem Bounded.of_scalar {v : Value} (hscalar : v.isContainer = false) (hself : own v ≤ budget) :
    v.Bounded wl wo own budget := by
  intro lists objects u hu
  cases hu with
  | self => simpa using hself
  | item => cases hscalar
  | member => cases hscalar

end Value

/-! ### The values of a message -/

namespace Message

/-- The dynamic values of a message: the arguments of a request, the data of a response. -/
def values : Message → List Value
  | .request r => r.args
  | .response r => [r.data]

/-- The texts of a message outside of its values. -/
def texts : Message → List String
  | .request r => [r.service, r.method]
  | .response r => [r.text]

/-- Every value in the message has the keys of its objects ascending and each of them once. -/
def Normal (m : Message) : Prop := ∀ v ∈ m.values, v.Normal

instance (m : Message) : Decidable m.Normal :=
  inferInstanceAs (Decidable (∀ v ∈ m.values, v.Normal))

/-- All texts of the message are shorter than `2^32` bytes and all its lists and objects have
fewer than `2^32` entries. -/
structure Short (m : Message) : Prop where
  texts : ∀ s ∈ m.texts, (Octets.ofText s).length < 4294967296
  count : m.values.length < 4294967296
  values : ∀ v ∈ m.values, v.Short

instance (m : Message) : Decidable m.Short :=
  decidable_of_iff ((∀ s ∈ m.texts, (Octets.ofText s).length < 4294967296) ∧
      m.values.length < 4294967296 ∧ ∀ v ∈ m.values, v.Short)
    ⟨fun ⟨htexts, hcount, hvalues⟩ => ⟨htexts, hcount, hvalues⟩,
      fun h => ⟨h.texts, h.count, h.values⟩⟩

end Message

/-! ### A request with values of every kind

The limits above are met by a request whose arguments hold the greatest integer, the zero with a
sign, and empty texts, keys, lists and objects below each other. -/

namespace Request

/-- The request with the most unlike arguments. -/
def sample : Request where
  requestId := 7
  service := "calculator"
  method := ""
  args := [.int ⟨18446744073709551615, by decide, by decide⟩, .int ⟨-129, by decide, by decide⟩,
    .bool true, .float ⟨⟨0x8000000000000000⟩, by decide⟩,
    .list [.null, .str "", .list []],
    .object [("", .null), ("k", .list [.object []])]]

/-- The sample request is normal. -/
theorem sample_normal : (Message.request sample).Normal := by decide

/-- The sample request is short. -/
theorem sample_short : (Message.request sample).Short := by decide

end Request
end WireCall
