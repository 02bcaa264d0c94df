import WireCall.Number.Integer
import WireCall.Number.Binary

namespace WireCall

/-!
# Dynamic values

Arguments and results travel as dynamic values: null, truth values, integers, finite floats, texts,
lists and objects.  An object keeps its members in ascending order of their keys, each key once;
`Members.ofEntries` brings entries into that form, and `Value.Normal` says that a value has it
throughout.

Main statement: entries that already ascend are left alone (`Members.ofEntries_of_ascending`).
-/

/-- A dynamic value. -/
inductive Value where
  | null
  | bool (b : Bool)
  | int (n : WireInt)
  | float (x : FiniteFloat)
  | str (s : String)
  | list (items : List Value)
  | object (members : List (String × Value))
deriving BEq, Repr, Inhabited

/-! ### Members of an object -/

namespace Members

variable {α : Type}

/-- Adds an entry in its place, unless its key is taken. -/
def insertNew (k : String) (a : α) : List (String × α) → List (String × α)
  | [] => [(k, a)]
  | (k', a') :: rest =>
    if k < k' then (k, a) :: (k', a') :: rest
    else if k = k' then (k', a') :: rest
    else (k', a') :: insertNew k a rest

/-- The entries by ascending keys; of several with one key the last one stays. -/
def ofEntries (entries : List (String × α)) : List (String × α) :=
  entries.foldr (fun entry acc => insertNew entry.1 entry.2 acc) []

/-- Each key is below all later ones. -/
def Ascending (members : List (String × α)) : Prop :=
  members.Pairwise fun x y => x.1 < y.1

/-- A key below all others goes to the front. -/
theorem insertNew_of_below {k : String} {a : α} {members : List (String × α)}
    (below : ∀ m ∈ members, k < m.1) : insertNew k a members = (k, a) :: members := by
  cases members with
  | nil => rfl
  | cons m rest => simp [insertNew, below m (by simp)]

/-- Entries in ascending order are the members they make, so building them changes nothing. -/
theorem ofEntries_of_ascending {members : List (String × α)} (h : Ascending members) :
    ofEntries members = members := by
  induction members with
  | nil => rfl
  | cons m rest ih =>
    obtain ⟨below, ascending⟩ := List.pairwise_cons.1 h
    have tail : rest.foldr (fun entry acc => insertNew entry.1 entry.2 acc) [] = rest :=
      ih ascending
    rw [ofEntries, List.foldr_cons, tail, insertNew_of_below below]

end Members

namespace Value

/-! ### Normal form -/

mutual

/-- Every object in the value has its keys ascending and each of them once. -/
def Normal : Value → Prop
  | .list items => AllNormal items
  | .object members => Members.Ascending members ∧ MembersNormal members
  | _ => True

/-- Every value of the list is normal. -/
def AllNormal : List Value → Prop
  | [] => True
  | v :: vs => v.Normal ∧ AllNormal vs

/-- Every value among the members is normal. -/
def MembersNormal : List (String × Value) → Prop
  | [] => True
  | (_, v) :: ms => v.Normal ∧ MembersNormal ms

end

/-! ### Building values -/

/-- A float as a value; null stands for what is not finite. -/
def ofBinary64 (x : Binary64) : Value :=
  match FiniteFloat.of? x with
  | some x => .float x
  | none => .null

/-- An object from entries in any order, the last one of a key winning. -/
def ofEntries (entries : List (String × Value)) : Value :=
  .object (Members.ofEntries entries)

end Value
end WireCall
