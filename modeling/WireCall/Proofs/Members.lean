import Mathlib.Algebra.BigOperators.Group.List.Basic
import Mathlib.Algebra.GroupWithZero.Nat
import Mathlib.Data.String.Basic
import WireCall.Service.Table

namespace WireCall.Members

/-!
# Entries in the order of their keys

Members of an object and services of a table are kept by ascending keys, each key once.  Every way
to add or remove entries keeps that order (`ascending_insertNew`, `ascending_insert`,
`ascending_erase`), and entries that come in any order are brought into it (`ascending_ofEntries`).
In this order a search by key finds exactly what is there (`lookup_eq_some_iff`).  To take out an
entry that was put in under a new key leaves what was there before (`erase_insert`).
-/

variable {α : Type} {k k' : String} {a : α} {members : List (String × α)}

/-! ### Adding an entry -/

/-- A member after an insertion is the new one or one from before. -/
theorem mem_insertNew {m : String × α} (h : m ∈ insertNew k a members) :
    m = (k, a) ∨ m ∈ members := by
  induction members with
  | nil => exact .inl (List.mem_singleton.mp h)
  | cons m' rest ih =>
    rw [insertNew] at h
    split at h
    · exact List.mem_cons.mp h
    · split at h
      · exact .inr h
      · rcases List.mem_cons.mp h with rfl | h
        · exact .inr (by simp)
        · exact (ih h).imp_right (List.mem_cons_of_mem _)

/-- Inserting keeps the members in ascending order. -/
theorem ascending_insertNew (h : Ascending members) : Ascending (insertNew k a members) := by
  induction members with
  | nil => exact List.pairwise_singleton _ _
  | cons m rest ih =>
    obtain ⟨hbelow, hrest⟩ := List.pairwise_cons.mp h
    rw [insertNew]
    split
    · -- The key belongs before the first entry.
      rename_i hlt
      refine List.pairwise_cons.mpr ⟨fun m' hm' => ?_, h⟩
      rcases List.mem_cons.mp hm' with rfl | hm'
      · exact hlt
      · exact lt_trans hlt (hbelow m' hm')
    · rename_i hnlt
      split
      · exact h
      · -- The key belongs behind the first entry.
        rename_i hne
        have hlt : m.1 < k := lt_of_le_of_ne (not_lt.mp hnlt) (Ne.symm hne)
        refine List.pairwise_cons.mpr ⟨fun m' hm' => ?_, ih hrest⟩
        rcases mem_insertNew hm' with rfl | hm'
        · exact hlt
        · exact hbelow m' hm'

/-- Inserting adds at most the share of the new member to a sum. -/
theorem sum_insertNew_le (f : String × α → Nat) :
    ((insertNew k a members).map f).sum ≤ f (k, a) + (members.map f).sum := by
  induction members with
  | nil => exact Nat.le_refl _
  | cons m rest ih =>
    obtain ⟨key, b⟩ := m
    rw [insertNew]
    split
    · exact Nat.le_refl _
    · split
      · exact Nat.le_add_left _ _
      · rw [List.map_cons, List.sum_cons, List.map_cons, List.sum_cons]
        omega

/-! ### Entries in any order -/

/-- The members made of entries are in ascending order. -/
theorem ascending_ofEntries (entries : List (String × α)) : Ascending (ofEntries entries) := by
  induction entries with
  | nil => exact .nil
  | cons entry rest ih => exact ascending_insertNew ih

/-- Every member made of entries is one of the entries. -/
theorem mem_of_mem_ofEntries {entries : List (String × α)} {m : String × α}
    (h : m ∈ ofEntries entries) : m ∈ entries := by
  induction entries with
  | nil => cases h
  | cons entry rest ih =>
    rcases mem_insertNew h with rfl | h
    · exact List.mem_cons_self
    · exact List.mem_cons_of_mem _ (ih h)

/-- Entries of one key count only once. -/
theorem sum_ofEntries_le (f : String × α → Nat) (entries : List (String × α)) :
    ((ofEntries entries).map f).sum ≤ (entries.map f).sum := by
  induction entries with
  | nil => exact Nat.le_refl _
  | cons entry rest ih =>
    refine Nat.le_trans (sum_insertNew_le f) ?_
    rw [List.map_cons, List.sum_cons]
    exact Nat.add_le_add_left ih _

/-- Entries make at most as many members. -/
theorem length_ofEntries_le (entries : List (String × α)) :
    (ofEntries entries).length ≤ entries.length := by
  simpa using sum_ofEntries_le (fun _ => 1) entries

/-! ### Replacing and removing an entry -/

/-- Erasing keeps the members in ascending order. -/
theorem ascending_erase (h : Ascending members) : Ascending (erase k members) := h.filter _

theorem ascending_insert (h : Ascending members) : Ascending (insert k a members) :=
  ascending_insertNew (ascending_erase h)

/-- The inserted key is found with its new value, and every other key as before. -/
theorem lookup_insert : (insert k a members).lookup k' =
    if k' = k then some a else members.lookup k' := by
  split
  · rename_i heq
    rw [heq, lookup_insert_self]
  · rename_i hne
    exact lookup_insert_of_ne hne a members

theorem lookup_erase : (erase k members).lookup k' =
    if k' = k then none else members.lookup k' := by
  split
  · rename_i heq
    rw [heq, lookup_erase_self]
  · rename_i hne
    exact lookup_erase_of_ne hne members

/-! ### Searching -/

/-- Members in ascending order have distinct keys. -/
theorem nodup_keys (h : Ascending members) : (members.map (·.1)).Nodup :=
  List.pairwise_map.mpr (h.imp fun hlt => ne_of_lt hlt)

/-- A key is found exactly when a member bears it. -/
theorem isSome_lookup_iff : (members.lookup k).isSome ↔ k ∈ members.map (·.1) := by
  induction members with
  | nil => simp
  | cons m rest ih =>
    obtain ⟨key, b⟩ := m
    rw [List.lookup_cons]
    by_cases heq : k = key
    · simp [heq]
    · have hbeq : (k == key) = false := beq_eq_false_iff_ne.mpr heq
      simp [hbeq, heq, ih]

/-- In ascending order a key is found with a value exactly when they are a member. -/
theorem lookup_eq_some_iff (h : Ascending members) :
    members.lookup k = some a ↔ (k, a) ∈ members := by
  induction members with
  | nil => simp
  | cons m rest ih =>
    obtain ⟨key, b⟩ := m
    obtain ⟨hbelow, hrest⟩ := List.pairwise_cons.mp h
    rw [List.lookup_cons]
    by_cases heq : k = key
    · subst heq
      have hfresh : (k, a) ∉ rest := fun hmem => lt_irrefl k (hbelow (k, a) hmem)
      simp [hfresh, eq_comm]
    · have hbeq : (k == key) = false := beq_eq_false_iff_ne.mpr heq
      simp [hbeq, heq, ih hrest]

/-! ### Taking back an entry -/

/-- Without its name, an entry that was put in does not show. -/
theorem erase_insertNew (members : List (String × α)) :
    erase k (insertNew k a members) = erase k members := by
  induction members with
  | nil => simp [insertNew, erase]
  | cons m rest ih =>
    unfold insertNew
    split
    · simp [erase]
    · split
      · rfl
      · unfold erase at ih ⊢
        rw [List.filter_cons, List.filter_cons, ih]

/-- Erasing a key that is not there changes nothing. -/
theorem erase_eq_self (h : members.lookup k = none) : erase k members = members := by
  apply List.filter_eq_self.mpr
  intro m hm
  by_contra hne
  have heq : m.1 = k := by simpa using hne
  have hsome : (members.lookup k).isSome := isSome_lookup_iff.mpr (heq ▸ List.mem_map_of_mem hm)
  rw [h] at hsome
  cases hsome

/-- An entry under a new name can be put in and taken out again. -/
theorem erase_insert (h : members.lookup k = none) : erase k (insert k a members) = members := by
  rw [insert, erase_insertNew, erase_eq_self h, erase_eq_self h]

end WireCall.Members
