import WireCall.Proofs.MsgPack.Message

namespace WireCall.MsgPack

/-!
# What fits into a body

A text takes at least its own bytes, and each item or member of a container at least one byte.  So
all texts and containers of a message are as short as its body is, and a body of less than `2^32`
bytes needs no further condition on what is in it (`short_of_length_encode`).
-/

/-! ### Items in a row -/

section Rows

variable {α : Type} {f : α → Octets} {items : List α}

/-- There are no more items than bytes, where no item is written with no bytes. -/
theorem length_le_length_flatMap (hne : ∀ a ∈ items, f a ≠ []) :
    items.length ≤ (items.flatMap f).length := by
  induction items with
  | nil => exact Nat.le_refl _
  | cons a as ih =>
    have hpos := List.length_pos_iff.mpr (hne a (by simp))
    have hrest := ih fun b hb => hne b (by simp [hb])
    rw [List.flatMap_cons, List.length_append, List.length_cons]
    omega

/-- No item takes more bytes than all of them. -/
theorem length_apply_le_flatMap {a : α} (ha : a ∈ items) :
    (f a).length ≤ (items.flatMap f).length := by
  obtain ⟨front, back, rfl⟩ := List.append_of_mem ha
  rw [List.flatMap_append, List.flatMap_cons, List.length_append, List.length_append]
  omega

end Rows

/-! ### Values -/

/-- A text takes no more bytes than its written form. -/
theorem length_ofText_le (s : String) : (Octets.ofText s).length ≤ (text s).length := by
  rw [text, List.length_append]
  exact Nat.le_add_left _ _

/-- No number is written with no bytes. -/
theorem natural_ne_nil (n : Nat) : natural n ≠ [] := by
  rw [natural]
  repeat' split
  all_goals exact List.cons_ne_nil _ _

theorem integer_ne_nil (n : Int) : integer n ≠ [] := by
  rw [integer]
  split
  · exact natural_ne_nil _
  · repeat' split
    all_goals exact List.cons_ne_nil _ _

theorem header_ne_nil (n : Nat) : textHeader n ≠ [] ∧ arrayHeader n ≠ [] ∧ mapHeader n ≠ [] := by
  rw [textHeader, arrayHeader, mapHeader]
  refine ⟨?_, ?_, ?_⟩
  all_goals
    repeat' split
    all_goals exact List.cons_ne_nil _ _

/-- No value is written with no bytes. -/
theorem encodeValue_ne_nil (v : Value) : encodeValue v ≠ [] := by
  cases v with
  | null | bool => simp [encodeValue, writeValue]
  | int n => simpa [encodeValue, writeValue] using integer_ne_nil n.val
  | float x => simp [encodeValue, writeValue, double]
  | str s => simp [encodeValue, writeValue, text, (header_ne_nil (Octets.ofText s).length).1]
  | list items => simp [encodeValue_list, (header_ne_nil items.length).2.1]
  | object members => simp [encodeValue_object, (header_ne_nil members.length).2.2]

/-- A value written in fewer than 2^32 bytes is short. -/
theorem short_of_length_encodeValue (v : Value) (h : (encodeValue v).length < 4294967296) :
    v.Short := by
  induction v using Value.inductionOn with
  | null | bool | int | float => exact .of_scalar rfl trivial
  | str s =>
    have htext : encodeValue (.str s) = text s := by simp [encodeValue, writeValue]
    rw [htext] at h
    exact .of_scalar rfl (Nat.lt_of_le_of_lt (length_ofText_le s) h)
  | list items ih =>
    rw [encodeValue_list, List.length_append] at h
    have hcount : items.length ≤ (items.flatMap encodeValue).length :=
      length_le_length_flatMap fun v _ => encodeValue_ne_nil v
    intro lists objects u hu
    cases hu with
    | self =>
      show items.length < 4294967296
      omega
    | item hv hu =>
      have hitem := length_apply_le_flatMap (f := encodeValue) hv
      exact ih _ hv (by omega) hu
  | object members ih =>
    rw [encodeValue_object, List.length_append] at h
    have hne : ∀ m ∈ members, text m.1 ++ encodeValue m.2 ≠ [] := by
      intro m _ hnil
      exact encodeValue_ne_nil m.2 (List.append_eq_nil_iff.mp hnil).2
    have hcount := length_le_length_flatMap hne
    -- A member takes the bytes of its key and those of its value.
    have hmember : ∀ m ∈ members, (text m.1).length + (encodeValue m.2).length ≤
        (members.flatMap fun m => text m.1 ++ encodeValue m.2).length := by
      intro m hm
      have hform := length_apply_le_flatMap (f := fun m : String × Value =>
        text m.1 ++ encodeValue m.2) hm
      rwa [List.length_append] at hform
    intro lists objects u hu
    cases hu with
    | self =>
      refine ⟨by omega, fun m hm => ?_⟩
      have hkey := length_ofText_le m.1
      have := hmember m hm
      omega
    | member hm hu =>
      have := hmember _ hm
      exact ih _ hm (by omega) hu

/-! ### Messages -/

/-- **Bodies and sizes.**  All texts and containers of a message are shorter than `2^32` if its
body is. -/
theorem short_of_length_encode {m : Message} (h : (encode m).length < 4294967296) : m.Short := by
  cases m with
  | request r =>
    have hlength : (encodeRequest r).length < 4294967296 := h
    -- Every part of the message is shorter than the whole.
    rw [encodeRequest_eq] at hlength
    simp only [List.length_append] at hlength
    have hservice := length_ofText_le r.service
    have hmethod := length_ofText_le r.method
    have hcount : r.args.length ≤ (r.args.flatMap encodeValue).length :=
      length_le_length_flatMap fun v _ => encodeValue_ne_nil v
    constructor
    · intro s hs
      simp only [Message.texts, List.mem_cons, List.not_mem_nil, or_false] at hs
      rcases hs with rfl | rfl
      · omega
      · omega
    · show r.args.length < 4294967296
      omega
    · intro v hv
      have hvalue : (encodeValue v).length ≤ (r.args.flatMap encodeValue).length :=
        length_apply_le_flatMap hv
      exact short_of_length_encodeValue v (by omega)
  | response r =>
    have hlength : (encodeResponse r).length < 4294967296 := h
    rw [encodeResponse_eq] at hlength
    simp only [List.length_append] at hlength
    have htext := length_ofText_le r.text
    constructor
    · intro s hs
      rw [List.mem_singleton.mp hs]
      omega
    · show 1 < 4294967296
      decide
    · intro v hv
      rw [List.mem_singleton.mp hv]
      exact short_of_length_encodeValue r.data (by omega)

end WireCall.MsgPack
