namespace WireCall

/-!
# Integers of the wire

* `WireInt` is an integer that a message body can carry: a signed or an unsigned 64-bit one.
* `IntKind` names a machine integer type by its width and sign, with the range of its values.
* `IntKind.Carrier` is the type of the values of a kind.
-/

/-- An integer that a body can carry: at least `-2^63` and below `2^64`. -/
structure WireInt where
  val : Int
  lower : -9223372036854775808 ≤ val
  upper : val < 18446744073709551616
deriving DecidableEq, Repr

namespace WireInt

/-- The carried form of `n`, when `n` is in range. -/
def ofInt? (n : Int) : Option WireInt :=
  if h : -9223372036854775808 ≤ n ∧ n < 18446744073709551616 then some ⟨n, h.1, h.2⟩ else none

/-- Every unsigned 64-bit integer can be carried. -/
def ofUInt64 (n : UInt64) : WireInt :=
  ⟨n.toNat, by omega, by have := n.toNat_lt; omega⟩

/-- Every signed 64-bit integer can be carried. -/
def ofInt64 (n : Int64) : WireInt :=
  ⟨n.toInt, by have := n.le_toInt; omega, by have := n.toInt_lt; omega⟩

instance : Inhabited WireInt := ⟨⟨0, by decide, by decide⟩⟩

/-- An integer that the wire carries is in range of the wire. -/
@[simp] theorem ofInt?_val (n : WireInt) : ofInt? n.val = some n := by
  rw [ofInt?, dif_pos ⟨n.lower, n.upper⟩]

end WireInt

/-! ### Machine integer types -/

/-- A machine integer type. -/
inductive IntKind
  | i8 | i16 | i32 | i64 | i128 | u8 | u16 | u32 | u64 | u128
deriving DecidableEq, Repr

namespace IntKind

/-- The name of the type. -/
def name : IntKind → String
  | i8 => "i8" | i16 => "i16" | i32 => "i32" | i64 => "i64" | i128 => "i128"
  | u8 => "u8" | u16 => "u16" | u32 => "u32" | u64 => "u64" | u128 => "u128"

/-- The least value of the type. -/
def min : IntKind → Int
  | i8 => -128
  | i16 => -32768
  | i32 => -2147483648
  | i64 => -9223372036854775808
  | i128 => -170141183460469231731687303715884105728
  | u8 | u16 | u32 | u64 | u128 => 0

/-- The greatest value of the type. -/
def max : IntKind → Int
  | i8 => 127
  | i16 => 32767
  | i32 => 2147483647
  | i64 => 9223372036854775807
  | i128 => 170141183460469231731687303715884105727
  | u8 => 255
  | u16 => 65535
  | u32 => 4294967295
  | u64 => 18446744073709551615
  | u128 => 340282366920938463463374607431768211455

/-- The values of the type. -/
structure Carrier (k : IntKind) where
  val : Int
  lower : k.min ≤ val
  upper : val ≤ k.max
deriving DecidableEq, Repr

/-- The value `n` of the type, when `n` is in range. -/
def ofInt? (k : IntKind) (n : Int) : Option k.Carrier :=
  if h : k.min ≤ n ∧ n ≤ k.max then some ⟨n, h.1, h.2⟩ else none

/-- Zero belongs to every type. -/
def zero (k : IntKind) : k.Carrier :=
  ⟨0, by cases k <;> decide, by cases k <;> decide⟩

/-- A value of a kind of integer is in range of that kind. -/
@[simp] theorem ofInt?_val {k : IntKind} (n : k.Carrier) : k.ofInt? n.val = some n := by
  rw [ofInt?, dif_pos ⟨n.lower, n.upper⟩]

end IntKind
end WireCall
