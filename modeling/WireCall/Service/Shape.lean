import WireCall.Mismatch

namespace WireCall

/-!
# Shapes of typed values

Methods take and return typed values.  A `Shape` names a type that a method may use, and
`Shape.Carrier` is that type: its tuples are nested pairs and its records are the tuples of their
fields.  How typed values correspond to dynamic ones is in `Service.Convert`.
-/

mutual

/-- A type of parameters and results. -/
inductive Shape where
  | unit
  | bool
  | int (kind : IntKind)
  | single
  | double
  | char
  | text
  | any
  | optional (content : Shape)
  | list (item : Shape)
  | array (size : Nat) (item : Shape)
  | mapping (key item : Shape)
  | tuple (parts : Shapes)
  | record (name : String) (fields : Fields)

/-- The types of the positions of a tuple. -/
inductive Shapes where
  | nil
  | cons (head : Shape) (tail : Shapes)

/-- The fields of a record: their names, whether an absent one stands for zero, and their types. -/
inductive Fields where
  | nil
  | cons (name : String) (defaulted : Bool) (head : Shape) (tail : Fields)

end

namespace Shape

/-- The tuple of one type. -/
def one (s : Shape) : Shape := .tuple (.cons s .nil)

/-- The tuple of two types. -/
def two (s t : Shape) : Shape := .tuple (.cons s (.cons t .nil))

end Shape

/-- The number of positions. -/
def Shapes.size : Shapes → Nat
  | .nil => 0
  | .cons _ tail => tail.size + 1

/-- The number of fields. -/
def Fields.size : Fields → Nat
  | .nil => 0
  | .cons _ _ _ tail => tail.size + 1

/-! ### Carriers -/

mutual

/-- The values of a shape. -/
def Shape.Carrier : Shape → Type
  | .unit => Unit
  | .bool => Bool
  | .int kind => kind.Carrier
  | .single => Binary32
  | .double => Binary64
  | .char => Char
  | .text => String
  | .any => Value
  | .optional content => Option content.Carrier
  | .list item => List item.Carrier
  | .array size item => { items : List item.Carrier // items.length = size }
  | .mapping key item => List (key.Carrier × item.Carrier)
  | .tuple parts => parts.Carrier
  | .record _ fields => fields.Carrier

/-- A value for each position. -/
def Shapes.Carrier : Shapes → Type
  | .nil => Unit
  | .cons head tail => head.Carrier × tail.Carrier

/-- A value for each field. -/
def Fields.Carrier : Fields → Type
  | .nil => Unit
  | .cons _ _ head tail => head.Carrier × tail.Carrier

end

mutual

/-- The value that stands for an absent one: no amount, no text, nothing inside. -/
def Shape.zero : (s : Shape) → s.Carrier
  | .unit => ()
  | .bool => false
  | .int kind => kind.zero
  | .single => (⟨0⟩ : Binary32)
  | .double => (⟨0⟩ : Binary64)
  | .char => '\x00'
  | .text => ""
  | .any => Value.null
  | .optional _ => none
  | .list _ => []
  | .array size item => ⟨List.replicate size item.zero, List.length_replicate⟩
  | .mapping _ _ => []
  | .tuple parts => parts.zero
  | .record _ fields => fields.zero

/-- Zero at each position. -/
def Shapes.zero : (ss : Shapes) → ss.Carrier
  | .nil => ()
  | .cons head tail => (head.zero, tail.zero)

/-- Zero at each field. -/
def Fields.zero : (fs : Fields) → fs.Carrier
  | .nil => ()
  | .cons _ _ head tail => (head.zero, tail.zero)

end

end WireCall
