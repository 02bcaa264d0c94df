import WireCall.Service.Async

namespace WireCall

/-!
# A catalogue of methods

Methods by which tables, servers and clients are tried out: arithmetic, a running total, methods
that return what they are given at every shape, and methods that fail in each possible way.  All of
them work on an instance whose state is the total.
-/

namespace Catalogue

/-- The state of an instance: a total that starts at zero. -/
abbrev Total := IntKind.Carrier .i64

/-- A method on a total. -/
abbrev TotalMethod := Method Total

/-! ### Shapes -/

/-- 64-bit integers with a sign. -/
abbrev integer : Shape := .int .i64

/-- A point: `y` may be left out, and so may the label. -/
def point : Shape :=
  .record "Point" (.cons "x" false integer (.cons "y" true integer
    (.cons "label" false (.optional .text) .nil)))

/-- A sum, a count and a mean. -/
def summary : Shape :=
  .record "Summary" (.cons "sum" false integer (.cons "count" false (.int .u64)
    (.cons "mean" false .double .nil)))

/-- A tuple of six positions of different types. -/
def six : Shape :=
  .tuple (.cons .bool (.cons integer (.cons .double (.cons .text
    (.cons (.list (.int .u8)) (.cons (.optional integer) .nil))))))

/-! ### Arithmetic -/

/-- The number `n`, when it is one of the kind. -/
def checked (kind : IntKind) (n : Int) : Outcome String kind.Carrier :=
  match kind.ofInt? n with
  | some a => .returned a
  | none => .failed "integer overflow"

/-- The sum of two integers. -/
def add : TotalMethod :=
  .stateless (.two integer integer) integer fun ((a, b, _) : Total × Total × Unit) =>
    checked .i64 (a.val + b.val)

/-- The quotient of two integers, rounded towards zero. -/
def div : TotalMethod :=
  .stateless (.two integer integer) integer fun ((a, b, _) : Total × Total × Unit) =>
    if b.val = 0 then .failed "division by zero" else checked .i64 (a.val.tdiv b.val)

/-- The quotient of two floats. -/
def divFloats : TotalMethod :=
  .stateless (.two .double .double) .double fun ((a, b, _) : Binary64 × Binary64 × Unit) =>
    if b.isZero then .failed "division by zero" else .returned (a.quotient b)

/-- The sum of integers, added from left to right. -/
def sumFrom (acc : Total) : List Total → Outcome String Total
  | [] => .returned acc
  | n :: ns =>
    match checked .i64 (acc.val + n.val) with
    | .returned acc => sumFrom acc ns
    | outcome => outcome

/-- The sum of a list of integers. -/
def sum : TotalMethod :=
  .stateless (.one (.list integer)) integer fun ((ns, _) : List Total × Unit) =>
    sumFrom (IntKind.zero .i64) ns

/-- The mean of `count` numbers whose sum is given; that of no numbers is no number. -/
def mean (sum : Int) (count : Nat) : Binary64 :=
  if count = 0 then .nan else (Binary64.ofInt sum).quotient (.ofInt count)

/-- Sum, count and mean of a list of short integers. -/
def summarize : TotalMethod :=
  .stateless (.one (.list (.int .i32))) summary
    fun ((ns, _) : List (IntKind.Carrier .i32) × Unit) =>
      let sum := ns.foldl (fun acc n => acc + n.val) 0
      match IntKind.ofInt? .i64 sum, IntKind.ofInt? .u64 ns.length with
      | some total, some count => .returned (total, count, mean sum ns.length, ())
      | _, _ => .failed "integer overflow"

/-! ### The total -/

/-- Adds to the total and returns it; where it would overflow it stays. -/
def increase : TotalMethod where
  params := .one integer
  result := integer
  body := fun ((n, _) : Total × Unit) (total : Total) =>
    match checked .i64 (total.val + n.val) with
    | .returned total => (.returned total, total)
    | outcome => (outcome, total)

/-- The total. -/
def read : TotalMethod where
  params := .unit
  result := integer
  body := fun _ (total : Total) => (.returned total, total)

/-! ### Identities -/

/-- Returns what it is given as its parameters. -/
def echoAll (s : Shape) : TotalMethod := .stateless s s fun a => .returned a

/-- Returns its one argument. -/
def echo (s : Shape) : TotalMethod :=
  .stateless (.one s) s fun ((a, _) : s.Carrier × Unit) => .returned a

/-! ### Other results -/

/-- The number of bytes of a text. -/
def length : TotalMethod :=
  .stateless (.one .text) (.int .u64) fun ((s, _) : String × Unit) =>
    checked .u64 s.utf8ByteSize

/-- Returns always the same. -/
def constant (result : Shape) (a : result.Carrier) : TotalMethod :=
  .stateless .unit result fun _ => .returned a

/-- Fails with the text that it is given. -/
def failWith : TotalMethod :=
  .stateless (.one .text) .unit fun ((s, _) : String × Unit) => .failed s

/-- Crashes. -/
def crash : TotalMethod := .stateless .unit .unit fun _ => .crashed

/-- The square of an integer, at twice its width. -/
def square : TotalMethod :=
  .stateless (.one (.int .u64)) (.int .u128) fun ((n, _) : IntKind.Carrier .u64 × Unit) =>
    checked .u128 (n.val * n.val)

/-- A list of floats of which only the last is finite. -/
def notFinite : TotalMethod :=
  constant (.list .double) ([.nan, .infinity, .negativeZero] : List Binary64)

/-- A mapping whose key is a pair. -/
def pairKey : TotalMethod :=
  constant (.mapping (.two integer integer) integer)
    ([((IntKind.zero .i64, IntKind.zero .i64, ()), IntKind.zero .i64)] :
      List ((Total × Total × Unit) × Total))

/-! ### By name -/

/-- A method that waits before it answers. -/
def awaited (m : TotalMethod) : Addition Total := .asyncMethod (.waiting m)

/-- A method that answers at once. -/
def prompt (m : TotalMethod) : Addition Total := .method m

/-- What the catalogue lists under a name. -/
def addition? : String → Option (Addition Total)
  | "add" => prompt add
  | "a_add" => awaited add
  | "div" => prompt div
  | "fdiv" => prompt divFloats
  | "sum" => prompt sum
  | "stats" => prompt summarize
  | "len" => prompt length
  | "version" => prompt (constant .text "1.0")
  | "nothing" => prompt (constant .unit ())
  | "incr" => prompt increase
  | "a_incr" => awaited increase
  | "get" => prompt read
  | "id_bool" => prompt (echo .bool)
  | "id_i8" => prompt (echo (.int .i8))
  | "id_i16" => prompt (echo (.int .i16))
  | "id_i32" => prompt (echo (.int .i32))
  | "id_i64" => prompt (echo (.int .i64))
  | "id_u8" => prompt (echo (.int .u8))
  | "id_u16" => prompt (echo (.int .u16))
  | "id_u32" => prompt (echo (.int .u32))
  | "id_u64" => prompt (echo (.int .u64))
  | "a_sleep" => awaited (echo (.int .u64))
  | "id_f32" => prompt (echo .single)
  | "id_f64" => prompt (echo .double)
  | "id_char" => prompt (echo .char)
  | "id_string" => prompt (echo .text)
  | "a_echo" => awaited (echo .text)
  | "id_value" => prompt (echo .any)
  | "id_unit" => prompt (echo .unit)
  | "id_opt" => prompt (echo (.optional integer))
  | "id_map" => prompt (echo (.mapping .text integer))
  | "id_array3" => prompt (echo (.array 3 integer))
  | "id_pair" => prompt (echo (.two integer .text))
  | "id_list" => prompt (echo (.list (.optional .text)))
  | "id_point" => prompt (echo point)
  | "six" => prompt (echoAll six)
  | "whole_list" => prompt (echoAll (.list .any))
  | "whole_value" => prompt (echoAll .any)
  | "a_value" => awaited (echoAll .any)
  | "whole_opt" => prompt (echoAll (.optional (.one integer)))
  | "whole_point" => prompt (echoAll point)
  | "fail" => prompt failWith
  | "a_fail" => awaited failWith
  | "ret_nan" => prompt notFinite
  | "ret_bad_key" => prompt pairKey
  | "a_bad_key" => awaited pairKey
  | "ret_i128" => prompt square
  | "panic" => prompt crash
  | _ => none

end Catalogue
end WireCall
