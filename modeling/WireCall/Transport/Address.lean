import WireCall.Number.Decimal

namespace WireCall

/-!
# Addresses

An address is written as a host and a port with a colon between them.  The last colon counts, so a
host may hold colons; the port is a 16-bit decimal, perhaps after a plus sign.
-/

/-- Where a peer listens. -/
structure Address where
  host : String
  port : UInt16
deriving DecidableEq, Repr

namespace Address

/-- What stands before and after the last colon. -/
def splitLast? : List Char → Option (List Char × List Char)
  | [] => none
  | c :: cs =>
    match splitLast? cs with
    | some (host, port) => some (c :: host, port)
    | none => if c = ':' then some ([], cs) else none

/-- The number of a port. -/
def port? (digits : List Char) : Option UInt16 := do
  let n ← Decimal.read? (match digits with
    | '+' :: digits => digits
    | digits => digits)
  if n < 65536 then some (UInt16.ofNat n) else none

/-- The address that a text spells. -/
def ofText? (s : String) : Option Address := do
  let (host, digits) ← splitLast? s.toList
  let port ← port? digits
  if host.contains '\x00' then none else some ⟨String.ofList host, port⟩

end Address
end WireCall
