import WireCall.Gzip.Crc32
import WireCall.Gzip.Inflate
import WireCall.Gzip.Deflate

namespace WireCall

/-!
# Gzip members

A member is a header, compressed blocks, and a trailer with the check value and the size of the
data.  `Gzip.compress` writes the plainest header; `Gzip.decompress` reads any valid one, takes one
member and ignores what follows it.  It gives up once the data exceeds a limit, whatever comes
after, and a member that just fits is still checked to its end.
-/

namespace Gzip

/-! ### Headers -/

/-- The header of a member that says nothing about its origin. -/
def plainHeader : Octets := [0x1f, 0x8b, 0x08, 0x00, 0x00, 0x00, 0x00, 0x00, 0x00, 0xff]

/-- The longest name or comment that is read. -/
def longestText : Nat := 65535

/-- Skips a text up to its zero byte. -/
def skipText : Nat → Octets → Except GzipFault Octets
  | _, [] => .error .truncated
  | fuel, b :: rest =>
    if b = 0 then .ok rest
    else
      match fuel with
      | 0 => .error .badHeader
      | fuel + 1 => skipText fuel rest

/-- Skips a field with its length in two bytes. -/
def skipExtra (bytes : Octets) : Except GzipFault Octets :=
  match bytes with
  | a :: b :: rest =>
    match Octets.split? (Octets.ofLittleEndian [a, b]) rest with
    | some (_, rest) => .ok rest
    | none => .error .truncated
  | _ => .error .truncated

/-- Checks the low half of the check value of the header, given all of it and what follows. -/
def checkHeader (whole rest : Octets) : Except GzipFault Octets :=
  match rest with
  | a :: b :: after =>
    let header := whole.take (whole.length - rest.length)
    if Octets.ofLittleEndian [a, b] = (Crc32.ofOctets header).toNat % 65536 then .ok after
    else .error .badHeader
  | _ => .error .truncated

/-- Skips the header.  The flags announce an extra field, a name, a comment and a check value, in
this order; the three reserved ones have to be clear. -/
def skipHeader (bytes : Octets) : Except GzipFault Octets :=
  match bytes with
  | 0x1f :: 0x8b :: 0x08 :: flags :: _ :: _ :: _ :: _ :: _ :: _ :: rest =>
    -- The six bytes after the flags tell when and how the member was made, and do not matter.
    if flags &&& 0xe0 ≠ 0 then .error .badHeader
    else do
      let rest ← if flags &&& 0x04 ≠ 0 then skipExtra rest else .ok rest
      let rest ← if flags &&& 0x08 ≠ 0 then skipText longestText rest else .ok rest
      let rest ← if flags &&& 0x10 ≠ 0 then skipText longestText rest else .ok rest
      if flags &&& 0x02 ≠ 0 then checkHeader bytes rest else .ok rest
  | _ => if bytes.length < 10 then .error .truncated else .error .badHeader

/-! ### Members -/

/-- The trailer for the data: its check value and its size modulo `2^32`. -/
def trailer (data : Octets) : Octets :=
  Octets.littleEndian 4 (Crc32.ofOctets data).toNat ++ Octets.littleEndian 4 data.length

/-- The data as one member. -/
def compress (data : Octets) : Octets :=
  plainHeader ++ Deflate.ofOctets data ++ trailer data

/-- The data of the member at the front of the bytes, when there are at most `limit` bytes of
it. -/
def decompress (limit : Nat) (bytes : Octets) : Except CompressionFault Octets :=
  match skipHeader bytes with
  | .error cause => .error (.malformed cause)
  | .ok body =>
    match Inflate.ofOctets limit (bytes.length - body.length) body with
    | .tooLong => .error (.exceeds limit)
    | .broken cause => .error (.malformed cause)
    | .complete out rest =>
      let data := out.toList
      match Octets.split? 8 rest with
      | none => .error (.malformed .truncated)
      | some (found, _) =>
        if found = trailer data then .ok data else .error (.malformed .badTrailer)

end Gzip
end WireCall
