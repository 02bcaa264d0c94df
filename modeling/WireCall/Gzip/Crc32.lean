import WireCall.Octets

namespace WireCall

/-!
# The 32-bit cyclic redundancy check

The check value of gzip: the bytes, lowest bit first, are divided by the polynomial whose reversed
bits are `0xedb88320`; the register starts at ones and is complemented at the end.
-/

namespace Crc32

/-- Takes `n` bits through the register. -/
def shift : Nat → UInt32 → UInt32
  | 0, register => register
  | n + 1, register =>
    shift n (if register &&& 1 = 1 then (register >>> 1) ^^^ 0xedb88320 else register >>> 1)

/-- What the register becomes for each value of its low byte. -/
def table : Array UInt32 := (Array.range 256).map fun i => shift 8 (UInt32.ofNat i)

/-- Takes a byte through the register. -/
def step (register : UInt32) (b : UInt8) : UInt32 :=
  table.getD ((register ^^^ b.toUInt32) &&& 0xff).toNat 0 ^^^ (register >>> 8)

/-- The check value of the bytes. -/
def ofOctets (bytes : Octets) : UInt32 :=
  bytes.foldl step 0xffffffff ^^^ 0xffffffff

end Crc32
end WireCall
