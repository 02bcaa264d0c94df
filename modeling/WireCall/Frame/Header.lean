import WireCall.Octets
import WireCall.Fault

namespace WireCall

/-!
# Frame headers

A frame starts with 17 bytes: a magic byte, the protocol version, the length of the whole frame,
the kind of the frame, the tags of the compression and of the serialization of its body, and the
id that ties a response to its request.  Numbers are written with the most significant byte first.

The length is kept in 32 bits, so `Header.forBody` wraps for a body of `2^32 - 17` bytes or more.
The two body tags are plain bytes here: an unknown one matters only once the body is opened.
-/

/-- The header of a frame. -/
structure Header where
  version : UInt8
  fullLength : UInt32
  kind : FrameKind
  compression : UInt8
  serialization : UInt8
  requestId : UInt64
deriving DecidableEq, Repr, Inhabited

namespace Header

/-- The bytes of a header. -/
def size : Nat := 17

/-- The protocol version of every frame. -/
def currentVersion : UInt8 := 1

/-- The length limit in force when none is configured: 64 MiB. -/
def defaultMaximum : UInt32 := 67108864

/-- The header of a frame with a body of `length` bytes. -/
def forBody (kind : FrameKind) (compression serialization : UInt8) (requestId : UInt64)
    (length : Nat) : Header where
  version := currentVersion
  fullLength := UInt32.ofNat (size + length)
  kind := kind
  compression := compression
  serialization := serialization
  requestId := requestId

/-- The number of body bytes that follow the header. -/
def bodyLength (h : Header) : Nat := h.fullLength.toNat - size

/-- The header as bytes. -/
def encode (h : Header) : Octets :=
  ProtocolFault.expectedMagic :: h.version ::
    (Octets.bigEndian 4 h.fullLength.toNat ++
      h.kind.tag :: h.compression :: h.serialization :: Octets.bigEndian 8 h.requestId.toNat)

/-- Every header takes the same number of bytes, whatever its fields hold. -/
@[simp] theorem length_encode (h : Header) : h.encode.length = size := by
  simp [encode, size]

/-- Reads a header that announces a frame of at most `maximum` bytes.  Magic, version, length and
kind are checked in this order, and the first that is wrong is reported. -/
def decode (maximum : UInt32) (bytes : Vector UInt8 17) : Except ProtocolFault Header :=
  let length := UInt32.ofNat (Octets.ofBigEndian [bytes[2], bytes[3], bytes[4], bytes[5]])
  if bytes[0] ≠ ProtocolFault.expectedMagic then .error (.magic bytes[0])
  else if bytes[1] ≠ currentVersion then .error (.version bytes[1])
  else if length.toNat < size then .error (.shorterThanHeader length)
  else if maximum < length then .error (.exceedsMaximum length maximum)
  else
    match FrameKind.ofTag? bytes[6] with
    | none => .error (.unknownKind bytes[6])
    | some kind => .ok {
        version := bytes[1]
        fullLength := length
        kind := kind
        compression := bytes[7]
        serialization := bytes[8]
        requestId := UInt64.ofNat (Octets.ofBigEndian [bytes[9], bytes[10], bytes[11], bytes[12],
          bytes[13], bytes[14], bytes[15], bytes[16]]) }

/-! ### What the bytes show -/

/-- The length that the four bytes behind the version announce. -/
def announced (bytes : Vector UInt8 17) : UInt32 :=
  UInt32.ofNat (bytes[2].toNat * 16777216 + bytes[3].toNat * 65536 + bytes[4].toNat * 256 +
    bytes[5].toNat)

/-- All that is wrong with the bytes of a header, in the order in which it is looked for. -/
def faults (maximum : UInt32) (bytes : Vector UInt8 17) : List ProtocolFault :=
  (if bytes[0] ≠ 0x1d then [.magic bytes[0]] else []) ++
  ((if bytes[1] ≠ 1 then [.version bytes[1]] else []) ++
  ((if (announced bytes).toNat < 17 then [.shorterThanHeader (announced bytes)] else []) ++
  ((if maximum < announced bytes then [.exceedsMaximum (announced bytes) maximum] else []) ++
  if bytes[6] > 3 then [.unknownKind bytes[6]] else [])))

/-- The numbers and tags of a header as they stand in the bytes. -/
structure Shows (bytes : Vector UInt8 17) (h : Header) : Prop where
  version : h.version = bytes[1]
  fullLength : h.fullLength = announced bytes
  kind : h.kind.tag = bytes[6]
  compression : h.compression = bytes[7]
  serialization : h.serialization = bytes[8]
  requestId : h.requestId.toNat = Octets.ofBigEndian [bytes[9], bytes[10], bytes[11], bytes[12],
    bytes[13], bytes[14], bytes[15], bytes[16]]

end Header
end WireCall
