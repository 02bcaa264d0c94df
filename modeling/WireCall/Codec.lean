import WireCall.MsgPack.Writer
import WireCall.MsgPack.Reader
import WireCall.Protobuf.Writer
import WireCall.Protobuf.Reader
import WireCall.Gzip.Member

namespace WireCall

/-!
# Serializations and compressions

The header of a frame names by two tags how its body was serialized and then compressed.
`Serialization` and `Compression` are the known ways; a tag that names none is a fault of the codec
or of the compression.
-/

/-- How a message becomes bytes. -/
inductive Serialization where
  | msgPack | protobuf
deriving DecidableEq, Repr, Inhabited

namespace Serialization

/-- The byte for the serialization. -/
def tag : Serialization → UInt8
  | msgPack => 0
  | protobuf => 1

/-- The serialization for a byte. -/
def ofTag (tag : UInt8) : Except CodecFault Serialization :=
  match tag with
  | 0 => .ok msgPack
  | 1 => .ok protobuf
  | _ => .error (.noSerializer tag)

/-- The name of the serialization. -/
def name : Serialization → String
  | msgPack => "msgpack"
  | protobuf => "protobuf"

/-- All serializations. -/
def all : List Serialization := [msgPack, protobuf]

/-- The message as bytes. -/
def encode : Serialization → Message → Octets
  | msgPack => MsgPack.encode
  | protobuf => Protobuf.encode

/-- The message of a frame of the given kind. -/
def decode : Serialization → FrameKind → Octets → Except CodecFault Message
  | msgPack => MsgPack.decode
  | protobuf => Protobuf.decode

/-- Every serialization is found again by its tag. -/
@[simp] theorem ofTag_tag (s : Serialization) : ofTag s.tag = .ok s := by cases s <;> rfl

end Serialization

/-- How the bytes of a body are compressed. -/
inductive Compression where
  | gzip
deriving DecidableEq, Repr, Inhabited

namespace Compression

/-- The byte for the compression. -/
def tag : Compression → UInt8
  | gzip => 0

/-- The compression for a byte. -/
def ofTag (tag : UInt8) : Except CompressionFault Compression :=
  match tag with
  | 0 => .ok gzip
  | _ => .error (.noCompressor tag)

/-- The name of the compression. -/
def name : Compression → String
  | gzip => "gzip"

/-- All compressions. -/
def all : List Compression := [gzip]

/-- The compressed bytes. -/
def compress : Compression → Octets → Octets
  | gzip => Gzip.compress

/-- The bytes before compression, when there are at most `limit` of them. -/
def decompress : Compression → Nat → Octets → Except CompressionFault Octets
  | gzip => Gzip.decompress

/-- Every compression is found again by its tag. -/
@[simp] theorem ofTag_tag (c : Compression) : ofTag c.tag = .ok c := by
  cases c
  rfl

end Compression
end WireCall
