import WireCall.Frame.Kind
import WireCall.Mismatch

namespace WireCall

/-!
# Faults

Every operation that can fail fails with a `Fault`.  Its constructors are the stages at which a
call can go wrong, each with the cause at that stage; the wording is in `Fault.message` and the
message functions of the causes, and nowhere else.  `Fault.isDispatch` tells the faults of a call
whose request was understood from those that end a connection.
-/

/-! ### Causes -/

/-- The kinds of socket failures. -/
inductive IoKind where
  | unexpectedEof | connectionRefused | invalidInput | timedOut | networkUnreachable | other
deriving DecidableEq, Repr

/-- A socket failure. -/
structure IoFault where
  kind : IoKind
  text : String
deriving DecidableEq, Repr

/-- The stream ended inside a frame or before it. -/
def IoFault.endOfStream : IoFault := ⟨.unexpectedEof, "early eof"⟩

/-- A frame that breaks the protocol. -/
inductive ProtocolFault where
  | magic (seen : UInt8)
  | version (seen : UInt8)
  | shorterThanHeader (length : UInt32)
  | exceedsMaximum (length maximum : UInt32)
  | unknownKind (tag : UInt8)
  | unsupportedKind (kind : FrameKind)
  | requestExpected
  | responseExpected
  | idMismatch (answered sent : UInt64)
  | other (text : String)
deriving DecidableEq, Repr

/-- Why the bytes of a body do not decode. -/
inductive BodyFault where
  | truncated
  | reservedMarker
  | wrongKind
  | outOfRange
  | notText
  | tooDeep
  | missingField (name : String)
  | repeatedField (name : String)
  | surplusElements
  | varintTooLong
  | badKey
  | badWireType
  | unmatchedGroup
deriving DecidableEq, Repr

/-- A body that cannot be written or read. -/
inductive CodecFault where
  | noSerializer (tag : UInt8)
  | noShape (kind : FrameKind)
  | outOfRange (field : String) (value : Int)
  | malformed (cause : BodyFault)
  | unsendable (cause : Unsendable)
  | mismatch (cause : Mismatch)
  | other (text : String)
deriving Repr

/-- Why bytes are not a compressed body. -/
inductive GzipFault where
  | truncated
  | badHeader
  | badBlock
  | badTrailer
deriving DecidableEq, Repr

/-- A body that cannot be compressed or decompressed. -/
inductive CompressionFault where
  | noCompressor (tag : UInt8)
  | exceeds (limit : Nat)
  | malformed (cause : GzipFault)
  | other (text : String)
deriving DecidableEq, Repr

/-- Why admission was refused. -/
inductive RateFault where
  | noToken
  | noTokenWithin (milliseconds : Nat)
  | other (text : String)
deriving DecidableEq, Repr

/-- Why a setup step was refused. -/
inductive RegistrationFault where
  | emptyName
  | alreadyRegistered (service : String)
  | noMethods (service : String)
  | serverRunning (service : String)
  | rateNotPositive
  | burstNotPositive
  | other (text : String)
deriving DecidableEq, Repr

/-- A failure of service discovery. -/
inductive RegistryFault where
  | notCreated
  | noAddress (service : String)
  | other (text : String)
deriving DecidableEq, Repr

/-! ### Faults -/

/-- A failed operation. -/
inductive Fault where
  | transport (cause : IoFault)
  | protocol (cause : ProtocolFault)
  | codec (cause : CodecFault)
  | compression (cause : CompressionFault)
  | serviceNotFound (service : String)
  | methodNotFound (service method : String)
  | argumentConversion (method : String) (cause : Mismatch)
  | application (text : String)
  | rateLimited (cause : RateFault)
  | registration (cause : RegistrationFault)
  | registry (cause : RegistryFault)
  | remote (code : Int16) (text : String)
  | cancelled
  | retriesExhausted (attempts : Nat) (errors : List Fault)
  | connectionClosed
deriving Repr

instance : Inhabited Fault := ⟨.connectionClosed⟩

/-! ### Wording -/

/-- A byte in base 16 with two digits. -/
def hexByte (b : UInt8) : String :=
  "0x" ++ (if b < 16 then "0" else "") ++ Text.hexadecimal b.toNat

namespace ProtocolFault

/-- The first byte of every frame. -/
def expectedMagic : UInt8 := 0x1d

/-- The fault in words. -/
def message : ProtocolFault → String
  | magic seen => s!"magic number error: expected {hexByte expectedMagic}, got {hexByte seen}"
  | version seen => s!"unsupported protocol version {seen}"
  | shorterThanHeader length => s!"frame length {length} shorter than header"
  | exceedsMaximum length maximum => s!"frame length {length} exceeds maximum {maximum}"
  | unknownKind tag => s!"unknown message type {tag}"
  | unsupportedKind kind => s!"{kind.name} frames are not supported"
  | requestExpected => "expected a request frame, got a response"
  | responseExpected => "expected a response frame, got a request"
  | idMismatch answered sent => s!"response id {answered} does not match request id {sent}"
  | other text => text

end ProtocolFault

/-- The fault in words. -/
def BodyFault.message : BodyFault → String
  | truncated => "the body ends early"
  | reservedMarker => "reserved marker"
  | wrongKind => "a value of another kind is expected"
  | outOfRange => "an integer is out of range"
  | notText => "a text is not well-formed"
  | tooDeep => "the nesting is too deep"
  | missingField name => s!"field {name} is missing"
  | repeatedField name => s!"field {name} is repeated"
  | surplusElements => "there are surplus elements"
  | varintTooLong => "a variable-length integer is too long"
  | badKey => "a field key is invalid"
  | badWireType => "a field has the wrong wire type"
  | unmatchedGroup => "a group end is unmatched"

/-- The fault in words. -/
def CodecFault.message : CodecFault → String
  | noSerializer tag => s!"no serializer for tag {tag}"
  | noShape kind => s!"no body shape for {kind.name}"
  | outOfRange field value => s!"{field} out of range: {value}"
  | malformed cause => cause.message
  | unsendable cause => cause.message
  | mismatch cause => cause.message
  | other text => text

/-- The fault in words. -/
def GzipFault.message : GzipFault → String
  | truncated => "the stream ends early"
  | badHeader => "invalid header"
  | badBlock => "corrupt block"
  | badTrailer => "the check value does not match"

/-- The fault in words. -/
def CompressionFault.message : CompressionFault → String
  | noCompressor tag => s!"no compressor for tag {tag}"
  | exceeds limit => s!"decompressed body exceeds {limit} bytes"
  | malformed cause => cause.message
  | other text => text

/-- The fault in words. -/
def RateFault.message : RateFault → String
  | noToken => "no token available"
  | noTokenWithin milliseconds => s!"no token available within {milliseconds}ms"
  | other text => text

/-- The fault in words. -/
def RegistrationFault.message : RegistrationFault → String
  | emptyName => "service name must not be empty"
  | alreadyRegistered service => s!"service {service} already registered"
  | noMethods service => s!"service {service} exposes no methods"
  | serverRunning service => s!"cannot register {service} while the server is running"
  | rateNotPositive => "limiter rate must be positive"
  | burstNotPositive => "limiter burst must be positive"
  | other text => text

/-- The fault in words. -/
def RegistryFault.message : RegistryFault → String
  | notCreated => "registry client not created"
  | noAddress service => s!"no address for {service}"
  | other text => text

namespace Fault

mutual

/-- The fault in words. -/
def message : Fault → String
  | .transport cause => s!"Transport error: {cause.text}"
  | .protocol cause => s!"Protocol error: {cause.message}"
  | .codec cause => s!"Codec error: {cause.message}"
  | .compression cause => s!"Compression error: {cause.message}"
  | .serviceNotFound service => s!"no service found: {service}"
  | .methodNotFound service method => s!"no service method found: {service}.{method}"
  | .argumentConversion method cause =>
    s!"argument conversion failed for {method}: {cause.message}"
  | .application text => text
  | .rateLimited cause => s!"rate limited: {cause.message}"
  | .registration cause => s!"Registration error: {cause.message}"
  | .registry cause => s!"Registry error: {cause.message}"
  | .remote code text => s!"remote call failed with code {code.toInt}: {text}"
  | .cancelled => "call cancelled: deadline exceeded"
  | .retriesExhausted attempts errors =>
    s!"all {attempts} attempts failed; last error: {lastMessage errors}"
  | .connectionClosed => "Connection closed"

/-- The last of the faults in words. -/
def lastMessage : List Fault → String
  | [] => "none"
  | [error] => message error
  | _ :: errors => lastMessage errors

end

/-- Whether the fault is one of a call whose request was understood: the service, its method, the
arguments or the method itself refused it. -/
def isDispatch : Fault → Bool
  | .serviceNotFound _ | .methodNotFound _ _ | .argumentConversion _ _ | .application _ => true
  | _ => false

end Fault
end WireCall
