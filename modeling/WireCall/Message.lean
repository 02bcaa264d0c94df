import WireCall.Value
import WireCall.Frame.Kind

namespace WireCall

/-!
# Requests and responses

The body of a frame is a request, which names a service, one of its methods and the arguments, or
the response to one.  A response repeats the id of its request and the two tags with which the
request was read.
-/

/-- A call of a method of a service. -/
structure Request where
  requestId : UInt64
  service : String
  method : String
  args : List Value
deriving BEq, Repr, Inhabited

namespace StatusCode

/-- The call succeeded. -/
def ok : Int16 := 200

/-- The call was understood and failed. -/
def failed : Int16 := 500

/-- The connection was refused admission. -/
def limited : Int16 := 700

end StatusCode

/-- The outcome of a call. -/
structure Response where
  requestId : UInt64
  code : Int16
  text : String
  compression : UInt8
  serialization : UInt8
  data : Value
deriving BEq, Repr, Inhabited

namespace Response

/-- The response of a call that returned `data`. -/
def ok (requestId : UInt64) (data : Value) : Response :=
  ⟨requestId, StatusCode.ok, "", 0, 0, data⟩

/-- The response of a call that failed. -/
def failure (requestId : UInt64) (code : Int16) (text : String) : Response :=
  ⟨requestId, code, text, 0, 0, .null⟩

/-- The response with the tags of the request that it answers. -/
def withTags (r : Response) (compression serialization : UInt8) : Response :=
  { r with compression, serialization }

/-- Whether the call succeeded. -/
def isOk (r : Response) : Bool := r.code == StatusCode.ok

/-- Whether admission was refused. -/
def isLimited (r : Response) : Bool := r.code == StatusCode.limited

end Response

/-- What the body of a frame holds. -/
inductive Message where
  | request (r : Request)
  | response (r : Response)
deriving BEq, Repr, Inhabited

namespace Message

/-- The kind of the frame for the message. -/
def kind : Message → FrameKind
  | request _ => .request
  | response _ => .response

/-- The id in the body. -/
def requestId : Message → UInt64
  | request r => r.requestId
  | response r => r.requestId

end Message
end WireCall
