import WireCall.Settings.Client
import WireCall.Frame.Body
import WireCall.Transport.Network

namespace WireCall

/-!
# One exchange, seen from the client

A client writes one request frame and takes the first frame that comes back.  That frame is the
answer only if it holds a response that carries the id of the request; a refusal of admission is
sent before the request has been read, and so is accepted with any id.
-/

namespace Client

/-- The frame of a request. -/
def requestFrame (s : ClientSettings) (r : Request) : Except Fault Frame :=
  (Message.request r).toFrame s.compression.tag s.serialization.tag

/-- The message at the front of what has arrived.  If a frame is still incomplete although the peer
may go on, the time for the call is over. -/
def readReply (maximum : UInt32) (a : Arrival) : Except Fault Message :=
  match Frame.read maximum a.pieces with
  | .ok (frame, _) => frame.message maximum
  -- Only the end of the stream is a transport fault here.
  | .error (.transport cause) => .error (if a.ended then .transport cause else .cancelled)
  | .error fault => .error fault

/-- The response to the request `sent`, if the message is one. -/
def accept (sent : UInt64) : Message → Except Fault Response
  | .request _ => .error (.protocol .responseExpected)
  | .response r =>
    if r.requestId = sent ∨ r.isLimited then .ok r
    else .error (.protocol (.idMismatch r.requestId sent))

/-- The response to the request `sent` in what has arrived. -/
def receive (maximum : UInt32) (sent : UInt64) (a : Arrival) : Except Fault Response := do
  accept sent (← readReply maximum a)

end Client
end WireCall
