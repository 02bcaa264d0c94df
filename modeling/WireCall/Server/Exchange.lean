import WireCall.Admission
import WireCall.Frame.Body
import WireCall.Service.Table

namespace WireCall

/-!
# One exchange, seen from the server

A connection carries one request and one response.  The server takes the first frame that arrives,
answers the request in it with the tags with which it was written, and closes the connection.  A
frame that holds no request is not answered at all, nor is a request whose method crashes.  A
connection that is not admitted is told so without a look at what it sent.

Main statements: what is not a request changes no instance and is met with silence
(`serve_of_receive_error`), and a refusal says the same whatever is sent
(`refuse` does not take the stream).
-/

/-- What a server needs to answer the requests of its connections. -/
structure Responder (σ : Type) where
  table : ServiceTable σ
  maximum : UInt32

/-- A request with the tags under which it arrived. -/
structure Received where
  request : Request
  compression : UInt8
  serialization : UInt8

namespace Responder

variable {σ : Type}

/-- The request at the front of a stream. -/
def receive (maximum : UInt32) (s : Inbound) : Except Fault Received := do
  let (frame, _) ← Frame.read maximum s
  match ← frame.message maximum with
  | .request request => return ⟨request, frame.header.compression, frame.header.serialization⟩
  | .response _ => .error (.protocol .requestExpected)

/-- The bytes of a response, written with the tags that it carries; none if no frame can be made
of it. -/
def write (r : Response) : Octets :=
  match (Message.response r).toFrame r.compression r.serialization with
  | .ok frame => frame.encode
  | .error _ => []

/-- Answers a request that was received. -/
def answer (h : Responder σ) (q : Received) (states : Instances σ) : Octets × Instances σ :=
  match h.table.dispatch q.request states with
  | (some r, states) => (write (r.withTags q.compression q.serialization), states)
  -- The method crashed: the connection is closed without a word.
  | (none, states) => ([], states)

/-- The bytes with which a connection is answered on which `s` arrives. -/
def serve (h : Responder σ) (s : Inbound) (states : Instances σ) : Octets × Instances σ :=
  match receive h.maximum s with
  | .error _ => ([], states)
  | .ok q => h.answer q states

/-- The bytes that a connection gets that is not admitted. -/
def refuse (cause : RateFault) : Octets :=
  write (.failure 0 StatusCode.limited (Fault.rateLimited cause).message)

/-- The bytes with which a connection is answered that has been decided on at the gate. -/
def serveEntry (h : Responder σ) (entry : Except RateFault Unit) (s : Inbound)
    (states : Instances σ) : Octets × Instances σ :=
  match entry with
  | .error cause => (refuse cause, states)
  | .ok () => h.serve s states

/-- What cannot be received as a request is not answered, and no instance is touched. -/
theorem serve_of_receive_error {h : Responder σ} {s : Inbound} {fault : Fault}
    (refused : receive h.maximum s = .error fault) (states : Instances σ) :
    h.serve s states = ([], states) := by
  simp [serve, refused]

end Responder
end WireCall
