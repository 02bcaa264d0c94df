import WireCall.Client.Exchange
import WireCall.Proofs.Frame.Delivery

namespace WireCall

/-!
# What a client accepts

A client accepts a response if the stream delivers it and it carries the id of the request, or says
that admission was refused (`Answers`).  `receive_eq_ok_iff` says that the client accepts nothing
else, and `receive_ne_cancelled` that a stream that has ended never leaves it waiting.
-/

/-- The stream delivers `r`, which carries the id `sent` or says that admission was refused. -/
def Answers (maximum : UInt32) (sent : UInt64) (s : Inbound) (r : Response) : Prop :=
  (∃ f c z, Delivers maximum s f c z (.response r)) ∧
    (r.requestId = sent ∨ r.code = StatusCode.limited)

namespace Client

variable {maximum : UInt32} {sent : UInt64} {a : Arrival} {m : Message} {r : Response}

/-- A reply is read exactly when the stream delivers its message. -/
theorem readReply_eq_ok_iff :
    readReply maximum a = .ok m ↔ ∃ f c z, Delivers maximum a.pieces f c z m := by
  rw [delivers_iff, readReply]
  constructor
  · intro h
    split at h
    · rename_i f rest hread
      exact ⟨f, rest, hread, h⟩
    · cases h
    · cases h
  · rintro ⟨f, rest, hread, hmessage⟩
    rw [hread]
    exact hmessage

/-- A message is accepted exactly when it is a response that bears the id sent or turns the caller
away. -/
theorem accept_eq_ok_iff : accept sent m = .ok r ↔
    m = .response r ∧ (r.requestId = sent ∨ r.code = StatusCode.limited) := by
  have hlimited : ∀ r : Response, r.isLimited = true ↔ r.code = StatusCode.limited :=
    fun r => beq_iff_eq
  cases m with
  | request q =>
    constructor
    · intro h
      cases h
    · rintro ⟨h, -⟩
      cases h
  | response r' =>
    rw [accept]
    constructor
    · intro h
      split at h
      · rename_i haccepted
        obtain rfl := Except.ok.inj h
        exact ⟨rfl, haccepted.imp_right (hlimited r').mp⟩
      · cases h
    · -- A response that bears the id sent, or turns the caller away, passes the guard.
      rintro ⟨hr, haccepted⟩
      obtain rfl := Message.response.inj hr
      exact if_pos (haccepted.imp_right (hlimited r').mpr)

/-- A client accepts exactly the answers to its request. -/
theorem receive_eq_ok_iff :
    receive maximum sent a = .ok r ↔ Answers maximum sent a.pieces r := by
  rw [receive, bind_eq_ok_iff]
  constructor
  · rintro ⟨m, hreply, haccept⟩
    obtain ⟨rfl, haccepted⟩ := accept_eq_ok_iff.mp haccept
    exact ⟨readReply_eq_ok_iff.mp hreply, haccepted⟩
  · rintro ⟨hdelivers, haccepted⟩
    exact ⟨.response r, readReply_eq_ok_iff.mpr hdelivers, accept_eq_ok_iff.mpr ⟨rfl, haccepted⟩⟩

/-! ### Failures -/

/-- Reading a frame never fails as if the time were over. -/
theorem read_ne_cancelled (s : Inbound) : Frame.read maximum s ≠ .error .cancelled := by
  intro h
  rw [Frame.read] at h
  split at h
  · cases h
  · split at h
    · cases h
    · split at h <;> cases h

theorem message_ne_cancelled (f : Frame) : f.message maximum ≠ .error .cancelled := by
  by_cases hkind : f.header.kind = .request ∨ f.header.kind = .response
  · -- The fault comes from one of the four steps, and each of them names its own.
    rw [Frame.message_of_body hkind, ne_eq, bind_eq_error_iff, mapError_eq_error_iff]
    rintro (⟨e, -, h⟩ | ⟨c, -, h⟩)
    · cases h
    rw [bind_eq_error_iff, mapError_eq_error_iff] at h
    rcases h with ⟨e, -, h⟩ | ⟨z, -, h⟩
    · cases h
    rw [bind_eq_error_iff, mapError_eq_error_iff] at h
    rcases h with ⟨e, -, h⟩ | ⟨plain, -, h⟩
    · cases h
    obtain ⟨e, -, h⟩ := mapError_eq_error_iff.mp h
    cases h
  · have hprobe : f.header.kind = .ping ∨ f.header.kind = .pong := by
      cases hk : f.header.kind <;> simp [hk] at hkind ⊢
    rw [Frame.message_of_probe hprobe]
    nofun

theorem accept_ne_cancelled : accept sent m ≠ .error .cancelled := by
  cases m with
  | request q => nofun
  | response r =>
    rw [accept]
    split <;> nofun

/-- What a client makes of a stream that has ended is a response or a fault of the stream. -/
theorem receive_ne_cancelled (hended : a.ended = true) :
    receive maximum sent a ≠ .error .cancelled := by
  rw [receive, ne_eq, bind_eq_error_iff]
  rintro (h | ⟨m, -, h⟩)
  · rw [readReply] at h
    split at h
    · exact message_ne_cancelled _ h
    · rw [if_pos hended] at h
      cases h
    · rename_i fault _ hread
      obtain rfl : fault = .cancelled := Except.error.inj h
      exact read_ne_cancelled a.pieces hread
  · exact accept_ne_cancelled h

end Client
end WireCall
