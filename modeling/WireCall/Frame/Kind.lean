namespace WireCall

/-!
# Kinds of frames

The header of a frame names what the frame carries.  Only requests and responses have a body; the
two probes are reserved.
-/

/-- What a frame carries. -/
inductive FrameKind where
  | request | response | ping | pong
deriving DecidableEq, Repr, Inhabited

namespace FrameKind

/-- The byte for the kind. -/
def tag : FrameKind → UInt8
  | request => 0
  | response => 1
  | ping => 2
  | pong => 3

/-- The kind for a byte. -/
def ofTag? : UInt8 → Option FrameKind
  | 0 => some request
  | 1 => some response
  | 2 => some ping
  | 3 => some pong
  | _ => none

/-- The name of the kind. -/
def name : FrameKind → String
  | request => "Request"
  | response => "Response"
  | ping => "Ping"
  | pong => "Pong"

/-- Every kind of frame is found again by its tag. -/
@[simp] theorem ofTag?_tag (k : FrameKind) : ofTag? k.tag = some k := by cases k <;> rfl

/-- No two tags name one kind: a tag is read as a kind exactly when it is the kind's own. -/
theorem ofTag?_eq_some_iff {t : UInt8} {k : FrameKind} : ofTag? t = some k ↔ t = k.tag := by
  constructor
  · intro h
    simp only [ofTag?] at h
    split at h <;> cases h <;> rfl
  · rintro rfl
    exact ofTag?_tag k

end FrameKind
end WireCall
