import WireCall.Duration

namespace WireCall

/-!
# Deadlines

A call may carry the instant at which it ends.  Instants are nanoseconds since the start of the
clock, whose seconds fit 63 bits; the instant a duration from now may be out of reach of the clock
(`Instant.after?`).

Main statement: a deadline has passed exactly when no time remains
(`isExpired_iff_remaining_eq_zero`).
-/

/-- A reading of the clock. -/
structure Instant where
  nanos : Nat
  bound : nanos < 9223372036854775808000000000
deriving DecidableEq, Repr

namespace Instant

/-- The start of the clock. -/
def start : Instant := ⟨0, by decide⟩

instance : Inhabited Instant := ⟨start⟩

/-- The instant `d` later, if the clock reaches it. -/
def after? (t : Instant) (d : Duration) : Option Instant :=
  if h : t.nanos + d.nanos < 9223372036854775808000000000 then some ⟨t.nanos + d.nanos, h⟩
  else none

/-- The time from `t` to the later instant `u`; none if `u` is earlier. -/
def timeTo (t u : Instant) : Duration :=
  ⟨u.nanos - t.nanos, by have := u.bound; omega⟩

end Instant

/-- What a call carries: the instant at which it ends, if there is one. -/
structure CallContext where
  deadline : Option Instant
deriving DecidableEq, Repr, Inhabited

namespace CallContext

/-- A call without a deadline. -/
def background : CallContext := ⟨none⟩

/-- A call that ends at `deadline`. -/
def withDeadline (deadline : Instant) : CallContext := ⟨some deadline⟩

/-- A call that ends `patience` after `now`, if the clock reaches that. -/
def withTimeout? (now : Instant) (patience : Duration) : Option CallContext :=
  (now.after? patience).map withDeadline

/-- The time that remains at `now`. -/
def remaining (c : CallContext) (now : Instant) : Option Duration :=
  c.deadline.map now.timeTo

/-- Whether the deadline has passed at `now`. -/
def isExpired (c : CallContext) (now : Instant) : Bool :=
  c.deadline.any fun deadline => deadline.nanos ≤ now.nanos

/-- A context is expired exactly when nothing remains of its time, so the two readings agree. -/
theorem isExpired_iff_remaining_eq_zero (c : CallContext) (now : Instant) :
    c.isExpired now = true ↔ c.remaining now = some .zero := by
  cases h : c.deadline with
  | none => simp [isExpired, remaining, h]
  | some deadline =>
    simp only [isExpired, remaining, h, Option.any_some, decide_eq_true_eq, Option.map_some,
      Option.some.injEq, Instant.timeTo, Duration.zero, Duration.mk.injEq]
    omega

end CallContext
end WireCall
