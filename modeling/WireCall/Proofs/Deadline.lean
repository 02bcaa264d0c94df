import Mathlib.Tactic.Ring
import WireCall.Deadline

namespace WireCall

/-!
# Deadlines and the reach of the clock

A clock shows seconds, fewer than `2^63` of them, and the nanoseconds beyond.  It works on these
parts: it adds with a carry (`Instant.plus?`), compares by the seconds first (`Instant.AtLeast`),
and subtracts with a borrow, down to zero (`Instant.minus`).  On the count of all nanoseconds, which
an `Instant` is, these are a sum that may be out of reach, the order and the difference of naturals
(`Instant.after?_eq_plus?`, `Instant.atLeast_iff`, `Instant.parts_timeTo`).

A duration may be longer than what the clock has left, and then no deadline comes of it.

Main statement: a call that is given a time has a deadline exactly if its seconds fit the clock, and
then it is expired exactly from that time on, and what remains is the rest of it
(`CallContext.withTimeout?_by_clock`).
-/

/-! ### Parts -/

namespace Duration

/-- The whole seconds, and the nanoseconds beyond them. -/
def parts (d : Duration) : Nat × Nat := (d.seconds, d.subsecondNanos)

/-- A duration has one decomposition into whole seconds and a rest below a second. -/
theorem parts_eq {d : Duration} {seconds nanos : Nat}
    (h : d.nanos = seconds * nanosPerSecond + nanos) (hnanos : nanos < nanosPerSecond) :
    d.parts = (seconds, nanos) := by
  simp only [parts, Duration.seconds, subsecondNanos, Prod.mk.injEq, nanosPerSecond] at *
  omega

end Duration

namespace Instant

/-- The whole seconds. -/
def seconds (t : Instant) : Nat := t.nanos / nanosPerSecond

/-- The nanoseconds beyond the whole seconds. -/
def subsecondNanos (t : Instant) : Nat := t.nanos % nanosPerSecond

/-- The reading with these parts; none if the seconds are too many for the clock. -/
def ofParts? (seconds nanos : Nat) : Option Instant :=
  if h : seconds < 2 ^ 63 ∧ nanos < nanosPerSecond then
    some ⟨seconds * nanosPerSecond + nanos, by simp only [nanosPerSecond] at h ⊢; omega⟩
  else none

/-- The reading `d` later: a second's worth of nanoseconds is carried over. -/
def plus? (t : Instant) (d : Duration) : Option Instant :=
  let nanos := t.subsecondNanos + d.subsecondNanos
  if nanos < nanosPerSecond then ofParts? (t.seconds + d.seconds) nanos
  else ofParts? (t.seconds + d.seconds + 1) (nanos - nanosPerSecond)

/-- The reading `t` is `u` or a later one. -/
def AtLeast (t u : Instant) : Prop :=
  u.seconds < t.seconds ∨ u.seconds = t.seconds ∧ u.subsecondNanos ≤ t.subsecondNanos

instance (t u : Instant) : Decidable (t.AtLeast u) :=
  inferInstanceAs (Decidable (_ ∨ _ ∧ _))

/-- The seconds and nanoseconds from `u` to `t`: a second is borrowed if `t` has fewer nanoseconds,
and both are zero if `t` is earlier. -/
def minus (t u : Instant) : Nat × Nat :=
  if t.AtLeast u then
    if u.subsecondNanos ≤ t.subsecondNanos then
      (t.seconds - u.seconds, t.subsecondNanos - u.subsecondNanos)
    else (t.seconds - u.seconds - 1, t.subsecondNanos + nanosPerSecond - u.subsecondNanos)
  else (0, 0)

theorem nanos_eq (t : Instant) : t.nanos = t.seconds * nanosPerSecond + t.subsecondNanos :=
  (Nat.div_add_mod' _ _).symm

theorem subsecondNanos_lt (t : Instant) : t.subsecondNanos < nanosPerSecond :=
  Nat.mod_lt _ (by decide)

/-- An instant is known by its nanoseconds. -/
theorem ext_nanos {t u : Instant} (h : t.nanos = u.nanos) : t = u := by
  cases t
  cases u
  cases h
  rfl

/-- Parts are an instant exactly when their sum can be held, and then they are that sum. -/
theorem ofParts?_eq_some_iff {seconds nanos : Nat} {t : Instant} (hnanos : nanos < nanosPerSecond) :
    ofParts? seconds nanos = some t ↔ t.nanos = seconds * nanosPerSecond + nanos := by
  unfold ofParts?
  constructor
  · intro h
    split at h
    · cases h
      rfl
    · cases h
  · intro h
    -- An instant in range has its seconds in range, so the guard lets it pass.
    have hseconds : seconds < 2 ^ 63 := by
      have := t.bound
      simp only [nanosPerSecond] at h
      omega
    rw [dif_pos ⟨hseconds, hnanos⟩, Option.some.injEq]
    exact ext_nanos h.symm

/-- A later reading is one that has so many nanoseconds more. -/
theorem after?_eq_some_iff {t u : Instant} {d : Duration} :
    t.after? d = some u ↔ u.nanos = t.nanos + d.nanos := by
  unfold after?
  constructor
  · intro h
    split at h
    · cases h
      rfl
    · cases h
  · intro h
    have hbound := u.bound
    rw [h] at hbound
    rw [dif_pos hbound, Option.some.injEq]
    exact ext_nanos h.symm

/-- An instant can be moved on exactly when there is an instant that much later. -/
theorem plus?_eq_some_iff {t u : Instant} {d : Duration} :
    t.plus? d = some u ↔ u.nanos = t.nanos + d.nanos := by
  have hd : d.nanos = d.seconds * nanosPerSecond + d.subsecondNanos :=
    (Nat.div_add_mod' _ _).symm
  have ht := t.nanos_eq
  have hsub : t.subsecondNanos + d.subsecondNanos < 2 * nanosPerSecond := by
    have hd' : d.subsecondNanos < nanosPerSecond := Nat.mod_lt _ (by decide)
    have ht' := t.subsecondNanos_lt
    omega
  unfold plus?
  dsimp only
  split
  · next hcarry =>
    rw [ofParts?_eq_some_iff hcarry, ht, hd]
    constructor <;> intro h <;> rw [h] <;> ring
  · next hcarry =>
    -- The second that is carried over makes up for the nanoseconds that are taken away.
    have hrest : t.subsecondNanos + d.subsecondNanos - nanosPerSecond < nanosPerSecond := by omega
    rw [ofParts?_eq_some_iff hrest, ht, hd, Nat.add_mul, Nat.add_mul, Nat.one_mul]
    omega

/-- Adding part by part is adding the nanoseconds. -/
theorem after?_eq_plus? (t : Instant) (d : Duration) : t.after? d = t.plus? d :=
  Option.ext fun _ => after?_eq_some_iff.trans plus?_eq_some_iff.symm

/-- Comparing the seconds first is comparing the nanoseconds. -/
theorem atLeast_iff {t u : Instant} : t.AtLeast u ↔ u.nanos ≤ t.nanos := by
  unfold AtLeast seconds subsecondNanos nanosPerSecond
  omega

/-- Subtracting part by part is subtracting the nanoseconds. -/
theorem parts_timeTo (t u : Instant) : (u.timeTo t).parts = t.minus u := by
  have ht := t.nanos_eq
  have hu := u.nanos_eq
  have ht' := t.subsecondNanos_lt
  have hu' := u.subsecondNanos_lt
  unfold minus
  by_cases hle : t.AtLeast u
  · rw [if_pos hle]
    unfold AtLeast at hle
    -- The clock subtracts by parts, and borrows a second where the nanoseconds fall short.
    by_cases hborrow : u.subsecondNanos ≤ t.subsecondNanos
    · rw [if_pos hborrow]
      refine Duration.parts_eq ?_ (by omega)
      simp only [timeTo, nanosPerSecond] at *
      omega
    · rw [if_neg hborrow]
      refine Duration.parts_eq ?_ (by omega)
      simp only [timeTo, nanosPerSecond] at *
      omega
  · rw [if_neg hle]
    rw [atLeast_iff] at hle
    refine Duration.parts_eq ?_ (by decide)
    simp only [timeTo]
    omega

end Instant

/-- The longest time there is. -/
def Duration.longest : Duration := ⟨18446744073709551615999999999, by decide⟩

namespace CallContext

/-! ### A call that is given a time -/

/-- The call was given the time `d` at `now`.  From then on it is expired exactly when the time has
passed, and what remains is the rest of it; once it is expired it stays so, and what remains never
grows. -/
structure EndsAfter (c : CallContext) (now : Instant) (d : Duration) : Prop where
  isExpired_iff : ∀ t : Instant, t.AtLeast now →
    (c.isExpired t = true ↔ d.nanos ≤ (now.timeTo t).nanos)
  remaining_eq : ∀ t : Instant, t.AtLeast now →
    (c.remaining t).map (·.nanos) = some (d.nanos - (now.timeTo t).nanos)
  spent : ∀ t : Instant, c.isExpired t = true ↔ c.remaining t = some .zero
  isExpired_mono : ∀ t u : Instant, u.AtLeast t → c.isExpired t = true → c.isExpired u = true
  remaining_anti : ∀ t u : Instant, u.AtLeast t →
    ∃ left left', c.remaining t = some left ∧ c.remaining u = some left' ∧ left'.nanos ≤ left.nanos

/-- A context with a deadline is expired from the deadline on. -/
theorem isExpired_withDeadline {deadline t : Instant} :
    (withDeadline deadline).isExpired t = true ↔ t.AtLeast deadline := by
  rw [Instant.atLeast_iff]
  simp [isExpired, withDeadline]

/-- What remains of a context with a deadline is the time up to the deadline. -/
theorem remaining_withDeadline (deadline t : Instant) :
    (withDeadline deadline).remaining t = some (t.timeTo deadline) := rfl

/-- A deadline one duration from now ends the context after that duration. -/
theorem endsAfter_withDeadline {now deadline : Instant} {d : Duration}
    (h : deadline.nanos = now.nanos + d.nanos) : (withDeadline deadline).EndsAfter now d where
  isExpired_iff t hlater := by
    rw [isExpired_withDeadline, Instant.atLeast_iff]
    rw [Instant.atLeast_iff] at hlater
    simp only [Instant.timeTo]
    omega
  remaining_eq t hlater := by
    rw [Instant.atLeast_iff] at hlater
    simp only [remaining_withDeadline, Instant.timeTo, Option.map_some, Option.some.injEq]
    omega
  spent t := isExpired_iff_remaining_eq_zero _ t
  isExpired_mono t u hlater := by
    simp only [isExpired_withDeadline, Instant.atLeast_iff] at hlater ⊢
    omega
  remaining_anti t u hlater := by
    refine ⟨_, _, remaining_withDeadline deadline t, remaining_withDeadline deadline u, ?_⟩
    rw [Instant.atLeast_iff] at hlater
    simp only [Instant.timeTo]
    omega

/-- A timeout is the deadline that the clock gives for it. -/
theorem withTimeout?_eq (now : Instant) (d : Duration) :
    withTimeout? now d = (now.plus? d).map withDeadline := by
  rw [withTimeout?, Instant.after?_eq_plus?]

/-- **Deadlines.**  A call that is given a time ends at the reading so much later, if the clock has
one, which is if the seconds of the sum are fewer than `2^63`; if not, no call comes of it.  It is
expired, and has time left, as it was given, and the clock finds this by comparing and subtracting
the parts of its readings. -/
theorem withTimeout?_by_clock (now : Instant) (d : Duration) :
    (∀ deadline, now.plus? d = some deadline →
      ∃ c, withTimeout? now d = some c ∧ c.EndsAfter now d ∧
        ∀ t, (c.isExpired t = true ↔ t.AtLeast deadline) ∧
          (c.remaining t).map (·.parts) = some (deadline.minus t)) ∧
    (now.plus? d = none → withTimeout? now d = none) ∧
    ((now.plus? d).isSome = true ↔ (now.nanos + d.nanos) / nanosPerSecond < 2 ^ 63) := by
  refine ⟨?_, ?_, ?_⟩
  · intro deadline hdeadline
    refine ⟨withDeadline deadline, by rw [withTimeout?_eq, hdeadline, Option.map_some],
      endsAfter_withDeadline (Instant.plus?_eq_some_iff.mp hdeadline), fun t => ?_⟩
    rw [remaining_withDeadline, Option.map_some, Instant.parts_timeTo]
    exact ⟨isExpired_withDeadline, rfl⟩
  · intro hnone
    rw [withTimeout?_eq, hnone, Option.map_none]
  · -- The bound on the nanoseconds is one on the seconds, which is what the clock holds.
    rw [Option.isSome_iff_exists]
    constructor
    · rintro ⟨deadline, hdeadline⟩
      have hbound := deadline.bound
      rw [Instant.plus?_eq_some_iff.mp hdeadline] at hbound
      simp only [nanosPerSecond]
      omega
    · intro hseconds
      simp only [nanosPerSecond] at hseconds
      exact ⟨⟨now.nanos + d.nanos, by omega⟩, Instant.plus?_eq_some_iff.mpr rfl⟩

/-- A time of a tenth of a second has passed a tenth of a second later, and no nanosecond before. -/
theorem withTimeout?_by_clock_sample :
    ∃ c, withTimeout? ⟨1999999999, by decide⟩ (.ofMilliseconds 100) = some c ∧
      c.isExpired ⟨2099999998, by decide⟩ = false ∧ c.isExpired ⟨2099999999, by decide⟩ = true ∧
      (c.remaining ⟨2099999998, by decide⟩).map (·.parts) = some (0, 1) := by
  obtain ⟨c, hc, hends, hparts⟩ := (withTimeout?_by_clock ⟨1999999999, by decide⟩
    (.ofMilliseconds 100)).1 ⟨2099999999, by decide⟩ (by decide)
  refine ⟨c, hc, ?_, (hparts _).1.mpr (by decide), ?_⟩
  · rw [← Bool.not_eq_true, (hparts _).1]
    decide
  · rw [(hparts _).2]
    decide

/-- The longest duration is too long even for the start of the clock, and a shorter one is for a
late reading. -/
theorem withTimeout?_beyond_clock :
    (¬ ∀ (now : Instant) (d : Duration), ∃ c, withTimeout? now d = some c ∧ c.EndsAfter now d) ∧
    withTimeout? .start .longest = none ∧
    withTimeout? ⟨9214925292781066255885 * 1000000, by decide⟩
      (.ofMilliseconds 18446744073709551615) = none := by
  have hlongest : withTimeout? .start .longest = none := by decide
  refine ⟨fun h => ?_, hlongest, by decide⟩
  obtain ⟨c, hc, -⟩ := h .start .longest
  rw [hlongest] at hc
  cases hc

end CallContext
end WireCall
