import WireCall.Settings.Admission
import WireCall.Fault

namespace WireCall

/-!
# The admission gate

A gate admits connections at the rate of its settings.  It keeps the time at which the next token
would be due if tokens were handed out evenly (`due`), and hands one out as long as that time is
at most a burst of periods ahead.  Times are nanoseconds of a clock that never goes back.

Main statements: a gate that refuses stays as it is (`tryAcquire_eq_self`), every operation keeps
the settings (`settings_tryAcquire`, `settings_acquire`), and a connection that does not wait is
decided at once (`time_acquire_of_isZero`).
-/

/-- A gate with positive rate and burst; `due` is absent until the first token is taken. -/
structure Gate where
  settings : AdmissionSettings
  due : Option Nat
  rate_pos : 0 < settings.rate.toNat
  burst_pos : 0 < settings.burst.toNat

namespace Gate

/-- A gate that has not handed out any token. -/
def ofSettings (settings : AdmissionSettings) : Except RegistrationFault Gate :=
  if rate_pos : 0 < settings.rate.toNat then
    if burst_pos : 0 < settings.burst.toNat then .ok ⟨settings, none, rate_pos, burst_pos⟩
    else .error .burstNotPositive
  else .error .rateNotPositive

/-- A gate is built exactly with its own settings and every token still in it. -/
theorem ofSettings_eq_ok_iff {settings : AdmissionSettings} {g : Gate} :
    ofSettings settings = .ok g ↔ g.settings = settings ∧ g.due = none := by
  unfold ofSettings
  constructor
  · intro h
    split at h
    · split at h
      · cases h
        exact ⟨rfl, rfl⟩
      · cases h
    · cases h
  · obtain ⟨_, due, rate_pos, burst_pos⟩ := g
    rintro ⟨rfl, hnew⟩
    rw [dif_pos rate_pos, dif_pos burst_pos]
    simp only at hnew
    rw [hnew]

/-- The nanoseconds between two tokens. -/
def period (g : Gate) : Nat := nanosPerSecond / g.settings.rate.toNat

/-- How far ahead the next token may be due. -/
def tolerance (g : Gate) : Nat := g.settings.burst.toNat * g.period

/-- When the next token is due, asked at `now`. -/
def dueAt (g : Gate) (now : Nat) : Nat := g.due.getD (now + g.period)

/-- The first time at which a token can be taken, asked at `now`. -/
def readyAt (g : Gate) (now : Nat) : Nat := g.dueAt now - g.tolerance

/-- The gate after a token has been taken at `now`. -/
def take (g : Gate) (now : Nat) : Gate :=
  { g with due := some (max (g.dueAt now) now + g.period) }

/-- Takes a token if there is one at `now`. -/
def tryAcquire (g : Gate) (now : Nat) : Bool × Gate :=
  if g.readyAt now ≤ now then (true, g.take now) else (false, g)

/-- How an attempt to enter ended, when it did, and the gate after it. -/
structure Entry where
  outcome : Except RateFault Unit
  time : Nat
  gate : Gate

/-- Takes a token at `now` or as soon as there is one, but waits no longer than the patience. -/
def acquire (g : Gate) (now : Nat) : Entry :=
  match g.tryAcquire now with
  | (true, g) => ⟨.ok (), now, g⟩
  | (false, g) =>
    let patience := g.settings.patience
    if patience.isZero then ⟨.error .noToken, now, g⟩
    else
      -- Nobody else waits, so the token that comes next is for this connection.
      let ready := g.readyAt now
      if ready ≤ now + patience.nanos then ⟨.ok (), ready, g.take ready⟩
      else ⟨.error (.noTokenWithin patience.milliseconds), now + patience.nanos, g⟩

/-- The gate in one line. -/
def text (g : Gate) : String :=
  "AdmissionControl \x7b timeout: " ++ g.settings.patience.text ++ ", .. \x7d"

/-- A refusal costs nothing: the gate keeps every token it had. -/
theorem tryAcquire_eq_self {g : Gate} {now : Nat} (refused : (g.tryAcquire now).1 = false) :
    (g.tryAcquire now).2 = g := by
  unfold tryAcquire at refused ⊢
  split
  · next h => simp [h] at refused
  · rfl

/-- Asking for a token never changes the settings of the gate. -/
@[simp] theorem settings_tryAcquire (g : Gate) (now : Nat) :
    (g.tryAcquire now).2.settings = g.settings := by
  unfold tryAcquire
  split <;> rfl

@[simp] theorem settings_acquire (g : Gate) (now : Nat) :
    (g.acquire now).gate.settings = g.settings := by
  have kept := settings_tryAcquire g now
  unfold acquire
  split
  · next h => rwa [h] at kept
  · next h =>
    rw [h] at kept
    simp only
    split
    · exact kept
    · split <;> exact kept

/-- Without patience the answer is given at the time of asking. -/
theorem time_acquire_of_isZero {g : Gate} (h : g.settings.patience.isZero = true) (now : Nat) :
    (g.acquire now).time = now := by
  have kept := settings_tryAcquire g now
  unfold acquire
  split
  · rfl
  · next eq =>
    rw [eq] at kept
    simp only at kept
    simp [kept, h]

end Gate
end WireCall
