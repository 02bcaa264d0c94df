import Mathlib.Algebra.Order.Floor.Div
import WireCall.Admission

namespace WireCall

/-!
# How many tokens a gate hands out

The gate is asked for a token at a sequence of times, and `Gate.granted` counts the tokens in a
window of nanoseconds.  Each token moves the time at which the next one is due by a period, so after
`k` tokens in a window the next one is due `k` periods behind the start of the window or later
(`Gate.Ahead`).  A token is handed out only if it is due a burst of periods from now at the latest.
Both together bound the tokens in the window by a burst and the periods that begin in it, and a
crowd of connections that comes after a pause gets as many (`Gate.crowd`).

The period is a whole number of nanoseconds, which is rounded down.  So the rate of the settings
bounds the tokens only if it divides the nanoseconds of a second: any other rate below them is
exceeded within a second, and above them the period is no time at all.

Main statement: the bound of the period holds and is reached, and the bound of the rate holds
exactly for the rates that divide a second (`Gate.granted_le`).
-/

namespace Gate

/-! ### Asking at a sequence of times -/

/-- The times among these at which a token is handed out. -/
def grants (g : Gate) : List Nat → List Nat
  | [] => []
  | now :: times =>
    if (g.tryAcquire now).1 then now :: (g.tryAcquire now).2.grants times
    else (g.tryAcquire now).2.grants times

/-- How many of the tokens are handed out in the `length` nanoseconds from `start` on. -/
def granted (g : Gate) (times : List Nat) (start length : Nat) : Nat :=
  (g.grants times).countP fun t => start ≤ t ∧ t < start + length

variable {g : Gate} {settings : AdmissionSettings} {times : List Nat} {now start length : Nat}

@[simp] theorem period_take (g : Gate) (now : Nat) : (g.take now).period = g.period := rfl

@[simp] theorem tolerance_take (g : Gate) (now : Nat) : (g.take now).tolerance = g.tolerance := rfl

/-- Each token taken moves the time the next one is due by one period, from now at the earliest. -/
@[simp] theorem dueAt_take (g : Gate) (now later : Nat) :
    (g.take now).dueAt later = max (g.dueAt now) now + g.period := rfl

/-- A requester is granted a token exactly when the due time is within the tolerance, and only then
does the gate move on. -/
theorem grants_cons (g : Gate) (now : Nat) (times : List Nat) : g.grants (now :: times) =
    if g.dueAt now ≤ now + g.tolerance then now :: (g.take now).grants times
    else g.grants times := by
  rw [grants]
  unfold tryAcquire readyAt
  by_cases hready : g.dueAt now ≤ now + g.tolerance
  · simp [hready]
  · simp [hready]

/-- Tokens keep a distance exactly at rates of at most one token a nanosecond. -/
theorem period_pos_iff (g : Gate) : 0 < g.period ↔ g.settings.rate.toNat ≤ nanosPerSecond := by
  unfold period
  rw [Nat.div_pos_iff]
  exact and_iff_right g.rate_pos

/-- Faster than one token a nanosecond, tokens keep no distance. -/
theorem period_eq_zero_iff (g : Gate) : g.period = 0 ↔ nanosPerSecond < g.settings.rate.toNat := by
  have := g.period_pos_iff
  omega

/-! ### The bound of the period -/

/-- The next token is due `k` periods behind the start of the window, if it is not due before the
window. -/
def Ahead (g : Gate) (start k : Nat) : Prop :=
  ∀ now, start + k * g.period ≤ max (g.dueAt now) start

theorem ahead_zero (g : Gate) (start : Nat) : g.Ahead start 0 := by
  intro now
  simp

/-- A token in the window moves the next one by a period. -/
theorem Ahead.succ {k : Nat} (h : g.Ahead start k) (hnow : start ≤ now) :
    (g.take now).Ahead start (k + 1) := by
  intro later
  have hdue := h now
  simp only [dueAt_take, period_take, Nat.add_mul, Nat.one_mul]
  omega

/-- No token moves the next one back. -/
theorem Ahead.take {k : Nat} (h : g.Ahead start k) (now : Nat) : (g.take now).Ahead start k := by
  intro later
  have hdue := h now
  simp only [dueAt_take, period_take]
  omega

/-- A token that is handed out in the window is among the first of it. -/
theorem Ahead.succ_le {k : Nat} (h : g.Ahead start k) (hperiod : 0 < g.period)
    (hready : g.dueAt now ≤ now + g.tolerance) (hstart : start ≤ now)
    (hend : now < start + length) : k + 1 ≤ g.settings.burst.toNat + length ⌈/⌉ g.period := by
  by_contra hmany
  have hdue := h now
  have hcover : length ≤ g.period * (length ⌈/⌉ g.period) := le_smul_ceilDiv hperiod
  have hperiods : (g.settings.burst.toNat + length ⌈/⌉ g.period) * g.period ≤ k * g.period :=
    Nat.mul_le_mul_right _ (by omega)
  rw [Nat.add_mul, Nat.mul_comm (length ⌈/⌉ g.period)] at hperiods
  unfold tolerance at hready
  omega

/-- The tokens in a window, together with those of it that were handed out before. -/
theorem Ahead.add_granted_le {k : Nat} (h : g.Ahead start k) (hperiod : 0 < g.period)
    (hk : k ≤ g.settings.burst.toNat + length ⌈/⌉ g.period) (times : List Nat) :
    k + g.granted times start length ≤ g.settings.burst.toNat + length ⌈/⌉ g.period := by
  unfold granted
  -- By induction on the requests: every grant in the stretch puts the gate one token further ahead.
  induction times generalizing g k with
  | nil => simpa [grants] using hk
  | cons now times ih =>
    rw [grants_cons]
    by_cases hready : g.dueAt now ≤ now + g.tolerance
    · rw [if_pos hready]
      by_cases hin : start ≤ now ∧ now < start + length
      · have hrest := ih (h.succ hin.1) hperiod (h.succ_le hperiod hready hin.1 hin.2)
        rw [List.countP_cons_of_pos (by simpa using hin)]
        simp only [period_take] at hrest
        exact Nat.le_trans (by omega) hrest
      · -- A grant before or after the stretch counts for nothing, but the gate still moves on.
        rw [List.countP_cons_of_neg (by simpa using hin)]
        exact ih (h.take now) hperiod hk
    · rw [if_neg hready]
      exact ih h hperiod hk

/-- In a window there are at most a burst of tokens and one for each period that begins in it. -/
theorem granted_le_period (hperiod : 0 < g.period) (times : List Nat) (start length : Nat) :
    g.granted times start length ≤ g.settings.burst.toNat + length ⌈/⌉ g.period := by
  have h : 0 + g.granted times start length ≤ _ :=
    (g.ahead_zero start).add_granted_le hperiod (Nat.zero_le _) times
  rwa [Nat.zero_add] at h

/-! ### The bound is reached -/

/-- Every token is handed out if the next one is due between now and a burst of periods from now. -/
theorem grants_map_range {due : Nat} (arrival : Nat → Nat) (hdue : g.due = some due)
    (hpast : ∀ j, arrival j ≤ due + j * g.period)
    (hready : ∀ j, due + j * g.period ≤ arrival j + g.tolerance) (n : Nat) :
    g.grants ((List.range n).map arrival) = (List.range n).map arrival := by
  induction n generalizing g due arrival with
  | zero => rfl
  | succ n ih =>
    have hdueAt : g.dueAt (arrival 0) = due := by simp [dueAt, hdue]
    have hnext : (g.take (arrival 0)).due = some (due + g.period) := by
      have hpast0 := hpast 0
      simp only [take, hdueAt, Option.some.injEq]
      omega
    have hperiods : ∀ j, due + (j + 1) * g.period = due + g.period + j * g.period := by
      intro j
      rw [Nat.add_mul]
      omega
    -- The gate asks for the next token as it asked for this one, a period later.
    have hrest := ih (fun j => arrival (j + 1)) hnext
      (fun j => by simpa [hperiods] using hpast (j + 1))
      (fun j => by simpa [hperiods] using hready (j + 1))
    have hready0 : g.dueAt (arrival 0) ≤ arrival 0 + g.tolerance := by simpa [hdueAt] using hready 0
    rw [List.range_succ_eq_map, List.map_cons, List.map_map, grants_cons, if_pos hready0]
    exact congrArg (arrival 0 :: ·) hrest

/-- The times of a crowd that comes after a pause: one connection alone, a burst of them when the
next token is due, and one in each period from then on. -/
def crowdAt (g : Gate) (j : Nat) : Nat := 2 * g.period + (j - g.settings.burst.toNat) * g.period

/-- The first connection of the crowd, and `n` that come after the pause. -/
def crowd (g : Gate) (n : Nat) : List Nat := 0 :: (List.range n).map g.crowdAt

/-- The requesters of a crowd come in order of time. -/
theorem crowd_sorted (g : Gate) (n : Nat) : (g.crowd n).Pairwise (· ≤ ·) := by
  refine List.pairwise_cons.mpr ⟨fun _ _ => Nat.zero_le _, ?_⟩
  rw [List.pairwise_map]
  refine List.pairwise_lt_range.imp fun {i j} hij => ?_
  have hperiods : (i - g.settings.burst.toNat) * g.period ≤
      (j - g.settings.burst.toNat) * g.period := Nat.mul_le_mul_right _ (by omega)
  unfold crowdAt
  omega

/-- A new gate hands out a token to everyone in the crowd. -/
theorem grants_crowd (hnew : g.due = none) (n : Nat) : g.grants (g.crowd n) = g.crowd n := by
  -- The first token is due one period from now, which the tolerance allows.
  have hburst : g.period ≤ g.tolerance := by
    simpa [tolerance] using Nat.mul_le_mul_right g.period g.burst_pos
  have hfirst : g.dueAt 0 = g.period := by simp [dueAt, hnew]
  have hnext : (g.take 0).due = some (2 * g.period) := by
    simp only [take, hfirst, Option.some.injEq]
    omega
  unfold crowd
  rw [grants_cons, if_pos (by omega)]
  refine congrArg (0 :: ·) (grants_map_range g.crowdAt hnext (fun j => ?_) (fun j => ?_) n)
  · -- Each member of the crowd comes just when the burst lets it in, and never before the one
    -- before it.
    have hperiods := Nat.mul_le_mul_right g.period (Nat.sub_le j g.settings.burst.toNat)
    simp only [crowdAt, period_take]
    omega
  · have hperiods : j * g.period ≤
        (j - g.settings.burst.toNat + g.settings.burst.toNat) * g.period :=
      Nat.mul_le_mul_right _ (by omega)
    rw [Nat.add_mul] at hperiods
    rw [tolerance_take, period_take]
    simp only [crowdAt, tolerance]
    omega

/-- A new gate hands out a burst of tokens and one for each period that begins in the window. -/
theorem granted_crowd (hnew : g.due = none) (hperiod : 0 < g.period) (hlength : 0 < length) :
    g.granted (g.crowd (g.settings.burst.toNat + length ⌈/⌉ g.period)) (2 * g.period) length =
      g.settings.burst.toNat + length ⌈/⌉ g.period := by
  unfold granted
  rw [grants_crowd hnew]
  -- The connection that came alone is before the window, and all the others are in it.
  rw [crowd, List.countP_cons_of_neg (by simp; omega), List.countP_map, List.countP_eq_length.mpr,
    List.length_range]
  intro j hj
  have hbegins : j - g.settings.burst.toNat < length ⌈/⌉ g.period := by
    have hsome : 0 < length ⌈/⌉ g.period := by
      rw [Nat.pos_iff_ne_zero, ne_eq, ← Nat.le_zero, ceilDiv_le_iff_le_mul hperiod]
      omega
    have := List.mem_range.mp hj
    omega
  rw [← Nat.not_le, ceilDiv_le_iff_le_mul hperiod, Nat.mul_comm] at hbegins
  have hin : 2 * g.period ≤ g.crowdAt j ∧ g.crowdAt j < 2 * g.period + length := by
    unfold crowdAt
    omega
  simpa using hin

/-! ### No period at all -/

/-- If the period is no time, then a token is handed out to everyone. -/
theorem grants_eq_self (hperiod : g.period = 0) (hdue : ∀ now ∈ times, g.dueAt now ≤ now)
    (hsorted : times.Pairwise (· ≤ ·)) : g.grants times = times := by
  induction times generalizing g with
  | nil => rfl
  | cons now times ih =>
    rw [List.pairwise_cons] at hsorted
    have hready := hdue now (by simp)
    rw [grants_cons, if_pos (by omega), ih (by simpa using hperiod) _ hsorted.2]
    intro later hlater
    have := hsorted.1 later hlater
    rw [dueAt_take, hperiod]
    omega

/-- A new gate without distance between tokens always owes one now. -/
theorem dueAt_le_of_new (hnew : g.due = none) (hperiod : g.period = 0) (now : Nat) :
    g.dueAt now ≤ now := by
  simp [dueAt, hnew, hperiod]

/-! ### The bound of the rate -/

/-- If the rate divides the nanoseconds of a second, then the window has room for as many tokens as
periods begin in it. -/
theorem ceilDiv_period_le (h : g.settings.rate.toNat ∣ nanosPerSecond) (length : Nat) :
    length ⌈/⌉ g.period ≤ (g.settings.rate.toNat * length) ⌈/⌉ nanosPerSecond := by
  have hsecond : g.settings.rate.toNat * g.period = nanosPerSecond := Nat.mul_div_cancel' h
  have hperiod : 0 < g.period := g.period_pos_iff.mpr (Nat.le_of_dvd (by decide) h)
  rw [ceilDiv_le_iff_le_mul hperiod]
  refine Nat.le_of_mul_le_mul_left ?_ g.rate_pos
  calc g.settings.rate.toNat * length
      ≤ nanosPerSecond * ((g.settings.rate.toNat * length) ⌈/⌉ nanosPerSecond) :=
        le_smul_ceilDiv (show 0 < nanosPerSecond by decide)
    _ = g.settings.rate.toNat *
          (g.period * ((g.settings.rate.toNat * length) ⌈/⌉ nanosPerSecond)) := by
        rw [← Nat.mul_assoc, hsecond]

/-- The rate bounds the tokens of a new gate only if there is a whole number of nanoseconds between
two of them. -/
theorem dvd_of_granted_le (hnew : g.due = none)
    (h : ∀ times : List Nat, times.Pairwise (· ≤ ·) → ∀ start length, g.granted times start length ≤
      g.settings.burst.toNat + (g.settings.rate.toNat * length) ⌈/⌉ nanosPerSecond) :
    g.settings.rate.toNat ∣ nanosPerSecond := by
  have hperiod : 0 < g.period := by
    by_contra hzero
    rw [Nat.not_lt, Nat.le_zero] at hzero
    -- Everyone of a crowd gets a token, however large it is.
    have hmany := h (List.replicate (g.settings.burst.toNat +
      (g.settings.rate.toNat * 1) ⌈/⌉ nanosPerSecond + 1) 0) (by simp [List.pairwise_replicate]) 0 1
    rw [granted, grants_eq_self hzero (fun now _ => dueAt_le_of_new hnew hzero now)
      (by simp [List.pairwise_replicate]), List.countP_replicate] at hmany
    simp at hmany
  -- In a second there are no more tokens than the rate, so the periods fill the second.
  have hsecond := h _ (g.crowd_sorted (g.settings.burst.toNat + nanosPerSecond ⌈/⌉ g.period))
    (2 * g.period) nanosPerSecond
  have hrate : (g.settings.rate.toNat * nanosPerSecond) ⌈/⌉ nanosPerSecond ≤
      g.settings.rate.toNat := by
    rw [ceilDiv_le_iff_le_mul (by decide), Nat.mul_comm]
  rw [granted_crowd hnew hperiod (by decide), Nat.add_le_add_iff_left] at hsecond
  have hfill := (ceilDiv_le_iff_le_mul hperiod).mp (Nat.le_trans hsecond hrate)
  refine ⟨g.period, Nat.le_antisymm (by rwa [Nat.mul_comm]) ?_⟩
  exact Nat.mul_div_le _ _

/-- The tokens of a new gate in a window of nanoseconds are at most a burst and one for each period
that begins in it; a crowd of connections gets as many.  Without a period everyone gets a token.
The rate bounds the tokens exactly if it divides the nanoseconds of a second. -/
theorem granted_le (h : ofSettings settings = .ok g) :
    (settings.rate.toNat ≤ nanosPerSecond →
      (∀ times start length, g.granted times start length ≤
        settings.burst.toNat + length ⌈/⌉ (nanosPerSecond / settings.rate.toNat)) ∧
      ∀ length, 0 < length → ∃ times start, times.Pairwise (· ≤ ·) ∧
        g.granted times start length =
          settings.burst.toNat + length ⌈/⌉ (nanosPerSecond / settings.rate.toNat)) ∧
    (nanosPerSecond < settings.rate.toNat →
      ∀ times : List Nat, times.Pairwise (· ≤ ·) → g.grants times = times) ∧
    ((∀ times : List Nat, times.Pairwise (· ≤ ·) → ∀ start length,
      g.granted times start length ≤
        settings.burst.toNat + (settings.rate.toNat * length) ⌈/⌉ nanosPerSecond) ↔
      settings.rate.toNat ∣ nanosPerSecond) := by
  obtain ⟨rfl, hnew⟩ := ofSettings_eq_ok_iff.mp h
  refine ⟨fun hrate => ?_, fun hrate times => ?_, dvd_of_granted_le hnew, fun hdvd => ?_⟩
  · have hperiod := g.period_pos_iff.mpr hrate
    refine ⟨granted_le_period hperiod, fun length hlength => ?_⟩
    exact ⟨_, _, g.crowd_sorted _, granted_crowd hnew hperiod hlength⟩
  · have hperiod := g.period_eq_zero_iff.mpr hrate
    exact grants_eq_self hperiod fun now _ => dueAt_le_of_new hnew hperiod now
  · intro times _ start length
    have hperiod := g.period_pos_iff.mpr (Nat.le_of_dvd (by decide) hdvd)
    exact Nat.le_trans (granted_le_period hperiod times start length)
      (Nat.add_le_add_left (ceilDiv_period_le hdvd length) _)

/-- A new gate for three tokens a second in bursts of two. -/
def threePerSecond : Gate := ⟨⟨3, 2, .zero⟩, none, by decide, by decide⟩

/-- Three tokens a second are four periods that begin in it. -/
theorem granted_le_sample : ofSettings threePerSecond.settings = .ok threePerSecond ∧
    (∀ times start, threePerSecond.granted times start nanosPerSecond ≤ 6) ∧
    (∃ times start, times.Pairwise (· ≤ ·) ∧
      threePerSecond.granted times start nanosPerSecond = 6) ∧
    ¬ ∀ times : List Nat, times.Pairwise (· ≤ ·) → ∀ start length,
      threePerSecond.granted times start length ≤ 2 + (3 * length) ⌈/⌉ nanosPerSecond := by
  have hnew : ofSettings threePerSecond.settings = .ok threePerSecond := rfl
  have hsix : threePerSecond.settings.burst.toNat +
      nanosPerSecond ⌈/⌉ (nanosPerSecond / threePerSecond.settings.rate.toNat) = 6 := rfl
  obtain ⟨hpositive, -, hrate⟩ := granted_le hnew
  obtain ⟨hle, hreached⟩ := hpositive (by decide)
  refine ⟨hnew, fun times start => ?_, ?_, fun h => ?_⟩
  · exact hsix ▸ hle times start nanosPerSecond
  · exact hsix ▸ hreached nanosPerSecond (by decide)
  · exact absurd (hrate.mp h) (by decide)

/-- Four tokens in a nanosecond are too many to count the time between them. -/
theorem granted_exceeds_rate : ∃ g, ofSettings ⟨4000000000, 1, .zero⟩ = .ok g ∧
    ¬ g.granted (List.replicate 8 0) 0 1 ≤ 1 + (4000000000 * 1) ⌈/⌉ nanosPerSecond := by
  refine ⟨⟨⟨4000000000, 1, .zero⟩, none, by decide, by decide⟩, rfl, ?_⟩
  decide

end Gate
end WireCall
