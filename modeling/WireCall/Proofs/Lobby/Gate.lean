import WireCall.Proofs.Lobby.Guest

namespace WireCall

/-!
# The gate as a limiter

A gate with a rate of at most a token a nanosecond counts tokens: it has as many as there are
periods between the time at which the next one is due and a burst of periods from now
(`Gate.tokens`, `Gate.counts_limiter`).  A higher rate makes a period of no time at all, and such a
gate hands out tokens without end.
-/

namespace Gate

/-- The tokens that can be taken at `now`. -/
def tokens (g : Gate) (now : Nat) : Nat :=
  if g.dueAt now ≤ now + g.tolerance then
    (now + g.tolerance - max (g.dueAt now) now) / g.period + 1
  else 0

variable {g : Gate} {now : Nat}

/-- There is a token exactly if the next one can be taken. -/
theorem tokens_pos_iff : 0 < g.tokens now ↔ g.dueAt now ≤ now + g.tolerance := by
  rw [tokens]
  split
  · rename_i hready
    exact ⟨fun _ => hready, fun _ => Nat.succ_pos _⟩
  · rename_i hlate
    exact ⟨fun h => absurd h (Nat.lt_irrefl 0), fun hready => absurd hready hlate⟩

/-- Where there is a token it is granted. -/
theorem tryAcquire_of_tokens_pos (h : 0 < g.tokens now) :
    g.tryAcquire now = (true, g.take now) :=
  if_pos (Nat.sub_le_iff_le_add.mpr (tokens_pos_iff.mp h))

/-- Where there is none it is refused, and the gate is as it was. -/
theorem tryAcquire_of_tokens_eq_zero (h : g.tokens now = 0) : g.tryAcquire now = (false, g) := by
  refine if_neg fun hready => ?_
  have hpos := tokens_pos_iff.mpr (Nat.sub_le_iff_le_add.mp hready)
  omega

/-- Taking a token leaves one less. -/
theorem tokens_take (hperiod : 0 < g.period) (h : 0 < g.tokens now) :
    (g.take now).tokens now + 1 = g.tokens now := by
  have hready := tokens_pos_iff.mp h
  have hnext : (g.take now).dueAt now = max (g.dueAt now) now + g.period := rfl
  have hperiod' : (g.take now).period = g.period := rfl
  have htolerance : (g.take now).tolerance = g.tolerance := rfl
  rw [tokens, tokens, if_pos hready, hnext, hperiod', htolerance]
  generalize now + g.tolerance = latest
  generalize hdue : max (g.dueAt now) now = due
  have hnow : now ≤ due := hdue ▸ Nat.le_max_right _ _
  rw [Nat.max_eq_left (by omega)]
  split
  · rename_i hagain
    -- The next period is the first of those that were counted.
    rw [Nat.div_eq_sub_div hperiod (show g.period ≤ latest - due by omega), Nat.sub_sub]
  · rw [Nat.div_eq_of_lt (by omega)]

/-- Wherever the limiter gets, it keeps to its quota. -/
theorem settings_of_reached {q : Quota} {s : Gate × Nat} (h : limiter.Reached q s) :
    s.1.settings = ⟨q.rate, q.burst, .zero⟩ := by
  induction h with
  | fresh => rfl
  | check hreached ih => exact (settings_tryAcquire _ _).trans ih
  | pass nanos hreached ih => exact ih

/-- At rates of at most one token a nanosecond, tokens keep a distance wherever the limiter gets. -/
theorem period_pos_of_reached {q : Quota} (hrate : q.rate.toNat ≤ nanosPerSecond)
    {s : Gate × Nat} (h : limiter.Reached q s) : 0 < s.1.period := by
  rw [period, settings_of_reached h]
  exact Nat.div_pos hrate q.rate_pos

/-- A fresh limiter has all the tokens at once. -/
theorem tokens_fresh {q : Quota} (hrate : q.rate.toNat ≤ nanosPerSecond) :
    (limiter.fresh q).1.tokens (limiter.fresh q).2 = q.burst.toNat := by
  have hperiod := period_pos_of_reached hrate (.fresh)
  generalize hg : (limiter.fresh q).1 = g at hperiod
  -- The first token would be due in a period, and a burst of periods is tolerated.
  have hdue : g.dueAt 0 = g.period := by
    rw [← hg]
    exact Nat.zero_add _
  have htolerance : g.tolerance = q.burst.toNat * g.period := by
    rw [← hg]
    rfl
  have hburst : g.period ≤ q.burst.toNat * g.period := Nat.le_mul_of_pos_left _ q.burst_pos
  show g.tokens 0 = _
  rw [tokens, hdue, htolerance, Nat.zero_add, if_pos hburst, Nat.max_eq_left (Nat.zero_le _),
    ← Nat.div_eq_sub_div hperiod hburst, Nat.mul_div_cancel _ hperiod]

/-- **The gate counts tokens**, if its rate is at most a token a nanosecond. -/
theorem counts_limiter {q : Quota} (hrate : q.rate.toNat ≤ nanosPerSecond) :
    limiter.Counts q fun s => s.1.tokens s.2 where
  fresh := Nat.le_of_eq (tokens_fresh hrate)
  grants s hreached hpos := by
    have htake := tryAcquire_of_tokens_pos hpos
    show (s.1.tryAcquire s.2).1 = true ∧ (s.1.tryAcquire s.2).2.tokens s.2 + 1 = _
    rw [htake]
    exact ⟨rfl, tokens_take (period_pos_of_reached hrate hreached) hpos⟩
  refuses s hreached hzero := by
    show ((s.1.tryAcquire s.2).1, (s.1.tryAcquire s.2).2, s.2) = (false, s)
    rw [tryAcquire_of_tokens_eq_zero hzero]

end Gate
end WireCall
