import Mathlib.Algebra.BigOperators.Group.Finset.Basic
import Mathlib.Algebra.Order.BigOperators.Group.Finset
import WireCall.Proofs.Lobby.Guest

namespace WireCall

/-!
# The tokens of a run

Along a run the limiter stays in states that it can come to, and every connection is settled
(`Sound`).  The change of the number of tokens is split by the events that made it
(`Lobby.change`).  The events of a connection take the token that it holds at the end, and no other
(`Sound.change_isOf`); so the connections that are in hold no more tokens than there were at first
and have been added by time (`Sound.card_admitted_le`).
-/

namespace Lobby

variable {σ γ : Type} {m : Limiter γ} {q : Quota} {tokens : γ → Nat} {l l' u : Lobby σ γ}
  {e : Event} {es : List Event} {i : Nat} {act : Guest.Act}

/-! ### Steps and runs -/

/-- A step of a connection is a move of it in the hall. -/
theorem moves_of_step (h : l.step m (.guest i act) = some u) :
    Guest.Moves m (l.guests i) l.hall act (u.guests i) u.hall := by
  obtain ⟨next, hnext, rfl⟩ := Option.map_eq_some_iff.mp h
  rw [guests_seat_self]
  exact Guest.moves_of_step hnext

/-- A run begins with a step and goes on from where the step leads. -/
theorem run_cons_eq_some_iff :
    l.run m (e :: es) = some l' ↔ ∃ u, l.step m e = some u ∧ u.run m es = some l' :=
  Option.bind_eq_some_iff

/-- A pending connection that is granted a token is let in by its step. -/
theorem step_ask_of_granted {s : γ} (hpending : (l.guests i).entrance.Pending)
    (hcheck : m.check l.hall.limiter = (true, s)) : l.step m (.guest i .ask) =
      some ({ l with hall := { l.hall with limiter := s } }.seat i
        { l.guests i with entrance := .admitted }) :=
  congrArg (Option.map _) (Guest.ask_of_granted hpending hcheck)

/-- A connection that comes when there is no token waits, or is refused where nobody waits. -/
theorem step_ask_of_outside {s : γ} (houtside : (l.guests i).entrance = .outside)
    (hcheck : m.check l.hall.limiter = (false, s)) : l.step m (.guest i .ask) =
      some ({ l with hall := { l.hall with limiter := s } }.seat i
        (if l.hall.patience.isZero then (l.guests i).refuse .noToken
          else { l.guests i with entrance := .waiting l.hall.clock })) :=
  congrArg (Option.map _) (Guest.ask_of_outside houtside hcheck)

theorem run_singleton (hstep : l.step m e = some u) : l.run m [e] = some u :=
  run_cons_eq_some_iff.mpr ⟨u, hstep, rfl⟩

/-- A run may go on with another one. -/
theorem run_append {fs : List Event} (hrun : l.run m es = some u) (hrun' : u.run m fs = some l') :
    l.run m (es ++ fs) = some l' := by
  induction es generalizing l with
  | nil =>
    obtain rfl := Option.some.inj hrun
    exact hrun'
  | cons e es ih =>
    obtain ⟨v, hstep, hrest⟩ := run_cons_eq_some_iff.mp hrun
    exact run_cons_eq_some_iff.mpr ⟨v, hstep, ih hrest⟩

/-- What every step keeps is kept by every run. -/
theorem run_keeps {p : Lobby σ γ → Prop}
    (hkeeps : ∀ l u e, p l → l.step m e = some u → p u) (h : p l)
    (hrun : l.run m es = some l') : p l' := by
  induction es generalizing l with
  | nil =>
    obtain rfl := Option.some.inj hrun
    exact h
  | cons e es ih =>
    obtain ⟨u, hstep, hrest⟩ := run_cons_eq_some_iff.mp hrun
    exact ih (hkeeps l u e h hstep) hrest

/-- A connection is left alone, unless the step is its own. -/
theorem guest_of_step (hstep : l.step m e = some u) (i : Nat) : u.guests i = l.guests i ∨
    ∃ act, e = .guest i act ∧ Guest.Moves m (l.guests i) l.hall act (u.guests i) u.hall := by
  cases e with
  | pass nanos =>
    obtain rfl := Option.some.inj hstep
    exact .inl rfl
  | guest j act =>
    by_cases hij : i = j
    · subst hij
      exact .inr ⟨act, rfl, moves_of_step hstep⟩
    · exact .inl (guests_step_of_ne hstep hij)

/-- Neither the server nor the settings ever change. -/
theorem hall_of_step (hstep : l.step m e = some u) :
    u.hall.responder = l.hall.responder ∧ u.hall.patience = l.hall.patience := by
  cases e with
  | pass nanos =>
    obtain rfl := Option.some.inj hstep
    exact ⟨rfl, rfl⟩
  | guest i act =>
    have hmoves := moves_of_step hstep
    exact ⟨hmoves.responder_eq, hmoves.patience_eq⟩

/-- The limiter is in a state that it can come to, and every connection is settled. -/
structure Sound (m : Limiter γ) (q : Quota) (l : Lobby σ γ) : Prop where
  reached : m.Reached q l.hall.limiter
  settled : ∀ i, (l.guests i).Settled l.hall.patience

/-- Every step keeps the lobby sound. -/
theorem Sound.step (h : l.Sound m q) (hstep : l.step m e = some u) : u.Sound m q where
  reached := by
    cases e with
    | pass nanos =>
      obtain rfl := Option.some.inj hstep
      exact h.reached.pass nanos
    | guest i act => exact (moves_of_step hstep).reached h.reached
  settled i := by
    rw [(hall_of_step hstep).2]
    rcases guest_of_step hstep i with hsame | ⟨act, -, hmoves⟩
    · rw [hsame]
      exact h.settled i
    · exact (h.settled i).moves hmoves

/-- Every run keeps the lobby sound. -/
theorem Sound.run (h : l.Sound m q) (hrun : l.run m es = some l') : l'.Sound m q :=
  run_keeps (fun _ _ _ => Sound.step) h hrun

/-- A connection that was let in stays in, whatever happens next. -/
theorem admitted_step (hstep : l.step m e = some u) (h : (l.guests i).entrance = .admitted) :
    (u.guests i).entrance = .admitted := by
  rcases guest_of_step hstep i with hsame | ⟨act, -, hmoves⟩
  · rwa [hsame]
  · exact hmoves.admitted h

/-- A connection that was let in stays in for the rest of the run. -/
theorem admitted_run (hrun : l.run m es = some l') (h : (l.guests i).entrance = .admitted) :
    (l'.guests i).entrance = .admitted :=
  run_keeps (fun _ _ _ h hstep => admitted_step hstep h) h hrun

/-! ### Changes of the number of tokens -/

/-- The event is a step of this connection. -/
def Event.isOf (i : Nat) : Event → Bool
  | guest j _ => j == i
  | pass _ => false

/-- Time passes. -/
def Event.isPass : Event → Bool
  | guest _ _ => false
  | pass _ => true

/-- By how much the number of tokens has changed at the events among these. -/
def change (l : Lobby σ γ) (m : Limiter γ) (tokens : γ → Nat) (among : Event → Bool) :
    List Event → Int
  | [] => 0
  | e :: es =>
    match l.step m e with
    | none => 0
    | some u =>
      (if among e then (tokens u.hall.limiter : Int) - tokens l.hall.limiter else 0) +
        u.change m tokens among es

/-- The change over a run is that of its first event and that of the others. -/
theorem change_cons {among : Event → Bool} (hstep : l.step m e = some u) :
    l.change m tokens among (e :: es) =
      (if among e then (tokens u.hall.limiter : Int) - tokens l.hall.limiter else 0) +
        u.change m tokens among es := by
  rw [change, hstep]

/-- The steps of a connection take the tokens that it comes to hold. -/
theorem Sound.change_isOf (h : l.Sound m q) (hcounts : m.Counts q tokens)
    (hrun : l.run m es = some l') (i : Nat) :
    l.change m tokens (Event.isOf i) es = (l.guests i).held - (l'.guests i).held := by
  induction es generalizing l with
  | nil =>
    obtain rfl := Option.some.inj hrun
    exact (Int.sub_self _).symm
  | cons e es ih =>
    obtain ⟨u, hstep, hrest⟩ := run_cons_eq_some_iff.mp hrun
    have hrest' := ih (h.step hstep) hrest
    rw [change_cons hstep, hrest']
    -- Only the steps of this connection count, and only they change what it holds.
    cases e with
    | pass nanos =>
      obtain rfl := Option.some.inj hstep
      exact Int.zero_add _
    | guest j act =>
      by_cases hij : j = i
      · subst hij
        have htokens := (moves_of_step hstep).tokens hcounts h.reached
        rw [if_pos (by simp [Event.isOf])]
        omega
      · rw [if_neg (by simpa [Event.isOf] using hij), guests_step_of_ne hstep (Ne.symm hij)]
        exact Int.zero_add _

/-- A step leaves no more tokens in all, those of the limiter and those held, except that time may
add some. -/
theorem Sound.tokens_step_le (h : l.Sound m q) (hcounts : m.Counts q tokens)
    (hstep : l.step m e = some u) (A : Finset Nat) :
    (tokens u.hall.limiter : Int) + (∑ i ∈ A, (u.guests i).held : Nat) ≤
      tokens l.hall.limiter + (∑ i ∈ A, (l.guests i).held : Nat) +
        if e.isPass then (tokens u.hall.limiter : Int) - tokens l.hall.limiter else 0 := by
  cases e with
  | pass nanos =>
    obtain rfl := Option.some.inj hstep
    show _ ≤ _ + ((_ : Int) - _)
    dsimp only
    omega
  | guest j act =>
    have htokens := (moves_of_step hstep).tokens hcounts h.reached
    have hothers : ∀ i ∈ A.erase j, (u.guests i).held = (l.guests i).held := by
      intro i hi
      rw [guests_step_of_ne hstep (Finset.ne_of_mem_erase hi)]
    have hsum := Finset.sum_congr rfl hothers
    show _ ≤ _ + (0 : Int)
    -- One summand changes, if the connection is among those that are counted.
    by_cases hj : j ∈ A
    · rw [← Finset.add_sum_erase A _ hj, ← Finset.add_sum_erase A _ hj, hsum]
      omega
    · rw [Finset.erase_eq_of_notMem hj] at hsum
      have hheld : (l.guests j).held ≤ (u.guests j).held := by
        rw [Guest.held, Guest.held]
        split
        · rename_i hadmitted
          rw [if_pos ((moves_of_step hstep).admitted hadmitted)]
        · exact Nat.zero_le _
      rw [hsum]
      omega

/-- The tokens left and those held grow only by what the passing of time brings. -/
theorem Sound.tokens_run_le (h : l.Sound m q) (hcounts : m.Counts q tokens)
    (hrun : l.run m es = some l') (A : Finset Nat) :
    (tokens l'.hall.limiter : Int) + (∑ i ∈ A, (l'.guests i).held : Nat) ≤
      tokens l.hall.limiter + (∑ i ∈ A, (l.guests i).held : Nat) +
        l.change m tokens Event.isPass es := by
  induction es generalizing l with
  | nil =>
    obtain rfl := Option.some.inj hrun
    exact Int.le_of_eq (Int.add_zero _).symm
  | cons e es ih =>
    obtain ⟨u, hstep, hrest⟩ := run_cons_eq_some_iff.mp hrun
    have hfirst := h.tokens_step_le hcounts hstep A
    have hrest' := ih (h.step hstep) hrest
    rw [change_cons hstep]
    omega

/-- As many connections are in as there were tokens at first and have been added, at most. -/
theorem Sound.card_admitted_le (h : l.Sound m q) (hcounts : m.Counts q tokens)
    (hrun : l.run m es = some l') {A : Finset Nat}
    (hbefore : ∀ i ∈ A, (l.guests i).entrance ≠ .admitted)
    (hafter : ∀ i ∈ A, (l'.guests i).entrance = .admitted) :
    (A.card : Int) ≤ tokens l.hall.limiter + l.change m tokens Event.isPass es := by
  have hnone : ∑ i ∈ A, (l.guests i).held = 0 :=
    Finset.sum_eq_zero fun i hi => if_neg (hbefore i hi)
  have hall : ∑ i ∈ A, (l'.guests i).held = A.card := by
    rw [Finset.card_eq_sum_ones]
    exact Finset.sum_congr rfl fun i hi => if_pos (hafter i hi)
  have htokens := h.tokens_run_le hcounts hrun A
  omega

end Lobby
end WireCall
