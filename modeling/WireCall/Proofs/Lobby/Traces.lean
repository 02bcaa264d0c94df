import WireCall.Proofs.Lobby.Tokens

namespace WireCall

/-!
# What a refused connection leaves behind

A connection that is not let in leaves no trace: without its steps the run goes the same way, and
ends in the same lobby but for this connection (`Lobby.Sound.run_without`).  What its client sends
is not even looked at: runs that differ in nothing else end alike (`Lobby.unheard_run_congr`).
-/

namespace Guest

variable {σ γ : Type} {m : Limiter γ} {hall : Hall σ γ} {act : Act}

/-- The connection without what its client has sent. -/
def unheard (g : Guest) : Guest := { g with arrived := [], ended := false }

/-- What the client does to the connection. -/
def Act.isHeard : Act → Bool
  | deliver _ | hangUp => true
  | ask | expire | answer => false

/-- Whether a token is granted does not depend on what the client has sent. -/
theorem ask_unheard (g : Guest) (m : Limiter γ) (hall : Hall σ γ) :
    g.unheard.ask m hall = (g.ask m hall).map fun next => (next.1.unheard, next.2) := by
  obtain ⟨arrived, ended, entrance, sent, closed⟩ := g
  rw [ask, ask]
  rcases m.check hall.limiter with ⟨granted, limiter⟩
  cases entrance with
  | outside =>
    cases granted with
    | true => rfl
    | false =>
      -- Whether the connection waits is up to the settings.
      show (if hall.patience.isZero then _ else _) =
        Option.map _ (if hall.patience.isZero then _ else _)
      split <;> rfl
  | waiting since => cases granted <;> rfl
  | admitted => cases granted <;> rfl
  | refused cause => cases granted <;> rfl

/-- Whether patience is over does not depend on what the client has sent. -/
theorem expire_unheard (g : Guest) (hall : Hall σ γ) :
    g.unheard.expire hall = (g.expire hall).map unheard := by
  obtain ⟨arrived, ended, entrance, sent, closed⟩ := g
  cases entrance with
  | waiting since =>
    show (if since + hall.patience.nanos ≤ hall.clock then _ else _) =
      Option.map _ (if since + hall.patience.nanos ≤ hall.clock then _ else _)
    split <;> rfl
  | outside | admitted | refused cause => rfl

/-- Apart from the answer, no step looks at what the client has sent. -/
theorem step_unheard {g g' : Guest} {hall' : Hall σ γ} (hact : act.isHeard = false)
    (hanswer : act ≠ .answer) (h : g.step m hall act = some (g', hall')) :
    g.unheard.step m hall act = some (g'.unheard, hall') := by
  -- By cases on the step: none but the answer reads the stream.
  cases act with
  | deliver | hangUp => cases hact
  | ask =>
    refine (ask_unheard g m hall).trans ?_
    rw [show g.ask m hall = some (g', hall') from h]
    rfl
  | expire =>
    obtain ⟨next, hnext, heq⟩ := Option.map_eq_some_iff.mp h
    obtain ⟨rfl, rfl⟩ := Prod.mk.inj heq
    show Option.map _ (g.unheard.expire hall) = _
    rw [expire_unheard, hnext]
    rfl
  | answer => exact absurd rfl hanswer

/-- What the client does changes only what it has sent. -/
theorem Moves.unheard_eq {g g' : Guest} {hall' : Hall σ γ} (hmoves : Moves m g hall act g' hall')
    (hact : act.isHeard = true) : g'.unheard = g.unheard ∧ hall' = hall := by
  cases hmoves with
  | deliver bytes | hangUp => exact ⟨rfl, rfl⟩
  | _ => cases hact

end Guest

namespace Lobby

variable {σ γ : Type} {m : Limiter γ} {q : Quota} {tokens : γ → Nat} {l l' u : Lobby σ γ}
  {e : Event} {es : List Event} {i j : Nat}

/-! ### Other connections in its place -/

/-- The guest seated last is the one on the seat. -/
theorem seat_seat (l : Lobby σ γ) (i : Nat) (g g' : Guest) :
    (l.seat i g).seat i g' = l.seat i g' := by
  rw [seat, seat, seat]
  congr 1
  funext j
  by_cases hj : j = i
  · rw [if_pos hj, if_pos hj]
  · rw [if_neg hj, if_neg hj]
    exact if_neg hj

/-- Seating the guest who sits there changes nothing. -/
theorem seat_self (l : Lobby σ γ) (i : Nat) : l.seat i (l.guests i) = l := by
  rw [seat]
  congr 1
  funext j
  by_cases hj : j = i
  · rw [if_pos hj, hj]
  · rw [if_neg hj]

/-- Seats apart may be taken in either order. -/
theorem seat_comm (l : Lobby σ γ) (hij : i ≠ j) (g g' : Guest) :
    (l.seat i g).seat j g' = (l.seat j g').seat i g := by
  rw [seat, seat, seat, seat]
  congr 1
  funext k
  dsimp only
  by_cases hk : k = j
  · subst hk
    rw [if_pos rfl, if_neg (Ne.symm hij), if_pos rfl]
  · rw [if_neg hk, if_neg hk]

/-- The steps of the others go the same way whoever is in this place. -/
theorem step_seat (hstep : l.step m e = some u) (he : e.isOf i = false) (g : Guest) :
    (l.seat i g).step m e = some (u.seat i g) := by
  cases e with
  | pass nanos =>
    obtain rfl := Option.some.inj hstep
    rfl
  | guest j act =>
    -- The step is that of another seat, so it may be made before or after.
    have hij : j ≠ i := by simpa [Event.isOf] using he
    obtain ⟨next, hnext, rfl⟩ := Option.map_eq_some_iff.mp hstep
    have hnext' : ((l.seat i g).guests j).step m (l.seat i g).hall act = some next := by
      rw [guests_seat_of_ne l g hij]
      exact hnext
    show Option.map _ (((l.seat i g).guests j).step m (l.seat i g).hall act) = _
    rw [hnext']
    exact congrArg some (seat_comm { l with hall := next.2 } (Ne.symm hij) g next.1)

/-- A step that changes nothing for the others only matters to who is in its place. -/
theorem seat_of_hall_eq {act : Guest.Act} (hstep : l.step m (.guest i act) = some u)
    (hhall : u.hall = l.hall) (g : Guest) : u.seat i g = l.seat i g := by
  obtain ⟨⟨g', hall⟩, -, rfl⟩ := Option.map_eq_some_iff.mp hstep
  obtain rfl : hall = l.hall := hhall
  exact seat_seat l i g' g

/-- A step of a connection that does not come in changes nothing else. -/
theorem Sound.seat_eq (h : l.Sound m q) (hcounts : m.Counts q tokens)
    (hstep : l.step m e = some u) (he : e.isOf i = true)
    (hout : (u.guests i).entrance ≠ .admitted) (g : Guest) : u.seat i g = l.seat i g := by
  cases e with
  | pass nanos => cases he
  | guest j act =>
    obtain rfl : j = i := by simpa [Event.isOf] using he
    exact seat_of_hall_eq hstep ((moves_of_step hstep).hall_eq hcounts h.reached hout) g

/-- **No trace.**  Without the steps of a connection that is not let in, the run goes the same way
and ends in the same lobby but for this connection. -/
theorem Sound.run_without (h : l.Sound m q) (hcounts : m.Counts q tokens)
    (hrun : l.run m es = some l') (hout : (l'.guests i).entrance ≠ .admitted) (g : Guest) :
    (l.seat i g).run m (es.filter fun e => !e.isOf i) = some (l'.seat i g) := by
  induction es generalizing l with
  | nil =>
    obtain rfl := Option.some.inj hrun
    rfl
  | cons e es ih =>
    obtain ⟨u, hstep, hrest⟩ := run_cons_eq_some_iff.mp hrun
    have hrest' := ih (h.step hstep) hrest
    cases he : e.isOf i with
    | true =>
      -- Who is not in at the end has not been in after any step.
      have hu : (u.guests i).entrance ≠ .admitted := fun hin => hout (admitted_run hrest hin)
      rw [List.filter_cons_of_neg (by simp [he]), ← h.seat_eq hcounts hstep he hu g]
      exact hrest'
    | false =>
      rw [List.filter_cons_of_pos (by simp [he])]
      exact run_cons_eq_some_iff.mpr ⟨_, step_seat hstep he g, hrest'⟩

/-! ### What a client sends -/

/-- The lobby without what the client of this connection has sent. -/
def unheard (l : Lobby σ γ) (i : Nat) : Lobby σ γ := l.seat i (l.guests i).unheard

/-- The client of this connection does something. -/
def Event.isHeardFrom (i : Nat) : Event → Bool
  | guest j act => j == i && act.isHeard
  | pass _ => false

/-- What a client does is not seen once its own words are left out. -/
theorem unheard_eq (hstep : l.step m e = some u) (he : e.isHeardFrom i = true) :
    u.unheard i = l.unheard i := by
  cases e with
  | pass nanos => cases he
  | guest j act =>
    obtain ⟨hij, hact⟩ := Bool.and_eq_true_iff.mp he
    obtain rfl : j = i := by simpa using hij
    obtain ⟨hguest, hhall⟩ := (moves_of_step hstep).unheard_eq hact
    rw [unheard, unheard, hguest]
    exact seat_of_hall_eq hstep hhall _

/-- Any other step but an answer goes the same way with the words left out. -/
theorem step_unheard (hstep : l.step m e = some u) (he : e.isHeardFrom i = false)
    (hanswer : e ≠ .guest i .answer) : (l.unheard i).step m e = some (u.unheard i) := by
  cases e with
  | pass nanos =>
    obtain rfl := Option.some.inj hstep
    rfl
  | guest j act =>
    by_cases hij : j = i
    · subst hij
      have hact : act.isHeard = false := by simpa [Event.isHeardFrom] using he
      obtain ⟨⟨g, hall⟩, hnext, rfl⟩ := Option.map_eq_some_iff.mp hstep
      have hunheard := Guest.step_unheard hact (fun heq => hanswer (by rw [heq])) hnext
      show Option.map _ (((l.unheard j).guests j).step m l.hall act) = _
      rw [unheard, guests_seat_self, hunheard, Option.map_some, unheard, guests_seat_self]
      refine congrArg some ?_
      rw [seat_seat]
      exact seat_seat { l with hall } j _ _
    · -- A step of another connection leaves this one as it was.
      have hguest : u.guests i = l.guests i := guests_step_of_ne hstep (Ne.symm hij)
      rw [unheard, unheard, hguest]
      exact step_seat hstep (by simpa [Event.isOf] using hij) _

/-- A run without an answer goes the same way without the words of the connection. -/
theorem run_unheard (hrun : l.run m es = some l') (hanswer : .guest i .answer ∉ es) :
    (l.unheard i).run m (es.filter fun e => !e.isHeardFrom i) = some (l'.unheard i) := by
  -- By induction on the run: what the client does falls away, and all else goes the same way.
  induction es generalizing l with
  | nil =>
    obtain rfl := Option.some.inj hrun
    rfl
  | cons e es ih =>
    obtain ⟨u, hstep, hrest⟩ := run_cons_eq_some_iff.mp hrun
    obtain ⟨hfirst, hlater⟩ := not_or.mp (mt List.mem_cons.mpr hanswer)
    have hrest' := ih hrest hlater
    cases he : e.isHeardFrom i with
    | true =>
      rw [List.filter_cons_of_neg (by simp [he]), ← unheard_eq hstep he]
      exact hrest'
    | false =>
      rw [List.filter_cons_of_pos (by simp [he])]
      exact run_cons_eq_some_iff.mpr ⟨_, step_unheard hstep he (Ne.symm hfirst), hrest'⟩

/-- Only who has been let in is answered. -/
theorem answer_notMem (hrun : l.run m es = some l') (hout : (l'.guests i).entrance ≠ .admitted) :
    .guest i .answer ∉ es := by
  induction es generalizing l with
  | nil => exact List.not_mem_nil
  | cons e es ih =>
    obtain ⟨u, hstep, hrest⟩ := run_cons_eq_some_iff.mp hrun
    refine mt List.mem_cons.mp (not_or.mpr ⟨?_, ih hrest⟩)
    rintro rfl
    have hadmitted := (moves_of_step hstep).of_answer.1
    exact hout (admitted_run hrest (admitted_step hstep hadmitted))

/-- **Deafness.**  Runs that differ only in what the client of one connection does end in the same
lobby, but for what it has sent, unless the connection is let in. -/
theorem unheard_run_congr {l'' : Lobby σ γ} {fs : List Event} (hrun : l.run m es = some l')
    (hout : (l'.guests i).entrance ≠ .admitted) (hrun' : l.run m fs = some l'')
    (hsame : (fs.filter fun e => !e.isHeardFrom i) = es.filter fun e => !e.isHeardFrom i) :
    l''.unheard i = l'.unheard i := by
  have hanswer := answer_notMem hrun hout
  -- The other run has the same steps apart from those of the client, so it has no answer either.
  have hanswer' : .guest i .answer ∉ fs := by
    intro hmem
    have hkept : Event.guest i .answer ∈ fs.filter fun e => !e.isHeardFrom i := by
      simp [hmem, Event.isHeardFrom, Guest.Act.isHeard]
    rw [hsame] at hkept
    exact hanswer (List.mem_of_mem_filter hkept)
  have hends := run_unheard hrun' hanswer'
  rw [hsame, run_unheard hrun hanswer] at hends
  exact (Option.some.inj hends).symm

end Lobby
end WireCall
