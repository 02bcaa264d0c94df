import WireCall.Proofs.Lobby.Traces
import WireCall.Proofs.Traffic.Runs

namespace WireCall

/-!
# Calls at a gate as connections at a limiter

A server sees of a call what arrives, and knows where the connection stands at the gate and what it
has replied (`Call.guest`).  Each step of a call is a step of this connection or none at all, so
every run of calls is a run of the lobby (`Traffic.Runs.lobby`).  A connection that has the gate for
itself fares as `Gate.acquire` says (`Gate.acquire_run`).
-/

/-- The connection of a call. -/
def Call.guest (c : Call) : Guest where
  arrived := c.atServer
  entrance := c.entrance
  sent := c.reply.getD []
  closed := c.reply.isSome

/-- What the connections of all calls share at a gate. -/
def Common.hall {σ : Type} (common : Common σ) (gate : Gate) : Hall σ (Gate × Nat) where
  responder := common.responder
  patience := gate.settings.patience
  limiter := (gate, common.clock)
  clock := common.clock
  states := common.states

/-- The connections of the calls at a gate. -/
def Traffic.lobby {σ : Type} (t : Traffic σ) (gate : Gate) : Lobby σ (Gate × Nat) :=
  ⟨t.common.hall gate, fun i => (t.calls i).guest⟩

/-- A gate with the time beside it checks as it is asked at that time. -/
theorem Gate.check_of_tryAcquire {s : Gate × Nat} {g g' : Gate} {now : Nat} {granted : Bool}
    (hs : s = (g, now)) (h : g.tryAcquire now = (granted, g')) :
    limiter.check s = (granted, (g', now)) := by
  rw [hs]
  show ((g.tryAcquire now).1, (g.tryAcquire now).2, now) = _
  rw [h]

/-- The gate that refuses is left as it was. -/
theorem Gate.eq_of_refused {g g' : Gate} {now : Nat} (h : g.tryAcquire now = (false, g')) :
    g' = g := by
  have hself := Gate.tryAcquire_eq_self (congrArg Prod.fst h)
  rwa [h] at hself

/-! ### Steps -/

namespace Call

variable {σ : Type} {c c' : Call} {common common' : Common σ} {gate : Gate} {act : Act}

/-- The connection and what all share are as they were, or have made a step. -/
def Follows (c : Call) (common : Common σ) (gate : Gate) (c' : Call) (common' : Common σ) : Prop :=
  ∃ gate', common'.gate = some gate' ∧
    (c'.guest = c.guest ∧ common'.hall gate' = common.hall gate ∨
      ∃ act, c.guest.step Gate.limiter (common.hall gate) act =
        some (c'.guest, common'.hall gate'))

/-- A call refused is a guest refused. -/
theorem guest_refuse (hreply : c.reply = none) (cause : RateFault) :
    (c.refuse cause).guest = c.guest.refuse cause := by
  rw [guest, guest, Guest.refuse, Guest.closeWith]
  simp [hreply, refuse, replyWith]

/-- What all share when the gate has been asked. -/
theorem hall_of_tryAcquire {gate' : Gate} {granted : Bool}
    (h : gate.tryAcquire common.clock = (granted, gate')) :
    ({ common with gate := some gate' } : Common σ).hall gate' =
      { common.hall gate with limiter := (gate', common.clock) } := by
  have hsettings := Gate.settings_tryAcquire gate common.clock
  rw [h] at hsettings
  rw [Common.hall, Common.hall, show gate'.settings = gate.settings from hsettings]

/-- A call let in at a gate is a guest let in. -/
theorem follows_letIn {gate' : Gate} (htry : gate.tryAcquire common.clock = (true, gate'))
    (hpending : c.entrance.Pending) :
    Follows c common gate c.letIn { common with gate := some gate' } := by
  refine ⟨gate', rfl, .inr ⟨.ask, ?_⟩⟩
  rw [hall_of_tryAcquire htry]
  exact Guest.ask_of_granted (g := c.guest) hpending (Gate.check_of_tryAcquire rfl htry)

/-- Who gets no token on arrival is refused or waits, as the settings say. -/
theorem follows_wait (hgate : common.gate = some gate) (hreply : c.reply = none)
    (houtside : c.entrance = .outside) (htry : gate.tryAcquire common.clock = (false, gate)) :
    Follows c common gate (if gate.settings.patience.isZero then c.refuse .noToken
      else { c with entrance := .waiting common.clock }) common := by
  have hlimiter : (common.hall gate).limiter = (gate, common.clock) := rfl
  have hask := Guest.ask_of_outside (g := c.guest) houtside
    (Gate.check_of_tryAcquire hlimiter htry)
  refine ⟨gate, hgate, .inr ⟨.ask, hask.trans ?_⟩⟩
  show some (if gate.settings.patience.isZero then _ else _, _) = _
  split
  · rw [guest_refuse hreply]
    rfl
  · rfl

/-- A call that enters is a guest that asks. -/
theorem follows_of_enter (hgate : common.gate = some gate)
    (hreply : c.entrance.Pending → c.reply = none)
    (h : c.enter common = some (c', common')) : Follows c common gate c' common' := by
  rcases htry : gate.tryAcquire common.clock with ⟨granted, gate'⟩
  rw [enter, hgate] at h
  -- By cases on where the call stands at the gate: only one that is outside or waits may ask.
  cases hentrance : c.entrance with
  | outside =>
    have hpending : c.entrance.Pending := by rw [hentrance]; trivial
    rw [hentrance] at h
    dsimp only at h
    rw [htry] at h
    cases granted with
    | true =>
      obtain ⟨rfl, rfl⟩ := Prod.mk.inj (Option.some.inj h)
      exact follows_letIn htry hpending
    | false =>
      obtain rfl := Gate.eq_of_refused htry
      have hwait := follows_wait hgate (hreply hpending) hentrance htry
      dsimp only at h
      split at h
      · rename_i hzero
        obtain ⟨rfl, rfl⟩ := Prod.mk.inj (Option.some.inj h)
        rwa [if_pos hzero] at hwait
      · rename_i hzero
        obtain ⟨rfl, rfl⟩ := Prod.mk.inj (Option.some.inj h)
        rwa [if_neg hzero] at hwait
  | waiting since =>
    rw [hentrance] at h
    dsimp only at h
    rw [htry] at h
    cases granted with
    | true =>
      dsimp only at h
      split at h
      · obtain ⟨rfl, rfl⟩ := Prod.mk.inj (Option.some.inj h)
        exact follows_letIn htry (by rw [hentrance]; trivial)
      · cases h
    | false => cases h
  | admitted | refused cause =>
    rw [hentrance] at h
    cases h

theorem follows_of_turnAway (hgate : common.gate = some gate)
    (hreply : c.entrance.Pending → c.reply = none)
    (h : c.turnAway common = some c') : Follows c common gate c' common := by
  rw [turnAway, hgate] at h
  cases hentrance : c.entrance with
  -- Only who waits can run out of patience.
  | waiting since =>
    rw [hentrance] at h
    dsimp only at h
    split at h
    · rename_i hlate
      obtain rfl := Option.some.inj h
      refine ⟨gate, hgate, .inr ⟨.expire, ?_⟩⟩
      rw [guest_refuse (hreply (by rw [hentrance]; trivial)), Guest.step, Guest.expire,
        show c.guest.entrance = .waiting since from hentrance]
      exact congrArg (Option.map _) (if_pos hlate)
    · cases h
  | outside | admitted | refused cause =>
    rw [hentrance] at h
    cases h

theorem follows_of_answer (hgate : common.gate = some gate)
    (h : c.answer common = some (c', common')) : Follows c common gate c' common' := by
  rw [answer] at h
  split at h
  · rename_i hguard
    obtain ⟨hadmitted, hreply, hdecided⟩ := hguard
    obtain ⟨rfl, rfl⟩ := Prod.mk.inj (Option.some.inj h)
    refine ⟨gate, hgate, .inr ⟨.answer, ?_⟩⟩
    have hready : c.guest.isReady common.responder.maximum = true := by
      rw [Guest.isReady]
      exact Bool.or_eq_true_iff.mpr (.inl hdecided)
    refine (if_pos ⟨hadmitted, by rw [guest, hreply]; rfl, hready⟩).trans ?_
    rw [guest, guest, hreply]
    rfl
  · cases h

/-- A step of a call is a step of its connection, or none that the server notices. -/
theorem follows_of_step (hgate : common.gate = some gate)
    (hreply : c.entrance.Pending → c.reply = none)
    (h : c.step common act = some (c', common')) : Follows c common gate c' common' := by
  have hmoves := moves_of_step h
  cases act with
  | enter => exact follows_of_enter hgate hreply h
  | answer => exact follows_of_answer hgate h
  | turnAway =>
    obtain ⟨next, hnext, heq⟩ := Option.map_eq_some_iff.mp h
    obtain ⟨rfl, rfl⟩ := Prod.mk.inj heq
    exact follows_of_turnAway hgate hreply hnext
  | carry count =>
    cases hmoves with
    | carry bytes rest hsplit => exact ⟨gate, hgate, .inr ⟨.deliver bytes, rfl⟩⟩
  | send | bring count | settle | abandon =>
    -- What happens at the client or on the way to it is nothing to the server.
    cases hmoves
    exact ⟨gate, hgate, .inl ⟨rfl, rfl⟩⟩

end Call

/-! ### Runs -/

namespace Traffic

variable {σ : Type} {t t' : Traffic σ} {start : Nat → Call} {es : List Event} {e : Event}
  {gate : Gate}

/-- The lobby seats the call that the traffic puts. -/
theorem lobby_seat (t : Traffic σ) (i : Nat) (c : Call) (common : Common σ) (gate : Gate) :
    (⟨common.hall gate, fun j => (t.calls j).guest⟩ : Lobby σ (Gate × Nat)).seat i c.guest =
      Traffic.lobby ⟨common, fun j => if j = i then c else t.calls j⟩ gate := by
  rw [Lobby.seat, lobby]
  congr 1
  funext j
  dsimp only
  split <;> rfl

/-- A step of the calls is a step of the lobby, or none. -/
theorem lobby_step (hgate : t.common.gate = some gate)
    (hconsistent : ∀ i, (start i).Consistent (t.calls i)) (hstep : t.step e = some t') :
    ∃ gate' fs, t'.common.gate = some gate' ∧
      (t.lobby gate).run Gate.limiter fs = some (t'.lobby gate') := by
  cases e with
  | pass nanos =>
    obtain rfl := Option.some.inj hstep
    exact ⟨gate, [.pass nanos], hgate, rfl⟩
  | call i act =>
    obtain ⟨⟨c, common⟩, hnext, rfl⟩ := Option.map_eq_some_iff.mp hstep
    obtain ⟨gate', hgate', hfollows⟩ := Call.follows_of_step hgate (hconsistent i).pending hnext
    have hlobby := lobby_seat t i c common gate'
    -- A step of the call is a step of the guest, or it is out of the lobby's sight.
    rcases hfollows with ⟨hguest, hhall⟩ | ⟨act', hact⟩
    · refine ⟨gate', [], hgate', congrArg some (Eq.trans ?_ hlobby)⟩
      rw [hguest, hhall]
      exact (Lobby.seat_self (t.lobby gate) i).symm
    · exact ⟨gate', [.guest i act'], hgate',
        Lobby.run_singleton (Option.map_eq_some_iff.mpr ⟨_, hact, hlobby⟩)⟩

/-- **Calls at a gate.**  Every run of calls at a gate is a run of their connections. -/
theorem Runs.lobby (h : Runs t es t') (hfresh : ∀ i, (t.calls i).Fresh)
    (hgate : t.common.gate = some gate) :
    ∃ gate' fs, t'.common.gate = some gate' ∧
      (t.lobby gate).run Gate.limiter fs = some (t'.lobby gate') := by
  induction h with
  | nil => exact ⟨gate, [], hgate, rfl⟩
  | @snoc es e u u' hruns hstep ih =>
    obtain ⟨gate₁, fs₁, hgate₁, hrun₁⟩ := ih
    have hconsistent := hruns.consistent fun i => (hfresh i).consistent
    obtain ⟨gate₂, fs₂, hgate₂, hrun₂⟩ := lobby_step hgate₁ hconsistent hstep
    exact ⟨gate₂, fs₁ ++ fs₂, hgate₂, Lobby.run_append hrun₁ hrun₂⟩

end Traffic

/-! ### A connection on its own -/

/-- Where a connection stands about which the gate has decided. -/
def Entrance.ofOutcome : Except RateFault Unit → Entrance
  | .ok () => admitted
  | .error cause => refused cause

namespace Gate

variable {σ : Type} {l : Lobby σ (Gate × Nat)} {g : Gate} {now i : Nat}

/-- A gate that refuses is ready only later. -/
theorem lt_readyAt (htry : (g.tryAcquire now).1 = false) : now < g.readyAt now := by
  rw [tryAcquire] at htry
  split at htry
  · cases htry
  · rename_i hlate
    exact Nat.lt_of_not_le hlate

/-- A gate that refuses has handed out tokens, so the time of the next one stands. -/
theorem readyAt_eq (htry : (g.tryAcquire now).1 = false) (later : Nat) :
    g.readyAt later = g.readyAt now := by
  cases hdue : g.due with
  | some due => rw [readyAt, readyAt, dueAt, dueAt, hdue, Option.getD_some, Option.getD_some]
  | none =>
    have hlate := lt_readyAt htry
    have hburst : g.period ≤ g.tolerance := Nat.le_mul_of_pos_left _ g.burst_pos
    rw [readyAt, dueAt, hdue, Option.getD_none] at hlate
    omega

/-! Where entering the gate may lead, by what the gate does on arrival and how long the connection
may wait. -/

/-- A token that is there is granted at once. -/
theorem acquire_of_granted {g' : Gate} (htry : g.tryAcquire now = (true, g')) :
    g.acquire now = ⟨.ok (), now, g'⟩ := by
  rw [acquire, htry]

/-- Without patience a refusal is final. -/
theorem acquire_of_impatient (htry : g.tryAcquire now = (false, g))
    (hzero : g.settings.patience.isZero = true) : g.acquire now = ⟨.error .noToken, now, g⟩ := by
  rw [acquire, htry]
  exact if_pos hzero

/-- A token that comes within the patience is waited for. -/
theorem acquire_of_ready (htry : g.tryAcquire now = (false, g))
    (hpatient : ¬ g.settings.patience.isZero = true)
    (hready : g.readyAt now ≤ now + g.settings.patience.nanos) :
    g.acquire now = ⟨.ok (), g.readyAt now, g.take (g.readyAt now)⟩ := by
  rw [acquire, htry]
  exact (if_neg hpatient).trans (if_pos hready)

/-- A token that comes too late is not waited for longer than the patience. -/
theorem acquire_of_late (htry : g.tryAcquire now = (false, g))
    (hpatient : ¬ g.settings.patience.isZero = true)
    (hlate : ¬ g.readyAt now ≤ now + g.settings.patience.nanos) :
    g.acquire now = ⟨.error (.noTokenWithin g.settings.patience.milliseconds),
      now + g.settings.patience.nanos, g⟩ := by
  rw [acquire, htry]
  exact (if_neg hpatient).trans (if_neg hlate)

/-- A connection that has to wait does so while time passes. -/
theorem run_ask_pass (hlimiter : l.hall.limiter = (g, now)) (hclock : l.hall.clock = now)
    (houtside : (l.guests i).entrance = .outside) (htry : g.tryAcquire now = (false, g))
    (hpatient : ¬ l.hall.patience.isZero = true) (nanos : Nat) :
    ∃ u, l.run limiter [.guest i .ask, .pass nanos] = some u ∧
      u.hall.limiter = (g, now + nanos) ∧ u.hall.clock = now + nanos ∧
      u.hall.patience = l.hall.patience ∧ (u.guests i).entrance = .waiting now := by
  have hstep := Lobby.step_ask_of_outside houtside (check_of_tryAcquire hlimiter htry)
  rw [if_neg hpatient, hclock] at hstep
  refine ⟨_, Lobby.run_cons_eq_some_iff.mpr ⟨_, hstep, rfl⟩, ?_, ?_, rfl, ?_⟩
  · rfl
  · exact congrArg (· + nanos) hclock
  · exact congrArg Guest.entrance (Lobby.guests_seat_self _ i _)

/-- **Entering the gate.**  A connection that asks, waits and asks again when a token is due, or
until its patience is over, while nobody else asks, ends up as `Gate.acquire` says, at the time and
with the gate that it says. -/
theorem acquire_run (hlimiter : l.hall.limiter = (g, now)) (hclock : l.hall.clock = now)
    (hpatience : l.hall.patience = g.settings.patience)
    (houtside : (l.guests i).entrance = .outside) :
    ∃ es l', l.run limiter es = some l' ∧
      l'.hall.limiter = ((g.acquire now).gate, (g.acquire now).time) ∧
      (l'.guests i).entrance = .ofOutcome (g.acquire now).outcome := by
  rcases htry : g.tryAcquire now with ⟨granted, g'⟩
  cases granted with
  | true =>
    have hstep := Lobby.step_ask_of_granted (by rw [houtside]; trivial)
      (check_of_tryAcquire hlimiter htry)
    rw [acquire_of_granted htry]
    exact ⟨_, _, Lobby.run_singleton hstep, rfl,
      congrArg Guest.entrance (Lobby.guests_seat_self _ i _)⟩
  | false =>
    obtain rfl := eq_of_refused htry
    by_cases hzero : g'.settings.patience.isZero = true
    · have hstep := Lobby.step_ask_of_outside houtside (check_of_tryAcquire hlimiter htry)
      rw [hpatience, if_pos hzero] at hstep
      rw [acquire_of_impatient htry hzero]
      exact ⟨_, _, Lobby.run_singleton hstep, rfl,
        congrArg Guest.entrance (Lobby.guests_seat_self _ i _)⟩
    · have hwait := run_ask_pass hlimiter hclock houtside htry (hpatience ▸ hzero)
      by_cases hready : g'.readyAt now ≤ now + g'.settings.patience.nanos
      · obtain ⟨u, hrun, hlimiter', -, -, hwaiting⟩ := hwait (g'.readyAt now - now)
        have hlate := lt_readyAt (congrArg Prod.fst htry)
        rw [Nat.add_sub_cancel' (Nat.le_of_lt hlate)] at hlimiter'
        -- When the time has come that the gate named, there is a token.
        have htake : g'.tryAcquire (g'.readyAt now) = (true, g'.take (g'.readyAt now)) :=
          if_pos (Nat.le_of_eq (readyAt_eq (congrArg Prod.fst htry) _))
        have hstep := Lobby.step_ask_of_granted (by rw [hwaiting]; trivial)
          (check_of_tryAcquire hlimiter' htake)
        rw [acquire_of_ready htry hzero hready]
        exact ⟨_, _, Lobby.run_append hrun (Lobby.run_singleton hstep), rfl,
          congrArg Guest.entrance (Lobby.guests_seat_self _ i _)⟩
      · obtain ⟨u, hrun, hlimiter', hclock', hpatience', hwaiting⟩ :=
          hwait g'.settings.patience.nanos
        have hexpire : (u.guests i).expire u.hall = some ((u.guests i).refuse
            (.noTokenWithin g'.settings.patience.milliseconds)) := by
          rw [Guest.expire, hwaiting, hpatience', hpatience, hclock']
          exact if_pos (Nat.le_refl _)
        have hstep : u.step limiter (.guest i .expire) = some (u.seat i ((u.guests i).refuse
            (.noTokenWithin g'.settings.patience.milliseconds))) :=
          Option.map_eq_some_iff.mpr ⟨_, Option.map_eq_some_iff.mpr ⟨_, hexpire, rfl⟩, rfl⟩
        rw [acquire_of_late htry hzero hready]
        exact ⟨_, _, Lobby.run_append hrun (Lobby.run_singleton hstep), hlimiter',
          congrArg Guest.entrance (Lobby.guests_seat_self u i _)⟩

end Gate
end WireCall
