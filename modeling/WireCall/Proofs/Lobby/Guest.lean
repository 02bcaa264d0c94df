import WireCall.Lobby
import WireCall.Proofs.Traffic.Call

namespace WireCall

/-!
# The steps of a connection at a limiter

A limiter counts tokens (`Limiter.Counts`) if it starts with a burst of them at most, and asking it
takes one token when there is one and changes nothing otherwise.  Nothing more is assumed of it.

`Guest.Moves` lists what a step of a connection can do, and `Guest.moves_of_step` says that there is
nothing else.  From the list follows what is true of a connection all along (`Guest.Settled`), and
that a step takes a token exactly if it lets the connection in (`Guest.Moves.tokens`).
-/

/-! ### Limiters that count tokens -/

namespace Limiter

variable {γ : Type}

/-- The states that a limiter can come to. -/
inductive Reached (m : Limiter γ) (q : Quota) : γ → Prop where
  | fresh : Reached m q (m.fresh q)
  | check {s : γ} (reached : Reached m q s) : Reached m q (m.check s).2
  | pass {s : γ} (nanos : Nat) (reached : Reached m q s) : Reached m q (m.pass nanos s)

/-- The limiter hands out what `tokens` counts: there is at most a burst of tokens to begin with,
and asking for one takes one if there is one, and changes nothing otherwise. -/
structure Counts (m : Limiter γ) (q : Quota) (tokens : γ → Nat) : Prop where
  fresh : tokens (m.fresh q) ≤ q.burst.toNat
  grants : ∀ s, Reached m q s → 0 < tokens s →
    (m.check s).1 = true ∧ tokens (m.check s).2 + 1 = tokens s
  refuses : ∀ s, Reached m q s → tokens s = 0 → m.check s = (false, s)

variable {m : Limiter γ} {q : Quota} {tokens : γ → Nat} {s : γ}

/-- A grant takes one token. -/
theorem Counts.tokens_check (h : m.Counts q tokens) (hreached : m.Reached q s)
    (hgranted : (m.check s).1 = true) : tokens (m.check s).2 + 1 = tokens s := by
  rcases Nat.eq_zero_or_pos (tokens s) with hzero | hpos
  · rw [h.refuses s hreached hzero] at hgranted
    cases hgranted
  · exact (h.grants s hreached hpos).2

theorem Counts.check_eq_self (h : m.Counts q tokens) (hreached : m.Reached q s)
    (hrefused : (m.check s).1 = false) : (m.check s).2 = s := by
  rcases Nat.eq_zero_or_pos (tokens s) with hzero | hpos
  · rw [h.refuses s hreached hzero]
  · rw [(h.grants s hreached hpos).1] at hrefused
    cases hrefused

end Limiter

/-- Why a connection is refused that may wait so long. -/
def Duration.refusal (patience : Duration) : RateFault :=
  if patience.isZero then .noToken else .noTokenWithin patience.milliseconds

namespace Guest

variable {σ γ : Type} {m : Limiter γ} {g g' : Guest} {hall hall' : Hall σ γ} {act : Act}

/-! ### What a step can do -/

/-- The effect of a step on the connection and on what all connections share. -/
inductive Moves (m : Limiter γ) (g : Guest) (hall : Hall σ γ) : Act → Guest → Hall σ γ → Prop where
  | deliver (bytes : Octets) :
      Moves m g hall (.deliver bytes) { g with arrived := g.arrived ++ [bytes] } hall
  | hangUp : Moves m g hall .hangUp { g with ended := true } hall
  | letIn (pending : g.entrance.Pending) (granted : (m.check hall.limiter).1 = true) :
      Moves m g hall .ask { g with entrance := .admitted }
        { hall with limiter := (m.check hall.limiter).2 }
  | refuse (outside : g.entrance = .outside) (refused : (m.check hall.limiter).1 = false)
      (impatient : hall.patience.isZero = true) :
      Moves m g hall .ask (g.refuse .noToken) { hall with limiter := (m.check hall.limiter).2 }
  | wait (outside : g.entrance = .outside) (refused : (m.check hall.limiter).1 = false)
      (patient : hall.patience.isZero = false) :
      Moves m g hall .ask { g with entrance := .waiting hall.clock }
        { hall with limiter := (m.check hall.limiter).2 }
  | stay (since : Nat) (waiting : g.entrance = .waiting since)
      (refused : (m.check hall.limiter).1 = false) :
      Moves m g hall .ask g { hall with limiter := (m.check hall.limiter).2 }
  | expire (since : Nat) (waiting : g.entrance = .waiting since)
      (late : since + hall.patience.nanos ≤ hall.clock) :
      Moves m g hall .expire (g.refuse (.noTokenWithin hall.patience.milliseconds)) hall
  | answer (admitted : g.entrance = .admitted) (unanswered : g.closed = false) :
      Moves m g hall .answer (g.closeWith (hall.responder.serve g.arrived hall.states).1)
        { hall with states := (hall.responder.serve g.arrived hall.states).2 }

/-- Asking is one of the moves. -/
theorem moves_of_ask (h : g.ask m hall = some (g', hall')) : Moves m g hall .ask g' hall' := by
  rw [ask] at h
  dsimp only at h
  -- By where the connection stands, and by what the limiter says.
  split at h
  · rename_i hentrance hgranted
    obtain ⟨rfl, rfl⟩ := Prod.mk.inj (Option.some.inj h)
    exact .letIn (by rw [hentrance]; trivial) hgranted
  · rename_i hentrance hgranted
    obtain ⟨rfl, rfl⟩ := Prod.mk.inj (Option.some.inj h)
    exact .letIn (by rw [hentrance]; trivial) hgranted
  · rename_i hentrance hrefused
    split at h
    · rename_i hzero
      obtain ⟨rfl, rfl⟩ := Prod.mk.inj (Option.some.inj h)
      exact .refuse hentrance hrefused hzero
    · rename_i hzero
      obtain ⟨rfl, rfl⟩ := Prod.mk.inj (Option.some.inj h)
      exact .wait hentrance hrefused (by simpa using hzero)
  · rename_i since hentrance hrefused
    obtain ⟨rfl, rfl⟩ := Prod.mk.inj (Option.some.inj h)
    exact .stay since hentrance hrefused
  · cases h

theorem moves_of_expire (h : g.expire hall = some g') : Moves m g hall .expire g' hall := by
  rw [expire] at h
  split at h
  · rename_i since hentrance
    split at h
    · rename_i hlate
      obtain rfl := Option.some.inj h
      exact .expire since hentrance hlate
    · cases h
  · cases h

theorem moves_of_answer (h : g.answer hall = some (g', hall')) :
    Moves m g hall .answer g' hall' := by
  rw [answer] at h
  split at h
  · rename_i hguard
    obtain ⟨rfl, rfl⟩ := Prod.mk.inj (Option.some.inj h)
    exact .answer hguard.1 hguard.2.1
  · cases h

/-- Every step is one of these. -/
theorem moves_of_step (h : g.step m hall act = some (g', hall')) : Moves m g hall act g' hall' := by
  -- Every step that is made is one of the moves, with the guard that let it pass.
  cases act with
  | deliver bytes =>
    rw [step] at h
    split at h
    · cases h
    · obtain ⟨rfl, rfl⟩ := Prod.mk.inj (Option.some.inj h)
      exact .deliver bytes
  | hangUp =>
    rw [step] at h
    split at h
    · cases h
    · obtain ⟨rfl, rfl⟩ := Prod.mk.inj (Option.some.inj h)
      exact .hangUp
  | ask => exact moves_of_ask h
  | expire =>
    obtain ⟨next, hnext, heq⟩ := Option.map_eq_some_iff.mp h
    obtain ⟨rfl, rfl⟩ := Prod.mk.inj heq
    exact moves_of_expire hnext
  | answer => exact moves_of_answer h

/-! ### Asking -/

/-- A pending connection that is granted a token is let in. -/
theorem ask_of_granted {s : γ} (hpending : g.entrance.Pending)
    (h : m.check hall.limiter = (true, s)) :
    g.ask m hall = some ({ g with entrance := .admitted }, { hall with limiter := s }) := by
  rw [ask, h]
  cases hentrance : g.entrance with
  | outside | waiting since => rfl
  | admitted => exact (Entrance.not_pending_admitted (hentrance ▸ hpending)).elim
  | refused cause => exact (Entrance.not_pending_refused cause (hentrance ▸ hpending)).elim

/-- Who gets no token on arrival is refused or waits, as the settings say. -/
theorem ask_of_outside {s : γ} (houtside : g.entrance = .outside)
    (h : m.check hall.limiter = (false, s)) :
    g.ask m hall = some (if hall.patience.isZero then g.refuse .noToken
      else { g with entrance := .waiting hall.clock }, { hall with limiter := s }) := by
  rw [ask, h, houtside]
  dsimp only
  split <;> rfl

/-! ### What steps keep -/

/-- What is true of a connection at any time: nothing is written on it as long as it is open, it
waits only if the settings allow it, and once refused it has got the refusal that the settings
call for and is closed. -/
structure Settled (patience : Duration) (g : Guest) : Prop where
  unwritten : g.closed = false → g.sent = []
  pending : g.entrance.Pending → g.closed = false
  patient : ∀ since, g.entrance = .waiting since → patience.isZero = false
  refused : ∀ cause, g.entrance = .refused cause →
    cause = patience.refusal ∧ g.sent = Responder.refuse cause ∧ g.closed = true

/-- A connection that has not come yet is settled. -/
theorem settled_default (patience : Duration) : Settled patience {} where
  unwritten _ := rfl
  pending _ := rfl
  patient := nofun
  refused := nofun

/-- A refusal keeps a connection settled. -/
theorem Settled.refuse {patience : Duration} (h : g.Settled patience)
    (hpending : g.entrance.Pending) {cause : RateFault} (hcause : cause = patience.refusal) :
    (g.refuse cause).Settled patience where
  unwritten := nofun
  pending hpending := (Entrance.not_pending_refused cause hpending).elim
  patient := nofun
  refused cause' heq := by
    obtain rfl := Entrance.refused.inj heq
    refine ⟨hcause, ?_, rfl⟩
    show g.sent ++ Responder.refuse cause = Responder.refuse cause
    rw [h.unwritten (h.pending hpending), List.nil_append]

/-- Every move keeps a connection settled. -/
theorem Settled.moves (h : g.Settled hall.patience) (hmoves : Moves m g hall act g' hall') :
    g'.Settled hall.patience := by
  cases hmoves with
  | deliver bytes | hangUp => exact ⟨h.unwritten, h.pending, h.patient, h.refused⟩
  | letIn hpending hgranted =>
    exact ⟨h.unwritten, fun hp => (Entrance.not_pending_admitted hp).elim, nofun, nofun⟩
  | refuse houtside hrefused himpatient =>
    exact h.refuse (by rw [houtside]; trivial) (if_pos himpatient).symm
  | wait houtside hrefused hpatient =>
    exact ⟨h.unwritten, fun _ => h.pending (by rw [houtside]; trivial), fun _ _ => hpatient, nofun⟩
  | stay since hwaiting hrefused => exact h
  | expire since hwaiting hlate =>
    refine h.refuse (by rw [hwaiting]; trivial) ?_
    rw [Duration.refusal, h.patient since hwaiting]
    rfl
  | answer hadmitted hunanswered =>
    refine ⟨nofun, ?_, ?_, ?_⟩
    · intro hpending
      exact (Entrance.not_pending_admitted (hadmitted ▸ hpending)).elim
    · intro since heq
      cases hadmitted.symm.trans heq
    · intro cause heq
      cases hadmitted.symm.trans heq

/-- No move touches the patience of the hall. -/
theorem Moves.patience_eq (hmoves : Moves m g hall act g' hall') :
    hall'.patience = hall.patience := by
  cases hmoves <;> rfl

/-- No move touches the responder. -/
theorem Moves.responder_eq (hmoves : Moves m g hall act g' hall') :
    hall'.responder = hall.responder := by
  cases hmoves <;> rfl

/-- Only a connection that was let in is answered, with what the responder makes of its stream. -/
theorem Moves.of_answer (hmoves : Moves m g hall .answer g' hall') :
    g.entrance = .admitted ∧ g.closed = false ∧
      g' = g.closeWith (hall.responder.serve g.arrived hall.states).1 := by
  cases hmoves with
  | answer hadmitted hunanswered => exact ⟨hadmitted, hunanswered, rfl⟩

/-- Who is in is answered when the connection is closed. -/
theorem Moves.eq_answer (hmoves : Moves m g hall act g' hall') (hopen : g.closed = false)
    (hclosed : g'.closed = true) (hin : g'.entrance = .admitted) : act = .answer := by
  cases hmoves with
  | answer hadmitted hunanswered => rfl
  | deliver bytes | hangUp | letIn | wait | stay =>
    rw [show g.closed = true from hclosed] at hopen
    cases hopen
  | refuse | expire => cases hin

/-- On a closed connection nothing more is written, and what was decided about it stays. -/
theorem Moves.of_closed (hmoves : Moves m g hall act g' hall') {patience : Duration}
    (h : g.Settled patience) (hclosed : g.closed = true) :
    g'.entrance = g.entrance ∧ g'.sent = g.sent ∧ g'.closed = true := by
  -- A pending connection is open, so only the client can still do something to this one.
  have hdecided : ¬ g.entrance.Pending := by
    intro hpending
    rw [h.pending hpending] at hclosed
    cases hclosed
  cases hmoves with
  | deliver bytes | hangUp => exact ⟨rfl, rfl, hclosed⟩
  | letIn hpending hgranted => exact absurd hpending hdecided
  | refuse houtside | wait houtside => exact absurd (by rw [houtside]; trivial) hdecided
  | stay since hwaiting | expire since hwaiting =>
    exact absurd (by rw [hwaiting]; trivial) hdecided
  | answer hadmitted hunanswered =>
    rw [hclosed] at hunanswered
    cases hunanswered

/-- Who has been let in stays in. -/
theorem Moves.admitted (hmoves : Moves m g hall act g' hall') (h : g.entrance = .admitted) :
    g'.entrance = .admitted := by
  cases hmoves with
  | deliver bytes | hangUp | answer hadmitted hunanswered => exact h
  | letIn hpending hgranted => rfl
  | refuse houtside | wait houtside => cases h.symm.trans houtside
  | stay since hwaiting | expire since hwaiting => cases h.symm.trans hwaiting

/-- The tokens that a connection holds: one, if it is in. -/
def held (g : Guest) : Nat := if g.entrance = .admitted then 1 else 0

/-- A step takes a token exactly if it lets the connection in. -/
theorem Moves.tokens {q : Quota} {tokens : γ → Nat} (hmoves : Moves m g hall act g' hall')
    (hcounts : m.Counts q tokens) (hreached : m.Reached q hall.limiter) :
    tokens hall'.limiter + g'.held = tokens hall.limiter + g.held := by
  -- Who is still pending holds nothing.
  have hheld : g.entrance.Pending → g.held = 0 := by
    intro hpending
    refine if_neg fun hadmitted => ?_
    exact Entrance.not_pending_admitted (hadmitted ▸ hpending)
  cases hmoves with
  | deliver bytes | hangUp | answer hadmitted hunanswered => rfl
  | letIn hpending hgranted =>
    rw [hheld hpending, Nat.add_zero]
    exact hcounts.tokens_check hreached hgranted
  | refuse houtside hrefused | wait houtside hrefused =>
    rw [hcounts.check_eq_self hreached hrefused, hheld (by rw [houtside]; trivial)]
    rfl
  | stay since hwaiting hrefused => rw [hcounts.check_eq_self hreached hrefused]
  | expire since hwaiting hlate =>
    rw [hheld (by rw [hwaiting]; trivial)]
    rfl

/-- A step changes what all share only if the connection is in by then. -/
theorem Moves.hall_eq {q : Quota} {tokens : γ → Nat} (hmoves : Moves m g hall act g' hall')
    (hcounts : m.Counts q tokens) (hreached : m.Reached q hall.limiter)
    (hentrance : g'.entrance ≠ .admitted) : hall' = hall := by
  cases hmoves with
  | deliver bytes | hangUp | expire since hwaiting hlate => rfl
  | letIn hpending hgranted => exact absurd rfl hentrance
  | refuse _ hrefused | wait _ hrefused | stay _ _ hrefused =>
    rw [hcounts.check_eq_self hreached hrefused]
  | answer hadmitted hunanswered => exact absurd hadmitted hentrance

/-- Every move leads the limiter on, or leaves it. -/
theorem Moves.reached {q : Quota} (hmoves : Moves m g hall act g' hall')
    (hreached : m.Reached q hall.limiter) : m.Reached q hall'.limiter := by
  cases hmoves with
  | deliver bytes | hangUp | expire since hwaiting hlate | answer hadmitted hunanswered =>
    exact hreached
  | letIn | refuse | wait | stay => exact hreached.check

end Guest
end WireCall
