import WireCall.Proofs.Lobby.Gate
import WireCall.Proofs.Lobby.Refusal
import WireCall.Proofs.Lobby.Traces
import WireCall.Server.Basic

namespace WireCall

/-!
# Admission

A connection that is let in takes one token, and its request is answered once it has arrived; every
other connection takes none.  A refused connection gets the refusal whatever its client sends, and
leaves everything else as it would be without it.

Main statement: all of this holds at the end of every run, at any limiter that counts tokens and
with any settings that are accepted (`Lobby.run_gated`).
-/

namespace Lobby

variable {σ γ : Type} {m : Limiter γ} {q : Quota} {tokens : γ → Nat} {l l' u : Lobby σ γ}
  {e : Event} {es : List Event} {i : Nat}

/-! ### What is fixed -/

/-- No run touches the responder or the patience. -/
theorem run_fixed (hrun : l.run m es = some l') :
    l'.hall.responder = l.hall.responder ∧ l'.hall.patience = l.hall.patience := by
  refine run_keeps (p := fun u => u.hall.responder = l.hall.responder ∧
    u.hall.patience = l.hall.patience) (fun v u e h hstep => ?_) ⟨rfl, rfl⟩ hrun
  obtain ⟨hresponder, hpatience⟩ := hall_of_step hstep
  exact ⟨hresponder.trans h.1, hpatience.trans h.2⟩

/-- Nothing more happens to a connection that is closed. -/
theorem Sound.closed_run (h : l.Sound m q) (hrun : l.run m es = some l')
    (hclosed : (l.guests i).closed = true) :
    (l'.guests i).entrance = (l.guests i).entrance ∧ (l'.guests i).sent = (l.guests i).sent := by
  have hkept := run_keeps (p := fun u => u.Sound m q ∧ (u.guests i).closed = true ∧
    (u.guests i).entrance = (l.guests i).entrance ∧ (u.guests i).sent = (l.guests i).sent)
    (fun v u e hv hstep => ?_) ⟨h, hclosed, rfl, rfl⟩ hrun
  · exact hkept.2.2
  · obtain ⟨hsound, hclosed, hentrance, hsent⟩ := hv
    refine ⟨hsound.step hstep, ?_⟩
    rcases guest_of_step hstep i with hsame | ⟨act, -, hmoves⟩
    · rw [hsame]
      exact ⟨hclosed, hentrance, hsent⟩
    · obtain ⟨hentrance', hsent', hclosed'⟩ := hmoves.of_closed (hsound.settled i) hclosed
      exact ⟨hclosed', hentrance'.trans hentrance, hsent'.trans hsent⟩

/-! ### The answer -/

/-- The connection was answered in the run, with what the server makes of what had arrived. -/
def Answers (m : Limiter γ) (l l' : Lobby σ γ) (es : List Event) (i : Nat) : Prop :=
  ∃ es₁ es₂ u, es = es₁ ++ .guest i .answer :: es₂ ∧ l.run m es₁ = some u ∧
    (l'.guests i).sent = (l.hall.responder.serve (u.guests i).arrived u.hall.states).1

/-- A connection that is in and is closed was answered at one moment of the run. -/
theorem Sound.answers (h : l.Sound m q) (hrun : l.run m es = some l')
    (hopen : (l.guests i).closed = false) (hclosed : (l'.guests i).closed = true)
    (hin : (l'.guests i).entrance = .admitted) : Answers m l l' es i := by
  induction es generalizing l with
  | nil =>
    obtain rfl := Option.some.inj hrun
    rw [hclosed] at hopen
    cases hopen
  | cons e es ih =>
    obtain ⟨u, hstep, hrest⟩ := run_cons_eq_some_iff.mp hrun
    cases hu : (u.guests i).closed with
    | false =>
      obtain ⟨es₁, es₂, v, rfl, hrun₁, hsent⟩ := ih (h.step hstep) hrest hu
      rw [(hall_of_step hstep).1] at hsent
      exact ⟨e :: es₁, es₂, v, rfl, run_cons_eq_some_iff.mpr ⟨u, hstep, hrun₁⟩, hsent⟩
    | true =>
      -- This step has closed the connection, and what it wrote is still there at the end.
      obtain ⟨hentrance, hsent⟩ := (h.step hstep).closed_run hrest hu
      rcases guest_of_step hstep i with hsame | ⟨act, rfl, hmoves⟩
      · rw [hsame, hopen] at hu
        cases hu
      · obtain rfl := hmoves.eq_answer hopen hu (hentrance ▸ hin)
        refine ⟨[], es, l, rfl, rfl, hsent.trans ?_⟩
        rw [hmoves.of_answer.2.2, Guest.closeWith, (h.settled i).unwritten hopen, List.nil_append]

/-- An open connection that is in is answered as soon as it is known what has arrived on it. -/
theorem isSome_step_answer (hin : (l.guests i).entrance = .admitted)
    (hopen : (l.guests i).closed = false)
    (hready : (l.guests i).isReady l.hall.responder.maximum = true) :
    (l.step m (.guest i .answer)).isSome = true := by
  show (Option.map _ ((l.guests i).answer l.hall)).isSome = true
  rw [Option.isSome_map, Guest.answer, if_pos ⟨hin, hopen, hready⟩]
  rfl

/-- Who asks while there is a token is let in. -/
theorem Sound.step_ask (h : l.Sound m q) (hcounts : m.Counts q tokens)
    (hpending : (l.guests i).entrance.Pending) (hpos : 0 < tokens l.hall.limiter) :
    ∃ u, l.step m (.guest i .ask) = some u ∧ (u.guests i).entrance = .admitted := by
  have hcheck : m.check l.hall.limiter = (true, (m.check l.hall.limiter).2) :=
    Prod.ext (hcounts.grants _ h.reached hpos).1 rfl
  refine ⟨_, step_ask_of_granted hpending hcheck, ?_⟩
  rw [guests_seat_self]

/-- Without patience who asks is let in or refused at once. -/
theorem step_ask_of_isZero (hzero : l.hall.patience.isZero = true)
    (houtside : (l.guests i).entrance = .outside) :
    ∃ u, l.step m (.guest i .ask) = some u ∧ u.hall.clock = l.hall.clock ∧
      ((u.guests i).entrance = .admitted ∨ (u.guests i).entrance = .refused .noToken) := by
  rcases hcheck : m.check l.hall.limiter with ⟨granted, limiter⟩
  cases granted with
  | true =>
    refine ⟨_, step_ask_of_granted (by rw [houtside]; trivial) hcheck, rfl, .inl ?_⟩
    rw [guests_seat_self]
  | false =>
    refine ⟨_, step_ask_of_outside houtside hcheck, rfl, .inr ?_⟩
    rw [guests_seat_self, if_pos hzero]
    rfl

/-- The request on a connection is read: it is answered once it is known what has arrived, and the
connection is closed only then. -/
def Reads (m : Limiter γ) (l l' : Lobby σ γ) (es : List Event) (i : Nat) : Prop :=
  (l'.guests i).closed = false ∧ (l'.guests i).sent = [] ∧
      ((l'.guests i).isReady l.hall.responder.maximum = true →
        (l'.step m (.guest i .answer)).isSome = true) ∨
    (l'.guests i).closed = true ∧ Answers m l l' es i

/-- What becomes of a connection that is let in is read off its stream alone. -/
theorem Sound.reads (h : l.Sound m q) (hrun : l.run m es = some l')
    (hopen : (l.guests i).closed = false) (hin : (l'.guests i).entrance = .admitted) :
    Reads m l l' es i := by
  cases hclosed : (l'.guests i).closed with
  | false =>
    refine .inl ⟨hclosed, ((h.run hrun).settled i).unwritten hclosed, fun hready => ?_⟩
    rw [← (run_fixed hrun).1] at hready
    exact isSome_step_answer hin hclosed hready
  | true => exact .inr ⟨hclosed, h.answers hrun hopen hclosed hin⟩

/-! ### The gate -/

/-- A lobby opens with the limiter as it starts for the settings, and with nobody in it. -/
theorem start_of_ofSettings {settings : AdmissionSettings} {responder : Responder σ}
    {states : Instances σ} (hopen : ofSettings m settings responder states = .ok l) :
    ∃ gate, Gate.ofSettings settings = .ok gate ∧ gate.quota.burst = settings.burst ∧
      l.hall.limiter = m.fresh gate.quota ∧ l.hall.patience = settings.patience ∧
      (∀ i, l.guests i = {}) ∧ l.Sound m gate.quota := by
  obtain ⟨gate, hgate, rfl⟩ := map_eq_ok_iff.mp hopen
  have hsettings := Server.settings_ofSettings hgate
  exact ⟨gate, hgate, congrArg AdmissionSettings.burst hsettings, rfl, rfl, fun _ => rfl, .fresh,
    fun _ => Guest.settled_default _⟩

/-- **Admission.**  At a limiter that counts tokens, with any accepted settings, whatever the
connections do and in whatever order: a connection that is in has taken one token and its request is
read, and any other one has taken none, and is let in if it asks while there is a token; no more
connections are in than a burst and the tokens that time has added; a refused connection has got one
frame, the response with id 0, code 700, tags 0 and no data, and the cause is given by the settings;
a connection that is not in was not answered, left all else as it would be without it, and fares the
same whatever its client sends; and without patience nobody waits. -/
theorem run_gated {settings : AdmissionSettings} {responder : Responder σ} {states : Instances σ}
    (hopen : ofSettings m settings responder states = .ok l)
    (hcounts : ∀ gate, Gate.ofSettings settings = .ok gate → m.Counts gate.quota tokens)
    (hrun : l.run m es = some l') :
    (∀ i, (l'.guests i).entrance = .admitted ∧ l.change m tokens (Event.isOf i) es = -1 ∧
        Reads m l l' es i ∨
      (l'.guests i).entrance ≠ .admitted ∧ l.change m tokens (Event.isOf i) es = 0) ∧
    (∀ i, (l'.guests i).entrance.Pending → 0 < tokens l'.hall.limiter →
      ∃ u, l'.step m (.guest i .ask) = some u ∧ (u.guests i).entrance = .admitted) ∧
    (∀ A : Finset Nat, (∀ i ∈ A, (l'.guests i).entrance = .admitted) →
      (A.card : Int) ≤ settings.burst.toNat + l.change m tokens Event.isPass es) ∧
    (∀ i cause, (l'.guests i).entrance = .refused cause →
      cause = settings.patience.refusal ∧ (l'.guests i).closed = true ∧
      ∃ f : Frame, (l'.guests i).sent = f.encode ∧ f.header.kind = .response ∧
        f.header.requestId = 0 ∧ f.header.compression = 0 ∧ f.header.serialization = 0 ∧
        ∀ maximum : UInt32, 512 ≤ maximum.toNat →
          (∃ rest, Frame.read maximum [f.encode] = .ok (f, rest) ∧ rest.flatten = []) ∧
          f.message maximum = .ok (.response
            ⟨0, 700, (Fault.rateLimited cause).message, 0, 0, .null⟩)) ∧
    (∀ i, (l'.guests i).entrance ≠ .admitted →
      .guest i .answer ∉ es ∧
      (∃ u, l.run m (es.filter fun e => !e.isOf i) = some u ∧ u.hall = l'.hall ∧
        ∀ j, j ≠ i → u.guests j = l'.guests j) ∧
      ∀ fs l'', l.run m fs = some l'' →
        (fs.filter fun e => !e.isHeardFrom i) = (es.filter fun e => !e.isHeardFrom i) →
        l''.unheard i = l'.unheard i) ∧
    (settings.patience.isZero = true → ∀ i,
      (∀ since, (l'.guests i).entrance ≠ .waiting since) ∧
      ((l'.guests i).entrance = .outside → ∃ u, l'.step m (.guest i .ask) = some u ∧
        u.hall.clock = l'.hall.clock ∧
        ((u.guests i).entrance = .admitted ∨ (u.guests i).entrance = .refused .noToken))) := by
  obtain ⟨gate, hgate, hburst, hstart, hpatience, hfresh, hsound⟩ := start_of_ofSettings hopen
  have hcounts := hcounts gate hgate
  have hsound' := hsound.run hrun
  rw [← (run_fixed hrun).2] at hpatience
  refine ⟨fun i => ?_, fun i => hsound'.step_ask hcounts, fun A hA => ?_,
    fun i cause hcause => ?_, fun i hout => ⟨?_, ?_, ?_⟩,
    fun hzero i => ⟨fun since hwaiting => ?_, ?_⟩⟩
  · -- Tokens of one connection: it holds one if it is in, and none otherwise.
    have hchange := hsound.change_isOf hcounts hrun i
    rw [hfresh i] at hchange
    by_cases hin : (l'.guests i).entrance = .admitted
    · refine .inl ⟨hin, ?_, hsound.reads hrun (by rw [hfresh i]) hin⟩
      rw [hchange, Guest.held, Guest.held, if_pos hin]
      rfl
    · refine .inr ⟨hin, ?_⟩
      rw [hchange, Guest.held, Guest.held, if_neg hin]
      rfl
  · -- Tokens of all connections: what they hold was there at first or came with the time.
    have hcard := hsound.card_admitted_le hcounts hrun (fun i _ => by rw [hfresh i]; decide) hA
    have htokens := hcounts.fresh
    rw [hburst] at htokens
    rw [hstart] at hcard
    omega
  · -- A refusal is the whole answer, and it is the frame of its cause.
    obtain ⟨hwhy, hsent, hclosed⟩ := (hsound'.settled i).refused cause hcause
    rw [hpatience] at hwhy
    obtain ⟨f, hencode, hf⟩ := Traffic.read_refuse settings.patience
    rw [← hwhy] at hencode hf
    exact ⟨hwhy, hclosed, f, hsent.trans hencode, hf⟩
  · exact answer_notMem hrun hout
  · have hwithout := hsound.run_without hcounts hrun hout {}
    rw [← hfresh i, seat_self] at hwithout
    exact ⟨_, hwithout, rfl, fun j hj => guests_seat_of_ne _ _ hj⟩
  · exact fun fs l'' hrun' hsame => unheard_run_congr hrun hout hrun' hsame
  · have hpatient := (hsound'.settled i).patient since hwaiting
    rw [hpatience, hzero] at hpatient
    cases hpatient
  · exact step_ask_of_isZero (by rw [hpatience, hzero])

/-! ### Two sample connections -/

/-- A token a second, one at once, and no waiting. -/
def sampleSettings : AdmissionSettings := .ofRate 1 1

/-- The gate of the sample settings, before anybody has come. -/
def sampleLobby : Lobby Catalogue.Total (Gate × Nat) where
  hall := ⟨⟨Responder.sampleTable, Header.defaultMaximum⟩, .zero,
    (⟨sampleSettings, none, by decide, by decide⟩, 0), 0, fun _ => IntKind.zero .i64⟩
  guests _ := {}

/-- Two connections ask for the token one after the other; the second one has sent something. -/
def sampleEvents : List Event :=
  [.guest 0 .ask, .guest 1 (.deliver [29, 1]), .guest 1 .ask, .pass 7]

/-- What the sample run comes to. -/
def sampleEnd : Lobby Catalogue.Total (Gate × Nat) :=
  (sampleLobby.run Gate.limiter sampleEvents).getD sampleLobby

/-- The run of the sample ends in the lobby written out. -/
theorem run_sampleEvents : sampleLobby.run Gate.limiter sampleEvents = some sampleEnd := rfl

/-- The first connection has taken the only token and is read, and the second one has taken none and
has got the refusal. -/
theorem run_gated_sample :
    sampleLobby.change Gate.limiter (fun s => s.1.tokens s.2) (Event.isOf 0) sampleEvents = -1 ∧
    Reads Gate.limiter sampleLobby sampleEnd sampleEvents 0 ∧
    sampleLobby.change Gate.limiter (fun s => s.1.tokens s.2) (Event.isOf 1) sampleEvents = 0 ∧
    ∃ f : Frame, (sampleEnd.guests 1).sent = f.encode ∧
      f.message Header.defaultMaximum = .ok (.response
        ⟨0, 700, "rate limited: no token available", 0, 0, .null⟩) := by
  have hopen : ofSettings Gate.limiter sampleSettings
      ⟨Responder.sampleTable, Header.defaultMaximum⟩ (fun _ => IntKind.zero .i64) =
        .ok sampleLobby := rfl
  have hcounts : ∀ gate, Gate.ofSettings sampleSettings = .ok gate →
      Gate.limiter.Counts gate.quota fun s => s.1.tokens s.2 := by
    intro gate hgate
    refine Gate.counts_limiter ?_
    show gate.settings.rate.toNat ≤ nanosPerSecond
    rw [Server.settings_ofSettings hgate]
    decide
  obtain ⟨htokens, -, -, hrefused, -, -⟩ := run_gated hopen hcounts run_sampleEvents
  have hin : (sampleEnd.guests 0).entrance = .admitted := rfl
  have hout : (sampleEnd.guests 1).entrance = .refused .noToken := rfl
  obtain ⟨-, -, f, hsent, -, -, -, -, hread⟩ := hrefused 1 .noToken hout
  rcases htokens 0 with ⟨-, hone, hreads⟩ | ⟨hnot, -⟩
  · rcases htokens 1 with ⟨hin', -, -⟩ | ⟨-, hnone⟩
    · rw [hout] at hin'
      cases hin'
    · exact ⟨hone, hreads, hnone, f, hsent, (hread _ (by decide)).2⟩
  · exact absurd hin hnot

end Lobby
end WireCall
