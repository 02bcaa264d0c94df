import WireCall.Server.Roster

namespace WireCall

/-!
# Stopping a server

A stop races with the connections that are waiting, and may come before, during or after a run.
Three facts about a single run decide the race.  A run that has not returned and waits has a notice
of the stop (`Acceptor.Alert`), so it can always go on without a connection; each step of a stopped
run brings it closer to its end (`Acceptor.Moves.closing`); and only a run that was waiting for a
connection when the stop came may still hand one over.

A run of a server goes through the states of an acceptor, whatever the other runs do
(`Roster.view_run`), and comes to each of them from the start of one (`Roster.exists_start`), so the
three facts hold of every run.

Main statement: a run returns only after a stop, and then it does, with at most one more connection;
a run that starts after a stop serves nobody (`Roster.run_heeds_stop`).
-/

namespace Acceptor

/-! ### A stopped run -/

/-- The connections that a stopped run may still hand over. -/
def Phase.mayServe : Phase → Nat
  | .waiting => 1
  | _ => 0

/-- The steps that a stopped run makes at most until it returns. -/
def Phase.stepsLeft : Phase → Nat
  | .checking => 1
  | .waiting => 3
  | .pausing => 2
  | .finished => 0

/-- In any phase one more connection may be served at most. -/
theorem Phase.mayServe_le (p : Phase) : p.mayServe ≤ 1 := by
  cases p <;> decide

theorem Phase.stepsLeft_le (p : Phase) : p.stepsLeft ≤ 3 := by
  cases p <;> decide

/-- Only a finished run has no steps left. -/
theorem Phase.eq_finished {p : Phase} (h : p.stepsLeft = 0) : p = .finished := by
  cases p with
  | checking | waiting | pausing => cases h
  | finished => rfl

/-- The steps of the run itself. -/
def ownSteps (es : List Event) : List Event := es.filter (· ≠ .stop)

/-- A run in two parts is the second part run from where the first one ended. -/
theorem run_append (s : State) (es fs : List Event) :
    run s (es ++ fs) = (run s es).bind fun s => run s fs := by
  induction es generalizing s with
  | nil => rfl
  | cons e es ih => simp only [List.cons_append, run, ih, Option.bind_assoc]

theorem run_singleton (s : State) (e : Event) : run s [e] = step s e := by
  cases h : step s e <;> simp [run, h]

/-- What a step of a run, or of its surroundings, changes. -/
inductive Moves (s : State) : Event → State → Prop
  | stop : Moves s .stop { s with stopped := true, notice := true }
  | finish (hphase : s.phase = .checking) (hstopped : s.stopped = true) :
      Moves s .check { s with phase := .finished, notice := false }
  | wait (hphase : s.phase = .checking) (hopen : s.stopped = false) :
      Moves s .check { s with phase := .waiting, notice := false }
  | wake (hphase : s.phase = .waiting ∨ s.phase = .pausing) (hnotice : s.notice = true) :
      Moves s .wake { s with phase := .checking, notice := false }
  | accept (hphase : s.phase = .waiting) :
      Moves s .accept { s with phase := .checking, served := s.served + 1 }
  | fail (hphase : s.phase = .waiting) : Moves s .fail { s with phase := .pausing }
  | resume (hphase : s.phase = .pausing) : Moves s .resume { s with phase := .checking }

/-- Every step is one of the moves. -/
theorem moves_of_step {s s' : State} {e : Event} (h : step s e = some s') : Moves s e s' := by
  -- Event by event, with the phase in which it may happen.
  cases e with
  | stop =>
    cases h
    exact .stop
  | check =>
    obtain ⟨hphase, hs'⟩ := Option.ite_none_right_eq_some.mp h
    cases hs'
    by_cases hstopped : s.stopped = true
    · rw [if_pos hstopped]
      exact .finish hphase hstopped
    · rw [if_neg hstopped]
      exact .wait hphase (Bool.eq_false_iff.mpr hstopped)
  | wake =>
    obtain ⟨⟨hphase, hnotice⟩, hs'⟩ := Option.ite_none_right_eq_some.mp h
    cases hs'
    exact .wake hphase hnotice
  | accept =>
    obtain ⟨hphase, hs'⟩ := Option.ite_none_right_eq_some.mp h
    cases hs'
    exact .accept hphase
  | fail =>
    obtain ⟨hphase, hs'⟩ := Option.ite_none_right_eq_some.mp h
    cases hs'
    exact .fail hphase
  | resume =>
    obtain ⟨hphase, hs'⟩ := Option.ite_none_right_eq_some.mp h
    cases hs'
    exact .resume hphase

/-- Each step of a stopped run brings it closer to its end. -/
theorem Moves.closing {s s' : State} {e : Event} (h : Moves s e s') (hstopped : s.stopped = true)
    (hown : e ≠ .stop) :
    s'.stopped = true ∧ s'.served + s'.phase.mayServe ≤ s.served + s.phase.mayServe ∧
      s'.phase.stepsLeft < s.phase.stepsLeft := by
  cases h with
  | stop => exact absurd rfl hown
  | finish hphase | accept hphase | fail hphase | resume hphase =>
    simp [hphase, hstopped, Phase.mayServe, Phase.stepsLeft]
  | wait hphase hopen => cases hopen.symm.trans hstopped
  | wake hphase hnotice =>
    rcases hphase with hphase | hphase <;>
      simp [hphase, hstopped, Phase.mayServe, Phase.stepsLeft]

/-- What a stopped run has handed over and may still hand over never grows, and each of its steps
is one of those that were left. -/
theorem closing_run {s s' : State} {es : List Event} (hstopped : s.stopped = true)
    (h : run s es = some s') :
    s'.served + s'.phase.mayServe ≤ s.served + s.phase.mayServe ∧
      s'.phase.stepsLeft + (ownSteps es).length ≤ s.phase.stepsLeft := by
  -- By induction on the events; what is still allowed gets less with each step of the loop itself.
  induction es generalizing s with
  | nil =>
    cases h
    simp [ownSteps]
  | cons e es ih =>
    obtain ⟨next, hstep, hrest⟩ := Option.bind_eq_some_iff.mp h
    by_cases hstop : e = .stop
    · -- One more stop changes neither the phase nor the connections.
      subst hstop
      cases hstep
      simpa [ownSteps] using ih rfl hrest
    · obtain ⟨hnext, hserved, hsteps⟩ := (moves_of_step hstep).closing hstopped hstop
      obtain ⟨hserved', hsteps'⟩ := ih hnext hrest
      have hown : ownSteps (e :: es) = e :: ownSteps es := by simp [ownSteps, hstop]
      rw [hown, List.length_cons]
      constructor <;> omega

/-! ### No notice is missed -/

/-- A run that waits, or pauses, has a notice of the stop if there was one. -/
def Alert (s : State) : Prop :=
  s.stopped = true → s.phase = .waiting ∨ s.phase = .pausing → s.notice = true

/-- A run starts alert. -/
theorem alert_start (stopped : Bool) : Alert (start stopped) := by
  intro _ hphase
  rcases hphase with hphase | hphase <;> cases hphase

/-- Every step keeps a run alert. -/
theorem Alert.step {s s' : State} {e : Event} (halert : Alert s)
    (h : Acceptor.step s e = some s') : Alert s' := by
  cases moves_of_step h with
  | stop => exact fun _ _ => rfl
  | finish hphase | wake hphase | accept hphase | resume hphase =>
    -- Now the run neither waits nor pauses.
    exact fun _ hidle => by rcases hidle with hidle | hidle <;> cases hidle
  | wait hphase hopen => exact fun hstopped => by cases hopen.symm.trans hstopped
  | fail hphase => exact fun hstopped _ => halert hstopped (.inl hphase)

/-- A run stays alert. -/
theorem Alert.run {s s' : State} {es : List Event} (halert : Alert s)
    (h : Acceptor.run s es = some s') : Alert s' := by
  induction es generalizing s with
  | nil =>
    cases h
    exact halert
  | cons e es ih =>
    obtain ⟨next, hstep, hrest⟩ := Option.bind_eq_some_iff.mp h
    exact ih (halert.step hstep) hrest

/-- Looking at the flag and taking a notice are the steps that a run makes without a connection,
and without waiting for time to pass. -/
def Event.IsPrompt (e : Event) : Prop := e = .check ∨ e = .wake

theorem Event.IsPrompt.ne_stop {e : Event} (h : e.IsPrompt) : e ≠ .stop := by
  rcases h with rfl | rfl <;> decide

/-- A stopped run that has not returned can go on. -/
theorem Alert.exists_step {s : State} (halert : Alert s) (hstopped : s.stopped = true)
    (hphase : s.phase ≠ .finished) :
    ∃ e, e.IsPrompt ∧ (Acceptor.step s e).isSome = true := by
  cases h : s.phase with
  | checking => exact ⟨.check, .inl rfl, by simp [Acceptor.step, h]⟩
  | waiting =>
    have hnotice := halert hstopped (.inl h)
    exact ⟨.wake, .inr rfl, by simp [Acceptor.step, h, hnotice]⟩
  | pausing =>
    have hnotice := halert hstopped (.inr h)
    exact ⟨.wake, .inr rfl, by simp [Acceptor.step, h, hnotice]⟩
  | finished => exact absurd h hphase

end Acceptor

/-! ### What a run sees of the server -/

namespace Shift

/-- The run as an acceptor: there is a notice if it has not seen all of them. -/
def view (stopped : Bool) (notices : Nat) (s : Shift) : Acceptor.State :=
  ⟨s.phase, stopped, s.seen ≠ notices, s.served⟩

/-- A step of a shift is a step of the acceptor it looks like. -/
theorem map_view_step (stopped : Bool) (notices : Nat) (s : Shift) {e : Acceptor.Event}
    (hown : e ≠ .stop) :
    (s.step stopped notices e).map (view stopped notices) =
      Acceptor.step (s.view stopped notices) e := by
  cases e with
  | stop => exact absurd rfl hown
  | check | wake | accept | fail | resume =>
    simp only [step, Acceptor.step, view]
    cases stopped <;> split <;> simp_all [view]

/-- No shift sees a notice before it is given. -/
theorem seen_step {stopped : Bool} {notices : Nat} {s s' : Shift} {e : Acceptor.Event}
    (hseen : s.seen ≤ notices) (h : s.step stopped notices e = some s') : s'.seen ≤ notices := by
  cases e with
  | stop => cases h
  | check | wake =>
    -- Now it has seen all of them.
    simp only [step] at h
    split at h
    · cases h
      exact Nat.le_refl _
    · cases h
  | accept | fail | resume =>
    simp only [step] at h
    split at h
    · cases h
      exact hseen
    · cases h

end Shift

namespace Roster

open Acceptor (ownSteps)

/-- The run with this number, as an acceptor. -/
def view (r : Roster) (i : Nat) : Option Acceptor.State :=
  r.shifts[i]?.map (Shift.view r.stopped r.notices)

/-- What happens to the run with this number in a move. -/
def Move.eventsFor (i : Nat) : Move → List Acceptor.Event
  | .stop => [.stop]
  | .start => []
  | .act j e => if j = i then [e] else []

/-- Nobody has seen a notice that was not given. -/
def Sound (r : Roster) : Prop := ∀ s ∈ r.shifts, s.seen ≤ r.notices

/-- A step at a place is a step of the shift there. -/
theorem act_eq_some_iff {r r' : Roster} {i : Nat} {e : Acceptor.Event} :
    r.act i e = some r' ↔ ∃ s s', r.shifts[i]? = some s ∧
      s.step r.stopped r.notices e = some s' ∧ { r with shifts := r.shifts.set i s' } = r' := by
  simp only [act, bind, pure, Option.bind_eq_some_iff, Option.some.injEq]
  grind

/-- Every move keeps a roster sound. -/
theorem Sound.step {r r' : Roster} {m : Move} (hsound : r.Sound) (h : r.step m = some r') :
    r'.Sound := by
  -- Notices only grow, a new shift has seen them all, and a step sees no more than there are.
  cases m with
  | stop =>
    cases h
    exact fun s hs => Nat.le_succ_of_le (hsound s hs)
  | start =>
    cases h
    intro s hs
    rcases List.mem_append.mp hs with hs | hs
    · exact hsound s hs
    · rw [List.mem_singleton.mp hs]
      exact Nat.le_refl _
  | act i e =>
    obtain ⟨s, s', hs, hstep, rfl⟩ := act_eq_some_iff.mp h
    intro t ht
    rcases List.mem_or_eq_of_mem_set ht with ht | rfl
    · exact hsound t ht
    · exact Shift.seen_step (hsound s (List.mem_of_getElem? hs)) hstep

/-- Every run keeps a roster sound. -/
theorem Sound.run {r r' : Roster} {ms : List Move} (hsound : r.Sound) (h : r.run ms = some r') :
    r'.Sound := by
  induction ms generalizing r with
  | nil =>
    cases h
    exact hsound
  | cons m ms ih =>
    obtain ⟨next, hstep, hrest⟩ := Option.bind_eq_some_iff.mp h
    exact ih (hsound.step hstep) hrest

theorem sound_idle : idle.Sound := nofun

/-- A move is for a run what happens to it as an acceptor. -/
theorem view_step {r r' : Roster} {m : Move} {i : Nat} {a : Acceptor.State} (hsound : r.Sound)
    (h : r.step m = some r') (hview : r.view i = some a) :
    ∃ a', Acceptor.run a (m.eventsFor i) = some a' ∧ r'.view i = some a' := by
  obtain ⟨s, hs, rfl⟩ := Option.map_eq_some_iff.mp hview
  cases m with
  | stop =>
    cases h
    -- The notice is new to the run, which has seen none beyond those that were given.
    have hseen : s.seen ≠ r.notices + 1 := by
      have := hsound s (List.mem_of_getElem? hs)
      omega
    exact ⟨_, rfl, by simp [view, stop, hs, Shift.view, hseen]⟩
  | start =>
    cases h
    have hold : (r.shifts ++ [Shift.start r.notices])[i]? = some s := by
      rw [List.getElem?_append_left (List.getElem?_eq_some_iff.mp hs).1, hs]
    exact ⟨_, rfl, by simp [view, start, hold]⟩
  | act j e =>
    obtain ⟨t, t', ht, hstep, rfl⟩ := act_eq_some_iff.mp h
    by_cases hji : j = i
    · subst hji
      obtain rfl : s = t := Option.some.inj (hs.symm.trans ht)
      have hown : e ≠ .stop := by
        rintro rfl
        cases hstep
      have hlt := (List.getElem?_eq_some_iff.mp hs).1
      refine ⟨t'.view r.stopped r.notices, ?_, ?_⟩
      · rw [Move.eventsFor, if_pos rfl, Acceptor.run_singleton, ← Shift.map_view_step _ _ _ hown,
          hstep, Option.map_some]
      · simp [view, List.getElem?_set_self hlt]
    · -- What another run does changes nothing for this one.
      refine ⟨s.view r.stopped r.notices, ?_, ?_⟩
      · rw [Move.eventsFor, if_neg hji]
        rfl
      · simp [view, List.getElem?_set_ne hji, hs]

/-- A run goes through the states of an acceptor. -/
theorem view_run {r r' : Roster} {ms : List Move} {i : Nat} {a : Acceptor.State} (hsound : r.Sound)
    (h : r.run ms = some r') (hview : r.view i = some a) :
    ∃ a', Acceptor.run a (ms.flatMap (·.eventsFor i)) = some a' ∧ r'.view i = some a' := by
  induction ms generalizing r a with
  | nil =>
    cases h
    exact ⟨a, rfl, hview⟩
  | cons m ms ih =>
    obtain ⟨next, hstep, hrest⟩ := Option.bind_eq_some_iff.mp h
    obtain ⟨b, hfirst, hnext⟩ := view_step hsound hstep hview
    obtain ⟨a', hothers, hlast⟩ := ih (hsound.step hstep) hrest hnext
    refine ⟨a', ?_, hlast⟩
    rw [List.flatMap_cons, Acceptor.run_append, hfirst, Option.bind_some, hothers]

/-! ### Where a run comes from -/

/-- A roster is stopped after a move if it was, or if the move is the order. -/
theorem stopped_step {r r' : Roster} {m : Move} (h : r.step m = some r') :
    r'.stopped = true ↔ r.stopped = true ∨ m = .stop := by
  cases m with
  | stop =>
    cases h
    simp [stop]
  | start =>
    cases h
    simp [start]
  | act i e =>
    obtain ⟨s, s', hs, hstep, rfl⟩ := act_eq_some_iff.mp h
    simp

theorem stopped_run {r r' : Roster} {ms : List Move} (h : r.run ms = some r') :
    r'.stopped = true ↔ r.stopped = true ∨ .stop ∈ ms := by
  induction ms generalizing r with
  | nil =>
    cases h
    simp
  | cons m ms ih =>
    obtain ⟨next, hstep, hrest⟩ := Option.bind_eq_some_iff.mp h
    rw [ih hrest, stopped_step hstep, List.mem_cons, or_assoc, eq_comm (a := m)]

/-- A run that starts looks like an acceptor that starts. -/
theorem view_start (r : Roster) :
    r.start.view r.shifts.length = some (Acceptor.start r.stopped) := by
  simp [view, start, Shift.view, Shift.start, Acceptor.start]

/-- A run that is there after some moves, and was not before, has come from its start to where it
is. -/
theorem exists_start {r r' : Roster} {ms : List Move} {i : Nat} {a : Acceptor.State}
    (hsound : r.Sound) (h : r.run ms = some r') (hnew : r.shifts.length ≤ i)
    (hview : r'.view i = some a) :
    ∃ stopped es, Acceptor.run (Acceptor.start stopped) es = some a := by
  induction ms generalizing r with
  | nil =>
    cases h
    rw [view, List.getElem?_eq_none hnew] at hview
    cases hview
  | cons m ms ih =>
    obtain ⟨next, hstep, hrest⟩ := Option.bind_eq_some_iff.mp h
    by_cases hlater : next.shifts.length ≤ i
    · exact ih (hsound.step hstep) hrest hlater
    · -- Only a start makes one run more.
      cases m with
      | stop =>
        cases hstep
        exact absurd hnew hlater
      | start =>
        cases hstep
        obtain rfl : i = r.shifts.length := by
          simp [start] at hlater
          omega
        obtain ⟨a', hrun, hlast⟩ := view_run (hsound.step (m := .start) rfl) hrest r.view_start
        obtain rfl : a' = a := Option.some.inj (hlast.symm.trans hview)
        exact ⟨_, _, hrun⟩
      | act j e =>
        obtain ⟨s, s', hs, hact, rfl⟩ := act_eq_some_iff.mp hstep
        rw [List.length_set] at hlater
        exact absurd hnew hlater

/-! ### Stops -/

/-- What has become of a run that is to end, with so many steps made since: it has handed over at
most `more` connections; with the last of at most `steps` steps it has returned; and until then
there is one that it can make, for which it waits neither for a connection nor for time to pass. -/
structure Closing (r : Roster) (i : Nat) (s s' : Shift) (made more steps : Nat) : Prop where
  served_le : s'.served ≤ s.served + more
  made_le : made ≤ steps
  finished : made = steps → s'.phase = .finished
  exists_step : s'.phase ≠ .finished → ∃ e, e.IsPrompt ∧ (r.act i e).isSome = true

/-- The run with this number is to end like this, whatever happens from here on. -/
def Closes (r : Roster) (i more steps : Nat) : Prop :=
  ∀ ms r', r.run ms = some r' → ∃ s s', r.shifts[i]? = some s ∧ r'.shifts[i]? = some s' ∧
    r'.Closing i s s' (ownSteps (ms.flatMap (·.eventsFor i))).length more steps

/-- What the acceptor may do, the shift may do. -/
theorem isSome_act {r : Roster} {i : Nat} {s : Shift} {e : Acceptor.Event}
    (hs : r.shifts[i]? = some s) (hown : e ≠ .stop)
    (h : (Acceptor.step (s.view r.stopped r.notices) e).isSome = true) :
    (r.act i e).isSome = true := by
  rw [← Shift.map_view_step _ _ _ hown, Option.isSome_map] at h
  obtain ⟨s', hstep⟩ := Option.isSome_iff_exists.mp h
  exact Option.isSome_iff_exists.mpr ⟨_, act_eq_some_iff.mpr ⟨s, s', hs, hstep, rfl⟩⟩

/-- On a stopped roster every alert run closes, with as many connections and steps as its phase
allows. -/
theorem closes_of_stopped {r : Roster} {i more steps : Nat} {a : Acceptor.State}
    (hsound : r.Sound) (hstopped : r.stopped = true) (hview : r.view i = some a)
    (halert : Acceptor.Alert a) (hmore : a.phase.mayServe ≤ more)
    (hsteps : a.phase.stepsLeft ≤ steps) : r.Closes i more steps := by
  intro ms r' h
  -- Seen from outside the shift is an acceptor, and an acceptor with its order closes.
  obtain ⟨a', hrun, hview'⟩ := view_run hsound h hview
  obtain ⟨s, hs, rfl⟩ := Option.map_eq_some_iff.mp hview
  obtain ⟨s', hs', rfl⟩ := Option.map_eq_some_iff.mp hview'
  obtain ⟨hserved, hleft⟩ := Acceptor.closing_run hstopped hrun
  have hstopped' : r'.stopped = true := (stopped_run h).mpr (.inl hstopped)
  refine ⟨s, s', hs, hs', ?_, by omega, ?_, fun hphase => ?_⟩
  · simp only [Shift.view] at hserved hmore
    omega
  · intro hmade
    apply Acceptor.Phase.eq_finished
    simp only [Shift.view] at hleft hsteps ⊢
    omega
  · obtain ⟨e, hprompt, hstep⟩ := (halert.run hrun).exists_step hstopped' hphase
    exact ⟨e, hprompt, isSome_act hs' hprompt.ne_stop hstep⟩

/-- **Stopping.**  A run returns only if there was a stop.  Once there was one, every run that has
started hands over at most one more connection and returns after at most three more steps, to which
it always can go on at once; and a run that starts then hands over none and returns with its first
step. -/
theorem run_heeds_stop {ms : List Move} {r : Roster} (h : idle.run ms = some r) :
    (∀ s ∈ r.shifts, s.phase = .finished → .stop ∈ ms) ∧
    (.stop ∈ ms →
      (∀ i < r.shifts.length, r.Closes i 1 3) ∧ r.start.Closes r.shifts.length 0 1) := by
  have hsound : r.Sound := sound_idle.run h
  refine ⟨?_, fun hstop => ⟨?_, ?_⟩⟩
  · -- Whatever finished has seen the order, so it was given.
    intro s hs hphase
    obtain ⟨i, hi⟩ := List.mem_iff_getElem?.mp hs
    have hview : r.view i = some (s.view r.stopped r.notices) := by simp [view, hi]
    obtain ⟨stopped, es, hrun⟩ := exists_start sound_idle h (Nat.zero_le i) hview
    have hstopped : r.stopped = true := Acceptor.stopped_of_finished hrun hphase
    simpa [idle] using (stopped_run h).mp hstopped
  · intro i hi
    have hview : r.view i = some (r.shifts[i].view r.stopped r.notices) := by simp [view, hi]
    obtain ⟨stopped, es, hrun⟩ := exists_start sound_idle h (Nat.zero_le i) hview
    exact closes_of_stopped hsound ((stopped_run h).mpr (.inr hstop)) hview
      ((Acceptor.alert_start stopped).run hrun) (Acceptor.Phase.mayServe_le _)
      (Acceptor.Phase.stepsLeft_le _)
  · -- A run that starts now finds the order given.
    have hsound' : r.start.Sound := hsound.step (m := .start) rfl
    exact closes_of_stopped hsound' ((stopped_run h).mpr (.inr hstop)) r.view_start
      (Acceptor.alert_start _) (Nat.le_refl _) (Nat.le_refl _)

/-- A run whose first accept fails, and a stop while it waits for the next connection. -/
def sampleMoves : List Move :=
  [.start, .act 0 .check, .act 0 .fail, .act 0 .resume, .act 0 .check, .stop]

/-- The connection that was waiting with the stop may be accepted before it, and no other. -/
theorem run_heeds_stop_sample :
    ∃ r, idle.run sampleMoves = some r ∧ r.Closes 0 1 3 ∧ r.start.Closes 1 0 1 ∧
      r.run [.act 0 .accept, .act 0 .check, .start, .act 1 .check] =
        some ⟨true, 1, [⟨.finished, 1, 1⟩, ⟨.finished, 1, 0⟩]⟩ := by
  have h : idle.run sampleMoves = some ⟨true, 1, [⟨.waiting, 0, 0⟩]⟩ := by decide
  obtain ⟨hearlier, hlater⟩ := (run_heeds_stop h).2 (by decide)
  exact ⟨_, h, hearlier 0 (by decide), hlater, by decide⟩

end Roster
end WireCall
