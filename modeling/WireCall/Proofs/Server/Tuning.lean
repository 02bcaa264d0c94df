import Mathlib.Data.List.Induction
import WireCall.Site

namespace WireCall.Server

/-!
# Changing the admission of a server

A server has its admission settings twice: among its own settings, and in the gate that was built
from them.  They are changed one after the other (`install`), and the gate also changes whenever a
connection takes a token.  `Installs` says all that such a change comes to: the gate is built before
anything is written, so settings that describe none leave the server as it was.

A `Tuned` server keeps a log of the calls with what came of each.  The settings that should be in
force are read off the log alone (`inForce`): rate and burst are those of the last call that
succeeded, and the patience is that of the last call that gave one.

Main statement: a server is bound unless its rate or burst is zero, and after any calls and
connections its gate is the one of its settings, which are those in force (`bind_tuned`).  A server
in a site is changed and answers connections by the same steps, so this is true of it, too
(`server_tuned`).
-/

variable {ω σ : Type} {s s' : Server ω σ} {admission : AdmissionSettings} {rate burst : UInt32}
  {outcome : Except Fault Unit}

/-! ### One change -/

/-- What putting a gate in place comes to, and the server after it. -/
inductive Installs (s : Server ω σ) (admission : AdmissionSettings) :
    Except Fault Unit → Server ω σ → Prop
  | noRate (hrate : admission.rate = 0) :
      Installs s admission (.error (.registration .rateNotPositive)) s
  | noBurst (hrate : admission.rate ≠ 0) (hburst : admission.burst = 0) :
      Installs s admission (.error (.registration .burstNotPositive)) s
  | installed {gate : Gate} (hrate : admission.rate ≠ 0) (hburst : admission.burst ≠ 0)
      (hsettings : gate.settings = admission) (hnew : gate.due = none) :
      Installs s admission (.ok ())
        { s with gate := some gate, settings := s.settings.withAdmission admission }

/-- Installing a gate does what its description says. -/
theorem installs_perform (s : Server ω σ) (admission : AdmissionSettings) :
    s.Installs admission ((install admission).perform s).1 ((install admission).perform s).2 := by
  have hzero : ∀ n : UInt32, n ≠ 0 ↔ 0 < n.toNat := by
    intro n
    rw [Nat.pos_iff_ne_zero, ne_eq, ne_eq, ← UInt32.toNat_inj, UInt32.toNat_zero]
  rw [perform_install]
  unfold Gate.ofSettings
  -- The rate is looked at first, and then the burst.
  by_cases hrate : admission.rate = 0
  · have hpos : ¬ 0 < admission.rate.toNat := by simp [hrate]
    rw [dif_neg hpos]
    exact .noRate hrate
  · rw [dif_pos ((hzero _).mp hrate)]
    by_cases hburst : admission.burst = 0
    · have hpos : ¬ 0 < admission.burst.toNat := by simp [hburst]
      rw [dif_neg hpos]
      exact .noBurst hrate hburst
    · rw [dif_pos ((hzero _).mp hburst)]
      exact .installed hrate hburst rfl rfl

/-- Installing a rate installs a gate with the patience in force. -/
theorem installs_performRate (s : Server ω σ) (rate burst : UInt32) :
    s.Installs ⟨rate, burst, patienceOf s.settings.admission⟩ ((installRate rate burst).perform s).1
      ((installRate rate burst).perform s).2 := by
  rw [perform_installRate]
  exact s.installs_perform ⟨rate, burst, patienceOf s.settings.admission⟩

/-- An installation keeps gate and settings in agreement, done or refused. -/
theorem Installs.consistent (h : s.Installs admission outcome s') (hconsistent : s.Consistent) :
    s'.Consistent := by
  cases h with
  | noRate hrate => exact hconsistent
  | noBurst hrate hburst => exact hconsistent
  | installed hrate hburst hsettings hnew =>
    unfold Consistent ServerSettings.withAdmission
    simp [hsettings]

/-- An installation is refused for a zero only, and leaves the server as it was. -/
theorem Installs.of_error {fault : Fault} (h : s.Installs admission (.error fault) s') :
    s' = s ∧ (admission.rate = 0 ∨ admission.burst = 0) ∧ ∃ cause, fault = .registration cause := by
  cases h with
  | noRate hrate => exact ⟨rfl, .inl hrate, _, rfl⟩
  | noBurst hrate hburst => exact ⟨rfl, .inr hburst, _, rfl⟩

/-- An installation is done only without zeros, and changes nothing but the admission settings. -/
theorem Installs.of_ok (h : s.Installs admission (.ok ()) s') :
    ¬ (admission.rate = 0 ∨ admission.burst = 0) ∧
      s'.settings = s.settings.withAdmission admission := by
  cases h with
  | installed hrate hburst hsettings hnew => exact ⟨by simp [hrate, hburst], rfl⟩

/-- Setting the admission installs it. -/
theorem installs_setAdmission (s : Server ω σ) (admission : AdmissionSettings) :
    match s.setAdmission admission with
    | .ok s' => s.Installs admission (.ok ()) s'
    | .error fault => s.Installs admission (.error fault) s := by
  have hinstalls := s.installs_perform admission
  unfold setAdmission after
  cases hperform : (install admission).perform s with
  | mk outcome s' =>
    rw [hperform] at hinstalls
    cases outcome with
    | ok _ => exact hinstalls
    | error fault =>
      obtain ⟨rfl, -⟩ := hinstalls.of_error
      exact hinstalls

/-- A site changes its server only if that succeeds, which comes to the same. -/
theorem perform_change_of_installs (site : Site σ) {a : Action (Server Directory σ) Unit}
    (hinstalls : site.server.Installs admission (a.perform site.server).1
      (a.perform site.server).2) :
    (Site.change fun server => server.after a).perform site =
      (a.within (·.server) fun server site => { site with server }).perform site := by
  rw [Site.perform_change, Action.perform_within]
  unfold after
  cases hperform : a.perform site.server with
  | mk outcome s' =>
    rw [hperform] at hinstalls
    cases outcome with
    | ok _ => rfl
    | error fault =>
      obtain ⟨rfl, -⟩ := hinstalls.of_error
      rfl

/-- At a site, setting the admission is installing it at the server. -/
theorem perform_change_setAdmission (site : Site σ) (admission : AdmissionSettings) :
    (Site.change fun server => server.setAdmission admission).perform site =
      ((install admission).within (·.server) fun server site => { site with server }).perform
        site :=
  perform_change_of_installs site (site.server.installs_perform admission)

theorem perform_change_setRate (site : Site σ) (rate burst : UInt32) :
    (Site.change fun server => server.setRate rate burst).perform site =
      ((installRate rate burst).within (·.server) fun server site =>
        { site with server }).perform site :=
  perform_change_of_installs site (site.server.installs_performRate rate burst)

/-! ### Binding -/

/-- The server on the port of its settings, before it has a gate. -/
def ungated (settings : ServerSettings) (free : UInt16) : Server ω σ where
  settings
  port := if settings.port = 0 then free else settings.port
  table := .empty
  gate := none
  discovery := none
  holders := 0
  stopped := false

/-- A server with admission settings comes up without a gate and has it installed. -/
theorem bind_eq (settings : ServerSettings) (free : UInt16) :
    (bind settings free : Except Fault (Server ω σ)) =
      match settings.admission with
      | none => .ok (ungated settings free)
      | some admission => (ungated settings free).setAdmission admission := by
  obtain ⟨host, port, admission, maximum⟩ := settings
  unfold bind gateOf setAdmission after
  cases admission with
  | none => rfl
  | some admission =>
    dsimp only
    rw [perform_install]
    cases Gate.ofSettings admission with
    | error cause => rfl
    | ok gate => rfl

/-- A server comes up only without zeros, with its own settings. -/
theorem bind_eq_ok {settings : ServerSettings} {free : UInt16} {bound : Server ω σ}
    (h : bind settings free = .ok bound) : bound.settings = settings ∧
      ∀ admission, settings.admission = some admission →
        ¬ (admission.rate = 0 ∨ admission.burst = 0) := by
  rw [bind_eq] at h
  cases hsettings : settings.admission with
  | none =>
    rw [hsettings] at h
    cases h
    exact ⟨rfl, nofun⟩
  | some admission =>
    -- The gate is installed after the server came up, so the server is the one that the
    -- installation leaves.
    have hinstalls := (ungated settings free : Server ω σ).installs_setAdmission admission
    rw [hsettings] at h
    dsimp only at h
    rw [h] at hinstalls
    obtain ⟨hpositive, hbound⟩ := hinstalls.of_ok
    refine ⟨?_, fun _ hsome => Option.some.inj hsome ▸ hpositive⟩
    rw [hbound]
    unfold ServerSettings.withAdmission
    rw [← hsettings]
    rfl

/-- A server stays down for a zero only. -/
theorem bind_eq_error {settings : ServerSettings} {free : UInt16} {fault : Fault}
    (h : (bind settings free : Except Fault (Server ω σ)) = .error fault) :
    (∃ admission, settings.admission = some admission ∧
      (admission.rate = 0 ∨ admission.burst = 0)) ∧ ∃ cause, fault = .registration cause := by
  rw [bind_eq] at h
  cases hsettings : settings.admission with
  | none =>
    rw [hsettings] at h
    cases h
  | some admission =>
    have hinstalls := (ungated settings free : Server ω σ).installs_setAdmission admission
    rw [hsettings] at h
    dsimp only at h
    rw [h] at hinstalls
    obtain ⟨-, hzero, hcause⟩ := hinstalls.of_error
    exact ⟨⟨admission, rfl, hzero⟩, hcause⟩

/-- A server is not bound if and only if its settings ask for a gate that there cannot be. -/
theorem bind_eq_error_iff (settings : ServerSettings) (free : UInt16) :
    (∃ fault, (bind settings free : Except Fault (Server ω σ)) = .error fault) ↔
      ∃ admission, settings.admission = some admission ∧
        (admission.rate = 0 ∨ admission.burst = 0) := by
  constructor
  · rintro ⟨fault, hfault⟩
    exact (bind_eq_error hfault).1
  · rintro ⟨admission, hsettings, hzero⟩
    cases hbind : (bind settings free : Except Fault (Server ω σ)) with
    | error fault => exact ⟨fault, rfl⟩
    | ok bound => exact absurd hzero ((bind_eq_ok hbind).2 admission hsettings)

/-! ### Sequences of calls -/

/-- What may happen to the admission of a server: it is changed by a call, or a connection takes
a token or is refused one. -/
inductive Tuning where
  | setRate (rate burst : UInt32)
  | setAdmission (admission : AdmissionSettings)
  | connection (now : Nat)

namespace Tuning

/-- Does the step. -/
def action : Tuning → Action (Server ω σ) Unit
  | setRate rate burst => installRate rate burst
  | setAdmission admission => install admission
  | connection now => modify fun s => { s with gate := s.gate.map fun g => (g.acquire now).gate }

/-- The rate and the burst of a call that succeeded. -/
def rate? : Tuning × Except Fault Unit → Option (UInt32 × UInt32)
  | (setRate rate burst, .ok ()) => some (rate, burst)
  | (setAdmission admission, .ok ()) => some (admission.rate, admission.burst)
  | _ => none

/-- The patience of a call that gave one and succeeded. -/
def patience? : Tuning × Except Fault Unit → Option Duration
  | (setAdmission admission, .ok ()) => some admission.patience
  | _ => none

/-- An entry that sets no rate sets no patience. -/
theorem patience?_eq_none {entry : Tuning × Except Fault Unit} (h : rate? entry = none) :
    patience? entry = none := by
  unfold rate? at h
  unfold patience?
  split at h <;> simp_all

/-- A connection that is answered in a site does to the server what the step does. -/
theorem server_answer (site : Site σ) (bytes : Inbound) :
    (site.answer bytes).2.server = ((connection site.clock).action.perform site.server).2 := by
  obtain ⟨⟨settings, port, table, gate, discovery, holders, stopped⟩, states, _, _, _⟩ := site
  cases gate with
  | none => rfl
  | some gate => rfl

end Tuning

variable {first : Option AdmissionSettings} {log : List (Tuning × Except Fault Unit)}

/-- The settings that should be in force after these calls, if the server was bound with `first`. -/
def inForce (first : Option AdmissionSettings) (log : List (Tuning × Except Fault Unit)) :
    Option AdmissionSettings :=
  match (log.filterMap Tuning.rate?).getLast? with
  | none => first
  | some (rate, burst) =>
    let patience := (log.filterMap Tuning.patience?).getLast?.or (first.map (·.patience))
    some ⟨rate, burst, patience.getD .zero⟩

/-- An entry that sets no rate leaves what is in force. -/
theorem inForce_append_of_rate?_eq_none {entry : Tuning × Except Fault Unit}
    (hrate : Tuning.rate? entry = none) : inForce first (log ++ [entry]) = inForce first log := by
  have hpatience := Tuning.patience?_eq_none hrate
  unfold inForce
  simp [hrate, hpatience]

/-- Admission settings accepted last are in force. -/
theorem inForce_append_setAdmission :
    inForce first (log ++ [(Tuning.setAdmission admission, Except.ok ())]) = some admission := by
  unfold inForce
  simp [Tuning.rate?, Tuning.patience?]

/-- The patience in force is the last one set, or that of the start. -/
theorem patienceOf_inForce : patienceOf (inForce first log) =
    ((log.filterMap Tuning.patience?).getLast?.or (first.map (·.patience))).getD .zero := by
  unfold inForce
  cases hrates : (log.filterMap Tuning.rate?).getLast? with
  | some pair => rfl
  | none =>
    -- No call has succeeded, so none has given a patience.
    rw [List.getLast?_eq_none_iff, List.filterMap_eq_nil_iff] at hrates
    have hpatiences : log.filterMap Tuning.patience? = [] :=
      List.filterMap_eq_nil_iff.mpr fun entry hentry => Tuning.patience?_eq_none (hrates _ hentry)
    rw [hpatiences]
    rfl

/-- A call that succeeds and gives no patience keeps the one in force. -/
theorem inForce_append_setRate :
    inForce first (log ++ [(Tuning.setRate rate burst, Except.ok ())]) =
      some ⟨rate, burst, patienceOf (inForce first log)⟩ := by
  rw [patienceOf_inForce]
  unfold inForce
  simp [Tuning.rate?, Tuning.patience?]

/-- A server, and the calls since it was bound, each with what came of it. -/
structure Tuned (ω σ : Type) where
  server : Server ω σ
  log : List (Tuning × Except Fault Unit)

namespace Tuned

/-- One more step, whatever comes of it. -/
def step (t : Tuned ω σ) (x : Tuning) : Tuned ω σ :=
  let (outcome, server) := x.action.perform t.server
  ⟨server, t.log ++ [(x, outcome)]⟩

/-- The steps one after the other. -/
def run (s : Server ω σ) (steps : List Tuning) : Tuned ω σ := steps.foldl step ⟨s, []⟩

/-- The last call is made where the others left the server. -/
theorem run_append_singleton (s : Server ω σ) (steps : List Tuning) (x : Tuning) :
    run s (steps ++ [x]) = (run s steps).step x := by
  rw [run, List.foldl_append]
  rfl

/-- The gate is the one of the settings, they are those in force, and nothing else has changed since
the server was bound. -/
structure Faithful (bound : Server ω σ) (t : Tuned ω σ) : Prop where
  consistent : t.server.Consistent
  admission_eq : t.server.settings.admission = inForce bound.settings.admission t.log
  server_eq : t.server = { bound with
    gate := t.server.gate
    settings := { bound.settings with admission := t.server.settings.admission } }

variable {bound : Server ω σ} {t : Tuned ω σ}

/-- A server that came up in agreement is faithful to its empty log. -/
theorem faithful_of_consistent (h : bound.Consistent) : Faithful bound ⟨bound, []⟩ where
  consistent := h
  admission_eq := rfl
  server_eq := rfl

/-- A call that puts these settings in force, or none at all if it fails. -/
theorem Faithful.installs (h : t.Faithful bound)
    (hinstalls : t.server.Installs admission outcome s') {x : Tuning}
    (hfails : ∀ fault, Tuning.rate? (x, .error fault) = none)
    (hforce : inForce bound.settings.admission (t.log ++ [(x, Except.ok ())]) = some admission) :
    Faithful bound ⟨s', t.log ++ [(x, outcome)]⟩ where
  consistent := hinstalls.consistent h.consistent
  -- What is refused leaves the settings in force; what is done puts its own in force.
  admission_eq := by
    cases hinstalls with
    | noRate hrate => rw [inForce_append_of_rate?_eq_none (hfails _), h.admission_eq]
    | noBurst hrate hburst => rw [inForce_append_of_rate?_eq_none (hfails _), h.admission_eq]
    | installed hrate hburst hsettings hnew => exact hforce.symm
  server_eq := by
    cases hinstalls with
    | noRate hrate => exact h.server_eq
    | noBurst hrate hburst => exact h.server_eq
    | @installed gate hrate hburst hsettings hnew =>
      have hserver := congrArg (fun s : Server ω σ => ({ s with
        gate := some gate
        settings := s.settings.withAdmission admission } : Server ω σ)) h.server_eq
      exact hserver

/-- Every call keeps the server faithful to its log. -/
theorem Faithful.step (h : t.Faithful bound) (x : Tuning) : (t.step x).Faithful bound := by
  cases x with
  -- the patience that the server reads off its settings is the one in force
  | setRate rate burst =>
    refine h.installs (t.server.installs_performRate rate burst) (fun _ => rfl) ?_
    rw [inForce_append_setRate, h.admission_eq]
  | setAdmission admission =>
    exact h.installs (t.server.installs_perform admission) (fun _ => rfl)
      inForce_append_setAdmission
  | connection now =>
    constructor
    · have hconsistent := h.consistent
      unfold Consistent at hconsistent
      show ((t.server.gate.map fun g => (g.acquire now).gate).map (·.settings)) =
        t.server.settings.admission
      rw [← hconsistent, Option.map_map]
      congr 1
      ext1 g
      exact g.settings_acquire now
    · show t.server.settings.admission =
        inForce bound.settings.admission (t.log ++ [(Tuning.connection now, Except.ok ())])
      rw [inForce_append_of_rate?_eq_none rfl, h.admission_eq]
    · exact congrArg (fun s : Server ω σ => ({ s with
        gate := s.gate.map fun g => (g.acquire now).gate } : Server ω σ)) h.server_eq

/-- After any calls the server is faithful to its log. -/
theorem faithful_run (h : bound.Consistent) (steps : List Tuning) :
    (run bound steps).Faithful bound := by
  induction steps using List.reverseRecOn with
  | nil => exact faithful_of_consistent h
  | append_singleton steps x ih =>
    rw [run_append_singleton]
    exact ih.step x

end Tuned

/-! ### The settings in force -/

/-- **The gate is the one of the settings.**  A server is not bound if and only if the rate or the
burst of its settings is zero.  After any calls and connections it has a gate exactly if its
settings ask for one, the gate is the one they describe, and they are the settings in force; nothing
else has changed.  A call with a rate or a burst of zero fails and leaves the server as it was, with
the tokens of its gate; any other call puts a new gate in place, and a call that gives no patience
keeps the one in force. -/
theorem bind_tuned (settings : ServerSettings) (free : UInt16) :
    ((∃ fault, (bind settings free : Except Fault (Server ω σ)) = .error fault) ↔
      ∃ admission, settings.admission = some admission ∧
        (admission.rate = 0 ∨ admission.burst = 0)) ∧
    (∀ fault, (bind settings free : Except Fault (Server ω σ)) = .error fault →
      ∃ cause, fault = .registration cause) ∧
    ∀ (bound : Server ω σ), bind settings free = .ok bound → ∀ steps,
      let s := (Tuned.run bound steps).server
      let log := (Tuned.run bound steps).log
      s.gate.map (·.settings) = s.settings.admission ∧
      s.settings.admission = inForce settings.admission log ∧
      s = { bound with
        gate := s.gate
        settings := { settings with admission := s.settings.admission } } ∧
      (∀ admission, s.Installs admission ((install admission).perform s).1
        ((install admission).perform s).2) ∧
      ∀ rate burst, s.Installs ⟨rate, burst, patienceOf (inForce settings.admission log)⟩
        ((installRate rate burst).perform s).1 ((installRate rate burst).perform s).2 := by
  refine ⟨bind_eq_error_iff settings free, fun fault hfault => (bind_eq_error hfault).2,
    fun bound hbind steps => ?_⟩
  obtain ⟨rfl, -⟩ := bind_eq_ok hbind
  have hfaithful := Tuned.faithful_run (consistent_bind hbind) steps
  refine ⟨hfaithful.consistent, hfaithful.admission_eq, hfaithful.server_eq,
    fun admission => installs_perform _ admission, fun rate burst => ?_⟩
  rw [← hfaithful.admission_eq]
  exact installs_performRate _ rate burst

/-- Settings that admit five connections a second, which wait for at most three seconds. -/
def gatedSettings : ServerSettings := ServerSettings.default.withAdmission ⟨5, 2, .ofSeconds 3⟩

/-- A call that succeeds keeps the patience, and one that fails keeps what is left of the tokens. -/
theorem bind_tuned_sample : ∃ bound : Server Unit Unit, bind gatedSettings 0 = .ok bound ∧
    let s := (Tuned.run bound [.connection 0, .setRate 7 3, .connection 9]).server
    s.settings.admission = some ⟨7, 3, .ofSeconds 3⟩ ∧
    s.gate.map (·.settings) = some ⟨7, 3, .ofSeconds 3⟩ ∧
    s.gate.bind (·.due) = some 285714293 ∧
    ((installRate 0 3).perform s).2 = s ∧ ((install ⟨1, 0, .zero⟩).perform s).2 = s := by
  obtain ⟨-, -, htuned⟩ := @bind_tuned Unit Unit gatedSettings 0
  refine ⟨_, rfl, ?_⟩
  intro s
  -- The call that sets the rate keeps the patience of the start.
  obtain ⟨hconsistent, hforce, -, hinstalls, hinstallsRate⟩ :=
    htuned _ rfl [.connection 0, .setRate 7 3, .connection 9]
  have hsettings : s.settings.admission = some ⟨7, 3, .ofSeconds 3⟩ := hforce
  have hrate : ((installRate 0 3).perform s).1 = .error (.registration .rateNotPositive) := rfl
  have hburst : ((install ⟨1, 0, .zero⟩).perform s).1 =
      .error (.registration .burstNotPositive) := rfl
  have hfails := hinstallsRate 0 3
  have hfails' := hinstalls ⟨1, 0, .zero⟩
  refine ⟨hsettings, hconsistent.trans hsettings, rfl, ?_, ?_⟩
  · rw [hrate] at hfails
    exact hfails.of_error.1
  · rw [hburst] at hfails'
    exact hfails'.of_error.1

/-! ### Servers in sites -/

/-- What may happen at a site to the admission of its server: one of the calls, or a connection on
which `s` arrives. -/
inductive Incident where
  | setRate (rate burst : UInt32)
  | setAdmission (admission : AdmissionSettings)
  | connection (s : Inbound)

/-- The step of the server that this is at some time. -/
def Incident.tuning (now : Nat) : Incident → Tuning
  | setRate rate burst => .setRate rate burst
  | setAdmission admission => .setAdmission admission
  | connection _ => .connection now

/-- The site afterwards. -/
def meet (site : Site σ) : Incident → Site σ
  | .setRate rate burst => ((Site.change fun server => server.setRate rate burst).perform site).2
  | .setAdmission admission =>
    ((Site.change fun server => server.setAdmission admission).perform site).2
  | .connection s => (site.answer s).2

/-- What happens at the site is for its server the step that it stands for. -/
theorem server_meet (site : Site σ) (x : Incident) :
    (meet site x).server = ((x.tuning site.clock).action.perform site.server).2 := by
  cases x with
  | setRate rate burst =>
    rw [meet, perform_change_setRate, Action.perform_within]
    rfl
  | setAdmission admission =>
    rw [meet, perform_change_setAdmission, Action.perform_within]
    rfl
  | connection s => exact Tuning.server_answer site s

/-- Whatever happens at a site, its server goes through as many steps. -/
theorem exists_server_eq (site : Site σ) (incidents : List Incident) :
    ∃ steps, steps.length = incidents.length ∧
      (incidents.foldl meet site).server = (Tuned.run site.server steps).server := by
  induction incidents using List.reverseRecOn with
  | nil => exact ⟨[], rfl, rfl⟩
  | append_singleton incidents x ih =>
    obtain ⟨steps, hlength, hserver⟩ := ih
    -- A connection comes at the time that the site has reached.
    refine ⟨steps ++ [x.tuning (incidents.foldl meet site).clock], ?_, ?_⟩
    · rw [List.length_append, List.length_append, hlength]
      rfl
    · rw [List.foldl_append, Tuned.run_append_singleton]
      show (meet (incidents.foldl meet site) x).server = _
      rw [server_meet, hserver]
      rfl

/-- A server that was bound for a site has the gate of its settings, and these are the settings in
force, after any calls and connections there. -/
theorem server_tuned {settings : ServerSettings} {free : UInt16} {bound : Server Directory σ}
    (hbind : bind settings free = .ok bound) (states : Instances σ) (incidents : List Incident) :
    let s := (incidents.foldl meet (Site.ofServer bound states)).server
    s.Consistent ∧ ∃ steps, steps.length = incidents.length ∧
      s.settings.admission = inForce settings.admission (Tuned.run bound steps).log := by
  intro s
  obtain ⟨rfl, -⟩ := bind_eq_ok hbind
  obtain ⟨steps, hlength, hserver⟩ := exists_server_eq (Site.ofServer bound states) incidents
  have hfaithful := Tuned.faithful_run (consistent_bind hbind) steps
  have hs : s = (Tuned.run bound steps).server := hserver
  rw [hs]
  exact ⟨hfaithful.consistent, steps, hlength, hfaithful.admission_eq⟩

end WireCall.Server
