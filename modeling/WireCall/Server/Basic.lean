import WireCall.Discovery.Backend
import WireCall.Server.Exchange
import WireCall.Settings.Server

namespace WireCall

/-!
# Servers

A server is bound to a port, admits connections through a gate if its settings ask for one, and
offers the services of its table, which it also publishes if it has a discovery backend.  The table
can be changed only while nobody else holds it: a run of the server does, and so does each of its
connections.  A service goes into the table before it is published, and out of it again if that
fails.

Main statements: the gate is the one that the settings describe, and every change of the settings
keeps it so (`Server.Consistent`, `consistent_bind`, `consistent_setAdmission`).
-/

/-- A server whose surroundings are `ω` and whose instances have the state `σ`. -/
structure Server (ω σ : Type) where
  settings : ServerSettings
  port : UInt16
  table : ServiceTable σ
  gate : Option Gate
  discovery : Option (Backend ω × DiscoverySettings)
  holders : Nat
  stopped : Bool

/-- What is done with a server in its surroundings. -/
abbrev ServerAction (ω σ α : Type) := Action (Server ω σ × ω) α

namespace Server

variable {ω σ α : Type}

/-- The gate that settings ask for. -/
def gateOf (admission : Option AdmissionSettings) : Except Fault (Option Gate) :=
  match admission with
  | none => .ok none
  | some s => ((Gate.ofSettings s).mapError .registration).map some

/-- A server on the port of its settings; `free` is the port that it gets if they leave it open. -/
def bind (settings : ServerSettings) (free : UInt16) : Except Fault (Server ω σ) := do
  let gate ← gateOf settings.admission
  return {
    settings
    port := if settings.port = 0 then free else settings.port
    table := .empty
    gate
    discovery := none
    holders := 0
    stopped := false }

/-- Where clients reach the server. -/
def address (s : Server ω σ) : String := addressOf s.settings.host s.port

/-- What answers the connections. -/
def responder (s : Server ω σ) : Responder σ := ⟨s.table, s.settings.maximum⟩

/-! ### Admission -/

/-- Builds a gate, puts it in place, and then the settings from which it was built. -/
def install (admission : AdmissionSettings) : Action (Server ω σ) Unit := do
  let gate ← .ofExcept ((Gate.ofSettings admission).mapError .registration)
  modify fun s => { s with gate := some gate }
  modify fun s => { s with settings := s.settings.withAdmission admission }

/-- Installing a gate puts the gate and its settings in together, or fails and changes nothing. -/
theorem perform_install (s : Server ω σ) (admission : AdmissionSettings) :
    (install admission).perform s =
      match Gate.ofSettings admission with
      | .ok gate =>
        (.ok (), { s with gate := some gate, settings := s.settings.withAdmission admission })
      | .error cause => (.error (.registration cause), s) := by
  unfold install
  rw [Action.perform_bind, Action.perform_ofExcept]
  cases Gate.ofSettings admission with
  | ok gate => rfl
  | error cause => rfl

/-- How long connections wait by these settings. -/
def patienceOf (admission : Option AdmissionSettings) : Duration :=
  (admission.map (·.patience)).getD .zero

/-- Puts a gate in place at which connections wait as long as they did before. -/
def installRate (rate burst : UInt32) : Action (Server ω σ) Unit := do
  let s ← get
  install ((AdmissionSettings.ofRate rate burst).withPatience (patienceOf s.settings.admission))

/-- A new rate keeps the patience in force. -/
theorem perform_installRate (s : Server ω σ) (rate burst : UInt32) :
    (installRate rate burst).perform s =
      (install ⟨rate, burst, patienceOf s.settings.admission⟩).perform s := rfl

/-- The server after something was done with it, unless that has failed. -/
def after (s : Server ω σ) (a : Action (Server ω σ) Unit) : Except Fault (Server ω σ) :=
  match a.perform s with
  | (.ok (), s') => .ok s'
  | (.error fault, _) => .error fault

/-- The server with a new gate. -/
def setAdmission (s : Server ω σ) (admission : AdmissionSettings) : Except Fault (Server ω σ) :=
  s.after (install admission)

/-- The server with a new gate at which connections wait as long as they did before. -/
def setRate (s : Server ω σ) (rate burst : UInt32) : Except Fault (Server ω σ) :=
  s.after (installRate rate burst)

/-- The gate is there exactly if the settings ask for one, and is the one they describe. -/
def Consistent (s : Server ω σ) : Prop := s.gate.map (·.settings) = s.settings.admission

/-- A gate that could be built bears the settings it was built from. -/
theorem settings_ofSettings {admission : AdmissionSettings} {g : Gate}
    (h : Gate.ofSettings admission = .ok g) : g.settings = admission :=
  (Gate.ofSettings_eq_ok_iff.mp h).1

/-- An optional gate bears the optional settings it was built from. -/
theorem settings_gateOf {admission : Option AdmissionSettings} {g : Option Gate}
    (h : gateOf admission = .ok g) : g.map (·.settings) = admission := by
  cases admission with
  | none => cases h; rfl
  | some a =>
    simp only [gateOf] at h
    cases made : Gate.ofSettings a with
    | error cause =>
      rw [made] at h
      cases h
    | ok gate =>
      rw [made] at h
      cases h
      simp [settings_ofSettings made]

/-- A server comes up with its gate and its settings in agreement. -/
theorem consistent_bind {settings : ServerSettings} {free : UInt16} {s : Server ω σ}
    (h : bind settings free = .ok s) : s.Consistent := by
  unfold bind at h
  cases made : gateOf settings.admission with
  | error fault =>
    rw [made] at h
    cases h
  | ok gate =>
    rw [made] at h
    cases h
    exact settings_gateOf made

/-- New admission settings leave gate and settings in agreement. -/
theorem consistent_setAdmission {s s' : Server ω σ} {admission : AdmissionSettings}
    (h : s.setAdmission admission = .ok s') : s'.Consistent := by
  unfold setAdmission after at h
  rw [perform_install] at h
  cases made : Gate.ofSettings admission with
  | error cause =>
    rw [made] at h
    cases h
  | ok gate =>
    rw [made] at h
    cases h
    simp [Consistent, ServerSettings.withAdmission, settings_ofSettings made]

/-! ### Services -/

/-- Publishes the services registered from now on. -/
def setDiscovery (s : Server ω σ) (backend : Backend ω) (settings : DiscoverySettings) :
    Server ω σ := { s with discovery := some (backend, settings) }

/-- Publishes a service, if there is a backend. -/
def publish (s : Server ω σ) (name : String) : Action ω Unit :=
  match s.discovery with
  | none => pure ()
  | some (backend, settings) => backend.announce settings name s.settings.host s.port

/-- The server with one more service in its table, before it is published. -/
def enter (s : Server ω σ) (name : String) (service : Service σ) : Except Fault (Server ω σ) := do
  if s.holders ≠ 0 then throw (.registration (.serverRunning name))
  let table ← (s.table.register name service).mapError .registration
  return { s with table }

/-- The server without a service, unless somebody else holds its table. -/
def withdraw (s : Server ω σ) (name : String) : Server ω σ :=
  if s.holders ≠ 0 then s else { s with table := (s.table.deregister name).2 }

/-- Does something in the surroundings of the server. -/
def outside (a : Action ω α) : ServerAction ω σ α :=
  a.within (·.2) fun w s => (s.1, w)

/-- Registers a service and publishes it.  A service that cannot be published is removed again. -/
def register (name : String) (service : Service σ) : ServerAction ω σ Unit := do
  let (s, _) ← get
  -- The backend is contacted only for a service that the table takes.
  let entered ← .ofExcept (s.enter name service)
  modify fun (_, w) => (entered, w)
  match ← (outside (entered.publish name)).attempt with
  | .ok () => pure ()
  | .error fault =>
    modify fun (s, w) => (s.withdraw name, w)
    throw fault

/-! ### Runs -/

/-- The server while a run or a connection holds its table. -/
def hold (s : Server ω σ) : Server ω σ := { s with holders := s.holders + 1 }

/-- The server after a run or a connection has let go of its table. -/
def release (s : Server ω σ) : Server ω σ := { s with holders := s.holders - 1 }

/-- Ends the present run and all later ones. -/
def stop (s : Server ω σ) : Server ω σ := { s with stopped := true }

end Server
end WireCall
