import WireCall.Discovery.Directory
import WireCall.Server.Basic
import WireCall.Service.Catalogue
import WireCall.Proofs.Service.History

namespace WireCall.Server

/-!
# Setting up a server

A server puts a service into its table before it publishes it, so a backend that fails finds the
service there.  `withdraw_of_enter` says that the service can be taken out again without a trace,
whatever else is in the table; from it follows what registering comes to (`perform_register`).

While a server is set up its backends may change, each of them may fail at any step, and the table
may be held by others for a while (`Setup`).  The services that are in the table at the end are
those that were there at first and those whose registering has succeeded (`gains_setUp`).

Main statement: registering either succeeds, and then the service is in the table and is published,
or it fails and leaves the server as it was (`register_atomic`).
-/

variable {ω σ : Type} {s s' : Server ω σ} {name : String} {service : Service σ} {fault : Fault}

/-! ### Into the table and out of it -/

/-- Nobody else holds the table, and the name and the service will do. -/
structure Accepts (s : Server ω σ) (name : String) (service : Service σ) : Prop where
  unheld : s.holders = 0
  named : name ≠ ""
  fresh : s.table.handlers? name = none
  methods : service.handlers ≠ []

/-- Why a server does not take a service into its table. -/
inductive Refuses (s : Server ω σ) (name : String) (service : Service σ) : Fault → Prop
  | held (h : s.holders ≠ 0) : Refuses s name service (.registration (.serverRunning name))
  | emptyName (hheld : s.holders = 0) (hname : name = "") :
      Refuses s name service (.registration .emptyName)
  | taken (hheld : s.holders = 0) (hname : name ≠ "") (htaken : s.table.handlers? name ≠ none) :
      Refuses s name service (.registration (.alreadyRegistered name))
  | noMethods (hheld : s.holders = 0) (hname : name ≠ "") (hfresh : s.table.handlers? name = none)
      (hmethods : service.handlers = []) :
      Refuses s name service (.registration (.noMethods name))

/-- The server with a service in its table. -/
def withService (s : Server ω σ) (name : String) (service : Service σ) : Server ω σ :=
  { s with table := ⟨Members.insert name service.handlers s.table.services⟩ }

/-- A service that is accepted is entered. -/
theorem enter_of_accepts (h : s.Accepts name service) :
    s.enter name service = .ok (s.withService name service) := by
  have hregister := ServiceTable.register_eq_ok_iff.mpr ⟨h.named, h.fresh, h.methods, rfl⟩
  unfold enter
  rw [if_neg (not_not_intro h.unheld), hregister]
  rfl

/-- A service that is refused leaves the table as it was. -/
theorem enter_of_refuses (h : s.Refuses name service fault) :
    s.enter name service = .error fault := by
  unfold enter
  -- The guards stand in the order of the causes.
  cases h with
  | held hheld =>
    rw [if_pos hheld]
    rfl
  | emptyName hheld hname =>
    rw [if_neg (not_not_intro hheld), ServiceTable.register, if_pos (by simp [hname])]
    rfl
  | taken hheld hname htaken =>
    have hsome : (s.table.handlers? name).isSome := Option.isSome_iff_ne_none.mpr htaken
    rw [if_neg (not_not_intro hheld), ServiceTable.register, if_neg (by simpa using hname),
      if_pos hsome]
    rfl
  | noMethods hheld hname hfresh hmethods =>
    rw [if_neg (not_not_intro hheld), ServiceTable.register, if_neg (by simpa using hname),
      if_neg (by simp [hfresh]), if_pos (by simp [hmethods])]
    rfl

/-- Every service is accepted or refused, and never both. -/
theorem accepts_or_refuses (s : Server ω σ) (name : String) (service : Service σ) :
    s.Accepts name service ∨ ∃ fault, s.Refuses name service fault := by
  by_cases hheld : s.holders = 0
  · by_cases hname : name = ""
    · exact .inr ⟨_, .emptyName hheld hname⟩
    · by_cases hfresh : s.table.handlers? name = none
      · by_cases hmethods : service.handlers = []
        · exact .inr ⟨_, .noMethods hheld hname hfresh hmethods⟩
        · exact .inl ⟨hheld, hname, hfresh, hmethods⟩
      · exact .inr ⟨_, .taken hheld hname hfresh⟩
  · exact .inr ⟨_, .held hheld⟩

/-- A service that has just come into the table goes out of it without a trace. -/
theorem withdraw_of_enter (h : s.Accepts name service) :
    (s.withService name service).withdraw name = s := by
  have hheld : (s.withService name service).holders = 0 := h.unheld
  unfold withdraw
  rw [if_neg (not_not_intro hheld)]
  have htable : ((s.withService name service).table.deregister name).2 = s.table := by
    simp only [withService, ServiceTable.deregister]
    rw [Members.erase_insert h.fresh]
  rw [htable]
  rfl

/-! ### Publishing -/

/-- How publishing a service in the surroundings `w` ends. -/
inductive Publishes (s : Server ω σ) (name : String) (w : ω) : Except Fault Unit → ω → Prop
  | alone (h : s.discovery = none) : Publishes s name w (.ok ()) w
  | unconnected {backend settings fault w'} (h : s.discovery = some (backend, settings))
      (hconnect : (backend.connect settings).perform w = (.error fault, w')) :
      Publishes s name w (.error fault) w'
  | unpublished {backend settings fault w₁ w'} (h : s.discovery = some (backend, settings))
      (hconnect : (backend.connect settings).perform w = (.ok (), w₁))
      (hpublish : (backend.publish name s.settings.host s.port).perform w₁ = (.error fault, w')) :
      Publishes s name w (.error fault) w'
  | published {backend settings w₁ w'} (h : s.discovery = some (backend, settings))
      (hconnect : (backend.connect settings).perform w = (.ok (), w₁))
      (hpublish : (backend.publish name s.settings.host s.port).perform w₁ = (.ok (), w')) :
      Publishes s name w (.ok ()) w'

/-- Publishing does what its description says. -/
theorem publishes_perform (s : Server ω σ) (name : String) (w : ω) :
    s.Publishes name w ((s.publish name).perform w).1 ((s.publish name).perform w).2 := by
  unfold publish
  split
  · next hnone => exact .alone hnone
  · next backend settings hsome =>
    -- The backend is connected first, and asked to publish only if that succeeds.
    unfold Backend.announce
    rw [Action.perform_bind]
    cases hconnect : (backend.connect settings).perform w with
    | mk outcome w₁ =>
      cases outcome with
      | error fault => exact .unconnected hsome hconnect
      | ok _ =>
        dsimp only
        cases hpublish : (backend.publish name s.settings.host s.port).perform w₁ with
        | mk outcome w' =>
          cases outcome with
          | error fault => exact .unpublished hsome hconnect hpublish
          | ok _ => exact .published hsome hconnect hpublish

/-! ### Registering -/

/-- A service that cannot be published is removed again. -/
theorem perform_publish (entered : Server ω σ) (w : ω) (name : String) :
    (((outside (entered.publish name)).attempt >>= fun outcome =>
      match outcome with
      | .ok () => pure ()
      | .error fault => do
        modify fun (s, w) => (s.withdraw name, w)
        throw fault : ServerAction ω σ Unit)).perform (entered, w) =
      match (entered.publish name).perform w with
      | (.ok (), w') => (.ok (), (entered, w'))
      | (.error fault, w') => (.error fault, (entered.withdraw name, w')) := by
  have houtside : (outside (entered.publish name)).perform (entered, w) =
      (((entered.publish name).perform w).1, (entered, ((entered.publish name).perform w).2)) :=
    rfl
  rw [Action.perform_bind, Action.perform_attempt, houtside]
  cases (entered.publish name).perform w with
  | mk outcome w' =>
    cases outcome <;> rfl

/-- A service that the table does not take changes nothing; of one that it takes nothing is left if
it cannot be published. -/
theorem perform_register (s : Server ω σ) (w : ω) (name : String) (service : Service σ) :
    (register name service).perform (s, w) =
      match s.enter name service with
      | .error fault => (.error fault, (s, w))
      | .ok entered =>
        match (entered.publish name).perform w with
        | (.ok (), w') => (.ok (), (entered, w'))
        | (.error fault, w') => (.error fault, (entered.withdraw name, w')) := by
  show (Action.ofExcept (s.enter name service) >>= fun entered => _ :
    ServerAction ω σ Unit).perform (s, w) = _
  rw [Action.perform_bind, Action.perform_ofExcept]
  cases s.enter name service with
  | error fault => rfl
  | ok entered =>
    exact perform_publish entered w name

/-- How registering a service ends: what comes of it, the server after it and the surroundings
after it. -/
inductive Registers (s : Server ω σ) (w : ω) (name : String) (service : Service σ) :
    Except Fault Unit → Server ω σ → ω → Prop
  | refused {fault : Fault} (h : s.Refuses name service fault) :
      Registers s w name service (.error fault) s w
  | unpublished {fault : Fault} {w' : ω} (h : s.Accepts name service)
      (hpublish : s.Publishes name w (.error fault) w') :
      Registers s w name service (.error fault) s w'
  | registered {w' : ω} (h : s.Accepts name service) (hpublish : s.Publishes name w (.ok ()) w') :
      Registers s w name service (.ok ()) (s.withService name service) w'

/-- Registering does what its description says. -/
theorem registers_perform (s : Server ω σ) (w : ω) (name : String) (service : Service σ) :
    s.Registers w name service ((register name service).perform (s, w)).1
      ((register name service).perform (s, w)).2.1
      ((register name service).perform (s, w)).2.2 := by
  rw [perform_register]
  rcases s.accepts_or_refuses name service with haccepts | ⟨fault, hrefuses⟩
  · rw [enter_of_accepts haccepts]
    -- The table does not matter for publishing.
    have hpublishes := s.publishes_perform name w
    have hpublish : (s.withService name service).publish name = s.publish name := rfl
    dsimp only
    rw [hpublish]
    cases houtcome : (s.publish name).perform w with
    | mk outcome w' =>
      rw [houtcome] at hpublishes
      cases outcome with
      | error fault =>
        dsimp only
        rw [withdraw_of_enter haccepts]
        exact .unpublished haccepts hpublishes
      | ok _ => exact .registered haccepts hpublishes
  · rw [enter_of_refuses hrefuses]
    exact .refused hrefuses

/-- A registration that fails leaves the server as it was, and contacts the backend only if the
table accepts. -/
theorem Registers.of_error {w w' : ω} (h : s.Registers w name service (.error fault) s' w') :
    s' = s ∧ (s.Refuses name service fault ∧ w' = w ∨
      s.Accepts name service ∧ s.Publishes name w (.error fault) w') := by
  cases h with
  | refused hrefuses => exact ⟨rfl, .inl ⟨hrefuses, rfl⟩⟩
  | unpublished haccepts hpublishes => exact ⟨rfl, .inr ⟨haccepts, hpublishes⟩⟩

/-- A registration that succeeds was accepted and published. -/
theorem Registers.of_ok {w w' : ω} (h : s.Registers w name service (.ok ()) s' w') :
    s.Accepts name service ∧ s.Publishes name w (.ok ()) w' ∧ s' = s.withService name service := by
  cases h with
  | registered haccepts hpublishes => exact ⟨haccepts, hpublishes, rfl⟩

/-- A backend that publishes the service lets it be registered. -/
theorem perform_register_of_announce (h : s.Accepts name service) {backend : Backend ω}
    {settings : DiscoverySettings} {w w' : ω}
    (hannounce : (backend.announce settings name s.settings.host s.port).perform w = (.ok (), w')) :
    (register name service).perform (s.setDiscovery backend settings, w) =
      (.ok (), ((s.setDiscovery backend settings).withService name service, w')) := by
  have haccepts : (s.setDiscovery backend settings).Accepts name service :=
    ⟨h.unheld, h.named, h.fresh, h.methods⟩
  have hpublish : ((s.setDiscovery backend settings).withService name service).publish name =
      backend.announce settings name s.settings.host s.port := rfl
  rw [perform_register, enter_of_accepts haccepts]
  dsimp only
  rw [hpublish, hannounce]

/-! ### What a table has gained -/

/-- The table holds what it held at the start, and the services `added` since then. -/
structure Gains (start table : ServiceTable σ) (added : List (String × Service σ)) : Prop where
  handlers?_eq : ∀ name, table.handlers? name =
    match added.lookup name with
    | some service => some service.handlers
    | none => start.handlers? name
  nodup : (added.map (·.1)).Nodup
  fresh : ∀ a ∈ added, start.handlers? a.1 = none

/-- A service added is found under its name, and every other one as before. -/
theorem handlers?_withService (s : Server ω σ) (name : String) (service : Service σ)
    (other : String) : (s.withService name service).table.handlers? other =
      if other = name then some service.handlers else s.table.handlers? other :=
  Members.lookup_insert

theorem Gains.refl (table : ServiceTable σ) : Gains table table [] where
  handlers?_eq _ := rfl
  nodup := List.nodup_nil
  fresh := nofun

/-- The service that comes first is in the table when the others come. -/
theorem Gains.cons (hfresh : s.table.handlers? name = none) {table : ServiceTable σ}
    {added : List (String × Service σ)} (h : Gains (s.withService name service).table table added) :
    Gains s.table table ((name, service) :: added) := by
  -- A service of this name was not there before, so no later one can have it.
  have hnotMem : name ∉ added.map (·.1) := by
    intro hmem
    obtain ⟨a, ha, rfl⟩ := List.mem_map.mp hmem
    have hnone := h.fresh a ha
    rw [handlers?_withService, if_pos rfl] at hnone
    cases hnone
  constructor
  · intro other
    rw [h.handlers?_eq other, handlers?_withService, List.lookup_cons]
    by_cases heq : other = name
    · subst heq
      have hnone : added.lookup other = none := by
        rw [← Option.not_isSome_iff_eq_none, Members.isSome_lookup_iff]
        exact hnotMem
      simp [hnone]
    · have hbeq : (other == name) = false := beq_eq_false_iff_ne.mpr heq
      simp [hbeq, heq]
  · exact List.nodup_cons.mpr ⟨hnotMem, h.nodup⟩
  · intro a ha
    rcases List.mem_cons.mp ha with rfl | ha
    · exact hfresh
    · -- A later service has another name, so it was not there at the start either.
      have hne : a.1 ≠ name := fun heq => hnotMem (heq ▸ List.mem_map_of_mem ha)
      have hnone := h.fresh a ha
      rwa [handlers?_withService, if_neg hne] at hnone

/-! ### Sequences of steps -/

/-- A step while a server is set up.  The table is held by others between `hold` and `release`. -/
inductive Setup (ω σ : Type) where
  | register (name : String) (service : Service σ)
  | setDiscovery (backend : Backend ω) (settings : DiscoverySettings)
  | hold
  | release

/-- Does the step. -/
def Setup.action : Setup ω σ → ServerAction ω σ Unit
  | register name service => Server.register name service
  | setDiscovery backend settings => modify fun (s, w) => (s.setDiscovery backend settings, w)
  | hold => modify fun (s, w) => (s.hold, w)
  | release => modify fun (s, w) => (s.release, w)

/-- Does the steps one after the other, whatever comes of each of them; the log has every step with
what came of it. -/
def setUp : List (Setup ω σ) → Server ω σ × ω →
    List (Setup ω σ × Except Fault Unit) × Server ω σ × ω
  | [], p => ([], p)
  | step :: steps, p =>
    let (outcome, p) := step.action.perform p
    let (log, p) := setUp steps p
    ((step, outcome) :: log, p)

/-- The service that an entry of the log has added. -/
def Setup.added? : Setup ω σ × Except Fault Unit → Option (String × Service σ)
  | (.register name service, .ok ()) => some (name, service)
  | _ => none

/-- The services whose registering has succeeded, in this order. -/
def registered (log : List (Setup ω σ × Except Fault Unit)) : List (String × Service σ) :=
  log.filterMap Setup.added?

/-- What is added by a step, and by the steps after it, is added by all of them. -/
theorem gains_step (step : Setup ω σ) (p : Server ω σ × ω) {table : ServiceTable σ}
    {log : List (Setup ω σ × Except Fault Unit)}
    (h : Gains (step.action.perform p).2.1.table table (registered log)) :
    Gains p.1.table table (registered ((step, (step.action.perform p).1) :: log)) := by
  obtain ⟨s, w⟩ := p
  unfold registered at h ⊢
  -- Only a registration touches the table, and only one that is published.
  cases step with
  | register name service =>
    have hregisters := s.registers_perform w name service
    simp only [Setup.action] at h ⊢
    cases houtcome : (register name service).perform (s, w) with
    | mk outcome p' =>
      obtain ⟨s', w'⟩ := p'
      rw [houtcome] at h hregisters
      cases hregisters with
      | refused hrefuses => exact h
      | unpublished haccepts hpublish => exact h
      | registered haccepts hpublish => exact .cons haccepts.fresh h
  | setDiscovery backend settings => exact h
  | hold => exact h
  | release => exact h

/-- A table gains exactly what was registered. -/
theorem gains_setUp (steps : List (Setup ω σ)) (start : Server ω σ × ω) :
    Gains start.1.table (setUp steps start).2.1.table (registered (setUp steps start).1) := by
  induction steps generalizing start with
  | nil => exact .refl start.1.table
  | cons step steps ih => exact gains_step step start (ih (step.action.perform start).2)

/-! ### Registering as a whole -/

/-- **Registering is all or nothing.**  After any steps, registering fails for exactly these causes:
the table does not take the service, and then the backend is not contacted; or the backend cannot be
connected or does not publish.  In each case the server is as it was before, so the services of its
table are called as before, and the service can be registered with a backend that publishes it.  If
it succeeds the table has gained this service and nothing else, and a backend has published it under
the host and port of the server after it was connected.  At any time the table holds what it held at
the start and the services whose registering has succeeded. -/
theorem register_atomic (start : Server ω σ × ω) (steps : List (Setup ω σ)) (name : String)
    (service : Service σ) :
    let s := (setUp steps start).2.1
    let w := (setUp steps start).2.2
    let outcome := ((register name service).perform (s, w)).1
    let s' := ((register name service).perform (s, w)).2.1
    let w' := ((register name service).perform (s, w)).2.2
    (∀ fault, outcome = .error fault →
      s' = s ∧
      (s.Refuses name service fault ∧ w' = w ∨
        s.Accepts name service ∧ s.Publishes name w (.error fault) w' ∧
        ∀ (backend : Backend ω) settings w₁ w₂,
          (backend.announce settings name s.settings.host s.port).perform w₁ = (.ok (), w₂) →
          ∃ s₂, (register name service).perform (s'.setDiscovery backend settings, w₁) =
            (.ok (), (s₂, w₂)))) ∧
    (outcome = .ok () →
      s.Accepts name service ∧ s.Publishes name w (.ok ()) w' ∧ s' = { s with table := s'.table } ∧
      ∀ other, s'.table.handlers? other =
        if other = name then some service.handlers else s.table.handlers? other) ∧
    Gains start.1.table s.table (registered (setUp steps start).1) := by
  intro s w outcome s' w'
  have hregisters : s.Registers w name service outcome s' w' :=
    s.registers_perform w name service
  refine ⟨?_, ?_, gains_setUp steps start⟩
  · intro fault hfault
    rw [hfault] at hregisters
    obtain ⟨hsame, hcause⟩ := hregisters.of_error
    -- With a backend that takes the service the same registration succeeds.
    refine ⟨hsame, hcause.imp_right ?_⟩
    rintro ⟨haccepts, hpublishes⟩
    refine ⟨haccepts, hpublishes, ?_⟩
    intro backend settings w₁ w₂ hannounce
    rw [hsame]
    exact ⟨_, perform_register_of_announce haccepts hannounce⟩
  · intro hok
    rw [hok] at hregisters
    obtain ⟨haccepts, hpublishes, hadded⟩ := hregisters.of_ok
    refine ⟨haccepts, hpublishes, ?_, ?_⟩
    · rw [hadded]
      rfl
    · rw [hadded]
      exact handlers?_withService s name service

/-! ### A service registered again -/

/-- A service with one method. -/
def sampleService : Service Catalogue.Total := .build 0 [("add", .method Catalogue.add)]

/-- A server that is idle, with a backend that can be connected but does not publish. -/
def sampleServer : Server Directory Catalogue.Total where
  settings := .default
  port := 9222
  table := .empty
  gate := none
  discovery := some (Backend.inert, .default)
  holders := 0
  stopped := false

/-- A service that could not be published leaves the server as it was, and is registered later with
another backend. -/
theorem register_atomic_sample :
    ((register "calculator" sampleService).perform (sampleServer, .empty)).2.1 = sampleServer ∧
    ∃ s' directory, (register "calculator" sampleService).perform
      (sampleServer.setDiscovery Directory.backend .default, .empty) =
        (.ok (), (s', directory)) := by
  have hfault : ((register "calculator" sampleService).perform (sampleServer, .empty)).1 =
      .error (.registry (.other "cannot publish calculator")) := rfl
  obtain ⟨herror, -, -⟩ :=
    register_atomic (sampleServer, Directory.empty) [] "calculator" sampleService
  obtain ⟨hsame, hcause⟩ := herror _ hfault
  refine ⟨hsame, ?_⟩
  rcases hcause with ⟨hrefuses, -⟩ | ⟨-, -, hlater⟩
  · -- The table has taken the service, so this is not the cause.
    have hregistry : ∀ cause, ¬ Refuses sampleServer "calculator" sampleService (.registry cause) :=
      nofun
    exact absurd hrefuses (hregistry _)
  · obtain ⟨s', hs'⟩ := hlater Directory.backend .default .empty _ rfl
    rw [hsame] at hs'
    exact ⟨s', _, hs'⟩

end WireCall.Server
