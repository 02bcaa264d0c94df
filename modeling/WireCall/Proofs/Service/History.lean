import Mathlib.Data.List.Induction
import WireCall.Proofs.Members
import WireCall.Service.Async

namespace WireCall

/-!
# Service tables over whole histories

A `History` is a table with everything that was done with it: services registered and removed,
methods called, requests dispatched, each entry of its log with whether it succeeded.  A service is
registered with what was added to it, synchronous and asynchronous methods in any order.  What the
table holds is read off the log alone: a registration `Stands` when it succeeded and nothing that
came after it settled the name anew.

Main statement: after any sequence of deeds the table answers every question about services and
methods as the registrations that stand say (`History.run_table`).  One deed carries
`History.Faithful` on, and the rest is by induction on the sequence.
-/

variable {σ : Type}

/-! ### Services built addition by addition -/

namespace Service

variable {owner : InstanceId} {additions : List (String × Addition σ)} {name : String}

/-- The last addition is made to the service that the others have built. -/
theorem build_append_singleton (owner : InstanceId) (additions : List (String × Addition σ))
    (a : String × Addition σ) :
    build owner (additions ++ [a]) = (build owner additions).withAddition a.1 a.2 := by
  rw [build, List.foldl_append]
  rfl

/-- Additions of either kind leave the service with its instance. -/
theorem owner_build (owner : InstanceId) (additions : List (String × Addition σ)) :
    (build owner additions).owner = owner := by
  induction additions using List.reverseRecOn with
  | nil => rfl
  | append_singleton additions a ih =>
    rw [build_append_singleton, withAddition_eq, withMethod, ih]

/-- Of several additions under one name, the last one is in the service. -/
theorem lookup_build : (build owner additions).handlers.lookup name =
    (additions.reverse.lookup name).map fun a => ⟨owner, a.settled⟩ := by
  induction additions using List.reverseRecOn with
  | nil => rfl
  | append_singleton additions a ih =>
    obtain ⟨key, addition⟩ := a
    rw [build_append_singleton, withAddition_eq, withMethod, Members.lookup_insert, owner_build, ih,
      List.reverse_append, List.reverse_singleton, List.singleton_append, List.lookup_cons]
    by_cases heq : name = key
    · simp [heq]
    · have hbeq : (name == key) = false := beq_eq_false_iff_ne.mpr heq
      simp [hbeq, heq]

/-- An addition that no later one replaces answers under its name. -/
theorem lookup_build_of_last {before after : List (String × Addition σ)} {addition : Addition σ}
    (hlast : name ∉ after.map (·.1)) :
    (build owner (before ++ (name, addition) :: after)).handlers.lookup name =
      some ⟨owner, addition.settled⟩ := by
  have hnone : after.reverse.lookup name = none := by
    rw [← Option.not_isSome_iff_eq_none, Members.isSome_lookup_iff, List.map_reverse,
      List.mem_reverse]
    exact hlast
  rw [lookup_build, List.reverse_append, List.reverse_cons, List.append_assoc,
    List.lookup_append, hnone]
  simp

/-- A handler of the service is what was added last under its name. -/
theorem exists_last_of_lookup_build {handler : Handler σ}
    (hlookup : (build owner additions).handlers.lookup name = some handler) :
    ∃ before addition after, additions = before ++ (name, addition) :: after ∧
      name ∉ after.map (·.1) ∧ handler = ⟨owner, addition.settled⟩ := by
  rw [lookup_build, Option.map_eq_some_iff] at hlookup
  obtain ⟨addition, haddition, rfl⟩ := hlookup
  obtain ⟨later, earlier, hadditions, hlater⟩ := List.lookup_eq_some_iff.mp haddition
  refine ⟨earlier.reverse, addition, later.reverse, ?_, ?_, rfl⟩
  · rw [← List.reverse_reverse additions, hadditions]
    simp
  · rw [List.map_reverse, List.mem_reverse, List.mem_map]
    rintro ⟨a, ha, rfl⟩
    simpa using hlater a ha

/-- The service has a method under exactly the names that something was added under. -/
theorem isSome_lookup_build :
    ((build owner additions).handlers.lookup name).isSome ↔ name ∈ additions.map (·.1) := by
  rw [lookup_build, Option.isSome_map, Members.isSome_lookup_iff, List.map_reverse,
    List.mem_reverse]

/-- Only a service to which nothing was added exposes nothing. -/
theorem handlers_build_eq_nil_iff : (build owner additions).handlers = [] ↔ additions = [] := by
  constructor
  · intro hnil
    by_contra hne
    obtain ⟨a, ha⟩ := List.exists_mem_of_ne_nil additions hne
    have hsome : ((build owner additions).handlers.lookup a.1).isSome :=
      isSome_lookup_build.mpr (List.mem_map_of_mem ha)
    rw [hnil] at hsome
    cases hsome
  · rintro rfl
    rfl

end Service

/-! ### Deeds and what they report -/

/-- What is done with a table. -/
inductive Deed (σ : Type) where
  | register (name : String) (owner : InstanceId) (additions : List (String × Addition σ))
  | deregister (name : String)
  | call (service method : String) (args : List Value)
  | dispatch (request : Request)

/-- Whether this entry of a log is a register or a deregister of `name` that succeeded. -/
def Deed.Settles (name : String) : Deed σ × Bool → Prop
  | (.register name' _ _, succeeded) => name' = name ∧ succeeded = true
  | (.deregister name', succeeded) => name' = name ∧ succeeded = true
  | (.call .., _) => False
  | (.dispatch _, _) => False

/-- The last entry that settles `name` registers there the service of `owner` with `additions`. -/
def Stands (log : List (Deed σ × Bool)) (name : String) (owner : InstanceId)
    (additions : List (String × Addition σ)) : Prop :=
  ∃ before after, log = before ++ (.register name owner additions, true) :: after ∧
    ∀ entry ∈ after, ¬ Deed.Settles name entry

/-- Some service stands under `name`. -/
def Registered (log : List (Deed σ × Bool)) (name : String) : Prop :=
  ∃ owner additions, Stands log name owner additions

/-- A registration that stands after one more entry is this entry, or stood before it. -/
theorem stands_append_singleton {log : List (Deed σ × Bool)} {entry : Deed σ × Bool}
    {name : String} {owner : InstanceId} {additions : List (String × Addition σ)} :
    Stands (log ++ [entry]) name owner additions ↔
      entry = (.register name owner additions, true) ∨
        ¬ Deed.Settles name entry ∧ Stands log name owner additions := by
  constructor
  · rintro ⟨before, after, hlog, hafter⟩
    -- Either the last entry is the registration, or it stood before and the last entry left it.
    rcases List.eq_nil_or_concat after with rfl | ⟨after, last, rfl⟩
    · exact .inl (List.append_singleton_inj.mp hlog).2
    · rw [List.concat_eq_append] at hlog hafter
      rw [← List.cons_append, ← List.append_assoc] at hlog
      obtain ⟨hbefore, rfl⟩ := List.append_singleton_inj.mp hlog
      exact .inr ⟨hafter entry (by simp), before, after, hbefore,
        fun e he => hafter e (List.mem_append_left _ he)⟩
  · rintro (rfl | ⟨hentry, before, after, rfl, hafter⟩)
    · exact ⟨log, [], rfl, by simp⟩
    · refine ⟨before, after ++ [entry], by simp, fun e he => ?_⟩
      rcases List.mem_append.mp he with he | he
      · exact hafter e he
      · rw [List.mem_singleton.mp he]
        exact hentry

/-- After a deed that settles a name, the deed itself tells what stands there. -/
theorem stands_append_of_settles {log : List (Deed σ × Bool)} {entry : Deed σ × Bool}
    {name : String} (hsettles : Deed.Settles name entry) {owner : InstanceId}
    {additions : List (String × Addition σ)} :
    Stands (log ++ [entry]) name owner additions ↔
      entry = (.register name owner additions, true) := by
  rw [stands_append_singleton]
  exact or_iff_left fun h => h.1 hsettles

/-- Any other deed leaves what stands under a name. -/
theorem stands_append_of_not_settles {log : List (Deed σ × Bool)} {entry : Deed σ × Bool}
    {name : String} (hsettles : ¬ Deed.Settles name entry) {owner : InstanceId}
    {additions : List (String × Addition σ)} :
    Stands (log ++ [entry]) name owner additions ↔ Stands log name owner additions := by
  have hne : entry ≠ (.register name owner additions, true) := by
    rintro rfl
    exact hsettles ⟨rfl, rfl⟩
  rw [stands_append_singleton, or_iff_right hne, and_iff_right hsettles]

/-! ### What one deed does to a table -/

namespace ServiceTable

variable {t t' : ServiceTable σ} {name name' : String} {s : Service σ}

/-- A service is registered exactly when its name is free and not empty and it has a method. -/
theorem register_eq_ok_iff : t.register name s = .ok t' ↔
    name ≠ "" ∧ t.handlers? name = none ∧ s.handlers ≠ [] ∧
      t' = ⟨Members.insert name s.handlers t.services⟩ := by
  rw [register]
  -- The guards stand in this order: the name, whether it is taken, the methods.
  by_cases hname : name = ""
  · simp [hname]
  · rw [if_neg (by simpa using hname)]
    cases htaken : t.handlers? name with
    | some handlers => simp
    | none =>
      by_cases hnil : s.handlers = []
      · simp [hnil]
      · rw [if_neg (by simp), if_neg (by simpa using hnil)]
        constructor
        · exact fun h => ⟨hname, rfl, hnil, (Except.ok.inj h).symm⟩
        · rintro ⟨-, -, -, rfl⟩
          rfl

/-- After a registration the new service is found under its name, and every other one as before. -/
theorem handlers?_register_eq (h : t.register name s = .ok t') :
    t'.handlers? name' = if name' = name then some s.handlers else t.handlers? name' := by
  obtain ⟨-, -, -, rfl⟩ := register_eq_ok_iff.mp h
  exact Members.lookup_insert

/-- After a deregistration nothing is found under the name, and every other service as before. -/
theorem handlers?_deregister (t : ServiceTable σ) (name name' : String) :
    (t.deregister name).2.handlers? name' =
      if name' = name then none else t.handlers? name' := Members.lookup_erase

end ServiceTable

/-! ### Histories -/

/-- A table, the states of the instances, and what was done so far, each deed with whether it
succeeded. -/
structure History (σ : Type) where
  table : ServiceTable σ
  states : Instances σ
  log : List (Deed σ × Bool)

namespace History

/-- One more deed.  A call succeeds in reaching the table whatever it answers. -/
def step (h : History σ) : Deed σ → History σ
  | .register name owner additions =>
    match h.table.register name (.build owner additions) with
    | .ok table => { h with table, log := h.log ++ [(.register name owner additions, true)] }
    | .error _ => { h with log := h.log ++ [(.register name owner additions, false)] }
  | .deregister name =>
    let (present, table) := h.table.deregister name
    { h with table, log := h.log ++ [(.deregister name, present)] }
  | .call service method args =>
    { h with
      states := (h.table.call service method args h.states).2
      log := h.log ++ [(.call service method args, true)] }
  | .dispatch request =>
    { h with
      states := (h.table.dispatch request h.states).2
      log := h.log ++ [(.dispatch request, true)] }

/-- A history that starts with an empty table. -/
def run (states : Instances σ) (deeds : List (Deed σ)) : History σ :=
  deeds.foldl step ⟨.empty, states, []⟩

/-- The last deed is done where the others left the table. -/
theorem run_append_singleton (states : Instances σ) (deeds : List (Deed σ)) (deed : Deed σ) :
    run states (deeds ++ [deed]) = (run states deeds).step deed := by
  rw [run, List.foldl_append]
  rfl

/-! ### The table is what the log says -/

/-- The table holds the registrations of the log that stand, in the order of their names. -/
structure Faithful (h : History σ) : Prop where
  ascending : Members.Ascending h.table.services
  sound : ∀ name handlers, h.table.handlers? name = some handlers → name ≠ "" ∧ handlers ≠ []
  handlers?_eq : ∀ name handlers, h.table.handlers? name = some handlers ↔
    ∃ owner additions, Stands h.log name owner additions ∧
      (Service.build owner additions).handlers = handlers

variable {h : History σ}

/-- An entry that settles nothing does not matter, nor do the states. -/
theorem Faithful.of_not_settles (hfaithful : h.Faithful) (entry : Deed σ × Bool)
    (hsettles : ∀ name, ¬ Deed.Settles name entry) (states : Instances σ) :
    Faithful ⟨h.table, states, h.log ++ [entry]⟩ where
  ascending := hfaithful.ascending
  sound := hfaithful.sound
  handlers?_eq name handlers := by
    simp only [stands_append_of_not_settles (hsettles name)]
    exact hfaithful.handlers?_eq name handlers

/-- A registration that is done keeps the table faithful to its log. -/
theorem Faithful.register (hfaithful : h.Faithful) {name : String} {owner : InstanceId}
    {additions : List (String × Addition σ)} {table : ServiceTable σ}
    (hok : h.table.register name (.build owner additions) = .ok table) (states : Instances σ) :
    Faithful ⟨table, states, h.log ++ [(.register name owner additions, true)]⟩ where
  ascending := by
    obtain ⟨-, -, -, rfl⟩ := ServiceTable.register_eq_ok_iff.mp hok
    exact Members.ascending_insert hfaithful.ascending
  sound name' handlers hhandlers := by
    obtain ⟨hname, -, hmethods, -⟩ := ServiceTable.register_eq_ok_iff.mp hok
    rw [ServiceTable.handlers?_register_eq hok] at hhandlers
    split at hhandlers
    · rename_i heq
      obtain rfl := Option.some.inj hhandlers
      exact ⟨heq ▸ hname, hmethods⟩
    · exact hfaithful.sound name' handlers hhandlers
  handlers?_eq name' handlers := by
    -- Under the new name stands the new service; under any other name what stood there.
    rw [ServiceTable.handlers?_register_eq hok]
    split
    · rename_i heq
      subst heq
      simp only [stands_append_of_settles (show Deed.Settles name' (.register name' owner additions,
        true) from ⟨rfl, rfl⟩)]
      constructor
      · exact fun h => ⟨owner, additions, rfl, Option.some.inj h⟩
      · rintro ⟨owner', additions', heq, rfl⟩
        cases heq
        rfl
    · rename_i hne
      simp only [stands_append_of_not_settles (show ¬ Deed.Settles name' (.register name owner
        additions, true) from fun h => hne h.1.symm)]
      exact hfaithful.handlers?_eq name' handlers

/-- A deregistration keeps the table faithful to its log. -/
theorem Faithful.deregister (hfaithful : h.Faithful) (name : String) (states : Instances σ) :
    Faithful ⟨(h.table.deregister name).2, states,
      h.log ++ [(.deregister name, (h.table.deregister name).1)]⟩ where
  ascending := Members.ascending_erase hfaithful.ascending
  sound name' handlers hhandlers := by
    rw [ServiceTable.handlers?_deregister] at hhandlers
    split at hhandlers
    · cases hhandlers
    · exact hfaithful.sound name' handlers hhandlers
  handlers?_eq name' handlers := by
    have hold := hfaithful.handlers?_eq name'
    rw [ServiceTable.handlers?_deregister]
    -- Only a deregistration that found something settles its name.
    by_cases hsettles : @Deed.Settles σ name'
        (.deregister name, (h.table.deregister name).1)
    · simp only [stands_append_of_settles hsettles]
      rw [if_pos hsettles.1.symm]
      simp
    · simp only [stands_append_of_not_settles hsettles]
      rw [← hold handlers]
      split
      · -- The service that was to go was not there.
        rename_i heq
        have habsent : h.table.handlers? name' = none := by
          by_contra hne
          refine hsettles ⟨heq.symm, ?_⟩
          rw [ServiceTable.deregister, ← heq]
          exact Option.isSome_iff_ne_none.mpr hne
        rw [habsent]
      · rfl

/-- Every deed keeps the table faithful to its log. -/
theorem Faithful.step (hfaithful : h.Faithful) (deed : Deed σ) : (h.step deed).Faithful := by
  cases deed with
  | register name owner additions =>
    rw [History.step]
    split
    · exact hfaithful.register ‹_› h.states
    · exact hfaithful.of_not_settles (.register name owner additions, false)
        (fun _ h => Bool.false_ne_true h.2) h.states
  | deregister name => exact hfaithful.deregister name h.states
  | call service method args =>
    exact hfaithful.of_not_settles (.call service method args, true) (fun _ h => h) _
  | dispatch request =>
    exact hfaithful.of_not_settles (.dispatch request, true) (fun _ h => h) _

/-- After any deeds the table is faithful to its log. -/
theorem faithful_run (states : Instances σ) (deeds : List (Deed σ)) :
    (run states deeds).Faithful := by
  induction deeds using List.reverseRecOn with
  | nil =>
    refine ⟨.nil, fun name handlers hnone => (by cases hnone), fun name handlers => ?_⟩
    constructor
    · intro hnone
      cases hnone
    · rintro ⟨owner, additions, ⟨before, after, hnil, -⟩, -⟩
      cases before <;> cases hnil
  | append_singleton deeds deed ih =>
    rw [run_append_singleton]
    exact ih.step deed

/-! ### What a faithful table answers -/

/-- A name has handlers exactly when it is registered by the log. -/
theorem Faithful.isSome_handlers?_iff (hfaithful : h.Faithful) (name : String) :
    (h.table.handlers? name).isSome ↔ Registered h.log name := by
  rw [Option.isSome_iff_exists]
  constructor
  · rintro ⟨handlers, hhandlers⟩
    obtain ⟨owner, additions, hstands, -⟩ := (hfaithful.handlers?_eq name handlers).mp hhandlers
    exact ⟨owner, additions, hstands⟩
  · rintro ⟨owner, additions, hstands⟩
    exact ⟨_, (hfaithful.handlers?_eq name _).mpr ⟨owner, additions, hstands, rfl⟩⟩

/-- A method is contained exactly when it is among the additions that stand under its service. -/
theorem Faithful.contains_iff (hfaithful : h.Faithful) (name method : String) :
    h.table.contains name method = true ↔
      ∃ owner additions, Stands h.log name owner additions ∧ method ∈ additions.map (·.1) := by
  rw [ServiceTable.contains]
  constructor
  · -- The methods of a service are the names of its additions.
    intro hcontains
    cases hhandlers : h.table.handlers? name with
    | none =>
      rw [hhandlers] at hcontains
      cases hcontains
    | some handlers =>
      rw [hhandlers] at hcontains
      obtain ⟨owner, additions, hstands, rfl⟩ := (hfaithful.handlers?_eq name handlers).mp hhandlers
      exact ⟨owner, additions, hstands, Service.isSome_lookup_build.mp hcontains⟩
  · rintro ⟨owner, additions, hstands, hmethod⟩
    rw [(hfaithful.handlers?_eq name _).mpr ⟨owner, additions, hstands, rfl⟩]
    exact Service.isSome_lookup_build.mpr hmethod

/-- The names of the table are those registered by the log. -/
theorem Faithful.mem_names_iff (hfaithful : h.Faithful) (name : String) :
    name ∈ h.table.names ↔ Registered h.log name := by
  rw [← hfaithful.isSome_handlers?_iff, ServiceTable.handlers?, Members.isSome_lookup_iff]
  rfl

/-- The table is empty exactly when the log has nothing registered. -/
theorem Faithful.isEmpty_iff (hfaithful : h.Faithful) :
    h.table.isEmpty = true ↔ ∀ name, ¬ Registered h.log name := by
  have hnames : h.table.isEmpty = true ↔ h.table.names = [] := by
    rw [ServiceTable.isEmpty, List.isEmpty_iff, ServiceTable.names, List.map_eq_nil_iff]
  rw [hnames, List.eq_nil_iff_forall_not_mem]
  exact forall_congr' fun name => not_congr (hfaithful.mem_names_iff name)

/-- A registration is refused for an empty name, for one that is taken, or for having no method, in
this order. -/
theorem Faithful.register_eq_error_iff (hfaithful : h.Faithful) (name : String)
    (owner : InstanceId) (additions : List (String × Addition σ)) (fault : RegistrationFault) :
    h.table.register name (.build owner additions) = .error fault ↔
      name = "" ∧ fault = .emptyName ∨
      name ≠ "" ∧ Registered h.log name ∧ fault = .alreadyRegistered name ∨
      name ≠ "" ∧ ¬ Registered h.log name ∧ additions = [] ∧ fault = .noMethods name := by
  rw [ServiceTable.register, ← hfaithful.isSome_handlers?_iff]
  by_cases hname : name = ""
  · simp [hname, @eq_comm _ fault]
  · rw [if_neg (by simpa using hname)]
    cases htaken : h.table.handlers? name with
    | some handlers => simp [hname, @eq_comm _ fault]
    | none =>
      by_cases hnil : additions = []
      · subst hnil
        simp [hname, Service.build, Service.ofInstance, @eq_comm _ fault]
      · have hhandlers : (Service.build owner additions).handlers ≠ [] :=
          fun h => hnil (Service.handlers_build_eq_nil_iff.mp h)
        simp [hname, hnil, hhandlers]

/-- Of what was added under one name, at once or waiting, the last answers the calls. -/
theorem Faithful.call_eq (hfaithful : h.Faithful) {name key : String} {owner : InstanceId}
    {before after : List (String × Addition σ)} {addition : Addition σ}
    (hstands : Stands h.log name owner (before ++ (key, addition) :: after))
    (hlast : key ∉ after.map (·.1)) (args : List Value) (states : Instances σ) :
    h.table.call name key args states =
      ((addition.call key args (states owner)).1,
        states.set owner (addition.call key args (states owner)).2) := by
  have hhandlers := (hfaithful.handlers?_eq name _).mpr ⟨owner, _, hstands, rfl⟩
  have hfind : h.table.find name key = .ok ⟨owner, addition.settled⟩ := by
    rw [ServiceTable.find, hhandlers]
    simp only [Service.lookup_build_of_last hlast]
  rw [ServiceTable.call, hfind, Addition.call_eq_settled]

/-! ### Runs -/

/-- The log holds every deed, in order. -/
theorem log_run (states : Instances σ) (deeds : List (Deed σ)) :
    (run states deeds).log.map (·.1) = deeds := by
  induction deeds using List.reverseRecOn with
  | nil => rfl
  | append_singleton deeds deed ih =>
    have hstep : ∀ h : History σ, (h.step deed).log.map (·.1) = h.log.map (·.1) ++ [deed] := by
      intro h
      cases deed with
      | register name owner additions =>
        rw [step]
        split <;> rw [List.map_append] <;> rfl
      | deregister name => exact List.map_append
      | call service method args => exact List.map_append
      | dispatch request => exact List.map_append
    rw [run_append_singleton, hstep, ih]

/-- Whatever was done with a table that was empty at first, in any order, it holds exactly the
registrations that stand, and every further deed is answered as they say: a registration fails for
the first of its three causes and leaves the table as it is, a removal touches no other service,
of the methods that were added under one name, synchronous and asynchronous ones, the last answers
the calls, and calls do not touch the table. -/
theorem run_table (states : Instances σ) (deeds : List (Deed σ)) :
    let h := run states deeds
    h.log.map (·.1) = deeds ∧
    -- What the table holds.
    (∀ name method, h.table.contains name method = true ↔
      ∃ owner additions, Stands h.log name owner additions ∧ method ∈ additions.map (·.1)) ∧
    h.table.names.Nodup ∧
    (∀ name, name ∈ h.table.names ↔ Registered h.log name) ∧
    (h.table.isEmpty = true ↔ ∀ name, ¬ Registered h.log name) ∧
    (∀ s ∈ h.table.services, s.1 ≠ "" ∧ s.2 ≠ []) ∧
    -- Registering.
    (∀ name owner additions fault,
      h.table.register name (.build owner additions) = .error fault ↔
        name = "" ∧ fault = .emptyName ∨
        name ≠ "" ∧ Registered h.log name ∧ fault = .alreadyRegistered name ∨
        name ≠ "" ∧ ¬ Registered h.log name ∧ additions = [] ∧ fault = .noMethods name) ∧
    (∀ name owner additions fault,
      h.table.register name (.build owner additions) = .error fault →
        (h.step (.register name owner additions)).table = h.table) ∧
    -- Removing.
    (∀ name, ((h.table.deregister name).1 = true ↔ Registered h.log name) ∧
      ∀ other, other ≠ name →
        (h.step (.deregister name)).table.handlers? other = h.table.handlers? other) ∧
    -- Calling.
    (∀ name key owner before after addition args states,
      Stands h.log name owner (before ++ (key, addition) :: after) → key ∉ after.map (·.1) →
        h.table.call name key args states =
          ((Addition.call addition key args (states owner)).1,
            states.set owner (Addition.call addition key args (states owner)).2)) ∧
    (∀ name key args, (h.step (.call name key args)).table = h.table) ∧
    (∀ request, (h.step (.dispatch request)).table = h.table) := by
  intro h
  have hfaithful : h.Faithful := faithful_run states deeds
  refine ⟨log_run states deeds, hfaithful.contains_iff, Members.nodup_keys hfaithful.ascending,
    hfaithful.mem_names_iff, hfaithful.isEmpty_iff, ?_, hfaithful.register_eq_error_iff, ?_, ?_,
    fun _ _ _ _ _ _ args states hstands hlast => hfaithful.call_eq hstands hlast args states,
    fun _ _ _ => rfl, fun _ => rfl⟩
  · -- A service is entered with a name and with methods only.
    rintro ⟨name, handlers⟩ hmem
    exact hfaithful.sound name handlers
      ((Members.lookup_eq_some_iff hfaithful.ascending).mpr hmem)
  · intro name owner additions fault hfault
    rw [step, hfault]
  · intro name
    refine ⟨hfaithful.isSome_handlers?_iff name, fun other hne => ?_⟩
    rw [step, ServiceTable.handlers?_deregister, if_neg hne]

end History
end WireCall
