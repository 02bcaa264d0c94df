import WireCall.Service.Method
import WireCall.Message

namespace WireCall

/-!
# The service table

A `Service` is a set of named methods bound to one instance; a `ServiceTable` holds services by
name.  The states of the instances (`Instances`) are kept apart from the table, so that services
built from one instance share its state and calls change states only.

Main statements: a refused registration leaves the table alone by construction, since it returns
none; a service that was registered has its methods (`contains_register`), and a service that was
removed has none (`contains_deregister_self`).
-/

/-! ### Entries by name -/

namespace Members

variable {α : Type}

/-- Without the entry of a name. -/
def erase (k : String) (members : List (String × α)) : List (String × α) :=
  members.filter fun m => m.1 != k

/-- With an entry in place of an earlier one of its name. -/
def insert (k : String) (a : α) (members : List (String × α)) : List (String × α) :=
  insertNew k a (erase k members)

theorem lookup_insertNew_self {k : String} {a : α} {members : List (String × α)}
    (fresh : ∀ m ∈ members, m.1 ≠ k) : (insertNew k a members).lookup k = some a := by
  induction members with
  | nil => simp [insertNew]
  | cons m rest ih =>
    have hne : m.1 ≠ k := fresh m (by simp)
    have hbeq : (k == m.1) = false := by simpa using fun h => hne h.symm
    simp only [insertNew]
    split
    · simp
    · split
      -- The name is not taken, so the search goes on behind the first entry.
      · next h => exact absurd h.symm hne
      · rw [List.lookup_cons, hbeq]
        exact ih fun m' h => fresh m' (by simp [h])

/-- A new key leaves the other keys as they were. -/
theorem lookup_insertNew_of_ne {k k' : String} (hne : k' ≠ k) (a : α)
    (members : List (String × α)) :
    (insertNew k a members).lookup k' = members.lookup k' := by
  have hbeq : (k' == k) = false := by simpa using hne
  induction members with
  | nil => simp [insertNew, List.lookup_cons, hbeq]
  | cons m rest ih =>
    simp only [insertNew]
    split
    · rw [List.lookup_cons, hbeq]
    · split
      · rfl
      · rw [List.lookup_cons, List.lookup_cons, ih]

@[simp] theorem lookup_erase_self (k : String) (members : List (String × α)) :
    (erase k members).lookup k = none := by
  induction members with
  | nil => rfl
  | cons m rest ih =>
    rw [erase] at ih ⊢
    rw [List.filter_cons]
    split
    · next h =>
      have hbeq : (k == m.1) = false := by
        simpa using fun he : k = m.1 => (by simpa using h : ¬ m.1 = k) he.symm
      rw [List.lookup_cons, hbeq]
      exact ih
    · exact ih

/-- Erasing a key leaves the other keys as they were. -/
theorem lookup_erase_of_ne {k k' : String} (hne : k' ≠ k) (members : List (String × α)) :
    (erase k members).lookup k' = members.lookup k' := by
  induction members with
  | nil => rfl
  | cons m rest ih =>
    rw [erase] at ih ⊢
    rw [List.filter_cons]
    split
    · rw [List.lookup_cons, List.lookup_cons, ih]
    · next h =>
      have he : m.1 = k := by simpa using h
      have hbeq : (k' == m.1) = false := by simpa [he] using hne
      rw [List.lookup_cons, hbeq]
      exact ih

/-- No member left after an erasure bears the key. -/
theorem ne_of_mem_erase {k : String} {members : List (String × α)} {m : String × α}
    (h : m ∈ erase k members) : m.1 ≠ k := by
  simpa [erase] using (List.mem_filter.1 h).2

/-- An inserted key is found with its new value, whether or not it was there before. -/
@[simp] theorem lookup_insert_self (k : String) (a : α) (members : List (String × α)) :
    (insert k a members).lookup k = some a :=
  lookup_insertNew_self fun _ h => ne_of_mem_erase h

/-- Inserting a key leaves the other keys as they were. -/
theorem lookup_insert_of_ne {k k' : String} (hne : k' ≠ k) (a : α)
    (members : List (String × α)) : (insert k a members).lookup k' = members.lookup k' := by
  rw [insert, lookup_insertNew_of_ne hne, lookup_erase_of_ne hne]

end Members

/-! ### Services -/

/-- The name under which the state of an instance is kept. -/
abbrev InstanceId := Nat

/-- The states of all instances. -/
abbrev Instances (σ : Type) := InstanceId → σ

/-- The states with another one for the instance `i`. -/
def Instances.set {σ : Type} (states : Instances σ) (i : InstanceId) (s : σ) : Instances σ :=
  fun j => if j = i then s else states j

/-- A method bound to an instance. -/
structure Handler (σ : Type) where
  owner : InstanceId
  method : Method σ

/-- An instance with the methods that it exposes. -/
structure Service (σ : Type) where
  owner : InstanceId
  handlers : List (String × Handler σ)

namespace Service

variable {σ : Type}

/-- A service that exposes nothing yet. -/
def ofInstance (owner : InstanceId) : Service σ := ⟨owner, []⟩

/-- The service with one more method; it replaces an earlier one of its name. -/
def withMethod (s : Service σ) (name : String) (m : Method σ) : Service σ :=
  { s with handlers := Members.insert name ⟨s.owner, m⟩ s.handlers }

/-- The names of the methods. -/
def methodNames (s : Service σ) : List String := s.handlers.map (·.1)

end Service

/-! ### The table -/

/-- Services by name. -/
structure ServiceTable (σ : Type) where
  services : List (String × List (String × Handler σ))

namespace ServiceTable

variable {σ : Type}

/-- No services. -/
def empty : ServiceTable σ := ⟨[]⟩

instance : Inhabited (ServiceTable σ) := ⟨empty⟩

/-- The methods of a service. -/
def handlers? (t : ServiceTable σ) (service : String) : Option (List (String × Handler σ)) :=
  t.services.lookup service

/-- Adds a service under a new name that is not empty; it has to have a method. -/
def register (t : ServiceTable σ) (name : String) (s : Service σ) :
    Except RegistrationFault (ServiceTable σ) :=
  if name.isEmpty then .error .emptyName
  else if (t.handlers? name).isSome then .error (.alreadyRegistered name)
  else if s.handlers.isEmpty then .error (.noMethods name)
  else .ok ⟨Members.insert name s.handlers t.services⟩

/-- Removes a service, and says whether there was one. -/
def deregister (t : ServiceTable σ) (name : String) : Bool × ServiceTable σ :=
  ((t.handlers? name).isSome, ⟨Members.erase name t.services⟩)

/-- Whether a service has a method. -/
def contains (t : ServiceTable σ) (service method : String) : Bool :=
  (t.handlers? service).any fun handlers => (handlers.lookup method).isSome

/-- The names of the services. -/
def names (t : ServiceTable σ) : List String := t.services.map (·.1)

/-- Whether there are no services. -/
def isEmpty (t : ServiceTable σ) : Bool := t.services.isEmpty

/-- The handler for a method of a service. -/
def find (t : ServiceTable σ) (service method : String) : Except Fault (Handler σ) :=
  match t.handlers? service with
  | none => .error (.serviceNotFound service)
  | some handlers =>
    match handlers.lookup method with
    | none => .error (.methodNotFound service method)
    | some handler => .ok handler

/-- Calls a method of a service. -/
def call (t : ServiceTable σ) (service method : String) (args : List Value)
    (states : Instances σ) : Outcome Fault Value × Instances σ :=
  match t.find service method with
  | .error fault => (.failed fault, states)
  | .ok handler =>
    let (outcome, s) := handler.method.call method args (states handler.owner)
    (outcome, states.set handler.owner s)

/-- The response to a request with this outcome; there is none when the method crashed. -/
def respond (requestId : UInt64) : Outcome Fault Value → Option Response
  | .returned data => some (.ok requestId data)
  | .failed fault => some (.failure requestId StatusCode.failed fault.message)
  | .crashed => none

/-- Answers a request. -/
def dispatch (t : ServiceTable σ) (r : Request) (states : Instances σ) :
    Option Response × Instances σ :=
  let (outcome, states) := t.call r.service r.method r.args states
  (respond r.requestId outcome, states)

/-- A registered service is found with its own handlers. -/
theorem handlers?_register {t t' : ServiceTable σ} {name : String} {s : Service σ}
    (h : t.register name s = .ok t') : t'.handlers? name = some s.handlers := by
  unfold register at h
  split at h
  · simp at h
  · split at h
    · simp at h
    · split at h
      · simp at h
      · rw [← Except.ok.inj h]
        simp [handlers?]

/-- Of a registered name the table contains exactly the methods of the service. -/
theorem contains_register {t t' : ServiceTable σ} {name : String} {s : Service σ}
    (h : t.register name s = .ok t') (method : String) :
    t'.contains name method = (s.handlers.lookup method).isSome := by
  simp [contains, handlers?_register h]

/-- Nothing is left of a name that was deregistered. -/
theorem contains_deregister_self (t : ServiceTable σ) (name method : String) :
    (t.deregister name).2.contains name method = false := by
  simp [contains, deregister, handlers?]

end ServiceTable
end WireCall
