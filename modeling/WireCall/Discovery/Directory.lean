import WireCall.Discovery.Backend

namespace WireCall

/-!
# Directories in memory

* A `Directory` keeps what has been published.  It answers only while it is connected; closing it
  loses nothing, and everyone who uses it sees the same entries.
* An `AddressBook` is a fixed list of addresses, which publishing does not change.
-/

/-- Addresses by the names of their services, the latest first. -/
abbrev AddressBook := List (String × String)

namespace AddressBook

/-- The address of a service. -/
def address (book : AddressBook) (service : String) : Except RegistryFault String :=
  match book.lookup service with
  | some address => .ok address
  | none => .error (.noAddress service)

/-- A book of entries, of which the last one for a name counts. -/
def ofEntries (entries : List (String × String)) : AddressBook := entries.reverse

/-- The book as a backend. -/
def backend {δ : Type} (book : AddressBook) : Backend δ where
  connect _ := pure ()
  publish _ _ _ := pure ()
  resolve service := .ofExcept ((book.address service).mapError .registry)
  close := pure ()

end AddressBook

/-- What has been published, and whether the directory is connected. -/
structure Directory where
  connected : Bool
  book : AddressBook
deriving DecidableEq, Repr, Inhabited

namespace Directory

/-- Nothing has been published, and nobody has connected. -/
def empty : Directory := ⟨false, []⟩

/-- The result `a` while the directory is connected. -/
def whileConnected {α : Type} (d : Directory) (a : Except RegistryFault α) :
    Except RegistryFault α :=
  if d.connected then a else .error .notCreated

/-- Publishes an address in place of an earlier one. -/
def publish (d : Directory) (service host : String) (port : UInt16) :
    Except RegistryFault Directory :=
  d.whileConnected (.ok { d with
    book := (service, addressOf host port) :: d.book.filter fun entry => entry.1 != service })

/-- The address of a service. -/
def resolve (d : Directory) (service : String) : Except RegistryFault String :=
  d.whileConnected (d.book.address service)

/-- The directory as a backend. -/
def backend : Backend Directory where
  connect _ := modify fun d => { d with connected := true }
  publish service host port := do
    let d ← .ofExcept (((← get).publish service host port).mapError .registry)
    set d
  resolve service := do
    .ofExcept (((← get).resolve service).mapError .registry)
  close := modify fun d => { d with connected := false }

end Directory
end WireCall
