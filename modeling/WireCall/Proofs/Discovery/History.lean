import Mathlib.Data.List.Induction
import WireCall.Client.Basic
import WireCall.Discovery.Directory
import WireCall.Proofs.Members

namespace WireCall

/-!
# What registries remember

A registry is a handle on a directory, which it may share with others, or a fixed list of entries.
Whatever is done through many of them is a sequence of errands.  Whether a directory is connected
and what is published there is read off the errands alone that came to it, through whichever handle:
it is `Connected` if it was connected and not closed since, and an address is `Published` if it was
published while the directory was connected, and no later one took its place.

Main statement: after any errands every registry answers by its own past, an errand that fails
changes nothing, and a client finds what is published even if the directory was closed
(`Registry.run_remembers`).  One errand carries `Directory.Remembers` on, and the rest is by
induction on the sequence.
-/

/-! ### Errands -/

/-- What is done with a backend. -/
inductive Errand where
  | connect (settings : DiscoverySettings)
  | publish (service host : String) (port : UInt16)
  | resolve (service : String)
  | close

namespace Errand

variable {δ σ : Type}

/-- Does the errand, which gives an address if it is to resolve a name. -/
def action (b : Backend δ) : Errand → Action δ (Option String)
  | connect settings => do
    b.connect settings
    return none
  | publish service host port => do
    b.publish service host port
    return none
  | resolve service => do
    let address ← b.resolve service
    return some address
  | close => do
    b.close
    return none

/-- An errand done on a part of a world touches that part alone. -/
theorem perform_action_within (b : Backend δ) (get : σ → δ) (set : δ → σ → σ) (e : Errand) (s : σ) :
    (e.action (b.within get set)).perform s =
      (((e.action b).perform (get s)).1, set ((e.action b).perform (get s)).2 s) := by
  unfold action Backend.within
  cases e with
  | connect settings => simp only [Action.perform_bind_pure, Action.perform_within]
  | publish service host port => simp only [Action.perform_bind_pure, Action.perform_within]
  | resolve service => simp only [Action.perform_bind_pure, Action.perform_within]
  | close => simp only [Action.perform_bind_pure, Action.perform_within]

end Errand

variable {past : List Errand} {e : Errand} {service address : String} {fault : Fault}

/-! ### The past of a directory -/

namespace Directory

/-- It was connected and has not been closed since. -/
def Connected (past : List Errand) : Prop :=
  ∃ before settings after, past = before ++ Errand.connect settings :: after ∧ .close ∉ after

/-- The address was published while the directory was connected, and no later one took its place. -/
def Published (past : List Errand) (service address : String) : Prop :=
  ∃ before host port after, past = before ++ Errand.publish service host port :: after ∧
    Connected before ∧ address = addressOf host port ∧
    ∀ between host' port' rest, after = between ++ Errand.publish service host' port' :: rest →
      ¬ Connected (before ++ Errand.publish service host port :: between)

theorem not_connected_nil : ¬ Connected [] := by
  rintro ⟨before, settings, after, hpast, -⟩
  simp at hpast

theorem not_published_nil : ¬ Published [] service address := by
  rintro ⟨before, host, port, after, hpast, -⟩
  simp at hpast

/-- An errand connects, or it leaves the connection as it was unless it closes it. -/
theorem connected_append_singleton :
    Connected (past ++ [e]) ↔
      (∃ settings, e = .connect settings) ∨ e ≠ .close ∧ Connected past := by
  constructor
  · -- Either the last errand is the one that connected, or the connection was made before it.
    rintro ⟨before, settings, after, hpast, hopen⟩
    rcases List.eq_nil_or_concat' after with rfl | ⟨after, last, rfl⟩
    · exact .inl ⟨settings, (List.append_singleton_inj.mp hpast).2⟩
    · rw [← List.cons_append, ← List.append_assoc] at hpast
      obtain ⟨rfl, rfl⟩ := List.append_singleton_inj.mp hpast
      simp only [List.mem_append, List.mem_singleton, not_or] at hopen
      exact .inr ⟨Ne.symm hopen.2, before, settings, after, rfl, hopen.1⟩
  · rintro (⟨settings, rfl⟩ | ⟨hopen, before, settings, after, rfl, hafter⟩)
    · exact ⟨past, settings, [], rfl, by simp⟩
    · refine ⟨before, settings, after ++ [e], by simp, ?_⟩
      simp only [List.mem_append, List.mem_singleton, not_or]
      exact ⟨hafter, Ne.symm hopen⟩

/-- Only to connect and to close matters for the connection. -/
theorem connected_append_of_ne (hconnect : ∀ settings, e ≠ .connect settings)
    (hclose : e ≠ .close) : Connected (past ++ [e]) ↔ Connected past := by
  rw [connected_append_singleton, and_iff_right hclose, or_iff_right]
  rintro ⟨settings, rfl⟩
  exact hconnect settings rfl

/-- A closed registry is not connected. -/
theorem not_connected_append_close : ¬ Connected (past ++ [Errand.close]) := by
  rw [connected_append_singleton]
  simp

/-- Whether this errand publishes an address of the service in a directory with this past. -/
def Publishes (past : List Errand) (service : String) (e : Errand) : Prop :=
  Connected past ∧ ∃ host port, e = .publish service host port

/-- An address is published by the last errand, or it was so before and is not replaced by it. -/
theorem published_append_singleton :
    Published (past ++ [e]) service address ↔
      (∃ host port, e = .publish service host port ∧ Connected past ∧
        address = addressOf host port) ∨
      ¬ Publishes past service e ∧ Published past service address := by
  constructor
  · rintro ⟨before, host, port, after, hpast, hconnected, rfl, hlast⟩
    -- the errand that published the address is the last one, or it stands before the last one
    rcases List.eq_nil_or_concat' after with rfl | ⟨after, last, rfl⟩
    · obtain ⟨rfl, rfl⟩ := List.append_singleton_inj.mp hpast
      exact .inl ⟨host, port, rfl, hconnected, rfl⟩
    · rw [← List.cons_append, ← List.append_assoc] at hpast
      obtain ⟨rfl, rfl⟩ := List.append_singleton_inj.mp hpast
      refine .inr ⟨?_, before, host, port, after, rfl, hconnected, rfl, ?_⟩
      · rintro ⟨hnow, host', port', rfl⟩
        exact hlast after host' port' [] rfl hnow
      · rintro between host' port' rest rfl
        exact hlast between host' port' (rest ++ [e]) (by simp)
  · rintro (⟨host, port, rfl, hconnected, rfl⟩ |
      ⟨hkept, before, host, port, after, rfl, hconnected, rfl, hlast⟩)
    · exact ⟨past, host, port, [], rfl, hconnected, rfl, by simp⟩
    · refine ⟨before, host, port, after ++ [e], by simp, hconnected, rfl, ?_⟩
      intro between host' port' rest hafter hnow
      -- an errand that would take its place is the last one, or stood there before
      rcases List.eq_nil_or_concat' rest with rfl | ⟨rest, last, rfl⟩
      · obtain ⟨rfl, rfl⟩ := List.append_singleton_inj.mp hafter
        exact hkept ⟨hnow, host', port', rfl⟩
      · rw [← List.cons_append, ← List.append_assoc] at hafter
        obtain ⟨rfl, rfl⟩ := List.append_singleton_inj.mp hafter
        exact hlast between host' port' rest rfl hnow

/-- An errand that does not touch the service keeps what was published of it. -/
theorem published_append_of_not_publishes (hkept : ¬ Publishes past service e) :
    Published (past ++ [e]) service address ↔ Published past service address := by
  rw [published_append_singleton, and_iff_right hkept, or_iff_right]
  rintro ⟨host, port, rfl, hconnected, -⟩
  exact hkept ⟨hconnected, host, port, rfl⟩

/-- After a publish the address published is the one of that errand. -/
theorem published_append_publish (hconnected : Connected past) {host : String} {port : UInt16} :
    Published (past ++ [Errand.publish service host port]) service address ↔
      address = addressOf host port := by
  have hpublishes : Publishes past service (.publish service host port) :=
    ⟨hconnected, host, port, rfl⟩
  rw [published_append_singleton, or_iff_left fun h => h.1 hpublishes]
  constructor
  · rintro ⟨_, _, heq, -, rfl⟩
    cases heq
    rfl
  · intro heq
    exact ⟨host, port, rfl, hconnected, heq⟩

/-- What is published stays so when the directory is closed and connected again. -/
theorem published_reopened (settings : DiscoverySettings) :
    Connected (past ++ [Errand.close, Errand.connect settings]) ∧
      Published (past ++ [Errand.close, Errand.connect settings]) service address ↔
    Published past service address := by
  have happend : past ++ [Errand.close, Errand.connect settings] =
      past ++ [Errand.close] ++ [Errand.connect settings] := by
    simp
  rw [happend, published_append_of_not_publishes (by simp [Publishes]),
    published_append_of_not_publishes (by simp [Publishes])]
  exact and_iff_right (connected_append_singleton.mpr (.inl ⟨settings, rfl⟩))

end Directory

/-! ### What a directory answers -/

/-- What comes of looking up a name whose addresses are these. -/
inductive Finds (service : String) (holds : String → Prop) : Except Fault String → Prop
  | found {address : String} (h : holds address) : Finds service holds (.ok address)
  | unknown (h : ∀ address, ¬ holds address) :
      Finds service holds (.error (.registry (.noAddress service)))

/-- Finding fails with a cause of the registry only. -/
theorem Finds.of_error {holds : String → Prop}
    (h : Finds service holds (.error fault)) : ∃ cause, fault = .registry cause := by
  cases h with
  | unknown h => exact ⟨_, rfl⟩

/-- A book that holds what was published finds it. -/
theorem AddressBook.finds {book : AddressBook} {holds : String → Prop}
    (h : ∀ address, book.lookup service = some address ↔ holds address) :
    Finds service holds ((book.address service).mapError .registry) := by
  unfold AddressBook.address
  cases hfound : book.lookup service with
  | some address => exact .found ((h address).mp hfound)
  | none =>
    refine .unknown fun address hholds => ?_
    rw [(h address).mpr hholds] at hfound
    cases hfound

/-- An address is given exactly when the book holds it. -/
theorem AddressBook.address_eq_ok_iff {book : AddressBook} :
    (book.address service).mapError Fault.registry = .ok address ↔
      book.lookup service = some address := by
  unfold AddressBook.address
  cases book.lookup service with
  | some found => simp [Except.mapError]
  | none => simp [Except.mapError]

namespace Directory

/-- What comes of an errand to a directory with this past. -/
inductive Answers (past : List Errand) : Errand → Except Fault (Option String) → Prop
  | connect (settings : DiscoverySettings) : Answers past (.connect settings) (.ok none)
  | close : Answers past .close (.ok none)
  | published {service host : String} {port : UInt16} (h : Connected past) :
      Answers past (.publish service host port) (.ok none)
  | unpublished {service host : String} {port : UInt16} (h : ¬ Connected past) :
      Answers past (.publish service host port) (.error (.registry .notCreated))
  | resolved {service : String} {outcome : Except Fault String} (h : Connected past)
      (hfinds : Finds service (Published past service) outcome) :
      Answers past (.resolve service) (outcome.map some)
  | unresolved {service : String} (h : ¬ Connected past) :
      Answers past (.resolve service) (.error (.registry .notCreated))

/-- An errand fails with a cause of the registry only. -/
theorem Answers.of_error (h : Answers past e (.error fault)) :
    ∃ cause, fault = .registry cause := by
  -- By cases on what the errand asked for: only a publish and a resolve can fail.
  generalize houtcome : Except.error fault = outcome at h
  cases h with
  | connect settings => cases houtcome
  | close => cases houtcome
  | published h => cases houtcome
  | unpublished h =>
    cases houtcome
    exact ⟨_, rfl⟩
  | unresolved h =>
    cases houtcome
    exact ⟨_, rfl⟩
  | @resolved _ found h hfinds =>
    cases found with
    | ok address => cases houtcome
    | error cause =>
      cases houtcome
      exact hfinds.of_error

/-- The directory is connected as its past says, and has the addresses that are published. -/
structure Remembers (d : Directory) (past : List Errand) : Prop where
  connected_iff : d.connected = true ↔ Connected past
  lookup_iff : ∀ service address,
    d.book.lookup service = some address ↔ Published past service address

variable {d : Directory}

theorem remembers_empty : empty.Remembers [] where
  connected_iff := iff_of_false (by simp [empty]) not_connected_nil
  lookup_iff _ _ := iff_of_false (by simp [empty]) not_published_nil

/-- Publishing on a connected directory replaces the entry of the service, and fails on any other.
-/
theorem perform_publish (d : Directory) (service host : String) (port : UInt16) :
    (backend.publish service host port).perform d =
      if d.connected then
        (.ok (), { d with
          book := (service, addressOf host port) :: Members.erase service d.book })
      else (.error (.registry .notCreated), d) := by
  obtain ⟨connected, book⟩ := d
  cases connected <;> rfl

/-- Resolving reads the directory and leaves it as it was. -/
theorem perform_resolve (d : Directory) (service : String) :
    (backend.resolve service).perform d = ((d.resolve service).mapError .registry, d) := by
  show (Action.ofExcept ((d.resolve service).mapError .registry)).perform d = _
  rfl

/-- The address that is published last takes the place of all others of its name. -/
theorem lookup_publish (book : AddressBook) (service address name : String) :
    ((service, address) :: Members.erase service book).lookup name =
      if name = service then some address else book.lookup name := by
  rw [List.lookup_cons]
  by_cases heq : name = service
  · simp [heq]
  · have hbeq : (name == service) = false := beq_eq_false_iff_ne.mpr heq
    rw [hbeq, if_neg heq, Members.lookup_erase, if_neg heq]

/-- An errand that publishes nothing matters at most for the connection. -/
theorem Remembers.of_not_publishes (h : d.Remembers past)
    (hkept : ∀ service, ¬ Publishes past service e) {connected : Bool}
    (hconnected : connected = true ↔ Connected (past ++ [e])) :
    Remembers ⟨connected, d.book⟩ (past ++ [e]) where
  connected_iff := hconnected
  lookup_iff service address := by
    rw [published_append_of_not_publishes (hkept service), h.lookup_iff]

/-- A publish keeps the directory in step with its past. -/
theorem Remembers.publish (h : d.Remembers past) (hconnected : d.connected = true)
    (service host : String) (port : UInt16) :
    Remembers { d with book := (service, addressOf host port) :: Members.erase service d.book }
      (past ++ [Errand.publish service host port]) where
  connected_iff := by
    rw [connected_append_of_ne (by simp) (by simp), ← h.connected_iff]
  lookup_iff name address := by
    rw [lookup_publish]
    by_cases heq : name = service
    · subst heq
      rw [published_append_publish (h.connected_iff.mp hconnected), if_pos rfl,
        Option.some.injEq, eq_comm]
    · rw [if_neg heq, published_append_of_not_publishes (by simp [Publishes, Ne.symm heq]),
        h.lookup_iff]

/-- One errand. -/
theorem Remembers.step (h : d.Remembers past) (e : Errand) :
    ((e.action backend).perform d).2.Remembers (past ++ [e]) := by
  unfold Errand.action
  -- By cases on the errand: only a publish on a connected directory touches the book.
  cases e with
  | connect settings =>
    have hconnects : Connected (past ++ [Errand.connect settings]) :=
      connected_append_singleton.mpr (.inl ⟨settings, rfl⟩)
    exact h.of_not_publishes (by simp [Publishes]) (iff_of_true rfl hconnects)
  | publish service host port =>
    rw [Action.perform_bind_pure, perform_publish]
    by_cases hconnected : d.connected = true
    · rw [if_pos hconnected]
      exact h.publish hconnected service host port
    · rw [if_neg hconnected]
      refine h.of_not_publishes (fun _ hpublishes => hconnected ?_) ?_
      · exact h.connected_iff.mpr hpublishes.1
      · rw [connected_append_of_ne (by simp) (by simp), h.connected_iff]
  | resolve service =>
    rw [Action.perform_bind_pure, perform_resolve]
    refine h.of_not_publishes (by simp [Publishes]) ?_
    rw [connected_append_of_ne (by simp) (by simp), h.connected_iff]
  | close =>
    exact h.of_not_publishes (by simp [Publishes])
      (iff_of_false (by rintro ⟨⟩) not_connected_append_close)

/-- A directory in step with its past finds what the past published. -/
theorem Remembers.finds (h : d.Remembers past) (service : String) :
    Finds service (Published past service) ((d.book.address service).mapError .registry) :=
  AddressBook.finds (h.lookup_iff service)

/-- A name has an address if the directory is connected and the address is published. -/
theorem Remembers.resolve_eq_ok_iff (h : d.Remembers past) :
    ((backend.resolve service).perform d).1 = .ok address ↔
      Connected past ∧ Published past service address := by
  rw [perform_resolve, ← h.connected_iff, ← h.lookup_iff, ← AddressBook.address_eq_ok_iff]
  unfold resolve whileConnected
  by_cases hconnected : d.connected = true
  · simp [hconnected]
  · simp [hconnected, Except.mapError]

/-- A directory in step with its past answers every errand as the past has it. -/
theorem Remembers.answers (h : d.Remembers past) (e : Errand) :
    Answers past e ((e.action backend).perform d).1 := by
  unfold Errand.action
  cases e with
  | connect settings => exact .connect settings
  | publish service host port =>
    rw [Action.perform_bind_pure, perform_publish]
    by_cases hconnected : d.connected = true
    · rw [if_pos hconnected]
      exact .published (h.connected_iff.mp hconnected)
    · rw [if_neg hconnected]
      exact .unpublished (mt h.connected_iff.mpr hconnected)
  | resolve service =>
    rw [Action.perform_bind_pure, perform_resolve]
    unfold resolve whileConnected
    by_cases hconnected : d.connected = true
    · rw [if_pos hconnected]
      exact .resolved (h.connected_iff.mp hconnected) (h.finds service)
    · rw [if_neg hconnected]
      exact .unresolved (mt h.connected_iff.mpr hconnected)
  | close => exact .close

/-- An errand that fails changes nothing. -/
theorem perform_of_error (h : ((e.action backend).perform d).1 = .error fault) :
    ((e.action backend).perform d).2 = d := by
  unfold Errand.action at h ⊢
  cases e with
  | connect settings => cases h
  | publish service host port =>
    rw [Action.perform_bind_pure, perform_publish] at h ⊢
    by_cases hconnected : d.connected = true
    · rw [if_pos hconnected] at h
      cases h
    · rw [if_neg hconnected]
  | resolve service =>
    rw [Action.perform_bind_pure, perform_resolve]
  | close => cases h

/-- To publish an address does not matter for any other name. -/
theorem resolve_publish_of_ne (d : Directory) {service other : String} (hne : other ≠ service)
    (host : String) (port : UInt16) :
    ((backend.resolve other).perform ((backend.publish service host port).perform d).2).1 =
      ((backend.resolve other).perform d).1 := by
  rw [perform_publish, perform_resolve, perform_resolve]
  by_cases hconnected : d.connected = true
  · rw [if_pos hconnected]
    unfold resolve AddressBook.address whileConnected
    rw [lookup_publish, if_neg hne]
  · rw [if_neg hconnected]

end Directory

/-! ### Fixed entries -/

namespace AddressBook

/-- The last of the entries that have this name has this address. -/
def LastEntry (entries : List (String × String)) (service address : String) : Prop :=
  ∃ before after, entries = before ++ (service, address) :: after ∧ service ∉ after.map (·.1)

/-- The last entry of a name is the new one, or the old one where the new one has another name. -/
theorem lastEntry_append_singleton {entries : List (String × String)} {name last : String} :
    LastEntry (entries ++ [(name, last)]) service address ↔
      service = name ∧ address = last ∨ service ≠ name ∧ LastEntry entries service address := by
  constructor
  · -- Either nothing comes behind the entry, and it is the last one, or the last one has another
    -- name.
    rintro ⟨before, after, hentries, hafter⟩
    rcases List.eq_nil_or_concat' after with rfl | ⟨after, e, rfl⟩
    · obtain ⟨-, heq⟩ := List.append_singleton_inj.mp hentries
      cases heq
      exact .inl ⟨rfl, rfl⟩
    · rw [← List.cons_append, ← List.append_assoc] at hentries
      obtain ⟨rfl, rfl⟩ := List.append_singleton_inj.mp hentries
      simp only [List.map_append, List.map_cons, List.map_nil, List.mem_append,
        List.mem_singleton, not_or] at hafter
      exact .inr ⟨hafter.2, before, after, rfl, hafter.1⟩
  · rintro (⟨rfl, rfl⟩ | ⟨hne, before, after, rfl, hafter⟩)
    · exact ⟨entries, [], rfl, by simp⟩
    · exact ⟨before, after ++ [(name, last)], by simp, by simpa [hne] using hafter⟩

/-- A book made of entries holds the last one of each name. -/
theorem lookup_ofEntries_eq_some_iff {entries : List (String × String)} :
    (ofEntries entries).lookup service = some address ↔ LastEntry entries service address := by
  unfold ofEntries
  induction entries using List.reverseRecOn with
  | nil => simp [LastEntry]
  | append_singleton entries e ih =>
    obtain ⟨name, last⟩ := e
    rw [lastEntry_append_singleton, ← ih, List.reverse_append, List.reverse_singleton,
      List.singleton_append, List.lookup_cons]
    by_cases heq : service = name
    · simp [heq, eq_comm]
    · have hbeq : (service == name) = false := beq_eq_false_iff_ne.mpr heq
      simp [hbeq, heq]

/-- What comes of an errand to fixed entries. -/
inductive Answers (entries : List (String × String)) :
    Errand → Except Fault (Option String) → Prop
  | connect (settings : DiscoverySettings) : Answers entries (.connect settings) (.ok none)
  | publish (service host : String) (port : UInt16) :
      Answers entries (.publish service host port) (.ok none)
  | resolve {service : String} {outcome : Except Fault String}
      (hfinds : Finds service (LastEntry entries service) outcome) :
      Answers entries (.resolve service) (outcome.map some)
  | close : Answers entries .close (.ok none)

end AddressBook

/-! ### Many registries -/

/-- A registry: a handle on a directory, which others may share, or a fixed list of entries. -/
inductive Registry (κ : Type) where
  | shared (directory : κ)
  | fixed (entries : List (String × String))
deriving DecidableEq

namespace Registry

variable {κ χ : Type} [DecidableEq κ]

/-- The registry as a backend on all directories. -/
def backend : Registry κ → Backend (κ → Directory)
  | shared k => Directory.backend.within (· k) fun d w => Function.update w k d
  | fixed entries => (AddressBook.ofEntries entries).backend

/-- The directories after these errands, each through one of the registries. -/
def run (errands : List (Registry κ × Errand)) : κ → Directory :=
  errands.foldl (fun w e => ((e.2.action e.1.backend).perform w).2) fun _ => .empty

/-- The errands that came to a directory, through any handle on it. -/
def pastOf (errands : List (Registry κ × Errand)) (k : κ) : List Errand :=
  (errands.filter fun e => e.1 = shared k).map (·.2)

/-- The last errand is done where the others left the world. -/
theorem run_append_singleton (errands : List (Registry κ × Errand)) (r : Registry κ) (e : Errand) :
    run (errands ++ [(r, e)]) = ((e.action r.backend).perform (run errands)).2 := by
  rw [run, List.foldl_append]
  rfl

/-- An errand adds to the past of the directory it was done at, and to no other. -/
theorem pastOf_append_singleton (errands : List (Registry κ × Errand)) (r : Registry κ)
    (e : Errand) (k : κ) : pastOf (errands ++ [(r, e)]) k =
      if r = shared k then pastOf errands k ++ [e] else pastOf errands k := by
  unfold pastOf
  by_cases heq : r = shared k
  · simp [heq]
  · simp [heq]

/-- Errands done through one directory's handle add to its past, in their order. -/
theorem pastOf_append_map (errands : List (Registry κ × Errand)) (k : κ) (es : List Errand) :
    pastOf (errands ++ es.map (shared k, ·)) k = pastOf errands k ++ es := by
  unfold pastOf
  simp [List.filter_map, Function.comp_def]

/-- An errand through a shared handle is done at the directory of its key, and at no other. -/
theorem perform_shared (e : Errand) (k : κ) (w : κ → Directory) :
    (e.action (shared k).backend).perform w =
      (((e.action Directory.backend).perform (w k)).1,
        Function.update w k ((e.action Directory.backend).perform (w k)).2) :=
  Errand.perform_action_within _ _ _ e w

/-- Fixed entries stay what they are, and so does everything else. -/
theorem perform_fixed (e : Errand) (entries : List (String × String)) (w : κ → Directory) :
    AddressBook.Answers entries e ((e.action (fixed entries).backend).perform w).1 ∧
      ((e.action (fixed entries).backend).perform w).2 = w := by
  unfold Errand.action backend AddressBook.backend
  cases e with
  | connect settings => exact ⟨.connect settings, rfl⟩
  | publish service host port => exact ⟨.publish service host port, rfl⟩
  | resolve service =>
    dsimp only
    rw [Action.perform_bind_pure, Action.perform_ofExcept]
    exact ⟨.resolve (AddressBook.finds fun _ => AddressBook.lookup_ofEntries_eq_some_iff), rfl⟩
  | close => exact ⟨.close, rfl⟩

/-- Every directory remembers what came to it, and nothing else. -/
theorem remembers_run (errands : List (Registry κ × Errand)) (k : κ) :
    (run errands k).Remembers (pastOf errands k) := by
  induction errands using List.reverseRecOn with
  | nil => exact Directory.remembers_empty
  | append_singleton errands last ih =>
    obtain ⟨r, e⟩ := last
    rw [run_append_singleton, pastOf_append_singleton]
    cases r with
    | fixed entries =>
      rw [(perform_fixed e entries _).2, if_neg (by simp)]
      exact ih
    | shared k' =>
      -- only the directory of this handle changes, and only its past grows
      rw [perform_shared]
      dsimp only
      by_cases heq : k' = k
      · subst heq
        rw [if_pos rfl, Function.update_self]
        exact ih.step e
      · rw [if_neg (by simpa using heq), Function.update_of_ne (Ne.symm heq)]
        exact ih

/-- A name is looked up in a directory of which nothing matters but its entries. -/
theorem perform_lookUp_shared (k : κ) (settings : DiscoverySettings) (service : String)
    (w : κ → Directory) : (((shared k).backend.lookUp settings service).perform w).1 =
      ((w k).book.address service).mapError .registry := by
  have hconnect : ((shared k).backend.connect settings).perform w =
      (.ok (), Function.update w k { w k with connected := true }) := rfl
  have hresolve : ∀ w' : κ → Directory, (((shared k).backend.resolve service).perform w').1 =
      ((w' k).resolve service).mapError .registry := fun _ => rfl
  unfold Backend.lookUp
  rw [Action.perform_bind, hconnect]
  dsimp only
  rw [hresolve, Function.update_self]
  rfl

/-- A publish leaves what other services resolve to as it was. -/
theorem resolve_publish_of_ne (k : κ) (w : κ → Directory) {service other : String}
    (hne : other ≠ service) (host : String) (port : UInt16) :
    (((shared k).backend.resolve other).perform
      (((Errand.publish service host port).action (shared k).backend).perform w).2).1 =
        (((shared k).backend.resolve other).perform w).1 := by
  have hpublish : (((Errand.publish service host port).action Directory.backend).perform (w k)).2 =
      ((Directory.backend.publish service host port).perform (w k)).2 := by
    unfold Errand.action
    rw [Action.perform_bind_pure]
  have hresolve : ∀ w' : κ → Directory, (((shared k).backend.resolve other).perform w').1 =
      ((Directory.backend.resolve other).perform (w' k)).1 := fun _ => rfl
  rw [perform_shared, hpublish, hresolve, hresolve]
  dsimp only
  rw [Function.update_self]
  exact Directory.resolve_publish_of_ne _ hne host port

/-- **A registry remembers what came to it.**  After any errands through any registries, those that
share a directory resolve a name to an address exactly if the directory is connected and the address
is the last one that was published for it while it was connected; all else that comes of an errand
depends on the past of the directory as well, and an errand that fails does so with a fault of the
registry and changes nothing.  To close a directory and connect it again loses nothing, and to
publish an address does not matter for any other name.  A client that looks a name up connects
first, so it finds what is published although the directory may be closed.  Fixed entries answer for
themselves: the last one of a name counts, and nothing changes them. -/
theorem run_remembers (errands : List (Registry κ × Errand)) :
    let w := run errands
    (∀ k,
      let b := (shared k).backend
      let past := pastOf errands k
      (∀ service address, ((b.resolve service).perform w).1 = .ok address ↔
        Directory.Connected past ∧ Directory.Published past service address) ∧
      (∀ e, Directory.Answers past e ((e.action b).perform w).1) ∧
      (∀ (e : Errand) fault, ((e.action b).perform w).1 = .error fault →
        (∃ cause, fault = .registry cause) ∧ ((e.action b).perform w).2 = w) ∧
      (∀ settings service address,
        ((b.resolve service).perform
          (run (errands ++ [(shared k, Errand.close), (shared k, Errand.connect settings)]))).1 =
            .ok address ↔ Directory.Published past service address) ∧
      (∀ service host port other, other ≠ service →
        ((b.resolve other).perform
          (run (errands ++ [(shared k, Errand.publish service host port)]))).1 =
            ((b.resolve other).perform w).1) ∧
      ∀ (client : Client (κ → Directory) χ) settings, client.discovery = some (b, settings) →
        ∀ service, Finds service (Directory.Published past service)
          ((client.resolve service).perform w).1) ∧
    ∀ entries e, AddressBook.Answers entries e ((e.action (fixed entries).backend).perform w).1 ∧
      ((e.action (fixed entries).backend).perform w).2 = w := by
  intro w
  refine ⟨fun k => ?_, fun entries e => perform_fixed e entries w⟩
  intro b past
  have hremembers : (w k).Remembers past := remembers_run errands k
  -- What the errands find at a key is what its own past has published, and nobody else's.
  have hanswers : ∀ e : Errand, Directory.Answers past e ((e.action b).perform w).1 := by
    intro e
    rw [perform_shared]
    exact hremembers.answers e
  refine ⟨?_, hanswers, fun e fault hfault => ⟨?_, ?_⟩, ?_, ?_, ?_⟩
  · intro service address
    exact hremembers.resolve_eq_ok_iff
  · have hcause := hanswers e
    rw [hfault] at hcause
    exact hcause.of_error
  · rw [perform_shared] at hfault ⊢
    dsimp only at hfault ⊢
    rw [Directory.perform_of_error hfault, Function.update_eq_self]
  · -- Closing and opening again keeps the book, so it answers as before.
    intro settings service address
    have hafter := remembers_run
      (errands ++ [Errand.close, Errand.connect settings].map (shared k, ·)) k
    rw [pastOf_append_map] at hafter
    exact hafter.resolve_eq_ok_iff.trans (Directory.published_reopened settings)
  · intro service host port other hne
    rw [run_append_singleton]
    exact resolve_publish_of_ne k w hne host port
  · intro client settings hdiscovery service
    unfold Client.resolve
    rw [hdiscovery, perform_lookUp_shared]
    exact hremembers.finds service

/-- A service is published in one of two directories, and the directory is closed. -/
def sampleErrands : List (Registry Bool × Errand) :=
  [(shared true, .connect .default), (shared true, .publish "calculator" "localhost" 80),
    (shared false, .publish "calculator" "localhost" 81), (shared true, .close)]

/-- A client that resolves names with the directory. -/
def sampleClient : Client (Bool → Directory) Empty :=
  .ofSettings .default .isolated (some ((shared true).backend, .default))

/-- In the closed directory a name is not resolved until a client has connected. -/
theorem run_remembers_sample :
    (∀ address, (((shared true).backend.resolve "calculator").perform (run sampleErrands)).1 ≠
      .ok address) ∧
    ((sampleClient.resolve "calculator").perform (run sampleErrands)).1 = .ok "localhost:80" ∧
    Directory.Published (pastOf sampleErrands true) "calculator" "localhost:80" := by
  obtain ⟨hshared, -⟩ := @run_remembers Bool Empty _ sampleErrands
  obtain ⟨hresolve, -, -, -, -, hclient⟩ := hshared true
  have hpast : pastOf sampleErrands true =
      [.connect .default, .publish "calculator" "localhost" 80] ++ [Errand.close] := rfl
  have houtcome : ((sampleClient.resolve "calculator").perform (run sampleErrands)).1 =
      .ok "localhost:80" := rfl
  have hfinds := hclient sampleClient .default rfl "calculator"
  rw [houtcome] at hfinds
  refine ⟨fun address hfound => ?_, houtcome, ?_⟩
  · have hconnected := ((hresolve "calculator" address).mp hfound).1
    rw [hpast] at hconnected
    exact Directory.not_connected_append_close hconnected
  · cases hfinds with
    | found h => exact h

end Registry
end WireCall
