import WireCall.Client.Proxy
import WireCall.Discovery.Directory
import WireCall.Server.Basic

namespace WireCall

/-!
# Sites

A site holds a server, the instances of its services and a directory in memory.
The site is the surroundings of the clients in it: they reach the server through `Site.loopback`,
on which bytes travel in pieces of any size, and find it through backends that may use the
directory of the site.
-/

/-- A server with what it needs to run. -/
structure Site (σ : Type) where
  server : Server Directory σ
  states : Instances σ
  directory : Directory
  running : Bool
  clock : Nat

/-- How a run of bytes is cut into pieces on its way. -/
structure Wire where
  cut : Octets → Inbound
  flatten_cut : ∀ bytes, (cut bytes).flatten = bytes

/-- A wire on which bytes travel in one piece. -/
def Wire.whole : Wire := ⟨fun bytes => [bytes], by simp⟩

namespace Site

variable {σ : Type}

/-- A site with a server that has just been bound. -/
def ofServer (server : Server Directory σ) (states : Instances σ) : Site σ :=
  ⟨server, states, .empty, false, 0⟩

/-! ### Discovery -/

/-- A backend that works on a directory, as one on the directory of the site. -/
def backend (b : Backend Directory) : Backend (Site σ) :=
  b.within (·.directory) fun directory site => { site with directory }

/-! ### The server -/

/-- Changes the server, unless that fails. -/
def change (f : Server Directory σ → Except Fault (Server Directory σ)) :
    Action (Site σ) Unit := do
  let site ← get
  let server ← .ofExcept (f site.server)
  set { site with server }

/-- A change to the server of a site puts the new server in, or fails and leaves the site as it was.
-/
theorem perform_change (f : Server Directory σ → Except Fault (Server Directory σ))
    (site : Site σ) : (change f).perform site =
      match f site.server with
      | .ok server => (.ok (), { site with server })
      | .error fault => (.error fault, site) := by
  show (Action.ofExcept (f site.server) >>= fun server =>
    (set { site with server } : Action (Site σ) Unit)).perform site = _
  rw [Action.perform_bind, Action.perform_ofExcept]
  cases f site.server with
  | ok server => rfl
  | error fault => rfl

/-- Registers a service with the server, which publishes it in the directory of the site. -/
def register (name : String) (service : Service σ) : Action (Site σ) Unit :=
  (Server.register name service).within (fun site => (site.server, site.directory))
    fun (server, directory) site => { site with server, directory }

/-- Starts a run of the server. -/
def start (site : Site σ) : Site σ := { site with running := true, server := site.server.hold }

/-- Stops the server and waits for the run to end, if there is one. -/
def stop (site : Site σ) : Site σ :=
  if site.running then { site with running := false, server := site.server.stop.release }
  else site

/-- Whether connections are accepted. -/
def isAccepting (site : Site σ) : Bool := site.running && !site.server.stopped

/-- Answers a connection on which `s` arrives, after it has passed the gate or been refused. -/
def answer (site : Site σ) (s : Inbound) : Octets × Site σ :=
  let server := site.server
  match server.gate with
  | none =>
    let (bytes, states) := server.responder.serve s site.states
    (bytes, { site with states })
  | some gate =>
    let entry := gate.acquire site.clock
    let (bytes, states) := server.responder.serveEntry entry.outcome s site.states
    (bytes, { site with
      states
      clock := entry.time
      server := { server with gate := some entry.gate } })

/-- Nobody listens at the address. -/
def refusal : IoFault := ⟨.connectionRefused, "connection refused"⟩

/-- The way from the clients of the site to its server.  A connection that is not accepted stays
open, and nothing comes back on it. -/
def loopback (there back : Wire) : Network (Site σ) Unit where
  dial address _ := do
    let site ← get
    if addressOf address.host address.port = site.server.address then pure ()
    else throw (.transport refusal)
  exchange _ bytes _ := do
    let site ← get
    if site.isAccepting then
      let (reply, site) := site.answer (there.cut bytes)
      set site
      return ⟨back.cut reply, true⟩
    else return ⟨[], false⟩
  hangUp _ := pure ()

end Site
end WireCall
