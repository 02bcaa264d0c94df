import WireCall.Proofs.Client.Exchange
import WireCall.Proofs.RemoteCall

namespace WireCall

/-!
# What clients write

A client is as good as its peer, about which nothing is known.  To speak of what a call sends and of
what comes back, the surroundings keep a log of the exchanges of the network (`Network.Records`);
any network can be made to keep one (`Network.recorded`).

A call on a connection is one exchange, and its outcome is what the client accepts of what came back
(`Client.perform_callOn_eq`).  `Wrote` says which part of the log several calls of the same method
have written: one request each, under ids that follow one another.
-/

variable {ω κ α : Type}

/-- An action on the world leaves the next id as it is. -/
theorem Origin.perform_outside (a : Action ω α) (p : Origin ω) :
    (Origin.outside a).perform p =
      ((a.perform p.world).1, ⟨p.nextId, (a.perform p.world).2⟩) := rfl

/-! ### The log of a network -/

/-- What was sent on a connection, and what came of it. -/
structure Exchange where
  sent : Octets
  outcome : Except Fault Arrival

namespace Network

/-- The log has every exchange of the network in order, and nothing else that the network does
changes it. -/
structure Records (n : Network ω κ) (log : ω → List Exchange) : Prop where
  dial : ∀ address patience w, log ((n.dial address patience).perform w).2 = log w
  exchange : ∀ channel bytes deadline w,
    log ((n.exchange channel bytes deadline).perform w).2 =
      log w ++ [⟨bytes, ((n.exchange channel bytes deadline).perform w).1⟩]
  hangUp : ∀ channel w, log ((n.hangUp channel).perform w).2 = log w

/-- The network with a log beside its surroundings. -/
def recorded (n : Network ω κ) : Network (ω × List Exchange) κ where
  dial address patience := (n.dial address patience).within (·.1) fun w s => (w, s.2)
  exchange channel bytes deadline := fun s =>
    let (outcome, w) := (n.exchange channel bytes deadline).perform s.1
    (outcome, w, s.2 ++ [⟨bytes, outcome⟩])
  hangUp channel := (n.hangUp channel).within (·.1) fun w s => (w, s.2)

/-- A recorded network keeps its log in the second part of the world. -/
theorem records_recorded (n : Network ω κ) : n.recorded.Records Prod.snd where
  dial _ _ _ := rfl
  exchange _ _ _ _ := rfl
  hangUp _ _ := rfl

/-- Dialling an address written out writes nothing into the log of exchanges. -/
theorem Records.dialText {n : Network ω κ} {log : ω → List Exchange} (h : n.Records log)
    (address : String) (patience : Duration) (w : ω) :
    log ((n.dialText address patience).perform w).2 = log w := by
  rw [Network.dialText]
  cases Address.ofText? address with
  | none => rfl
  | some address => exact h.dial address patience w

end Network

/-! ### One call -/

/-- The bytes that a client writes for a request. -/
def ClientSettings.requestBytes (s : ClientSettings) (q : Request) : Octets :=
  ((Message.request q).frame s.compression s.serialization).encode

namespace Client

/-- A call draws an id, writes the frame of its request, and takes the answer out of what comes
back. -/
theorem perform_callOn_eq (client : Client ω κ) (channel : κ) (context : CallContext)
    (service method : String) (args : List Value) (p : Origin ω) :
    (client.callOn channel context service method args).perform p =
      (let exchanged := (client.network.exchange channel
        (client.settings.requestBytes ⟨p.nextId, service, method, args⟩)
        context.deadline).perform p.world
      (exchanged.1 >>= receive client.settings.maximum p.nextId,
        ⟨p.nextId + 1, exchanged.2⟩)) := by
  show (Action.ofExcept (requestFrame client.settings ⟨p.nextId, service, method, args⟩) >>=
    fun frame => Origin.outside (client.network.exchange channel frame.encode context.deadline) >>=
      fun arrival => Action.ofExcept (receive client.settings.maximum p.nextId arrival) :
    Action (Origin ω) Response).perform ⟨p.nextId + 1, p.world⟩ = _
  -- A client knows its own tags, so making the frame cannot fail.
  rw [requestFrame_eq]
  show (Origin.outside (client.network.exchange channel (client.settings.requestBytes
      ⟨p.nextId, service, method, args⟩) context.deadline) >>= fun arrival =>
    Action.ofExcept (receive client.settings.maximum p.nextId arrival) :
    Action (Origin ω) Response).perform ⟨p.nextId + 1, p.world⟩ = _
  rw [Action.perform_bind, Origin.perform_outside]
  cases (client.network.exchange channel (client.settings.requestBytes
      ⟨p.nextId, service, method, args⟩) context.deadline).perform p.world with
  | mk outcome w =>
    cases outcome <;> rfl

theorem perform_atOrigin (a : Action (Origin ω) α) (client : Client ω κ) (p : Origin ω) :
    (atOrigin a : ClientAction ω κ α).perform (client, p) =
      ((a.perform p).1, (client, (a.perform p).2)) := rfl

end Client

/-! ### What is written -/

/-- On the way from the first origin to the second one, the exchanges `es` were added to the log.
Each of them sent the frame of the same request, but for its id: the ids were drawn one after the
other. -/
structure Wrote (log : ω → List Exchange) (settings : ClientSettings) (service method : String)
    (args : List Value) (origin origin' : Origin ω) (es : List Exchange) : Prop where
  log : log origin'.world = log origin.world ++ es
  nextId : origin'.nextId = origin.nextId + .ofNat es.length
  sent : es.map (·.sent) = (List.range es.length).map fun i =>
    settings.requestBytes ⟨origin.nextId + .ofNat i, service, method, args⟩

theorem id_add_zero (id : UInt64) : id + .ofNat 0 = id := UInt64.add_zero id

/-- Steps from one id to another add up, around the end of the 64 bits too. -/
theorem id_add_add (id : UInt64) (m n : Nat) : id + .ofNat m + .ofNat n = id + .ofNat (m + n) := by
  rw [UInt64.ofNat_add, UInt64.add_assoc]

section Wrote

variable {log : ω → List Exchange} {settings : ClientSettings} {service method : String}
  {args : List Value} {origin origin' origin'' : Origin ω} {es es' : List Exchange}

/-- Where neither the log nor the next id has moved, nothing was written. -/
theorem Wrote.of_idle (hlog : log origin'.world = log origin.world)
    (hid : origin'.nextId = origin.nextId) :
    Wrote log settings service method args origin origin' [] where
  log := by rw [hlog, List.append_nil]
  nextId := by rw [hid, List.length_nil, id_add_zero]
  sent := rfl

/-- What two stretches wrote is written by both together, one behind the other. -/
theorem Wrote.trans (h : Wrote log settings service method args origin origin' es)
    (h' : Wrote log settings service method args origin' origin'' es') :
    Wrote log settings service method args origin origin'' (es ++ es') where
  log := by rw [h'.log, h.log, List.append_assoc]
  nextId := by rw [h'.nextId, h.nextId, id_add_add, List.length_append]
  sent := by
    rw [List.map_append, h.sent, h'.sent, h.nextId, List.length_append, List.range_add,
      List.map_append, List.map_map]
    simp only [id_add_add, Function.comp_def]

/-- A call writes one request. -/
theorem wrote_callOn {client : Client ω κ} (hrecords : client.network.Records log) (channel : κ)
    (context : CallContext) (service method : String) (args : List Value) (p : Origin ω) :
    let bytes := client.settings.requestBytes ⟨p.nextId, service, method, args⟩
    Wrote log client.settings service method args p
      ((client.callOn channel context service method args).perform p).2
      [⟨bytes,
        ((client.network.exchange channel bytes context.deadline).perform p.world).1⟩] := by
  rw [Client.perform_callOn_eq]
  refine ⟨hrecords.exchange _ _ _ _, rfl, ?_⟩
  rw [List.map_singleton, List.length_singleton, List.range_one, List.map_singleton, id_add_zero]

end Wrote

end WireCall
