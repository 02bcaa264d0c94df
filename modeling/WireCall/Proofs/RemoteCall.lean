import WireCall.Site
import WireCall.Proofs.Server.Exchange

namespace WireCall

/-!
# Remote calls

A call over the network of a site has the response that the table of the server gives to its
request, under the tags of the client: nothing of it changes on the way there and back, however the
bytes are cut into pieces (`invoke_eq_dispatch`).  The request is the same for every serialization,
so the choice of one shows only in the tag that the response repeats.

The proof follows the bytes.  The frame of the request asks for the request (`Delivers.of_fits`),
so the server answers it with the frame of the response (`serve_of_dispatch`), and the client opens
this frame again (`receive_frame`).  If the values are nested too deep for the serialization the
call fails, and for Protocol Buffers an empty list or object has to be counted as one message more
(`invoke_deepestRequest_fails`).
-/

/-- What is sent arrives from the front on. -/
theorem Wire.prefix_cut (wire : Wire) (bytes : Octets) : bytes <+: (wire.cut bytes).flatten := by
  refine ⟨[], ?_⟩
  rw [wire.flatten_cut, List.append_nil]

namespace Client

/-- The client takes the response to its request out of the frame of the response. -/
theorem receive_frame {maximum : UInt32} {c : Compression} {z : Serialization} {r : Response}
    {a : Arrival} (hfits : (Message.response r).Fits maximum c z) (hnests : z.Nests r.data)
    (hfront : ((Message.response r).frame c z).encode <+: a.pieces.flatten) :
    receive maximum r.requestId a = .ok r := by
  have hnests' : ∀ v ∈ (Message.response r).values, z.Nests v := by
    intro v hv
    rwa [List.mem_singleton.mp hv]
  obtain ⟨rest, hread⟩ := Frame.read_eq_ok_iff.mpr ⟨Message.sound_frame hfits, hfront⟩
  have hreply : readReply maximum a = .ok (.response r) := by
    rw [readReply, hread]
    exact Message.message_frame hfits hnests'
  rw [receive, hreply]
  exact if_pos (.inl rfl)

/-- A client sends a request in a frame made by its own settings. -/
theorem requestFrame_eq (settings : ClientSettings) (q : Request) :
    requestFrame settings q =
      .ok ((Message.request q).frame settings.compression settings.serialization) :=
  Message.toFrame_tag _ _ _

/-- An action that goes on after something was done in the surroundings. -/
theorem outside_bind {ω α β : Type} {a : Action ω α} {k : α → Action (Origin ω) β} {p : Origin ω}
    {x : α} {world : ω} (h : a.perform p.world = (.ok x, world)) :
    (Origin.outside a >>= k) p = k x { p with world } := by
  have houtside : Origin.outside a p = (.ok x, { p with world }) := by
    show ((a.perform p.world).1, { p with world := (a.perform p.world).2 }) = _
    rw [h]
  show ExceptT.bindCont k (Origin.outside a p).1 (Origin.outside a p).2 = _
  rw [houtside]
  rfl

/-- What comes back on a connection of an accepting site is what its server answers. -/
theorem perform_exchange_loopback {σ : Type} (there back : Wire) {site : Site σ}
    (haccepting : site.isAccepting = true) (hgate : site.server.gate = none) (bytes : Octets)
    (deadline : Option Instant) :
    ((Site.loopback there back).exchange () bytes deadline).perform site =
      (.ok ⟨back.cut (site.server.responder.serve (there.cut bytes) site.states).1, true⟩,
        { site with
          states := (site.server.responder.serve (there.cut bytes) site.states).2 }) := by
  show (if site.isAccepting = true then _ else _ : Action (Site σ) Arrival) site = _
  rw [if_pos haccepting]
  show (Except.ok (Arrival.mk (back.cut (site.answer (there.cut bytes)).1) true),
    (site.answer (there.cut bytes)).2) = _
  rw [Site.answer, hgate]

/-- A client at an open site without a gate sends its request there and receives what the site
answers. -/
theorem perform_callOn {σ : Type} (client : Client (Site σ) Unit) {there back : Wire}
    {site : Site σ} (hnetwork : client.network = Site.loopback there back)
    (haccepting : site.isAccepting = true) (hgate : site.server.gate = none)
    (id : UInt64) (service method : String) (args : List Value) :
    (client.callOn () .background service method args).perform ⟨id, site⟩ =
      (let served := site.server.responder.serve
        (there.cut ((Message.request ⟨id, service, method, args⟩).frame
          client.settings.compression client.settings.serialization).encode) site.states
      (receive client.settings.maximum id ⟨back.cut served.1, true⟩,
        ⟨id + 1, { site with states := served.2 }⟩)) := by
  have hexchange := perform_exchange_loopback there back haccepting hgate
    ((Message.request ⟨id, service, method, args⟩).frame
      client.settings.compression client.settings.serialization).encode none
  -- Once the id is drawn, the request can be put into its frame.
  show (Action.ofExcept (requestFrame client.settings ⟨id, service, method, args⟩) >>= fun frame =>
    Origin.outside (client.network.exchange () frame.encode none) >>= fun arrival =>
      Action.ofExcept (receive client.settings.maximum id arrival) :
    Action (Origin (Site σ)) Response) ⟨id + 1, site⟩ = _
  rw [requestFrame_eq, hnetwork]
  exact outside_bind (p := ⟨id + 1, site⟩) hexchange

/-- The connection is taken out of the client, and the call is made on it. -/
theorem perform_invoke_of_connected {ω κ : Type} {client : Client ω κ} {channel : κ}
    (hchannel : client.channel = some channel) (context : CallContext) (service method : String)
    (args : List Value) (p : Origin ω) :
    (invoke context service method args).perform (client, p) =
      (((client.callOn channel context service method args).perform p).1,
        ({ client with channel := none },
          ((client.callOn channel context service method args).perform p).2)) := by
  obtain ⟨settings, network, discovery, channel'⟩ := client
  cases hchannel
  rfl

/-- A call on a connection of the site: the client draws an id, and takes the response out of what
the server answers to the frame of its request. -/
theorem perform_invoke_loopback {σ : Type} {client : Client (Site σ) Unit} {there back : Wire}
    {site : Site σ} (hchannel : client.channel = some ())
    (hnetwork : client.network = Site.loopback there back)
    (haccepting : site.isAccepting = true) (hgate : site.server.gate = none)
    (id : UInt64) (service method : String) (args : List Value) :
    (invoke .background service method args).perform (client, ⟨id, site⟩) =
      (let served := site.server.responder.serve
        (there.cut ((Message.request ⟨id, service, method, args⟩).frame
          client.settings.compression client.settings.serialization).encode) site.states
      (receive client.settings.maximum id ⟨back.cut served.1, true⟩,
        ({ client with channel := none }, ⟨id + 1, { site with states := served.2 }⟩))) := by
  rw [perform_invoke_of_connected hchannel,
    perform_callOn client hnetwork haccepting hgate id service method args]

/-! ### Calls and dispatch -/

/-- The client has a connection over which a site that admits everybody can be asked this request
and can give this response: each side takes what the other one writes, under the tags of the
client, however the bytes are cut on their way. -/
structure Carries {σ : Type} (client : Client (Site σ) Unit) (site : Site σ) (q : Request)
    (r : Response) : Prop where
  channel : client.channel = some ()
  network : ∃ there back, client.network = Site.loopback there back
  accepting : site.isAccepting = true
  gate : site.server.gate = none
  request : (Message.request q).Fits site.server.settings.maximum client.settings.compression
    client.settings.serialization
  response : (Message.response (r.withTags client.settings.compression.tag
    client.settings.serialization.tag)).Fits client.settings.maximum client.settings.compression
    client.settings.serialization

variable {σ : Type}

/-- What a call gives whose request and response are not nested too deep. -/
theorem perform_invoke_of_dispatch {client : Client (Site σ) Unit} {site : Site σ} {id : UInt64}
    {service method : String} {args : List Value} {r : Response} {states : Instances σ}
    (hdispatch : site.server.table.dispatch ⟨id, service, method, args⟩ site.states =
      (some r, states))
    (hcarries : client.Carries site ⟨id, service, method, args⟩ r)
    (hargs : ∀ v ∈ args, client.settings.serialization.Nests v)
    (hdata : client.settings.serialization.Nests r.data) :
    (invoke .background service method args).perform (client, ⟨id, site⟩) =
      (.ok (r.withTags client.settings.compression.tag client.settings.serialization.tag),
        ({ client with channel := none }, ⟨id + 1, { site with states }⟩)) := by
  obtain ⟨there, back, hnetwork⟩ := hcarries.network
  -- What arrives at the server asks for the request, and the server answers it.
  have hserve := Responder.serve_of_dispatch (h := site.server.responder)
    (Delivers.of_fits hcarries.request hargs (there.prefix_cut _)) hdispatch
  -- What arrives at the client is the frame of the response, under the id of the request.
  have hid : (r.withTags client.settings.compression.tag
      client.settings.serialization.tag).requestId = id :=
    Responder.requestId_of_dispatch hdispatch
  have hreceive := receive_frame (a := ⟨back.cut _, true⟩) hcarries.response hdata
    (back.prefix_cut _)
  rw [hid] at hreceive
  rw [perform_invoke_loopback hcarries.channel hnetwork hcarries.accepting hcarries.gate]
  dsimp only
  rw [hserve]
  dsimp only
  rw [hreceive]

/-- **Calls are dispatch.**  A call over the network of a site gives the response of the table to
the request with a fresh id, under the tags of the client, and leaves the instances as the table
does.  Another client gets the same response, but for the tag of its own serialization. -/
theorem invoke_eq_dispatch {client : Client (Site σ) Unit} {site : Site σ} {id : UInt64}
    {service method : String} {args : List Value} {r : Response} {states : Instances σ}
    (hdispatch : site.server.table.dispatch ⟨id, service, method, args⟩ site.states =
      (some r, states))
    (hcarries : client.Carries site ⟨id, service, method, args⟩ r)
    (hargs : ∀ v ∈ args, client.settings.serialization.Nests v)
    (hdata : client.settings.serialization.Nests r.data) :
    (invoke .background service method args).perform (client, ⟨id, site⟩) =
      (.ok (r.withTags client.settings.compression.tag client.settings.serialization.tag),
        ({ client with channel := none }, ⟨id + 1, { site with states }⟩)) ∧
    ∀ client' : Client (Site σ) Unit, client'.Carries site ⟨id, service, method, args⟩ r →
      (∀ v ∈ args, client'.settings.serialization.Nests v) →
      client'.settings.serialization.Nests r.data →
      ((invoke .background service method args).perform (client', ⟨id, site⟩)).1 =
        ((invoke .background service method args).perform (client, ⟨id, site⟩)).1.map
          fun r => { r with serialization := client'.settings.serialization.tag } := by
  have hperform := perform_invoke_of_dispatch hdispatch hcarries hargs hdata
  refine ⟨hperform, ?_⟩
  intro client' hcarries' hargs' hdata'
  -- There is only one compression, so the clients can differ in their serializations alone.
  have hcompression : client.settings.compression = client'.settings.compression := by
    cases client.settings.compression
    cases client'.settings.compression
    rfl
  rw [hperform, perform_invoke_of_dispatch hdispatch hcarries' hargs' hdata', hcompression]
  rfl

/-! ### The sample request called -/

/-- A wire on which the first bytes travel by themselves. -/
def splitWire : Wire := ⟨fun bytes => [bytes.take 5, bytes.drop 5], by simp⟩

/-- A client with a connection to a site. -/
def sampleClient {σ : Type} (z : Serialization) : Client (Site σ) Unit :=
  ⟨ClientSettings.default.withSerialization z, Site.loopback splitWire splitWire, none, some ()⟩

/-- A site that answers calls from a table. -/
def sampleSite (table : ServiceTable Catalogue.Total) : Site Catalogue.Total :=
  (Site.ofServer ⟨.default, defaultPort, table, none, none, 0, false⟩
    fun _ => IntKind.zero .i64).start

/-- The sample client carries its request to the sample site and the answer back. -/
theorem carries_sample (z : Serialization) : (sampleClient z).Carries
    (sampleSite Responder.sampleTable) .sample Responder.sampleResponse where
  channel := rfl
  network := ⟨splitWire, splitWire, rfl⟩
  accepting := rfl
  gate := rfl
  request := Responder.fits_sample .gzip z
  response := by
    cases z with
    | msgPack => exact .of_length (by decide) (by decide) (by decide +kernel)
    | protobuf => exact .of_length (by decide) (by decide) (by decide +kernel)

/-- The sample request is called with either serialization, and answered alike. -/
theorem invoke_eq_dispatch_sample :
    ((invoke .background "calculator" "" Request.sample.args).perform
        (sampleClient .msgPack, ⟨7, sampleSite Responder.sampleTable⟩)).1 =
      .ok (Responder.sampleResponse.withTags 0 0) ∧
    ((invoke .background "calculator" "" Request.sample.args).perform
        (sampleClient .protobuf, ⟨7, sampleSite Responder.sampleTable⟩)).1 =
      .ok (Responder.sampleResponse.withTags 0 1) := by
  have hdata : ∀ z : Serialization, z.Nests Responder.sampleResponse.data := by
    intro z
    cases z <;> decide
  have hinvoke := invoke_eq_dispatch
    (Responder.dispatch_sampleTable (sampleSite Responder.sampleTable).states)
    (carries_sample .msgPack) (Responder.nests_sample .msgPack) (hdata .msgPack)
  refine ⟨congrArg Prod.fst hinvoke.1, ?_⟩
  refine (hinvoke.2 (sampleClient .protobuf) (carries_sample .protobuf)
    (Responder.nests_sample .protobuf) (hdata .protobuf)).trans ?_
  rw [hinvoke.1]
  rfl

/-! ### A call that is nested too deep -/

/-- The response to the deepest request from a table without services. -/
def missingResponse : Response :=
  .failure 1 StatusCode.failed (Fault.serviceNotFound "a").message

theorem fits_deepestRequest : (Message.request Protobuf.deepestRequest).Fits Header.defaultMaximum
    .gzip .protobuf :=
  .of_length Protobuf.deepestRequest_normal (by decide) (by decide +kernel)

/-- The deepest request is written by the client, but the site cannot read it. -/
theorem carries_deepestRequest : (sampleClient .protobuf).Carries (sampleSite .empty)
    Protobuf.deepestRequest missingResponse where
  channel := rfl
  network := ⟨splitWire, splitWire, rfl⟩
  accepting := rfl
  gate := rfl
  request := fits_deepestRequest
  response := .of_length (by decide) (by decide) (by decide +kernel)

/-- The deepest request is met with silence. -/
theorem serve_deepestRequest (table : ServiceTable Catalogue.Total)
    (states : Instances Catalogue.Total) {s : Inbound} (hfront :
      ((Message.request Protobuf.deepestRequest).frame .gzip .protobuf).encode <+: s.flatten) :
    Responder.serve ⟨table, Header.defaultMaximum⟩ s states = ([], states) := by
  refine Responder.serve_of_not_asks (fun f c z q hasks => ?_) states
  have hdecode : Serialization.protobuf.decode .request
      (Serialization.protobuf.encode (.request Protobuf.deepestRequest)) = .ok (.request q) :=
    hasks.decode_eq fits_deepestRequest hfront
  rw [Serialization.decode, Serialization.encode, Protobuf.decode, Protobuf.encode,
    Protobuf.decodeRequest_deepestRequest] at hdecode
  cases hdecode

/-- An empty object below 33 others is not counted by `1 + 2 * lists + 3 * objects`, and yet makes
the server give up on the request: the client finds the connection closed. -/
theorem invoke_deepestRequest_fails :
    (sampleClient .protobuf).Carries (sampleSite .empty) Protobuf.deepestRequest missingResponse ∧
      (sampleSite .empty).server.table.dispatch Protobuf.deepestRequest (sampleSite .empty).states =
        (some missingResponse, (sampleSite .empty).states) ∧
      (∀ v ∈ missingResponse.data :: Protobuf.deepestRequest.args, ∀ ⦃lists objects u⦄,
        v.Holds lists objects u → 1 + 2 * lists + 3 * objects ≤ 100) ∧
      ((invoke .background "a" "b" Protobuf.deepestRequest.args).perform
        (sampleClient .protobuf, ⟨1, sampleSite .empty⟩)).1 =
        .error (.transport .endOfStream) := by
  refine ⟨carries_deepestRequest, rfl, by decide, ?_⟩
  have hserve := serve_deepestRequest .empty (sampleSite .empty).states
    (splitWire.prefix_cut (Frame.encode _))
  rw [@perform_invoke_loopback _ (sampleClient .protobuf) splitWire splitWire (sampleSite .empty)
    rfl rfl rfl rfl]
  show receive Header.defaultMaximum 1 ⟨splitWire.cut (Responder.serve
    ⟨.empty, Header.defaultMaximum⟩ (splitWire.cut ((Message.request Protobuf.deepestRequest).frame
      .gzip .protobuf).encode) (sampleSite .empty).states).1, true⟩ = _
  rw [hserve]
  rfl

end Client
end WireCall
