import WireCall.Proofs.Client.Retries
import WireCall.Proofs.RemoteCall
import WireCall.Proofs.Service.Results

namespace WireCall

/-!
# Typed calls

A value that a method returns is converted to a dynamic one, written by the server, read by the
client, and converted back by the proxy.  Of the three steps the middle one loses nothing: what the
client receives of the answer is the response with the form of the value (`Returns.eq_of_received`),
and it does receive the answer if this is within its limits (`Returns.received`).  The other two
undo each other if the value is of a plain type and all floats in it are finite
(`Shape.Plain.exists_writes`).

Main statement: a proxy returns the value that the method has returned (`callAs_of_returned`).  A
float that is not finite arrives as null, so that the call fails or the value comes back as an
absent one (`callAs_loses_infinity`).
-/

variable {σ ω κ : Type}

/-! ### At the server -/

/-- The response with the data `v` to a request, under its tags. -/
def Request.reply (q : Request) (c : Compression) (z : Serialization) (v : Value) : Response :=
  (Response.ok q.requestId v).withTags c.tag z.tag

/-- A client with this limit takes the response: its data is not nested too deep for the
serialization, and its body is within the limit, both as it is and as a frame of compressed
bytes. -/
structure Response.Within (r : Response) (maximum : UInt32) (c : Compression) (z : Serialization) :
    Prop where
  nests : z.Nests r.data
  plain : (z.encode (.response r)).length ≤ maximum.toNat
  compressed : 17 + (c.compress (z.encode (.response r))).length ≤ maximum.toNat

/-- The stream asks for `q` under these tags, and the method of the handler, which is run for it,
returns `x`. -/
structure Responder.Returns (h : Responder σ) (s : Inbound) (states : Instances σ) (q : Request)
    (c : Compression) (z : Serialization) (hd : Handler σ) (x : hd.method.result.Carrier) :
    Prop where
  asks : ∃ f, Asks h.maximum s f c z q
  runs : ∃ a, h.table.Runs q hd a ∧ (hd.method.body a (states hd.owner)).1 = .returned x

namespace Responder.Returns

variable {h : Responder σ} {s : Inbound} {states : Instances σ} {q : Request} {c : Compression}
  {z : Serialization} {hd : Handler σ} {x : hd.method.result.Carrier} {v : Value}

/-- The server answers with the form of the value. -/
theorem serve (hreturns : h.Returns s states q c z hd x)
    (hencode : hd.method.result.encode x = .ok v) :
    (h.serve s states).1 = ((Message.response (q.reply c z v)).frame c z).encode := by
  obtain ⟨f, hasks⟩ := hreturns.asks
  obtain ⟨a, hruns, hbody⟩ := hreturns.runs
  have hdispatch := ServiceTable.dispatch_eq_ok_iff.mpr (.returned hruns hbody hencode)
  rw [serve_of_dispatch hasks hdispatch]
  rfl

/-! ### On the way -/

/-- A reply with a normal value is a normal message. -/
theorem normal_reply (hnormal : v.Normal) : (Message.response (q.reply c z v)).Normal := by
  intro u hu
  rwa [List.mem_singleton.mp hu]

variable {maximum : UInt32} {a : Arrival}

/-- What the client takes out of the answer, or out of the part of it that arrives, is the response
that was written. -/
theorem eq_of_received (hreturns : h.Returns s states q c z hd x)
    (hencode : hd.method.result.encode x = .ok v) (hnormal : v.Normal)
    (hlength : (h.serve s states).1.length < 4294967296)
    (harrives : a.pieces.flatten <+: (h.serve s states).1) {r : Response}
    (hreceive : Client.receive maximum q.requestId a = .ok r) : r = q.reply c z v := by
  rw [hreturns.serve hencode] at hlength harrives
  obtain ⟨⟨f, c', z', hdelivers⟩, -⟩ := Client.receive_eq_ok_iff.mp hreceive
  obtain ⟨-, -, -, heq⟩ := hdelivers.eq_of_frame (normal_reply hnormal) hlength harrives
  exact Message.response.inj heq

/-- The client takes the answer that has arrived, if it is within its limits. -/
theorem received (hreturns : h.Returns s states q c z hd x)
    (hencode : hd.method.result.encode x = .ok v) (hnormal : v.Normal)
    (hwithin : (q.reply c z v).Within maximum c z)
    (harrives : (h.serve s states).1 <+: a.pieces.flatten) :
    Client.receive maximum q.requestId a = .ok (q.reply c z v) := by
  rw [hreturns.serve hencode] at harrives
  have hplain := hwithin.plain
  have hlimit := maximum.toNat_lt
  -- The only value of a reply is its data.
  have hnests : ∀ u ∈ (Message.response (q.reply c z v)).values, z.Nests u := by
    intro u hu
    rw [List.mem_singleton.mp hu]
    exact hwithin.nests
  have hdelivers : Delivers maximum a.pieces ((Message.response (q.reply c z v)).frame c z) c z
      (.response (q.reply c z v)) := {
    -- The reply is the front of what has arrived; what may follow it is not looked at.
    front := harrives
    sound := Message.sound_frame_of_length hwithin.compressed
    kind := rfl
    compression := rfl
    serialization := rfl
    body := ⟨z.encode (.response (q.reply c z v)), c.inflates_compress _, hwithin.plain,
      Serialization.decode_encode_of_length (normal_reply hnormal) (by omega) hnests⟩ }
  exact Client.receive_eq_ok_iff.mpr ⟨⟨_, c, z, hdelivers⟩, .inl rfl⟩

end Responder.Returns

/-! ### At the proxy -/

namespace Proxy

/-- The proxy makes its attempts, all of which fail before the last one; to the request that this
one sends under the id, `a` arrives. -/
structure Hears (p : Proxy ω κ) (context : CallContext) (service method : String)
    (args : List Value) (o : Origin ω) (id : UInt64) (a : Arrival) (o' : Origin ω) : Prop where
  attempts : ∃ earlier address channel,
    p.Attempts context service method args o
      (earlier ++ [.called address channel id (Client.receive p.settings.maximum id a)]) o' ∧
    earlier.length < p.settings.attempts.toNat ∧ ∀ t ∈ earlier, t.Fails
  room : p.settings.attempts.toNat ≤ mostAttempts

variable {p : Proxy ω κ} {context : CallContext} {service method : String} {args : List Value}
  {o o' : Origin ω} {id : UInt64} {a : Arrival}

/-- The outcome is what the data of the success is at the type that is asked for. -/
theorem Hears.callAs_eq (hhears : p.Hears context service method args o id a o') {r : Response}
    (hreceive : Client.receive p.settings.maximum id a = .ok r) (hcode : r.code = StatusCode.ok)
    (s : Shape) :
    p.callAs s context service method args o = (typed s (.returned r.data), o') := by
  obtain ⟨earlier, address, channel, hattempts, hlength, hfail⟩ := hhears.attempts
  have hlast : (Trial.called address channel id
      (Client.receive p.settings.maximum id a)).outcome = .ok r.data := by
    rw [hreceive]
    exact if_pos hcode
  have hcall := hattempts.call_eq hhears.room (.succeeds earlier hlength hfail hlast)
  show (typed s (p.call context service method args o).1,
    (p.call context service method args o).2) = _
  rw [hcall]

/-- A call returns a typed result exactly when the value it returned is one of that type. -/
theorem typed_returned_iff {s : Shape} {v : Value} {x : s.Carrier} :
    typed s (.returned v) = .returned x ↔ s.decode v = .ok x := by
  unfold typed
  dsimp only
  cases s.decode v with
  | error cause => exact ⟨nofun, nofun⟩
  | ok x' => exact ⟨fun h => congrArg Except.ok (Outcome.returned.inj h),
      fun h => congrArg Outcome.returned (Except.ok.inj h)⟩

/-- **Typed calls.**  Let a method return a value `x` of a plain type, and let a proxy whose earlier
attempts have failed hear from the server.  If the client takes a response out of what arrives of
the answer, be it all of it or a part, then the proxy returns `x` exactly if all floats in `x` are
finite.  If all of the answer arrives and it is within the limits of the client, then the client
does take a response out of it, and so the proxy returns `x` if all floats in it are finite. -/
theorem callAs_of_returned {h : Responder σ} {s : Inbound} {states : Instances σ} {q : Request}
    {c : Compression} {z : Serialization} {hd : Handler σ} {x : hd.method.result.Carrier}
    (hreturns : h.Returns s states q c z hd x) (hplain : hd.method.result.Plain)
    (hhears : p.Hears context service method args o q.requestId a o')
    (harrives : a.pieces.flatten <+: (h.serve s states).1) :
    (∀ r, Client.receive p.settings.maximum q.requestId a = .ok r →
      (h.serve s states).1.length < 4294967296 →
      (p.callAs hd.method.result context service method args o = (.returned x, o') ↔
        hd.method.result.Finite x)) ∧
    ∃ v, hd.method.result.encode x = .ok v ∧
      (a.pieces.flatten = (h.serve s states).1 → (q.reply c z v).Within p.settings.maximum c z →
        hd.method.result.Finite x →
          p.callAs hd.method.result context service method args o = (.returned x, o')) := by
  obtain ⟨v, hwrites⟩ := hplain.exists_writes x
  -- Whatever is received is the reply, so all hangs on whether the value survives its type.
  have hcall {r : Response} (hreceive : Client.receive p.settings.maximum q.requestId a = .ok r)
      (hr : r = q.reply c z v) :
      p.callAs hd.method.result context service method args o = (.returned x, o') ↔
        hd.method.result.Finite x := by
    subst hr
    rw [hhears.callAs_eq hreceive rfl, ← hwrites.decode, ← typed_returned_iff]
    exact ⟨fun h => congrArg Prod.fst h, fun h => Prod.ext h rfl⟩
  refine ⟨fun r hreceive hlength => ?_, v, hwrites.encode, fun hall hwithin hfinite => ?_⟩
  · exact hcall hreceive (hreturns.eq_of_received hwrites.encode hwrites.normal hlength harrives
      hreceive)
  · -- Where all bytes arrive and the reply is within bounds, it is received.
    have hreceive := hreturns.received hwrites.encode hwrites.normal hwithin
      (a := a) (hall ▸ List.prefix_refl _)
    exact (hcall hreceive rfl).mpr hfinite

/-! ### An oracle -/

/-- A table with one method, which always returns the same. -/
def oracleTable (s : Shape) (x : s.Carrier) : ServiceTable Catalogue.Total :=
  ⟨[("oracle", [("ask", ⟨0, Catalogue.constant s x⟩)])]⟩

/-- A site whose server answers from this table. -/
def oracleSite (s : Shape) (x : s.Carrier) : Site Catalogue.Total :=
  Client.sampleSite (oracleTable s x)

/-- A proxy that calls over the network of the site. -/
def oracleProxy (z : Serialization) : Proxy (Site Catalogue.Total) Unit :=
  ⟨ClientSettings.default.withSerialization z,
    Site.loopback Client.splitWire Client.splitWire, none⟩

/-- The request of the proxy. -/
def question : Request := ⟨7, "oracle", "ask", []⟩

section Oracle

variable (s : Shape) (x : s.Carrier) (z : Serialization)

/-- What arrives at the server. -/
def asked : Inbound := Client.splitWire.cut ((oracleProxy z).settings.requestBytes question)

/-- What the server answers, and what becomes of its instances. -/
def answered : Octets × Instances Catalogue.Total :=
  (oracleSite s x).server.responder.serve (asked z) (oracleSite s x).states

/-- The question fits into a frame. -/
theorem fits_question : (Message.request question).Fits Header.defaultMaximum .gzip z :=
  .of_length (by decide) (by decide) (by cases z <;> decide +kernel)

/-- The oracle runs its method for the question and returns its value. -/
theorem returns_question : (oracleSite s x).server.responder.Returns (asked z)
    (oracleSite s x).states question .gzip z ⟨0, Catalogue.constant s x⟩ x where
  asks := ⟨_, .of_fits (fits_question z) nofun (Client.splitWire.prefix_cut _)⟩
  runs := ⟨(), ⟨⟨_, rfl, rfl⟩, rfl⟩, rfl⟩

theorem dial_oracleProxy : ((oracleProxy z).network.dialText ClientSettings.default.address
    (oracleProxy z).settings.dialPatience).perform (oracleSite s x) = (.ok (), oracleSite s x) := by
  have hparse : Address.ofText? ClientSettings.default.address =
      some ⟨defaultHost, defaultPort⟩ := by decide +kernel
  have haddress : addressOf defaultHost defaultPort = (oracleSite s x).server.address := rfl
  rw [Network.dialText, hparse]
  show (if addressOf defaultHost defaultPort = (oracleSite s x).server.address then pure ()
    else throw (.transport Site.refusal) : Action (Site Catalogue.Total) Unit) (oracleSite s x) = _
  rw [if_pos haddress]
  rfl

/-- One attempt carries the question to the oracle and its answer back. -/
theorem tries_question : (oracleProxy z).Tries .background "oracle" "ask" [] ⟨7, oracleSite s x⟩
    (.called ClientSettings.default.address () 7 (Client.receive (oracleProxy z).settings.maximum 7
      ⟨Client.splitWire.cut (answered s x z).1, true⟩))
    ⟨8, { oracleSite s x with states := (answered s x z).2 }⟩ := by
  have haccepting : (oracleSite s x).isAccepting = true := rfl
  have hexchange := Client.perform_exchange_loopback Client.splitWire Client.splitWire haccepting
    rfl ((oracleProxy z).settings.requestBytes question) none
  exact .of_arrival rfl (dial_oracleProxy s x z) hexchange rfl

/-- The proxy hears the oracle's answer under the id it sent. -/
theorem hears_question : (oracleProxy z).Hears .background "oracle" "ask" []
    ⟨7, oracleSite s x⟩ 7 ⟨Client.splitWire.cut (answered s x z).1, true⟩
    ⟨8, { oracleSite s x with states := (answered s x z).2 }⟩ where
  attempts := ⟨[], _, (), .more (tries_question s x z) .none, show 0 < (3 : UInt64).toNat by decide,
    nofun⟩
  room := show (3 : UInt64).toNat ≤ mostAttempts by decide

end Oracle

/-- A response is within the limits of a client if it fits and its data is not nested too deep. -/
theorem within_of_fits {r : Response} {maximum : UInt32} {c : Compression} {z : Serialization}
    (hfits : (Message.response r).Fits maximum c z) (hnests : z.Nests r.data) :
    r.Within maximum c z :=
  ⟨hnests, hfits.plain, hfits.compressed⟩

/-- A finite float and an absent one. -/
def someFloats : List (Option Binary64) := [some ⟨0x3ff8000000000000⟩, none]

/-- A list of optional floats comes back as it is. -/
theorem callAs_of_returned_sample :
    ∃ o', (oracleProxy .protobuf).callAs (.list (.optional .double)) .background "oracle" "ask" []
      ⟨7, oracleSite (.list (.optional .double)) someFloats⟩ = (.returned someFloats, o') := by
  have hplain : (Shape.list (.optional .double)).Plain := .list (.optional .double nofun)
  obtain ⟨-, v, hencode, hcall⟩ := callAs_of_returned
    (returns_question (.list (.optional .double)) someFloats .protobuf) hplain
    (hears_question (.list (.optional .double)) someFloats .protobuf)
    (Client.splitWire.flatten_cut _ ▸ List.prefix_refl _)
  obtain rfl : Value.list [.float ⟨⟨0x3ff8000000000000⟩, by decide⟩, .null] = v :=
    Except.ok.inj hencode
  refine ⟨_, hcall (Client.splitWire.flatten_cut _) (within_of_fits ?_ (by decide)) ?_⟩
  · exact .of_length (by decide) (by decide) (by decide +kernel)
  · intro a ha b hb
    subst hb
    rcases List.mem_cons.mp ha with hb | ha
    · obtain rfl := Option.some.inj hb
      show Binary64.isFinite ⟨0x3ff8000000000000⟩ = true
      decide
    · cases List.mem_singleton.mp ha

/-- Infinity is returned by a method and its response is received, but it comes back as null, which
is no float: the call fails at the proxy. -/
theorem callAs_loses_infinity :
    let site := oracleSite .double Binary64.infinity
    ∃ (a : Arrival) (o' : Origin (Site Catalogue.Total)),
      site.server.responder.Returns (asked .msgPack) site.states question .gzip .msgPack
        ⟨0, Catalogue.constant .double Binary64.infinity⟩ Binary64.infinity ∧
      (oracleProxy .msgPack).Hears .background "oracle" "ask" [] ⟨7, site⟩ 7 a o' ∧
      a.pieces.flatten = (site.server.responder.serve (asked .msgPack) site.states).1 ∧
      (question.reply .gzip .msgPack .null).Within Header.defaultMaximum .gzip .msgPack ∧
      (oracleProxy .msgPack).callAs .double .background "oracle" "ask" [] ⟨7, site⟩ =
        (.failed (.codec (.mismatch (.wrongType .null .double))), o') := by
  intro site
  have hreturns := returns_question .double Binary64.infinity .msgPack
  have hhears := hears_question .double Binary64.infinity .msgPack
  have hfits : (Message.response (question.reply .gzip .msgPack .null)).Fits Header.defaultMaximum
      .gzip .msgPack := .of_length (by decide) (by decide) (by decide +kernel)
  have hwithin := within_of_fits hfits (by decide)
  have hreceive := hreturns.received (v := .null) rfl trivial hwithin
    (a := ⟨Client.splitWire.cut (answered .double Binary64.infinity .msgPack).1, true⟩)
    (Client.splitWire.prefix_cut _)
  exact ⟨_, _, hreturns, hhears, Client.splitWire.flatten_cut _, hwithin,
    hhears.callAs_eq hreceive rfl .double⟩

end Proxy
end WireCall
