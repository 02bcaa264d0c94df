import WireCall.Proofs.Client.Log

namespace WireCall

/-!
# Acceptance

Whatever its peer sends, a client returns a response only if it is an answer to the request that it
has just written, and it fails otherwise.  A proxy makes one attempt after the other.  An attempt
makes at most one call (`Proxy.attempt_eq`, `Proxy.wrote_attempt`), so the proxy returns what came
back for the last of the requests that it has written (`Proxy.wrote_tryTimes`).  A refusal of
admission is accepted under any id, but is no success, so the data of a proxy always came under the
right one (`Proxy.succeeds_of_answers`).

Main statement: a call has exactly the responses that answer it, and a proxy returns the data of a
success that carries the id of the very attempt (`Client.invoke_accepts_answers`).
-/

variable {ω κ α : Type}

namespace Client

/-- A client connects by dialing; what fails is the dialing. -/
theorem perform_connect (client : Client ω κ) (service : String) (p : Origin ω) :
    (connect service).perform (client, p) =
      match (client.dial service).perform p.world with
      | (.ok channel, w) => (.ok (), ({ client with channel := some channel }, ⟨p.nextId, w⟩))
      | (.error fault, w) => (.error fault, (client, ⟨p.nextId, w⟩)) := by
  show (atOrigin (Origin.outside (client.dial service)) >>= fun channel =>
    setChannel (some channel) : ClientAction ω κ Unit).perform (client, p) = _
  rw [Action.perform_bind, perform_atOrigin, Origin.perform_outside]
  cases (client.dial service).perform p.world with
  | mk outcome w =>
    cases outcome <;> rfl

/-- Without a connection there is nothing to hang up. -/
theorem perform_close_of_disconnected {client : Client ω κ} (h : client.channel = none)
    (p : Origin ω) : close.perform (client, p) = (.ok (), (client, p)) := by
  obtain ⟨settings, network, discovery, channel⟩ := client
  cases h
  rfl

end Client

/-! ### Attempts -/

namespace Proxy

/-- The client of an attempt. -/
def client (p : Proxy ω κ) : Client ω κ := .ofSettings p.settings p.network p.discovery

@[simp] theorem client_network (p : Proxy ω κ) : p.client.network = p.network := rfl

@[simp] theorem client_settings (p : Proxy ω κ) : p.client.settings = p.settings := rfl

/-- The client of an attempt once it is connected. -/
def connected (p : Proxy ω κ) (channel : κ) : Client ω κ :=
  { p.client with channel := some channel }

/-- The call uses the connection up, so there is none left to hang up on. -/
theorem perform_call_of_connected (p : Proxy ω κ) (channel : κ) (context : CallContext)
    (service method : String) (args : List Value) (origin : Origin ω) :
    (do
      let outcome ← (Client.invoke context service method args).attempt
      Client.close
      let response ← .ofExcept outcome
      .ofExcept (dataOf response) : ClientAction ω κ Value).perform (p.connected channel, origin) =
      (((p.client.callOn channel context service method args).perform origin).1 >>= dataOf,
        (p.client, ((p.client.callOn channel context service method args).perform origin).2)) := by
  have hchannel : (p.connected channel).channel = some channel := rfl
  have hcall : ((p.connected channel).callOn channel context service method args :
      Action (Origin ω) Response) = p.client.callOn channel context service method args := rfl
  have hinvoke := Client.perform_invoke_of_connected hchannel context service method args origin
  rw [Action.perform_bind, Action.perform_attempt, hinvoke, hcall]
  dsimp only
  rw [Action.perform_bind, Client.perform_close_of_disconnected rfl]
  cases (p.client.callOn channel context service method args).perform origin with
  | mk outcome after =>
    cases outcome <;> rfl

/-- A session dials and then exchanges; one that cannot dial uses no request id. -/
theorem perform_session (p : Proxy ω κ) (context : CallContext) (service method : String)
    (args : List Value) (origin : Origin ω) :
    (session context service method args).perform (p.client, origin) =
      match (p.client.dial service).perform origin.world with
      | (.error fault, w) => (.error fault, (p.client, ⟨origin.nextId, w⟩))
      | (.ok channel, w) =>
        let called :=
          (p.client.callOn channel context service method args).perform ⟨origin.nextId, w⟩
        (called.1 >>= dataOf, (p.client, called.2)) := by
  rw [session, Action.perform_bind, Client.perform_connect]
  cases (p.client.dial service).perform origin.world with
  | mk outcome w =>
    cases outcome with
    | error fault => rfl
    | ok channel => exact p.perform_call_of_connected channel context service method args _

/-- An attempt is a session of the proxy's client, with the next id of the origin. -/
theorem attempt_eq (p : Proxy ω κ) (context : CallContext) (service method : String)
    (args : List Value) (origin : Origin ω) :
    p.attempt context service method args origin =
      match (p.client.dial service).perform origin.world with
      | (.error fault, w) => (.error fault, ⟨origin.nextId, w⟩)
      | (.ok channel, w) =>
        let called :=
          (p.client.callOn channel context service method args).perform ⟨origin.nextId, w⟩
        (called.1 >>= dataOf, called.2) := by
  show (((session context service method args).perform (p.client, origin)).1,
    ((session context service method args).perform (p.client, origin)).2.2) = _
  rw [perform_session]
  cases (p.client.dial service).perform origin.world with
  | mk outcome w =>
    cases outcome <;> rfl

end Proxy

/-- The stream delivers a success that carries the id `sent` and the data `v`. -/
def Succeeds (maximum : UInt32) (sent : UInt64) (s : Inbound) (v : Value) : Prop :=
  ∃ f c z r, Delivers maximum s f c z (.response r) ∧ r.requestId = sent ∧
    r.code = StatusCode.ok ∧ r.data = v

namespace Proxy

variable {log : ω → List Exchange} {p : Proxy ω κ}

/-- Data comes out of a response exactly when its code says that all went well. -/
theorem dataOf_eq_ok_iff {r : Response} {v : Value} :
    dataOf r = .ok v ↔ r.code = StatusCode.ok ∧ r.data = v := by
  have hok : r.isOk = true ↔ r.code = StatusCode.ok := beq_iff_eq
  rw [dataOf]
  constructor
  · intro h
    split at h
    · rename_i hsuccess
      exact ⟨hok.mp hsuccess, Except.ok.inj h⟩
    · cases h
  · rintro ⟨hcode, rfl⟩
    exact if_pos (hok.mpr hcode)

/-- An answer that is a success carries the id of the request, since a refusal of admission is
none. -/
theorem succeeds_of_answers {maximum : UInt32} {sent : UInt64} {s : Inbound} {r : Response}
    {v : Value} (hanswers : Answers maximum sent s r) (hdata : dataOf r = .ok v) :
    Succeeds maximum sent s v := by
  obtain ⟨⟨f, c, z, hdelivers⟩, haccepted⟩ := hanswers
  obtain ⟨hcode, hv⟩ := dataOf_eq_ok_iff.mp hdata
  refine ⟨f, c, z, r, hdelivers, ?_, hcode, hv⟩
  rcases haccepted with hid | hlimited
  · exact hid
  · exact absurd (hlimited.symm.trans hcode) (by decide)

/-- The log has every exchange of the proxy, and finding a service does not change it. -/
structure Records (p : Proxy ω κ) (log : ω → List Exchange) : Prop where
  network : p.network.Records log
  discovery : ∀ backend settings, p.discovery = some (backend, settings) →
    ∀ service w, log ((backend.lookUp settings service).perform w).2 = log w

/-- Dialling writes nothing into the log of exchanges. -/
theorem Records.dial (h : p.Records log) (service : String) (w : ω) :
    log ((p.client.dial service).perform w).2 = log w := by
  -- The only thing that touches the world before dialling is the discovery.
  have hresolve : log ((p.client.resolve service).perform w).2 = log w := by
    rw [Client.resolve]
    split
    · rename_i backend settings hdiscovery
      exact h.discovery backend settings hdiscovery service w
    · rfl
  rw [Client.dial, Action.perform_bind]
  cases hfound : (p.client.resolve service).perform w with
  | mk outcome w' =>
    rw [hfound] at hresolve
    cases outcome with
    | error fault => exact hresolve
    | ok address => exact (h.network.dialText address _ w').trans hresolve

/-- An attempt writes at most one request; one that succeeds writes exactly one, and returns the
data of the success that comes back under its id. -/
theorem wrote_attempt (hrecords : p.Records log) (context : CallContext) (service method : String)
    (args : List Value) (origin : Origin ω) :
    ∃ es, Wrote log p.settings service method args origin
        (p.attempt context service method args origin).2 es ∧ es.length ≤ 1 ∧
      ∀ v, (p.attempt context service method args origin).1 = .ok v → ∃ a,
        es = [⟨p.settings.requestBytes ⟨origin.nextId, service, method, args⟩, .ok a⟩] ∧
          Succeeds p.settings.maximum origin.nextId a.pieces v := by
  have hdial := hrecords.dial service origin.world
  rw [attempt_eq]
  cases houtcome : (p.client.dial service).perform origin.world with
  | mk outcome w =>
    rw [houtcome] at hdial
    cases outcome with
    -- Without a connection nothing is written.
    | error fault =>
      refine ⟨[], .of_idle hdial rfl, Nat.zero_le 1, ?_⟩
      intro v hv
      cases hv
    | ok channel =>
      have hcall := Client.perform_callOn_eq p.client channel context service method args
        ⟨origin.nextId, w⟩
      have hidle : Wrote log p.settings service method args origin ⟨origin.nextId, w⟩ [] :=
        .of_idle hdial rfl
      have hrecords' : p.client.network.Records log := hrecords.network
      refine ⟨_, hidle.trans (wrote_callOn hrecords' channel context service method args
        ⟨origin.nextId, w⟩), Nat.le_refl 1, ?_⟩
      intro v hv
      obtain ⟨r, hr, hdata⟩ := bind_eq_ok_iff.mp hv
      rw [hcall] at hr
      obtain ⟨a, ha, hreceive⟩ := bind_eq_ok_iff.mp hr
      refine ⟨a, ?_, succeeds_of_answers (Client.receive_eq_ok_iff.mp hreceive) hdata⟩
      rw [← ha]
      rfl

/-- One success ends the trying. -/
theorem tryTimes_of_ok {a : Action ω α} {w w' : ω} {x : α} (h : a w = (.ok x, w')) {n k : Nat}
    (hn : n = k + 1) : tryTimes a n w = (.ok x, w') := by
  rw [hn, tryTimes, Action.perform, h]

/-- Trying succeeds at the first attempt, or fails there and succeeds in the attempts left. -/
theorem tryTimes_succ_eq_ok {a : Action ω α} {n : Nat} {w w' : ω} {x : α}
    (h : tryTimes a (n + 1) w = (.ok x, w')) : a w = (.ok x, w') ∨
      ∃ fault w₁, a w = (.error fault, w₁) ∧ tryTimes a n w₁ = (.ok x, w') := by
  -- Either the first attempt is the success, or the rest of them has it.
  rw [tryTimes, Action.perform] at h
  split at h
  · rename_i x' w₁ hfirst
    obtain ⟨hx, rfl⟩ := Prod.mk.inj h
    exact .inl (by rw [hfirst, Except.ok.inj hx])
  · rename_i fault w₁ hfirst
    refine .inr ⟨fault, w₁, hfirst, ?_⟩
    cases hrest : tryTimes a n w₁ with
    | mk outcome w₂ =>
      rw [hrest] at h
      cases outcome with
      | ok x' => exact h
      | error faults => cases h

/-- What several attempts write of which the last one succeeds. -/
theorem wrote_tryTimes (hrecords : p.Records log) {context : CallContext}
    {service method : String} {args : List Value} {n : Nat} {origin origin' : Origin ω} {v : Value}
    (h : tryTimes (p.attempt context service method args) n origin = (.ok v, origin')) :
    ∃ earlier a, Wrote log p.settings service method args origin origin'
        (earlier ++ [⟨p.settings.requestBytes
          ⟨origin.nextId + .ofNat earlier.length, service, method, args⟩, .ok a⟩]) ∧
      earlier.length < n ∧
      Succeeds p.settings.maximum (origin.nextId + .ofNat earlier.length) a.pieces v := by
  -- By induction on the attempts left: what the first one wrote goes before what the others write.
  induction n generalizing origin with
  | zero => cases h
  | succ n ih =>
    obtain ⟨es, hwrote, hlength, hsuccess⟩ :=
      wrote_attempt hrecords context service method args origin
    rcases tryTimes_succ_eq_ok h with hattempt | ⟨fault, w, hattempt, hrest⟩
    · -- The first attempt succeeded, and nothing was written before it.
      rw [hattempt] at hwrote hsuccess
      obtain ⟨a, rfl, hsucceeds⟩ := hsuccess v rfl
      refine ⟨[], a, ?_, Nat.succ_pos n, ?_⟩
      · rw [List.length_nil, id_add_zero]
        exact hwrote
      · rw [List.length_nil, id_add_zero]
        exact hsucceeds
    · rw [hattempt] at hwrote
      obtain ⟨earlier, a, hwrote', hearlier, hsucceeds⟩ := ih hrest
      rw [hwrote.nextId, id_add_add, ← List.length_append] at hwrote' hsucceeds
      refine ⟨es ++ earlier, a, ?_, ?_, hsucceeds⟩
      · rw [List.append_assoc]
        exact hwrote.trans hwrote'
      · rw [List.length_append]
        omega

/-- A call returns what the last of its attempts has returned. -/
theorem call_eq_returned_iff {context : CallContext} {service method : String} {args : List Value}
    {origin origin' : Origin ω} {v : Value} :
    p.call context service method args origin = (.returned v, origin') ↔
      p.settings.attempts.toNat ≤ mostAttempts ∧
        tryTimes (p.attempt context service method args) p.settings.attempts.toNat origin =
          (.ok v, origin') := by
  have hbind : ∀ {α β : Type} (x : StateM (Origin ω) α) (k : α → StateM (Origin ω) β)
      (origin : Origin ω), (x >>= k) origin = k (x origin).1 (x origin).2 := fun _ _ _ => rfl
  rw [call]
  -- Without room for the faults the call has crashed, so only the second case returns.
  split
  · rename_i hmost
    constructor
    · intro h
      cases (Prod.mk.inj h).1
    · rintro ⟨hfew, -⟩
      exact absurd hmost (Nat.not_lt_of_le hfew)
  · rename_i hfew
    rw [hbind]
    cases tryTimes (p.attempt context service method args) p.settings.attempts.toNat origin with
    | mk outcome w =>
      cases outcome with
      | ok x =>
        constructor
        · intro h
          obtain ⟨hv, rfl⟩ := Prod.mk.inj h
          rw [Outcome.returned.inj hv]
          exact ⟨Nat.le_of_not_lt hfew, rfl⟩
        · rintro ⟨-, h⟩
          obtain ⟨hv, rfl⟩ := Prod.mk.inj h
          rw [Except.ok.inj hv]
          rfl
      | error faults =>
        constructor
        · intro h
          cases (Prod.mk.inj h).1
        · rintro ⟨-, h⟩
          cases (Prod.mk.inj h).1

end Proxy

/-! ### Acceptance -/

namespace Client

/-- **Acceptance.**  Over any network that is logged, a call on a connection writes exactly one
request, under a fresh id, and uses the connection up, so another call fails and writes nothing.
Its responses are exactly the answers among what may come back; a stream that ends without one is an
error.  A proxy returns nothing but the data of a success that came back for its last request, under
the id of this request. -/
theorem invoke_accepts_answers {network : Network ω κ} {log : ω → List Exchange}
    (hrecords : network.Records log) (context : CallContext) (service method : String)
    (args : List Value) (origin : Origin ω) :
    (∀ (client : Client ω κ) (channel : κ), client.network = network →
      client.channel = some channel →
      let bytes := client.settings.requestBytes ⟨origin.nextId, service, method, args⟩
      let outcome := ((network.exchange channel bytes context.deadline).perform origin.world).1
      let used := { client with channel := none }
      ∃ result origin', (invoke context service method args).perform (client, origin) =
          (result, (used, origin')) ∧
        log origin'.world = log origin.world ++ [⟨bytes, outcome⟩] ∧
        origin'.nextId = origin.nextId + 1 ∧
        (∀ a, outcome = .ok a →
          (∀ r, result = .ok r ↔ Answers client.settings.maximum origin.nextId a.pieces r) ∧
          (a.ended = true →
            (∀ r, ¬ Answers client.settings.maximum origin.nextId a.pieces r) →
            ∃ fault, result = .error fault ∧ fault ≠ .cancelled)) ∧
        (∀ fault, outcome = .error fault → result = .error fault) ∧
        ∀ context service method args,
          (invoke context service method args).perform (used, origin') =
            (.error .connectionClosed, (used, origin'))) ∧
    ∀ (p : Proxy ω κ) (v : Value) (origin' : Origin ω), p.network = network →
      (∀ backend settings, p.discovery = some (backend, settings) →
        ∀ service w, log ((backend.lookUp settings service).perform w).2 = log w) →
      p.call context service method args origin = (.returned v, origin') →
      ∃ earlier a, Wrote log p.settings service method args origin origin'
          (earlier ++ [⟨p.settings.requestBytes
            ⟨origin.nextId + .ofNat earlier.length, service, method, args⟩, .ok a⟩]) ∧
        earlier.length < p.settings.attempts.toNat ∧
        Succeeds p.settings.maximum (origin.nextId + .ofNat earlier.length) a.pieces v := by
  constructor
  · -- A client with a connection: what was written is known before it is known what came back.
    rintro client channel rfl hchannel
    have hinvoke := perform_invoke_of_connected hchannel context service method args origin
    have hresult := congrArg Prod.fst
      (perform_callOn_eq client channel context service method args origin)
    have hwrote := wrote_callOn hrecords channel context service method args origin
    dsimp only at hresult
    refine ⟨_, _, hinvoke, hwrote.log, hwrote.nextId, ?_, ?_, ?_⟩
    · intro a houtcome
      have hreceive : ((client.callOn channel context service method args).perform origin).1 =
          receive client.settings.maximum origin.nextId a := by
        rw [hresult, houtcome]
        rfl
      rw [hreceive]
      refine ⟨fun r => receive_eq_ok_iff, fun hended hnone => ?_⟩
      cases hr : receive client.settings.maximum origin.nextId a with
      | ok r => exact absurd (receive_eq_ok_iff.mp hr) (hnone r)
      | error fault =>
        refine ⟨fault, rfl, ?_⟩
        rintro rfl
        exact receive_ne_cancelled hended hr
    · intro fault houtcome
      rw [hresult, houtcome]
      rfl
    · intro context service method args
      exact perform_invoke_of_disconnected rfl context service method args _
  · -- A proxy: its attempts are sessions of such clients.
    rintro p v origin' rfl hdiscovery hcall
    exact Proxy.wrote_tryTimes ⟨hrecords, hdiscovery⟩ (Proxy.call_eq_returned_iff.mp hcall).2

/-! ### The sample request at a scripted peer -/

/-- A network whose only peer answers everything with the same bytes. -/
def parrot (reply : Inbound) : Network Unit Unit where
  dial _ _ := pure ()
  exchange _ _ _ := pure ⟨reply, true⟩
  hangUp _ := pure ()

/-- What the peer says: the response to the sample request, with a byte behind it. -/
def parrotReply : Inbound :=
  [((Message.response (Responder.sampleResponse.withTags 0 0)).frame .gzip .msgPack).encode, [0]]

/-- The reply of the parrot is one frame that carries its response. -/
theorem delivers_parrotReply : Delivers Header.defaultMaximum parrotReply
    ((Message.response (Responder.sampleResponse.withTags 0 0)).frame .gzip .msgPack) .gzip .msgPack
    (.response (Responder.sampleResponse.withTags 0 0)) := by
  refine .of_fits (carries_sample .msgPack).response (by decide) ⟨[0], ?_⟩
  rw [parrotReply, List.flatten_cons, List.flatten_singleton]

/-- The proxy whose clients talk to the peer. -/
def parrotProxy (reply : Inbound) : Proxy (Unit × List Exchange) Unit :=
  ⟨.default, (parrot reply).recorded, none⟩

/-- A connected client of the peer. -/
def parrotClient (reply : Inbound) : Client (Unit × List Exchange) Unit :=
  { (parrotProxy reply).client with channel := some () }

/-- Whatever is asked of the parrot, the client receives its one reply. -/
theorem perform_callOn_parrot {reply : Inbound} {client : Client (Unit × List Exchange) Unit}
    (hnetwork : client.network = (parrot reply).recorded) (context : CallContext)
    (service method : String) (args : List Value) (p : Origin (Unit × List Exchange)) :
    ((client.callOn () context service method args).perform p).1 =
      receive client.settings.maximum p.nextId ⟨reply, true⟩ := by
  rw [perform_callOn_eq, hnetwork]
  rfl

/-- The response is accepted under the id 7. -/
theorem answers_parrotReply : Answers Header.defaultMaximum 7 parrotReply
    (Responder.sampleResponse.withTags 0 0) :=
  ⟨⟨_, _, _, delivers_parrotReply⟩, .inl rfl⟩

theorem not_answers_nil (r : Response) : ¬ Answers Header.defaultMaximum 7 [] r := by
  intro hanswers
  have hreceive := receive_eq_ok_iff (a := ⟨[], true⟩).mpr hanswers
  cases hreceive

/-- A proxy that asks the parrot returns the list the parrot says. -/
theorem call_parrotProxy : ∃ origin', (parrotProxy parrotReply).call .background "calculator" ""
    Request.sample.args ⟨7, (), []⟩ = (.returned (.list Request.sample.args), origin') := by
  have haddress : (Address.ofText? ClientSettings.default.address).isSome = true := by
    decide +kernel
  have hdial : ((parrotProxy parrotReply).client.dial "calculator").perform ((), []) =
      (.ok (), (), []) := by
    show ((parrot parrotReply).recorded.dialText ClientSettings.default.address
      ClientSettings.default.dialPatience).perform ((), []) = _
    obtain ⟨address, haddress⟩ := Option.isSome_iff_exists.mp haddress
    rw [Network.dialText, haddress]
    rfl
  have hattempt : ((parrotProxy parrotReply).attempt .background "calculator" ""
      Request.sample.args ⟨7, (), []⟩).1 = .ok (.list Request.sample.args) := by
    rw [Proxy.attempt_eq, hdial]
    dsimp only
    rw [perform_callOn_parrot rfl, receive_eq_ok_iff.mpr answers_parrotReply]
    rfl
  cases hpair : (parrotProxy parrotReply).attempt .background "calculator" ""
      Request.sample.args ⟨7, (), []⟩ with
  | mk outcome origin' =>
    rw [hpair] at hattempt
    obtain rfl : outcome = .ok (.list Request.sample.args) := hattempt
    exact ⟨origin', Proxy.call_eq_returned_iff.mpr ⟨by decide, Proxy.tryTimes_of_ok hpair rfl⟩⟩

/-- The sample request is answered, to a client and through a proxy; and a peer that says nothing
leaves the client with an error. -/
theorem invoke_accepts_answers_sample :
    (∃ s, (invoke .background "calculator" "" Request.sample.args).perform
      (parrotClient parrotReply, ⟨7, (), []⟩) =
        (.ok (Responder.sampleResponse.withTags 0 0), s)) ∧
    (∃ fault s, (invoke .background "calculator" "" Request.sample.args).perform
      (parrotClient [], ⟨7, (), []⟩) = (.error fault, s) ∧ fault ≠ .cancelled) ∧
    ∃ (earlier : List Exchange) (a : Arrival), Succeeds Header.defaultMaximum
      (7 + .ofNat earlier.length) a.pieces (.list Request.sample.args) := by
  have haccepts := fun reply => invoke_accepts_answers (parrot reply).records_recorded .background
    "calculator" "" Request.sample.args ⟨7, (), []⟩
  refine ⟨?_, ?_, ?_⟩
  · obtain ⟨result, origin', hinvoke, -, -, hanswers, -⟩ :=
      (haccepts parrotReply).1 (parrotClient parrotReply) () rfl rfl
    rw [((hanswers ⟨parrotReply, true⟩ rfl).1 _).mpr answers_parrotReply] at hinvoke
    exact ⟨_, hinvoke⟩
  · obtain ⟨result, origin', hinvoke, -, -, hanswers, -⟩ :=
      (haccepts []).1 (parrotClient []) () rfl rfl
    obtain ⟨fault, rfl, hne⟩ := (hanswers ⟨[], true⟩ rfl).2 rfl not_answers_nil
    exact ⟨fault, _, hinvoke, hne⟩
  · obtain ⟨origin', hcall⟩ := call_parrotProxy
    obtain ⟨earlier, a, -, -, hsucceeds⟩ :=
      (haccepts parrotReply).2 (parrotProxy parrotReply) _ origin' rfl nofun hcall
    exact ⟨earlier, a, hsucceeds⟩

end Client
end WireCall
