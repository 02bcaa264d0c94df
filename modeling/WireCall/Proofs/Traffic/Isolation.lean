import WireCall.Proofs.Traffic.Completion
import WireCall.Proofs.Traffic.Runs

namespace WireCall

/-!
# Calls do not disturb one another

A reply that is on a connection was written at one moment of the run (`Runs.exists_answer`), and at
this moment nothing but the request of this call could have arrived, so it is the response to this
request (`Runs.answered`).  The client of the call gets the bytes of this reply and no others, so a
response that it accepts is the same response (`Runs.accepted`).

Main statement: whatever the order of the steps, each call has an id of its own, and gets at most
one reply, which is the refusal of its connection or the response to its own request
(`Traffic.run_isolated`).
-/

/-- Every response to a request of normal values is normal. -/
def ServiceTable.KeepsNormal {σ : Type} (table : ServiceTable σ) : Prop :=
  ∀ q states r states', (Message.request q).Normal → table.dispatch q states = (some r, states') →
    (Message.response r).Normal

namespace Traffic

variable {σ : Type} {t t' : Traffic σ} {start : Nat → Call} {es : List Event} {i : Nat}

/-! ### Replies -/

/-- At one moment of the run, the server has answered the call `i`, and its table gave the response
`r` to the request `q`. -/
def Dispatches (t t' : Traffic σ) (es : List Event) (i : Nat) (q : Request) (r : Response) :
    Prop :=
  ∃ es₁ es₂ u u', es = es₁ ++ .call i .answer :: es₂ ∧ t.run es₁ = some u ∧
    u.step (.call i .answer) = some u' ∧ u'.run es₂ = some t' ∧
    t.common.responder.table.dispatch q u.common.states = (some r, u'.common.states)

/-- The server answers a connection once at most. -/
theorem Runs.count_answer_le (h : Runs t es t')
    (hconsistent : ∀ i, (start i).Consistent (t.calls i)) (i : Nat) :
    es.count (.call i .answer) ≤ (t'.calls i).reply.isSome.toNat := by
  -- By induction on the run: an answer needs that there was no reply, and gives one that stays.
  induction h with
  | nil => exact Nat.zero_le _
  | @snoc es e u u' hruns hstep ih =>
    have hconsistent' := hruns.consistent hconsistent
    rw [List.count_append, List.count_singleton]
    by_cases hanswer : e = .call i .answer
    · subst hanswer
      obtain ⟨hnone, hsome, -⟩ := (moves_of_step hstep).of_answer
      rw [hnone] at ih
      rw [hsome]
      simpa using ih
    · have hmono : (u.calls i).reply.isSome.toNat ≤ (u'.calls i).reply.isSome.toNat := by
        cases hreply : (u.calls i).reply with
        | none => exact Nat.zero_le _
        | some bytes =>
          exact Nat.le_of_eq (by rw [(step_keeps hconsistent' hstep).reply i bytes hreply])
      rw [if_neg (by simpa using hanswer), Nat.add_zero]
      exact Nat.le_trans ih hmono

/-- An admitted connection that has a reply got it when it was answered. -/
theorem Runs.exists_answer (h : Runs t es t') (hfresh : ∀ i, (t.calls i).Fresh) {bytes : Octets}
    (hentrance : (t'.calls i).entrance = .admitted) (hreply : (t'.calls i).reply = some bytes) :
    ∃ es₁ es₂ u u', es = es₁ ++ .call i .answer :: es₂ ∧ Runs t es₁ u ∧
      u.step (.call i .answer) = some u' ∧ Runs u' es₂ t' := by
  -- By induction on the run, from its end: the reply was there before the last event or is its
  -- work.
  induction h with
  | nil =>
    rw [hfresh i] at hreply
    cases hreply
  | @snoc es e u u' hruns hstep ih =>
    have hbefore : e = .call i .answer ∨
        (u.calls i).entrance = .admitted ∧ (u.calls i).reply = some bytes := by
      cases e with
      | pass nanos =>
        obtain rfl := Option.some.inj hstep
        exact .inr ⟨hentrance, hreply⟩
      | call j act =>
        by_cases hij : i = j
        · subst hij
          have hconsistent := hruns.consistent (fun i => (hfresh i).consistent) i
          rcases (moves_of_step hstep).answered hconsistent hentrance hreply with rfl | hbefore
          · exact .inl rfl
          · exact .inr hbefore
        · rw [calls_step_of_ne hstep hij] at hentrance hreply
          exact .inr ⟨hentrance, hreply⟩
    rcases hbefore with rfl | ⟨hentrance, hreply⟩
    · exact ⟨es, [], u, u', rfl, hruns, hstep, .nil⟩
    · obtain ⟨es₁, es₂, v, v', rfl, hruns₁, hanswer, hruns₂⟩ := ih hentrance hreply
      exact ⟨es₁, es₂ ++ [e], v, v', by simp, hruns₁, hanswer, hruns₂.snoc hstep⟩

/-- What is written on an admitted connection is nothing, or the response to its own request. -/
theorem Runs.answered (h : Runs t es t') (hfresh : ∀ i, (t.calls i).Fresh)
    (hargs : ∀ i, ∀ v ∈ (t.calls i).args, v.Normal)
    (hrequest : ∀ i id, (t'.calls i).id = some id →
      ((t.calls i).requestBytes id).length < 4294967296) {bytes : Octets}
    (hentrance : (t'.calls i).entrance = .admitted) (hreply : (t'.calls i).reply = some bytes) :
    bytes = [] ∨ ∃ id r, (t'.calls i).id = some id ∧
      Dispatches t t' es i ((t.calls i).request id) r ∧ r.requestId = id ∧
      bytes = (t.calls i).replyBytes r := by
  have hconsistent : ∀ i, (t.calls i).Consistent (t.calls i) := fun i => (hfresh i).consistent
  obtain ⟨es₁, es₂, u, u', rfl, hruns₁, hanswer, hruns₂⟩ :=
    h.exists_answer hfresh hentrance hreply
  have hconsistent₁ := hruns₁.consistent hconsistent
  have hkeeps₂ := hruns₂.keeps (step_consistent hconsistent₁ hanswer)
  have hkeeps := (step_keeps hconsistent₁ hanswer).trans hkeeps₂
  obtain ⟨-, hserved, hstates⟩ := (moves_of_step hanswer).of_answer
  -- The reply of that moment is still there at the end.
  obtain rfl := Option.some.inj ((hkeeps₂.reply i _ hserved).symm.trans hreply)
  rcases (hconsistent₁ i).serve u.common.responder u.common.states (fun id => hargs i)
    (fun id hid => hrequest i id (hkeeps.id i id hid)) with hsilent |
      ⟨id, r, states, hid, hdispatch, hserve⟩
  · exact .inl hsilent
  · refine .inr ⟨id, r, hkeeps.id i id hid, ⟨es₁, es₂, u, u', rfl, run_eq_some_iff.mpr hruns₁,
      hanswer, run_eq_some_iff.mpr hruns₂, ?_⟩, Responder.requestId_of_dispatch hdispatch,
      congrArg Prod.fst hserve⟩
    rw [hstates, hserve, ← (hruns₁.keeps hconsistent).responder]
    exact hdispatch

/-- The response that a refused connection gets. -/
def refusal (cause : RateFault) : Response :=
  .failure 0 StatusCode.limited (Fault.rateLimited cause).message

/-- A refusal is written as a frame of its own. -/
theorem refuse_eq (cause : RateFault) : Responder.refuse cause =
    ((Message.response (refusal cause)).frame .gzip .msgPack).encode :=
  Responder.write_withTags (refusal cause) .gzip .msgPack

/-- A refusal is a normal message. -/
theorem refusal_normal (cause : RateFault) : (Message.response (refusal cause)).Normal := by
  intro v hv
  rw [List.mem_singleton.mp hv]
  show Value.null.Normal
  decide

/-- What is written on any connection is its refusal, or else it has been admitted. -/
theorem Runs.replied (h : Runs t es t') (hfresh : ∀ i, (t.calls i).Fresh) {bytes : Octets}
    (hreply : (t'.calls i).reply = some bytes) :
    (∃ cause, (t'.calls i).entrance = .refused cause ∧
      bytes = ((Message.response (refusal cause)).frame .gzip .msgPack).encode) ∨
    (t'.calls i).entrance = .admitted := by
  have hconsistent := h.consistent (fun i => (hfresh i).consistent) i
  cases hentrance : (t'.calls i).entrance with
  | outside | waiting =>
    have hnone := hconsistent.pending (by rw [hentrance]; trivial)
    cases hreply.symm.trans hnone
  | refused cause =>
    refine .inl ⟨cause, rfl, ?_⟩
    rw [← refuse_eq]
    exact Option.some.inj (hreply.symm.trans (hconsistent.refused cause hentrance))
  | admitted => exact .inr rfl

/-! ### Isolation -/

/-- What a client has accepted and is no refusal is the response to its own request. -/
theorem Runs.accepted (h : Runs t es t') (hfresh : ∀ i, (t.calls i).Fresh)
    (hargs : ∀ i, ∀ v ∈ (t.calls i).args, v.Normal)
    (htable : t.common.responder.table.KeepsNormal)
    (hrequest : ∀ i id, (t'.calls i).id = some id →
      ((t.calls i).requestBytes id).length < 4294967296)
    (hreply : ∀ i bytes, (t'.calls i).reply = some bytes → bytes.length < 4294967296)
    {r : Response} (hresult : (t'.calls i).result = some (.ok r))
    (hcode : r.code ≠ StatusCode.limited) :
    ∃ id r', (t'.calls i).id = some id ∧ Dispatches t t' es i ((t.calls i).request id) r' ∧
      r'.requestId = id ∧ r = (t.calls i).tagged r' := by
  have hconsistent := h.consistent (fun i => (hfresh i).consistent) i
  obtain ⟨bytes, hbytes, hne⟩ := hconsistent.reply_of_accepted hresult
  rcases h.replied hfresh hbytes with ⟨cause, -, rfl⟩ | hentrance
  · have hrefusal := hconsistent.eq_of_accepted hresult hbytes (refusal_normal cause)
      (hreply i _ hbytes)
    rw [hrefusal] at hcode
    exact absurd rfl hcode
  · rcases h.answered hfresh hargs hrequest hentrance hbytes with
      rfl | ⟨id, r', hid, hdispatches, hr', rfl⟩
    · exact absurd rfl hne
    · refine ⟨id, r', hid, hdispatches, hr', ?_⟩
      obtain ⟨es₁, es₂, u, u', -, -, -, -, hdispatch⟩ := hdispatches
      have hasked : (Message.request ((t.calls i).request id)).Normal := hargs i
      -- The tags that are put on a response are no part of its data.
      have hnormal : (Message.response ((t.calls i).tagged r')).Normal :=
        htable _ _ r' _ hasked hdispatch
      exact hconsistent.eq_of_accepted hresult hbytes hnormal (hreply i _ hbytes)

/-- **Isolation.**  In every run of calls that have just begun, in whatever order their steps come:
no two calls have the same id; each connection is answered at most once, a reply that was written
is never replaced, and the client gets its bytes in order and none besides; the reply is the refusal
of this connection, or nothing, or the response that the table gave to the request of this call,
under its id and its tags; and a response that is no refusal is returned to no other call. -/
theorem run_isolated (hrun : t.run es = some t') (hfresh : ∀ i, (t.calls i).Fresh)
    (hargs : ∀ i, ∀ v ∈ (t.calls i).args, v.Normal)
    (htable : t.common.responder.table.KeepsNormal)
    (hcount : (senders es).length < 18446744073709551616)
    (hrequest : ∀ i id, (t'.calls i).id = some id →
      ((t.calls i).requestBytes id).length < 4294967296)
    (hreply : ∀ i bytes, (t'.calls i).reply = some bytes → bytes.length < 4294967296) :
    (∀ i j id, (t'.calls i).id = some id → (t'.calls j).id = some id → i = j) ∧
    (∀ i, es.count (.call i .answer) ≤ 1 ∧
      (∀ es₁ es₂ u bytes, es = es₁ ++ es₂ → t.run es₁ = some u →
        (u.calls i).reply = some bytes → (t'.calls i).reply = some bytes) ∧
      (t'.calls i).atServer.flatten ++ (t'.calls i).toServer =
        (t'.calls i).id.elim [] (t.calls i).requestBytes ∧
      (t'.calls i).atClient.flatten ++ (t'.calls i).toClient = (t'.calls i).reply.getD []) ∧
    (∀ i bytes, (t'.calls i).reply = some bytes →
      (∃ cause, (t'.calls i).entrance = .refused cause ∧
        bytes = ((Message.response (refusal cause)).frame .gzip .msgPack).encode) ∨
      (t'.calls i).entrance = .admitted ∧ (bytes = [] ∨ ∃ id r, (t'.calls i).id = some id ∧
        Dispatches t t' es i ((t.calls i).request id) r ∧ r.requestId = id ∧
        bytes = (t.calls i).replyBytes r)) ∧
    ∀ i r, (t'.calls i).result = some (.ok r) → r.code ≠ StatusCode.limited →
      ∃ id r', (t'.calls i).id = some id ∧ Dispatches t t' es i ((t.calls i).request id) r' ∧
        r'.requestId = id ∧ r = (t.calls i).tagged r' := by
  have hruns := run_eq_some_iff.mp hrun
  have hconsistent : ∀ i, (t.calls i).Consistent (t.calls i) := fun i => (hfresh i).consistent
  -- Ids are drawn from one counter, so two calls share one only if it has come round.
  refine ⟨fun i j id => hruns.id_injective hfresh hcount, fun i => ⟨?_, ?_, ?_, ?_⟩, ?_, ?_⟩
  · exact Nat.le_trans (hruns.count_answer_le hconsistent i) (Bool.toNat_le _)
  · rintro es₁ es₂ u bytes rfl hrun₁ hbytes
    rw [run_append, hrun₁] at hrun
    have hconsistent₁ := (run_eq_some_iff.mp hrun₁).consistent hconsistent
    exact ((run_eq_some_iff.mp hrun).keeps hconsistent₁).reply i bytes hbytes
  · exact (hruns.consistent hconsistent i).sent
  · exact (hruns.consistent hconsistent i).replied
  · intro i bytes hbytes
    rcases hruns.replied hfresh hbytes with hrefused | hentrance
    · exact .inl hrefused
    · exact .inr ⟨hentrance, hruns.answered hfresh hargs hrequest hentrance hbytes⟩
  · intro i r hresult hcode
    exact hruns.accepted hfresh hargs htable hrequest hreply hresult hcode

/-! ### Two sample calls -/

/-- The sample table has one handler only. -/
theorem find_sampleTable {service method : String} {handler : Handler Catalogue.Total}
    (h : Responder.sampleTable.find service method = .ok handler) :
    handler = ⟨0, Catalogue.echoAll (.list .any)⟩ := by
  rw [ServiceTable.find, ServiceTable.handlers?, Responder.sampleTable, List.lookup_cons] at h
  cases hservice : service == "calculator" with
  | false =>
    rw [hservice] at h
    cases h
  | true =>
    rw [hservice] at h
    dsimp only at h
    rw [List.lookup_cons] at h
    cases hmethod : method == "" with
    | false =>
      rw [hmethod] at h
      cases h
    | true =>
      rw [hmethod] at h
      exact (Except.ok.inj h).symm

/-- The method of the sample table returns its arguments. -/
theorem call_echoAll (name : String) (args : List Value) (s : Catalogue.Total) :
    ((Catalogue.echoAll (.list .any)).call name args s).1 = .returned (.list args) := by
  -- Every value is one of any type, so converting changes nothing.
  have hitems : args.mapM (fun v => (.ok v : Except Mismatch Value)) = .ok args := by
    have h := List.mapM_pure (m := Except Mismatch) (l := args) (f := id)
    rwa [List.map_id] at h
  have hdecode : (Catalogue.echoAll (.list .any)).params.decodeArguments args = .ok args := by
    show Shape.decodeArguments (.list .any) args = _
    rw [Shape.decodeArguments]
    split
    · rename_i hempty
      rw [List.isEmpty_iff.mp hempty]
      rfl
    · exact hitems
  have hencode : (Catalogue.echoAll (.list .any)).result.encode args = .ok (.list args) := by
    have hforms : List.mapM Shape.any.encode args = .ok args := by
      have h := List.mapM_pure (m := Except Unsendable) (l := args) (f := id)
      rwa [List.map_id] at h
    show (List.mapM Shape.any.encode args >>= fun vs => Except.ok (Value.list vs)) = _
    rw [hforms]
    rfl
  rw [Method.call, hdecode]
  show Outcome.ofExcept (((Catalogue.echoAll (.list .any)).result.encode args).mapError _) = _
  rw [hencode]
  rfl

/-- The sample table keeps values normal. -/
theorem keepsNormal_sampleTable : Responder.sampleTable.KeepsNormal := by
  intro q states r states' hq hdispatch
  rw [Responder.dispatch_eq] at hdispatch
  obtain ⟨hr, -⟩ := Prod.mk.inj hdispatch
  -- The method returns what it was given, and anything else has no data.
  have hdata : r.data = .null ∨ r.data = .list q.args := by
    rw [ServiceTable.call] at hr
    cases hfind : Responder.sampleTable.find q.service q.method with
    | error fault =>
      rw [hfind] at hr
      obtain rfl := Option.some.inj hr
      exact .inl rfl
    | ok handler =>
      rw [hfind, find_sampleTable hfind] at hr
      dsimp only at hr
      rw [call_echoAll] at hr
      obtain rfl := Option.some.inj hr
      exact .inr rfl
  intro v hv
  obtain rfl := List.mem_singleton.mp hv
  rcases hdata with hdata | hdata
  · rw [hdata]
    decide
  · rw [hdata]
    exact Value.normal_list.mpr hq

/-- The call of the sample request. -/
def sampleCall : Call where
  settings := .default
  service := "calculator"
  method := ""
  args := Request.sample.args

/-- Calls of the sample request that have just begun, at a server without a gate. -/
def sampleTraffic : Traffic Catalogue.Total where
  common := ⟨⟨Responder.sampleTable, Header.defaultMaximum⟩, none, fun _ => IntKind.zero .i64, 0, 7⟩
  calls _ := sampleCall

/-- The first call runs to its end, and the second one sends its request. -/
def sampleEvents : List Event :=
  (peacefully sampleCall 7 Responder.sampleResponse).map (.call 0) ++ [.call 1 .send]

/-- What the sample calls come to. -/
def sampleEnd : Traffic Catalogue.Total :=
  (sampleTraffic.put 0 (sampleCall.settled 7 Responder.sampleResponse,
    { sampleTraffic.common with
      states := sampleTraffic.common.states.set 0 (sampleTraffic.common.states 0)
      nextId := 8 })).put 1
    ({ sampleCall with id := some 8, toServer := sampleCall.requestBytes 8 },
      { sampleTraffic.common with
        states := sampleTraffic.common.states.set 0 (sampleTraffic.common.states 0)
        nextId := 9 })

/-- The run of the sample ends in the traffic written out. -/
theorem run_sampleEvents : sampleTraffic.run sampleEvents = some sampleEnd := by
  have hfirst := @run_peacefully _ sampleTraffic 0 _ _ rfl rfl (Responder.dispatch_sampleTable _)
    (Responder.fits_sample .gzip .msgPack) (Responder.nests_sample .msgPack)
    (Client.carries_sample .msgPack).response (by decide)
  rw [sampleEvents, run_append]
  refine (congrArg (Option.bind · _) hfirst).trans ?_
  rw [Option.bind_some]
  refine (run_map_call _ 1 [.send]).trans ?_
  rw [Call.run_cons (Call.step_send rfl)]
  rfl

/-- The requests of the sample are short. -/
theorem length_requestBytes_sample {i : Nat} {id : UInt64}
    (hid : (sampleEnd.calls i).id = some id) :
    (sampleCall.requestBytes id).length < 4294967296 := by
  match i, hid with
  | 0, hid =>
    obtain rfl := Option.some.inj hid
    exact (Responder.fits_sample .gzip .msgPack).length_encode_lt
  | 1, hid =>
    obtain rfl := Option.some.inj hid
    have hfits : (Message.request (sampleCall.request 8)).Fits Header.defaultMaximum .gzip
        .msgPack :=
      .of_length Request.sample_normal (by decide) (by decide +kernel)
    exact hfits.length_encode_lt
  | _ + 2, hid => cases hid

theorem length_reply_sample {i : Nat} {bytes : Octets}
    (hbytes : (sampleEnd.calls i).reply = some bytes) : bytes.length < 4294967296 := by
  match i, hbytes with
  | 0, hbytes =>
    obtain rfl := Option.some.inj hbytes
    exact (Client.carries_sample .msgPack).response.length_encode_lt
  | 1, hbytes => cases hbytes
  | _ + 2, hbytes => cases hbytes

/-- The first call has the response to its own request, and the second one has another id. -/
theorem run_isolated_sample : sampleTraffic.run sampleEvents = some sampleEnd ∧
    (sampleEnd.calls 0).id ≠ (sampleEnd.calls 1).id ∧
    (sampleEnd.calls 0).result = some (.ok (Responder.sampleResponse.withTags 0 0)) ∧
    ∃ r, Dispatches sampleTraffic sampleEnd sampleEvents 0 (sampleCall.request 7) r ∧
      Responder.sampleResponse.withTags 0 0 = sampleCall.tagged r := by
  obtain ⟨hids, -, -, hresults⟩ := run_isolated run_sampleEvents (fun _ => rfl)
    (fun _ => Request.sample_normal) keepsNormal_sampleTable (by decide)
    (fun _ _ => length_requestBytes_sample) (fun _ _ => length_reply_sample)
  refine ⟨run_sampleEvents, ?_, rfl, ?_⟩
  · intro h
    exact absurd (hids 0 1 7 rfl (h.symm.trans rfl)) (by decide)
  · obtain ⟨id, r, hid, hdispatches, -, hr⟩ := hresults 0 _ rfl (by decide)
    obtain rfl := Option.some.inj hid
    exact ⟨r, hdispatches, hr⟩

end Traffic
end WireCall
