import WireCall.Proofs.Traffic.Call

namespace WireCall

/-!
# Calls that are left in peace

When only one call makes steps, a run is a run of this call (`Traffic.run_map_call`).  A call that
is let in at once, whose bytes travel in one piece each way, and whose request and response fit,
ends with the response of the table: its request arrives (`Call.run_request`), and the reply to it
is taken (`Call.run_reply`).
-/

namespace Call

variable {σ : Type} {c c' : Call} {common common' : Common σ} {act : Act}

/-! ### Single steps -/

/-- A call not sent yet is sent under the next id. -/
theorem step_send (unsent : c.id = none) : c.step common .send =
    some ({ c with id := some common.nextId, toServer := c.requestBytes common.nextId },
      { common with nextId := common.nextId + 1 }) := by
  rw [step, send, unsent]
  dsimp only
  rw [Client.requestFrame_eq]
  rfl

/-- Without a gate a call is let in at once. -/
theorem step_enter (outside : c.entrance = .outside) (hgate : common.gate = none) :
    c.step common .enter = some (c.letIn, common) := by
  rw [step, enter, outside, hgate]

/-- All that is under way to the server may arrive at once. -/
theorem step_carry (hne : c.toServer ≠ []) : c.step common (.carry c.toServer.length) =
    some ({ c with toServer := [], atServer := c.atServer ++ [c.toServer] }, common) := by
  rw [step, carry, if_pos ⟨List.length_pos_iff.mpr hne, Nat.le_refl _⟩, List.drop_length,
    List.take_length, Option.map_some]

theorem step_bring (hne : c.toClient ≠ []) : c.step common (.bring c.toClient.length) =
    some ({ c with toClient := [], atClient := c.atClient ++ [c.toClient] }, common) := by
  rw [step, bring, if_pos ⟨List.length_pos_iff.mpr hne, Nat.le_refl _⟩, List.drop_length,
    List.take_length, Option.map_some]

/-- A stream that delivers a message need not be waited for. -/
theorem isDecided_of_delivers {maximum : UInt32} {s : Inbound} {f : Frame} {d : Compression}
    {z : Serialization} {m : Message} (h : Delivers maximum s f d z m) :
    isDecided (Frame.read maximum s) = true := by
  obtain ⟨rest, hread⟩ := Frame.read_eq_ok_iff.mpr ⟨h.sound, h.front⟩
  rw [hread]
  rfl

/-- A call whose request has arrived is answered by the responder. -/
theorem step_answer {f : Frame} {d : Compression} {z : Serialization} {q : Request}
    (admitted : c.entrance = .admitted) (unanswered : c.reply = none)
    (hasks : Asks common.responder.maximum c.atServer f d z q) : c.step common .answer =
      some (c.replyWith (common.responder.serve c.atServer common.states).1,
        { common with states := (common.responder.serve c.atServer common.states).2 }) := by
  have hdecided := isDecided_of_delivers hasks
  rw [step, answer, if_pos ⟨admitted, unanswered, hdecided⟩]

/-- A call whose reply has arrived settles on it. -/
theorem step_settle {f : Frame} {d : Compression} {z : Serialization} {m : Message} {id : UInt64}
    (sent : c.id = some id) (unsettled : c.result = none)
    (hdelivers : Delivers c.settings.maximum c.atClient f d z m) : c.step common .settle =
      some ({ c with result := some (Client.receive c.settings.maximum id c.arrival) },
        common) := by
  rw [step, settle, sent, unsettled]
  dsimp only
  rw [isDecided_of_delivers hdelivers, Bool.true_or, if_pos rfl, Option.map_some]

/-! ### Steps one after the other -/

/-- Makes several steps of one call. -/
def run : Call → Common σ → List Act → Option (Call × Common σ)
  | c, common, [] => some (c, common)
  | c, common, act :: acts => (c.step common act).bind fun next => run next.1 next.2 acts

/-- A run begins with a step and goes on from where the step leads. -/
theorem run_cons (h : c.step common act = some (c', common')) (acts : List Act) :
    c.run common (act :: acts) = c'.run common' acts := by
  rw [run, h, Option.bind_some]

/-- The call whose request has arrived at the server, and nothing more. -/
def arrived (c : Call) (id : UInt64) : Call where
  settings := c.settings
  service := c.service
  method := c.method
  args := c.args
  id := some id
  entrance := .admitted
  atServer := [c.requestBytes id]

/-- The call that has ended with a response. -/
def settled (c : Call) (id : UInt64) (r : Response) : Call :=
  { c.arrived id with
    reply := some (c.replyBytes r)
    atClient := [c.replyBytes r]
    result := some (.ok (c.tagged r)) }

/-- A request arrives in one piece. -/
theorem run_request (hfresh : c.Fresh) (hgate : common.gate = none) :
    c.run common [.send, .enter, .carry (c.requestBytes common.nextId).length] =
      some (c.arrived common.nextId, { common with nextId := common.nextId + 1 }) := by
  have hid : c.id = none := by rw [hfresh]
  have hentrance : c.entrance = .outside := by rw [hfresh]
  refine (run_cons (step_send hid) _).trans ?_
  refine (run_cons (step_enter ?_ ?_) _).trans ?_
  · exact hentrance
  · exact hgate
  refine (run_cons (step_carry (Frame.encode_ne_nil _)) _).trans ?_
  rw [hfresh]
  rfl

/-- The reply to a request that has arrived comes back in one piece and is taken. -/
theorem run_reply {id : UInt64} {r : Response} {states : Instances σ}
    (hdispatch : common.responder.table.dispatch (c.request id) common.states = (some r, states))
    (hrequest : (Message.request (c.request id)).Fits common.responder.maximum
      c.settings.compression c.settings.serialization)
    (hargs : ∀ v ∈ c.args, c.settings.serialization.Nests v)
    (hresponse : (Message.response (c.tagged r)).Fits c.settings.maximum c.settings.compression
      c.settings.serialization)
    (hdata : c.settings.serialization.Nests r.data) :
    (c.arrived id).run common [.answer, .bring (c.replyBytes r).length, .settle] =
      some (c.settled id r, { common with states }) := by
  -- What has arrived asks for the request, so the responder answers it.
  have hasks : Asks common.responder.maximum (c.arrived id).atServer
      ((Message.request (c.request id)).frame c.settings.compression c.settings.serialization)
      c.settings.compression c.settings.serialization (c.request id) :=
    .of_fits hrequest hargs (by rw [arrived, List.flatten_singleton]; exact List.prefix_rfl)
  have hserve : common.responder.serve (c.arrived id).atServer common.states =
      (c.replyBytes r, states) := Responder.serve_of_dispatch hasks hdispatch
  have hnests : ∀ v ∈ (Message.response (c.tagged r)).values, c.settings.serialization.Nests v := by
    intro v hv
    rwa [List.mem_singleton.mp hv]
  -- All of the answer is brought at once, and the client opens it.
  have hdelivers : Delivers c.settings.maximum [c.replyBytes r]
      ((Message.response (c.tagged r)).frame c.settings.compression c.settings.serialization)
      c.settings.compression c.settings.serialization (.response (c.tagged r)) :=
    .of_fits hresponse hnests (by rw [List.flatten_singleton]; exact List.prefix_rfl)
  have hid : (c.tagged r).requestId = id := Responder.requestId_of_dispatch hdispatch
  have hreceive : Client.receive c.settings.maximum id ⟨[c.replyBytes r], true⟩ =
      .ok (c.tagged r) :=
    Client.receive_eq_ok_iff.mpr ⟨⟨_, _, _, hdelivers⟩, .inl hid⟩
  rw [run_cons (step_answer rfl rfl hasks), hserve]
  refine (run_cons (step_bring (Frame.encode_ne_nil _)) _).trans ?_
  refine (run_cons (step_settle rfl rfl hdelivers) _).trans ?_
  show some ({ c.settled id r with
    result := some (Client.receive c.settings.maximum id ⟨[c.replyBytes r], true⟩) }, _) = _
  rw [hreceive]
  rfl

theorem run_append (acts acts' : List Act) : c.run common (acts ++ acts') =
    (c.run common acts).bind fun next => next.1.run next.2 acts' := by
  induction acts generalizing c common with
  | nil => rfl
  | cons act acts ih =>
    rw [List.cons_append, run, run]
    cases c.step common act with
    | none => rfl
    | some next => exact ih

end Call

namespace Traffic

variable {σ : Type} {t : Traffic σ} {i : Nat}

/-- The traffic with another state of the call `i` and of what all calls share. -/
def put (t : Traffic σ) (i : Nat) (next : Call × Common σ) : Traffic σ :=
  ⟨next.2, fun j => if j = i then next.1 else t.calls j⟩

@[simp] theorem calls_put_self (t : Traffic σ) (i : Nat) (next : Call × Common σ) :
    (t.put i next).calls i = next.1 := if_pos rfl

/-- The call put last is the one at the place. -/
theorem put_put (t : Traffic σ) (i : Nat) (next next' : Call × Common σ) :
    (t.put i next).put i next' = t.put i next' := by
  rw [put, put, put, mk.injEq]
  refine ⟨rfl, funext fun j => ?_⟩
  dsimp only
  split <;> rfl

theorem put_self (t : Traffic σ) (i : Nat) : t.put i (t.calls i, t.common) = t := by
  have hcalls : (fun j => if j = i then t.calls i else t.calls j) = t.calls := by
    funext j
    split
    · rename_i hj
      rw [hj]
    · rfl
  rw [put, hcalls]

/-- A run in which only one call makes steps is a run of this call. -/
theorem run_map_call (t : Traffic σ) (i : Nat) (acts : List Act) :
    t.run (acts.map (.call i)) = ((t.calls i).run t.common acts).map (t.put i) := by
  -- By induction on the acts: each is a step of the call at its place.
  induction acts generalizing t with
  | nil =>
    show some t = some (t.put i (t.calls i, t.common))
    rw [put_self]
  | cons act acts ih =>
    rw [List.map_cons, run, Call.run, step]
    cases (t.calls i).step t.common act with
    | none => rfl
    | some next =>
      show (t.put i next).run (acts.map (.call i)) = _
      rw [ih, calls_put_self]
      show (next.1.run next.2 acts).map _ = (next.1.run next.2 acts).map _
      congr 1
      funext next'
      exact put_put t i next next'

/-- The steps of a call that is left in peace. -/
def peacefully (c : Call) (id : UInt64) (r : Response) : List Act :=
  [.send, .enter, .carry (c.requestBytes id).length] ++
    [.answer, .bring (c.replyBytes r).length, .settle]

/-- **Completion.**  A call that is left in peace ends with the response of the table. -/
theorem run_peacefully {r : Response} {states : Instances σ}
    (hfresh : (t.calls i).Fresh) (hgate : t.common.gate = none)
    (hdispatch : t.common.responder.table.dispatch ((t.calls i).request t.common.nextId)
      t.common.states = (some r, states))
    (hrequest : (Message.request ((t.calls i).request t.common.nextId)).Fits
      t.common.responder.maximum (t.calls i).settings.compression
      (t.calls i).settings.serialization)
    (hargs : ∀ v ∈ (t.calls i).args, (t.calls i).settings.serialization.Nests v)
    (hresponse : (Message.response ((t.calls i).tagged r)).Fits (t.calls i).settings.maximum
      (t.calls i).settings.compression (t.calls i).settings.serialization)
    (hdata : (t.calls i).settings.serialization.Nests r.data) :
    t.run ((peacefully (t.calls i) t.common.nextId r).map (.call i)) =
      some (t.put i ((t.calls i).settled t.common.nextId r,
        { t.common with states, nextId := t.common.nextId + 1 })) := by
  rw [run_map_call, peacefully, Call.run_append, Call.run_request hfresh hgate, Option.bind_some]
  refine (congrArg (Option.map (t.put i)) (Call.run_reply ?_ ?_ hargs hresponse hdata)).trans rfl
  · exact hdispatch
  · exact hrequest

end Traffic
end WireCall
