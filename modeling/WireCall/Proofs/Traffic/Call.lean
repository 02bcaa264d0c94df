import WireCall.Traffic
import WireCall.Proofs.Client.Acceptance

namespace WireCall

/-!
# The steps of a call

`Call.Moves` lists what a step of a call can do to the call and to what all calls share, and
`Call.moves_of_step` says that there is nothing else.  From the list follows what is true of a call
all along (`Call.Consistent`): the bytes of its request are on their way or have arrived, in order
and once; so are the bytes of its reply, which is written once; a refused connection has got the
refusal; and a response that the client has taken was among the bytes of the reply.
-/

/-- Nothing has been decided about the connection. -/
def Entrance.Pending : Entrance → Prop
  | outside | waiting _ => True
  | admitted | refused _ => False

theorem Entrance.not_pending_admitted : ¬ admitted.Pending := fun h => h

theorem Entrance.not_pending_refused (cause : RateFault) : ¬ (refused cause).Pending := fun h => h

namespace Call

variable {σ : Type} {start c c' : Call} {common common' : Common σ} {act : Act}

/-- The request of the call under an id. -/
def request (c : Call) (id : UInt64) : Request := ⟨id, c.service, c.method, c.args⟩

/-- What the client writes for the request under an id. -/
def requestBytes (c : Call) (id : UInt64) : Octets := c.settings.requestBytes (c.request id)

/-- The response under the tags of the call. -/
def tagged (c : Call) (r : Response) : Response :=
  r.withTags c.settings.compression.tag c.settings.serialization.tag

/-- What the server writes for a response under the tags of the call. -/
def replyBytes (c : Call) (r : Response) : Octets :=
  ((Message.response (c.tagged r)).frame c.settings.compression c.settings.serialization).encode

/-! ### What a step can do -/

/-- The effect of a step on the call and on what all calls share. -/
inductive Moves (c : Call) (common : Common σ) : Act → Call → Common σ → Prop where
  | send (unsent : c.id = none) : Moves c common .send
      { c with id := some common.nextId, toServer := c.requestBytes common.nextId }
      { common with nextId := common.nextId + 1 }
  | letIn (gate : Option Gate) (pending : c.entrance.Pending) :
      Moves c common .enter c.letIn { common with gate }
  | wait (pending : c.entrance.Pending) :
      Moves c common .enter { c with entrance := .waiting common.clock } common
  | refuse (cause : RateFault) (pending : c.entrance.Pending) :
      Moves c common .enter (c.refuse cause) common
  | turnAway (cause : RateFault) (pending : c.entrance.Pending) :
      Moves c common .turnAway (c.refuse cause) common
  | carry (bytes rest : Octets) (split : c.toServer = bytes ++ rest) :
      Moves c common (.carry bytes.length)
        { c with toServer := rest, atServer := c.atServer ++ [bytes] } common
  | answer (admitted : c.entrance = .admitted) (unanswered : c.reply = none) :
      Moves c common .answer
        (c.replyWith (common.responder.serve c.atServer common.states).1)
        { common with states := (common.responder.serve c.atServer common.states).2 }
  | bring (bytes rest : Octets) (split : c.toClient = bytes ++ rest) :
      Moves c common (.bring bytes.length)
        { c with toClient := rest, atClient := c.atClient ++ [bytes] } common
  | settle (id : UInt64) (sent : c.id = some id) (unsettled : c.result = none) :
      Moves c common .settle
        { c with result := some (Client.receive c.settings.maximum id c.arrival) } common
  | abandon (unsettled : c.result = none) :
      Moves c common .abandon { c with result := some (.error .cancelled) } common

/-- Sending is one of the moves. -/
theorem moves_of_send (h : c.send common = some (c', common')) :
    Moves c common .send c' common' := by
  rw [send] at h
  split at h
  · cases h
  · rename_i hid
    dsimp only at h
    rw [Client.requestFrame_eq] at h
    obtain ⟨rfl, rfl⟩ := Prod.mk.inj (Option.some.inj h)
    exact .send (by simpa using hid)

theorem moves_of_enter (h : c.enter common = some (c', common')) :
    Moves c common .enter c' common' := by
  rw [enter] at h
  split at h
  · -- Without a gate everybody is let in.
    rename_i hentrance hgate
    obtain ⟨rfl, rfl⟩ := Prod.mk.inj (Option.some.inj h)
    have hmoves : Moves c common .enter c.letIn { common with gate := none } :=
      .letIn none (by rw [hentrance]; trivial)
    rwa [← hgate] at hmoves
  · -- At a gate the token decides, and without one the patience.
    rename_i gate hentrance hgate
    have hpending : c.entrance.Pending := by rw [hentrance]; trivial
    split at h
    · obtain ⟨rfl, rfl⟩ := Prod.mk.inj (Option.some.inj h)
      exact .letIn _ hpending
    · split at h
      · obtain ⟨rfl, rfl⟩ := Prod.mk.inj (Option.some.inj h)
        exact .refuse _ hpending
      · obtain ⟨rfl, rfl⟩ := Prod.mk.inj (Option.some.inj h)
        exact .wait hpending
  · rename_i since gate hentrance hgate
    split at h
    · split at h
      · obtain ⟨rfl, rfl⟩ := Prod.mk.inj (Option.some.inj h)
        exact .letIn _ (by rw [hentrance]; trivial)
      · cases h
    · cases h
  · cases h

theorem moves_of_turnAway (h : c.turnAway common = some c') :
    Moves c common .turnAway c' common := by
  rw [turnAway] at h
  split at h
  · rename_i hentrance hgate
    dsimp only at h
    split at h
    · obtain rfl := Option.some.inj h
      exact .turnAway _ (by rw [hentrance]; trivial)
    · cases h
  · cases h

theorem moves_of_carry {count : Nat} (h : c.carry count = some c') :
    Moves c common (.carry count) c' common := by
  rw [carry] at h
  split at h
  · rename_i hcount
    obtain rfl := Option.some.inj h
    have hmoves : Moves c common (.carry (c.toServer.take count).length) _ common :=
      .carry (c.toServer.take count) (c.toServer.drop count) (List.take_append_drop count _).symm
    rwa [List.length_take_of_le hcount.2] at hmoves
  · cases h

theorem moves_of_bring {count : Nat} (h : c.bring count = some c') :
    Moves c common (.bring count) c' common := by
  rw [bring] at h
  split at h
  · rename_i hcount
    obtain rfl := Option.some.inj h
    have hmoves : Moves c common (.bring (c.toClient.take count).length) _ common :=
      .bring (c.toClient.take count) (c.toClient.drop count) (List.take_append_drop count _).symm
    rwa [List.length_take_of_le hcount.2] at hmoves
  · cases h

theorem moves_of_answer (h : c.answer common = some (c', common')) :
    Moves c common .answer c' common' := by
  rw [answer] at h
  split at h
  · rename_i hguard
    obtain ⟨rfl, rfl⟩ := Prod.mk.inj (Option.some.inj h)
    exact .answer hguard.1 hguard.2.1
  · cases h

theorem moves_of_settle (h : c.settle = some c') : Moves c common .settle c' common := by
  rw [settle] at h
  split at h
  · rename_i id hid hresult
    split at h
    · obtain rfl := Option.some.inj h
      exact .settle id hid hresult
    · cases h
  · cases h

theorem moves_of_abandon (h : c.abandon = some c') : Moves c common .abandon c' common := by
  rw [abandon] at h
  split at h
  · rename_i id hid hresult
    obtain rfl := Option.some.inj h
    exact .abandon hresult
  · cases h

/-- Every step is one of these. -/
theorem moves_of_step (h : c.step common act = some (c', common')) :
    Moves c common act c' common' := by
  have hmap : ∀ {x : Option Call}, x.map (·, common) = some (c', common') →
      x = some c' ∧ common = common' := by
    intro x hx
    obtain ⟨a, ha, hpair⟩ := Option.map_eq_some_iff.mp hx
    obtain ⟨rfl, rfl⟩ := Prod.mk.inj hpair
    exact ⟨ha, rfl⟩
  -- By cases on the step; most of them leave what is common to all calls alone.
  cases act with
  | send => exact moves_of_send h
  | enter => exact moves_of_enter h
  | answer => exact moves_of_answer h
  | turnAway =>
    obtain ⟨hnext, rfl⟩ := hmap h
    exact moves_of_turnAway hnext
  | carry count =>
    obtain ⟨hnext, rfl⟩ := hmap h
    exact moves_of_carry hnext
  | bring count =>
    obtain ⟨hnext, rfl⟩ := hmap h
    exact moves_of_bring hnext
  | settle =>
    obtain ⟨hnext, rfl⟩ := hmap h
    exact moves_of_settle hnext
  | abandon =>
    obtain ⟨hnext, rfl⟩ := hmap h
    exact moves_of_abandon hnext

/-! ### What steps keep -/

/-- Nothing has happened to the call yet. -/
def Fresh (c : Call) : Prop :=
  c = { settings := c.settings, service := c.service, method := c.method, args := c.args }

/-- What is true all along of a call that began as `start`. -/
structure Consistent (start c : Call) : Prop where
  settings : c.settings = start.settings
  request : c.request = start.request
  sent : c.atServer.flatten ++ c.toServer = c.id.elim [] start.requestBytes
  replied : c.atClient.flatten ++ c.toClient = c.reply.getD []
  pending : c.entrance.Pending → c.reply = none
  refused : ∀ cause, c.entrance = .refused cause → c.reply = some (Responder.refuse cause)
  accepted : ∀ r, c.result = some (.ok r) → ∃ id s, c.id = some id ∧
    s.flatten <+: c.reply.getD [] ∧ Answers start.settings.maximum id s r

/-- A fresh call is consistent with itself. -/
theorem Fresh.consistent (h : c.Fresh) : Consistent c c := by
  obtain ⟨settings, service, method, args, id, toServer, atServer, entrance, reply, toClient,
    atClient, result⟩ := c
  cases h
  exact ⟨rfl, rfl, rfl, rfl, fun _ => rfl, nofun, nofun⟩

/-- A call keeps to the request it started with. -/
theorem Consistent.requestBytes_eq (h : Consistent start c) :
    c.requestBytes = start.requestBytes := by
  funext id
  rw [requestBytes, requestBytes, h.settings, h.request]

/-- Nothing has been sent to a client that nothing was written for. -/
theorem Consistent.atClient_eq_nil (h : Consistent start c) (hreply : c.reply = none) :
    c.atClient.flatten = [] ∧ c.toClient = [] := by
  have hreplied := h.replied
  rw [hreply] at hreplied
  exact List.append_eq_nil_iff.mp hreplied

/-- Writing a reply keeps a call consistent for which nothing was written. -/
theorem Consistent.replyWith (h : Consistent start c) (hreply : c.reply = none) (bytes : Octets)
    (entrance : Entrance) (hpending : ¬ entrance.Pending)
    (hrefused : ∀ cause, entrance = .refused cause → bytes = Responder.refuse cause) :
    Consistent start { c.replyWith bytes with entrance } where
  settings := h.settings
  request := h.request
  sent := h.sent
  replied := by
    show c.atClient.flatten ++ bytes = bytes
    rw [(h.atClient_eq_nil hreply).1, List.nil_append]
  pending := fun hentrance => absurd hentrance hpending
  refused := fun cause hentrance => congrArg some (hrefused cause hentrance)
  accepted := by
    intro r hr
    obtain ⟨id, s, hid, hfront, hanswers⟩ := h.accepted r hr
    rw [hreply] at hfront
    exact ⟨id, s, hid, hfront.trans List.nil_prefix, hanswers⟩

/-- A step keeps what is true of the call. -/
theorem Consistent.moves (h : Consistent start c) (hmoves : Moves c common act c' common') :
    Consistent start c' := by
  -- By cases on the move: bytes only pass from one side to the other, and a reply is written once.
  cases hmoves with
  | send unsent =>
    have hsent := h.sent
    rw [unsent] at hsent
    refine ⟨h.settings, h.request, ?_, h.replied, h.pending, h.refused, ?_⟩
    · show c.atServer.flatten ++ c.requestBytes common.nextId = start.requestBytes common.nextId
      rw [(List.append_eq_nil_iff.mp hsent).1, h.requestBytes_eq, List.nil_append]
    · intro r hr
      obtain ⟨id, s, hid, -⟩ := h.accepted r hr
      rw [unsent] at hid
      cases hid
  | letIn gate pending =>
    exact ⟨h.settings, h.request, h.sent, h.replied, fun _ => h.pending pending, nofun, h.accepted⟩
  | wait pending =>
    exact ⟨h.settings, h.request, h.sent, h.replied, fun _ => h.pending pending, nofun, h.accepted⟩
  | refuse cause pending =>
    refine h.replyWith (h.pending pending) _ _ (Entrance.not_pending_refused cause) ?_
    intro cause' hcause
    rw [Entrance.refused.inj hcause]
  | turnAway cause pending =>
    refine h.replyWith (h.pending pending) _ _ (Entrance.not_pending_refused cause) ?_
    intro cause' hcause
    rw [Entrance.refused.inj hcause]
  | carry bytes rest split =>
    refine ⟨h.settings, h.request, ?_, h.replied, h.pending, h.refused, h.accepted⟩
    have hsent := h.sent
    rw [split] at hsent
    show (c.atServer ++ [bytes]).flatten ++ rest = _
    rw [List.flatten_append, List.flatten_singleton, List.append_assoc]
    exact hsent
  | answer admitted unanswered =>
    have hpending : ¬ c.entrance.Pending := by
      rw [admitted]
      exact Entrance.not_pending_admitted
    exact h.replyWith unanswered _ c.entrance hpending (by rw [admitted]; nofun)
  | bring bytes rest split =>
    refine ⟨h.settings, h.request, h.sent, ?_, h.pending, h.refused, h.accepted⟩
    have hreplied := h.replied
    rw [split] at hreplied
    show (c.atClient ++ [bytes]).flatten ++ rest = _
    rw [List.flatten_append, List.flatten_singleton, List.append_assoc]
    exact hreplied
  | settle id sent unsettled =>
    refine ⟨h.settings, h.request, h.sent, h.replied, h.pending, h.refused, ?_⟩
    intro r hr
    have hreceive : Client.receive c.settings.maximum id c.arrival = .ok r := Option.some.inj hr
    rw [Client.receive_eq_ok_iff, h.settings] at hreceive
    exact ⟨id, c.atClient, sent, ⟨c.toClient, h.replied⟩, hreceive⟩
  | abandon unsettled =>
    exact ⟨h.settings, h.request, h.sent, h.replied, h.pending, h.refused, nofun⟩

/-- An id is drawn by sending, and by nothing else. -/
theorem Moves.draws (hmoves : Moves c common act c' common') :
    (act = .send ∧ c.id = none ∧ c'.id = some common.nextId ∧
      common'.nextId = common.nextId + 1) ∨
    (act ≠ .send ∧ c'.id = c.id ∧ common'.nextId = common.nextId) := by
  cases hmoves with
  | send unsent => exact .inl ⟨rfl, unsent, rfl, rfl⟩
  | letIn | wait | refuse | turnAway | carry | answer | bring | settle | abandon =>
    exact .inr ⟨nofun, rfl, rfl⟩

/-- An id is kept. -/
theorem Moves.id_eq (hmoves : Moves c common act c' common') {id : UInt64} (hid : c.id = some id) :
    c'.id = some id := by
  rcases hmoves.draws with ⟨-, hunsent, -⟩ | ⟨-, hkept, -⟩
  · rw [hunsent] at hid
    cases hid
  · rw [hkept, hid]

/-- A reply is kept. -/
theorem Moves.reply_eq (hmoves : Moves c common act c' common') (h : Consistent start c)
    {bytes : Octets} (hreply : c.reply = some bytes) : c'.reply = some bytes := by
  cases hmoves with
  | refuse cause pending =>
    rw [h.pending pending] at hreply
    cases hreply
  | turnAway cause pending =>
    rw [h.pending pending] at hreply
    cases hreply
  | answer admitted unanswered =>
    rw [unanswered] at hreply
    cases hreply
  | send | letIn | wait | carry | bring | settle | abandon => exact hreply

/-- An admitted connection gets a reply by being answered, and by nothing else. -/
theorem Moves.answered (hmoves : Moves c common act c' common') (h : Consistent start c)
    {bytes : Octets} (hentrance : c'.entrance = .admitted) (hreply : c'.reply = some bytes) :
    act = .answer ∨ c.entrance = .admitted ∧ c.reply = some bytes := by
  cases hmoves with
  | answer admitted unanswered => exact .inl rfl
  | letIn gate pending =>
    have hreply : c.reply = some bytes := hreply
    rw [h.pending pending] at hreply
    cases hreply
  | wait pending => cases hentrance
  | refuse cause pending => cases hentrance
  | turnAway cause pending => cases hentrance
  | send | carry | bring | settle | abandon => exact .inr ⟨hentrance, hreply⟩

/-- What answering does. -/
theorem Moves.of_answer (hmoves : Moves c common .answer c' common') :
    c.reply = none ∧
      c'.reply = some (common.responder.serve c.atServer common.states).1 ∧
      common'.states = (common.responder.serve c.atServer common.states).2 := by
  cases hmoves with
  | answer admitted unanswered => exact ⟨unanswered, rfl, rfl⟩

/-- No move touches the responder. -/
theorem Moves.responder_eq (hmoves : Moves c common act c' common') :
    common'.responder = common.responder := by
  cases hmoves <;> rfl

/-! ### What is answered and what is accepted -/

/-- On the connection of a call the server sees the request of this call or nothing: it answers with
the response to the request, or it is silent. -/
theorem Consistent.serve (h : Consistent start c) (responder : Responder σ) (states : Instances σ)
    (hnormal : ∀ id, (Message.request (start.request id)).Normal)
    (hlength : ∀ id, c.id = some id → (start.requestBytes id).length < 4294967296) :
    (responder.serve c.atServer states).1 = [] ∨ ∃ id r states', c.id = some id ∧
      responder.table.dispatch (start.request id) states = (some r, states') ∧
      responder.serve c.atServer states = (start.replyBytes r, states') := by
  by_cases hasks : ∃ f d z q, Asks responder.maximum c.atServer f d z q
  · obtain ⟨f, d, z, q, hasks⟩ := hasks
    have hsent := h.sent
    cases hid : c.id with
    | none =>
      rw [hid] at hsent
      exact absurd (List.append_eq_nil_iff.mp hsent).1 hasks.flatten_ne_nil
    | some id =>
      rw [hid] at hsent
      -- What has arrived is the beginning of the frame of the request.
      obtain ⟨-, rfl, rfl, hq⟩ :=
        hasks.eq_of_frame (hnormal id) (hlength id hid) ⟨c.toServer, hsent⟩
      obtain rfl := Message.request.inj hq
      cases hdispatch : responder.table.dispatch (start.request id) states with
      | mk outcome states' =>
        cases outcome with
        | none =>
          left
          rw [Responder.serve_of_asks hasks, Responder.answer, hdispatch]
        | some r =>
          exact .inr ⟨id, r, states', rfl, hdispatch, Responder.serve_of_dispatch hasks hdispatch⟩
  · left
    rw [Responder.serve_of_not_asks fun f d z q hasks' => hasks ⟨f, d, z, q, hasks'⟩]

/-- What the client has accepted is the response in the frame that was written for it. -/
theorem Consistent.eq_of_accepted (h : Consistent start c) {r r' : Response} {d : Compression}
    {z : Serialization} (hresult : c.result = some (.ok r))
    (hreply : c.reply = some ((Message.response r').frame d z).encode)
    (hnormal : (Message.response r').Normal)
    (hlength : ((Message.response r').frame d z).encode.length < 4294967296) : r = r' := by
  obtain ⟨id, s, -, hfront, ⟨f, d', z', hdelivers⟩, -⟩ := h.accepted r hresult
  rw [hreply] at hfront
  obtain ⟨-, -, -, hr⟩ := hdelivers.eq_of_frame hnormal hlength hfront
  exact Message.response.inj hr

/-- Something must have been written for a client that has accepted a response. -/
theorem Consistent.reply_of_accepted (h : Consistent start c) {r : Response}
    (hresult : c.result = some (.ok r)) : ∃ bytes, c.reply = some bytes ∧ bytes ≠ [] := by
  obtain ⟨id, s, -, hfront, ⟨f, d, z, hdelivers⟩, -⟩ := h.accepted r hresult
  cases hreply : c.reply with
  | none =>
    rw [hreply] at hfront
    exact absurd (List.prefix_nil.mp hfront) hdelivers.flatten_ne_nil
  | some bytes =>
    rw [hreply] at hfront
    refine ⟨bytes, rfl, ?_⟩
    rintro rfl
    exact hdelivers.flatten_ne_nil (List.prefix_nil.mp hfront)

end Call
end WireCall
