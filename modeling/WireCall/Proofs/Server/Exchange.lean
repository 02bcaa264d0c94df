import WireCall.Server.Exchange
import WireCall.Service.Catalogue
import WireCall.Proofs.Frame.Delivery

namespace WireCall

/-!
# What a connection is answered

A stream either asks for something or it does not: it asks for a request if it delivers one
(`Asks`), so its first bytes are a frame that may be read, whose kind is a request, whose tags are
known, and whose body holds a request within the limit.  The server answers the first kind with one
frame and meets the second with silence.

The frame of the answer can always be made, since its tags are those of the request and have just
been found to be known.  What comes behind the first frame has no part in the outcome, and neither
has the id in its header.
-/

/-- The stream delivers the request `q` in the frame `f` under these tags: it starts with the frame,
whose header is of the current version and of a length within the limit, and whose body holds `q` in
no more bytes than the limit allows. -/
abbrev Asks (maximum : UInt32) (s : Inbound) (f : Frame) (c : Compression) (z : Serialization)
    (q : Request) : Prop := Delivers maximum s f c z (.request q)

namespace Responder

variable {σ : Type}

/-! ### Receiving -/

/-- What is received is what the stream asks for, with its tags. -/
theorem receive_eq_ok_iff {maximum : UInt32} {s : Inbound} {received : Received} :
    receive maximum s = .ok received ↔ ∃ f c z, Asks maximum s f c z received.request ∧
      received.compression = c.tag ∧ received.serialization = z.tag := by
  constructor
  · intro h
    obtain ⟨⟨f, rest⟩, hread, h⟩ := bind_eq_ok_iff.mp h
    obtain ⟨m, hmessage, h⟩ := bind_eq_ok_iff.mp h
    obtain ⟨hsound, hs⟩ := Frame.sound_of_read hread
    obtain ⟨c, z, plain, hc, hz, hinflates, hlength, hdecode⟩ :=
      Frame.message_eq_ok_iff.mp hmessage
    -- A response is no request, so only the other kind is received.
    cases m with
    | response r => cases h
    | request q =>
      obtain rfl := Except.ok.inj h
      have hkind : f.header.kind = .request := (Serialization.kind_of_decode hdecode).symm
      rw [hkind] at hdecode
      exact ⟨f, c, z, ⟨⟨rest.flatten, hs.symm⟩, hsound, hkind, hc, hz,
        plain, hinflates, hlength, hdecode⟩, hc, hz⟩
  · rintro ⟨f, c, z, hasks, hc, hz⟩
    obtain ⟨plain, hinflates, hlength, hdecode⟩ := hasks.body
    obtain ⟨rest, hread⟩ := Frame.read_eq_ok_iff.mpr ⟨hasks.sound, hasks.front⟩
    have hmessage : f.message maximum = .ok (.request received.request) := by
      refine Frame.message_eq_ok_iff.mpr ⟨c, z, plain, hasks.compression, hasks.serialization,
        hinflates, hlength, ?_⟩
      rw [hasks.kind]
      exact hdecode
    rw [receive, hread]
    show (f.message maximum >>= _) = _
    rw [hmessage]
    show Except.ok (Received.mk received.request f.header.compression f.header.serialization) = _
    rw [hasks.compression, hasks.serialization, ← hc, ← hz]

/-- A stream that asks for nothing is met with silence, and changes no instance. -/
theorem serve_of_not_asks {h : Responder σ} {s : Inbound}
    (hsilent : ∀ f c z q, ¬ Asks h.maximum s f c z q) (states : Instances σ) :
    h.serve s states = ([], states) := by
  rw [serve]
  cases hreceive : receive h.maximum s with
  | error fault => rfl
  | ok received =>
    obtain ⟨f, c, z, hasks, -⟩ := receive_eq_ok_iff.mp hreceive
    exact absurd hasks (hsilent f c z received.request)

/-- A stream that asks is served with the answer to its request, under its own tags. -/
theorem serve_of_asks {h : Responder σ} {s : Inbound} {f : Frame} {c : Compression}
    {z : Serialization} {q : Request} (hasks : Asks h.maximum s f c z q) (states : Instances σ) :
    h.serve s states = h.answer ⟨q, c.tag, z.tag⟩ states := by
  have hreceive : receive h.maximum s = .ok ⟨q, c.tag, z.tag⟩ :=
    receive_eq_ok_iff.mpr ⟨f, c, z, hasks, rfl, rfl⟩
  rw [serve, hreceive]

/-! ### Answering -/

/-- Dispatch is the call, responded to under the id of the request. -/
theorem dispatch_eq (table : ServiceTable σ) (q : Request) (states : Instances σ) :
    table.dispatch q states =
      (ServiceTable.respond q.requestId (table.call q.service q.method q.args states).1,
        (table.call q.service q.method q.args states).2) := rfl

/-- A response bears the id of the request it answers. -/
theorem requestId_of_dispatch {table : ServiceTable σ} {q : Request} {states states' : Instances σ}
    {r : Response} (h : table.dispatch q states = (some r, states')) :
    r.requestId = q.requestId := by
  rw [dispatch_eq] at h
  obtain ⟨hr, -⟩ := Prod.mk.inj h
  -- Whether the call returned or failed, the response was made under the id of the request.
  cases houtcome : (table.call q.service q.method q.args states).1 with
  | returned data =>
    rw [houtcome] at hr
    obtain rfl := Option.some.inj hr
    rfl
  | failed fault =>
    rw [houtcome] at hr
    obtain rfl := Option.some.inj hr
    rfl
  | crashed =>
    rw [houtcome] at hr
    cases hr

/-- A call that does not crash has a response. -/
theorem dispatch_of_not_crashed {table : ServiceTable σ} {q : Request} {states : Instances σ}
    (h : (table.call q.service q.method q.args states).1 ≠ .crashed) :
    ∃ r states', table.dispatch q states = (some r, states') := by
  rw [dispatch_eq]
  cases houtcome : (table.call q.service q.method q.args states).1 with
  | returned data => exact ⟨_, _, rfl⟩
  | failed fault => exact ⟨_, _, rfl⟩
  | crashed => exact absurd houtcome h

/-- A response is framed by the tags it bears. -/
theorem write_withTags (r : Response) (c : Compression) (z : Serialization) :
    write (r.withTags c.tag z.tag) =
      ((Message.response (r.withTags c.tag z.tag)).frame c z).encode := by
  have hframe : (Message.response (r.withTags c.tag z.tag)).toFrame
      (r.withTags c.tag z.tag).compression (r.withTags c.tag z.tag).serialization =
      .ok ((Message.response (r.withTags c.tag z.tag)).frame c z) :=
    Message.toFrame_tag _ c z
  rw [write, hframe]

/-- A request whose call does not crash is answered with the frame of its response. -/
theorem serve_of_dispatch {h : Responder σ} {s : Inbound} {f : Frame} {c : Compression}
    {z : Serialization} {q : Request} {states states' : Instances σ} {r : Response}
    (hasks : Asks h.maximum s f c z q) (hdispatch : h.table.dispatch q states = (some r, states')) :
    h.serve s states =
      (((Message.response (r.withTags c.tag z.tag)).frame c z).encode, states') := by
  rw [serve_of_asks hasks, answer, hdispatch]
  dsimp only
  rw [write_withTags]

/-- Streams that ask for the same are answered alike. -/
theorem serve_congr {h : Responder σ} {s s' : Inbound}
    (hiff : ∀ c z q, (∃ f, Asks h.maximum s f c z q) ↔ ∃ f, Asks h.maximum s' f c z q)
    (states : Instances σ) : h.serve s states = h.serve s' states := by
  by_cases hasks : ∃ f c z q, Asks h.maximum s f c z q
  · obtain ⟨f, c, z, q, hasks⟩ := hasks
    obtain ⟨f', hasks'⟩ := (hiff c z q).mp ⟨f, hasks⟩
    rw [serve_of_asks hasks, serve_of_asks hasks']
  · have hsilent : ∀ f c z q, ¬ Asks h.maximum s f c z q := fun f c z q hf =>
      hasks ⟨f, c, z, q, hf⟩
    have hsilent' : ∀ f c z q, ¬ Asks h.maximum s' f c z q := by
      intro f c z q hf
      obtain ⟨f', hf'⟩ := (hiff c z q).mpr ⟨f, hf⟩
      exact hsilent f' c z q hf'
    rw [serve_of_not_asks hsilent, serve_of_not_asks hsilent']

/-! ### Outcomes -/

/-- **Outcome of a connection.**  A stream that asks for a request is answered with one frame, which
holds the response to it under the tags and the id of the request; any other stream is met with
silence, and no method runs.  The outcome depends neither on what comes behind the first frame nor
on the id in its header. -/
theorem serve_answers_or_is_silent (h : Responder σ) (s : Inbound) (states : Instances σ) :
    (∀ f c z q, Asks h.maximum s f c z q →
      (h.table.call q.service q.method q.args states).1 ≠ .crashed →
      ∃ r states' answer, h.table.dispatch q states = (some r, states') ∧
        (Message.response (r.withTags c.tag z.tag)).toFrame c.tag z.tag = .ok answer ∧
        answer.header.requestId = q.requestId ∧ r.requestId = q.requestId ∧
        h.serve s states = (answer.encode, states')) ∧
    ((∀ f c z q, ¬ Asks h.maximum s f c z q) →
      ∀ table : ServiceTable σ, serve ⟨table, h.maximum⟩ s states = ([], states)) ∧
    ∀ (f : Frame) (id : UInt64) (bytes bytes' : Octets) (s' : Inbound),
      f.body.length = f.header.bodyLength → s.flatten = f.encode ++ bytes →
      s'.flatten = (Frame.mk { f.header with requestId := id } f.body).encode ++ bytes' →
      h.serve s' states = h.serve s states := by
  refine ⟨?_, ?_, ?_⟩
  · intro f c z q hasks hcalm
    obtain ⟨r, states', hdispatch⟩ := dispatch_of_not_crashed hcalm
    -- The tags were read from the request, so they are known when the response is written.
    have hid := requestId_of_dispatch hdispatch
    exact ⟨r, states', _, hdispatch, Message.toFrame_tag _ c z, hid, hid,
      serve_of_dispatch hasks hdispatch⟩
  · intro hsilent table
    exact @serve_of_not_asks _ ⟨table, h.maximum⟩ s hsilent states
  · intro f id bytes bytes' s' hlength hs hs'
    refine serve_congr (fun c z q => ⟨?_, ?_⟩) states
    · -- The frame with the other id becomes the one with the first id again.
      rintro ⟨f', hasks⟩
      exact ⟨_, hasks.congr ⟨{ f.header with requestId := id }, f.body⟩ f.header.requestId hlength
        hs' hs⟩
    · rintro ⟨f', hasks⟩
      exact ⟨_, hasks.congr f id hlength hs hs'⟩

/-! ### The sample request answered -/

/-- The table with one method, which gives its arguments back. -/
def sampleTable : ServiceTable Catalogue.Total :=
  ⟨[("calculator", [("", ⟨0, Catalogue.echoAll (.list .any)⟩)])]⟩

/-- The response to the sample request. -/
def sampleResponse : Response := .ok 7 (.list Request.sample.args)

/-- The sample table answers the sample request. -/
theorem dispatch_sampleTable (states : Instances Catalogue.Total) :
    sampleTable.dispatch .sample states = (some sampleResponse, states.set 0 (states 0)) := rfl

/-- The sample request fits. -/
theorem fits_sample (c : Compression) (z : Serialization) :
    (Message.request .sample).Fits Header.defaultMaximum c z := by
  refine .of_length Request.sample_normal Request.sample_short ?_
  cases z <;> decide +kernel

/-- The arguments of the sample request nest in either serialization. -/
theorem nests_sample (z : Serialization) : ∀ v ∈ Request.sample.args, z.Nests v := by
  cases z <;> decide

/-- The frame of the sample request. -/
def sampleFrame : Frame := (Message.request .sample).frame .gzip .protobuf

/-- A stream on which the frame arrives in two pieces, with a byte behind it. -/
def sampleStream : Inbound := [sampleFrame.encode.take 5, sampleFrame.encode.drop 5 ++ [0]]

theorem flatten_sampleStream : sampleStream.flatten = sampleFrame.encode ++ [0] := by
  rw [sampleStream, List.flatten_cons, List.flatten_singleton, ← List.append_assoc,
    List.take_append_drop]

/-- The sample stream asks the sample request. -/
theorem asks_sampleStream :
    Asks Header.defaultMaximum sampleStream sampleFrame .gzip .protobuf .sample :=
  .of_fits (fits_sample .gzip .protobuf) (nests_sample .protobuf) ⟨[0], flatten_sampleStream.symm⟩

/-- An empty stream asks for nothing. -/
theorem not_asks_nil (maximum : UInt32) (f : Frame) (c : Compression) (z : Serialization)
    (q : Request) : ¬ Asks maximum [] f c z q :=
  fun hasks => hasks.flatten_ne_nil rfl

/-- The sample request is answered; an empty stream is not; and the sample request is answered alike
with another id in its header. -/
theorem serve_answers_or_is_silent_sample :
    (∃ answer, (Message.response (sampleResponse.withTags 0 1)).toFrame 0 1 = .ok answer ∧
      serve ⟨sampleTable, Header.defaultMaximum⟩ sampleStream (fun _ => IntKind.zero .i64) =
        (answer.encode, Instances.set (fun _ => IntKind.zero .i64) 0 (IntKind.zero .i64))) ∧
    serve ⟨sampleTable, Header.defaultMaximum⟩ [] (fun _ => IntKind.zero .i64) =
      ([], fun _ => IntKind.zero .i64) ∧
    serve ⟨sampleTable, Header.defaultMaximum⟩
        [(Frame.mk { sampleFrame.header with requestId := 9 } sampleFrame.body).encode]
        (fun _ => IntKind.zero .i64) =
      serve ⟨sampleTable, Header.defaultMaximum⟩ sampleStream (fun _ => IntKind.zero .i64) := by
  have hserved := serve_answers_or_is_silent ⟨sampleTable, Header.defaultMaximum⟩ sampleStream
    (fun _ => IntKind.zero .i64)
  have hnil := serve_answers_or_is_silent ⟨sampleTable, Header.defaultMaximum⟩ []
    (fun _ => IntKind.zero .i64)
  refine ⟨?_, ?_, ?_⟩
  · obtain ⟨r, states', answer, hdispatch, hframe, -, -, hserve⟩ :=
      hserved.1 _ _ _ _ asks_sampleStream nofun
    obtain ⟨hr, rfl⟩ := Prod.mk.inj (hdispatch.symm.trans (dispatch_sampleTable _))
    obtain rfl := Option.some.inj hr
    exact ⟨answer, hframe, hserve⟩
  · exact hnil.2.1 (not_asks_nil _) sampleTable
  · exact hserved.2.2 sampleFrame 9 [0] [] _ asks_sampleStream.sound.body flatten_sampleStream
      (by rw [List.flatten_singleton, List.append_nil])

end Responder
end WireCall
