import WireCall.Proofs.Server.Exchange
import WireCall.Proofs.Service.Sendable

namespace WireCall

/-!
# Which faults are answered

`Fault.isDispatch` tells the faults that are answered from those that end the connection.  Where
there is no request to answer, this is so: whatever goes wrong before a request has been received is
no fault of a call, and is met with silence (`Responder.serve_of_fault`).

A call that has failed is always answered.  Its fault is one of a call in every case but one: the
method was run and has returned something that has no dynamic form (`Ends.classified`).  A method
whose result is of a sendable type never does so.

Main statement: a response to a failure is that to a fault of a call, unless the result of the
method cannot be sent (`dispatch_classified`).
-/

/-! ### Faults of a connection -/

namespace Frame

/-- What goes wrong in reading is no dispatch error. -/
theorem isDispatch_of_read_error {maximum : UInt32} {s : Inbound} {fault : Fault}
    (h : read maximum s = .error fault) : fault.isDispatch = false := by
  rw [read] at h
  split at h
  · obtain rfl := Except.error.inj h
    rfl
  · split at h
    · obtain rfl := Except.error.inj h
      rfl
    · split at h
      · obtain rfl := Except.error.inj h
        rfl
      · cases h

/-- What goes wrong in decoding is no dispatch error. -/
theorem isDispatch_of_message_error {f : Frame} {maximum : UInt32} {fault : Fault}
    (h : f.message maximum = .error fault) : fault.isDispatch = false := by
  by_cases hkind : f.header.kind = .request ∨ f.header.kind = .response
  · -- The tag of the compression, that of the serialization, the compression, the serialization.
    rw [message_of_body hkind, bind_eq_error_iff, mapError_eq_error_iff] at h
    rcases h with ⟨cause, -, rfl⟩ | ⟨c, -, h⟩
    · rfl
    rw [bind_eq_error_iff, mapError_eq_error_iff] at h
    rcases h with ⟨cause, -, rfl⟩ | ⟨z, -, h⟩
    · rfl
    rw [bind_eq_error_iff, mapError_eq_error_iff] at h
    rcases h with ⟨cause, -, rfl⟩ | ⟨plain, -, h⟩
    · rfl
    obtain ⟨cause, -, rfl⟩ := mapError_eq_error_iff.mp h
    rfl
  · have hprobe : f.header.kind = .ping ∨ f.header.kind = .pong := by
      cases hk : f.header.kind <;> simp [hk] at hkind ⊢
    rw [message_of_probe hprobe] at h
    obtain rfl := Except.error.inj h
    rfl

end Frame

namespace Responder

variable {σ : Type}

/-- What goes wrong before there is a request ends the connection, and is no fault of a call. -/
theorem isDispatch_of_receive_error {maximum : UInt32} {s : Inbound} {fault : Fault}
    (h : receive maximum s = .error fault) : fault.isDispatch = false := by
  rw [receive, bind_eq_error_iff] at h
  rcases h with h | ⟨⟨f, rest⟩, -, h⟩
  · exact Frame.isDispatch_of_read_error h
  rw [bind_eq_error_iff] at h
  rcases h with h | ⟨m, -, h⟩
  · exact Frame.isDispatch_of_message_error h
  cases m with
  | request q => cases h
  | response r =>
    obtain rfl := Except.error.inj h
    rfl

end Responder

/-! ### Faults of a call -/

namespace ServiceTable

variable {σ : Type} (t : ServiceTable σ) (q : Request) (states : Instances σ)

/-- The method is run, and returns something that has no dynamic form. -/
def ReturnsUnsendable (cause : Unsendable) : Prop :=
  ∃ (h : Handler σ) (a : h.method.params.Carrier) (x : h.method.result.Carrier), t.Runs q h a ∧
    (h.method.body a (states h.owner)).1 = .returned x ∧ h.method.result.encode x = .error cause

variable {t q states} {states' : Instances σ} {fault : Fault}

/-- A call fails with a fault of a call, or because its result cannot be sent. -/
theorem Ends.classified (hends : t.Ends q states (.failed fault) states') :
    fault.isDispatch = true ∨
      ∃ cause, fault = .codec (.unsendable cause) ∧ t.ReturnsUnsendable q states cause := by
  cases hends with
  | noService hservice => exact .inl rfl
  | noMethod hservice hmethod => exact .inl rfl
  | mismatch hfinds harguments => exact .inl rfl
  | refused hruns hbody => exact .inl rfl
  | unsendable hruns hbody hresult => exact .inr ⟨_, rfl, _, _, _, hruns, hbody, hresult⟩

/-- A call fails other than by a dispatch error exactly when its result cannot be sent. -/
theorem Ends.isDispatch_eq_false_iff (hends : t.Ends q states (.failed fault) states') :
    fault.isDispatch = false ↔
      ∃ cause, fault = .codec (.unsendable cause) ∧ t.ReturnsUnsendable q states cause := by
  constructor
  · intro hfault
    rcases hends.classified with hdispatch | hunsendable
    · rw [hfault] at hdispatch
      cases hdispatch
    · exact hunsendable
  · rintro ⟨cause, rfl, -⟩
    rfl

/-- A result that cannot be sent is answered like every other failure. -/
theorem ReturnsUnsendable.ends {cause : Unsendable} (h : t.ReturnsUnsendable q states cause) :
    ∃ states', t.Ends q states (.failed (.codec (.unsendable cause))) states' := by
  obtain ⟨hd, a, x, hruns, hbody, hresult⟩ := h
  exact ⟨_, .unsendable hruns hbody hresult⟩

/-- A method whose result is of a sendable type always returns something that can be sent. -/
theorem not_returnsUnsendable (hsendable : ∀ h a, t.Runs q h a → h.method.result.Sendable)
    (cause : Unsendable) : ¬ t.ReturnsUnsendable q states cause := by
  rintro ⟨hd, a, x, hruns, -, hresult⟩
  obtain ⟨v, hv⟩ := Shape.sendable_iff.mp (hsendable hd a hruns) x
  cases hresult.symm.trans hv

/-- Every other type has a value that cannot be sent. -/
theorem exists_encode_eq_error {s : Shape} (h : ¬ s.Sendable) :
    ∃ (x : s.Carrier) (cause : Unsendable), s.encode x = .error cause := by
  by_contra hnone
  refine h (Shape.sendable_iff.mpr fun x => ?_)
  cases hencode : s.encode x with
  | error cause => exact absurd ⟨x, cause, hencode⟩ hnone
  | ok v => exact ⟨v, rfl⟩

/-- **Classification.**  A response with the code of a failure tells of the fault with which the
call has ended, and this is no fault of a call exactly if the method has returned something that
cannot be sent; every such result is answered too.  If the methods that are run have results of
sendable types, all failures that are answered are faults of a call, and every other type has a
value that cannot be sent.  What is not answered, since no request was received, is never a fault of
a call. -/
theorem dispatch_classified (t : ServiceTable σ) (q : Request) (states : Instances σ) :
    (∀ r states', t.dispatch q states = (some r, states') → r.code = StatusCode.failed →
      ∃ fault, t.Ends q states (.failed fault) states' ∧ r.text = fault.message ∧
        (fault.isDispatch = false ↔ ∃ cause, fault = .codec (.unsendable cause) ∧
          t.ReturnsUnsendable q states cause)) ∧
    (∀ cause, t.ReturnsUnsendable q states cause → ∃ states', t.dispatch q states =
      (some (.failure q.requestId StatusCode.failed (Fault.codec (.unsendable cause)).message),
        states')) ∧
    ((∀ h a, t.Runs q h a → h.method.result.Sendable) →
      ∀ fault states', t.Ends q states (.failed fault) states' → fault.isDispatch = true) ∧
    (∀ s : Shape, ¬ s.Sendable →
      ∃ (x : s.Carrier) (cause : Unsendable), s.encode x = .error cause) ∧
    ∀ maximum s fault, Responder.receive maximum s = .error fault →
      fault.isDispatch = false ∧ Responder.serve ⟨t, maximum⟩ s states = ([], states) := by
  refine ⟨?_, ?_, ?_, fun _ => exists_encode_eq_error, ?_⟩
  · -- A response with the code of a failure was made of a fault.
    intro r states' hdispatch hcode
    rcases response_of_dispatch hdispatch with ⟨data, -, rfl⟩ | ⟨fault, hends, rfl⟩
    · exact absurd hcode (show (200 : Int16) ≠ 500 by decide)
    · exact ⟨fault, hends, rfl, hends.isDispatch_eq_false_iff⟩
  · intro cause hunsendable
    obtain ⟨states', hends⟩ := hunsendable.ends
    exact ⟨states', hends.dispatch_of_failed⟩
  · -- Where every result can be sent, no call fails that way.
    intro hsendable fault states' hends
    rcases hends.classified with hdispatch | ⟨cause, -, hunsendable⟩
    · exact hdispatch
    · exact absurd hunsendable (not_returnsUnsendable hsendable cause)
  · intro maximum s fault hreceive
    exact ⟨Responder.isDispatch_of_receive_error hreceive,
      Responder.serve_of_receive_error (h := ⟨t, maximum⟩) hreceive states⟩

/-! ### A result without a form -/

/-- Returns a mapping that is keyed by integers, with the entry that it is given. -/
def entryMethod : Catalogue.TotalMethod :=
  .stateless (.two Catalogue.integer Catalogue.integer)
    (.mapping Catalogue.integer Catalogue.integer)
    fun ((k, a, _) : Catalogue.Total × Catalogue.Total × Unit) =>
      .returned ([(k, a)] : List (Catalogue.Total × Catalogue.Total))

/-- A service with a method that returns a mapping whose key is a pair, and one that returns a
mapping whose key is an integer. -/
def keyedTable : ServiceTable Catalogue.Total :=
  ⟨[("keyed", [("entry", ⟨0, entryMethod⟩), ("pairs", ⟨0, Catalogue.pairKey⟩)])]⟩

/-- Asks for the mapping. -/
def askPairs : Request := ⟨7, "keyed", "pairs", []⟩

/-- The sample method returns a mapping whose keys are no texts. -/
theorem returnsUnsendable_askPairs (states : Instances Catalogue.Total) :
    keyedTable.ReturnsUnsendable askPairs states .keyNotText :=
  ⟨⟨0, Catalogue.pairKey⟩, (), _, ⟨⟨_, rfl, rfl⟩, rfl⟩, rfl, rfl⟩

/-- The pair as a key cannot be sent and is answered, an entry without its parts is a fault of a
call, as is every failure of a method that returns a mapping from integers, and an empty stream is
met with silence. -/
theorem dispatch_classified_sample :
    let zeros : Instances Catalogue.Total := fun _ => IntKind.zero .i64
    (∃ states', keyedTable.dispatch askPairs zeros = (some (.failure 7 StatusCode.failed
      (Fault.codec (.unsendable .keyNotText)).message), states')) ∧
    (∃ fault, keyedTable.Ends ⟨8, "keyed", "entry", []⟩ zeros (.failed fault) zeros ∧
      fault.isDispatch = true) ∧
    Responder.serve ⟨keyedTable, Header.defaultMaximum⟩ [] zeros = ([], zeros) := by
  intro zeros
  obtain ⟨-, hunsendable, -, -, hsilent⟩ := dispatch_classified keyedTable askPairs zeros
  refine ⟨hunsendable _ (returnsUnsendable_askPairs zeros), ?_, ?_⟩
  · obtain ⟨-, -, hdispatch, -⟩ := dispatch_classified keyedTable ⟨8, "keyed", "entry", []⟩ zeros
    have hends : keyedTable.Ends ⟨8, "keyed", "entry", []⟩ zeros _ zeros :=
      .mismatch (h := ⟨0, entryMethod⟩) ⟨_, rfl, rfl⟩ rfl
    refine ⟨_, hends, hdispatch (fun h a hruns => ?_) _ _ hends⟩
    obtain ⟨handlers, hservice, hmethod⟩ := hruns.finds
    obtain rfl := Option.some.inj hservice
    obtain rfl : ⟨0, entryMethod⟩ = h := Option.some.inj hmethod
    exact ⟨.int, nofun, nofun⟩
  · exact (hsilent Header.defaultMaximum [] _ rfl).2

/-- The call has failed with a fault that is none of a call, and still it is answered. -/
theorem dispatch_answers_unsendable :
    let zeros : Instances Catalogue.Total := fun _ => IntKind.zero .i64
    ∃ (fault : Fault) (r : Response) (states' : Instances Catalogue.Total),
      keyedTable.call "keyed" "pairs" [] zeros = (.failed fault, states') ∧
      fault.isDispatch = false ∧ keyedTable.dispatch askPairs zeros = (some r, states') ∧
      r.code = StatusCode.failed := by
  intro zeros
  obtain ⟨states', hends⟩ := (returnsUnsendable_askPairs zeros).ends
  exact ⟨_, _, states', hends.call, rfl, hends.dispatch_of_failed, rfl⟩

end ServiceTable
end WireCall
