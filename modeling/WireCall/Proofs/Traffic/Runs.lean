import WireCall.Proofs.Traffic.Call

namespace WireCall

/-!
# Runs

In a run the steps of many calls follow one another in any order.  What is true of each call all
along is true of it in the run, since the steps of the others leave it alone (`Runs.consistent`).
What was drawn or written stays (`Runs.keeps`).  The ids come from one counter, so the call that has
sent its request as the `k`-th one has the `k`-th id (`Runs.ids`), and no two calls have the same
one before the counter comes round (`Runs.id_injective`).
-/

namespace Traffic

variable {σ : Type} {t t' u u' : Traffic σ} {start : Nat → Call} {es : List Event} {e : Event}
  {i : Nat} {act : Act}

/-! ### Steps and runs -/

/-- A step of a call is a move of it. -/
theorem moves_of_step (h : t.step (.call i act) = some t') :
    Call.Moves (t.calls i) t.common act (t'.calls i) t'.common := by
  obtain ⟨next, hnext, rfl⟩ := Option.map_eq_some_iff.mp h
  dsimp only
  rw [if_pos rfl]
  exact Call.moves_of_step hnext

/-- A run that is taken apart from its end. -/
inductive Runs (t : Traffic σ) : List Event → Traffic σ → Prop where
  | nil : Runs t [] t
  | snoc {es : List Event} {e : Event} {u u' : Traffic σ} (runs : Runs t es u)
      (step : u.step e = some u') : Runs t (es ++ [e]) u'

/-- A run begins with a step and goes on from where the step leads. -/
theorem Runs.cons (hstep : t.step e = some u) (hruns : Runs u es t') : Runs t (e :: es) t' := by
  induction hruns with
  | nil => exact .snoc .nil hstep
  | snoc hruns hlast ih => exact ih.snoc hlast

/-- The runs are those of the recursion. -/
theorem run_eq_some_iff : t.run es = some t' ↔ Runs t es t' := by
  constructor
  · intro h
    induction es generalizing t with
    | nil =>
      obtain rfl := Option.some.inj h
      exact .nil
    | cons e es ih =>
      obtain ⟨u, hstep, hrest⟩ := Option.bind_eq_some_iff.mp h
      exact .cons hstep (ih hrest)
  · intro h
    induction h with
    | nil => rfl
    | snoc hruns hstep ih => simp [run_append, ih, run, hstep]

/-! ### What runs keep -/

/-- The steps of the other calls, and the time that passes, leave a call alone. -/
theorem step_consistent (hconsistent : ∀ i, (start i).Consistent (u.calls i))
    (hstep : u.step e = some u') (i : Nat) : (start i).Consistent (u'.calls i) := by
  cases e with
  | pass nanos =>
    obtain rfl := Option.some.inj hstep
    exact hconsistent i
  | call j act =>
    by_cases hij : i = j
    · subst hij
      exact (hconsistent i).moves (moves_of_step hstep)
    · rw [calls_step_of_ne hstep hij]
      exact hconsistent i

/-- A run keeps every call consistent with its start. -/
theorem Runs.consistent (h : Runs u es u') (hconsistent : ∀ i, (start i).Consistent (u.calls i))
    (i : Nat) : (start i).Consistent (u'.calls i) := by
  induction h generalizing i with
  | nil => exact hconsistent i
  | snoc hruns hstep ih => exact step_consistent ih hstep i

/-- Later on, the ids that were drawn and the replies that were written are still there, and the
server is the same. -/
structure Keeps (u u' : Traffic σ) : Prop where
  id : ∀ i id, (u.calls i).id = some id → (u'.calls i).id = some id
  reply : ∀ i bytes, (u.calls i).reply = some bytes → (u'.calls i).reply = some bytes
  responder : u'.common.responder = u.common.responder

theorem Keeps.refl (u : Traffic σ) : Keeps u u := ⟨fun _ _ h => h, fun _ _ h => h, rfl⟩

/-- What two stretches keep is kept by both together. -/
theorem Keeps.trans {v : Traffic σ} (h : Keeps t u) (h' : Keeps u v) : Keeps t v where
  id i id hid := h'.id i id (h.id i id hid)
  reply i bytes hreply := h'.reply i bytes (h.reply i bytes hreply)
  responder := h'.responder.trans h.responder

/-- A step keeps all that was fixed. -/
theorem step_keeps (hconsistent : ∀ i, (start i).Consistent (u.calls i))
    (hstep : u.step e = some u') : Keeps u u' := by
  cases e with
  | pass nanos =>
    obtain rfl := Option.some.inj hstep
    exact ⟨fun _ _ h => h, fun _ _ h => h, rfl⟩
  | call j act =>
    have hmoves := moves_of_step hstep
    refine ⟨?_, ?_, hmoves.responder_eq⟩
    · -- The call that moves keeps its own, and the others do not move.
      intro i id hid
      by_cases hij : i = j
      · subst hij
        exact hmoves.id_eq hid
      · rwa [calls_step_of_ne hstep hij]
    · intro i bytes hreply
      by_cases hij : i = j
      · subst hij
        exact hmoves.reply_eq (hconsistent i) hreply
      · rwa [calls_step_of_ne hstep hij]

theorem Runs.keeps (h : Runs u es u') (hconsistent : ∀ i, (start i).Consistent (u.calls i)) :
    Keeps u u' := by
  induction h with
  | nil => exact .refl u
  | snoc hruns hstep ih => exact ih.trans (step_keeps (hruns.consistent hconsistent) hstep)

/-! ### Ids -/

/-- The call that an event makes send its request. -/
def Event.sender? : Event → Option Nat
  | call i .send => some i
  | _ => none

/-- The calls that have sent their requests, in order. -/
def senders (es : List Event) : List Nat := es.filterMap Event.sender?

/-- The last event is the last to send, if it sends. -/
theorem senders_append_singleton (es : List Event) (e : Event) :
    senders (es ++ [e]) = senders es ++ e.sender?.toList := by
  rw [senders, List.filterMap_append]
  cases h : e.sender? <;> simp [senders, h]

theorem sender?_of_ne (h : act ≠ .send) : (Event.call i act).sender? = none := by
  cases act with
  | send => exact absurd rfl h
  | enter | turnAway | carry | answer | bring | settle | abandon => rfl

/-- The `k`-th call to send its request has the `k`-th id. -/
theorem Runs.ids (h : Runs t es t') (hfresh : ∀ i, (t.calls i).Fresh) :
    t'.common.nextId = t.common.nextId + .ofNat (senders es).length ∧
      ∀ i id, (t'.calls i).id = some id → ∃ k : Nat, (senders es)[k]? = some i ∧
        id = t.common.nextId + .ofNat k := by
  induction h with
  | nil =>
    refine ⟨(id_add_zero _).symm, ?_⟩
    intro i id hid
    rw [hfresh i] at hid
    cases hid
  | @snoc es e u u' hruns hstep ih =>
    obtain ⟨hnext, hids⟩ := ih
    rw [senders_append_singleton]
    -- What has been drawn before keeps its place.
    have hearlier : ∀ i id, (u.calls i).id = some id → ∃ k : Nat,
        (senders es ++ e.sender?.toList)[k]? = some i ∧ id = t.common.nextId + .ofNat k := by
      intro i id hid
      obtain ⟨k, hk, hid⟩ := hids i id hid
      refine ⟨k, ?_, hid⟩
      rw [List.getElem?_append_left (List.getElem?_eq_some_iff.mp hk).1, hk]
    cases e with
    | pass nanos =>
      obtain rfl := Option.some.inj hstep
      refine ⟨?_, hearlier⟩
      have hnone : (Event.pass nanos).sender? = none := rfl
      rw [hnone, Option.toList_none, List.append_nil]
      exact hnext
    | call j act =>
      rcases (moves_of_step hstep).draws with ⟨rfl, -, hdrawn, hnext'⟩ | ⟨hact, hkept, hnext'⟩
      · rw [Event.sender?, Option.toList_some] at hearlier ⊢
        constructor
        · rw [hnext', hnext, List.length_append, List.length_singleton, ← id_add_add]
          rfl
        · intro i id hid
          by_cases hij : i = j
          · subst hij
            refine ⟨(senders es).length, List.getElem?_concat_length, ?_⟩
            rw [← hnext]
            exact Option.some.inj (hid.symm.trans hdrawn)
          · rw [calls_step_of_ne hstep hij] at hid
            exact hearlier i id hid
      · rw [sender?_of_ne hact, Option.toList_none, List.append_nil] at hearlier ⊢
        refine ⟨hnext'.trans hnext, ?_⟩
        intro i id hid
        by_cases hij : i = j
        · subst hij
          rw [hkept] at hid
          exact hearlier i id hid
        · rw [calls_step_of_ne hstep hij] at hid
          exact hearlier i id hid

/-- As long as the counter does not come round, no two calls have the same id. -/
theorem Runs.id_injective (h : Runs t es t') (hfresh : ∀ i, (t.calls i).Fresh)
    (hcount : (senders es).length < 18446744073709551616) {i j : Nat} {id : UInt64}
    (hi : (t'.calls i).id = some id) (hj : (t'.calls j).id = some id) : i = j := by
  obtain ⟨k, hk, hid⟩ := (h.ids hfresh).2 i id hi
  obtain ⟨l, hl, hid'⟩ := (h.ids hfresh).2 j id hj
  have hkl := congrArg UInt64.toNat ((UInt64.add_right_inj _).mp (hid.symm.trans hid'))
  have hkbound := (List.getElem?_eq_some_iff.mp hk).1
  have hlbound := (List.getElem?_eq_some_iff.mp hl).1
  rw [UInt64.toNat_ofNat', UInt64.toNat_ofNat', Nat.mod_eq_of_lt (by omega),
    Nat.mod_eq_of_lt (by omega)] at hkl
  subst hkl
  exact Option.some.inj (hk.symm.trans hl)

end Traffic
end WireCall
