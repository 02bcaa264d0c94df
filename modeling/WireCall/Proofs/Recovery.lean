namespace WireCall

/-!
# Readers on what a writer wrote

A reader that is given the output of the writer hands back what was written, or it gives up: the
nesting is too deep for it, or a length does not fit.  It must never hand back something else.
`Recovers r p a` says both at once: `r` is the result `a`, or it is a failure and `p` is false.
Here `p` is the condition under which the reader promises to succeed, so `Recovers.ok_or_error`
gives the first half of a round trip and `Recovers.eq_ok` the second.

The lemmas follow the way readers are put together: in sequence, over a list, and through a change
of the result or of the failure.  The other way round, `bind_eq_ok_iff` and its neighbours take a
reader that has succeeded apart into its steps, and `bind_eq_error_iff` and its neighbour find the
step at which a reader has failed.
-/

/-! ### Readers that have succeeded or failed -/

section Steps

variable {ε ε' α β : Type}

/-- A sequence succeeds exactly when both of its steps do. -/
theorem bind_eq_ok_iff {x : Except ε α} {f : α → Except ε β} {b : β} :
    x >>= f = .ok b ↔ ∃ a, x = .ok a ∧ f a = .ok b := by
  cases x with
  | error e => exact ⟨nofun, nofun⟩
  | ok a =>
    constructor
    · intro h
      exact ⟨a, rfl, h⟩
    · rintro ⟨a', ha, h⟩
      rwa [← Except.ok.inj ha] at h

/-- Mapping a result succeeds exactly when there is one. -/
theorem map_eq_ok_iff {x : Except ε α} {f : α → β} {b : β} :
    x.map f = .ok b ↔ ∃ a, x = .ok a ∧ f a = b := by
  cases x with
  | error e => exact ⟨nofun, nofun⟩
  | ok a =>
    constructor
    · intro h
      exact ⟨a, rfl, Except.ok.inj h⟩
    · rintro ⟨a', ha, rfl⟩
      rw [Except.ok.inj ha]
      rfl

/-- Renaming a failure keeps every success. -/
theorem mapError_eq_ok_iff {x : Except ε α} {f : ε → ε'} {a : α} :
    x.mapError f = .ok a ↔ x = .ok a := by
  cases x with
  | error e => exact ⟨nofun, nofun⟩
  | ok a' => exact ⟨fun h => congrArg Except.ok (Except.ok.inj h),
      fun h => congrArg Except.ok (Except.ok.inj h)⟩

/-- A sequence fails exactly where its first failing step does. -/
theorem bind_eq_error_iff {x : Except ε α} {f : α → Except ε β} {e : ε} :
    x >>= f = .error e ↔ x = .error e ∨ ∃ a, x = .ok a ∧ f a = .error e := by
  -- Either the first step has failed already, or all is up to the second one.
  cases x with
  | error e' =>
    constructor
    · intro h
      exact .inl (congrArg Except.error (Except.error.inj h))
    · rintro (h | ⟨a, ha, -⟩)
      · exact congrArg Except.error (Except.error.inj h)
      · cases ha
  | ok a =>
    constructor
    · intro h
      exact .inr ⟨a, rfl, h⟩
    · rintro (h | ⟨a', ha, h⟩)
      · cases h
      · rwa [← Except.ok.inj ha] at h

/-- Renaming a failure renames just the failure. -/
theorem mapError_eq_error_iff {x : Except ε α} {f : ε → ε'} {e : ε'} :
    x.mapError f = .error e ↔ ∃ e', x = .error e' ∧ f e' = e := by
  cases x with
  | ok a => exact ⟨nofun, nofun⟩
  | error e' =>
    constructor
    · intro h
      exact ⟨e', rfl, Except.error.inj h⟩
    · rintro ⟨e'', he, rfl⟩
      rw [Except.error.inj he]
      rfl

end Steps

/-! ### Readers that must not err -/

/-- `r` is the result `a`, or a failure that `p` rules out. -/
def Recovers {ε α : Type} (r : Except ε α) (p : Prop) (a : α) : Prop :=
  r = .ok a ∨ ¬p ∧ ∃ e, r = .error e

namespace Recovers

variable {ε ε' α β : Type} {p q : Prop} {a : α} {b : β}

theorem of_eq {r : Except ε α} (h : r = .ok a) : Recovers r p a := .inl h

theorem of_error {r : Except ε α} {e : ε} (hp : ¬p) (h : r = .error e) : Recovers r p a :=
  .inr ⟨hp, e, h⟩

/-- The result is there when the reader promises it. -/
theorem eq_ok {r : Except ε α} (h : Recovers r p a) (hp : p) : r = .ok a := by
  rcases h with h | ⟨hnp, -⟩
  · exact h
  · exact absurd hp hnp

/-- No other result is ever handed back. -/
theorem ok_or_error {r : Except ε α} (h : Recovers r p a) : r = .ok a ∨ ∃ e, r = .error e := by
  rcases h with h | ⟨-, he⟩
  · exact .inl h
  · exact .inr he

/-- A reader that promises success under `q` does so under any condition that implies `q`. -/
theorem weaken {r : Except ε α} (h : Recovers r q a) (hpq : p → q) : Recovers r p a := by
  rcases h with h | ⟨hq, he⟩
  · exact .inl h
  · exact .inr ⟨fun hp => hq (hpq hp), he⟩

/-- Two readers in sequence. -/
theorem bind {x : Except ε α} {f : α → Except ε β} (hx : Recovers x p a)
    (hf : Recovers (f a) p b) : Recovers (x >>= f) p b := by
  rcases hx with rfl | ⟨hp, e, rfl⟩
  · exact hf
  · exact .of_error hp rfl

/-- Recovery carries over to what is made of the result. -/
theorem map {r : Except ε α} (h : Recovers r p a) (f : α → β) : Recovers (r.map f) p (f a) := by
  rcases h with rfl | ⟨hp, e, rfl⟩
  · exact .of_eq rfl
  · exact .of_error hp rfl

/-- Recovery does not depend on what failures are called. -/
theorem mapError {r : Except ε α} (h : Recovers r p a) (f : ε → ε') :
    Recovers (r.mapError f) p a := by
  rcases h with rfl | ⟨hp, e, rfl⟩
  · exact .of_eq rfl
  · exact .of_error hp rfl

/-- A reader applied to the form of each element of a list. -/
theorem mapM {xs : List α} {form : α → β} {f : β → Except ε α}
    (h : ∀ x ∈ xs, Recovers (f (form x)) p x) : Recovers ((xs.map form).mapM f) p xs := by
  induction xs with
  | nil => exact .of_eq rfl
  | cons x xs ih =>
    rw [List.map_cons, List.mapM_cons]
    refine .bind (h x (by simp)) (.bind (ih fun y hy => h y (by simp [hy])) ?_)
    exact .of_eq rfl

end Recovers
end WireCall
