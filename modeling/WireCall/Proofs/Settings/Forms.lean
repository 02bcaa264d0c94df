import Mathlib.Data.List.Forall2
import WireCall.Proofs.Document.Grammar
import WireCall.Settings.Client

namespace WireCall

/-!
# What a document means for a setting

Which documents mean which setting: a natural stands in plain digits, a duration in its seconds and
nanoseconds, a choice by its name.

Main statements: each form reads the documents that mean a setting and no others, as the setting
that they mean (`Form.reads_word16`, `Form.reads_duration` and so on).
-/

/-! ### Decimal digits -/

namespace Decimal

open Document (IsDigit Digits)

variable {cs : List Char} {acc n : Nat}

/-- A character is read as a digit exactly when it is one. -/
theorem digit?_eq_some_iff {c : Char} :
    digit? c = some n ↔ IsDigit c ∧ c.toNat - '0'.toNat = n := by
  unfold digit? IsDigit
  by_cases hc : '0' ≤ c ∧ c ≤ '9'
  · rw [if_pos hc, Option.some.injEq]
    exact (and_iff_right hc).symm
  · rw [if_neg hc]
    exact iff_of_false (Option.some_ne_none n).symm fun h => hc h.1

/-- Characters are read on exactly when they all are digits. -/
theorem readFrom_eq_some_iff :
    readFrom acc cs = some n ↔ (∀ c ∈ cs, IsDigit c) ∧ Nat.ofDigitChars 10 cs acc = n := by
  induction cs generalizing acc with
  | nil => simp [readFrom]
  | cons c cs ih =>
    rw [List.forall_mem_cons, readFrom]
    by_cases hc : IsDigit c
    · rw [digit?_eq_some_iff.mpr ⟨hc, rfl⟩]
      exact ih.trans (and_congr_left' (and_iff_right hc).symm)
    · have hnone : digit? c = none :=
        Option.eq_none_iff_forall_ne_some.mpr fun d hd => hc (digit?_eq_some_iff.mp hd).1
      rw [hnone]
      exact iff_of_false (Option.some_ne_none n).symm fun h => hc h.1.1

/-- Characters are read as a number exactly when they are a row of digits. -/
theorem read?_eq_some_iff : read? cs = some n ↔ Digits cs ∧ Nat.ofDigitChars 10 cs 0 = n := by
  cases cs with
  | nil => simp [read?, Digits]
  | cons c cs =>
    rw [read?, readFrom_eq_some_iff, Digits, and_iff_right (List.cons_ne_nil c cs)]

end Decimal

/-! ### Documents of one value -/

namespace Document

/-- The document is the natural, in plain digits. -/
def IsNatural (d : Document) (n : Nat) : Prop :=
  ∃ literal, d = .number literal ∧ Digits literal ∧ Nat.ofDigitChars 10 literal 0 = n

/-- The document is the natural of 16 bits. -/
def IsWord16 (d : Document) (n : UInt16) : Prop := d.IsNatural n.toNat

/-- The document is the natural of 32 bits. -/
def IsWord32 (d : Document) (n : UInt32) : Prop := d.IsNatural n.toNat

/-- The document is the natural of 64 bits. -/
def IsWord64 (d : Document) (n : UInt64) : Prop := d.IsNatural n.toNat

/-- The document is the text. -/
def IsText (d : Document) (s : String) : Prop := d = .text (some s)

/-- The document is an array, and its items mean the settings one by one. -/
def IsList {α : Type} (means : Document → α → Prop) (d : Document) (as : List α) : Prop :=
  ∃ items, d = .array items ∧ List.Forall₂ means items as

/-- The document is null for no setting, and otherwise it means a setting. -/
def IsOptional {α : Type} (means : Document → α → Prop) (d : Document) : Option α → Prop
  | none => d = .null
  | some a => d ≠ .null ∧ means d a

/-- The document is the name of the choice, or an object that maps the name to null. -/
def IsChoice {α : Type} (name : α → String) (d : Document) (a : α) : Prop :=
  d = .text (some (name a)) ∨ d = .object [(some (name a), .null)]

/-- The document is an object of the two members, in either order and without another one, or the
array of the two. -/
def IsDuration (d : Document) (a : Duration) : Prop :=
  ∃ seconds nanos, (d = .object [(some "secs", seconds), (some "nanos", nanos)] ∨
      d = .object [(some "nanos", nanos), (some "secs", seconds)] ∨ d = .array [seconds, nanos]) ∧
    ∃ s n, seconds.IsWord64 s ∧ nanos.IsWord32 n ∧
      a.nanos = s.toNat * nanosPerSecond + n.toNat

/-- A document is a natural number exactly when its literal is a row of digits. -/
theorem natural?_eq_some_iff {d : Document} {n : Nat} : d.natural? = some n ↔ d.IsNatural n := by
  unfold IsNatural
  cases d with
  | number literal => simp [natural?, Decimal.read?_eq_some_iff]
  | _ => simp [natural?]

end Document

/-! ### What the forms read -/

namespace Form

variable {α : Type} {form : Form α} {means : Document → α → Prop}

/-- The form reads exactly the documents that mean a setting, as the setting that they mean. -/
def Reads (form : Form α) (means : Document → α → Prop) : Prop :=
  ∀ d a, form.read d = some a ↔ means d a

/-- A bounded number is read from the documents that name it. -/
theorem reads_natural {bound : Nat} {ofNat : Nat → α} {toNat : α → Nat}
    (hbound : ∀ a, toNat a < bound) (hto : ∀ a, ofNat (toNat a) = a)
    (hof : ∀ n < bound, toNat (ofNat n) = n) :
    (natural bound ofNat toNat).Reads fun d a => d.IsNatural (toNat a) := by
  intro d a
  simp only [natural, Option.bind_eq_some_iff, Document.natural?_eq_some_iff]
  constructor
  · rintro ⟨n, hn, h⟩
    by_cases hlt : n < bound
    · rw [if_pos hlt, Option.some.injEq] at h
      rwa [← h, hof n hlt]
    · rw [if_neg hlt] at h
      cases h
  · exact fun h => ⟨toNat a, h, by rw [if_pos (hbound a), hto]⟩

/-- A 16-bit number is read from the documents that name it. -/
theorem reads_word16 : word16.Reads Document.IsWord16 :=
  reads_natural UInt16.toNat_lt (fun _ => UInt16.ofNat_toNat) fun _ => UInt16.toNat_ofNat_of_lt'

theorem reads_word32 : word32.Reads Document.IsWord32 :=
  reads_natural UInt32.toNat_lt (fun _ => UInt32.ofNat_toNat) fun _ => UInt32.toNat_ofNat_of_lt'

theorem reads_word64 : word64.Reads Document.IsWord64 :=
  reads_natural UInt64.toNat_lt (fun _ => UInt64.ofNat_toNat) fun _ => UInt64.toNat_ofNat_of_lt'

theorem reads_text : text.Reads Document.IsText := by
  intro d s
  cases d <;> simp [text, Document.IsText]

/-- Items are read one by one, and each of them has to be read. -/
theorem Reads.mapM_eq_some_iff (h : form.Reads means) {items : List Document} {as : List α} :
    items.mapM form.read = some as ↔ List.Forall₂ means items as := by
  induction items generalizing as with
  | nil => simp [eq_comm]
  | cons d items ih =>
    simp only [List.mapM_cons, Option.bind_eq_bind, Option.bind_eq_some_iff, Option.pure_def,
      Option.some.injEq, List.forall₂_cons_left_iff, h d _, ih]
    simp only [eq_comm, exists_and_left]

/-- A list is read from an array of what its items are read from. -/
theorem Reads.list (h : form.Reads means) : form.list.Reads (Document.IsList means) := by
  intro d as
  cases d <;> simp [Form.list, Document.IsList, h.mapM_eq_some_iff]

/-- An optional value is read from null or from what the value is read from. -/
theorem Reads.optional (h : form.Reads means) :
    form.optional.Reads (Document.IsOptional means) := by
  intro d a
  have hread : ∀ b, form.read d = some b ↔ means d b := h d
  cases d <;> cases a <;> simp_all [Form.optional, Document.IsOptional]

/-- A choice is read from the document that names it, since the names are distinct. -/
theorem reads_choice {all : List α} {name : α → String}
    (hall : ∀ a, all.find? (fun b => name b == name a) = some a) :
    (choice all name).Reads (Document.IsChoice name) := by
  -- The names are distinct, so the one that is found is the one that was meant.
  have hfind : ∀ s a, all.find? (fun b => name b == s) = some a ↔ s = name a := by
    intro s a
    constructor
    · intro h
      have hname := List.find?_some h
      exact (beq_iff_eq.mp hname).symm
    · rintro rfl
      exact hall a
  intro d a
  unfold Form.choice Document.IsChoice
  dsimp only
  split
  · simp [hfind]
  · simp [hfind]
  · next htext hobject =>
    constructor
    · exact nofun
    · rintro (rfl | rfl)
      · exact absurd rfl (htext _)
      · exact absurd rfl (hobject _)

/-- Seconds and nanoseconds are read as their sum, if its whole seconds fit 64 bits. -/
theorem durationOf_eq_some_iff {seconds nanos : Document} {a : Duration} :
    durationOf seconds nanos = some a ↔ ∃ s n, seconds.IsWord64 s ∧ nanos.IsWord32 n ∧
      a.nanos = s.toNat * nanosPerSecond + n.toNat := by
  -- Seconds and nanoseconds make a duration exactly when their sum is one.
  have hparts : ∀ s n, Duration.ofParts? s n = some a ↔ a.nanos = s * nanosPerSecond + n := by
    intro s n
    obtain ⟨total, hbound⟩ := a
    unfold Duration.ofParts?
    dsimp only
    split
    · simp [eq_comm]
    · next hlarge =>
      refine ⟨nofun, ?_⟩
      rintro rfl
      exact absurd hbound hlarge
  simp only [durationOf, Option.bind_eq_bind, Option.bind_eq_some_iff, reads_word64 _ _,
    reads_word32 _ _, hparts]
  exact ⟨fun ⟨s, hs, n, hn, h⟩ => ⟨s, n, hs, hn, h⟩, fun ⟨s, n, hs, hn, h⟩ => ⟨s, hs, n, hn, h⟩⟩

/-- A duration is read from a record of its seconds and its nanoseconds. -/
theorem reads_duration : duration.Reads Document.IsDuration := by
  intro d a
  unfold Form.duration Document.IsDuration
  dsimp only
  split
  · next seconds nanos => simp [durationOf_eq_some_iff]
  · next seconds nanos => simp [durationOf_eq_some_iff]
  · next seconds nanos => simp [durationOf_eq_some_iff]
  · next hobject hreversed harray =>
    refine ⟨nofun, ?_⟩
    rintro ⟨seconds, nanos, rfl | rfl | rfl, -⟩
    · exact absurd rfl (hobject seconds nanos)
    · exact absurd rfl (hreversed nanos seconds)
    · exact absurd rfl (harray seconds nanos)

end Form
end WireCall
