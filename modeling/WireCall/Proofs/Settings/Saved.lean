import WireCall.Proofs.Document.Rendered
import WireCall.Proofs.Settings.Defaults

namespace WireCall

/-!
# Settings that are saved and loaded again

A form writes a setting as a document that can be printed and that means this setting
(`Form.Writes`).  Each simple form does, and the forms that are put together of others do if these
do.  A record gives every one of its fields by name (`Form.gives_write`), so when it is loaded none
is left to the default settings.

Main statement: every record of settings is loaded from its text as it was saved
(`settings_load_save`).
-/

/-! ### Numbers -/

namespace Document

/-- The digits of a number that is not zero do not begin with one. -/
theorem counting_toDigits (n : Nat) (h : n ≠ 0) : Counting (Nat.toDigits 10 n) := by
  have hdigit : ∀ d < 10, IsDigit (Nat.digitChar d) ∧ (d ≠ 0 → Nat.digitChar d ≠ '0') := by decide
  induction n using Nat.strongRecOn with
  | ind n ih =>
    by_cases hsmall : n < 10
    · rw [Nat.toDigits_of_lt_base hsmall]
      exact ⟨Nat.digitChar n, [], rfl, (hdigit n hsmall).1, (hdigit n hsmall).2 h, by simp⟩
    · -- one more digit stands behind those of the tenth part
      rw [Nat.toDigits_of_base_le (by decide) (by omega)]
      exact (ih (n / 10) (by omega) (by omega)).snoc (hdigit _ (Nat.mod_lt n (by decide))).1

/-- Decimal digits are a number literal. -/
theorem numberLiteral_toDigits (n : Nat) : NumberLiteral (Nat.toDigits 10 n) := by
  have hwhole : Whole (Nat.toDigits 10 n) := by
    refine ⟨[], Nat.toDigits 10 n, rfl, .inl rfl, ?_⟩
    by_cases h : n = 0
    · exact .inl (by simp [h])
    · exact .inr (counting_toDigits n h)
  exact ⟨Nat.toDigits 10 n, [], by simp, .of_whole hwhole, .inl rfl⟩

theorem isNatural_ofNat (n : Nat) : (ofNat n).IsNatural n :=
  ⟨Nat.toDigits 10 n, rfl, Decimal.read?_eq_some_iff.mp (Decimal.read?_toDigits n)⟩

theorem printable_ofNat (n : Nat) : (ofNat n).Printable := .number (numberLiteral_toDigits n)

/-- A record of printable members can be printed. -/
theorem printable_ofMembers {members : List (String × Document)}
    (h : ∀ m ∈ members, m.2.Printable) : (ofMembers members).Printable := by
  apply Printable.object
  exact List.forall_mem_map.mpr h

end Document

/-! ### What the forms write -/

namespace Form

open Document (Printable)

variable {α σ : Type} {form : Form α} {means : Document → α → Prop}

/-- The text of a setting. -/
def save (form : Form α) (a : α) : String := (form.write a).render

/-- What the form writes can be printed, and means the setting. -/
structure Writes (form : Form α) (means : Document → α → Prop) : Prop where
  printable : ∀ a, (form.write a).Printable
  means : ∀ a, means (form.write a) a

/-- A bounded number is written as a document that names it. -/
theorem writes_natural (bound : Nat) (ofNat : Nat → α) (toNat : α → Nat) :
    (natural bound ofNat toNat).Writes fun d a => d.IsNatural (toNat a) where
  printable a := Document.printable_ofNat (toNat a)
  means a := Document.isNatural_ofNat (toNat a)

/-- A 16-bit number is written as a document that names it. -/
theorem writes_word16 : word16.Writes Document.IsWord16 := writes_natural ..

theorem writes_word32 : word32.Writes Document.IsWord32 := writes_natural ..

theorem writes_word64 : word64.Writes Document.IsWord64 := writes_natural ..

theorem writes_text : text.Writes Document.IsText where
  printable s := .text s
  means _ := rfl

/-- A list is written as an array of its items. -/
theorem Writes.list (h : form.Writes means) : form.list.Writes (Document.IsList means) where
  printable as := by
    apply Printable.array
    simpa using fun a _ => h.printable a
  means as := by
    refine ⟨as.map form.write, rfl, ?_⟩
    simpa using fun a _ => h.means a

/-- A setting that is there must not look like one that is absent. -/
theorem Writes.optional (h : form.Writes means) (hnull : ∀ a, form.write a ≠ .null) :
    form.optional.Writes (Document.IsOptional means) where
  printable
    | none => .null
    | some a => h.printable a
  means
    | none => rfl
    | some a => ⟨hnull a, h.means a⟩

/-- A choice is written as its name. -/
theorem writes_choice (all : List α) (name : α → String) :
    (choice all name).Writes (Document.IsChoice name) where
  printable a := .text (name a)
  means _ := .inl rfl

/-- A duration is written as a record of its seconds and its nanoseconds. -/
theorem writes_duration : duration.Writes Document.IsDuration where
  printable d := by
    apply Document.printable_ofMembers
    simp [Document.printable_ofNat]
  means d := by
    -- The parts of a duration are within the words that they are written in.
    have hbound := d.bound
    have hseconds : d.seconds < 0x10000000000000000 := by
      unfold Duration.seconds nanosPerSecond
      omega
    have hnanos : d.subsecondNanos < 0x100000000 := by
      unfold Duration.subsecondNanos nanosPerSecond
      omega
    refine ⟨_, _, .inl rfl, .ofNat d.seconds, .ofNat d.subsecondNanos, ?_, ?_, ?_⟩
    · unfold Document.IsWord64
      rw [UInt64.toNat_ofNat_of_lt' hseconds]
      exact Document.isNatural_ofNat _
    · unfold Document.IsWord32
      rw [UInt32.toNat_ofNat_of_lt' hnanos]
      exact Document.isNatural_ofNat _
    · rw [UInt64.toNat_ofNat_of_lt' hseconds, UInt32.toNat_ofNat_of_lt' hnanos]
      exact (Nat.div_add_mod' d.nanos nanosPerSecond).symm

/-! ### Records -/

variable {fields : List (Field σ)} {names : List String}
  {Given : (String → Option Document) → σ → Prop}

/-- The document that is written for the field of a name. -/
def written (fields : List (Field σ)) (s : σ) (name : String) : Option Document :=
  (fields.map fun f => (some f.name, f.write s)).lookup (some name)

/-- A record is written as an object that gives each of its fields. -/
theorem gives_write (fields : List (Field σ)) (hnames : (fields.map Field.name).Nodup)
    (default s : σ) :
    ((ofFields fields default).write s).Gives (fields.map Field.name) (written fields s) := by
  have hwrite : (ofFields fields default).write s =
      .object (fields.map fun f => (some f.name, f.write s)) := by
    simp [ofFields, Document.ofMembers]
  have honce (name : String) :
      ((fields.map fun f => (some f.name, f.write s)).map Prod.fst).count (some name) ≤ 1 := by
    have hsome : ((fields.map Field.name).map some).Nodup :=
      List.Pairwise.map some (by simp) hnames
    rw [List.map_map] at hsome ⊢
    exact List.nodup_iff_count.mp hsome (some name)
  rw [hwrite]
  refine .object (by simp) (fun name _ => honce name) fun name _ d => ?_
  exact lookup_eq_some_iff_mem (honce name)

/-- A record of printable fields can be printed. -/
theorem printable_ofFields {default s : σ} (h : ∀ f ∈ fields, (f.write s).Printable) :
    ((ofFields fields default).write s).Printable := by
  apply Document.printable_ofMembers
  simpa using h

/-- The document is a record that comes of what it gives for these names. -/
def IsRecord (names : List String) (Given : (String → Option Document) → σ → Prop)
    (d : Document) (s : σ) : Prop :=
  ∃ given, d.Gives names given ∧ Given given s

/-- What is written for a record is loaded as this record. -/
theorem Overlays.load_save {form : Form σ} (h : form.Overlays names Given)
    (hwrites : form.Writes (IsRecord names Given)) (s : σ) : form.load (form.save s) = some s := by
  obtain ⟨given, hgives, hgiven⟩ := hwrites.means s
  exact h.loads.mpr
    ⟨form.write s, given, Document.spells_render (hwrites.printable s), hgives, hgiven⟩

end Form

/-! ### Each of the records -/

section Records

open Form

/-- Admission settings are written as a document that means them. -/
theorem AdmissionSettings.writes_form : form.Writes Document.IsAdmission where
  printable s := by
    apply printable_ofFields
    simp [fields, field, writes_word32.printable, writes_duration.printable]
  means s := by
    refine ⟨written fields s, gives_write fields (by decide) default s, ?_⟩
    constructor
    · exact writes_word32.means s.rate
    · exact writes_word32.means s.burst
    · exact writes_duration.means s.patience

/-- Server settings are written as a document that means them. -/
theorem ServerSettings.writes_form :
    form.Writes (IsRecord ["host", "port", "limiter", "max_frame_size"] Given) := by
  have hadmission : AdmissionSettings.form.optional.Writes
      (Document.IsOptional Document.IsAdmission) :=
    AdmissionSettings.writes_form.optional (by simp [AdmissionSettings.form, ofFields,
      Document.ofMembers])
  constructor
  · intro s
    apply printable_ofFields
    simp [fields, field, writes_text.printable, writes_word16.printable, hadmission.printable,
      writes_word32.printable]
  · intro s
    -- The fields are given as they were written, each by its own name.
    refine ⟨written fields s, gives_write fields (by decide) default s, ?_⟩
    constructor
    · exact writes_text.means s.host
    · exact writes_word16.means s.port
    · exact hadmission.means s.admission
    · exact writes_word32.means s.maximum

/-- Client settings are written as a document that means them. -/
theorem ClientSettings.writes_form :
    form.Writes (IsRecord ["host", "port", "retries", "connect_timeout", "serialize_type",
      "compress_type", "max_frame_size"] Given) := by
  have hserialization := writes_choice Serialization.all Serialization.name
  have hcompression := writes_choice Compression.all Compression.name
  constructor
  · intro s
    apply printable_ofFields
    simp [fields, field, writes_text.printable, writes_word16.printable, writes_word64.printable,
      writes_duration.printable, hserialization.printable, hcompression.printable,
      writes_word32.printable]
  · intro s
    refine ⟨written fields s, gives_write fields (by decide) default s, ?_⟩
    constructor
    · exact writes_text.means s.host
    · exact writes_word16.means s.port
    · exact writes_word64.means s.attempts
    · exact writes_duration.means s.dialPatience
    · exact hserialization.means s.serialization
    · exact hcompression.means s.compression
    · exact writes_word32.means s.maximum

/-- Discovery settings are written as a document that means them. -/
theorem DiscoverySettings.writes_form :
    form.Writes (IsRecord ["endpoints", "dial_timeout", "service_name", "host", "port"] Given) := by
  constructor
  · intro s
    apply printable_ofFields
    simp [fields, field, writes_text.list.printable, writes_duration.printable,
      writes_text.printable, writes_word16.printable]
  · intro s
    refine ⟨written fields s, gives_write fields (by decide) default s, ?_⟩
    constructor
    · exact writes_text.list.means s.endpoints
    · exact writes_duration.means s.dialPatience
    · exact writes_text.means s.serviceName
    · exact writes_text.means s.host
    · exact writes_word16.means s.port

end Records

/-- **Settings are loaded as they were saved**, whatever they are. -/
theorem settings_load_save :
    (∀ s : AdmissionSettings,
      AdmissionSettings.form.load (AdmissionSettings.form.save s) = some s) ∧
    (∀ s : ServerSettings, ServerSettings.form.load (ServerSettings.form.save s) = some s) ∧
    (∀ s : ClientSettings, ClientSettings.form.load (ClientSettings.form.save s) = some s) ∧
    ∀ s : DiscoverySettings,
      DiscoverySettings.form.load (DiscoverySettings.form.save s) = some s :=
  ⟨AdmissionSettings.form_overlays.load_save AdmissionSettings.writes_form,
    ServerSettings.form_overlays.load_save ServerSettings.writes_form,
    ClientSettings.form_overlays.load_save ClientSettings.writes_form,
    DiscoverySettings.form_overlays.load_save DiscoverySettings.writes_form⟩

/-- A name with a quote, a backslash and a control, and the longest duration. -/
example : DiscoverySettings.form.save
    ⟨["a", "é"], ⟨18446744073709551615999999999, by decide⟩, "\x22\\\x01\n", "", 65535⟩ =
      "\x7b\x22endpoints\x22:[\x22a\x22,\x22é\x22],\x22dial_timeout\x22:\x7b\x22secs\x22:" ++
        "18446744073709551615,\x22nanos\x22:999999999\x7d,\x22service_name\x22:" ++
        "\x22\\\x22\\\\\\u0001\\n\x22,\x22host\x22:\x22\x22,\x22port\x22:65535\x7d" := by
  decide +kernel

end WireCall
