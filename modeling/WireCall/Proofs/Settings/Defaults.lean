import WireCall.Proofs.Settings.Overlay
import WireCall.Settings.Discovery

namespace WireCall

/-!
# Settings as they are loaded

For each record of settings, what comes of the documents that are given for its fields: a field is
what its document means, or else as in the default settings.  The admission gate of a server is none
for null, and otherwise it is overlaid on its own default settings.

Main statement: a text is loaded as the settings that come of what it gives, and refused if it gives
nothing of the kind (`settings_overlay`).
-/

namespace Form

variable {α σ : Type} {form : Form α} {means : Document → α → Prop} {name : String} {get : σ → α}
  {set : α → σ → σ} {fields : List (Field σ)} {given : String → Option Document} {s s' : σ}

/-- The first field is set to what is given for it or stays as it is, and the others are overlaid on
that. -/
theorem overlay_field_iff (hform : form.Reads means) (hset : set (get s) s = s) :
    overlay (form.field name get set :: fields) given s = some s' ↔
      ∃ a, Overlaid means (get s) (given name) a ∧ overlay fields given (set a s) = some s' := by
  rw [overlay, Field.overlay]
  dsimp only [Form.field]
  cases given name with
  | none => simp [Overlaid, hset]
  | some d => simp [Overlaid, Option.map_eq_some_iff, Option.bind_eq_some_iff, hform d _]

end Form

/-! ### Admission -/

namespace AdmissionSettings

/-- The settings come of what is given for the fields. -/
structure Given (given : String → Option Document) (s : AdmissionSettings) : Prop where
  rate : Overlaid Document.IsWord32 default.rate (given "rate") s.rate
  burst : Overlaid Document.IsWord32 default.burst (given "burst") s.burst
  patience : Overlaid Document.IsDuration default.patience (given "timeout") s.patience

/-- Fields set different parts of the settings. -/
theorem fields_commute : fields.Pairwise Field.Commutes := by
  simp [fields, Field.commutes_of_set]

/-- The overlay of admission settings is that of their fields. -/
theorem overlay_eq_some_iff {given : String → Option Document} {s : AdmissionSettings} :
    Form.overlay fields given default = some s ↔ s.Given given := by
  constructor
  · intro h
    obtain ⟨rate, hrate, h⟩ := (Form.overlay_field_iff Form.reads_word32 rfl).mp h
    obtain ⟨burst, hburst, h⟩ := (Form.overlay_field_iff Form.reads_word32 rfl).mp h
    obtain ⟨patience, hpatience, h⟩ := (Form.overlay_field_iff Form.reads_duration rfl).mp h
    cases h
    exact ⟨hrate, hburst, hpatience⟩
  · rintro ⟨hrate, hburst, hpatience⟩
    refine (Form.overlay_field_iff Form.reads_word32 rfl).mpr ⟨_, hrate, ?_⟩
    refine (Form.overlay_field_iff Form.reads_word32 rfl).mpr ⟨_, hburst, ?_⟩
    exact (Form.overlay_field_iff Form.reads_duration rfl).mpr ⟨_, hpatience, rfl⟩

/-- Admission settings overlay their defaults by name and by position. -/
theorem form_overlays : form.Overlays ["rate", "burst", "timeout"] Given :=
  Form.overlays_ofFields (by decide) fields_commute fun _ _ => overlay_eq_some_iff

end AdmissionSettings

/-- The document gives an admission gate. -/
def Document.IsAdmission (d : Document) (s : AdmissionSettings) : Prop :=
  ∃ given, d.Gives ["rate", "burst", "timeout"] given ∧ s.Given given

/-- The form of admission settings reads what their documents mean. -/
theorem AdmissionSettings.form_reads : form.Reads Document.IsAdmission := by
  intro d s
  constructor
  · intro h
    obtain ⟨given, hgives⟩ := Form.exists_gives (by decide) h
    rw [form, Form.read_of_gives (by decide) fields_commute hgives] at h
    exact ⟨given, hgives, overlay_eq_some_iff.mp h⟩
  · rintro ⟨given, hgives, hgiven⟩
    exact (Form.read_of_gives (by decide) fields_commute hgives).trans
      (overlay_eq_some_iff.mpr hgiven)

/-! ### Servers -/

namespace ServerSettings

/-- The settings come of what is given for the fields. -/
structure Given (given : String → Option Document) (s : ServerSettings) : Prop where
  host : Overlaid Document.IsText default.host (given "host") s.host
  port : Overlaid Document.IsWord16 default.port (given "port") s.port
  admission : Overlaid (Document.IsOptional Document.IsAdmission) default.admission
    (given "limiter") s.admission
  maximum : Overlaid Document.IsWord32 default.maximum (given "max_frame_size") s.maximum

/-- The fields of server settings may be set in any order. -/
theorem fields_commute : fields.Pairwise Field.Commutes := by
  simp [fields, Field.commutes_of_set]

/-- The overlay of server settings is that of their fields. -/
theorem overlay_eq_some_iff {given : String → Option Document} {s : ServerSettings} :
    Form.overlay fields given default = some s ↔ s.Given given := by
  constructor
  · intro h
    -- Field by field, what was read is what the document gives.
    obtain ⟨host, hhost, h⟩ := (Form.overlay_field_iff Form.reads_text rfl).mp h
    obtain ⟨port, hport, h⟩ := (Form.overlay_field_iff Form.reads_word16 rfl).mp h
    obtain ⟨admission, hadmission, h⟩ :=
      (Form.overlay_field_iff AdmissionSettings.form_reads.optional rfl).mp h
    obtain ⟨maximum, hmaximum, h⟩ := (Form.overlay_field_iff Form.reads_word32 rfl).mp h
    cases h
    exact ⟨hhost, hport, hadmission, hmaximum⟩
  · rintro ⟨hhost, hport, hadmission, hmaximum⟩
    refine (Form.overlay_field_iff Form.reads_text rfl).mpr ⟨_, hhost, ?_⟩
    refine (Form.overlay_field_iff Form.reads_word16 rfl).mpr ⟨_, hport, ?_⟩
    refine (Form.overlay_field_iff AdmissionSettings.form_reads.optional rfl).mpr
      ⟨_, hadmission, ?_⟩
    exact (Form.overlay_field_iff Form.reads_word32 rfl).mpr ⟨_, hmaximum, rfl⟩

/-- Server settings overlay their defaults by name and by position. -/
theorem form_overlays : form.Overlays ["host", "port", "limiter", "max_frame_size"] Given :=
  Form.overlays_ofFields (by decide) fields_commute fun _ _ => overlay_eq_some_iff

end ServerSettings

/-! ### Clients -/

namespace ClientSettings

/-- The settings come of what is given for the fields. -/
structure Given (given : String → Option Document) (s : ClientSettings) : Prop where
  host : Overlaid Document.IsText default.host (given "host") s.host
  port : Overlaid Document.IsWord16 default.port (given "port") s.port
  attempts : Overlaid Document.IsWord64 default.attempts (given "retries") s.attempts
  dialPatience : Overlaid Document.IsDuration default.dialPatience (given "connect_timeout")
    s.dialPatience
  serialization : Overlaid (Document.IsChoice Serialization.name) default.serialization
    (given "serialize_type") s.serialization
  compression : Overlaid (Document.IsChoice Compression.name) default.compression
    (given "compress_type") s.compression
  maximum : Overlaid Document.IsWord32 default.maximum (given "max_frame_size") s.maximum

/-- The fields of client settings may be set in any order. -/
theorem fields_commute : fields.Pairwise Field.Commutes := by
  simp [fields, Field.commutes_of_set]

/-- A serialization is chosen by its name. -/
theorem reads_serialization :
    (Form.choice Serialization.all Serialization.name).Reads
      (Document.IsChoice Serialization.name) :=
  Form.reads_choice fun a => by cases a <;> rfl

theorem reads_compression :
    (Form.choice Compression.all Compression.name).Reads (Document.IsChoice Compression.name) :=
  Form.reads_choice fun a => by cases a; rfl

/-- The overlay of client settings is that of their fields. -/
theorem overlay_eq_some_iff {given : String → Option Document} {s : ClientSettings} :
    Form.overlay fields given default = some s ↔ s.Given given := by
  constructor
  · intro h
    obtain ⟨host, hhost, h⟩ := (Form.overlay_field_iff Form.reads_text rfl).mp h
    obtain ⟨port, hport, h⟩ := (Form.overlay_field_iff Form.reads_word16 rfl).mp h
    obtain ⟨attempts, hattempts, h⟩ := (Form.overlay_field_iff Form.reads_word64 rfl).mp h
    obtain ⟨patience, hpatience, h⟩ := (Form.overlay_field_iff Form.reads_duration rfl).mp h
    obtain ⟨serialization, hserialization, h⟩ :=
      (Form.overlay_field_iff reads_serialization rfl).mp h
    obtain ⟨compression, hcompression, h⟩ := (Form.overlay_field_iff reads_compression rfl).mp h
    obtain ⟨maximum, hmaximum, h⟩ := (Form.overlay_field_iff Form.reads_word32 rfl).mp h
    cases h
    exact ⟨hhost, hport, hattempts, hpatience, hserialization, hcompression, hmaximum⟩
  · rintro ⟨hhost, hport, hattempts, hpatience, hserialization, hcompression, hmaximum⟩
    refine (Form.overlay_field_iff Form.reads_text rfl).mpr ⟨_, hhost, ?_⟩
    refine (Form.overlay_field_iff Form.reads_word16 rfl).mpr ⟨_, hport, ?_⟩
    refine (Form.overlay_field_iff Form.reads_word64 rfl).mpr ⟨_, hattempts, ?_⟩
    refine (Form.overlay_field_iff Form.reads_duration rfl).mpr ⟨_, hpatience, ?_⟩
    refine (Form.overlay_field_iff reads_serialization rfl).mpr ⟨_, hserialization, ?_⟩
    refine (Form.overlay_field_iff reads_compression rfl).mpr ⟨_, hcompression, ?_⟩
    exact (Form.overlay_field_iff Form.reads_word32 rfl).mpr ⟨_, hmaximum, rfl⟩

/-- Client settings overlay their defaults by name and by position. -/
theorem form_overlays :
    form.Overlays ["host", "port", "retries", "connect_timeout", "serialize_type",
      "compress_type", "max_frame_size"] Given :=
  Form.overlays_ofFields (by decide) fields_commute fun _ _ => overlay_eq_some_iff

end ClientSettings

/-! ### Discovery -/

namespace DiscoverySettings

/-- The settings come of what is given for the fields. -/
structure Given (given : String → Option Document) (s : DiscoverySettings) : Prop where
  endpoints : Overlaid (Document.IsList Document.IsText) default.endpoints (given "endpoints")
    s.endpoints
  dialPatience : Overlaid Document.IsDuration default.dialPatience (given "dial_timeout")
    s.dialPatience
  serviceName : Overlaid Document.IsText default.serviceName (given "service_name") s.serviceName
  host : Overlaid Document.IsText default.host (given "host") s.host
  port : Overlaid Document.IsWord16 default.port (given "port") s.port

/-- The fields of discovery settings may be set in any order. -/
theorem fields_commute : fields.Pairwise Field.Commutes := by
  simp [fields, Field.commutes_of_set]

/-- The overlay of discovery settings is that of their fields. -/
theorem overlay_eq_some_iff {given : String → Option Document} {s : DiscoverySettings} :
    Form.overlay fields given default = some s ↔ s.Given given := by
  constructor
  · intro h
    obtain ⟨endpoints, hendpoints, h⟩ := (Form.overlay_field_iff Form.reads_text.list rfl).mp h
    obtain ⟨patience, hpatience, h⟩ := (Form.overlay_field_iff Form.reads_duration rfl).mp h
    obtain ⟨serviceName, hserviceName, h⟩ := (Form.overlay_field_iff Form.reads_text rfl).mp h
    obtain ⟨host, hhost, h⟩ := (Form.overlay_field_iff Form.reads_text rfl).mp h
    obtain ⟨port, hport, h⟩ := (Form.overlay_field_iff Form.reads_word16 rfl).mp h
    cases h
    exact ⟨hendpoints, hpatience, hserviceName, hhost, hport⟩
  · rintro ⟨hendpoints, hpatience, hserviceName, hhost, hport⟩
    refine (Form.overlay_field_iff Form.reads_text.list rfl).mpr ⟨_, hendpoints, ?_⟩
    refine (Form.overlay_field_iff Form.reads_duration rfl).mpr ⟨_, hpatience, ?_⟩
    refine (Form.overlay_field_iff Form.reads_text rfl).mpr ⟨_, hserviceName, ?_⟩
    refine (Form.overlay_field_iff Form.reads_text rfl).mpr ⟨_, hhost, ?_⟩
    exact (Form.overlay_field_iff Form.reads_word16 rfl).mpr ⟨_, hport, rfl⟩

/-- Discovery settings overlay their defaults by name and by position. -/
theorem form_overlays :
    form.Overlays ["endpoints", "dial_timeout", "service_name", "host", "port"] Given :=
  Form.overlays_ofFields (by decide) fields_commute fun _ _ => overlay_eq_some_iff

end DiscoverySettings

/-- Each record of settings is loaded by overlaying what a text gives, by name or by position, on
its own default settings. -/
theorem settings_overlay :
    AdmissionSettings.form.Overlays ["rate", "burst", "timeout"] AdmissionSettings.Given ∧
    ServerSettings.form.Overlays ["host", "port", "limiter", "max_frame_size"]
      ServerSettings.Given ∧
    ClientSettings.form.Overlays ["host", "port", "retries", "connect_timeout", "serialize_type",
      "compress_type", "max_frame_size"] ClientSettings.Given ∧
    DiscoverySettings.form.Overlays ["endpoints", "dial_timeout", "service_name", "host", "port"]
      DiscoverySettings.Given :=
  ⟨AdmissionSettings.form_overlays, ServerSettings.form_overlays, ClientSettings.form_overlays,
    DiscoverySettings.form_overlays⟩

/-- A port and an admission gate with something unknown between them; the host and the bound on
frames stay, and so does the patience of the gate. -/
theorem settings_overlay_sample :
    ∃ (d : Document) (given : String → Option Document),
      d.Spells ("\x7b\"port\": 0, \"more\": [\x7b\"a\": []\x7d, 1e9],\n" ++
        " \"limiter\": \x7b\"burst\": 1, \"rate\": 2\x7d\x7d") ∧
      d.Gives ["host", "port", "limiter", "max_frame_size"] given ∧
      ServerSettings.Given given ⟨defaultHost, 0, some (.ofRate 2 1), Header.defaultMaximum⟩ := by
  obtain ⟨-, hserver, -⟩ := settings_overlay
  exact hserver.loads.mp (by decide +kernel)

end WireCall
