import WireCall.Proofs.Members
import WireCall.Proofs.MsgPack.Message

namespace WireCall.MsgPack

/-!
# What the reader of MessagePack accepts

The reader is more liberal than the writer, but what it hands back is always something that can be
written and read again: the sizes of texts and containers come from at most four bytes
(`small_of_readHead`), the entries of a map are brought into the order of their keys, and no more
containers are open at once than the budget allowed (`fits_of_readValue`).

Main statement: every message that was read has a body from which it is read again
(`decode_encode_of_decode`).
-/

/-! ### Sizes -/

/-- Sizes that the head announces are below `2^32`. -/
def Head.Small : Head → Prop
  | .text bytes | .binary bytes => bytes.length < 4294967296
  | .array count | .map count => count < 4294967296
  | _ => True

variable {width : Nat} {bytes : Octets}

/-- A number of at most four bytes is below 2^32. -/
theorem lt_of_readNatural {r : Nat × Octets} (h : readNatural width bytes = .ok r)
    (hwidth : width ≤ 4) : r.1 < 4294967296 := by
  rw [readNatural] at h
  split at h
  · rename_i front rest hsplit
    obtain rfl := Except.ok.inj h
    obtain ⟨hlength, -⟩ := Octets.split?_eq_some_iff.mp hsplit
    have hlt := Octets.ofBigEndian_lt front
    rw [hlength] at hlt
    exact Nat.lt_of_lt_of_le hlt (Nat.pow_le_pow_right (by decide) hwidth)
  · cases h

/-- A blob has the length that was announced. -/
theorem length_of_readBlob {count : Nat} {r : Octets × Octets} (h : readBlob count bytes = .ok r) :
    r.1.length = count := by
  rw [readBlob] at h
  split at h
  · rename_i cut hsplit
    obtain rfl := Except.ok.inj h
    exact (Octets.split?_eq_some_iff.mp hsplit).1
  · cases h

/-- A head read with a length of at most four bytes is small. -/
theorem small_of_readSized {make : Octets → Head} {r : Head × Octets}
    (h : readSized width make bytes = .ok r) (hwidth : width ≤ 4)
    (hmake : ∀ blob : Octets, blob.length < 4294967296 → (make blob).Small) : r.1.Small := by
  obtain ⟨n, hn, h⟩ := bind_eq_ok_iff.mp h
  obtain ⟨blob, hblob, h⟩ := bind_eq_ok_iff.mp h
  obtain rfl := Except.ok.inj h
  refine hmake blob.1 ?_
  rw [length_of_readBlob hblob]
  exact lt_of_readNatural hn hwidth

theorem small_of_readCount {make : Nat → Head} {r : Head × Octets}
    (h : readCount width make bytes = .ok r) (hwidth : width ≤ 4)
    (hmake : ∀ count, count < 4294967296 → (make count).Small) : r.1.Small := by
  obtain ⟨n, hn, h⟩ := bind_eq_ok_iff.mp h
  obtain rfl := Except.ok.inj h
  exact hmake n.1 (lt_of_readNatural hn hwidth)

/-- The head of an extension is small. -/
theorem small_of_readExtension {count : Nat} {r : Head × Octets}
    (h : readExtension count bytes = .ok r) : r.1.Small := by
  obtain ⟨blob, -, h⟩ := bind_eq_ok_iff.mp h
  obtain rfl := Except.ok.inj h
  trivial

/-- Every head that was read is small. -/
theorem small_of_readHead {r : Head × Octets} (h : readHead bytes = .ok r) : r.1.Small := by
  have hbyte (n : UInt8) : n.toNat < 4294967296 := Nat.lt_trans n.toNat_lt (by decide)
  cases bytes with
  | nil => cases h
  | cons marker rest =>
    unfold readHead at h
    dsimp only at h
    split at h
    · obtain rfl := Except.ok.inj h
      trivial
    split at h
    · obtain rfl := Except.ok.inj h
      exact hbyte _
    split at h
    · obtain rfl := Except.ok.inj h
      exact hbyte _
    split at h
    · obtain ⟨blob, hblob, h⟩ := bind_eq_ok_iff.mp h
      obtain rfl := Except.ok.inj h
      show blob.1.length < _
      rw [length_of_readBlob hblob]
      exact hbyte _
    split at h
    · obtain rfl := Except.ok.inj h
      trivial
    -- The other markers are those of scalars, of sizes in bytes of their own, and of extensions.
    split at h
    all_goals first
      | exact small_of_readSized h (by decide) fun _ hlength => hlength
      | exact small_of_readCount h (by decide) fun _ hcount => hcount
      | exact small_of_readExtension h
      | (obtain ⟨n, -, h⟩ := bind_eq_ok_iff.mp h
         first
           | exact small_of_readExtension h
           | (obtain rfl := Except.ok.inj h
              trivial))
      | (obtain rfl := Except.ok.inj h
         trivial)
      | cases h

/-! ### Values -/

/-- The value can be written, and is read back when so many containers may be opened. -/
structure Readable (budget : Nat) (v : Value) : Prop where
  normal : v.Normal
  short : v.Short
  nests : NestsWithin budget v

variable {budget : Nat} {v : Value}

/-- A small scalar is readable at every depth. -/
theorem Readable.of_scalar (hscalar : v.isContainer = false) (hsmall : v.Small) :
    Readable budget v where
  normal := by
    cases v with
    | list | object => cases hscalar
    | null | bool | int | float | str => trivial
  short := .of_scalar hscalar hsmall
  nests := by
    refine .of_scalar hscalar ?_
    rw [hscalar]
    exact Nat.zero_le _

/-- A list of readable items is readable one level up. -/
theorem Readable.of_items {items : List Value} (hcount : items.length < 4294967296)
    (h : ∀ v ∈ items, Readable budget v) : Readable (budget + 1) (.list items) where
  normal := Value.normal_list.mpr fun v hv => (h v hv).normal
  short := .of_items hcount fun v hv => (h v hv).short
  nests := .of_items (Nat.le_add_left 1 budget) fun v hv => ⟨budget, rfl, (h v hv).nests⟩

/-- Of several entries with one key only one is left, and it is one of them. -/
theorem Readable.of_entries {entries : List (String × Value)} (hcount : entries.length < 4294967296)
    (h : ∀ e ∈ entries, (Octets.ofText e.1).length < 4294967296 ∧ Readable budget e.2) :
    Readable (budget + 1) (.ofEntries entries) := by
  have hmember : ∀ m ∈ Members.ofEntries entries,
      (Octets.ofText m.1).length < 4294967296 ∧ Readable budget m.2 :=
    fun m hm => h m (Members.mem_of_mem_ofEntries hm)
  have hlength := Nat.lt_of_le_of_lt (Members.length_ofEntries_le entries) hcount
  exact
    { normal := Value.normal_object.mpr
        ⟨Members.ascending_ofEntries entries, fun m hm => (hmember m hm).2.normal⟩
      short := .of_members ⟨hlength, fun m hm => (hmember m hm).1⟩
        fun m hm => (hmember m hm).2.short
      nests := .of_members (Nat.le_add_left 1 budget)
        fun m hm => ⟨budget, rfl, (hmember m hm).2.nests⟩ }

/-! ### Reading values -/

/-- A text that was read has the bytes it was read from. -/
theorem ofText_of_textOf {s : String} (h : textOf bytes = .ok s) : Octets.ofText s = bytes := by
  rw [textOf] at h
  split at h
  · rename_i s' htext
    obtain rfl := Except.ok.inj h
    exact Octets.ofText_of_text? htext
  · cases h

/-- What holds of everything read at each place holds of all that was read. -/
theorem forall_of_readMany {α : Type} {read : Octets → Except BodyFault (α × Octets)}
    {p : α → Prop} (hread : ∀ bytes r, read bytes = .ok r → p r.1) {count : Nat} {got : List α}
    {r : List α × Octets} (h : readMany read count got bytes = .ok r) (hgot : ∀ a ∈ got, p a) :
    (∀ a ∈ r.1, p a) ∧ r.1.length = got.length + count := by
  induction count generalizing got bytes with
  | zero =>
    obtain rfl := Except.ok.inj h
    exact ⟨fun a ha => hgot a (List.mem_reverse.mp ha), List.length_reverse⟩
  | succ count ih =>
    obtain ⟨⟨a, rest⟩, ha, h⟩ := bind_eq_ok_iff.mp h
    have hcons : ∀ b ∈ a :: got, p b := List.forall_mem_cons.mpr ⟨hread _ _ ha, hgot⟩
    obtain ⟨hall, hlength⟩ := ih h hcons
    refine ⟨hall, ?_⟩
    rw [hlength, List.length_cons]
    omega

/-- A member that was read has a short key and a readable value. -/
theorem readable_of_readMember {read : Octets → Except BodyFault (Value × Octets)}
    (hread : ∀ bytes r, read bytes = .ok r → Readable budget r.1) {first : Bool}
    {r : (String × Value) × Octets} (h : readMember read first bytes = .ok r) :
    (Octets.ofText r.1.1).length < 4294967296 ∧ Readable budget r.1.2 := by
  obtain ⟨⟨key, rest⟩, hkey, h⟩ := bind_eq_ok_iff.mp h
  obtain ⟨⟨value, rest'⟩, hvalue, h⟩ := bind_eq_ok_iff.mp h
  obtain rfl := Except.ok.inj h
  refine ⟨?_, hread _ _ hvalue⟩
  obtain ⟨head, hhead, hkey⟩ := bind_eq_ok_iff.mp hkey
  have hsmall := small_of_readHead hhead
  -- A key is a text, or in later members the bytes of one.
  split at hkey
  · obtain ⟨s, hs, hkey⟩ := bind_eq_ok_iff.mp hkey
    obtain ⟨rfl, -⟩ := Prod.mk.inj (Except.ok.inj hkey)
    rw [ofText_of_textOf hs]
    exact hsmall
  · obtain ⟨s, hs, hkey⟩ := bind_eq_ok_iff.mp hkey
    obtain ⟨rfl, -⟩ := Prod.mk.inj (Except.ok.inj hkey)
    rw [ofText_of_textOf hs]
    exact hsmall
  · cases hkey

/-- Members that were read have short keys and readable values. -/
theorem readable_of_readMembers {read : Octets → Except BodyFault (Value × Octets)}
    (hread : ∀ bytes r, read bytes = .ok r → Readable budget r.1) {count : Nat}
    {r : List (String × Value) × Octets} (h : readMembers read count bytes = .ok r) :
    (∀ e ∈ r.1, (Octets.ofText e.1).length < 4294967296 ∧ Readable budget e.2) ∧
      r.1.length = count := by
  cases count with
  | zero =>
    obtain rfl := Except.ok.inj h
    exact ⟨fun e he => (by cases he), rfl⟩
  | succ count =>
    obtain ⟨⟨first, rest⟩, hfirst, h⟩ := bind_eq_ok_iff.mp h
    have hmember (first : Bool) (bytes : Octets) (r : (String × Value) × Octets)
        (h : readMember read first bytes = .ok r) :
        (Octets.ofText r.1.1).length < 4294967296 ∧ Readable budget r.1.2 :=
      readable_of_readMember hread h
    -- The first member is read apart from the others, so it stands before them from the start.
    obtain ⟨hall, hlength⟩ := forall_of_readMany
      (p := fun e => (Octets.ofText e.1).length < 4294967296 ∧ Readable budget e.2)
      (hmember false) h (List.forall_mem_singleton.mpr (hmember true _ _ hfirst))
    exact ⟨hall, hlength.trans (Nat.add_comm 1 count)⟩

/-- A float is read as a float or, if it is not finite, as null. -/
theorem readable_ofBinary64 (x : Binary64) : Readable budget (.ofBinary64 x) := by
  rw [Value.ofBinary64]
  split
  · exact .of_scalar rfl trivial
  · exact .of_scalar rfl trivial

/-- One head is read; what is in a container is read within a smaller budget. -/
theorem readable_of_readValue_below
    (hbelow : ∀ b, budget = b + 1 → ∀ bytes r, readValue b bytes = .ok r → Readable b r.1)
    {r : Value × Octets} (h : readValue budget bytes = .ok r) : Readable budget r.1 := by
  rw [readValue] at h
  obtain ⟨⟨head, rest⟩, hhead, h⟩ := bind_eq_ok_iff.mp h
  have hsmall : head.Small := small_of_readHead hhead
  -- By cases on the head, which was small; what it announces is read one level down.
  cases head with
  | nil | bool | unsigned | signed =>
    obtain rfl := Except.ok.inj h
    exact .of_scalar rfl trivial
  | single | double =>
    obtain rfl := Except.ok.inj h
    exact readable_ofBinary64 _
  | text blob =>
    obtain ⟨s, hs, h⟩ := bind_eq_ok_iff.mp h
    obtain rfl := Except.ok.inj h
    refine .of_scalar rfl ?_
    show (Octets.ofText s).length < 4294967296
    rw [ofText_of_textOf hs]
    exact hsmall
  | array count =>
    cases budget with
    | zero => cases h
    | succ budget =>
      obtain ⟨items, hitems, h⟩ := bind_eq_ok_iff.mp h
      obtain rfl := Except.ok.inj h
      obtain ⟨hall, hlength⟩ := forall_of_readMany (hbelow budget rfl) hitems (by simp)
      rw [List.length_nil, Nat.zero_add] at hlength
      exact .of_items (hlength ▸ hsmall) hall
  | map count =>
    cases budget with
    | zero => cases h
    | succ budget =>
      obtain ⟨entries, hentries, h⟩ := bind_eq_ok_iff.mp h
      obtain rfl := Except.ok.inj h
      obtain ⟨hall, hlength⟩ := readable_of_readMembers (hbelow budget rfl) hentries
      exact .of_entries (hlength ▸ hsmall) hall
  | binary | extension => cases h

/-- A value that was read can be written, and is read back within the same budget. -/
theorem readable_of_readValue {r : Value × Octets} (h : readValue budget bytes = .ok r) :
    Readable budget r.1 := by
  induction budget generalizing bytes r with
  | zero => exact readable_of_readValue_below (fun b hb => by cases hb) h
  | succ budget ih =>
    refine readable_of_readValue_below (fun b hb bytes r h => ?_) h
    obtain rfl := Nat.succ.inj hb
    exact ih h

/-! ### Fields -/

/-- A draft keeps what holds of it when it is empty and after each field. -/
theorem Layout.of_read {δ : Type} {layout : Layout δ} {p : δ → Prop} (hempty : p layout.empty)
    (hfield : ∀ field draft bytes r, p draft → layout.readField field draft bytes = .ok r → p r.1)
    {draft : δ} (h : layout.read bytes = .ok draft) : p draft := by
  -- By induction on the entries: a field keeps the property, and an unknown one is skipped.
  have hentries : ∀ budget count draft bytes r, p draft →
      layout.readEntries budget count draft bytes = .ok r → p r.1 := by
    intro budget count
    induction count with
    | zero =>
      intro draft bytes r hdraft h
      obtain rfl := Except.ok.inj h
      exact hdraft
    | succ count ih =>
      intro draft bytes r hdraft h
      obtain ⟨key, -, h⟩ := bind_eq_ok_iff.mp h
      obtain ⟨field, -, h⟩ := bind_eq_ok_iff.mp h
      cases field with
      | some field =>
        obtain ⟨next, hnext, h⟩ := bind_eq_ok_iff.mp h
        exact ih _ _ _ (hfield _ _ _ _ hdraft hnext) h
      | none =>
        obtain ⟨rest, -, h⟩ := bind_eq_ok_iff.mp h
        exact ih _ _ _ hdraft h
  -- By induction on the items, of which each is the next field.
  have hsequence : ∀ count next draft bytes r, p draft →
      layout.readSequence count next draft bytes = .ok r → p r.1 := by
    intro count
    induction count with
    | zero =>
      intro next draft bytes r hdraft h
      obtain rfl := Except.ok.inj h
      exact hdraft
    | succ count ih =>
      intro next draft bytes r hdraft h
      obtain ⟨following, hfollowing, h⟩ := bind_eq_ok_iff.mp h
      exact ih _ _ _ _ (hfield _ _ _ _ hdraft hfollowing) h
  -- A message is a map or an array; every other head is refused.
  obtain ⟨head, -, h⟩ := bind_eq_ok_iff.mp h
  split at h
  · obtain ⟨r, hr, h⟩ := bind_eq_ok_iff.mp h
    obtain rfl := Except.ok.inj h
    exact hentries _ _ _ _ _ hempty hr
  · split at h
    · cases h
    · obtain ⟨r, hr, h⟩ := bind_eq_ok_iff.mp h
      obtain rfl := Except.ok.inj h
      exact hsequence _ _ _ _ _ hempty hr
  · cases h

/-- What was filled in is what was read. -/
theorem forall_mem_of_fill {α : Type} {name : String} {field : Option α} {p : α → Prop}
    {read : Except BodyFault (α × Octets)} (hread : ∀ r, read = .ok r → p r.1)
    {r : Option α × Octets} (h : fill name field read = .ok r) : ∀ a ∈ r.1, p a := by
  cases field with
  | some a => cases h
  | none =>
    obtain ⟨first, hfirst, rfl⟩ := map_eq_ok_iff.mp h
    rintro a ⟨⟩
    exact hread first hfirst

/-- A field that was needed and found is there. -/
theorem eq_some_of_need {α : Type} {name : String} {field : Option α} {a : α}
    (h : need name field = .ok a) : field = some a := by
  cases field with
  | some b => exact congrArg some (Except.ok.inj h)
  | none => cases h

/-- A text that was read is short. -/
theorem short_of_readText {r : String × Octets} (h : readText bytes = .ok r) :
    (Octets.ofText r.1).length < 4294967296 := by
  obtain ⟨head, hhead, h⟩ := bind_eq_ok_iff.mp h
  have hsmall := small_of_readHead hhead
  split at h
  · obtain ⟨s, hs, h⟩ := bind_eq_ok_iff.mp h
    obtain rfl := Except.ok.inj h
    rw [ofText_of_textOf hs]
    exact hsmall
  · obtain ⟨s, hs, h⟩ := bind_eq_ok_iff.mp h
    obtain rfl := Except.ok.inj h
    rw [ofText_of_textOf hs]
    exact hsmall
  · cases h

/-- Bytes that stand for a list of values are read as integers. -/
theorem readable_of_readValues {r : List Value × Octets}
    (h : readValues (budget + 1) bytes = .ok r) :
    r.1.length < 4294967296 ∧ ∀ v ∈ r.1, Readable budget v := by
  obtain ⟨head, hhead, h⟩ := bind_eq_ok_iff.mp h
  have hsmall := small_of_readHead hhead
  split at h
  · rename_i heq
    obtain rfl := Nat.succ.inj heq
    obtain ⟨hall, hlength⟩ := forall_of_readMany (fun _ _ => readable_of_readValue) h (by simp)
    rw [List.length_nil, Nat.zero_add] at hlength
    exact ⟨hlength ▸ hsmall, hall⟩
  · -- A blob is a list of small numbers.
    obtain rfl := Except.ok.inj h
    refine ⟨?_, fun v hv => ?_⟩
    · rw [List.length_map]
      exact hsmall
    · obtain ⟨b, -, rfl⟩ := List.mem_map.mp hv
      exact .of_scalar rfl trivial
  · cases h
  · cases h

/-! ### Messages -/

/-- What has been read of a request is short and readable. -/
structure RequestDraft.Readable (draft : RequestDraft) : Prop where
  service : ∀ s ∈ draft.service, (Octets.ofText s).length < 4294967296
  method : ∀ s ∈ draft.method, (Octets.ofText s).length < 4294967296
  args : ∀ args ∈ draft.args, args.length < 4294967296 ∧
    ∀ v ∈ args, MsgPack.Readable valueLimit v

/-- Reading a field keeps the draft of a request readable. -/
theorem RequestDraft.Readable.readField {field : Nat} {draft : RequestDraft}
    {r : RequestDraft × Octets} (hdraft : draft.Readable)
    (h : RequestDraft.layout.readField field draft bytes = .ok r) : r.1.Readable := by
  rcases field with _ | _ | _ | field
  all_goals
    obtain ⟨next, hnext, h⟩ := bind_eq_ok_iff.mp h
    obtain rfl := Except.ok.inj h
  · exact ⟨hdraft.service, hdraft.method, hdraft.args⟩
  · exact ⟨forall_mem_of_fill (fun _ => short_of_readText) hnext, hdraft.method, hdraft.args⟩
  · exact ⟨hdraft.service, forall_mem_of_fill (fun _ => short_of_readText) hnext, hdraft.args⟩
  · exact ⟨hdraft.service, hdraft.method,
      forall_mem_of_fill (fun _ => readable_of_readValues) hnext⟩

/-- What has been read of a response is short and readable. -/
structure ResponseDraft.Readable (draft : ResponseDraft) : Prop where
  text : ∀ s ∈ draft.text, (Octets.ofText s).length < 4294967296
  data : ∀ v ∈ draft.data, MsgPack.Readable (valueLimit + 1) v

theorem ResponseDraft.Readable.readField {field : Nat} {draft : ResponseDraft}
    {r : ResponseDraft × Octets} (hdraft : draft.Readable)
    (h : ResponseDraft.layout.readField field draft bytes = .ok r) : r.1.Readable := by
  rcases field with _ | _ | _ | _ | _ | field
  all_goals
    obtain ⟨next, hnext, h⟩ := bind_eq_ok_iff.mp h
    obtain rfl := Except.ok.inj h
  · exact ⟨hdraft.text, hdraft.data⟩
  · exact ⟨hdraft.text, hdraft.data⟩
  · exact ⟨forall_mem_of_fill (fun _ => short_of_readText) hnext, hdraft.data⟩
  · exact ⟨hdraft.text, hdraft.data⟩
  · exact ⟨hdraft.text, hdraft.data⟩
  · exact ⟨hdraft.text, forall_mem_of_fill (fun _ => readable_of_readValue) hnext⟩

/-- A request that was read can be written, and its arguments are read back where they stand. -/
theorem readable_of_decodeRequest {r : Request} (h : decodeRequest bytes = .ok r) :
    (Message.request r).Short ∧ ∀ v ∈ r.args, Readable valueLimit v := by
  obtain ⟨draft, hdraft, h⟩ := bind_eq_ok_iff.mp h
  obtain ⟨id, -, h⟩ := bind_eq_ok_iff.mp h
  obtain ⟨service, hservice, h⟩ := bind_eq_ok_iff.mp h
  obtain ⟨method, hmethod, h⟩ := bind_eq_ok_iff.mp h
  obtain rfl := Except.ok.inj h
  have hempty : RequestDraft.layout.empty.Readable := ⟨nofun, nofun, nofun⟩
  have hread : draft.Readable :=
    Layout.of_read hempty (fun _ _ _ _ hdraft h => hdraft.readField h) hdraft
  have hargs : (draft.args.getD []).length < 4294967296 ∧
      ∀ v ∈ draft.args.getD [], Readable valueLimit v := by
    cases hsome : draft.args with
    | none => exact ⟨by decide, nofun⟩
    | some args => exact hread.args args hsome
  -- The texts of the request were read, and so were its arguments; what is missing is empty.
  refine ⟨⟨fun s hs => ?_, hargs.1, fun v hv => (hargs.2 v hv).short⟩, hargs.2⟩
  simp only [Message.texts, List.mem_cons, List.not_mem_nil, or_false] at hs
  rcases hs with rfl | rfl
  · exact hread.service _ (eq_some_of_need hservice)
  · exact hread.method _ (eq_some_of_need hmethod)

/-- A response that was read is short, and its data are readable. -/
theorem readable_of_decodeResponse {r : Response} (h : decodeResponse bytes = .ok r) :
    (Message.response r).Short ∧ Readable (valueLimit + 1) r.data := by
  obtain ⟨draft, hdraft, h⟩ := bind_eq_ok_iff.mp h
  obtain ⟨id, -, h⟩ := bind_eq_ok_iff.mp h
  obtain ⟨code, -, h⟩ := bind_eq_ok_iff.mp h
  obtain ⟨compression, -, h⟩ := bind_eq_ok_iff.mp h
  obtain ⟨serialization, -, h⟩ := bind_eq_ok_iff.mp h
  obtain rfl := Except.ok.inj h
  have hempty : ResponseDraft.layout.empty.Readable := ⟨nofun, nofun⟩
  have hread : draft.Readable :=
    Layout.of_read hempty (fun _ _ _ _ hdraft h => hdraft.readField h) hdraft
  have hdata : Readable (valueLimit + 1) (draft.data.getD .null) := by
    cases hsome : draft.data with
    | none => exact .of_scalar rfl trivial
    | some v => exact hread.data v hsome
  -- A text that is missing is empty, and so it is short.
  have htext : (Octets.ofText (draft.text.getD "")).length < 4294967296 := by
    cases hsome : draft.text with
    | none => decide
    | some s => exact hread.text s hsome
  refine ⟨⟨fun s hs => ?_, show 1 < 4294967296 by decide, fun v hv => ?_⟩, hdata⟩
  · rw [List.mem_singleton.mp hs]
    exact htext
  · rw [List.mem_singleton.mp hv]
    exact hdata.short

/-! ### Reading again -/

/-- A short request with readable arguments is read back. -/
theorem decodeRequest_of_readable {r : Request} (hshort : (Message.request r).Short)
    (hargs : ∀ v ∈ r.args, Readable valueLimit v) : decodeRequest (encodeRequest r) = .ok r := by
  have h := decodeRequest_encodeRequest r (fun v hv => (hargs v hv).normal) hshort []
  rw [List.append_nil] at h
  exact h.eq_ok fun v hv => (hargs v hv).nests

theorem decodeResponse_of_readable {r : Response} (hshort : (Message.response r).Short)
    (hdata : Readable (valueLimit + 1) r.data) :
    decodeResponse (encodeResponse r) = .ok r := by
  have hnormal : (Message.response r).Normal := List.forall_mem_singleton.mpr hdata.normal
  have h := decodeResponse_encodeResponse r hnormal hshort []
  rw [List.append_nil] at h
  exact h.eq_ok hdata.nests

/-- **Accepted bodies.**  A message that was read from any bytes is normal, and is read again from
its own body. -/
theorem decode_encode_of_decode {kind : FrameKind} {m : Message} (h : decode kind bytes = .ok m) :
    m.Normal ∧ decode kind (encode m) = .ok m := by
  cases kind with
  | request =>
    obtain ⟨r, hr, rfl⟩ := map_eq_ok_iff.mp (mapError_eq_ok_iff.mp h)
    obtain ⟨hshort, hargs⟩ := readable_of_decodeRequest hr
    refine ⟨fun v hv => (hargs v hv).normal, ?_⟩
    rw [decode, encode, decodeRequest_of_readable hshort hargs]
    rfl
  | response =>
    obtain ⟨r, hr, rfl⟩ := map_eq_ok_iff.mp (mapError_eq_ok_iff.mp h)
    obtain ⟨hshort, hdata⟩ := readable_of_decodeResponse hr
    refine ⟨List.forall_mem_singleton.mpr hdata.normal, ?_⟩
    rw [decode, encode, decodeResponse_of_readable hshort hdata]
    rfl
  | ping | pong => cases h

/-- An argument that was read can be sent back: as the data of a response it may even be nested one
level deeper than it can be here. -/
theorem decode_encode_ok_of_decode {r : Request} (h : decode .request bytes = .ok (.request r))
    {v : Value} (hv : v ∈ r.args) (id : UInt64) (compression serialization : UInt8) :
    decode .response
        (encode (.response ((Response.ok id v).withTags compression serialization))) =
      .ok (.response ((Response.ok id v).withTags compression serialization)) := by
  obtain ⟨r', hr, heq⟩ := map_eq_ok_iff.mp (mapError_eq_ok_iff.mp h)
  cases heq
  obtain ⟨hnormal, hshort, hnests⟩ := (readable_of_decodeRequest hr).2 v hv
  -- What was an argument may nest one level deeper as the data of a response.
  have hdata : Readable (valueLimit + 1) v :=
    ⟨hnormal, hshort, fun _ _ _ hu => Nat.le_succ_of_le (hnests hu)⟩
  have hmessage : (Message.response
      ((Response.ok id v).withTags compression serialization)).Short := by
    refine ⟨fun s hs => ?_, show 1 < 4294967296 by decide, fun u hu => ?_⟩
    · rw [List.mem_singleton.mp hs]
      exact (by decide : (Octets.ofText "").length < 4294967296)
    · rw [List.mem_singleton.mp hu]
      exact hshort
  rw [decode, encode, decodeResponse_of_readable hmessage hdata]
  rfl

end WireCall.MsgPack
