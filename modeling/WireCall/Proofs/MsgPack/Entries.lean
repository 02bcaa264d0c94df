import Mathlib.Data.List.Nodup
import WireCall.Proofs.MsgPack.Written
import WireCall.Proofs.MsgPack.Message

namespace WireCall.MsgPack

/-!
# The entries of a map

`Entries` says which bytes are the entries of a map that holds given fields, in the order of the
list: each field under its name or its index, and anywhere between them entries under keys that no
field has, with any item for a value.  `Body` puts the size of the map in front.

What a reader makes of such a map depends on the fields alone.  It takes them one by one, refuses a
field that it has had and one whose content does not suit the field, and otherwise remembers the
content (`gather`); the entries of unknown keys leave no trace (`Layout.readEntries_of_entries`).  A
layout is described by what its fields take (`Slot`) and by the draft for given contents
(`Layout.Fills`), so the run over the entries is proved once for both kinds of messages.

Main statement: a map is read as the fields in it (`Layout.read_of_body`).
-/

/-! ### Entries -/

/-- The head, as a key, names the field with the given index. -/
def Head.Names (names : List String) (i : Nat) : Head → Prop
  | .text blob | .binary blob => ∃ name, names[i]? = some name ∧ Octets.ofText name = blob
  | .unsigned n => n.toNat = i ∧ i < names.length
  | _ => False

/-- The head, as a key, names no field. -/
def Head.IsStrange (names : List String) : Head → Prop
  | .text blob | .binary blob => ∀ name ∈ names, Octets.ofText name ≠ blob
  | .unsigned n => names.length ≤ n.toNat
  | _ => False

/-- The bytes are so many entries of a map, among them the fields with their contents. -/
inductive Entries (names : List String) : Nat → List (Nat × Value) → Octets → Prop where
  | nil : Entries names 0 [] []
  | known {count i : Nat} {fields : List (Nat × Value)} {head : Head} {v : Value}
      {key value more : Octets} (named : head.Names names i) (form : head.Form key)
      (written : Written v value) (entries : Entries names count fields more) :
      Entries names (count + 1) ((i, v) :: fields) (key ++ (value ++ more))
  | unknown {count : Nat} {fields : List (Nat × Value)} {head : Head} {key item more : Octets}
      (strange : head.IsStrange names) (form : head.Form key) (skipped : Item 1021 item)
      (entries : Entries names count fields more) :
      Entries names (count + 1) fields (key ++ (item ++ more))

/-- The bytes are a map with the fields and with any others that are unknown. -/
def Body (names : List String) (fields : List (Nat × Value)) (bytes : Octets) : Prop :=
  ∃ count header entries, bytes = header ++ entries ∧ (Head.map count).Form header ∧
    Entries names count fields entries

/-- Every field of a written body has a written value. -/
theorem Entries.written {names : List String} {count : Nat} {fields : List (Nat × Value)}
    {bytes : Octets} (h : Entries names count fields bytes) :
    ∀ field ∈ fields, ∃ value, Written field.2 value := by
  induction h with
  | nil => exact nofun
  | known _ _ hwritten _ ih => exact List.forall_mem_cons.mpr ⟨⟨_, hwritten⟩, ih⟩
  | unknown _ _ _ _ ih => exact ih

/-! ### What a field takes -/

/-- What may stand in a field. -/
inductive Slot where
  | integer (least greatest : Int)
  | text
  | values
  | value

/-- Whether the content suits the field. -/
def Slot.check : Slot → Value → Except BodyFault Unit
  | integer least greatest, .int n =>
    if least ≤ n.val ∧ n.val ≤ greatest then .ok () else .error .outOfRange
  | text, .str _ => .ok ()
  | values, .list items => orTooDeep (∀ v ∈ items, NestsWithin valueLimit v) ()
  | value, v => orTooDeep (NestsWithin (valueLimit + 1) v) ()
  | _, _ => .error .wrongKind

/-- The integer in a content. -/
def integerIn : Value → Int
  | .int n => n.val
  | _ => 0

/-- The text in a content. -/
def textIn : Value → String
  | .str s => s
  | _ => ""

/-- The values in a content. -/
def valuesIn : Value → List Value
  | .list items => items
  | _ => []

section Readers

variable {v : Value} {bytes : Octets}

/-- The head is the first of a form of the value, as far as its kind tells. -/
def Head.Starts : Value → Head → Bool
  | .null, .nil | .bool _, .bool _ | .int _, .unsigned _ | .int _, .signed _
  | .float _, .single _ | .float _, .double _ | .str _, .text _ | .list _, .array _
  | .object _, .map _ => true
  | _, _ => false

/-- A written value begins with a head of the kind that starts it. -/
theorem exists_head_of_written (h : Written v bytes) :
    ∃ head header body, bytes = header ++ body ∧ Head.Form head header ∧ Head.Starts v head := by
  have hscalar {head : Head} (hform : head.Form bytes) (hstarts : Head.Starts v head) :
      ∃ head header body, bytes = header ++ body ∧ Head.Form head header ∧ Head.Starts v head :=
    ⟨head, bytes, [], (List.append_nil bytes).symm, hform, hstarts⟩
  -- By cases on the value: a scalar is its head, and a container has its items behind it.
  cases v with
  | null | bool | str =>
    rw [Written] at h
    exact hscalar h rfl
  | int n =>
    rw [Written] at h
    rcases h with ⟨k, -, h⟩ | ⟨k, -, h⟩ <;> exact hscalar h rfl
  | float x =>
    rw [Written] at h
    rcases h with h | ⟨y, -, h⟩ <;> exact hscalar h rfl
  | list items =>
    obtain ⟨header, body, rfl, hheader, -⟩ := written_list.mp h
    exact ⟨_, header, body, rfl, hheader, rfl⟩
  | object members =>
    obtain ⟨header, body, rfl, hheader, -⟩ := written_object.mp h
    exact ⟨_, header, body, rfl, hheader, rfl⟩

/-- A reader that has no use for values of this kind. -/
theorem wrongKind_of_written {α : Type} {next : Head × Octets → Except BodyFault α}
    (h : Written v bytes)
    (hnext : ∀ head rest, Head.Starts v head → next (head, rest) = .error .wrongKind)
    (rest : Octets) : (readHead (bytes ++ rest) >>= next) = .error .wrongKind := by
  obtain ⟨head, header, body, rfl, hform, hstarts⟩ := exists_head_of_written h
  rw [List.append_assoc, readHead_of_form hform]
  exact hnext head (body ++ rest) hstarts

/-- From a written value an integer is read exactly if it is one in range. -/
theorem readInteger_of_written (h : Written v bytes) (least greatest : Int) (rest : Octets) :
    readInteger least greatest (bytes ++ rest) =
      ((Slot.integer least greatest).check v).map fun _ => (integerIn v, rest) := by
  cases v with
  | int n =>
    have hread : readInteger least greatest (bytes ++ rest) =
        if least ≤ n.val ∧ n.val ≤ greatest then .ok (n.val, rest) else .error .outOfRange := by
      rw [Written] at h
      rcases h with ⟨k, rfl, h⟩ | ⟨k, rfl, h⟩ <;> rw [readInteger, readHead_of_form h] <;> rfl
    rw [hread, Slot.check]
    split <;> rfl
  | _ =>
    refine wrongKind_of_written h (fun head rest hstarts => ?_) rest
    cases head <;> first | rfl | cases hstarts

/-- From a written value a text is read exactly if it is one. -/
theorem readText_of_written (h : Written v bytes) (rest : Octets) :
    readText (bytes ++ rest) = (Slot.text.check v).map fun _ => (textIn v, rest) := by
  cases v with
  | str s =>
    rw [Written] at h
    rw [readText, readHead_of_form h]
    exact textOf_bind s fun s => Except.ok (s, rest)
  | _ =>
    refine wrongKind_of_written h (fun head rest hstarts => ?_) rest
    cases head <;> first | rfl | cases hstarts

/-- From a written value a list is read exactly if it is one that does not nest too deep. -/
theorem readValues_of_written (h : Written v bytes) (rest : Octets) :
    readValues (nestingLimit - 1) (bytes ++ rest) =
      (Slot.values.check v).map fun _ => (valuesIn v, rest) := by
  cases v with
  | list items =>
    obtain ⟨header, body, rfl, hheader, hbody⟩ := written_list.mp h
    have hitems := readMany_of_each
      (fun v _ {_} hv rest => readValue_of_written hv valueLimit rest) hbody [] rest
    rw [List.append_assoc, readValues, readHead_of_form hheader]
    show readMany (readValue valueLimit) items.length [] (body ++ rest) = _
    rw [hitems, Slot.check, orTooDeep, orTooDeep]
    split <;> rfl
  | _ =>
    refine wrongKind_of_written h (fun head rest hstarts => ?_) rest
    cases head <;> first | rfl | cases hstarts

/-- From a written value the value is read exactly if it does not nest too deep. -/
theorem readContent_of_written (h : Written v bytes) (rest : Octets) :
    readValue (nestingLimit - 1) (bytes ++ rest) =
      (Slot.value.check v).map fun _ => (v, rest) := by
  rw [readValue_of_written h, Slot.check, orTooDeep, orTooDeep]
  show (if NestsWithin (valueLimit + 1) v then _ else _) = _
  split <;> rfl

end Readers

/-! ### Fields, one after the other -/

/-- What a reader knows of the fields in the end, the latest first, when it takes these fields after
those that it knows already. -/
def gather (names : List String) (slot : Nat → Slot) (known : List (Nat × Value)) :
    List (Nat × Value) → Except BodyFault (List (Nat × Value))
  | [] => .ok known
  | (i, v) :: fields =>
    match known.lookup i with
    | some _ => .error (.repeatedField (names.getD i ""))
    | none => do
      (slot i).check v
      gather names slot ((i, v) :: known) fields

namespace Layout

variable {δ : Type} {layout : Layout δ} {slot : Nat → Slot} {draft : List (Nat × Value) → δ}

/-- The draft of the layout is filled with the contents of the fields that are known. -/
structure Fills (layout : Layout δ) (slot : Nat → Slot) (draft : List (Nat × Value) → δ) :
    Prop where
  distinct : layout.names.Nodup
  empty : draft [] = layout.empty
  readField {i : Nat} {name : String} {v : Value} {bytes : Octets}
    (named : layout.names[i]? = some name) (written : Written v bytes)
    (known : List (Nat × Value)) (rest : Octets) :
    layout.readField i (draft known) (bytes ++ rest) =
      match known.lookup i with
      | some _ => .error (.repeatedField name)
      | none => ((slot i).check v).map fun _ => (draft ((i, v) :: known), rest)

/-- A text is known by its bytes. -/
theorem ofText_injective {s t : String} (h : Octets.ofText s = Octets.ofText t) : s = t := by
  have htext := Octets.text?_ofText s
  rw [h, Octets.text?_ofText] at htext
  exact (Option.some.inj htext).symm

/-- A name is found at its own place, since the names are distinct. -/
theorem findIdx?_of_named (hdistinct : layout.names.Nodup) {i : Nat} {name : String}
    (hname : layout.names[i]? = some name) :
    layout.names.findIdx? (fun n => Octets.ofText n == Octets.ofText name) = some i := by
  obtain ⟨hi, hget⟩ := List.getElem?_eq_some_iff.mp hname
  refine List.findIdx?_eq_some_iff_getElem.mpr ⟨hi, by rw [hget, beq_self_eq_true], fun j hj => ?_⟩
  rw [beq_iff_eq]
  intro heq
  have hsame : layout.names[j] = layout.names[i] := (ofText_injective heq).trans hget.symm
  exact Nat.ne_of_lt hj (hdistinct.getElem_inj_iff.mp hsame)

/-- A head that names a field is taken for that field. -/
theorem fieldOf_of_names (hdistinct : layout.names.Nodup) {i : Nat} {head : Head}
    (h : head.Names layout.names i) : layout.fieldOf head = .ok (some i) := by
  cases head with
  | text blob | binary blob =>
    obtain ⟨name, hname, rfl⟩ := h
    rw [fieldOf, findIdx?_of_named hdistinct hname]
  | unsigned n =>
    obtain ⟨rfl, hi⟩ := h
    rw [fieldOf, if_pos hi]
  | _ => exact absurd h id

/-- A head that names none is taken for no field. -/
theorem fieldOf_of_isStrange {head : Head} (h : head.IsStrange layout.names) :
    layout.fieldOf head = .ok none := by
  cases head with
  | text blob | binary blob =>
    have hnone : layout.names.findIdx? (fun name => Octets.ofText name == blob) = none :=
      List.findIdx?_eq_none_iff.mpr fun name hname => beq_eq_false_iff_ne.mpr (h name hname)
    rw [fieldOf, hnone]
  | unsigned n => rw [fieldOf, if_neg (Nat.not_lt.mpr h)]
  | _ => exact absurd h id

/-- The field that a head names has a name. -/
theorem exists_name_of_names {i : Nat} {head : Head} (h : head.Names layout.names i) :
    ∃ name, layout.names[i]? = some name := by
  cases head with
  | text blob | binary blob =>
    obtain ⟨name, hname, -⟩ := h
    exact ⟨name, hname⟩
  | unsigned n => exact ⟨_, List.getElem?_eq_getElem h.2⟩
  | _ => exact absurd h id

/-- The entries of a map are read as the fields among them. -/
theorem readEntries_of_entries (hfills : layout.Fills slot draft) {count : Nat}
    {fields : List (Nat × Value)} {bytes : Octets}
    (h : Entries layout.names count fields bytes) (known : List (Nat × Value)) (rest : Octets) :
    layout.readEntries (nestingLimit - 1) count (draft known) (bytes ++ rest) =
      (gather layout.names slot known fields).map fun known => (draft known, rest) := by
  -- The draft stands for the fields that are known; an unknown entry leaves it as it was.
  induction h generalizing known with
  | nil => rfl
  | @known count i fields head v key value more hnamed hform hwritten _ ih =>
    obtain ⟨name, hname⟩ := exists_name_of_names hnamed
    have hgetD : layout.names.getD i "" = name := by
      rw [List.getD_eq_getElem?_getD, hname]
      rfl
    rw [List.append_assoc, List.append_assoc, readEntries, readHead_of_form hform]
    show (layout.fieldOf head >>= _) = _
    rw [fieldOf_of_names hfills.distinct hnamed]
    show (layout.readField i (draft known) (value ++ (more ++ rest)) >>= fun r =>
      layout.readEntries (nestingLimit - 1) count r.1 r.2) = _
    rw [hfills.readField hname hwritten, gather, hgetD]
    cases hlookup : known.lookup i with
    | some _ => rfl
    | none =>
      cases (slot i).check v with
      | error fault => rfl
      | ok _ => exact ih ((i, v) :: known)
  | @unknown count fields head key item more hstrange hform hitem _ ih =>
    rw [List.append_assoc, List.append_assoc, readEntries, readHead_of_form hform]
    show (layout.fieldOf head >>= _) = _
    rw [fieldOf_of_isStrange hstrange]
    show (skipValue (nestingLimit - 1) (item ++ (more ++ rest)) >>= fun r =>
      layout.readEntries (nestingLimit - 1) count (draft known) r) = _
    rw [skipValue_of_item hitem (by decide)]
    exact ih known

/-- A map is read as the fields in it. -/
theorem read_of_body (hfills : layout.Fills slot draft) {fields : List (Nat × Value)}
    {bytes : Octets} (h : Body layout.names fields bytes) (rest : Octets) :
    layout.read (bytes ++ rest) = (gather layout.names slot [] fields).map draft := by
  obtain ⟨count, header, entries, rfl, hheader, hentries⟩ := h
  have hread := readEntries_of_entries hfills hentries [] rest
  rw [hfills.empty] at hread
  rw [List.append_assoc, read, readHead_of_form hheader]
  show (layout.readEntries (nestingLimit - 1) count layout.empty (entries ++ rest) >>= fun r =>
    Except.ok r.1) = _
  rw [hread]
  cases gather layout.names slot [] fields <;> rfl

end Layout

/-! ### Drafts -/

/-- A field that is empty if its content is not known yet. -/
theorem fill_of_read {α δ : Type} {name : String} {slot : Slot} {v : Value} {rest : Octets}
    (content : Value → α) {read : Except BodyFault (α × Octets)}
    (hread : read = (slot.check v).map fun _ => (content v, rest)) (put : Option α → δ)
    (found : Option Value) :
    (fill name (found.map content) read >>= fun r => Except.ok (put r.1, r.2)) =
      match found with
      | some _ => .error (.repeatedField name)
      | none => (slot.check v).map fun _ => (put (some (content v)), rest) := by
  cases found with
  | some _ => rfl
  | none =>
    rw [hread]
    cases slot.check v <;> rfl

/-- What the fields of a request take. -/
def RequestDraft.slot : Nat → Slot
  | 0 => .integer 0 IntKind.u64.max
  | 1 | 2 => .text
  | _ => .values

/-- The draft with the contents that are known. -/
def RequestDraft.ofKnown (known : List (Nat × Value)) : RequestDraft :=
  ⟨(known.lookup 0).map integerIn, (known.lookup 1).map textIn, (known.lookup 2).map textIn,
    (known.lookup 3).map valuesIn⟩

/-- The fields of a request fill its slots. -/
theorem RequestDraft.fills : layout.Fills slot ofKnown where
  distinct := by decide
  empty := rfl
  readField {i name v bytes} hname hwritten known rest := by
    -- Field by field: each is read as its own kind of content and put into its own place.
    match i, hname with
    | 0, rfl =>
      exact fill_of_read integerIn (readInteger_of_written hwritten _ _ rest)
        (fun requestId => { ofKnown known with requestId }) _
    | 1, rfl =>
      exact fill_of_read textIn (readText_of_written hwritten rest)
        (fun service => { ofKnown known with service }) _
    | 2, rfl =>
      exact fill_of_read textIn (readText_of_written hwritten rest)
        (fun method => { ofKnown known with method }) _
    | 3, rfl =>
      exact fill_of_read valuesIn (readValues_of_written hwritten rest)
        (fun args => { ofKnown known with args }) _

/-- What the fields of a response take. -/
def ResponseDraft.slot : Nat → Slot
  | 0 => .integer 0 IntKind.u64.max
  | 1 => .integer IntKind.i16.min IntKind.i16.max
  | 2 => .text
  | 3 | 4 => .integer 0 IntKind.u8.max
  | _ => .value

/-- The draft with the contents that are known. -/
def ResponseDraft.ofKnown (known : List (Nat × Value)) : ResponseDraft :=
  ⟨(known.lookup 0).map integerIn, (known.lookup 1).map integerIn, (known.lookup 2).map textIn,
    (known.lookup 3).map integerIn, (known.lookup 4).map integerIn, known.lookup 5⟩

theorem ResponseDraft.fills : layout.Fills slot ofKnown where
  distinct := by decide
  empty := rfl
  readField {i name v bytes} hname hwritten known rest := by
    match i, hname with
    | 0, rfl =>
      exact fill_of_read integerIn (readInteger_of_written hwritten _ _ rest)
        (fun requestId => { ofKnown known with requestId }) _
    | 1, rfl =>
      exact fill_of_read integerIn (readInteger_of_written hwritten _ _ rest)
        (fun code => { ofKnown known with code }) _
    | 2, rfl =>
      exact fill_of_read textIn (readText_of_written hwritten rest)
        (fun text => { ofKnown known with text }) _
    | 3, rfl =>
      exact fill_of_read integerIn (readInteger_of_written hwritten _ _ rest)
        (fun compression => { ofKnown known with compression }) _
    | 4, rfl =>
      exact fill_of_read integerIn (readInteger_of_written hwritten _ _ rest)
        (fun serialization => { ofKnown known with serialization }) _
    | 5, rfl =>
      have hdata : (known.lookup 5).map (fun v => v) = known.lookup 5 := Option.map_id' ..
      have hfill : (fill "data" ((known.lookup 5).map fun v => v) _ >>= _) = _ :=
        fill_of_read (fun v => v) (readContent_of_written hwritten rest)
          (fun data => { ofKnown known with data }) _
      rwa [hdata] at hfill

/-! ### Gathering -/

section Gather

variable {names : List String} {slot : Nat → Slot} {known known' fields : List (Nat × Value)}

/-- A field is not known exactly when it was not among those read. -/
theorem lookup_eq_none_iff {i : Nat} : known.lookup i = none ↔ i ∉ known.map Prod.fst := by
  rw [List.lookup_eq_none_iff]
  constructor
  · intro h hmem
    obtain ⟨field, hfield, rfl⟩ := List.mem_map.mp hmem
    exact bne_iff_ne.mp (h field hfield) rfl
  · intro h field hfield
    exact bne_iff_ne.mpr fun heq => h (heq ▸ List.mem_map.mpr ⟨field, hfield, rfl⟩)

/-- Of distinct fields each is known with its own value. -/
theorem lookup_of_mem {i : Nat} {v : Value} (hnodup : (known.map Prod.fst).Nodup)
    (h : (i, v) ∈ known) : known.lookup i = some v := by
  induction known with
  | nil => cases h
  | cons field known ih =>
    obtain ⟨j, w⟩ := field
    obtain ⟨hfresh, hnodup⟩ := List.nodup_cons.mp hnodup
    rcases List.mem_cons.mp h with heq | h
    · cases heq
      rw [List.lookup_cons, beq_self_eq_true]
    · have hne : i ≠ j := fun heq => hfresh (heq ▸ List.mem_map.mpr ⟨(i, v), h, rfl⟩)
      rw [List.lookup_cons, beq_eq_false_iff_ne.mpr hne]
      exact ih hnodup h

/-- Fields are gathered only if each of them is new. -/
theorem gather_eq_ok (h : gather names slot known fields = .ok known') :
    known' = fields.reverse ++ known ∧
      ((known.map Prod.fst).Nodup → (known'.map Prod.fst).Nodup) := by
  -- By induction on the fields: one that is known already is refused, and any other is added.
  induction fields generalizing known with
  | nil =>
    obtain rfl := Except.ok.inj h
    exact ⟨rfl, id⟩
  | cons field fields ih =>
    obtain ⟨i, v⟩ := field
    rw [gather] at h
    cases hlookup : known.lookup i with
    | some _ =>
      rw [hlookup] at h
      cases h
    | none =>
      rw [hlookup] at h
      obtain ⟨-, -, h⟩ := bind_eq_ok_iff.mp h
      obtain ⟨rfl, hnodup⟩ := ih h
      refine ⟨by rw [List.reverse_cons, List.append_assoc, List.singleton_append], fun hknown => ?_⟩
      exact hnodup (List.nodup_cons.mpr ⟨lookup_eq_none_iff.mp hlookup, hknown⟩)

/-- When nothing can go wrong but the nesting, all fields are gathered or one is too deep. -/
theorem gather_of_checks
    (hnodup : (fields.map Prod.fst).Nodup)
    (hfresh : ∀ field ∈ fields, field.1 ∉ known.map Prod.fst)
    (hchecks : ∀ field ∈ fields,
      (slot field.1).check field.2 = .ok () ∨ (slot field.1).check field.2 = .error .tooDeep) :
    ((∀ field ∈ fields, (slot field.1).check field.2 = .ok ()) ∧
      gather names slot known fields = .ok (fields.reverse ++ known)) ∨
    ((∃ field ∈ fields, (slot field.1).check field.2 = .error .tooDeep) ∧
      gather names slot known fields = .error .tooDeep) := by
  -- By induction on the fields: the first that nests too deep ends the gathering, if there is one.
  induction fields generalizing known with
  | nil => exact .inl ⟨nofun, rfl⟩
  | cons field fields ih =>
    obtain ⟨i, v⟩ := field
    obtain ⟨hnew, hnodup⟩ := List.nodup_cons.mp hnodup
    have hlookup := lookup_eq_none_iff.mpr (hfresh (i, v) (by simp))
    have hmore : ∀ field ∈ fields, field.1 ∉ ((i, v) :: known).map Prod.fst := by
      intro field hfield hmem
      rcases List.mem_cons.mp hmem with heq | hmem
      · exact hnew (heq ▸ List.mem_map.mpr ⟨field, hfield, rfl⟩)
      · exact hfresh field (by simp [hfield]) hmem
    rw [gather, hlookup]
    rcases hchecks (i, v) (by simp) with hcheck | hcheck
    · rcases ih hnodup hmore (fun field hfield => hchecks field (by simp [hfield])) with
        ⟨hall, hgather⟩ | ⟨⟨field, hfield, hdeep⟩, hgather⟩
      · refine .inl ⟨List.forall_mem_cons.mpr ⟨hcheck, hall⟩, ?_⟩
        dsimp only
        rw [hcheck, List.reverse_cons, List.append_assoc]
        exact hgather
      · refine .inr ⟨⟨field, by simp [hfield], hdeep⟩, ?_⟩
        dsimp only
        rw [hcheck]
        exact hgather
    · refine .inr ⟨⟨(i, v), by simp, hcheck⟩, ?_⟩
      dsimp only
      rw [hcheck]
      rfl

end Gather

end WireCall.MsgPack
