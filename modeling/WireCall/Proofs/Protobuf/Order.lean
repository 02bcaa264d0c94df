import Mathlib.Data.List.Nodup
import WireCall.Proofs.Protobuf.Length
import WireCall.Proofs.Protobuf.Message

namespace WireCall.Protobuf

/-!
# Messages with their fields in any order

`Pieces` says which bytes are given fields in the order of the list, each in its own form, with any
well-formed fields between them whose numbers the message does not have.  The reader steps over
these others, whatever is in them and however many bytes their numbers take, and it gets the given
fields (`readFields_pieces`); so what it makes of the bytes depends on the fields alone.

A field of a message that is a number or a text is taken without fail, and takes effect on a part
of the draft that no other field looks at (`Sets`).  It may therefore change places with any other
field.  Only the arguments of a request, which share a number, must keep their order
(`foldlM_rearranged`).

Main statement: the fields of a body may be put in any other order in which the arguments stay in
their own, and unknown fields may be put anywhere between them (`decode_of_pieces`).
-/

/-! ### Varints of any length -/

/-- The bytes are the groups of seven bits of a number, perhaps with zeros at its end. -/
inductive Groups : Nat → Octets → Prop where
  | last {b : UInt8} (unmarked : b < 128) : Groups b.toNat [b]
  | more {b : UInt8} {n : Nat} {bytes : Octets} (marked : ¬ b < 128) (groups : Groups n bytes) :
      Groups (b.toNat - 128 + 128 * n) (b :: bytes)

/-- The bytes are a varint. -/
def VarintForm (n : Nat) (bytes : Octets) : Prop :=
  Groups n bytes ∧ bytes.length ≤ 10 ∧ n < 0x10000000000000000

/-- No number is spread over no groups. -/
theorem Groups.ne_nil {n : Nat} {bytes : Octets} (h : Groups n bytes) : bytes ≠ [] := by
  cases h <;> exact List.cons_ne_nil _ _

/-- A number spread over groups is read back, however many of them are padding. -/
theorem readGroups_of_groups {n groups : Nat} {bytes : Octets} (h : Groups n bytes)
    (hlength : bytes.length ≤ groups + 1) (hsmall : n < 2 * Nat.pow 128 groups) (rest : Octets) :
    readGroups (groups + 1) (bytes ++ rest) = .ok (n, rest) := by
  induction h generalizing groups with
  | @last b hunmarked =>
    -- The last group that there is room for may have a single bit, and the bound sees to that.
    have hbit : ¬ (groups = 0 ∧ 2 ≤ b) := by
      rintro ⟨rfl, hb⟩
      have hone : Nat.pow 128 0 = 1 := rfl
      have htwo : (2 : UInt8).toNat = 2 := rfl
      rw [UInt8.le_iff_toNat_le] at hb
      omega
    rw [List.singleton_append, readGroups, if_pos hunmarked, if_neg hbit]
  | @more b n bytes hmarked hgroups ih =>
    have hpos := List.length_pos_iff.mpr hgroups.ne_nil
    rw [List.length_cons] at hlength
    obtain ⟨groups, rfl⟩ : ∃ k, groups = k + 1 := ⟨groups - 1, by omega⟩
    have hstep : Nat.pow 128 (groups + 1) = Nat.pow 128 groups * 128 := rfl
    rw [List.cons_append, readGroups, if_neg hmarked, ih (by omega) (by omega)]

/-- A varint is read back in any of its forms. -/
theorem readVarint_of_form {n : Nat} {bytes : Octets} (h : VarintForm n bytes) (rest : Octets) :
    readVarint (bytes ++ rest) = .ok (n, rest) :=
  readGroups_of_groups h.1 h.2.1 h.2.2 rest

/-! ### Unknown fields -/

/-- The bytes are a payload of the wire type, which is not that of a group. -/
def PayloadForm : WireType → Octets → Prop
  | .varint, bytes => ∃ n, VarintForm n bytes
  | .fixed64, bytes => bytes.length = 8
  | .delimited, bytes =>
    ∃ count content, bytes = count ++ content ∧ VarintForm content.length count
  | .fixed32, bytes => bytes.length = 4
  | .groupStart, _ | .groupEnd, _ => False

/-- A payload of an unknown field is skipped in any of its forms. -/
theorem skipPayload_of_form {wireType : WireType} {bytes : Octets} (h : PayloadForm wireType bytes)
    (budget number : Nat) (rest : Octets) :
    skipPayload (budget + 1) ⟨number, wireType⟩ (bytes ++ rest) = .ok rest := by
  have hfixed {count : Nat} (hcount : bytes.length = count) :
      readBytes count (bytes ++ rest) = .ok (bytes, rest) := by
    rw [← hcount, readBytes_append]
  -- By wire type: a payload of a fixed length, a varint, or a length with as many bytes behind it.
  cases wireType with
  | varint =>
    obtain ⟨n, hform⟩ := h
    show (readPayload .varint (bytes ++ rest) >>= _) = _
    rw [readPayload, readVarint_of_form hform]
    rfl
  | fixed64 =>
    show (readPayload .fixed64 (bytes ++ rest) >>= _) = _
    rw [readPayload, hfixed h]
    rfl
  | delimited =>
    obtain ⟨count, content, rfl, hform⟩ := h
    show (readPayload .delimited (count ++ content ++ rest) >>= _) = _
    rw [List.append_assoc, readPayload, readVarint_of_form hform]
    show ((readBytes content.length (content ++ rest) >>= _) >>= _) = _
    rw [readBytes_append]
    rfl
  | fixed32 =>
    show (readPayload .fixed32 (bytes ++ rest) >>= _) = _
    rw [readPayload, hfixed h]
    rfl
  | groupStart | groupEnd => exact h.elim

/-! ### Known fields -/

/-- The length of the payload, if it has one in front, can be written. -/
def Payload.Fits : Payload → Prop
  | delimited bytes => bytes.length < 0x10000000000000000
  | _ => True

/-- A payload is read back, or refused for a length that no varint can tell. -/
theorem readPayload_known {payload : Payload} (hrange : payload.InRange) (rest : Octets) :
    (payload.Fits ∧
      readPayload payload.wireType (payload.encode ++ rest) = .ok (payload, rest)) ∨
    (¬ payload.Fits ∧
      readPayload payload.wireType (payload.encode ++ rest) = .error .varintTooLong) := by
  have hread (hsmall : payload.encode.length < 0x10000000000000000) :
      readPayload payload.wireType (payload.encode ++ rest) = .ok (payload, rest) :=
    (readPayload_encode hrange (fun _ : True => hsmall) rest).eq_ok trivial
  cases payload with
  | varint n =>
    exact .inl ⟨trivial, hread (Nat.lt_of_le_of_lt (length_varint_le n) (by decide))⟩
  | fixed64 n =>
    refine .inl ⟨trivial, hread ?_⟩
    rw [Payload.encode, Octets.length_littleEndian]
    decide
  | delimited bytes =>
    -- No memory holds bytes of such a length, but the writer has no limit of its own.
    by_cases hfits : bytes.length < 0x10000000000000000
    · refine .inl ⟨hfits, ?_⟩
      rw [Payload.wireType, Payload.encode, List.append_assoc, readPayload,
        readVarint_varint hfits]
      show (readBytes bytes.length (bytes ++ rest) >>= _) = _
      rw [readBytes_append]
      rfl
    · refine .inr ⟨hfits, ?_⟩
      have hlong : readVarint (varint bytes.length ++ (bytes ++ rest)) = .error .varintTooLong :=
        readGroups_varintGroups_of_le 9 _ _ (Nat.le_of_not_lt hfits)
      rw [Payload.wireType, Payload.encode, List.append_assoc, readPayload, hlong]
      rfl
  | fixed32 n =>
    refine .inl ⟨trivial, hread ?_⟩
    rw [Payload.encode, Octets.length_littleEndian]
    decide

/-! ### Pieces -/

/-- The bytes are the fields in their order, with any fields between them whose numbers are above
the last one that the message has. -/
inductive Pieces (last : Nat) : List Field → Octets → Prop where
  | nil : Pieces last [] []
  | known {field : Field} {fields : List Field} {more : Octets} (pieces : Pieces last fields more) :
      Pieces last (field :: fields) (field.encode ++ more)
  | unknown {number : Nat} {wireType : WireType} {fields : List Field} {key payload more : Octets}
      (above : last < number ∧ number < 0x20000000)
      (keyForm : VarintForm (8 * number + wireType.number) key)
      (payloadForm : PayloadForm wireType payload) (pieces : Pieces last fields more) :
      Pieces last fields (key ++ (payload ++ more))

/-- Fields written one behind the other are pieces of themselves. -/
theorem pieces_flatMap (last : Nat) (fields : List Field) :
    Pieces last fields (fields.flatMap Field.encode) := by
  induction fields with
  | nil => exact .nil
  | cons field fields ih =>
    rw [List.flatMap_cons]
    exact .known ih

/-- A field with a number above the last one is skipped. -/
theorem readFieldsOnto_unknown {last number : Nat} {wireType : WireType} {key payload : Octets}
    (habove : last < number ∧ number < 0x20000000)
    (hkey : VarintForm (8 * number + wireType.number) key) (hpayload : PayloadForm wireType payload)
    (budget fuel : Nat) (got : List Field) (more : Octets) :
    readFieldsOnto (.upTo last) (budget + 1) (fuel + 1) got (key ++ (payload ++ more)) =
      readFieldsOnto (.upTo last) (budget + 1) fuel got more := by
  have hne : key ++ (payload ++ more) ≠ [] := by simp [hkey.1.ne_nil]
  have hread := readKey_of_readVarint (Nat.zero_lt_of_lt habove.1) habove.2
    (readVarint_of_form hkey (payload ++ more))
  have hunknown : Schema.upTo last ⟨number, wireType⟩ = none := if_neg (Nat.not_le.mpr habove.1)
  rw [readFieldsOnto_of_ne_nil hne, hread]
  dsimp only [bind, Except.bind]
  rw [hunknown]
  dsimp only
  rw [skipPayload_of_form hpayload]

/-- The reader finds the fields, or a length among them could not be written. -/
theorem readFieldsOnto_pieces {last : Nat} {fields : List Field} {bytes : Octets}
    (h : Pieces last fields bytes) (htakes : ∀ field ∈ fields, (Schema.upTo last).Takes field)
    (budget : Nat) (got : List Field) {fuel : Nat} (hfuel : bytes.length ≤ fuel) :
    ((∀ field ∈ fields, field.payload.Fits) ∧
      readFieldsOnto (.upTo last) (budget + 1) fuel got bytes = .ok (got.reverse ++ fields)) ∨
    ((¬ ∀ field ∈ fields, field.payload.Fits) ∧
      readFieldsOnto (.upTo last) (budget + 1) fuel got bytes = .error .varintTooLong) := by
  -- Along the pieces: an unknown field takes a turn of the reader, but adds nothing to the fields.
  induction h generalizing got fuel with
  | nil =>
    rw [readFieldsOnto, List.append_nil]
    exact .inl ⟨List.forall_mem_nil _, rfl⟩
  | @known field fields more hpieces ih =>
    have hpos := List.length_pos_iff.mpr field.encode_ne_nil
    rw [List.length_append] at hfuel
    obtain ⟨fuel, rfl⟩ : ∃ k, fuel = k + 1 := ⟨fuel - 1, by omega⟩
    obtain ⟨htake, htakes⟩ := List.forall_mem_cons.mp htakes
    rw [readFieldsOnto_encode htake, List.forall_mem_cons]
    rcases readPayload_known htake.inRange more with ⟨hfits, hpayload⟩ | ⟨hlong, hpayload⟩
    · have hmore : more.length ≤ fuel := by omega
      have hrest := ih htakes (field :: got) hmore
      rw [List.reverse_cons, List.append_assoc] at hrest
      rw [hpayload]
      rcases hrest with ⟨hall, hrest⟩ | ⟨hnot, hrest⟩
      · exact .inl ⟨⟨hfits, hall⟩, hrest⟩
      · exact .inr ⟨fun hboth => hnot hboth.2, hrest⟩
    · rw [hpayload]
      exact .inr ⟨fun hboth => hlong hboth.1, rfl⟩
  | @unknown number wireType fields key payload more habove hkey hpayload hpieces ih =>
    have hpos := List.length_pos_iff.mpr hkey.1.ne_nil
    rw [List.length_append, List.length_append] at hfuel
    obtain ⟨fuel, rfl⟩ : ∃ k, fuel = k + 1 := ⟨fuel - 1, by omega⟩
    rw [readFieldsOnto_unknown habove hkey hpayload]
    exact ih htakes got (by omega)

/-- From pieces exactly the fields are read, whatever strange fields stand between them. -/
theorem readFields_pieces {last : Nat} {fields : List Field} {bytes : Octets}
    (h : Pieces last fields bytes) (htakes : ∀ field ∈ fields, (Schema.upTo last).Takes field) :
    ((∀ field ∈ fields, field.payload.Fits) ∧
      readFields (.upTo last) nestingLimit bytes = .ok fields) ∨
    ((¬ ∀ field ∈ fields, field.payload.Fits) ∧
      readFields (.upTo last) nestingLimit bytes = .error .varintTooLong) :=
  readFieldsOnto_pieces h htakes 99 [] (Nat.le_refl _)

/-! ### Steps in another order -/

section Order

variable {δ ε : Type} {step : δ → Field → Except ε δ} {draft : δ}

/-- A step that may change places with the ones before it may come first. -/
theorem foldlM_bring_forward {before after : List Field} {x : Field}
    (hswap : ∀ y ∈ before, ∀ draft,
      (step draft y >>= fun next => step next x) = step draft x >>= fun next => step next y) :
    (before ++ x :: after).foldlM step draft = (x :: (before ++ after)).foldlM step draft := by
  -- By induction on the fields before: each lets the other pass.
  induction before generalizing draft with
  | nil => rfl
  | cons y before ih =>
    obtain ⟨hy, hbefore⟩ := List.forall_mem_cons.mp hswap
    calc (y :: (before ++ x :: after)).foldlM step draft
        = step draft y >>= fun next => (x :: (before ++ after)).foldlM step next := by
          rw [List.foldlM_cons]
          exact bind_congr fun next => ih hbefore
      _ = (step draft y >>= fun next => step next x) >>= fun next =>
            (before ++ after).foldlM step next := by
          simp only [List.foldlM_cons, bind_assoc]
      _ = (x :: y :: (before ++ after)).foldlM step draft := by
          rw [hy]
          simp only [List.foldlM_cons, bind_assoc]

/-- The field is taken without fail, and with an effect that fields with other numbers do not
see. -/
structure Sets (step : δ → Field → Except ε δ) (field : Field) (change : δ → δ) : Prop where
  taken : ∀ draft, step draft field = .ok (change draft)
  unseen : ∀ {other : Field}, other.number ≠ field.number → ∀ draft,
    step (change draft) other = (step draft other).map change

/-- A field that sets a part of its own may change places with any of another number. -/
theorem Sets.swap {x y : Field} {change : δ → δ} (h : Sets step x change)
    (hne : y.number ≠ x.number) (draft : δ) :
    (step draft x >>= fun next => step next y) = step draft y >>= fun next => step next x := by
  rw [h.taken]
  show step (change draft) y = _
  rw [h.unseen hne]
  cases step draft y with
  | error cause => rfl
  | ok next => exact (h.taken next).symm

/-- When two lists agree on the elements of a kind, they still do so without an element that comes
first in one of them; and if this is of the kind itself, nothing of the kind is in front of it in
the other. -/
theorem filter_without {p : Field → Bool} {before after rest : List Field} {x : Field}
    (hx : x ∉ before) (h : (before ++ x :: after).filter p = (x :: rest).filter p) :
    (before ++ after).filter p = rest.filter p ∧ (p x → ∀ y ∈ before, ¬ p y) := by
  rw [List.filter_append] at h ⊢
  -- Either the field itself passes the filter, and it is the first to do so, or it makes no
  -- difference.
  by_cases hp : p x
  · rw [List.filter_cons_of_pos hp, List.filter_cons_of_pos hp] at h
    have hnone : before.filter p = [] := by
      cases hbefore : before.filter p with
      | nil => rfl
      | cons y ys =>
        rw [hbefore] at h
        obtain rfl : y = x := (List.cons.inj h).1
        have hmem : y ∈ before.filter p := hbefore ▸ List.mem_cons_self
        exact absurd (List.mem_filter.mp hmem).1 hx
    rw [hnone] at h ⊢
    exact ⟨(List.cons.inj h).2, fun _ => List.filter_eq_nil_iff.mp hnone⟩
  · rw [List.filter_cons_of_neg hp, List.filter_cons_of_neg hp] at h
    exact ⟨h, fun hx => absurd hx hp⟩

/-- Fields of different numbers may change places. -/
theorem swap_of_ne_number {settings : List Field} {last : Nat} {x y : Field}
    (hsets : ∀ x ∈ settings, ∃ change, Sets step x change)
    (hx : x ∈ settings ∨ x.number = last) (hy : y ∈ settings ∨ y.number = last)
    (hne : y.number ≠ x.number) (draft : δ) :
    (step draft y >>= fun next => step next x) = step draft x >>= fun next => step next y := by
  rcases hx with hx | hx
  · obtain ⟨change, hchange⟩ := hsets x hx
    exact (hchange.swap hne draft).symm
  · rcases hy with hy | hy
    · obtain ⟨change, hchange⟩ := hsets y hy
      exact hchange.swap hne.symm draft
    · exact absurd (hy.trans hx.symm) hne

/-- The fields with the last number keep their order among themselves, and each other one sets a
part of the draft of its own: then the order does not matter. -/
theorem foldlM_rearranged {settings written fields : List Field} {last : Nat}
    (hsets : ∀ x ∈ settings, ∃ change, Sets step x change)
    (hnumbers : (settings.map Field.number).Nodup)
    (hwritten : ∀ x ∈ written, x ∈ settings ∨ x.number = last) (hperm : fields.Perm written)
    (hlast : fields.filter (·.number == last) = written.filter (·.number == last)) :
    fields.foldlM step draft = written.foldlM step draft := by
  -- The written field `x` that comes first moves to the front of `fields`.
  induction written generalizing fields draft with
  | nil => rw [hperm.eq_nil]
  | cons x written ih =>
    obtain ⟨before, after, rfl, hx⟩ := List.eq_append_cons_of_mem (hperm.mem_iff.mpr
      List.mem_cons_self)
    obtain ⟨hlast, hfirst⟩ := filter_without hx hlast
    have hwrittenx := hwritten x List.mem_cons_self
    have hswap : ∀ y ∈ before, ∀ draft,
        (step draft y >>= fun next => step next x) = step draft x >>= fun next => step next y := by
      intro y hy
      have hwritteny : y ∈ settings ∨ y.number = last :=
        hwritten y (hperm.mem_iff.mp (List.mem_append_left _ hy))
      refine swap_of_ne_number hsets hwrittenx hwritteny fun heq => ?_
      by_cases hxlast : x.number = last
      · exact hfirst (beq_iff_eq.mpr hxlast) y hy (beq_iff_eq.mpr (heq.trans hxlast))
      · have hxy : y = x := List.inj_on_of_nodup_map hnumbers
          (hwritteny.resolve_right (heq ▸ hxlast)) (hwrittenx.resolve_right hxlast) heq
        exact hx (hxy ▸ hy)
    have hrest : (before ++ after).Perm written :=
      (List.perm_middle.symm.trans hperm).cons_inv
    rw [foldlM_bring_forward hswap, List.foldlM_cons, List.foldlM_cons]
    exact bind_congr fun next =>
      ih (fun y hy => hwritten y (List.mem_cons_of_mem _ hy)) hrest hlast

end Order

/-- Bytes with the same fields are read alike by a reader that does not mind their order. -/
theorem readFields_bind_congr {δ : Type} {step : δ → Field → Except BodyFault δ} {draft : δ}
    {last : Nat} {fields written : List Field} {bytes : Octets} (h : Pieces last fields bytes)
    (htakes : ∀ field ∈ written, (Schema.upTo last).Takes field) (hperm : fields.Perm written)
    (hfold : fields.foldlM step draft = written.foldlM step draft) :
    (readFields (.upTo last) nestingLimit bytes >>= fun fs => fs.foldlM step draft) =
      readFields (.upTo last) nestingLimit (written.flatMap Field.encode) >>= fun fs =>
        fs.foldlM step draft := by
  have hfits : (∀ field ∈ fields, field.payload.Fits) ↔ ∀ field ∈ written, field.payload.Fits :=
    forall_congr' fun field => imp_congr_left hperm.mem_iff
  have hread := readFields_pieces h fun field hfield => htakes field (hperm.mem_iff.mp hfield)
  -- Whether all lengths fit does not depend on the order, so both runs end in the same way.
  rw [hfits] at hread
  rcases hread with ⟨hall, hread⟩ | ⟨hlong, hread⟩ <;>
    rcases readFields_pieces (pieces_flatMap last written) htakes with
      ⟨hall', hwritten⟩ | ⟨hlong', hwritten⟩
  · rw [hread, hwritten]
    exact hfold
  · exact absurd hall hlong'
  · exact absurd hall' hlong
  · rw [hread, hwritten]

/-! ### The fields with the last number -/

/-- A varint field is none of another number. -/
theorem filter_ofVarint {number last : Nat} (h : number ≠ last) (n : Nat) :
    (ofVarint number n).filter (·.number == last) = [] := by
  refine List.filter_eq_nil_iff.mpr fun field hfield => ?_
  rw [mem_ofVarint hfield]
  exact fun heq => h (beq_iff_eq.mp heq)

theorem filter_ofText {number last : Nat} (h : number ≠ last) (s : String) :
    (ofText number s).filter (·.number == last) = [] := by
  refine List.filter_eq_nil_iff.mpr fun field hfield => ?_
  rw [mem_ofText hfield]
  exact fun heq => h (beq_iff_eq.mp heq)

theorem filter_itemFields (last : Nat) (items : List Value) :
    (itemFields last items).filter (·.number == last) = itemFields last items := by
  refine List.filter_eq_self.mpr fun field hfield => ?_
  obtain ⟨v, -, rfl⟩ := List.mem_map.mp hfield
  exact beq_iff_eq.mpr rfl

/-! ### Requests -/

/-- The numbers and texts of a request. -/
def requestSettings (r : Request) : List Field :=
  [⟨1, .varint r.requestId.toNat⟩, ⟨2, .delimited (Octets.ofText r.service)⟩,
    ⟨3, .delimited (Octets.ofText r.method)⟩]

/-- A field of a request is one of its settings or an argument. -/
theorem mem_requestFields {r : Request} {field : Field} (h : field ∈ requestFields r) :
    field ∈ requestSettings r ∨ field.number = 4 := by
  simp only [requestFields, List.mem_append] at h
  rcases h with hid | hservice | hmethod | hargs
  · rw [mem_ofVarint hid]
    exact .inl (by simp [requestSettings])
  · rw [mem_ofText hservice]
    exact .inl (by simp [requestSettings])
  · rw [mem_ofText hmethod]
    exact .inl (by simp [requestSettings])
  · obtain ⟨v, -, rfl⟩ := List.mem_map.mp hargs
    exact .inr rfl

/-- The arguments are all the fields that have their number. -/
theorem filter_requestFields (r : Request) :
    (requestFields r).filter (·.number == 4) = itemFields 4 r.args := by
  rw [requestFields, List.filter_append, List.filter_append, List.filter_append,
    filter_ofVarint (by decide), filter_ofText (by decide), filter_ofText (by decide),
    filter_itemFields]
  rfl

/-- Each field leaves the parts of the draft alone that belong to others. -/
theorem RequestDraft.step_apart (draft : RequestDraft) (field : Field) :
    (field.number ≠ 1 → ∀ requestId, step { draft with requestId } field =
      (step draft field).map fun next => { next with requestId }) ∧
    (field.number ≠ 2 → ∀ service, step { draft with service } field =
      (step draft field).map fun next => { next with service }) ∧
    (field.number ≠ 3 → ∀ method, step { draft with method } field =
      (step draft field).map fun next => { next with method }) := by
  obtain ⟨number, payload⟩ := field
  simp only [step]
  split
  · exact ⟨fun h => absurd rfl h, fun _ _ => rfl, fun _ _ => rfl⟩
  · rename_i bytes
    cases textOf bytes <;> exact ⟨fun _ _ => rfl, fun h => absurd rfl h, fun _ _ => rfl⟩
  · rename_i bytes
    cases textOf bytes <;> exact ⟨fun _ _ => rfl, fun _ _ => rfl, fun h => absurd rfl h⟩
  · rename_i bytes
    cases readValue (nestingLimit - 1) .null bytes <;>
      exact ⟨fun _ _ => rfl, fun _ _ => rfl, fun _ _ => rfl⟩
  · exact ⟨fun _ _ => rfl, fun _ _ => rfl, fun _ _ => rfl⟩

/-- Each setting of a request sets a part of its own. -/
theorem sets_requestSettings (r : Request) :
    ∀ field ∈ requestSettings r, ∃ change, Sets RequestDraft.step field change := by
  intro field hfield
  simp only [requestSettings, List.mem_cons, List.not_mem_nil, or_false] at hfield
  rcases hfield with rfl | rfl | rfl
  · exact ⟨_, fun _ => step_id _ _,
      fun hother draft => (RequestDraft.step_apart draft _).1 hother _⟩
  · exact ⟨_, fun _ => step_service _ _,
      fun hother draft => (RequestDraft.step_apart draft _).2.1 hother _⟩
  · exact ⟨_, fun _ => step_method _ _,
      fun hother draft => (RequestDraft.step_apart draft _).2.2 hother _⟩

/-- The fields of a request are read alike in every order that keeps the arguments in theirs. -/
theorem decodeRequest_of_pieces {r : Request} {fields : List Field} {bytes : Octets}
    (hperm : fields.Perm (requestFields r))
    (hargs : fields.filter (·.number == 4) = itemFields 4 r.args) (h : Pieces 4 fields bytes) :
    decodeRequest bytes = decodeRequest (encodeRequest r) := by
  have hnumbers : ((requestSettings r).map Field.number).Nodup :=
    show [1, 2, 3].Nodup by decide
  have hfold : fields.foldlM RequestDraft.step {} = (requestFields r).foldlM RequestDraft.step {} :=
    foldlM_rearranged (sets_requestSettings r) hnumbers (fun _ => mem_requestFields) hperm
      (hargs.trans (filter_requestFields r).symm)
  have hread := readFields_bind_congr h (requestFields_taken r) hperm hfold
  rw [← encodeRequest_eq] at hread
  rw [decodeRequest, decodeRequest, ← bind_assoc, ← bind_assoc, hread]

/-! ### Responses -/

/-- The numbers and the text of a response. -/
def responseSettings (r : Response) : List Field :=
  [⟨1, .varint r.requestId.toNat⟩, ⟨2, .varint (codeBits r.code)⟩,
    ⟨3, .delimited (Octets.ofText r.text)⟩, ⟨4, .varint r.compression.toNat⟩,
    ⟨5, .varint r.serialization.toNat⟩]

theorem mem_responseFields {r : Response} {field : Field} (h : field ∈ responseFields r) :
    field ∈ responseSettings r ∨ field.number = 6 := by
  simp only [responseFields, List.mem_append] at h
  rcases h with hid | hcode | htext | hcompression | hserialization | hdata
  · rw [mem_ofVarint hid]
    exact .inl (by simp [responseSettings])
  · rw [mem_ofVarint hcode]
    exact .inl (by simp [responseSettings])
  · rw [mem_ofText htext]
    exact .inl (by simp [responseSettings])
  · rw [mem_ofVarint hcompression]
    exact .inl (by simp [responseSettings])
  · rw [mem_ofVarint hserialization]
    exact .inl (by simp [responseSettings])
  · rw [List.mem_singleton.mp hdata]
    exact .inr rfl

/-- The data is the only field that has its number. -/
theorem filter_responseFields (r : Response) :
    (responseFields r).filter (·.number == 6) = [itemField 6 (encodeValue r.data)] := by
  simp only [responseFields, List.filter_append]
  rw [filter_ofVarint (by decide), filter_ofVarint (by decide), filter_ofText (by decide),
    filter_ofVarint (by decide), filter_ofVarint (by decide)]
  exact filter_itemFields 6 [r.data]

/-- Each field leaves the parts of the draft alone that belong to others. -/
theorem ResponseDraft.step_apart (draft : ResponseDraft) (field : Field) :
    (field.number ≠ 1 → ∀ requestId, step { draft with requestId } field =
      (step draft field).map fun next => { next with requestId }) ∧
    (field.number ≠ 2 → ∀ code, step { draft with code } field =
      (step draft field).map fun next => { next with code }) ∧
    (field.number ≠ 3 → ∀ text, step { draft with text } field =
      (step draft field).map fun next => { next with text }) ∧
    (field.number ≠ 4 → ∀ compression, step { draft with compression } field =
      (step draft field).map fun next => { next with compression }) ∧
    (field.number ≠ 5 → ∀ serialization, step { draft with serialization } field =
      (step draft field).map fun next => { next with serialization }) := by
  obtain ⟨number, payload⟩ := field
  simp only [step]
  -- By the number of the field: it sets its own part, whatever the other parts are.
  split
  · exact ⟨fun h => absurd rfl h, fun _ _ => rfl, fun _ _ => rfl, fun _ _ => rfl, fun _ _ => rfl⟩
  · exact ⟨fun _ _ => rfl, fun h => absurd rfl h, fun _ _ => rfl, fun _ _ => rfl, fun _ _ => rfl⟩
  · rename_i bytes
    cases textOf bytes <;>
      exact ⟨fun _ _ => rfl, fun _ _ => rfl, fun h => absurd rfl h, fun _ _ => rfl, fun _ _ => rfl⟩
  · exact ⟨fun _ _ => rfl, fun _ _ => rfl, fun _ _ => rfl, fun h => absurd rfl h, fun _ _ => rfl⟩
  · exact ⟨fun _ _ => rfl, fun _ _ => rfl, fun _ _ => rfl, fun _ _ => rfl, fun h => absurd rfl h⟩
  · rename_i bytes
    cases readValue (nestingLimit - 1) draft.data bytes <;>
      exact ⟨fun _ _ => rfl, fun _ _ => rfl, fun _ _ => rfl, fun _ _ => rfl, fun _ _ => rfl⟩
  · exact ⟨fun _ _ => rfl, fun _ _ => rfl, fun _ _ => rfl, fun _ _ => rfl, fun _ _ => rfl⟩

theorem sets_responseSettings (r : Response) :
    ∀ field ∈ responseSettings r, ∃ change, Sets ResponseDraft.step field change := by
  intro field hfield
  simp only [responseSettings, List.mem_cons, List.not_mem_nil, or_false] at hfield
  rcases hfield with rfl | rfl | rfl | rfl | rfl
  · exact ⟨_, fun _ => rfl, fun hother draft => (ResponseDraft.step_apart draft _).1 hother _⟩
  · exact ⟨_, fun _ => rfl, fun hother draft => (ResponseDraft.step_apart draft _).2.1 hother _⟩
  · exact ⟨_, fun _ => ResponseDraft.step_text _ _,
      fun hother draft => (ResponseDraft.step_apart draft _).2.2.1 hother _⟩
  · exact ⟨_, fun _ => rfl,
      fun hother draft => (ResponseDraft.step_apart draft _).2.2.2.1 hother _⟩
  · exact ⟨_, fun _ => rfl,
      fun hother draft => (ResponseDraft.step_apart draft _).2.2.2.2 hother _⟩

/-- The fields of a response are read alike in every order. -/
theorem decodeResponse_of_pieces {r : Response} {fields : List Field} {bytes : Octets}
    (hperm : fields.Perm (responseFields r)) (h : Pieces 6 fields bytes) :
    decodeResponse bytes = decodeResponse (encodeResponse r) := by
  have hnumbers : ((responseSettings r).map Field.number).Nodup :=
    show [1, 2, 3, 4, 5].Nodup by decide
  -- There is one field for the data, so it has no order to keep.
  have hdata : fields.filter (·.number == 6) = (responseFields r).filter (·.number == 6) := by
    have hfilter := hperm.filter (·.number == 6)
    rw [filter_responseFields] at hfilter ⊢
    exact List.perm_singleton.mp hfilter
  have hfold : fields.foldlM ResponseDraft.step {} =
      (responseFields r).foldlM ResponseDraft.step {} :=
    foldlM_rearranged (sets_responseSettings r) hnumbers (fun _ => mem_responseFields) hperm hdata
  have hread := readFields_bind_congr h (responseFields_taken r) hperm hfold
  rw [← encodeResponse_eq] at hread
  rw [decodeResponse, decodeResponse, readResponse, readResponse, hread]

/-! ### Messages -/

/-- The fields are those that are written for the message, in any order in which the arguments of a
request stay in their own. -/
def Reorders : Message → List Field → Prop
  | .request r, fields =>
    fields.Perm (requestFields r) ∧ fields.filter (·.number == 4) = itemFields 4 r.args
  | .response r, fields => fields.Perm (responseFields r)

/-- The number of the last field that a message has. -/
def lastField : FrameKind → Nat
  | .request => 4
  | _ => 6

/-- **Fields in any order.**  Bytes with the fields of a message in any order in which the arguments
stay in their own, and with any unknown fields between them, are read like the body that is written
for the message. -/
theorem decode_of_pieces {m : Message} {fields : List Field} {bytes : Octets}
    (hfields : Reorders m fields) (h : Pieces (lastField m.kind) fields bytes) :
    decode m.kind bytes = decode m.kind (encode m) := by
  cases m with
  | request r =>
    have hrequest := decodeRequest_of_pieces hfields.1 hfields.2 h
    rw [Message.kind, decode, decode, encode, hrequest]
  | response r =>
    have hresponse := decodeResponse_of_pieces hfields h
    rw [Message.kind, decode, decode, encode, hresponse]

end WireCall.Protobuf
