import WireCall.Proofs.Frame.Stream

namespace WireCall.Header

/-!
# What is wrong with a header

`faults` says byte by byte what may be wrong with the 17 bytes of a header: the magic byte, the
version, a length that is too small or too large, and the kind.  More than one thing may be wrong,
and they are listed in the order in which they are looked for.

Main statement: bytes are read as a header exactly if they are the bytes of that header, its version
is the current one and its length is in bounds; of all other bytes the first thing that is wrong
with them is reported (`decode_exact`).
-/

variable {maximum : UInt32} {bytes : Vector UInt8 17}

/-- Four bytes are the 32-bit number with the first byte on top. -/
theorem ofBigEndian_four (a b c d : UInt8) : Octets.ofBigEndian [a, b, c, d] =
    a.toNat * 16777216 + b.toNat * 65536 + c.toNat * 256 + d.toNat := by
  simp only [Octets.ofBigEndian, List.foldl_cons, List.foldl_nil]
  omega

/-- A tag names no kind of frame exactly above three. -/
theorem ofTag?_eq_none_iff {tag : UInt8} : FrameKind.ofTag? tag = none ↔ tag > 3 := by
  have hbytes : ∀ n < 256, FrameKind.ofTag? (UInt8.ofNat n) = none ↔ UInt8.ofNat n > 3 := by
    decide +kernel
  have hbyte := hbytes tag.toNat tag.toNat_lt
  rwa [UInt8.ofNat_toNat] at hbyte

/-- The first cause is the one whose condition holds first. -/
theorem head?_ite_append {p : Prop} [Decidable p] (cause : ProtocolFault)
    (causes : List ProtocolFault) :
    ((if p then [cause] else []) ++ causes).head? = if p then some cause else causes.head? := by
  split <;> rfl

/-- The first thing that is wrong is the one that is reported. -/
theorem decode_eq_error_iff {cause : ProtocolFault} :
    decode maximum bytes = .error cause ↔ (faults maximum bytes).head? = some cause := by
  rw [decode, ofBigEndian_four, ← announced, faults, head?_ite_append, head?_ite_append,
    head?_ite_append, head?_ite_append]
  show (if bytes[0] ≠ 0x1d then _ else if bytes[1] ≠ 1 then _ else
    if (announced bytes).toNat < 17 then _ else if maximum < announced bytes then _ else _) = _ ↔ _
  -- The reader looks for the faults in the order of the list, so each case settles one of both.
  by_cases hmagic : bytes[0] ≠ 0x1d
  · rw [if_pos hmagic, if_pos hmagic, Except.error.injEq, Option.some.injEq]
  rw [if_neg hmagic, if_neg hmagic]
  by_cases hversion : bytes[1] ≠ 1
  · rw [if_pos hversion, if_pos hversion, Except.error.injEq, Option.some.injEq]
  rw [if_neg hversion, if_neg hversion]
  by_cases hsize : (announced bytes).toNat < 17
  · rw [if_pos hsize, if_pos hsize, Except.error.injEq, Option.some.injEq]
  rw [if_neg hsize, if_neg hsize]
  by_cases hmaximum : maximum < announced bytes
  · rw [if_pos hmaximum, if_pos hmaximum, Except.error.injEq, Option.some.injEq]
  rw [if_neg hmaximum, if_neg hmaximum]
  cases hkind : FrameKind.ofTag? bytes[6] with
  | none =>
    rw [if_pos (ofTag?_eq_none_iff.mp hkind), List.head?_cons, Except.error.injEq,
      Option.some.injEq]
  | some kind =>
    have hknown : ¬ bytes[6] > 3 := by
      rw [← ofTag?_eq_none_iff, hkind]
      exact Option.some_ne_none kind
    rw [if_neg hknown]
    constructor
    · intro h
      cases h
    · intro h
      cases h

/-- Nothing is wrong exactly with the bytes that are read. -/
theorem faults_eq_nil_iff : faults maximum bytes = [] ↔ ∃ h, decode maximum bytes = .ok h := by
  constructor
  · intro hfaults
    cases hdecode : decode maximum bytes with
    | ok h => exact ⟨h, rfl⟩
    | error cause =>
      have hcause := decode_eq_error_iff.mp hdecode
      rw [hfaults] at hcause
      cases hcause
  · rintro ⟨h, hdecode⟩
    rw [← List.head?_eq_none_iff, Option.eq_none_iff_forall_ne_some]
    intro cause hcause
    cases hdecode.symm.trans (decode_eq_error_iff.mpr hcause)

/-- A buffer shows one header only. -/
theorem Shows.unique {h h' : Header} (hshows : Shows bytes h) (hshows' : Shows bytes h') :
    h = h' := by
  -- The buffer shows the kind by its name and the id by its number; the rest it shows as it is.
  have hkind : h.kind = h'.kind := by
    have hname := FrameKind.ofTag?_tag h.kind
    rw [hshows.kind, ← hshows'.kind, FrameKind.ofTag?_tag] at hname
    exact (Option.some.inj hname).symm
  have hid : h.requestId = h'.requestId :=
    UInt64.toNat_inj.mp (hshows.requestId.trans hshows'.requestId.symm)
  obtain ⟨version, fullLength, kind, compression, serialization, requestId⟩ := h
  obtain ⟨rfl, rfl, -, rfl, rfl, -⟩ := hshows
  obtain ⟨version, fullLength, kind, compression, serialization, requestId⟩ := h'
  obtain ⟨rfl, rfl, -, rfl, rfl, -⟩ := hshows'
  obtain rfl := hkind
  obtain rfl := hid
  rfl

/-- What is decoded from a buffer is what the buffer shows. -/
theorem shows_of_decode {h : Header} (hdecode : decode maximum bytes = .ok h) :
    Shows bytes h := by
  have hid (bytes : Octets) (hlength : bytes.length = 8) :
      (UInt64.ofNat (Octets.ofBigEndian bytes)).toNat = Octets.ofBigEndian bytes := by
    have hlt : Octets.ofBigEndian bytes < 2 ^ 64 := by
      have h := Octets.ofBigEndian_lt bytes
      rwa [hlength] at h
    rw [UInt64.toNat_ofNat', Nat.mod_eq_of_lt hlt]
  rw [decode, ofBigEndian_four, ← announced] at hdecode
  -- Each guard that is passed is one condition met.
  split at hdecode
  · cases hdecode
  split at hdecode
  · cases hdecode
  split at hdecode
  · cases hdecode
  split at hdecode
  · cases hdecode
  split at hdecode
  · cases hdecode
  · rename_i kind hkind
    obtain rfl := Except.ok.inj hdecode
    exact ⟨rfl, rfl, (FrameKind.ofTag?_eq_some_iff.mp hkind).symm, rfl, rfl, hid _ rfl⟩

/-- **Headers are exact.**  Bytes are read as a header exactly if they are the bytes of that header,
its version is the current one, and its length is at least that of a header and within the maximum;
in other words, if nothing is wrong with them and the header has the numbers and tags that stand in
them, all 64 bits of the id included.  Of all other bytes the first thing that is wrong is reported,
in the order magic byte, version, length below that of a header, length above the maximum, kind. -/
theorem decode_exact (maximum : UInt32) (bytes : Vector UInt8 17) :
    (∀ h, decode maximum bytes = .ok h ↔ bytes.toList = h.encode ∧
      h.version = 1 ∧ 17 ≤ h.fullLength.toNat ∧ h.fullLength ≤ maximum) ∧
    (∀ h, decode maximum bytes = .ok h ↔ faults maximum bytes = [] ∧ Shows bytes h) ∧
    ∀ cause, decode maximum bytes = .error cause ↔
      (faults maximum bytes).head? = some cause := by
  refine ⟨fun h => ?_, fun h => ?_, fun cause => decode_eq_error_iff⟩
  · rw [decode_eq_ok_iff]
    constructor
    · rintro ⟨hbytes, hsound⟩
      exact ⟨hbytes, hsound.version, hsound.size_le, hsound.le_maximum⟩
    · rintro ⟨hbytes, hversion, hsize, hmaximum⟩
      exact ⟨hbytes, hversion, hsize, hmaximum⟩
  · -- No fault means that some header is decoded, and the buffer shows only one.
    constructor
    · intro hdecode
      exact ⟨faults_eq_nil_iff.mpr ⟨h, hdecode⟩, shows_of_decode hdecode⟩
    · rintro ⟨hfaults, hshows⟩
      obtain ⟨h', hdecode⟩ := faults_eq_nil_iff.mp hfaults
      rw [hdecode, hshows.unique (shows_of_decode hdecode)]

end WireCall.Header
