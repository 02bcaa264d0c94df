import WireCall.Proofs.Document.Assembly
import WireCall.Proofs.Settings.Forms

namespace WireCall

/-!
# Overlaying a document on default settings

A document gives settings by name, as the members of an object, or by position, as the items of an
array (`Document.Gives`).  Overlaying what is given on the default settings, field after field in
their own order (`Form.overlay`), says nothing about the order in which a document gives it.

Members may stand in any order, so reading them takes the fields in another order.  Fields that set
different parts of the settings commute (`Field.Commutes`), and so the field of the first member can
be brought to the front (`Form.overlay_eq_bind`).

Main statements: what a document gives is overlaid on the default settings (`Form.read_of_gives`),
and a document that gives nothing in this way is refused (`Form.exists_gives`).
-/

/-! ### What a document gives -/

/-- What the document gives for the names: the value of the only member of this name, or the item
at the position of the name.  Every key has to denote a text, and there are no more items than
names. -/
inductive Document.Gives (names : List String) : Document → (String → Option Document) → Prop
  | object {members : List (Option String × Document)} {given : String → Option Document}
      (hkeys : ∀ m ∈ members, m.1 ≠ none)
      (honce : ∀ name ∈ names, (members.map Prod.fst).count (some name) ≤ 1)
      (hgiven : ∀ name ∈ names, ∀ d, given name = some d ↔ (some name, d) ∈ members) :
      Gives names (.object members) given
  | array {items : List Document} {given : String → Option Document}
      (hlength : items.length ≤ names.length)
      (hgiven : ∀ (i : Nat) (name : String), names[i]? = some name → given name = items[i]?) :
      Gives names (.array items) given

/-- An array with no more items than names gives each of them for the name at its position. -/
theorem Document.exists_array_gives {names : List String} {items : List Document}
    (hnames : names.Nodup) (hlength : items.length ≤ names.length) :
    ∃ given, (Document.array items).Gives names given := by
  refine ⟨fun name => items[names.idxOf name]?, .array hlength fun i name hi => ?_⟩
  obtain ⟨hlt, rfl⟩ := List.getElem?_eq_some_iff.mp hi
  rw [hnames.idxOf_getElem i hlt]

namespace Field

variable {σ : Type}

/-- Overlays what is given for the field. -/
def overlay (f : Field σ) (given : String → Option Document) (s : σ) : Option σ :=
  match given f.name with
  | none => some s
  | some d => f.read d s

/-- It does not matter which of the fields is read first. -/
def Commutes (f g : Field σ) : Prop :=
  ∀ d d' s, (f.read d s).bind (g.read d') = (g.read d' s).bind (f.read d)

/-- Commuting goes both ways. -/
theorem Commutes.symm {f g : Field σ} (h : f.Commutes g) : g.Commutes f :=
  fun d d' s => (h d' d s).symm

/-- Fields whose setters commute can be read in either order. -/
theorem commutes_of_set {α β : Type} {form : Form α} {form' : Form β} {name name' : String}
    {get : σ → α} {get' : σ → β} {set : α → σ → σ} {set' : β → σ → σ}
    (hset : ∀ a b s, set' b (set a s) = set a (set' b s)) :
    (form.field name get set).Commutes (form'.field name' get' set') := by
  intro d d' s
  simp only [Form.field]
  cases form.read d with
  | none => cases form'.read d' <;> rfl
  | some a =>
    cases form'.read d' with
    | none => rfl
    | some b => exact congrArg some (hset a b s)

/-- A field that commutes with another one can be read before the other is overlaid. -/
theorem Commutes.overlay {f g : Field σ} (h : f.Commutes g) (d : Document)
    (given : String → Option Document) (s : σ) :
    (g.overlay given s).bind (f.read d) = (f.read d s).bind (g.overlay given) := by
  unfold Field.overlay
  cases given g.name with
  | none => exact (Option.bind_some ..).trans (Option.bind_fun_some _).symm
  | some d' => exact (h d d' s).symm

end Field

namespace Form

variable {σ : Type} {fields : List (Field σ)} {given given' : String → Option Document} {s : σ}

/-- Overlays what is given, field after field. -/
def overlay : List (Field σ) → (String → Option Document) → σ → Option σ
  | [], _, s => some s
  | f :: fields, given, s => (f.overlay given s).bind (overlay fields given)

/-- Only what is given for the fields matters. -/
theorem overlay_congr (h : ∀ f ∈ fields, given f.name = given' f.name) (s : σ) :
    overlay fields given s = overlay fields given' s := by
  induction fields generalizing s with
  | nil => rfl
  | cons f fields ih =>
    obtain ⟨hf, hfields⟩ := List.forall_mem_cons.mp h
    have hrest : overlay fields given = overlay fields given' := funext fun s => ih hfields s
    rw [overlay, overlay, Field.overlay, Field.overlay, hf, hrest]

/-- Nothing is overlaid where nothing is given. -/
theorem overlay_none (h : ∀ f ∈ fields, given f.name = none) (s : σ) :
    overlay fields given s = some s := by
  induction fields with
  | nil => rfl
  | cons f fields ih =>
    obtain ⟨hf, hfields⟩ := List.forall_mem_cons.mp h
    rw [overlay, Field.overlay, hf]
    exact ih hfields

/-- The field of one thing that is given can be brought to the front. -/
theorem overlay_eq_bind (hnames : (fields.map Field.name).Nodup)
    (hcommutes : fields.Pairwise Field.Commutes) {f : Field σ} (hf : f ∈ fields) {d : Document}
    (hd : given f.name = some d) (hnone : given' f.name = none)
    (hothers : ∀ g ∈ fields, g.name ≠ f.name → given g.name = given' g.name) (s : σ) :
    overlay fields given s = (f.read d s).bind (overlay fields given') := by
  induction fields generalizing s with
  | nil => cases hf
  | cons g fields ih =>
    obtain ⟨hg, hnames⟩ := List.nodup_cons.mp hnames
    obtain ⟨hgcommutes, hcommutes⟩ := List.pairwise_cons.mp hcommutes
    obtain ⟨hgother, hrestothers⟩ := List.forall_mem_cons.mp hothers
    have hdistinct : ∀ h ∈ fields, h.name ≠ g.name := fun h hh heq =>
      hg (heq ▸ List.mem_map_of_mem hh)
    rcases List.mem_cons.mp hf with rfl | hf
    · -- the field is in front already, and none of the others has its name
      have hrest : overlay (f :: fields) given' = overlay fields given := by
        funext s'
        rw [overlay, Field.overlay, hnone]
        exact (overlay_congr (fun h hh => hrestothers h hh (hdistinct h hh)) s').symm
      rw [overlay, Field.overlay, hd, hrest]
    · have hne : g.name ≠ f.name := (hdistinct f hf).symm
      have hg' : g.overlay given = g.overlay given' := by
        funext s'
        rw [Field.overlay, Field.overlay, hgother hne]
      have hrest : overlay fields given = fun s' => (f.read d s').bind (overlay fields given') :=
        funext fun s' => ih hnames hcommutes hf hrestothers s'
      calc overlay (g :: fields) given s
          = (g.overlay given' s).bind fun s' => (f.read d s').bind (overlay fields given') := by
            rw [overlay, hg', hrest]
        _ = ((g.overlay given' s).bind (f.read d)).bind (overlay fields given') :=
            (Option.bind_assoc ..).symm
        _ = ((f.read d s).bind (g.overlay given')).bind (overlay fields given') := by
            rw [(hgcommutes f hf).symm.overlay d given' s]
        _ = (f.read d s).bind (overlay (g :: fields) given') := Option.bind_assoc ..

/-! ### Members -/

variable {members : List (Option String × Document)} {seen : List String}

/-- Members are read as they are overlaid, in whatever order they stand, if each known name is given
once at most and none of the names that have been seen is given again. -/
theorem readMembers_eq_overlay (hnames : (fields.map Field.name).Nodup)
    (hcommutes : fields.Pairwise Field.Commutes) (hkeys : ∀ m ∈ members, m.1 ≠ none)
    (honce : ∀ f ∈ fields, (members.map Prod.fst).count (some f.name) ≤ 1)
    (hgiven : ∀ f ∈ fields, ∀ d, given f.name = some d ↔ (some f.name, d) ∈ members)
    (hseen : ∀ f ∈ fields, f.name ∈ seen → given f.name = none) (s : σ) :
    readMembers fields seen members s = overlay fields given s := by
  induction members generalizing given seen s with
  | nil =>
    have hnone : ∀ f ∈ fields, given f.name = none := fun f hf =>
      Option.eq_none_iff_forall_ne_some.mpr fun d hd => nomatch (hgiven f hf d).mp hd
    exact (overlay_none hnone s).symm
  | cons m members ih =>
    obtain ⟨key, d⟩ := m
    obtain ⟨hkey, hrestkeys⟩ := List.forall_mem_cons.mp hkeys
    obtain ⟨key, rfl⟩ := Option.ne_none_iff_exists'.mp hkey
    rw [readMembers]
    split
    · next hfind =>
      -- no field has this name, so the member is skipped
      have hunknown : ∀ f ∈ fields, f.name ≠ key := fun f hf => by
        simpa using List.find?_eq_none.mp hfind f hf
      refine ih hrestkeys (fun f hf => ?_) (fun f hf d' => ?_) hseen s
      · simpa [List.count_cons, (hunknown f hf).symm] using honce f hf
      · simpa [hunknown f hf] using hgiven f hf d'
    · next f hfind =>
      have hf : f ∈ fields := List.mem_of_find?_eq_some hfind
      have hname : f.name = key := by simpa using List.find?_some hfind
      subst hname
      have hd : given f.name = some d := (hgiven f hf d).mpr List.mem_cons_self
      have hunseen : f.name ∉ seen := fun hmem => by
        rw [hseen f hf hmem] at hd
        cases hd
      -- behind the member, its name is not given any more
      have hlast : (members.map Prod.fst).count (some f.name) = 0 := by
        simpa using honce f hf
      let given' : String → Option Document := fun name =>
        if name = f.name then none else given name
      have hrest : readMembers fields (f.name :: seen) members = overlay fields given' := by
        funext s'
        refine ih hrestkeys (fun g hg => ?_) (fun g hg d' => ?_) (fun g hg hmem => ?_) s'
        · exact Nat.le_trans (List.count_le_count_cons ..) (honce g hg)
        · by_cases heq : g.name = f.name
          · have habsent : (some f.name, d') ∉ members := fun hmem =>
              List.count_eq_zero.mp hlast (List.mem_map_of_mem hmem)
            simp [given', heq, habsent]
          · simpa [given', heq] using hgiven g hg d'
        · by_cases heq : g.name = f.name
          · simp [given', heq]
          · simpa [given', heq] using hseen g hg (by simpa [heq] using hmem)
      rw [if_neg hunseen, hrest]
      refine (overlay_eq_bind hnames hcommutes hf hd (by simp [given']) (fun g _ hne => ?_) s).symm
      simp [given', hne]

/-- When members are read, every key denotes a text, and every known name is given once at most, and
not at all if it has been seen. -/
theorem keys_of_readMembers {s' : σ} (h : readMembers fields seen members s = some s') :
    (∀ m ∈ members, m.1 ≠ none) ∧ ∀ f ∈ fields,
      (members.map Prod.fst).count (some f.name) ≤ if f.name ∈ seen then 0 else 1 := by
  -- By induction on the members: a field is seen once, and what no field is called is skipped.
  induction members generalizing seen s with
  | nil => simp
  | cons m members ih =>
    obtain ⟨key, d⟩ := m
    cases key with
    | none => cases h
    | some key =>
      rw [readMembers] at h
      split at h
      · next hfind =>
        obtain ⟨hkeys, hcounts⟩ := ih h
        refine ⟨List.forall_mem_cons.mpr ⟨by simp, hkeys⟩, fun g hg => ?_⟩
        have hne : key ≠ g.name := fun heq => by
          simpa [heq] using List.find?_eq_none.mp hfind g hg
        simpa [List.count_cons, hne] using hcounts g hg
      · next f hfind =>
        split at h
        · cases h
        · next hunseen =>
          obtain ⟨s₁, -, hrest⟩ := Option.bind_eq_some_iff.mp h
          obtain ⟨hkeys, hcounts⟩ := ih hrest
          refine ⟨List.forall_mem_cons.mpr ⟨by simp, hkeys⟩, fun g hg => ?_⟩
          have hcount := hcounts g hg
          by_cases heq : key = g.name
          · subst heq
            simpa [hunseen] using hcount
          · have hne : g.name ≠ key := Ne.symm heq
            simpa [List.count_cons, heq, hne] using hcount

/-- If a name is given once at most, looking it up finds its only value. -/
theorem lookup_eq_some_iff_mem {key : Option String}
    (honce : (members.map Prod.fst).count key ≤ 1) {d : Document} :
    members.lookup key = some d ↔ (key, d) ∈ members := by
  induction members with
  | nil => simp
  | cons m members ih =>
    obtain ⟨key', d'⟩ := m
    -- The key stands here, so it does not stand behind.
    by_cases heq : key = key'
    · subst heq
      have habsent : (key, d) ∉ members := fun hmem => by
        have hcount : 0 < (members.map Prod.fst).count key :=
          List.count_pos_iff.mpr (List.mem_map_of_mem hmem)
        simp only [List.map_cons, List.count_cons_self] at honce
        omega
      simp [habsent, eq_comm]
    · have hbeq : (key == key') = false := beq_eq_false_iff_ne.mpr heq
      have hrest : (members.map Prod.fst).count key ≤ 1 :=
        Nat.le_trans (List.count_le_count_cons ..) honce
      rw [List.lookup_cons, hbeq, ih hrest]
      simp [heq]

/-! ### Items -/

/-- Items are read as they are overlaid. -/
theorem readItems_eq_overlay {items : List Document} (hlength : items.length ≤ fields.length)
    (hgiven : ∀ (i : Nat) (f : Field σ), fields[i]? = some f → given f.name = items[i]?) (s : σ) :
    readItems fields items s = overlay fields given s := by
  induction fields generalizing items s with
  | nil =>
    cases List.length_eq_zero_iff.mp (Nat.le_zero.mp hlength)
    rfl
  -- By induction on the fields: each takes the next item, and where none is left the default stays.
  | cons f fields ih =>
    have hf : given f.name = items[0]? := hgiven 0 f rfl
    have hrest : ∀ (i : Nat) (g : Field σ), fields[i]? = some g → given g.name = items[i + 1]? :=
      fun i g hg => hgiven (i + 1) g hg
    cases items with
    | nil =>
      have hnone : ∀ g ∈ f :: fields, given g.name = none := fun g hg => by
        obtain ⟨i, hi⟩ := List.getElem?_of_mem hg
        exact hgiven i g hi
      exact (overlay_none hnone s).symm
    | cons d items =>
      have hfields : readItems fields items = overlay fields given :=
        funext fun s' => ih (Nat.le_of_succ_le_succ hlength) hrest s'
      rw [overlay, Field.overlay, hf, readItems, hfields]
      rfl

/-- No more items are read than there are fields. -/
theorem length_le_of_readItems {items : List Document} {s' : σ}
    (h : readItems fields items s = some s') : items.length ≤ fields.length := by
  induction fields generalizing items s with
  | nil =>
    cases items with
    | nil => exact Nat.le_refl 0
    | cons d items => cases h
  | cons f fields ih =>
    cases items with
    | nil => exact Nat.zero_le _
    | cons d items =>
      obtain ⟨s₁, -, hrest⟩ := Option.bind_eq_some_iff.mp h
      exact Nat.succ_le_succ (ih hrest)

/-! ### Documents -/

variable {default : σ} {d : Document}

/-- What a document gives is overlaid on the default settings. -/
theorem read_of_gives (hnames : (fields.map Field.name).Nodup)
    (hcommutes : fields.Pairwise Field.Commutes) (h : d.Gives (fields.map Field.name) given) :
    (ofFields fields default).read d = overlay fields given default := by
  cases h with
  | object hkeys honce hgiven =>
    exact readMembers_eq_overlay hnames hcommutes hkeys (List.forall_mem_map.mp honce)
      (List.forall_mem_map.mp hgiven) (fun f _ hmem => absurd hmem List.not_mem_nil) default
  | array hlength hgiven =>
    refine readItems_eq_overlay (by simpa using hlength) (fun i f hf => hgiven i f.name ?_) default
    rw [List.getElem?_map, hf]
    rfl

/-- A document that is read gives something, or nothing, for each of the fields. -/
theorem exists_gives (hnames : (fields.map Field.name).Nodup)
    (h : (ofFields fields default).read d = some s) :
    ∃ given, d.Gives (fields.map Field.name) given := by
  cases d with
  | object members =>
    obtain ⟨hkeys, hcounts⟩ := keys_of_readMembers h
    have honce : ∀ f ∈ fields, (members.map Prod.fst).count (some f.name) ≤ 1 := fun f hf => by
      simpa using hcounts f hf
    refine ⟨fun name => members.lookup (some name),
      .object hkeys (List.forall_mem_map.mpr honce) ?_⟩
    exact List.forall_mem_map.mpr fun f hf d => lookup_eq_some_iff_mem (honce f hf)
  | array items =>
    exact Document.exists_array_gives hnames (by simpa using length_le_of_readItems h)
  | null | bool b | number literal | text s => cases h

end Form

/-! ### What a form makes of a text -/

namespace Document

variable {names : List String} {given given' : String → Option Document} {d : Document}

/-- A document gives one thing at most for each of the names. -/
theorem Gives.eq_of_mem (h : d.Gives names given) (h' : d.Gives names given') {name : String}
    (hname : name ∈ names) : given name = given' name := by
  cases h with
  | object hkeys honce hgiven =>
    cases h' with
    | object hkeys' honce' hgiven' =>
      exact Option.ext fun value => (hgiven name hname value).trans (hgiven' name hname value).symm
  | array hlength hgiven =>
    cases h' with
    | array hlength' hgiven' =>
      obtain ⟨i, hi⟩ := List.getElem?_of_mem hname
      exact (hgiven i name hi).trans (hgiven' i name hi).symm

/-- Items give what they give as members with the names of their positions. -/
theorem Gives.ofMembers_zip {items : List Document} (hnames : names.Nodup)
    (h : (Document.array items).Gives names given) :
    (ofMembers (names.zip items)).Gives names given := by
  cases h with
  | array hlength hgiven =>
    have hkeys : ((names.zip items).map fun m => (some m.1, m.2)).map Prod.fst =
        (names.take items.length).map some := by
      have hzip : ((names.take items.length).zip items).map Prod.fst = names.take items.length :=
        List.map_fst_zip (List.length_take_le ..)
      rw [List.zip_eq_zip_take_min, Nat.min_eq_right hlength, List.take_length, List.map_map]
      refine Eq.trans ?_ (congrArg (List.map some) hzip)
      rw [List.map_map]
      rfl
    have hdistinct : ((names.take items.length).map some).Nodup :=
      List.Pairwise.map some (by simp) (hnames.sublist (List.take_sublist ..))
    have htexts : ∀ m ∈ (names.zip items).map fun m => (some m.1, m.2), m.1 ≠ none :=
      List.forall_mem_map.mpr fun m _ => Option.some_ne_none m.1
    refine .object htexts (fun name _ => ?_) fun name hname value => ?_
    · rw [hkeys]
      exact List.nodup_iff_count.mp hdistinct (some name)
    · obtain ⟨i, hi⟩ := List.getElem?_of_mem hname
      obtain ⟨hlt, -⟩ := List.getElem?_eq_some_iff.mp hi
      -- the item at a position is the only one that is given for its name
      rw [hgiven i name hi]
      simp only [List.mem_map, Prod.mk.injEq, Option.some.injEq, Prod.exists]
      constructor
      · intro hvalue
        have hzip : (names.zip items)[i]? = some (name, value) :=
          List.getElem?_zip_eq_some.mpr ⟨hi, hvalue⟩
        exact ⟨name, value, List.mem_of_getElem? hzip, rfl, rfl⟩
      · rintro ⟨_, _, hmem, rfl, rfl⟩
        obtain ⟨j, hj⟩ := List.getElem?_of_mem hmem
        obtain ⟨hname', hvalue⟩ := List.getElem?_zip_eq_some.mp hj
        rwa [(List.getElem?_inj hlt hnames).mp (hi.trans hname'.symm)]

end Document

/-- The setting is what the document that is given for it means, and it stays as in `default` if
none is given. -/
def Overlaid {α : Type} (means : Document → α → Prop) (default : α) : Option Document → α → Prop
  | none, a => a = default
  | some d, a => means d a

namespace Form

variable {α σ : Type}

/-- The settings that a text is loaded as. -/
def load (form : Form α) (text : String) : Option α := (Document.parse? text).bind form.read

/-- Texts are loaded as the settings that come of what they give for the names, which `Given` says:
an object gives it by name and an array by position.  All other texts are refused. -/
structure Overlays (form : Form σ) (names : List String)
    (Given : (String → Option Document) → σ → Prop) : Prop where
  loads : ∀ {text : String} {s : σ}, form.load text = some s ↔
    ∃ (d : Document) (given : String → Option Document),
      d.Spells text ∧ d.Gives names given ∧ Given given s
  positional : ∀ {items : List Document} {text text' : String}, items.length ≤ names.length →
    (Document.array items).Spells text → (Document.ofMembers (names.zip items)).Spells text' →
      form.load text = form.load text'
  malformed : ∀ {text : String}, (∀ d : Document, ¬ d.Spells text) → form.load text = none
  repeated : ∀ {members : List (Option String × Document)} {name : String} {text : String},
    (Document.object members).Spells text → name ∈ names →
      1 < (members.map Prod.fst).count (some name) → form.load text = none
  surplus : ∀ {items : List Document} {text : String}, (Document.array items).Spells text →
    names.length < items.length → form.load text = none
  mistyped : ∀ {d value : Document} {given : String → Option Document} {name text : String},
    d.Spells text → d.Gives names given → name ∈ names → given name = some value →
      (∀ given' s, given' name = some value → ¬ Given given' s) → form.load text = none

variable {fields : List (Field σ)} {default : σ} {Given : (String → Option Document) → σ → Prop}

/-- The form of a record overlays what is given for its fields, if these have different names and
commute. -/
theorem overlays_ofFields (hnames : (fields.map Field.name).Nodup)
    (hcommutes : fields.Pairwise Field.Commutes)
    (hoverlay : ∀ given s, overlay fields given default = some s ↔ Given given s) :
    (ofFields fields default).Overlays (fields.map Field.name) Given := by
  -- The text is one document only, so what it gives is known before it is read.
  have hloads : ∀ {text s}, (ofFields fields default).load text = some s ↔
      ∃ (d : Document) (given : String → Option Document),
        d.Spells text ∧ d.Gives (fields.map Field.name) given ∧ Given given s := by
    intro text s
    simp only [load, Option.bind_eq_some_iff, Document.parse?_eq_some_iff]
    constructor
    · rintro ⟨d, hspells, hread⟩
      obtain ⟨given, hgives⟩ := exists_gives hnames hread
      rw [read_of_gives hnames hcommutes hgives] at hread
      exact ⟨d, given, hspells, hgives, (hoverlay given s).mp hread⟩
    · rintro ⟨d, given, hspells, hgives, hgiven⟩
      refine ⟨d, hspells, ?_⟩
      rw [read_of_gives hnames hcommutes hgives]
      exact (hoverlay given s).mpr hgiven
  have hrefused : ∀ {text : String}, (∀ (d : Document) given s, d.Spells text →
      d.Gives (fields.map Field.name) given → ¬ Given given s) →
        (ofFields fields default).load text = none := by
    intro text h
    refine Option.eq_none_iff_forall_ne_some.mpr fun s hs => ?_
    obtain ⟨d, given, hspells, hgives, hgiven⟩ := hloads.mp hs
    exact h d given s hspells hgives hgiven
  refine ⟨hloads, ?_, ?_, ?_, ?_, ?_⟩
  · intro items text text' hlength hspells hspells'
    obtain ⟨given, hgives⟩ := Document.exists_array_gives hnames hlength
    rw [load, load, Document.parse?_eq_some_iff.mpr hspells,
      Document.parse?_eq_some_iff.mpr hspells', Option.bind_some, Option.bind_some,
      read_of_gives hnames hcommutes hgives,
      read_of_gives hnames hcommutes (hgives.ofMembers_zip hnames)]
  · exact fun hmalformed => hrefused fun d _ _ hspells => absurd hspells (hmalformed d)
  · intro members name text hspells hname hrepeated
    refine hrefused fun d given s hspells' hgives => ?_
    cases hspells.eq hspells'
    cases hgives with
    | object hkeys honce hgiven => exact absurd (honce name hname) (Nat.not_le.mpr hrepeated)
  · intro items text hspells hsurplus
    refine hrefused fun d given s hspells' hgives => ?_
    cases hspells.eq hspells'
    cases hgives with
    | array hlength hgiven => exact absurd hlength (Nat.not_le.mpr hsurplus)
  · intro d value given name text hspells hgives hname hvalue hmistyped
    refine hrefused fun d' given' s hspells' hgives' => hmistyped given' s ?_
    cases hspells.eq hspells'
    rw [← hvalue, hgives.eq_of_mem hgives' hname]

end Form
end WireCall
