import WireCall.Document.Printer
import WireCall.Duration

namespace WireCall

/-!
# Forms of settings

A `Form` says how a setting is read from a JSON document and how it is written to one.  Forms of
whole records are put together from `Field`s: `Form.ofFields` overlays a document on the default
settings, where

* an object gives fields by name, in any order, each at most once, with other members skipped;
* an array gives the first fields by position, and no more than there are.

What a document does not give keeps its default.
-/

/-- How a setting is read and written. -/
structure Form (α : Type) where
  read : Document → Option α
  write : α → Document

/-- One field of the settings `σ`: its name, what a document for it changes, and its document. -/
structure Field (σ : Type) where
  name : String
  read : Document → σ → Option σ
  write : σ → Document

namespace Form

variable {α σ : Type}

/-! ### Simple forms -/

/-- A natural below `bound`, written in plain digits. -/
def natural (bound : Nat) (ofNat : Nat → α) (toNat : α → Nat) : Form α where
  read d := d.natural?.bind fun n => if n < bound then some (ofNat n) else none
  write a := .ofNat (toNat a)

/-- A 16-bit natural. -/
def word16 : Form UInt16 := natural 0x10000 UInt16.ofNat UInt16.toNat

/-- A 32-bit natural. -/
def word32 : Form UInt32 := natural 0x100000000 UInt32.ofNat UInt32.toNat

/-- A 64-bit natural. -/
def word64 : Form UInt64 := natural 0x10000000000000000 UInt64.ofNat UInt64.toNat

/-- A text. -/
def text : Form String where
  read
    | .text s => s
    | _ => none
  write := .ofText

/-- An array of settings of one form. -/
def list (form : Form α) : Form (List α) where
  read
    | .array items => items.mapM form.read
    | _ => none
  write items := .array (items.map form.write)

/-- A setting that may be absent, which is written as null. -/
def optional (form : Form α) : Form (Option α) where
  read
    | .null => some none
    | d => (form.read d).map some
  write
    | none => .null
    | some a => form.write a

/-- One of a few named choices: its name, or an object that maps the name to null. -/
def choice (all : List α) (name : α → String) : Form α where
  read
    | .text (some s) => all.find? fun a => name a == s
    | .object [(some s, .null)] => all.find? fun a => name a == s
    | _ => none
  write a := .ofText (name a)

/-! ### Durations -/

/-- Seconds of 64 bits and nanoseconds of 32 bits, of which whole seconds carry over. -/
def durationOf (seconds nanos : Document) : Option Duration := do
  let seconds ← word64.read seconds
  let nanos ← word32.read nanos
  Duration.ofParts? seconds.toNat nanos.toNat

/-- A duration is an object of exactly `secs` and `nanos`, or an array of the two. -/
def duration : Form Duration where
  read
    | .object [(some "secs", seconds), (some "nanos", nanos)] => durationOf seconds nanos
    | .object [(some "nanos", nanos), (some "secs", seconds)] => durationOf seconds nanos
    | .array [seconds, nanos] => durationOf seconds nanos
    | _ => none
  write d := .ofMembers [("secs", .ofNat d.seconds), ("nanos", .ofNat d.subsecondNanos)]

/-! ### Records -/

/-- The field `name` of a record, whose form is `form`. -/
def field (form : Form α) (name : String) (get : σ → α) (set : α → σ → σ) : Field σ where
  name
  read d s := (form.read d).map fun a => set a s
  write s := form.write (get s)

/-- Reads members into the settings; `seen` are the names of the fields that have been read. -/
def readMembers (fields : List (Field σ)) :
    List String → List (Option String × Document) → σ → Option σ
  | _, [], s => some s
  -- A key has to denote a text, even if it names no field.
  | _, (none, _) :: _, _ => none
  | seen, (some key, d) :: members, s =>
    match fields.find? fun f => f.name == key with
    | none => readMembers fields seen members s
    | some f =>
      if key ∈ seen then none
      else (f.read d s).bind (readMembers fields (key :: seen) members)

/-- Reads items into the settings, one for each field. -/
def readItems : List (Field σ) → List Document → σ → Option σ
  | _, [], s => some s
  | [], _ :: _, _ => none
  | f :: fields, d :: items, s => (f.read d s).bind (readItems fields items)

/-- A record with these fields; what a document does not give stays as in `default`. -/
def ofFields (fields : List (Field σ)) (default : σ) : Form σ where
  read
    | .object members => readMembers fields [] members default
    | .array items => readItems fields items default
    | _ => none
  write s := .ofMembers (fields.map fun f => (f.name, f.write s))

end Form
end WireCall
