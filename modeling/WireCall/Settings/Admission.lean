import WireCall.Settings.Form

namespace WireCall

/-!
# Settings of admission

How many connections a server admits: a bucket of `burst` tokens, refilled at `rate` tokens a
second, and how long a connection may wait for a token.
-/

/-- The settings of an admission gate. -/
structure AdmissionSettings where
  rate : UInt32
  burst : UInt32
  patience : Duration
deriving DecidableEq, Repr

namespace AdmissionSettings

/-- A hundred connections a second, a hundred at once, and no waiting. -/
def default : AdmissionSettings := ⟨100, 100, .zero⟩

instance : Inhabited AdmissionSettings := ⟨default⟩

/-- A gate at which no connection waits. -/
def ofRate (rate burst : UInt32) : AdmissionSettings := ⟨rate, burst, .zero⟩

/-- The settings with another patience. -/
def withPatience (s : AdmissionSettings) (patience : Duration) : AdmissionSettings :=
  { s with patience }

/-- The fields in a document. -/
def fields : List (Field AdmissionSettings) :=
  [Form.word32.field "rate" (·.rate) fun rate s => { s with rate },
    Form.word32.field "burst" (·.burst) fun burst s => { s with burst },
    Form.duration.field "timeout" (·.patience) fun patience s => { s with patience }]

/-- How the settings are read and written. -/
def form : Form AdmissionSettings := .ofFields fields default

end AdmissionSettings
end WireCall
