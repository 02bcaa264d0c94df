import WireCall.Settings.Admission
import WireCall.Frame.Header

namespace WireCall

/-!
# Settings of a server

Where a server listens, whom it admits and how large a frame it accepts.
-/

/-- The settings of a server. -/
structure ServerSettings where
  host : String
  port : UInt16
  admission : Option AdmissionSettings
  maximum : UInt32
deriving DecidableEq, Repr

/-- The host of servers and clients that are told no other. -/
def defaultHost : String := "127.0.0.1"

/-- The port of servers and clients that are told no other. -/
def defaultPort : UInt16 := 9222

/-- A host and a port as one text. -/
def addressOf (host : String) (port : UInt16) : String := s!"{host}:{port.toNat}"

namespace ServerSettings

/-- The local host, without admission control. -/
def default : ServerSettings := ⟨defaultHost, defaultPort, none, Header.defaultMaximum⟩

instance : Inhabited ServerSettings := ⟨default⟩

/-- Listening at another place. -/
def listeningAt (host : String) (port : UInt16) : ServerSettings := { default with host, port }

/-- The settings with admission control. -/
def withAdmission (s : ServerSettings) (admission : AdmissionSettings) : ServerSettings :=
  { s with admission := some admission }

/-- The settings with another bound on frames. -/
def withMaximum (s : ServerSettings) (maximum : UInt32) : ServerSettings := { s with maximum }

/-- Where the server listens. -/
def address (s : ServerSettings) : String := addressOf s.host s.port

/-- The fields in a document. -/
def fields : List (Field ServerSettings) :=
  [Form.text.field "host" (·.host) fun host s => { s with host },
    Form.word16.field "port" (·.port) fun port s => { s with port },
    AdmissionSettings.form.optional.field "limiter" (·.admission) fun admission s =>
      { s with admission },
    Form.word32.field "max_frame_size" (·.maximum) fun maximum s => { s with maximum }]

/-- How the settings are read and written. -/
def form : Form ServerSettings := .ofFields fields default

end ServerSettings
end WireCall
