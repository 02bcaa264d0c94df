import WireCall.Settings.Server
import WireCall.Codec

namespace WireCall

/-!
# Settings of a client

Whom a client calls when no directory tells it, how often and how long it tries, and how it writes
its requests.
-/

/-- The settings of a client. -/
structure ClientSettings where
  host : String
  port : UInt16
  attempts : UInt64
  dialPatience : Duration
  serialization : Serialization
  compression : Compression
  maximum : UInt32
deriving DecidableEq, Repr

namespace ClientSettings

/-- Three attempts of five seconds at the local host. -/
def default : ClientSettings :=
  ⟨defaultHost, defaultPort, 3, .ofSeconds 5, .msgPack, .gzip, Header.defaultMaximum⟩

instance : Inhabited ClientSettings := ⟨default⟩

/-- The settings for another address. -/
def withAddress (s : ClientSettings) (host : String) (port : UInt16) : ClientSettings :=
  { s with host, port }

/-- The settings with another number of attempts. -/
def withAttempts (s : ClientSettings) (attempts : UInt64) : ClientSettings :=
  { s with attempts }

/-- The settings with another bound on the time that connecting takes. -/
def withDialPatience (s : ClientSettings) (dialPatience : Duration) : ClientSettings :=
  { s with dialPatience }

/-- The settings with another serialization of requests. -/
def withSerialization (s : ClientSettings) (serialization : Serialization) : ClientSettings :=
  { s with serialization }

/-- The settings with another compression of requests. -/
def withCompression (s : ClientSettings) (compression : Compression) : ClientSettings :=
  { s with compression }

/-- The settings with another bound on frames. -/
def withMaximum (s : ClientSettings) (maximum : UInt32) : ClientSettings := { s with maximum }

/-- Whom the client calls when no directory tells it. -/
def address (s : ClientSettings) : String := addressOf s.host s.port

/-- The fields in a document. -/
def fields : List (Field ClientSettings) :=
  [Form.text.field "host" (·.host) fun host s => { s with host },
    Form.word16.field "port" (·.port) fun port s => { s with port },
    Form.word64.field "retries" (·.attempts) fun attempts s => { s with attempts },
    Form.duration.field "connect_timeout" (·.dialPatience) fun dialPatience s =>
      { s with dialPatience },
    (Form.choice Serialization.all Serialization.name).field "serialize_type" (·.serialization)
      fun serialization s => { s with serialization },
    (Form.choice Compression.all Compression.name).field "compress_type" (·.compression)
      fun compression s => { s with compression },
    Form.word32.field "max_frame_size" (·.maximum) fun maximum s => { s with maximum }]

/-- How the settings are read and written. -/
def form : Form ClientSettings := .ofFields fields default

end ClientSettings
end WireCall
