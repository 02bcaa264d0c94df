import WireCall.Settings.Server

namespace WireCall

/-!
# Settings of discovery

What a discovery backend is told when it is connected.
-/

/-- The settings of a discovery backend. -/
structure DiscoverySettings where
  endpoints : List String
  dialPatience : Duration
  serviceName : String
  host : String
  port : UInt16
deriving DecidableEq, Repr

namespace DiscoverySettings

/-- No endpoints, and five seconds to reach one. -/
def default : DiscoverySettings := ⟨[], .ofSeconds 5, "", defaultHost, defaultPort⟩

instance : Inhabited DiscoverySettings := ⟨default⟩

/-- The settings with other endpoints. -/
def withEndpoints (s : DiscoverySettings) (endpoints : List String) : DiscoverySettings :=
  { s with endpoints }

/-- The settings with another bound on the time that connecting takes. -/
def withDialPatience (s : DiscoverySettings) (dialPatience : Duration) : DiscoverySettings :=
  { s with dialPatience }

/-- The fields in a document. -/
def fields : List (Field DiscoverySettings) :=
  [Form.text.list.field "endpoints" (·.endpoints) fun endpoints s => { s with endpoints },
    Form.duration.field "dial_timeout" (·.dialPatience) fun dialPatience s =>
      { s with dialPatience },
    Form.text.field "service_name" (·.serviceName) fun serviceName s => { s with serviceName },
    Form.text.field "host" (·.host) fun host s => { s with host },
    Form.word16.field "port" (·.port) fun port s => { s with port }]

/-- How the settings are read and written. -/
def form : Form DiscoverySettings := .ofFields fields default

end DiscoverySettings
end WireCall
