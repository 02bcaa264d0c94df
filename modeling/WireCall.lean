import WireCall.Document.Reader
import WireCall.Server.Acceptor
import WireCall.Server.Roster
import WireCall.Service.Catalogue
import WireCall.Site
import WireCall.Lobby
import WireCall.Traffic
import WireCall.Proofs.Octets
import WireCall.Proofs.MsgPack.Head
import WireCall.Proofs.Values
import WireCall.Proofs.Recovery
import WireCall.Proofs.MsgPack.Value
import WireCall.Proofs.MsgPack.Message
import WireCall.Proofs.MsgPack.Size
import WireCall.Proofs.MsgPack.Form
import WireCall.Proofs.MsgPack.Written
import WireCall.Proofs.MsgPack.Entries
import WireCall.Proofs.MsgPack.Order
import WireCall.Proofs.Protobuf.Wire
import WireCall.Proofs.Protobuf.Value
import WireCall.Proofs.Protobuf.Message
import WireCall.Proofs.Gzip.Bits
import WireCall.Proofs.Gzip.Symbols
import WireCall.Proofs.Gzip.Tokens
import WireCall.Proofs.Gzip.Inflate
import WireCall.Proofs.Gzip.Member
import WireCall.Proofs.Gzip.Progress
import WireCall.Proofs.Gzip.Limit
import WireCall.Proofs.Gzip.Crc32
import WireCall.Proofs.Gzip.Format
import WireCall.Proofs.Frame.Stream
import WireCall.Proofs.Codec
import WireCall.Proofs.Frame.Body
import WireCall.Proofs.Frame.Header
import WireCall.Proofs.Frame.Delivery
import WireCall.Proofs.Frame.Limit
import WireCall.Proofs.Frame.Sequence
import WireCall.Proofs.Frame.Length
import WireCall.Proofs.Server.Exchange
import WireCall.Proofs.Client.Exchange
import WireCall.Proofs.RemoteCall
import WireCall.Proofs.Client.Log
import WireCall.Proofs.Client.Acceptance
import WireCall.Proofs.Traffic.Call
import WireCall.Proofs.Traffic.Completion
import WireCall.Proofs.Traffic.Runs
import WireCall.Proofs.Traffic.Isolation
import WireCall.Proofs.MsgPack.Accepted
import WireCall.Proofs.Protobuf.Length
import WireCall.Proofs.Protobuf.Accepted
import WireCall.Proofs.Protobuf.AcceptedMessage
import WireCall.Proofs.Protobuf.Narrowing
import WireCall.Proofs.Protobuf.Order
import WireCall.Proofs.Accepted
import WireCall.Proofs.Rearranged
import WireCall.Proofs.Members
import WireCall.Proofs.Service.History
import WireCall.Proofs.Service.Dispatch
import WireCall.Proofs.Server.Setup
import WireCall.Proofs.Lobby.Guest
import WireCall.Proofs.Lobby.Refusal
import WireCall.Proofs.Lobby.Tokens
import WireCall.Proofs.Lobby.Traces
import WireCall.Proofs.Lobby.Gate
import WireCall.Proofs.Lobby.Admission
import WireCall.Proofs.Traffic.Lobby
import WireCall.Proofs.Client.Retries
import WireCall.Proofs.Service.Arguments
import WireCall.Proofs.Service.Keys
import WireCall.Proofs.Service.Sendable
import WireCall.Proofs.Service.Results
import WireCall.Proofs.Service.Classification
import WireCall.Proofs.Client.TypedCall
import WireCall.Proofs.Document.Grammar
import WireCall.Proofs.Document.Number
import WireCall.Proofs.Document.Literal
import WireCall.Proofs.Document.Lexer
import WireCall.Proofs.Document.Assembly
import WireCall.Proofs.Settings.Forms
import WireCall.Proofs.Settings.Overlay
import WireCall.Proofs.Settings.Defaults
import WireCall.Proofs.Document.Rendered
import WireCall.Proofs.Settings.Saved
import WireCall.Proofs.Discovery.History
import WireCall.Proofs.Server.Tuning
import WireCall.Proofs.Admission.Rate
import WireCall.Proofs.Client.Room
import WireCall.Proofs.Deadline
import WireCall.Proofs.Server.Stopping
