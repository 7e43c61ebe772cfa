import Quorum.Api.Error
import Quorum.Api.Pipeline
import Quorum.Api.Router
import Quorum.Backend
import Quorum.CommandLine.Likeness
import Quorum.CommandLine.Options
import Quorum.CommandLine.Session
import Quorum.Config
import Quorum.Config.Layering
import Quorum.Config.Reader
import Quorum.Digest.Blake3
import Quorum.Json.Fault
import Quorum.Json.Reader
import Quorum.Json.Record
import Quorum.Json.Skip
import Quorum.Json.Value
import Quorum.Limiter
import Quorum.Limiter.Calls
import Quorum.Log
import Quorum.Main
import Quorum.Message
import Quorum.Message.Reader
import Quorum.Message.Stream
import Quorum.Net.AddressFault
import Quorum.Net.Domain
import Quorum.Net.Ip
import Quorum.Net.MediaType
import Quorum.Net.Multiaddr
import Quorum.Net.OneShot
import Quorum.Net.Post
import Quorum.Net.Punycode
import Quorum.Net.Status
import Quorum.Net.Url
import Quorum.Network.Broadcast
import Quorum.Network.Dialing
import Quorum.Network.Error
import Quorum.Network.Host
import Quorum.Network.Loop
import Quorum.Network.Manager
import Quorum.Network.Mesh
import Quorum.Network.Notices
import Quorum.Network.Scripted
import Quorum.Node.Running
import Quorum.Node.Start
import Quorum.Number.Decimal
import Quorum.Number.Double
import Quorum.Number.Whole
import Quorum.Peer.Base58
import Quorum.Peer.Calls
import Quorum.Peer.Id
import Quorum.Peer.Set
import Quorum.Proofs.Json.Equality
import Quorum.Proofs.Json.Reading
import Quorum.Proofs.Json.Text
import Quorum.Proofs.Network.Broadcast
import Quorum.Proofs.Network.SelectLoop
import Quorum.Proofs.Number.Magnitude
import Quorum.Proofs.Number.Rounding
import Quorum.Proofs.Number.Shortest
import Quorum.Proofs.Number.Text
import Quorum.Proofs.Peer.Order
import Quorum.Proofs.Selector
import Quorum.Proofs.Selector.Outage
import Quorum.Proofs.Text.Order
import Quorum.Proofs.Vote.Classes
import Quorum.Proofs.Vote.Decision
import Quorum.Proofs.Vote.Groups
import Quorum.Registry
import Quorum.Registry.Contract
import Quorum.Selector
import Quorum.Selector.Schedule
import Quorum.Store
import Quorum.Store.Ipfs
import Quorum.Text.Ascii
import Quorum.Text.Printable
import Quorum.Text.Timestamp
import Quorum.Text.Utf8
import Quorum.Vote
import Quorum.Yaml.Cursor
import Quorum.Yaml.Lexer
import Quorum.Yaml.Node
import Quorum.Yaml.Token
import Quorum.Yaml.Typed
import Quorum.Proofs.Limiter.Check
import Quorum.Proofs.Peer.Recency
import Quorum.Proofs.Vote.Agreement
import Quorum.Proofs.Limiter.Isolation
import Quorum.Proofs.Limiter.Windows
import Quorum.Proofs.Json.Numerals
import Quorum.Proofs.Json.RoundTrip
import Quorum.Proofs.Message.Codec
import Quorum.Proofs.Network.Desk
import Quorum.Proofs.Network.Commands
import Quorum.Proofs.Network.Guarantees
import Quorum.Proofs.Json.Members
import Quorum.Proofs.Api.Stages
import Quorum.Proofs.Api.Respond
import Quorum.Proofs.Json.Extent
import Quorum.Proofs.Number.Width
import Quorum.Proofs.Json.Records
import Quorum.Proofs.Message.Serving
import Quorum.Proofs.Api.Dispatch
import Quorum.Proofs.Json.Spelling
import Quorum.Proofs.Json.Documents
import Quorum.Proofs.Api.Content
import Quorum.Proofs.Store
import Quorum.Proofs.Node.Content
import Quorum.Proofs.Network.Discovery
import Quorum.Proofs.Api.Errors
import Quorum.Proofs.Api.Unhandled
import Quorum.Proofs.Api.Discretion
import Quorum.Proofs.Message.Reading
import Quorum.Proofs.Limiter.Retry
import Quorum.Proofs.Number.Quotient
import Quorum.Proofs.Vote.Monotone
import Quorum.Proofs.Network.Inbound
import Quorum.Proofs.Json.Nesting
import Quorum.Proofs.Json.Taken
import Quorum.Proofs.Message.Truncation
import Quorum.Proofs.Network.Rounds
import Quorum.Proofs.Store.Holdings
import Quorum.Proofs.Network.Sync
import Quorum.Proofs.Network.Naming
import Quorum.Proofs.Peer.Accounting
import Quorum.Proofs.Node.Gate
import Quorum.Proofs.Config.Layering
