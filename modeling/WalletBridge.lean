import WalletBridge.Binary64.Basic
import WalletBridge.Binary64.Decimal
import WalletBridge.Client.Exchange
import WalletBridge.Client.Query
import WalletBridge.Command.Arguments
import WalletBridge.Command.Usage
import WalletBridge.Config.Check
import WalletBridge.Config.File
import WalletBridge.Config.Flags
import WalletBridge.Config.Settings
import WalletBridge.Daemon.Failure
import WalletBridge.Daemon.Program
import WalletBridge.Daemon.Progress
import WalletBridge.Daemon.Release
import WalletBridge.Daemon.Run
import WalletBridge.Daemon.Start
import WalletBridge.Daemon.Surroundings
import WalletBridge.Device.Call
import WalletBridge.Device.Emulator
import WalletBridge.Device.Error
import WalletBridge.Device.Link
import WalletBridge.Device.Message
import WalletBridge.Device.Mode
import WalletBridge.Gateway.Queue
import WalletBridge.Http.Csrf
import WalletBridge.Http.Diagnostics
import WalletBridge.Http.Envelope
import WalletBridge.Http.Header
import WalletBridge.Http.HostCheck
import WalletBridge.Http.Hosted
import WalletBridge.Http.Media
import WalletBridge.Http.Route
import WalletBridge.Http.Server
import WalletBridge.Http.Service
import WalletBridge.Http.Status
import WalletBridge.Http.Uri
import WalletBridge.Json.Codec
import WalletBridge.Json.Fault
import WalletBridge.Json.Reader
import WalletBridge.Json.Scan
import WalletBridge.Json.Value
import WalletBridge.Lifecycle.Phase
import WalletBridge.Lifecycle.Quit
import WalletBridge.Lifecycle.Signal
import WalletBridge.Log.FileName
import WalletBridge.Log.Level
import WalletBridge.Log.Line
import WalletBridge.Log.Moment
import WalletBridge.Log.Output
import WalletBridge.Main
import WalletBridge.Net.Address
import WalletBridge.Net.Listen
import WalletBridge.Net.Offline
import WalletBridge.Observe.Metrics
import WalletBridge.Observe.Profile
import WalletBridge.Os.Error
import WalletBridge.Os.FileTree
import WalletBridge.Proofs.Daemon.Balance
import WalletBridge.Proofs.Daemon.Conclusion
import WalletBridge.Proofs.Daemon.Deadline
import WalletBridge.Proofs.Daemon.FirstFailure
import WalletBridge.Proofs.Daemon.Giving
import WalletBridge.Proofs.Device.Datagram
import WalletBridge.Proofs.Gateway.History
import WalletBridge.Proofs.Gateway.Serial
import WalletBridge.Proofs.Json.Given
import WalletBridge.Proofs.Json.Scalars
import WalletBridge.Proofs.Json.Written
import WalletBridge.Proofs.Messages.RoundTrip
import WalletBridge.Proofs.Request.Accepted
import WalletBridge.Proofs.Request.Transaction
import WalletBridge.Proofs.Server.Protocol
import WalletBridge.Proofs.Service.Access
import WalletBridge.Proofs.Service.Delivery
import WalletBridge.Proofs.Service.Outcome
import WalletBridge.Proofs.Service.Turn
import WalletBridge.Proofs.Tokens.Ledger
import WalletBridge.Request.Body
import WalletBridge.Request.Signing
import WalletBridge.Request.Validation
import WalletBridge.Text.Blank
import WalletBridge.Text.Decimal
import WalletBridge.Text.Duration
import WalletBridge.Text.Printable
import WalletBridge.Text.Quoted
import WalletBridge.Text.Utf8
import WalletBridge.Text.Uuid
import WalletBridge.Toml.Document
import WalletBridge.Toml.Scan
import WalletBridge.Toml.Value
import WalletBridge.Proofs.Service.Counting
import WalletBridge.Proofs.Config.Slots
import WalletBridge.Proofs.Service.Traceless
import WalletBridge.Proofs.Command.Values
import WalletBridge.Proofs.Config.Accepted
import WalletBridge.Proofs.Config.Bounds
import WalletBridge.Proofs.Config.Merged
import WalletBridge.Proofs.Device.Traffic
import WalletBridge.Proofs.Device.Exchanges
import WalletBridge.Proofs.Request.Conversion
import WalletBridge.Proofs.Request.Findings
import WalletBridge.Proofs.Service.Envelope
import WalletBridge.Proofs.Messages.Presentation
import WalletBridge.Proofs.Device.Replies
import WalletBridge.Proofs.Device.Session
import WalletBridge.Proofs.Net.Literal
import WalletBridge.Proofs.Http.Authority
import WalletBridge.Proofs.Http.WebAddress
import WalletBridge.Proofs.Http.Sources
import WalletBridge.Proofs.Http.SameOrigin
import WalletBridge.Proofs.Config.Recheck
import WalletBridge.Proofs.Config.Whitelist
import WalletBridge.Proofs.Http.Allowed
import WalletBridge.Proofs.Lifecycle.Spread
import WalletBridge.Proofs.Daemon.Quitting
import WalletBridge.Proofs.Log.Names
import WalletBridge.Proofs.Lifecycle.Forward
import WalletBridge.Proofs.Json.Integers
import WalletBridge.Proofs.Json.Places
import WalletBridge.Proofs.Json.Exact
import WalletBridge.Proofs.Json.Kinds
import WalletBridge.Proofs.Json.Spelled
import WalletBridge.Proofs.Messages.Integers
