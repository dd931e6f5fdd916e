import PromptGateway.Text.Blank
import PromptGateway.Text.Utf8
import PromptGateway.Number.Shortest
import PromptGateway.Text.Quoted
import PromptGateway.Text.Hex
import PromptGateway.Json.Content
import PromptGateway.Json.Fault
import PromptGateway.Json.Token
import PromptGateway.Json.Skip
import PromptGateway.Json.Value
import PromptGateway.Json.Writer
import PromptGateway.Json.Record
import PromptGateway.Wire.Codec
import PromptGateway.Wire.Frame
import PromptGateway.Snapshot
import PromptGateway.Table
import PromptGateway.Task.Cache
import PromptGateway.Task.Queue
import PromptGateway.Task.Stream
import PromptGateway.Worker.Pool
import PromptGateway.Dispatcher
import PromptGateway.Settings.Basic
import PromptGateway.Client
import PromptGateway.Gateway
import PromptGateway.Frontend
import PromptGateway.Toml.Document
import PromptGateway.Settings.Source
import PromptGateway.Network
import PromptGateway.Startup
import PromptGateway.Worker.Standin
import PromptGateway.Main
import PromptGateway.Proofs.Stores
import PromptGateway.Proofs.Events
import PromptGateway.Proofs.Connections
import PromptGateway.Proofs.Standing
import PromptGateway.Proofs.Custody
import PromptGateway.Proofs.Accounts
import PromptGateway.Proofs.Delivery
import PromptGateway.Proofs.Attribution
import PromptGateway.Proofs.Completion
import PromptGateway.Proofs.RoundTrip
import PromptGateway.Proofs.Runaway
import PromptGateway.Proofs.Interleaving
import PromptGateway.Proofs.Forwarding
import PromptGateway.Proofs.Service
import PromptGateway.Proofs.LastWords
import PromptGateway.Proofs.Progress
import PromptGateway.Proofs.Departure
import PromptGateway.Proofs.Endings
import PromptGateway.Proofs.Pairing
import PromptGateway.Proofs.Milestones
import PromptGateway.Proofs.Lifecycle
import PromptGateway.Proofs.Conclusions
import PromptGateway.Proofs.Seniority
import PromptGateway.Proofs.Losses
import PromptGateway.Proofs.Rotation
import PromptGateway.Proofs.Packets
import PromptGateway.Proofs.Admission
import PromptGateway.Proofs.BulkEndings
import PromptGateway.Proofs.Asking
import PromptGateway.Proofs.Pacing
import PromptGateway.Proofs.HeadOfLine
import PromptGateway.Proofs.Careers
import PromptGateway.Proofs.Fragments
import PromptGateway.Proofs.Replies
import PromptGateway.Proofs.Ceiling
