import OracleDuty.Abi
import OracleDuty.Account
import OracleDuty.Account.Signature
import OracleDuty.Background
import OracleDuty.Beacon.Error
import OracleDuty.Beacon.Node
import OracleDuty.Bytes
import OracleDuty.Chain
import OracleDuty.Clients
import OracleDuty.CommandLine
import OracleDuty.Configuration
import OracleDuty.Contract
import OracleDuty.Controller
import OracleDuty.Decimal
import OracleDuty.Decimal.Binary64
import OracleDuty.Decimal.Shortest
import OracleDuty.Disk
import OracleDuty.Duty.Action
import OracleDuty.Duty.RelayPrices
import OracleDuty.Duty.Round
import OracleDuty.Duty.Settings
import OracleDuty.Duty.SubmitPrices
import OracleDuty.Duty.SubmitRewards
import OracleDuty.Environment
import OracleDuty.Execution.Envelope
import OracleDuty.Execution.Error
import OracleDuty.Execution.Node
import OracleDuty.Execution.Rpc
import OracleDuty.Generation
import OracleDuty.Generation.Service
import OracleDuty.Http
import OracleDuty.Http.Message
import OracleDuty.Http.Status
import OracleDuty.Instant
import OracleDuty.Interval
import OracleDuty.Journal
import OracleDuty.Json
import OracleDuty.Json.Number
import OracleDuty.Json.Printer
import OracleDuty.Json.Reader
import OracleDuty.Json.Record
import OracleDuty.Keccak
import OracleDuty.Lane
import OracleDuty.Ledger
import OracleDuty.Log.Console
import OracleDuty.Log.Event
import OracleDuty.Log.Filter
import OracleDuty.Log.Line
import OracleDuty.Log.Moment
import OracleDuty.Main
import OracleDuty.Metrics
import OracleDuty.NetworkState
import OracleDuty.OrderedMap
import OracleDuty.Params
import OracleDuty.Price
import OracleDuty.Program
import OracleDuty.Publication
import OracleDuty.Publication.Service
import OracleDuty.Relay.Error
import OracleDuty.Relay.Fee
import OracleDuty.Relay.Target
import OracleDuty.Report
import OracleDuty.RewardsTree
import OracleDuty.RewardsTree.Codec
import OracleDuty.Rlp
import OracleDuty.Service
import OracleDuty.Sha256
import OracleDuty.Shutdown
import OracleDuty.Snapshot.Plan
import OracleDuty.Snapshot.Resolve
import OracleDuty.Store
import OracleDuty.Store.Error
import OracleDuty.Submission.Key
import OracleDuty.Telemetry
import OracleDuty.Text.Blank
import OracleDuty.Text.Quoted
import OracleDuty.Text.Shown
import OracleDuty.Turn
import OracleDuty.Url
import OracleDuty.Url.Host
import OracleDuty.Url.Reader
import OracleDuty.Wire
import OracleDuty.Word
import OracleDuty.Zstd
import OracleDuty.Proofs.Decimal
import OracleDuty.Proofs.Json.RoundTrip
import OracleDuty.Proofs.OrderedMap
import OracleDuty.Proofs.Word
import OracleDuty.Proofs.Instant
import OracleDuty.Proofs.RewardsTree
import OracleDuty.Proofs.Zstd
import OracleDuty.Proofs.Attestation
import OracleDuty.Proofs.AverageTick
import OracleDuty.Proofs.Restart
import OracleDuty.Proofs.Lane
import OracleDuty.Proofs.TreeFile
import OracleDuty.Proofs.TreeOrigin
import OracleDuty.Proofs.SubmittedCount
import OracleDuty.Proofs.Schedule
import OracleDuty.Proofs.Duty.Counts
import OracleDuty.Proofs.PriceOrder
import OracleDuty.Proofs.PriceReport
import OracleDuty.Proofs.OneRelayer
import OracleDuty.Proofs.IndependentRelays
import OracleDuty.Proofs.Membership
import OracleDuty.Proofs.AtomicWrite
import OracleDuty.Proofs.IntervalFiles
import OracleDuty.Proofs.SubmissionCall
import OracleDuty.Proofs.SubmissionKey
import OracleDuty.Proofs.Url
import OracleDuty.Proofs.Beacon.Inquiry
import OracleDuty.Proofs.Beacon.KeptTiming
import OracleDuty.Proofs.SideBySide
import OracleDuty.Proofs.Execution.Contracts
import OracleDuty.Proofs.NetworkView
import OracleDuty.Proofs.Clients
import OracleDuty.Proofs.Stop
import OracleDuty.Proofs.Checked
import OracleDuty.Proofs.SnapshotPlan
import OracleDuty.Proofs.SnapshotWalk
import OracleDuty.Proofs.TickPrice
import OracleDuty.Proofs.EpochTimes
import OracleDuty.Proofs.Turn
import OracleDuty.Proofs.Json.Torn
import OracleDuty.Proofs.TornFile
import OracleDuty.Proofs.RelayFee
import OracleDuty.Proofs.LeadingNetworks
import OracleDuty.Proofs.Json.Printed
import OracleDuty.Proofs.LogLine
import OracleDuty.Proofs.Url.Host
import OracleDuty.Proofs.Url.RoundTrip
import OracleDuty.Proofs.Sent
import OracleDuty.Proofs.BasePath
import OracleDuty.Proofs.Interval
