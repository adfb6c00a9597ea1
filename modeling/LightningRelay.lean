import LightningRelay.Async.Prog
import LightningRelay.Async.Runtime
import LightningRelay.Sql.Table
import LightningRelay.Mapping
import LightningRelay.RateLimiter
import LightningRelay.Ops
import LightningRelay.Helpers
import LightningRelay.CardanoSwap
import LightningRelay.CardanoOfframp
import LightningRelay.Recovery
import LightningRelay.Background
import LightningRelay.Events
import LightningRelay.Api
import LightningRelay.System
import LightningRelay.Devnet
import LightningRelay.Payout.Protocol
import LightningRelay.Payout.Programs
import LightningRelay.Payout.Custody
import LightningRelay.Payout.Reuse
import LightningRelay.Payout.Attempts
import LightningRelay.Payout.Refund
import LightningRelay.Payout.Expiry
import LightningRelay.Payout.Hashes
import LightningRelay.Payout.Withheld
import LightningRelay.Onramp.Protocol
import LightningRelay.Onramp.Fulfilment
import LightningRelay.Onramp.Claim
import LightningRelay.Alone
import LightningRelay.Completion
import LightningRelay.Survival
import LightningRelay.Exclusive
import LightningRelay.Onramp.Work
import LightningRelay.Payout.Work
import LightningRelay.Payout.Finality
import LightningRelay.Payout.Invoices
import LightningRelay.Payout.Preimage
import LightningRelay.Cancellations
import LightningRelay.Onramp.Cancelled
import LightningRelay.Payout.Cancelled
import LightningRelay.Reconciliation
import LightningRelay.Visit
import LightningRelay.Creation
import LightningRelay.Onramp.Request
import LightningRelay.Resubmission
import LightningRelay.Onramp.Deadlines
import LightningRelay.Value
import LightningRelay.Addresses
import LightningRelay.Payout.Target
import LightningRelay.Payout.Request
import LightningRelay.Recovered
import LightningRelay.Evidence
import LightningRelay.Async.Interleave
import LightningRelay.Independence
import LightningRelay.Payout.Messages
import LightningRelay.Outbound.Protocol
import LightningRelay.Outbound.Success
import LightningRelay.Payout.Stranded
import LightningRelay.Async.Load
import LightningRelay.Caps
import LightningRelay.Codec.Cbor
import LightningRelay.Codec.Hex
import LightningRelay.HexUtils
import LightningRelay.Metrics
import LightningRelay.Retry
import LightningRelay.ScriptCbor
import LightningRelay.Limit.FixedWindow
import LightningRelay.RateLimits
import LightningRelay.Async.Crash
import LightningRelay.Codec.Stream
import LightningRelay.Esplora
import LightningRelay.Sweep
import LightningRelay.Sweep.Run
import LightningRelay.Sweep.Resumed
import LightningRelay.Async.Fatal
import LightningRelay.Panics
import LightningRelay.Async.Onward
import LightningRelay.Payout.History
import LightningRelay.Onramp.History
import LightningRelay.Async.Permit
import LightningRelay.Onramp.Backing
import LightningRelay.Payout.Backing
import LightningRelay.Async.Replay
import LightningRelay.Sql.Recent
import LightningRelay.Reports
import LightningRelay.Responses
import LightningRelay.Admission
import LightningRelay.Outbound.File
import LightningRelay.Async.Embed
import LightningRelay.Codec.Text
import LightningRelay.Cli.Session
import LightningRelay.Cli.Asked
import LightningRelay.Cli.Recorded
import LightningRelay.Startup
import LightningRelay.Rest
import LightningRelay.Async.Cost
import LightningRelay.Async.History
import LightningRelay.Async.Restart
import LightningRelay.Bitcoind
import LightningRelay.Bitcoind.Funding
import LightningRelay.Budget
import LightningRelay.Seeds
import LightningRelay.Peers
