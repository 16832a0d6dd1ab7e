import Batchflow.Channel
import Batchflow.Chunker.Error
import Batchflow.Chunker.Options
import Batchflow.Chunker.System
import Batchflow.Chunker.Worker
import Batchflow.Config
import Batchflow.Decimal.Binary64
import Batchflow.Decimal.Natural
import Batchflow.Decimal.Shortest
import Batchflow.Demo.Jobs
import Batchflow.Demo.Numbers
import Batchflow.Demo.Orders
import Batchflow.Demo.Report
import Batchflow.Enqueuer.Error
import Batchflow.Enqueuer.Log
import Batchflow.Enqueuer.Options
import Batchflow.Enqueuer.Pipeline
import Batchflow.Enqueuer.System
import Batchflow.Json.Lexical
import Batchflow.Json.Number
import Batchflow.Json.Reader
import Batchflow.Json.Shape
import Batchflow.Json.Value
import Batchflow.Lifecycle
import Batchflow.Main
import Batchflow.Message.Basic
import Batchflow.Message.Name
import Batchflow.Message.Shape
import Batchflow.Message.Written
import Batchflow.Panic
import Batchflow.Permits
import Batchflow.Pool.System
import Batchflow.Pool.Worker
import Batchflow.Proofs.Calls
import Batchflow.Proofs.Channel
import Batchflow.Proofs.Chunker.Action
import Batchflow.Proofs.Chunker.Clock
import Batchflow.Proofs.Chunker.Conservation
import Batchflow.Proofs.Chunker.Flushing
import Batchflow.Proofs.Chunker.Source
import Batchflow.Proofs.Chunker.Worker
import Batchflow.Proofs.Enqueuer.Accounting
import Batchflow.Proofs.Enqueuer.Action
import Batchflow.Proofs.Enqueuer.Change
import Batchflow.Proofs.Enqueuer.Delivery
import Batchflow.Proofs.Enqueuer.Failures
import Batchflow.Proofs.Enqueuer.History
import Batchflow.Proofs.Enqueuer.Ownership
import Batchflow.Proofs.Enqueuer.Pipeline
import Batchflow.Proofs.Enqueuer.Reporting
import Batchflow.Proofs.Lock
import Batchflow.Proofs.Run
import Batchflow.Queue.Error
import Batchflow.Queue.Store
import Batchflow.Queue.System
import Batchflow.Simulation.Chunking
import Batchflow.Simulation.Enqueueing
import Batchflow.Simulation.Pooling
import Batchflow.Simulation.Queueing
import Batchflow.Simulation.Schedule
import Batchflow.Simulation.Sink
import Batchflow.Text.Blank
import Batchflow.Text.Hex
import Batchflow.Text.Printable
import Batchflow.Text.Quoted
import Batchflow.Text.Utf8
import Batchflow.Time.Duration
import Batchflow.Time.Instant
import Batchflow.Time.Ticker
import Batchflow.Time.Timestamp
import Batchflow.Time.TimestampText
import Batchflow.Proofs.Queue.Store
import Batchflow.Proofs.Queue.Action
import Batchflow.Proofs.Queue.History
import Batchflow.Proofs.Queue.Visibility
import Batchflow.Proofs.Pool.Action
import Batchflow.Proofs.Pool.Liveness
import Batchflow.Proofs.Enqueuer.Locking
import Batchflow.Proofs.Enqueuer.Shutdown
import Batchflow.Proofs.Alternation
import Batchflow.Proofs.Chunker.Locking
import Batchflow.Proofs.Chunker.Lifecycle
import Batchflow.Proofs.Enqueuer.Lifecycle
import Batchflow.Proofs.Linearisation
import Batchflow.Proofs.Chunker.Custody
import Batchflow.Proofs.Enqueuer.Wholeness
import Batchflow.Proofs.Queue.Receipts
import Batchflow.Proofs.Queue.Wakeups
import Batchflow.Proofs.Pool.Tending
import Batchflow.Proofs.Pool.Inbox
import Batchflow.Proofs.Pool.Execution
import Batchflow.Proofs.Enqueuer.Room
import Batchflow.Proofs.Enqueuer.CircularWait
import Batchflow.Proofs.Enqueuer.Progress
import Batchflow.Proofs.Enqueuer.Termination
import Batchflow.Proofs.Enqueuer.Settling
import Batchflow.Proofs.Queue.Stock
import Batchflow.Proofs.Supply.System
import Batchflow.Proofs.Supply.Settlement
import Batchflow.Proofs.Chunker.Slicing
import Batchflow.Proofs.Pool.Registration
import Batchflow.Proofs.Enqueuer.Admission
import Batchflow.Proofs.Enqueuer.Backpressure
import Batchflow.Proofs.Enqueuer.Handles
import Batchflow.Proofs.Enqueuer.Emptying
import Batchflow.Proofs.Enqueuer.Outlets
import Batchflow.Proofs.Enqueuer.Desertion
import Batchflow.Proofs.Enqueuer.Discards
import Batchflow.Proofs.Queue.Submission
import Batchflow.Proofs.Chunker.Outstanding
import Batchflow.Proofs.Decimal.Digits
import Batchflow.Proofs.Json.Lexical
import Batchflow.Proofs.Json.Reading
import Batchflow.Proofs.Time.TimestampText
import Batchflow.Proofs.Message.RoundTrip
import Batchflow.Proofs.Queue.Acceptance
import Batchflow.Proofs.Queue.Hiding
import Batchflow.Proofs.Pool.Acquisition
import Batchflow.Proofs.Chunker.Panicking
import Batchflow.Proofs.Queue.Leasing
import Batchflow.Proofs.Enqueuer.Validation
import Batchflow.Proofs.Enqueuer.Starting
import Batchflow.Proofs.Text.Trimming
import Batchflow.Proofs.Decimal.Numerals
import Batchflow.Proofs.Environment
import Batchflow.Proofs.Json.Grammar
import Batchflow.Proofs.Json.Skipping
import Batchflow.Proofs.Json.Spelling
import Batchflow.Proofs.Json.Compact
import Batchflow.Proofs.Json.Taking
import Batchflow.Proofs.Json.Exactness
import Batchflow.Proofs.Json.Layout
import Batchflow.Proofs.Message.Layout
