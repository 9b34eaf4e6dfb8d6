import Nperf.Ledger.Balance
import Nperf.Ledger.Batch
import Nperf.Ledger.Books
import Nperf.Ledger.Counters
import Nperf.Ledger.Gaps
import Nperf.Ledger.Heard
import Nperf.Ledger.Overflow
import Nperf.Ledger.Sweep
import Nperf.Lib.Channel
import Nperf.Lib.Custody
import Nperf.Lib.Gains
import Nperf.Lib.Handles
import Nperf.Lib.Lists
import Nperf.Lib.Queue
import Nperf.Lib.Runs
import Nperf.Lib.Segments
import Nperf.Lib.Sequence
import Nperf.Model.CommandParser
import Nperf.Model.CoreAffinity
import Nperf.Model.Exec
import Nperf.Model.Executor
import Nperf.Model.Fleet
import Nperf.Model.Receiver
import Nperf.Model.ReceiverLoop
import Nperf.Model.ReceiverRun
import Nperf.Model.Sender
import Nperf.Model.SenderLoop
import Nperf.Model.Session
import Nperf.Model.Socket
import Nperf.Model.Uring
import Nperf.Model.UringSend
import Nperf.Proofs.Accounting
import Nperf.Proofs.Agreement
import Nperf.Proofs.Alike
import Nperf.Proofs.Amounts
import Nperf.Proofs.Arrivals
import Nperf.Proofs.Batching
import Nperf.Proofs.Bounds
import Nperf.Proofs.Completions
import Nperf.Proofs.Conservation
import Nperf.Proofs.Content
import Nperf.Proofs.ControlLength
import Nperf.Proofs.ControlRing
import Nperf.Proofs.ControlSocket
import Nperf.Proofs.Credit
import Nperf.Proofs.Exchange
import Nperf.Proofs.Faults
import Nperf.Proofs.Fidelity
import Nperf.Proofs.FleetConservation
import Nperf.Proofs.FleetFidelity
import Nperf.Proofs.Grouping
import Nperf.Proofs.Handed
import Nperf.Proofs.History
import Nperf.Proofs.Intervals
import Nperf.Proofs.Isolation
import Nperf.Proofs.Loop
import Nperf.Proofs.Iterations
import Nperf.Proofs.Joining
import Nperf.Proofs.Losses
import Nperf.Proofs.Merging
import Nperf.Proofs.MessageOrder
import Nperf.Proofs.Messages
import Nperf.Proofs.Modes
import Nperf.Proofs.Multishot
import Nperf.Proofs.Ordering
import Nperf.Proofs.Pacing
import Nperf.Proofs.Parameters
import Nperf.Proofs.Pinning
import Nperf.Proofs.Placement
import Nperf.Proofs.Pool
import Nperf.Proofs.PortConflicts
import Nperf.Proofs.ProvidedBuffer
import Nperf.Proofs.Receiving
import Nperf.Proofs.Records
import Nperf.Proofs.RecordsReceiving
import Nperf.Proofs.RecordsSending
import Nperf.Proofs.RingReceiving
import Nperf.Proofs.RingSending
import Nperf.Proofs.Samples
import Nperf.Proofs.SendAccounting
import Nperf.Proofs.SendBuffers
import Nperf.Proofs.SendLoop
import Nperf.Proofs.SendTotals
import Nperf.Proofs.Sending
import Nperf.Proofs.Slots
import Nperf.Proofs.SocketCustody
import Nperf.Proofs.Sockets
import Nperf.Proofs.Stamping
import Nperf.Proofs.Submission
import Nperf.Proofs.ThreadPlan
import Nperf.Proofs.Threads
import Nperf.Proofs.Totals
import Nperf.Proofs.Trace
import Nperf.Proofs.Utilization
import Nperf.Proofs.UtilizationReceiving
import Nperf.Proofs.UtilizationRuns
import Nperf.Proofs.UtilizationSending
import Nperf.Proofs.Views
import Nperf.Proofs.Wire
import Nperf.Proofs.ZeroCopy
