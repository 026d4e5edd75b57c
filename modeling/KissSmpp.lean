import KissSmpp.Application.SendHandler
import KissSmpp.Application.DeliverSm
import KissSmpp.Coding.Base64
import KissSmpp.Memory.Blocks
import KissSmpp.Memory.Ownership
import KissSmpp.Memory.Reads
import KissSmpp.Interleave.RelyGuarantee
import KissSmpp.Interleave.OneThread
import KissSmpp.Interleave.Protocol
import KissSmpp.Interleave.Deadlock
import KissSmpp.Interleave.Trace
import KissSmpp.Queue.PrioQ
import KissSmpp.Queue.Pipeline
import KissSmpp.Smpp.Reader
import KissSmpp.Smpp.Writer
import KissSmpp.Smpp.Bicoder
import KissSmpp.Session.State
import KissSmpp.Session.Operations
import KissSmpp.Session.Manager
import KissSmpp.Session.Machine
import KissSmpp.Session.Alone
import KissSmpp.Session.SequenceNumbers
import KissSmpp.Session.Flight
import KissSmpp.Session.Discipline
import KissSmpp.Session.Contract
import KissSmpp.Session.Methods
import KissSmpp.Session.Handlers
import KissSmpp.Session.Freshness
import KissSmpp.Session.Reception
import KissSmpp.Session.Routine
import KissSmpp.Session.Locking
import KissSmpp.Session.Numbering
import KissSmpp.Session.Pacing
import KissSmpp.Session.Lanes
import KissSmpp.Session.Counting
import KissSmpp.Session.Observed
import KissSmpp.Properties.Admission
import KissSmpp.Properties.AgeSweep
import KissSmpp.Properties.Ageing
import KissSmpp.Properties.BindFirst
import KissSmpp.Properties.BindOnce
import KissSmpp.Properties.BoundState
import KissSmpp.Properties.ClosedReception
import KissSmpp.Properties.Conservation
import KissSmpp.Properties.Delivery
import KissSmpp.Properties.Echo
import KissSmpp.Properties.Framing
import KissSmpp.Properties.HeaderLength
import KissSmpp.Properties.Matching
import KissSmpp.Properties.NoDeadlock
import KissSmpp.Properties.NonEmptyPop
import KissSmpp.Properties.Numbers
import KissSmpp.Properties.OneChain
import KissSmpp.Properties.OrderlyUnbind
import KissSmpp.Properties.OwnPdu
import KissSmpp.Properties.Reconnect
import KissSmpp.Properties.SendOrder
import KissSmpp.Properties.Retransmission
import KissSmpp.Properties.Shutdown
import KissSmpp.Properties.SingleWriter
import KissSmpp.Properties.StoredEntries
import KissSmpp.Properties.Stranding
import KissSmpp.Properties.Submission
import KissSmpp.Properties.Throttle
import KissSmpp.Properties.Transfer
import KissSmpp.Properties.Watchdog
import KissSmpp.Properties.Window
import KissSmpp.Properties.ReplyOrder
import KissSmpp.Properties.SendRate
import KissSmpp.Properties.Wire
import KissSmpp.Properties.NoFault
import KissSmpp.Properties.LifeCycle
import KissSmpp.Interleave.Rest
import KissSmpp.Properties.Rest
import KissSmpp.Interleave.Race
import KissSmpp.Interleave.Observe
import KissSmpp.Properties.Races
import KissSmpp.Properties.Unaltered
import KissSmpp.Application.Configuration
import KissSmpp.Properties.Configured
import KissSmpp.Properties.ReadMemory
import KissSmpp.Properties.OfferOrder
import KissSmpp.Properties.ResendDelay
import KissSmpp.Properties.Duplicates
import KissSmpp.Properties.ConnectPause
import KissSmpp.Properties.Timers
