import KissSmpp.Queue.PrioQ
import KissSmpp.Smpp.Pdu

/-! # The state of a session and of the io_service that drives it

The member variables of `SessionManager` together with what they stand on: the heap of PDU objects,
the mutexes, the socket, timers and handler queue of Asio, and the buffers the process shares with
the session. The local variables through which a thread holds a PDU between two operations
(`inHand`, `pdu2send`, `handling`, `hands`) and its place in the code (`phase`, `pastStopTest`) are
part of the state, so that where a PDU is can be said of a state alone; `hist` records what has
happened, the latest event first. -/

namespace KissSmpp

open Queue

/-! ## Threads, mutexes and session states -/

/-- The threads of the process: the one thread of the session's `io_service`, the threads of
`sendingProcessor` and `recieveProcessor`, and the one that destroys the application. -/
inductive Tid
  | io | sender | receiver | stopper
  deriving DecidableEq, Repr

/-- The mutexes of a `SessionManager` and of its sequence generator. -/
inductive Mutex
  | writeMutex | w4rQMutex | mMtx
  deriving DecidableEq, Repr

/-- Session states (`SessionManager::State`). -/
inductive State
  | OPEN | BOUND_TX | BOUND_RX | BOUND_TRX | UNBOUND | CLOSED | OUTBOUND
  deriving DecidableEq, Repr

/-- The three bound states. -/
def State.isBound : State → Bool
  | .BOUND_TX | .BOUND_RX | .BOUND_TRX => true
  | _ => false

/-- Configured bind types. -/
inductive BindType
  | TX | RX | TRX
  deriving DecidableEq, Repr

/-! ## The transmit queue -/

/-- The priority levels of a `TransmitQ`. -/
inductive Level
  | SESSION | RESPONSE | MESSAGE
  deriving DecidableEq, Repr

/-- `SESSION` is the most urgent level, `MESSAGE` the least. -/
instance : Levels Level where
  order := [.SESSION, .RESPONSE, .MESSAGE]
  mem_order i := by cases i <;> decide
  nodup_order := by decide

/-- The transmit queue holds references to PDU objects. -/
abbrev TransmitQ := PrioQ Level Ref

/-- `TransmitQ::clearSessionQueues`. -/
def clearSessionQueues (q : TransmitQ) : TransmitQ := (q.clear .SESSION).clear .RESPONSE

/-- The `TransmitQ` constructor on a queue whose pages already hold `persisted`: session and response
PDUs are not transferable between sessions. -/
def transmitQ (persisted : Level → List Ref) : TransmitQ := clearSessionQueues ⟨persisted, none⟩

/-! ## PDUs awaiting a response -/

/-- A sent PDU with the second at which it was recorded (`timeStampedPdu`). -/
structure TimeStampedPdu where
  timestamp : Nat
  obj : Ref
  deriving DecidableEq, Repr

/-- `timeStampedPdu::expired` at the second `now`. -/
def TimeStampedPdu.expired (p : TimeStampedPdu) (now seconds : Nat) : Bool :=
  decide (p.timestamp + seconds ≤ now)

/-- The map `w4rQ` of sent PDUs by sequence number. -/
abbrev AwaitingResponseMap := Std.TreeMap Nat TimeStampedPdu

/-! ## Asio -/

/-- The part of a `boost::system::error_code` the handlers look at. -/
inductive ErrorCode
  | success | eof | operationAborted | other
  deriving DecidableEq, Repr

/-- The deadline timers of a session. -/
inductive Timer
  | enquireLink | enquireLinkResponse | w4rQAgeing
  deriving DecidableEq, Repr

/-- A handler waiting for its turn on the `io_service`. `handleWrite` names the PDU whose write it
completes, which the source cannot see. -/
inductive Handler
  | handleConnect (e : ErrorCode)
  | handleReadHeader (raw : RawPdu) (e : ErrorCode)
  | handleReadBody (raw : RawPdu) (e : ErrorCode)
  | handleWrite (r : Ref) (e : ErrorCode)
  | closeConnection
  | doEnquireLink (e : ErrorCode)
  | doEnquireLinkFailure (e : ErrorCode)
  | w4rQAgeCleanup (e : ErrorCode)
  deriving DecidableEq, Repr

/-- The handler a timer's wait was started with. -/
def Timer.handler : Timer → ErrorCode → Handler
  | .enquireLink => .doEnquireLink
  | .enquireLinkResponse => .doEnquireLinkFailure
  | .w4rQAgeing => .w4rQAgeCleanup

/-- A socket operation under way. -/
inductive Io
  | connect
  | readHeader
  | readBody (raw : RawPdu)
  | write (r : Ref)
  deriving DecidableEq, Repr

/-- The handler of a socket operation; `raw` is what a read of a header has delivered. -/
def Io.handler (raw : RawPdu) (e : ErrorCode) : Io → Handler
  | .connect => .handleConnect e
  | .readHeader => .handleReadHeader raw e
  | .readBody raw' => .handleReadBody raw' e
  | .write r => .handleWrite r e

/-- Nothing was read. -/
def RawPdu.none : RawPdu := ⟨0, 0, 0, 0, [], false⟩

/-- Where a thread stands inside the critical section of `writeMutex`: it has entered, it has asked
`txQ` whether it is empty, it has popped a PDU. -/
inductive Phase
  | outside
  | locked
  | found (empty : Bool)
  | popped
  deriving DecidableEq, Repr

/-! ## What a run leaves on record -/

/-- How the application answers `recieveProcessor`'s call. -/
inductive AppReply
  | success | retryable | perminant
  deriving DecidableEq, Repr

/-- Outcomes C++ leaves undefined. -/
inductive Fault
  | nullPdu | eraseEnd
  deriving DecidableEq, Repr

/-- What the code puts on record of its own accord. -/
inductive Mark
  /-- `process4state` was entered with this PDU in this state. -/
  | received (raw : RawPdu) (st : State)
  /-- The ageing sweep advanced an iterator it had erased, which C++ leaves undefined; the model goes
  on with the next larger key. -/
  | staleIterator
  /-- The application accepted the inbound PDU. -/
  | delivered (r : Ref)
  /-- `stop()` returned. -/
  | stopReturned
  deriving DecidableEq, Repr

/-- What is recorded of a run. -/
inductive Event
  /-- `SendHandler::run` pushed the PDU on the sending buffer. -/
  | submitted (r : Ref)
  /-- A PDU object was constructed. -/
  | constructed (r : Ref)
  /-- `do_write` pushed the PDU on the transmit queue. -/
  | pushed (r : Ref) (l : Level)
  /-- `write_pdu` handed the PDU, encoded as `tbuf`, to `async_write`; `conn` is the number of the
  connection the socket had then. -/
  | wrote (r : Ref) (tbuf : Pdu) (st : State) (conn : Option Nat)
  /-- `w4rQ_pop` processed a response with this command id and number. -/
  | response (cmd seq : Nat)
  /-- `connect()` started an `async_connect`. -/
  | connect
  /-- An `async_connect` succeeded; the connection has this number. -/
  | connected (n : Nat)
  /-- The socket was closed. -/
  | closed
  /-- The io thread took up a handler. -/
  | started (h : Handler)
  /-- `stop()` was called. -/
  | stopCalled
  /-- The code put this on record. -/
  | mark (m : Mark)
  deriving DecidableEq, Repr

/-! ## Configuration -/

/-- The session configuration (`SmppSessionConfiguration`), as far as the session's logic reads it. -/
structure SmppSessionConfiguration where
  bindFields : BindFields
  txThrottleLimit : Nat
  typeOfBind : BindType
  deriving DecidableEq, Repr

/-- What a run is given: the configuration, and two details of the external libraries that the source
does not fix. -/
structure Params where
  smppcfg : SmppSessionConfiguration
  /-- The sequence number of a PDU object that has just been constructed. -/
  newSeq : Nat
  /-- Whether `push_back_last_pop` reinserts at the head of the level or at its tail. -/
  pushBackFront : Bool
  deriving DecidableEq, Repr

/-- Microseconds between sends. -/
def Params.timeBetweenSends (cfg : Params) : Nat := 1000000 / cfg.smppcfg.txThrottleLimit

/-! ## The shared state -/

/-- **The shared state**: the members of the `SessionManager`, Asio, the buffers of the process, and
the threads' local references to PDUs. -/
structure Session where
  currentState : State
  stopFlag : Bool
  reconnectFlag : Bool
  txQ : TransmitQ
  w4rQ : AwaitingResponseMap
  /-- The next value of the sequence generator. -/
  mVal : Nat
  throttleNextSendTime : Nat
  /-- The thread that holds a mutex. -/
  owner : Mutex → Option Tid
  /-- The PDU objects; a reference is an index. -/
  heap : List Pdu
  /-- The clock, in microseconds. -/
  now : Nat
  /-- Whether the socket is connected, and how many connections there have been. -/
  isConnected : Bool
  connNo : Nat
  /-- Socket operations under way. -/
  pending : List Io
  /-- Handlers waiting to run. -/
  ready : List Handler
  /-- Whether a wait on the timer is pending. -/
  armed : Timer → Bool
  /-- The handler the io thread took up last. -/
  running : Option Handler
  sendingBuffer : List Ref
  recieveBuffer : List Ref
  rcvErrBuffer : List Ref
  /-- Where each thread stands inside the critical section of `writeMutex`. -/
  phase : Tid → Phase
  /-- Whether the io thread has passed the tests of `stopFlag` and `reconnectFlag` in the handler it
  runs, and has not called `connect()` since. -/
  pastStopTest : Bool
  /-- The PDU object a thread has constructed, or taken from the sending buffer, and not yet pushed on
  the transmit queue. -/
  inHand : Tid → Option Ref
  /-- The PDU a thread has popped in `write_pdu` and not yet handed to `async_write`. -/
  pdu2send : Tid → Option Ref
  /-- The PDU whose `handle_write` is running and has not yet dealt with it. -/
  handling : Option Ref
  /-- The PDU `recieveProcessor` has popped. -/
  hands : Option Ref
  /-- The outcome of the application call, once there is one. -/
  appReply : Option AppReply
  /-- Set once the process has run into undefined behaviour; nothing runs after that. -/
  fault : Option Fault
  /-- What has happened, the latest first. -/
  hist : List Event

namespace Session

/-- The PDU object behind a reference. -/
def pdu (s : Session) (r : Ref) : Pdu := s.heap.getD r ⟨.unknown 0, 0, 0, .empty, none⟩

/-- The second the clock shows, `time(NULL)`. -/
def time (s : Session) : Nat := s.now / 1000000

end Session

end KissSmpp
