import KissSmpp.Session.Manager

/-! # The process: threads, environment and start

The jobs the threads take up (a handler waiting on the `io_service`, one turn of the loop of
`sendingProcessor` or `recieveProcessor`, a call of `stop`), the moves of the environment (socket
operations complete, timers expire, time passes, the `send` command is served, the application
answers), and the state the constructors leave. Handlers run one at a time on the io thread, in any
order; everything else interleaves with them between single operations. -/

namespace KissSmpp

open Interleave Queue

variable (cfg : Params)

/-! ## The loops of the process -/

/-- One turn of the loop of `ksmppc::sendingProcessor`. -/
def sendingProcessor : Code Unit := do
  let empty ← call .sendEmpty
  if empty then sleep 1
  else do
    match ← call .sendPop with
    | none => return
    | some pdu => do
      sendPdu cfg pdu
      call .sendDone

/-- One turn of the loop of `ksmppc::recieveProcessor`. -/
def recieveProcessor : Code Unit := do
  let empty ← call .rxEmpty
  if empty then sleep 1
  else do
    match ← call .rxPop with
    | none => call (.fail .nullPdu)
    | some pdu => do
      match ← call .takeReply with
      | .success => call (.note (.delivered pdu))
      | .retryable => call (.rxPush pdu)
      | .perminant => call (.errPush pdu)
      call .rxDone

/-! ## Jobs -/

/-- What an idle thread can take up. -/
inductive Job
  | handler (h : Handler)
  | send
  | receive
  | stop
  deriving DecidableEq, Repr

/-- The thread a job runs on. -/
def Job.thread : Job → Tid
  | .handler _ => .io
  | .send => .sender
  | .receive => .receiver
  | .stop => .stopper

/-- The jobs of the io thread are the handlers. -/
theorem Job.handler_of_io {j : Job} (h : j.thread = .io) : ∃ q, j = .handler q := by
  cases j with
  | handler q => exact ⟨q, rfl⟩
  | send => cases h
  | receive => cases h
  | stop => cases h

/-- The code of a handler. -/
def Handler.body : Handler → Code Unit
  | .handleConnect e => KissSmpp.handleConnect cfg e
  | .handleReadHeader raw e => KissSmpp.handleReadHeader cfg raw e
  | .handleReadBody raw e => KissSmpp.handleReadBody cfg raw e
  | .handleWrite _ e => KissSmpp.handleWrite cfg e
  | .closeConnection => KissSmpp.closeConnection
  | .doEnquireLink e => KissSmpp.doEnquireLink cfg e
  | .doEnquireLinkFailure e => KissSmpp.doEnquireLinkFailure cfg e
  | .w4rQAgeCleanup e => KissSmpp.w4rQAgeCleanup cfg e

/-- The code of a job. -/
def Job.body : Job → Code Unit
  | .handler h => h.body cfg
  | .send => sendingProcessor cfg
  | .receive => recieveProcessor
  | .stop => do
    KissSmpp.stop cfg
    call (.note .stopReturned)

/-- The PDU a handler is to deal with, if it is a `handle_write`. -/
def Handler.written? : Handler → Option Ref
  | .handleWrite r _ => some r
  | _ => none

/-- Taking up a job: a handler leaves the queue of those that wait. -/
def Job.take : Job → Session → Option Session
  | .handler h, s =>
      if h ∈ s.ready then
        some ({ s with
          ready := s.ready.erase h
          running := some h
          handling := h.written?
          pastStopTest := false }.record (.started h))
      else none
  | .send, s => some s
  | .receive, s => some s
  | .stop, s => some (s.record .stopCalled)

/-! ## The environment -/

/-- The moves of the environment. -/
inductive Env
  /-- The socket operation `io` completes; `raw` is what a read of a header delivers. -/
  | complete (io : Io) (raw : RawPdu) (e : ErrorCode)
  /-- The timer expires. -/
  | expire (tm : Timer)
  /-- Microseconds pass. -/
  | elapse (us : Nat)
  /-- `SendHandler::run` pushes a new `submit_sm` on the sending buffer. -/
  | submit (body : List UInt8)
  /-- The application answers the call of `recieveProcessor`. -/
  | reply (a : AppReply)
  deriving DecidableEq, Repr

/-- A successful `async_connect` connects the socket. -/
def Session.connectDone (s : Session) : Io → ErrorCode → Session
  | .connect, .success =>
      { s with isConnected := true, connNo := s.connNo + 1 }.record (.connected (s.connNo + 1))
  | _, _ => s

/-- The effect of a move of the environment, `none` if it cannot happen. -/
def Env.perform : Env → Session → Option Session
  | .complete io raw e, s =>
      if io ∈ s.pending then
        some (({ s with pending := s.pending.erase io }.connectDone io e).enqueue
          (io.handler raw e))
      else none
  | .expire tm, s =>
      if s.armed tm then
        some ({ s with armed := Function.update s.armed tm false }.enqueue (tm.handler .success))
      else none
  | .elapse us, s => some { s with now := s.now + us }
  | .submit body, s =>
      some ({ s with
        heap := s.heap ++ [(⟨.SubmitSm, ESME_ROK, cfg.newSeq, .octets body, none⟩ : Pdu)]
        sendingBuffer := s.sendingBuffer ++ [s.heap.length] }.record (.submitted s.heap.length))
  | .reply a, s => some { s with appReply := some a }

/-! ## Moves that may not be possible -/

section

variable {cfg} {s s' : Session}

/-- A handler that is taken up was waiting. -/
theorem Job.take_handler {h : Handler} (ht : (Job.handler h).take s = some s') :
    h ∈ s.ready ∧
      ({ s with
        ready := s.ready.erase h
        running := some h
        handling := h.written?
        pastStopTest := false }.record (.started h)) = s' :=
  (Option.ite_none_right_eq_some.mp ht).imp_right Option.some.inj

/-- A socket operation that completes was under way. -/
theorem Env.perform_complete {io : Io} {raw : RawPdu} {e : ErrorCode}
    (h : (Env.complete io raw e).perform cfg s = some s') :
    io ∈ s.pending ∧
      (({ s with pending := s.pending.erase io }.connectDone io e).enqueue (io.handler raw e)) = s' :=
  (Option.ite_none_right_eq_some.mp h).imp_right Option.some.inj

/-- A timer that expires was armed. -/
theorem Env.perform_expire {tm : Timer} (h : (Env.expire tm).perform cfg s = some s') :
    s.armed tm = true ∧
      ({ s with armed := Function.update s.armed tm false }.enqueue (tm.handler .success)) = s' :=
  (Option.ite_none_right_eq_some.mp h).imp_right Option.some.inj

end

/-! ## The system -/

/-- **The process as a system of threads.** -/
def system : System Op Op.Res Tid Session Env Job where
  exec := exec cfg
  env := Env.perform cfg
  thread := Job.thread
  body := Job.body cfg
  take := Job.take

/-- The configurations of the process. -/
abbrev Machine := Config Op Op.Res Tid Session

/-- The moves of the process. -/
abbrev Step := Move Tid Env Job

/-! ## The start -/

/-- What an earlier process left in the pages of the persisted queues: the three levels of the
transmit queue, and the buffers of the process. -/
structure Persisted where
  session : List Pdu
  response : List Pdu
  message : List Pdu
  sending : List Pdu
  recieve : List Pdu
  rcvErr : List Pdu

namespace Persisted

variable (p : Persisted)

/-- The objects the pages decode to; none of them answers a request of this run. -/
def heap : List Pdu :=
  (p.message ++ p.sending ++ p.recieve ++ p.rcvErr ++ p.session ++ p.response).map
    fun q => { q with answers := none }

/-- The references of a part of the heap that starts at `n`. -/
def refs (n : Nat) (l : List Pdu) : List Ref := List.range' n l.length

/-- The levels of the transmit queue as they are read back. -/
def levels : Level → List Ref
  | .MESSAGE => refs 0 p.message
  | .SESSION =>
      refs (p.message.length + p.sending.length + p.recieve.length + p.rcvErr.length) p.session
  | .RESPONSE =>
      refs (p.message.length + p.sending.length + p.recieve.length + p.rcvErr.length +
        p.session.length) p.response

end Persisted

/-- The state in which `start_session` and `setTxq` leave a new `SessionManager`, at the clock value
`now`. -/
def Session.opened (p : Persisted) (now : Nat) : Session where
  currentState := .CLOSED
  stopFlag := false
  reconnectFlag := false
  txQ := transmitQ p.levels
  w4rQ := ∅
  mVal := SequenceNumber.Min
  throttleNextSendTime := now
  owner := fun _ => none
  heap := p.heap
  now := now
  isConnected := false
  connNo := 0
  pending := []
  ready := []
  armed := fun _ => false
  running := none
  sendingBuffer := Persisted.refs p.message.length p.sending
  recieveBuffer := Persisted.refs (p.message.length + p.sending.length) p.recieve
  rcvErrBuffer :=
    Persisted.refs (p.message.length + p.sending.length + p.recieve.length) p.rcvErr
  phase := fun _ => .outside
  pastStopTest := false
  inHand := fun _ => none
  pdu2send := fun _ => none
  handling := none
  hands := none
  appReply := none
  fault := none
  hist := []

/-- The state in which the constructor of `SessionManager` leaves the session: the ageing timer is
armed and a connection is being established. -/
def Session.init (p : Persisted) (now : Nat) : Session :=
  { Session.opened p now with
    armed := Function.update (fun _ => false) .w4rQAgeing true
    pending := [.connect]
    hist := [.connect] }

/-- The initial state is what the constructor's code makes of the opened session. -/
theorem run_sessionManager (p : Persisted) (now : Nat) :
    sessionManager.run (exec cfg .io) (Session.opened p now) = some ((), Session.init p now) := by
  rfl

/-- The process at its start: the constructors have run, and every thread is idle. -/
def Machine.init (p : Persisted) (now : Nat) : Machine :=
  ⟨Session.init p now, fun _ => .ret ()⟩

/-- **The runs of the process** whose moves all meet the guard: `Runs cfg g p now c` says that such a
run leads from the start to `c`. -/
def Runs (g : Guard Op Tid Session Job) (p : Persisted) (now : Nat) (c : Machine) : Prop :=
  Reach (system cfg) g.Allows (Machine.init p now) c

/-- A run under a guard is a run under a weaker one. -/
theorem Runs.weaken {cfg : Params} {g g' : Guard Op Tid Session Job} {p : Persisted} {now : Nat}
    {c : Machine} (h : Runs cfg g p now c) (hop : ∀ t op s, g.op t op s → g'.op t op s)
    (hjob : ∀ j s, g.job j s → g'.job j s) : Runs cfg g' p now c :=
  Reach.mono (fun _ _ hm => hm.mono hop hjob) h

/-- A thread has nothing left to run. -/
def Machine.Idle (c : Machine) (t : Tid) : Prop := c.code t = .ret ()

/-- Whether a thread is idle can be read off its code. -/
instance (c : Machine) (t : Tid) : Decidable (c.Idle t) :=
  match h : c.code t with
  | .ret () => isTrue h
  | .step _ _ => isFalse fun hidle => by
      unfold Machine.Idle at hidle
      rw [h] at hidle
      cases hidle

/-- The operation a thread performs next. -/
def Machine.next? (c : Machine) (t : Tid) : Option Op :=
  match c.code t with
  | .ret _ => none
  | .step op _ => some op

/-- The next operation of a thread is the one its code starts with. -/
theorem Machine.next?_of_code {c : Machine} {t : Tid} {op : Op} {k : op.Res → Code Unit}
    (h : c.code t = .step op k) : c.next? t = some op := by
  unfold Machine.next?
  rw [h]

/-- The next operation of a thread is the first of its code. -/
theorem Machine.code_of_next? {c : Machine} {t : Tid} {op : Op} (h : c.next? t = some op) :
    ∃ k, c.code t = .step op k := by
  unfold Machine.next? at h
  split at h
  · cases h
  · next hcode =>
      cases h
      exact ⟨_, hcode⟩

/-- The runs in which `stop()` is not called. -/
def noStop : Guard Op Tid Session Job := ⟨fun _ _ _ => True, fun j _ => j ≠ .stop⟩

/-- The guard can be evaluated. -/
instance : noStop.Checkable where
  op _ _ _ := inferInstanceAs (Decidable True)
  job j _ := inferInstanceAs (Decidable (j ≠ .stop))

/-! ## Schedules -/

/-- What a schedule leads to from the start. -/
def Machine.after (cfg : Params) (p : Persisted) (ms : List Step) : Machine :=
  (Machine.init p 0).play (system cfg) ms

/-- Every schedule is a run. -/
theorem runs_after (cfg : Params) (p : Persisted) (ms : List Step) :
    Runs cfg Guard.free p 0 (Machine.after cfg p ms) :=
  reach_play _ _ ms

/-- A schedule whose moves meet a guard is a run under that guard. -/
theorem runs_under {cfg : Params} {p : Persisted} {g : Guard Op Tid Session Job} {ms : List Step}
    (h : (Machine.init p 0).Meets (system cfg) g.Allows ms) :
    Runs cfg g p 0 (Machine.after cfg p ms) :=
  reach_play_of_meets h

/-- Nothing was left by an earlier process. -/
def Persisted.none : Persisted := ⟨[], [], [], [], [], []⟩

/-- A configuration as in `doc/example_config.conf`: a transceiver, twenty sends a second. -/
def sampleParams : Params where
  smppcfg :=
    { bindFields := ⟨"smppclient1", "password", "ESME", 34, 0, 1, "^[1234567890]"⟩
      txThrottleLimit := 20
      typeOfBind := .TRX }
  newSeq := SequenceNumber.Min
  pushBackFront := true

namespace Schedule

/-- At most `n` operations of thread `t`, one after the other. -/
def turn (t : Tid) (n : Nat) : List Step := List.replicate n (.run t)

/-- The io thread takes up a handler and runs it to its end. -/
def handle (h : Handler) : List Step := .start (.handler h) :: turn .io 60

/-- A socket operation completes, and its handler runs. -/
def complete (io : Io) (raw : RawPdu) (e : ErrorCode) : List Step :=
  .env (.complete io raw e) :: handle (io.handler raw e)

/-- The peer's PDU arrives: its header, then its body. -/
def receive (raw : RawPdu) : List Step :=
  complete .readHeader raw .success ++ complete (.readBody raw) .none .success

/-- A response of the peer with this command and number. -/
def response (c : CommandId) (seq : Nat) : RawPdu := ⟨16, c.value, ESME_ROK, seq, [], true⟩

/-- The connection is established, and `handle_connect` runs. -/
def connect : List Step := complete .connect .none .success

/-- The session connects, and its bind request, which is PDU `0`, is written and answered. The peer
gets it with the number `2`, because the generator's first number, `1`, passes for unassigned. -/
def bind : List Step :=
  connect ++ complete (.write 0) .none .success ++ receive (response .BindTransceiverResp 2)

/-- A `submit_sm` is submitted, time passes, and `sendingProcessor` takes a turn. -/
def send : List Step :=
  [.env (.submit []), .env (.elapse 1000000), .start .send] ++ turn .sender 40

/-- A `submit_sm` is sent, and its write, as PDU `r`, completes. -/
def sendWritten (r : Ref) : List Step := send ++ complete (.write r) .none .success

end Schedule

end KissSmpp
