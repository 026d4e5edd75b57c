import KissSmpp.Interleave.Program
import KissSmpp.Session.State

/-! # The atomic operations of the session's code

Every access to shared data is one operation: a read or write of a member variable, a call on the
transmit queue (which locks internally), a step of a mutex, a call into Asio. `Op.Res` is the type of
an operation's result and `exec` its effect; a lock that is held blocks. Between two operations of
one thread the other threads and the environment may move. -/

namespace KissSmpp

open Interleave Queue

/-- **The atomic operations.** -/
inductive Op
  /-- Acquire or release a mutex. -/
  | lock (m : Mutex)
  | unlock (m : Mutex)
  /-- Read or write `currentState`, `stopFlag`, `reconnectFlag`. -/
  | getState
  | setState (p : State)
  | getStopFlag
  | setStopFlag (b : Bool)
  | getReconnectFlag
  | setReconnectFlag (b : Bool)
  /-- The calls on `txQ`. -/
  | txEmpty
  | txPush (r : Ref) (l : Level)
  | txPop
  | txClear (l : Level)
  | txLastPop
  | txPushBackLastPop
  /-- The calls on `w4rQ`. -/
  | w4rSize
  | w4rKeys
  | w4rAt (k : Nat)
  | w4rInsert (r : Ref)
  | w4rAnswer (cmd seq : Nat)
  | w4rEraseFound (r : Ref)
  /-- The value of the sequence generator. -/
  | getVal
  | setVal (v : Nat)
  /-- Construct a PDU object, read it, or set its sequence number. -/
  | newPdu (p : Pdu)
  | getPdu (r : Ref)
  | setSeq (r : Ref) (n : Nat)
  /-- Read the clock, or wait until it shows `t`; the throttle's next send time. -/
  | clock
  | sleepUntil (t : Nat)
  | getNextSend
  | setNextSend (t : Nat)
  /-- The calls into Asio. -/
  | asyncConnect
  | asyncReadHeader
  | asyncReadBody (raw : RawPdu)
  | asyncWrite (r : Ref) (tbuf : Pdu)
  | socketClose
  | postClose
  | cancel (tm : Timer)
  | arm (tm : Timer)
  /-- `handle_write` has dealt with the PDU whose write succeeded (no operation of the source). -/
  | retire
  /-- The calls on the buffers of the process. -/
  | sendEmpty
  | sendPop
  | sendDone
  | rxPush (r : Ref)
  | rxEmpty
  | rxPop
  | rxDone
  | errPush (r : Ref)
  | takeReply
  /-- Put something on record. -/
  | note (m : Mark)
  /-- The code runs into undefined behaviour. -/
  | fail (f : Fault)
  deriving DecidableEq

/-- The type of an operation's result. -/
@[reducible] def Op.Res : Op → Type
  | .getState => State
  | .getStopFlag | .getReconnectFlag => Bool
  | .txEmpty | .sendEmpty | .rxEmpty => Bool
  | .txPop | .txLastPop | .sendPop | .rxPop => Option Ref
  | .w4rSize | .getVal | .clock | .getNextSend => Nat
  | .w4rKeys => List Nat
  | .w4rAt _ => Option TimeStampedPdu
  | .w4rEraseFound _ => Option Nat
  | .newPdu _ => Ref
  | .getPdu _ => Pdu
  | .takeReply => AppReply
  | _ => Unit

/-- The session's code. -/
abbrev Code := Prog Op Op.Res

namespace Session

/-- Append a handler to those that are waiting. -/
def enqueue (s : Session) (h : Handler) : Session := { s with ready := s.ready ++ [h] }

/-- Record an event. -/
def record (s : Session) (ev : Event) : Session := { s with hist := ev :: s.hist }

/-- Start a socket operation: on a socket that is not connected it fails at once. -/
def startIo (s : Session) (io : Io) : Session :=
  if s.isConnected then { s with pending := s.pending ++ [io] }
  else s.enqueue (io.handler .none .other)

/-- Cancel a timer: a pending wait completes with `operation_aborted`; an expiry handler that is
already waiting is not recalled. -/
def cancelTimer (s : Session) (tm : Timer) : Session :=
  if s.armed tm then
    { s with
      armed := Function.update s.armed tm false
      ready := s.ready ++ [tm.handler .operationAborted] }
  else s

/-- Close the socket: every operation under way completes with `operation_aborted`. -/
def closeSocket (s : Session) : Session :=
  { s with
    isConnected := false
    pending := []
    ready := s.ready ++ s.pending.map (Io.handler .none .operationAborted) }

/-- Note that thread `t` has moved on inside the critical section of `writeMutex`. -/
def setPhase (s : Session) (t : Tid) (ph : Phase) : Session :=
  { s with phase := Function.update s.phase t ph }

/-- Change the phase of `t` if the mutex concerned is `writeMutex`. -/
def onWriteMutex (s : Session) (m : Mutex) (t : Tid) (ph : Phase) : Session :=
  if m = .writeMutex then s.setPhase t ph else s

end Session

/-- The effect of an operation of thread `t`, `none` when it is blocked. -/
def perform (cfg : Params) (t : Tid) : (op : Op) → Session → Option (op.Res × Session)
  | .lock m, s =>
      if s.owner m = none then
        some ((), ({ s with owner := Function.update s.owner m (some t) }).onWriteMutex m t .locked)
      else none
  | .unlock m, s =>
      some ((), ({ s with owner := Function.update s.owner m none }).onWriteMutex m t .outside)
  | .getState, s => some (s.currentState, s)
  | .setState p, s => some ((), { s with currentState := p })
  -- the io thread is past its test of the flag if it has found it clear
  | .getStopFlag, s =>
      some (s.stopFlag, { s with pastStopTest := if t = .io then !s.stopFlag else s.pastStopTest })
  | .setStopFlag b, s => some ((), { s with stopFlag := b })
  | .getReconnectFlag, s =>
      some (s.reconnectFlag,
        { s with
          pastStopTest := if t = .io then s.pastStopTest && s.reconnectFlag else s.pastStopTest })
  | .setReconnectFlag b, s => some ((), { s with reconnectFlag := b })
  | .txEmpty, s => some (s.txQ.empty, s.setPhase t (.found s.txQ.empty))
  | .txPush r l, s =>
      some ((), ({ s with
        txQ := s.txQ.push r l
        inHand := Function.update s.inHand t none }).record (.pushed r l))
  | .txPop, s =>
      some (s.txQ.pop.1,
        ({ s with
          txQ := s.txQ.pop.2
          pdu2send := Function.update s.pdu2send t s.txQ.pop.1 }).setPhase t .popped)
  | .txClear l, s => some ((), { s with txQ := s.txQ.clear l })
  | .txLastPop, s => some (s.txQ.lastPop.map Prod.snd, s)
  | .txPushBackLastPop, s =>
      some ((), { s with
        txQ := s.txQ.pushBackLastPop cfg.pushBackFront
        handling := none })
  | .w4rSize, s => some (s.w4rQ.size, s)
  | .w4rKeys, s => some (s.w4rQ.keys, s)
  | .w4rAt k, s => some (s.w4rQ[k]?, s)
  -- `w4rQ[...] = stsp` replaces what is already there under the number
  | .w4rInsert r, s =>
      some ((), { s with
        w4rQ := s.w4rQ.insert (s.pdu r).sequenceNumber ⟨s.time, r⟩
        handling := none })
  | .w4rAnswer cmd seq, s =>
      some ((), ({ s with w4rQ := s.w4rQ.erase seq }).record (.response cmd seq))
  -- found by the number that the PDU has now, which need not be the key of its entry
  | .w4rEraseFound r, s =>
      if (s.pdu r).sequenceNumber ∈ s.w4rQ then
        some (some (s.pdu r).sequenceNumber,
          { s with w4rQ := s.w4rQ.erase (s.pdu r).sequenceNumber })
      else some (none, s)
  | .getVal, s => some (s.mVal, s)
  | .setVal v, s => some ((), { s with mVal := v })
  | .newPdu p, s =>
      some (s.heap.length,
        ({ s with
          heap := s.heap ++ [p]
          inHand := Function.update s.inHand t (some s.heap.length) }).record
            (.constructed s.heap.length))
  | .getPdu r, s => some (s.pdu r, s)
  | .setSeq r n, s =>
      some ((), { s with heap := s.heap.modify r fun p => { p with sequenceNumber := n } })
  | .clock, s => some (s.now, s)
  -- blocked until the time has come
  | .sleepUntil t', s => if t' ≤ s.now then some ((), s) else none
  | .getNextSend, s => some (s.throttleNextSendTime, s)
  | .setNextSend t', s => some ((), { s with throttleNextSendTime := t' })
  | .asyncConnect, s =>
      some ((), ({ s with
        pending := s.pending ++ [Io.connect]
        pastStopTest := false }).record .connect)
  | .asyncReadHeader, s => some ((), s.startIo .readHeader)
  | .asyncReadBody raw, s => some ((), s.startIo (.readBody raw))
  | .asyncWrite r tbuf, s =>
      some ((), (({ s with pdu2send := Function.update s.pdu2send t none }).startIo (.write r)).record
        (.wrote r tbuf s.currentState (if s.isConnected then some s.connNo else none)))
  | .socketClose, s => some ((), s.closeSocket.record .closed)
  | .postClose, s => some ((), s.enqueue .closeConnection)
  | .cancel tm, s => some ((), s.cancelTimer tm)
  | .arm tm, s =>
      some ((), { s.cancelTimer tm with armed := Function.update s.armed tm true })
  | .retire, s => some ((), { s with handling := none })
  | .sendEmpty, s => some (s.sendingBuffer.isEmpty, s)
  | .sendPop, s =>
      some (s.sendingBuffer.head?,
        { s with
          sendingBuffer := s.sendingBuffer.tail
          inHand := Function.update s.inHand t s.sendingBuffer.head? })
  | .sendDone, s => some ((), { s with inHand := Function.update s.inHand t none })
  | .rxPush r, s => some ((), { s with recieveBuffer := s.recieveBuffer ++ [r] })
  | .rxEmpty, s => some (s.recieveBuffer.isEmpty, s)
  | .rxPop, s =>
      some (s.recieveBuffer.head?,
        { s with recieveBuffer := s.recieveBuffer.tail, hands := s.recieveBuffer.head? })
  | .rxDone, s => some ((), { s with hands := none })
  | .errPush r, s => some ((), { s with rcvErrBuffer := s.rcvErrBuffer ++ [r] })
  | .takeReply, s => s.appReply.map fun a => (a, { s with appReply := none })
  | .note m, s => some ((), s.record (.mark m))
  | .fail f, s => some ((), { s with fault := some f })

/-- **One operation of thread `t`**: nothing runs once the process is in a fault. -/
def exec (cfg : Params) (t : Tid) (op : Op) (s : Session) : Option (op.Res × Session) :=
  if s.fault = none then perform cfg t op s else none

/-! ## Operations that may block -/

section

variable {cfg : Params} {t : Tid} {s : Session}

/-- Acquiring a mutex that is free. -/
theorem perform_lock {m : Mutex} {r : Unit × Session} (h : perform cfg t (.lock m) s = some r) :
    s.owner m = none ∧
      ((), ({ s with owner := Function.update s.owner m (some t) }).onWriteMutex m t .locked) = r :=
  (Option.ite_none_right_eq_some.mp h).imp_right Option.some.inj

/-- Going on after a wait for the clock. -/
theorem perform_sleepUntil {t' : Nat} {r : Unit × Session}
    (h : perform cfg t (.sleepUntil t') s = some r) : t' ≤ s.now ∧ ((), s) = r :=
  (Option.ite_none_right_eq_some.mp h).imp_right Option.some.inj

/-- Erasing the entry found under the number of a PDU, if there is one. -/
theorem perform_w4rEraseFound {q : Ref} {r : Option Nat × Session}
    (h : perform cfg t (.w4rEraseFound q) s = some r) :
    (some (s.pdu q).sequenceNumber, { s with w4rQ := s.w4rQ.erase (s.pdu q).sequenceNumber }) = r ∨
      (none, s) = r := by
  by_cases hq : (s.pdu q).sequenceNumber ∈ s.w4rQ
  · exact .inl (Option.some.inj ((if_pos hq).symm.trans h))
  · exact .inr (Option.some.inj ((if_neg hq).symm.trans h))

end

/-- A single operation as code. -/
def call (op : Op) : Code op.Res := .step op .ret

end KissSmpp
