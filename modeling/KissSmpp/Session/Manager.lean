import KissSmpp.Session.Operations

/-! # The session manager

The methods of `SessionManager`, in the order of its source file, as code over the atomic operations.
Logging, statistics and PDU dumps have no effect on the session and are left out; `sleep` and
`usleep` wait for the clock. A method that can throw `std::runtime_error` returns a `Completion`. -/

namespace KissSmpp

open Interleave

variable (cfg : Params)

/-- How a method ended. -/
inductive Completion
  | returned | threw
  deriving DecidableEq, Repr

/-! ## Numbers, state and small helpers -/

/-- `SequinceNumberGenerator::next`. -/
def seqNumGenNext : Code Nat := do
  call (.lock .mMtx)
  let mVal ← call .getVal
  if mVal < SequenceNumber.Max then do
    call (.setVal (mVal + 1))
    call (.unlock .mMtx)
    return mVal
  else do
    call (.setVal SequenceNumber.Min)
    call (.unlock .mMtx)
    return SequenceNumber.Max

/-- `sleep(seconds)`: the clock advances by at least that much before the thread goes on. -/
def sleep (seconds : Nat) : Code Unit := do
  let now ← call .clock
  call (.sleepUntil (now + seconds * 1000000))

/-- `connect`. -/
def connect : Code Unit := call .asyncConnect

/-- `setCurrentState`. -/
def setCurrentState (p : State) : Code Unit := call (.setState p)

/-- `canSend`: fewer than ten PDUs await a response, and the session is bound. -/
def canSend : Code Bool := do
  let size ← call .w4rSize
  if size < 10 then do
    let st ← call .getState
    return st.isBound
  else return false

/-- `writing`: if the queue is not empty, we are busy writing. -/
def writing : Code Bool := do
  let e ← call .txEmpty
  return !e

/-! ## Writing -/

/-- `throttle_check`. -/
def throttleCheck : Code Unit := do
  let now ← call .clock
  let throttleNextSendTime ← call .getNextSend
  Prog.when (now < throttleNextSendTime) (call (.sleepUntil throttleNextSendTime))
  call (.setNextSend (now + cfg.timeBetweenSends))

/-- `write_pdu`; `tbuf` is what `encode` makes of the PDU. -/
def writePdu : Code Unit := do
  match ← call .txPop with
  | none => call (.fail .nullPdu)
  | some pdu2send => do
    let p ← call (.getPdu pdu2send)
    Prog.when (p.sequenceNumber ≤ SequenceNumber.Min) do
      let n ← seqNumGenNext
      call (.setSeq pdu2send n)
    let tbuf ← call (.getPdu pdu2send)
    throttleCheck cfg
    call (.asyncWrite pdu2send tbuf)

/-- `do_write`. -/
def doWrite (pdu : Ref) (priority : Level) : Code Unit := do
  call (.lock .writeMutex)
  let writeInProgress ← writing
  call (.txPush pdu priority)
  Prog.when (!writeInProgress) (writePdu cfg)
  call (.unlock .writeMutex)

/-- The bind request of the configured type. -/
def bindCommandId : BindType → CommandId
  | .TX => .BindTransmitter
  | .RX => .BindReceiver
  | .TRX => .BindTransceiver

/-- `do_bind_request`. -/
def doBindRequest : Code Unit := do
  let n ← seqNumGenNext
  let bindRequestPDU ← call (.newPdu
    { commandId := bindCommandId cfg.smppcfg.typeOfBind
      commandStatus := ESME_ROK
      sequenceNumber := n
      body := .bind cfg.smppcfg.bindFields
      answers := none })
  doWrite cfg bindRequestPDU .SESSION

/-- `do_unbind_request`: its number is left to `write_pdu`. -/
def doUnbindRequest : Code Unit := do
  let unbindRequestPDU ← call (.newPdu ⟨.Unbind, ESME_ROK, cfg.newSeq, .empty, none⟩)
  doWrite cfg unbindRequestPDU .SESSION

/-! ## Closing and connecting -/

/-- `close_session`. -/
def closeSession (reConnect : Bool) : Code Unit := do
  call (.setReconnectFlag reConnect)
  let currentState ← call .getState
  Prog.when (currentState == .OUTBOUND || currentState.isBound) (doUnbindRequest cfg)
  call .postClose

/-- `stop`. -/
def stop : Code Unit := do
  call (.setStopFlag true)
  closeSession cfg false

/-- `close_connection`. -/
def closeConnection : Code Unit := do
  setCurrentState .CLOSED
  call (.cancel .enquireLink)
  call (.cancel .enquireLinkResponse)
  call (.cancel .w4rQAgeing)
  call (.txClear .SESSION)
  call (.txClear .RESPONSE)
  call .socketClose
  let stopFlag ← call .getStopFlag
  Prog.when (!stopFlag) do
    let reconnectFlag ← call .getReconnectFlag
    Prog.when reconnectFlag do
      call (.setReconnectFlag false)
      sleep 1
      connect

/-- `handle_connect`. -/
def handleConnect (error : ErrorCode) : Code Unit :=
  if error = .success then do
    setCurrentState .OPEN
    doBindRequest cfg
    call .asyncReadHeader
  else do
    let stopFlag ← call .getStopFlag
    Prog.when (!stopFlag) do
      sleep 5
      connect

/-- The error branch shared by `handle_read_header` and `handle_read_body`. -/
def handleReadError (error : ErrorCode) : Code Unit := do
  let stopFlag ← call .getStopFlag
  Prog.when (!stopFlag) <|
    if error = .eof then do
      setCurrentState .CLOSED
      call (.setReconnectFlag true)
      call .postClose
    else closeSession cfg true

/-- `handle_read_header`. -/
def handleReadHeader (rawpdu : RawPdu) (error : ErrorCode) : Code Unit :=
  if error = .success then call (.asyncReadBody rawpdu) else handleReadError cfg error

/-! ## PDUs awaiting a response -/

/-- `w4rQ_put`: a PDU that is not a response is recorded as awaiting one. -/
def w4rQPut (pdu : Ref) : Code Unit := do
  let p ← call (.getPdu pdu)
  Prog.when (p.commandId.value < CommandId.BindReceiverResp.value) do
    call (.lock .w4rQMutex)
    call (.w4rInsert pdu)
    call (.unlock .w4rQMutex)

/-- `w4rQ_pop`: a response removes the entry with its number, if there is one. -/
def w4rQPop (rawpdu : RawPdu) : Code Unit :=
  Prog.when (CommandId.GenericNack.value < rawpdu.cmdId) do
    call (.lock .w4rQMutex)
    call (.w4rAnswer rawpdu.cmdId rawpdu.seqNum)
    call (.unlock .w4rQMutex)

/-- `set_w4rQ_ageing_timer`. -/
def setW4rQAgeingTimer : Code Unit := call (.arm .w4rQAgeing)

/-- The loop of `w4rQ_age_cleanup` over the keys the map had when it began. Nothing is inserted
meanwhile, so the iterator visits just those of them that are still there. -/
def ageSweep : List Nat → Code Unit
  | [] => return
  | k :: ks => do
    match ← call (.w4rAt k) with
    | none => ageSweep ks
    | some i => do
      let now ← call .clock
      Prog.when (i.expired (now / 1000000) 30) do
        doWrite cfg i.obj .MESSAGE
        match ← call (.w4rEraseFound i.obj) with
        | none => call (.fail .eraseEnd)
        | some k' => Prog.when (k' == k) (call (.note .staleIterator))
      ageSweep ks

/-- `w4rQ_age_cleanup`. -/
def w4rQAgeCleanup (e : ErrorCode) : Code Unit :=
  Prog.when (e != .operationAborted) do
    let size ← call .w4rSize
    Prog.when (0 < size) do
      call (.lock .w4rQMutex)
      let keys ← call .w4rKeys
      ageSweep cfg keys
      setW4rQAgeingTimer
      call (.unlock .w4rQMutex)

/-- What `handle_write` does in its critical section once it has the PDU written: the PDU is recorded
here, because this is the only point at which it is known that it was sent. -/
def handleWritten : Option Ref → Code Unit
  | none => call (.fail .nullPdu)
  | some lastPop => do
    w4rQPut lastPop
    call .retire
    let mayWrite ← canSend
    Prog.when mayWrite do
      let e ← call .txEmpty
      Prog.when (!e) (writePdu cfg)

/-- `handle_write`. -/
def handleWrite (error : ErrorCode) : Code Unit :=
  if error = .success then do
    call (.lock .writeMutex)
    let lastPop ← call .txLastPop
    handleWritten cfg lastPop
    call (.unlock .writeMutex)
  else do
    call .txPushBackLastPop
    let stopFlag ← call .getStopFlag
    Prog.when (!stopFlag) do
      setCurrentState .CLOSED
      call (.setReconnectFlag true)
      call .postClose

/-! ## Sending -/

/-- `send4state_bound_tx`. -/
def send4stateBoundTx (pdu : Ref) : Code Unit := do
  let p ← call (.getPdu pdu)
  match p.commandId with
  | .BroadcastSm | .CancelBroadcastSm | .CancelSm | .DataSm | .QueryBroadcastSm | .QuerySm
  | .ReplaceSm | .SubmitMulti | .SubmitSm => doWrite cfg pdu .MESSAGE
  | _ => return

/-- `send4state_bound_rx`. -/
def send4stateBoundRx (pdu : Ref) : Code Unit := do
  let p ← call (.getPdu pdu)
  match p.commandId with
  | .DataSmResp | .DeliverSmResp => doWrite cfg pdu .MESSAGE
  | _ => return

/-- `send4state_bound_trx`. -/
def send4stateBoundTrx (pdu : Ref) : Code Unit := do
  let p ← call (.getPdu pdu)
  match p.commandId with
  | .BroadcastSm | .CancelBroadcastSm | .CancelSm | .DataSm | .DataSmResp | .DeliverSmResp
  | .QueryBroadcastSm | .QuerySm | .ReplaceSm | .SubmitMulti | .SubmitSm => doWrite cfg pdu .MESSAGE
  | _ => return

/-- `send_pdu`: without an established bind the PDU goes nowhere. -/
def sendPdu (pdu : Ref) : Code Unit := do
  match ← call .getState with
  | .BOUND_TX => send4stateBoundTx cfg pdu
  | .BOUND_RX => send4stateBoundRx cfg pdu
  | .BOUND_TRX => send4stateBoundTrx cfg pdu
  | _ => return

/-! ## Enquire link -/

/-- `reschedule_enquire_link`. -/
def rescheduleEnquireLink : Code Unit := do
  call (.cancel .enquireLink)
  call (.cancel .enquireLinkResponse)
  call (.arm .enquireLink)

/-- `do_enquire_link`. -/
def doEnquireLink (e : ErrorCode) : Code Unit :=
  Prog.when (e != .operationAborted) do
    let n ← seqNumGenNext
    let requestPDU ← call (.newPdu ⟨.EnquireLink, ESME_ROK, n, .empty, none⟩)
    doWrite cfg requestPDU .SESSION
    call (.arm .enquireLinkResponse)

/-- `do_enquire_link_failure`: restart everything, unless the session was told to stop. -/
def doEnquireLinkFailure (e : ErrorCode) : Code Unit :=
  Prog.when (e != .operationAborted) do
    let stopFlag ← call .getStopFlag
    Prog.when (!stopFlag) do
      call (.setReconnectFlag true)
      closeSession cfg false

/-! ## Processing PDUs -/

/-- The response to the request `rawpdu`, with the number of that request. -/
def responsePdu (rawpdu : RawPdu) (commandId : CommandId) : Pdu :=
  ⟨commandId, ESME_ROK, rawpdu.seqNum, .empty, some rawpdu.seqNum⟩

/-- `procpdu_bind_resp`. -/
def procpduBindResp (rawpdu : RawPdu) (stateAferSuccess : State) : Code Completion := do
  Prog.when (rawpdu.cmdStatus == ESME_ROK) (setCurrentState stateAferSuccess)
  return .returned

/-- A PDU whose processing is not supported yet. -/
def notSupportedYet : Code Completion := return .returned

/-- `procpdu_alert_notification`. -/
def procpduAlertNotification (_ : RawPdu) : Code Completion := notSupportedYet

/-- `procpdu_broadcast_sm_resp`. -/
def procpduBroadcastSmResp (_ : RawPdu) : Code Completion := notSupportedYet

/-- `procpdu_cancel_broadcast_sm_resp`. -/
def procpduCancelBroadcastSmResp (_ : RawPdu) : Code Completion := notSupportedYet

/-- `procpdu_cancel_sm_resp`. -/
def procpduCancelSmResp (_ : RawPdu) : Code Completion := notSupportedYet

/-- `procpdu_data_sm`. -/
def procpduDataSm (_ : RawPdu) : Code Completion := notSupportedYet

/-- `procpdu_data_sm_resp`. -/
def procpduDataSmResp (_ : RawPdu) : Code Completion := notSupportedYet

/-- `procpdu_generic_nack`: only `w4rQ_pop` takes notice of it. -/
def procpduGenericNack (_ : RawPdu) : Code Completion := notSupportedYet

/-- `procpdu_query_broadcast_sm_resp`. -/
def procpduQueryBroadcastSmResp (_ : RawPdu) : Code Completion := notSupportedYet

/-- `procpdu_query_sm_resp`. -/
def procpduQuerySmResp (_ : RawPdu) : Code Completion := notSupportedYet

/-- `procpdu_replace_sm_resp`. -/
def procpduReplaceSmResp (_ : RawPdu) : Code Completion := notSupportedYet

/-- `procpdu_submit_multi_resp`. -/
def procpduSubmitMultiResp (_ : RawPdu) : Code Completion := notSupportedYet

/-- `procpdu_deliver_sm`: the PDU goes to the receive queue, and is acknowledged. -/
def procpduDeliverSm (rawpdu : RawPdu) : Code Completion :=
  if rawpdu.decodes then do
    let recievedPDU ← call (.newPdu
      ⟨.DeliverSm, rawpdu.cmdStatus, rawpdu.seqNum, .octets rawpdu.body, none⟩)
    call (.rxPush recievedPDU)
    let responsePDU ← call (.newPdu (responsePdu rawpdu .DeliverSmResp))
    doWrite cfg responsePDU .RESPONSE
    return .returned
  else return .threw

/-- `procpdu_enquire_link`. -/
def procpduEnquireLink (rawpdu : RawPdu) : Code Completion :=
  if rawpdu.decodes then do
    let responsePDU ← call (.newPdu (responsePdu rawpdu .EnquireLinkResp))
    doWrite cfg responsePDU .RESPONSE
    return .returned
  else return .threw

/-- `procpdu_enquire_link_resp`. -/
def procpduEnquireLinkResp (_ : RawPdu) : Code Completion := do
  call (.cancel .enquireLinkResponse)
  return .returned

/-- `procpdu_submit_sm_resp`: decoded for the log only. -/
def procpduSubmitSmResp (rawpdu : RawPdu) : Code Completion :=
  return if rawpdu.cmdStatus = ESME_ROK ∧ rawpdu.decodes = false then .threw else .returned

/-- `procpdu_unbind`. -/
def procpduUnbind (rawpdu : RawPdu) : Code Completion :=
  if rawpdu.decodes then do
    let responsePDU ← call (.newPdu (responsePdu rawpdu .UnbindResp))
    setCurrentState .UNBOUND
    doWrite cfg responsePDU .RESPONSE
    call (.setStopFlag false)
    call (.setReconnectFlag true)
    call .postClose
    return .returned
  else return .threw

/-- `procpdu_unbind_resp`. -/
def procpduUnbindResp (_ : RawPdu) : Code Completion := do
  setCurrentState .OPEN
  closeSession cfg false
  return .returned

/-- `process4state_open`. -/
def process4stateOpen (rawpdu : RawPdu) : Code Completion :=
  match CommandId.ofValue rawpdu.cmdId with
  | .BindReceiverResp => procpduBindResp rawpdu .BOUND_RX
  | .BindTransmitterResp => procpduBindResp rawpdu .BOUND_TX
  | .BindTransceiverResp => procpduBindResp rawpdu .BOUND_TRX
  | .EnquireLink => procpduEnquireLink cfg rawpdu
  | .EnquireLinkResp => procpduEnquireLinkResp rawpdu
  | .GenericNack => procpduGenericNack rawpdu
  | .Outbind => do
    doBindRequest cfg
    return .returned
  | _ => return .returned

/-- `process4state_bound_tx`. -/
def process4stateBoundTx (rawpdu : RawPdu) : Code Completion :=
  match CommandId.ofValue rawpdu.cmdId with
  | .BroadcastSmResp => procpduBroadcastSmResp rawpdu
  | .CancelBroadcastSmResp => procpduCancelBroadcastSmResp rawpdu
  | .CancelSmResp => procpduCancelSmResp rawpdu
  | .DataSmResp => procpduDataSmResp rawpdu
  | .QueryBroadcastSmResp => procpduQueryBroadcastSmResp rawpdu
  | .QuerySmResp => procpduQuerySmResp rawpdu
  | .ReplaceSmResp => procpduReplaceSmResp rawpdu
  | .SubmitMultiResp => procpduSubmitMultiResp rawpdu
  | .SubmitSmResp => procpduSubmitSmResp rawpdu
  | .Unbind => procpduUnbind cfg rawpdu
  | .UnbindResp => procpduUnbindResp cfg rawpdu
  | .EnquireLink => procpduEnquireLink cfg rawpdu
  | .EnquireLinkResp => procpduEnquireLinkResp rawpdu
  | .GenericNack => procpduGenericNack rawpdu
  | _ => return .returned

/-- `process4state_bound_rx`. -/
def process4stateBoundRx (rawpdu : RawPdu) : Code Completion :=
  match CommandId.ofValue rawpdu.cmdId with
  | .AlertNotification => procpduAlertNotification rawpdu
  | .DataSm => procpduDataSm rawpdu
  | .DeliverSm => procpduDeliverSm cfg rawpdu
  | .EnquireLink => procpduEnquireLink cfg rawpdu
  | .EnquireLinkResp => procpduEnquireLinkResp rawpdu
  | .GenericNack => procpduGenericNack rawpdu
  | .Unbind => procpduUnbind cfg rawpdu
  | .UnbindResp => procpduUnbindResp cfg rawpdu
  | _ => return .returned

/-- `process4state_bound_trx`. -/
def process4stateBoundTrx (rawpdu : RawPdu) : Code Completion :=
  match CommandId.ofValue rawpdu.cmdId with
  | .AlertNotification => procpduAlertNotification rawpdu
  | .BroadcastSmResp => procpduBroadcastSmResp rawpdu
  | .CancelBroadcastSmResp => procpduCancelBroadcastSmResp rawpdu
  | .CancelSmResp => procpduCancelSmResp rawpdu
  | .DataSm => procpduDataSm rawpdu
  | .DataSmResp => procpduDataSmResp rawpdu
  | .DeliverSm => procpduDeliverSm cfg rawpdu
  | .QueryBroadcastSmResp => procpduQueryBroadcastSmResp rawpdu
  | .QuerySmResp => procpduQuerySmResp rawpdu
  | .ReplaceSmResp => procpduReplaceSmResp rawpdu
  | .SubmitMultiResp => procpduSubmitMultiResp rawpdu
  | .SubmitSmResp => procpduSubmitSmResp rawpdu
  | .EnquireLink => procpduEnquireLink cfg rawpdu
  | .EnquireLinkResp => procpduEnquireLinkResp rawpdu
  | .GenericNack => procpduGenericNack rawpdu
  | .Unbind => procpduUnbind cfg rawpdu
  | .UnbindResp => procpduUnbindResp cfg rawpdu
  | _ => return .returned

/-- `process4state_unbound`. -/
def process4stateUnbound (rawpdu : RawPdu) : Code Completion :=
  match CommandId.ofValue rawpdu.cmdId with
  | .EnquireLink => procpduEnquireLink cfg rawpdu
  | .EnquireLinkResp => procpduEnquireLinkResp rawpdu
  | .GenericNack => procpduGenericNack rawpdu
  | _ => return .returned

/-- `process4state_closed`: one should not be able to recieve during a closed state. -/
def process4stateClosed (_ : RawPdu) : Code Completion := return .returned

/-- `process4state_outbound`. -/
def process4stateOutbound (rawpdu : RawPdu) : Code Completion :=
  match CommandId.ofValue rawpdu.cmdId with
  | .BindReceiverResp => procpduBindResp rawpdu .BOUND_RX
  | .BindTransmitterResp => procpduBindResp rawpdu .BOUND_TX
  | .BindTransceiverResp => procpduBindResp rawpdu .BOUND_TRX
  | .EnquireLink => procpduEnquireLink cfg rawpdu
  | .EnquireLinkResp => procpduEnquireLinkResp rawpdu
  | .GenericNack => procpduGenericNack rawpdu
  | _ => return .returned

/-- The `switch` of `process4state`. -/
def process4stateSwitch (rawpdu : RawPdu) : State → Code Completion
  | .BOUND_TX => process4stateBoundTx cfg rawpdu
  | .BOUND_RX => process4stateBoundRx cfg rawpdu
  | .BOUND_TRX => process4stateBoundTrx cfg rawpdu
  | .OPEN => process4stateOpen cfg rawpdu
  | .OUTBOUND => process4stateOutbound cfg rawpdu
  | .UNBOUND => process4stateUnbound cfg rawpdu
  | .CLOSED => process4stateClosed rawpdu

/-- The command of the bind response that leads to a bound state. -/
def State.bindResp? : State → Option CommandId
  | .BOUND_TX => some .BindTransmitterResp
  | .BOUND_RX => some .BindReceiverResp
  | .BOUND_TRX => some .BindTransceiverResp
  | _ => none

/-- **What the code for a PDU can be**, by the state in which it is received. -/
inductive Dispatch (raw : RawPdu) : State → Code Completion → Prop
  /-- The PDU is ignored, or not supported yet. -/
  | ignored (st : State) : Dispatch raw st (return .returned)
  | submitSmResp (st : State) : Dispatch raw st (procpduSubmitSmResp raw)
  | bindResp (st st' : State) (hst : st = .OPEN ∨ st = .OUTBOUND)
      (hresp : st'.bindResp? = some (CommandId.ofValue raw.cmdId)) :
      Dispatch raw st (procpduBindResp raw st')
  | outbind (hcmd : CommandId.ofValue raw.cmdId = .Outbind) :
      Dispatch raw .OPEN (doBindRequest cfg >>= fun _ => return .returned)
  | enquireLink (st : State) : Dispatch raw st (procpduEnquireLink cfg raw)
  | enquireLinkResp (st : State) : Dispatch raw st (procpduEnquireLinkResp raw)
  | deliverSm (st : State) (hst : st = .BOUND_RX ∨ st = .BOUND_TRX) :
      Dispatch raw st (procpduDeliverSm cfg raw)
  | unbind (st : State) (hst : st.isBound = true) : Dispatch raw st (procpduUnbind cfg raw)
  | unbindResp (st : State) (hst : st.isBound = true) : Dispatch raw st (procpduUnbindResp cfg raw)

/-- The `switch` of `process4state` leads to nothing else. -/
theorem dispatch_process4stateSwitch (raw : RawPdu) (st : State) :
    Dispatch cfg raw st (process4stateSwitch cfg raw st) := by
  -- state by state, as `process4state` has it
  cases st with
  | OPEN =>
      show Dispatch cfg raw .OPEN (process4stateOpen cfg raw)
      unfold process4stateOpen
      split <;> first
        | exact .bindResp _ _ (.inl rfl) (by simp only [*]; rfl)
        | exact .outbind ‹_›
        | constructor
  | OUTBOUND =>
      show Dispatch cfg raw .OUTBOUND (process4stateOutbound cfg raw)
      unfold process4stateOutbound
      split <;> first
        | exact .bindResp _ _ (.inr rfl) (by simp only [*]; rfl)
        | constructor
  | BOUND_TX =>
      show Dispatch cfg raw .BOUND_TX (process4stateBoundTx cfg raw)
      unfold process4stateBoundTx
      split <;> first
        | exact .unbind _ rfl
        | exact .unbindResp _ rfl
        | constructor
  | BOUND_RX =>
      show Dispatch cfg raw .BOUND_RX (process4stateBoundRx cfg raw)
      unfold process4stateBoundRx
      split <;> first
        | exact .unbind _ rfl
        | exact .unbindResp _ rfl
        | exact .deliverSm _ (.inl rfl)
        | constructor
  | BOUND_TRX =>
      show Dispatch cfg raw .BOUND_TRX (process4stateBoundTrx cfg raw)
      unfold process4stateBoundTrx
      split <;> first
        | exact .unbind _ rfl
        | exact .unbindResp _ rfl
        | exact .deliverSm _ (.inr rfl)
        | constructor
  | UNBOUND =>
      show Dispatch cfg raw .UNBOUND (process4stateUnbound cfg raw)
      unfold process4stateUnbound
      split <;> constructor
  | CLOSED => exact .ignored _

/-- `process4state`: a PDU that cannot be processed closes the session, to be reconnected. -/
def process4state (rawpdu : RawPdu) : Code Unit := do
  rescheduleEnquireLink
  let currentState ← call .getState
  call (.note (.received rawpdu currentState))
  match ← process4stateSwitch cfg rawpdu currentState with
  | .returned => return
  | .threw => closeSession cfg true

/-- `handle_read_body`. -/
def handleReadBody (rawpdu : RawPdu) (error : ErrorCode) : Code Unit :=
  if error = .success then do
    w4rQPop rawpdu
    process4state cfg rawpdu
    call .asyncReadHeader
  else handleReadError cfg error

/-! ## Construction -/

/-- What the constructor of `SessionManager` does once the transmit queue has been opened. -/
def sessionManager : Code Unit := do
  setW4rQAgeingTimer
  connect

end KissSmpp
