import KissSmpp.Interleave.OneThread
import KissSmpp.Session.Handlers

/-! # Which operations the methods use

The methods on the way to `async_write` are called from everywhere. An argument that is not about
writing only needs to know which operations they can come to perform.

`Job.uses` is the inventory of the whole program: the operations each handler, each turn of the two
processors and a call of `stop` can come to perform. -/

namespace KissSmpp

open Interleave

variable {cfg : Params} {α : Type}

/-- The operations of `write_pdu`. -/
def Op.ofWritePdu : Op → Bool
  | .txPop | .getPdu _ | .lock _ | .unlock _ | .getVal | .setVal _ | .setSeq _ _ | .clock
  | .sleepUntil _ | .getNextSend | .setNextSend _ | .asyncWrite _ _ | .fail _ => true
  | _ => false

/-- The operations of `do_write` and of the construction of the PDU it is given. -/
def Op.ofRequest : Op → Bool
  | .txEmpty | .txPush _ _ | .newPdu _ => true
  | op => op.ofWritePdu

/-- What `write_pdu` performs, a request performs too. -/
theorem Op.ofRequest_of_ofWritePdu {op : Op} (h : op.ofWritePdu = true) : op.ofRequest = true := by
  cases op <;> first | rfl | exact h

/-- Code that only uses operations of `write_pdu`. -/
abbrev OfWritePdu (p : Code α) : Prop := p.Uses fun op => op.ofWritePdu = true

/-- Code that only uses operations by which requests are made and written. -/
abbrev OfRequest (p : Code α) : Prop := p.Uses fun op => op.ofRequest = true

/-- Code within the operations of `write_pdu` is within those of a request. -/
theorem OfWritePdu.ofRequest {p : Code α} (h : OfWritePdu p) : OfRequest p :=
  h.mono fun _ => Op.ofRequest_of_ofWritePdu

/-- A single operation of `write_pdu` is code within them. -/
theorem ofWritePdu_call {op : Op} (h : op.ofWritePdu = true) : OfWritePdu (call op) := uses_call h

/-- A single operation of a request is code within them. -/
theorem ofRequest_call {op : Op} (h : op.ofRequest = true) : OfRequest (call op) := uses_call h

/-- `seqNumGen.next()` is within the operations of `write_pdu`. -/
theorem ofWritePdu_seqNumGenNext : OfWritePdu seqNumGenNext := by
  unfold seqNumGenNext
  refine (ofWritePdu_call rfl).bind fun _ => (ofWritePdu_call rfl).bind fun mVal => ?_
  split
  · exact (ofWritePdu_call rfl).bind fun _ => (ofWritePdu_call rfl).bind fun _ => trivial
  · exact (ofWritePdu_call rfl).bind fun _ => (ofWritePdu_call rfl).bind fun _ => trivial

/-- `throttle_check` is within the operations of `write_pdu`. -/
theorem ofWritePdu_throttleCheck : OfWritePdu (throttleCheck cfg) :=
  (ofWritePdu_call rfl).bind fun _ => (ofWritePdu_call rfl).bind fun _ =>
    (Prog.Uses.when (ofWritePdu_call rfl)).bind fun _ => ofWritePdu_call rfl

/-- **`write_pdu`** performs these operations only. -/
theorem ofWritePdu_writePdu : OfWritePdu (writePdu cfg) := by
  unfold writePdu
  refine (ofWritePdu_call rfl).bind fun o => ?_
  cases o with
  | none => exact ofWritePdu_call rfl
  | some q =>
      refine (ofWritePdu_call rfl).bind fun p => ?_
      refine (Prog.Uses.when ?_).bind fun _ => ?_
      · exact ofWritePdu_seqNumGenNext.bind fun _ => ofWritePdu_call rfl
      · exact (ofWritePdu_call rfl).bind fun _ => ofWritePdu_throttleCheck.bind fun _ => ofWritePdu_call rfl

/-- `do_write` performs the operations of a request only, whatever the level. -/
theorem ofRequest_doWrite {r : Ref} {l : Level} : OfRequest (doWrite cfg r l) := by
  unfold doWrite
  refine (ofRequest_call rfl).bind fun _ => Prog.Uses.bind ?_ fun busy => ?_
  · exact (ofRequest_call rfl).bind fun _ => trivial
  · exact (ofRequest_call rfl).bind fun _ =>
      (Prog.Uses.when ofWritePdu_writePdu.ofRequest).bind fun _ => ofRequest_call rfl

/-- `do_unbind_request` performs the operations of a request only. -/
theorem ofRequest_doUnbindRequest : OfRequest (doUnbindRequest cfg) :=
  (ofRequest_call rfl).bind fun _ => ofRequest_doWrite

/-- `do_bind_request` performs the operations of a request only. -/
theorem ofRequest_doBindRequest : OfRequest (doBindRequest cfg) :=
  ofWritePdu_seqNumGenNext.ofRequest.bind fun _ => (ofRequest_call rfl).bind fun _ => ofRequest_doWrite

/-! ## The inventory -/

/-- The operations by which a request of a given kind is made and put on the session level. -/
def Op.ofSession (kind : CommandId → Bool) : Op → Bool
  | .txPush _ l => l == .SESSION
  | .newPdu p => kind p.commandId
  | op => op.ofRequest

/-- The operations of `close_session`. -/
def Op.ofClose : Op → Bool
  | .setReconnectFlag _ | .getState | .postClose => true
  | op => op.ofSession fun c => c == .Unbind

/-- The operations by which a handler reacts to a failed read or write. -/
def Op.ofFailure : Op → Bool
  | .getStopFlag | .setState .CLOSED => true
  | op => op.ofClose

/-- The operations by which a PDU other than a message is answered. -/
def Op.ofReply : Op → Bool
  | .cancel .enquireLinkResponse | .setStopFlag false | .setState .UNBOUND => true
  | .txPush _ l => l != .MESSAGE
  | .newPdu p => !p.commandId.isMessage && p.commandId != .DeliverSm
  | op => op.ofClose

/-- The operations by which a PDU is processed in the state in which it was received. -/
def Op.ofDispatch : Op → Bool
  | .setState st => st != .CLOSED
  | .rxPush _ => true
  | .newPdu p => !p.commandId.isMessage
  | op => op.ofReply

/-- The operations of `process4state`. -/
def Op.ofProcess (raw : RawPdu) : Op → Bool
  | .cancel .enquireLink | .arm .enquireLink => true
  | .note (.received raw' _) => raw' == raw
  | op => op.ofDispatch

/-- The operations of `handle_connect`. -/
def Op.ofConnect : Op → Bool
  | .setState .OPEN | .asyncReadHeader | .getStopFlag | .asyncConnect => true
  | op => op.ofSession CommandId.isBind

/-- The operations of `handle_read_header`. -/
def Op.ofReadHeader (raw : RawPdu) : Op → Bool
  | .asyncReadBody raw' => raw' == raw
  | op => op.ofFailure

/-- The operations of `handle_read_body`. -/
def Op.ofReadBody (raw : RawPdu) : Op → Bool
  | .w4rAnswer cmd seq => cmd == raw.cmdId && seq == raw.seqNum
  | .asyncReadHeader | .getStopFlag | .setState _ => true
  | op => op.ofProcess raw

/-- The operations of `handle_write`. -/
def Op.ofWrite : Op → Bool
  | .txLastPop | .txPushBackLastPop | .w4rInsert _ | .retire | .w4rSize | .txEmpty | .getState => true
  | .getStopFlag | .setState .CLOSED | .setReconnectFlag true | .postClose => true
  | op => op.ofWritePdu

/-- The operations of `close_connection`. -/
def Op.ofCloseConnection : Op → Bool
  | .setState .CLOSED | .cancel _ | .socketClose | .getStopFlag | .getReconnectFlag => true
  | .setReconnectFlag false | .clock | .sleepUntil _ | .asyncConnect => true
  | .txClear l => l != .MESSAGE
  | _ => false

/-- The operations of `do_enquire_link`. -/
def Op.ofEnquireLink : Op → Bool
  | .arm .enquireLinkResponse => true
  | op => op.ofSession fun c => c == .EnquireLink

/-- The operations of `do_enquire_link_failure`. -/
def Op.ofEnquireLinkFailure : Op → Bool
  | .getStopFlag => true
  | op => op.ofClose

/-- The operations of `w4rQ_age_cleanup`. -/
def Op.ofAgeCleanup : Op → Bool
  | .w4rSize | .w4rKeys | .w4rAt _ | .w4rEraseFound _ | .note .staleIterator => true
  | .arm .w4rQAgeing => true
  | .txPush _ l => l == .MESSAGE
  | .newPdu _ => false
  | op => op.ofRequest

/-- The operations of a handler. -/
def Handler.uses : Handler → Op → Bool
  | .handleConnect _ => Op.ofConnect
  | .handleReadHeader raw _ => Op.ofReadHeader raw
  | .handleReadBody raw _ => Op.ofReadBody raw
  | .handleWrite _ _ => Op.ofWrite
  | .closeConnection => Op.ofCloseConnection
  | .doEnquireLink _ => Op.ofEnquireLink
  | .doEnquireLinkFailure _ => Op.ofEnquireLinkFailure
  | .w4rQAgeCleanup _ => Op.ofAgeCleanup

/-- The operations of one turn of `sendingProcessor`: PDUs are only pushed on the level of messages. -/
def Op.ofSending : Op → Bool
  | .sendEmpty | .sendPop | .sendDone | .getState => true
  | .txPush _ l => l == .MESSAGE
  | .newPdu _ => false
  | op => op.ofRequest

/-- The operations of one turn of `recieveProcessor`. -/
def Op.ofReceiving : Op → Bool
  | .rxEmpty | .rxPop | .rxDone | .rxPush _ | .errPush _ | .takeReply | .note (.delivered _) => true
  | .clock | .sleepUntil _ | .fail _ => true
  | _ => false

/-- The operations of a call of `stop`. -/
def Op.ofStop : Op → Bool
  | .setStopFlag true | .note .stopReturned => true
  | .setReconnectFlag b => !b
  | op => op.ofClose

/-- **The inventory**: the operations of a job. -/
def Job.uses : Job → Op → Bool
  | .handler h => h.uses
  | .send => Op.ofSending
  | .receive => Op.ofReceiving
  | .stop => Op.ofStop

/-! ## The code keeps to it -/

section

variable {S : Op → Prop}

/-- One operation, then the rest. -/
theorem uses_then {op : Op} {f : op.Res → Code α} (h : S op) (hf : ∀ b, (f b).Uses S) :
    (call op >>= f).Uses S :=
  (uses_call h).bind hf

/-- The operations of `do_write`. -/
theorem uses_doWrite {r : Ref} {l : Level} (hw : ∀ op : Op, op.ofWritePdu = true → S op)
    (he : S .txEmpty) (hp : S (.txPush r l)) : (doWrite cfg r l).Uses S := by
  unfold doWrite writing
  refine uses_then (hw _ rfl) fun _ => ?_
  apply Prog.Uses.bind
  · exact uses_then he fun _ => trivial
  · intro busy
    refine uses_then hp fun _ => ?_
    exact (ofWritePdu_writePdu.mono hw).when.bind fun _ => uses_call (hw _ rfl)

/-- The operations of the making and writing of a request. -/
theorem uses_request {p : Pdu} (kind : CommandId → Bool) (hp : kind p.commandId = true)
    (hS : ∀ op : Op, op.ofSession kind = true → S op) :
    (call (.newPdu p) >>= fun r => doWrite cfg r .SESSION).Uses S := by
  refine uses_then (hS _ hp) fun r => ?_
  apply uses_doWrite
  · intro op hop
    apply hS
    cases op <;> first | rfl | cases hop
  · exact hS _ rfl
  · exact hS _ rfl

/-- The operations of `close_session`. -/
theorem uses_closeSession {b : Bool} (hf : S (.setReconnectFlag b))
    (hS : ∀ op : Op, op.ofClose = true → (∀ b, op ≠ .setReconnectFlag b) → S op) :
    (closeSession cfg b).Uses S := by
  have hunbind : (doUnbindRequest cfg).Uses S := by
    refine uses_request (· == .Unbind) rfl fun op hop => hS op ?_ ?_
    · cases op <;> first | rfl | exact hop
    · rintro b rfl
      cases hop
  unfold closeSession
  refine uses_then hf fun _ => ?_
  refine uses_then (hS _ rfl (by simp)) fun st => ?_
  exact hunbind.when.bind fun _ => uses_call (hS _ rfl (by simp))

end

/-- `close_session` performs these operations only, whatever flag it is given. -/
theorem ofClose_closeSession {b : Bool} : (closeSession cfg b).Uses fun op => op.ofClose = true :=
  uses_closeSession rfl fun _ h _ => h

/-- What `close_session` performs, the handling of a failure performs too. -/
theorem ofFailure_of_ofClose {op : Op} (h : op.ofClose = true) : op.ofFailure = true := by
  cases op <;> first | rfl | exact h | cases h

/-- `handle_read_error` performs the operations of a failure only. -/
theorem ofFailure_handleReadError (e : ErrorCode) :
    (handleReadError cfg e).Uses fun op => op.ofFailure = true := by
  unfold handleReadError setCurrentState
  refine uses_then rfl fun stopFlag => Prog.Uses.when ?_
  split
  · exact uses_then rfl fun _ => uses_then rfl fun _ => uses_call rfl
  · exact ofClose_closeSession.mono fun _ => ofFailure_of_ofClose

/-- `handle_connect` performs these operations only. -/
theorem ofConnect_handleConnect (e : ErrorCode) :
    (handleConnect cfg e).Uses fun op => op.ofConnect = true := by
  have hof : ∀ op : Op, op.ofSession CommandId.isBind = true → op.ofConnect = true := by
    intro op hop
    cases op <;> first | rfl | exact hop | cases hop
  have hbind : (doBindRequest cfg).Uses fun op => op.ofConnect = true := by
    apply Prog.Uses.bind
    · apply ofWritePdu_seqNumGenNext.mono
      intro op hop
      cases op <;> first | rfl | cases hop
    · intro n
      refine uses_request _ ?_ hof
      cases cfg.smppcfg.typeOfBind <;> rfl
  unfold handleConnect setCurrentState sleep connect
  split
  · exact uses_then rfl fun _ => hbind.bind fun _ => uses_call rfl
  · refine uses_then rfl fun stopFlag => Prog.Uses.when ?_
    apply Prog.Uses.bind
    · exact uses_then rfl fun _ => uses_call rfl
    · exact fun _ => uses_call rfl

/-- `handle_read_header` performs these operations only: it reads the body of the header it was
given. -/
theorem ofReadHeader_handleReadHeader (raw : RawPdu) (e : ErrorCode) :
    (handleReadHeader cfg raw e).Uses fun op => op.ofReadHeader raw = true := by
  unfold handleReadHeader
  split
  · exact uses_call (beq_self_eq_true raw)
  · apply (ofFailure_handleReadError e).mono
    intro op hop
    cases op <;> first | rfl | exact hop | cases hop

/-! ### What a received PDU leads to -/

/-- Code by which a PDU is answered. -/
abbrev OfReply (p : Code α) : Prop := p.Uses fun op => op.ofReply = true

/-- Code by which a PDU is processed. -/
abbrev OfDispatch (p : Code α) : Prop := p.Uses fun op => op.ofDispatch = true

variable {raw : RawPdu}

/-- What `close_session` performs, an answer to the peer performs too. -/
theorem ofReply_of_ofClose {op : Op} (h : op.ofClose = true) : op.ofReply = true := by
  cases op <;> first | rfl | exact h | cases h | skip
  case txPush r l =>
    have hl : l = .SESSION := eq_of_beq h
    rw [hl]
    rfl
  case newPdu p =>
    have hp : p.commandId = .Unbind := eq_of_beq h
    show (!p.commandId.isMessage && p.commandId != .DeliverSm) = true
    rw [hp]
    rfl

/-- What an answer performs, the processing of a PDU performs too. -/
theorem ofDispatch_of_ofReply {op : Op} (h : op.ofReply = true) : op.ofDispatch = true := by
  cases op <;> first | exact h | skip
  case setState st => cases st <;> first | rfl | cases h
  case rxPush r => cases h
  case newPdu p => exact (Bool.and_eq_true_iff.mp h).1

/-- `close_session` performs the operations of an answer only. -/
theorem ofReply_closeSession {b : Bool} : OfReply (closeSession cfg b) :=
  ofClose_closeSession.mono fun _ => ofReply_of_ofClose

/-- `do_write` performs the operations of an answer only, if the PDU is not queued as a message. -/
theorem ofReply_doWrite {r : Ref} {l : Level} (hl : (l != .MESSAGE) = true) :
    OfReply (doWrite cfg r l) := by
  apply uses_doWrite
  · intro op hop
    cases op <;> first | rfl | cases hop
  · rfl
  · exact hl

/-- `do_bind_request` performs the operations of an answer only: a bind request is queued as
`SMANAG`. -/
theorem ofReply_doBindRequest : OfReply (doBindRequest cfg) := by
  apply Prog.Uses.bind
  · apply ofWritePdu_seqNumGenNext.mono
    intro op hop
    cases op <;> first | rfl | cases hop
  · intro n
    refine uses_then ?_ fun r => ofReply_doWrite rfl
    show (!(bindCommandId cfg.smppcfg.typeOfBind).isMessage &&
      bindCommandId cfg.smppcfg.typeOfBind != .DeliverSm) = true
    cases cfg.smppcfg.typeOfBind <;> rfl

/-- `procpdu_deliver_sm` performs the operations of a dispatch only. -/
theorem ofDispatch_procpduDeliverSm : OfDispatch (procpduDeliverSm cfg raw) := by
  unfold procpduDeliverSm
  split
  · refine uses_then rfl fun r => uses_then rfl fun _ => uses_then rfl fun r' => ?_
    exact ((ofReply_doWrite rfl).mono fun _ => ofDispatch_of_ofReply).bind fun _ => trivial
  · trivial

/-- `procpdu_enquire_link` performs the operations of an answer only. -/
theorem ofReply_procpduEnquireLink : OfReply (procpduEnquireLink cfg raw) := by
  unfold procpduEnquireLink
  split
  · refine uses_then rfl fun r => ?_
    exact (ofReply_doWrite rfl).bind fun _ => trivial
  · trivial

/-- `procpdu_enquire_link_resp` performs the operations of an answer only. -/
theorem ofReply_procpduEnquireLinkResp : OfReply (procpduEnquireLinkResp raw) :=
  uses_then rfl fun _ => trivial

/-- `procpdu_unbind` performs the operations of an answer only. -/
theorem ofReply_procpduUnbind : OfReply (procpduUnbind cfg raw) := by
  unfold procpduUnbind setCurrentState
  split
  · refine uses_then rfl fun r => uses_then rfl fun _ => ?_
    apply Prog.Uses.bind (ofReply_doWrite rfl)
    intro _
    exact uses_then rfl fun _ => uses_then rfl fun _ => uses_then rfl fun _ => trivial
  · trivial

/-- Only a bind response, an unbind response or a message does more than to be answered. -/
theorem ofReply_of_dispatch {st : State} {p : Code Completion} (h : Dispatch cfg raw st p) :
    OfReply p ∨ p = procpduDeliverSm cfg raw ∨
      (∃ st', (st = .OPEN ∨ st = .OUTBOUND) ∧
        st'.bindResp? = some (CommandId.ofValue raw.cmdId) ∧ p = procpduBindResp raw st') ∨
      st.isBound = true ∧ p = procpduUnbindResp cfg raw := by
  cases h with
  | ignored => exact .inl trivial
  | submitSmResp => exact .inl trivial
  | bindResp _ st' hst hresp => exact .inr (.inr (.inl ⟨st', hst, hresp, rfl⟩))
  | outbind => exact .inl (ofReply_doBindRequest.bind fun _ => trivial)
  | enquireLink => exact .inl ofReply_procpduEnquireLink
  | enquireLinkResp => exact .inl ofReply_procpduEnquireLinkResp
  | deliverSm => exact .inr (.inl rfl)
  | unbind => exact .inl ofReply_procpduUnbind
  | unbindResp _ hst => exact .inr (.inr (.inr ⟨hst, rfl⟩))

/-- Whatever a PDU is dispatched to performs the operations of a dispatch only. -/
theorem ofDispatch_of_dispatch {st : State} {p : Code Completion} (h : Dispatch cfg raw st p) :
    OfDispatch p := by
  rcases ofReply_of_dispatch h with h | rfl | ⟨st', -, hresp, rfl⟩ | ⟨-, rfl⟩
  · exact h.mono fun _ => ofDispatch_of_ofReply
  · exact ofDispatch_procpduDeliverSm
  · refine (Prog.Uses.when (uses_call ?_)).bind fun _ => trivial
    cases st' <;> first | rfl | cases hresp
  · refine uses_then rfl fun _ => ?_
    exact (ofReply_closeSession.mono fun _ => ofDispatch_of_ofReply).bind fun _ => trivial

/-- What `process4state` does once it has looked at the state. -/
theorem ofDispatch_process4stateSwitch (st : State) :
    OfDispatch (process4stateSwitch cfg raw st >>= fun completion =>
      match completion with
      | .returned => return
      | .threw => closeSession cfg true) := by
  apply (ofDispatch_of_dispatch (dispatch_process4stateSwitch cfg raw st)).bind
  intro completion
  cases completion with
  | returned => trivial
  | threw => exact ofReply_closeSession.mono fun _ => ofDispatch_of_ofReply

/-- What a dispatch performs, `process4state` performs too. -/
theorem ofProcess_of_ofDispatch {op : Op} (h : op.ofDispatch = true) : op.ofProcess raw = true := by
  cases op <;> first | rfl | exact h | cases h | skip
  case cancel tm => cases tm <;> first | rfl | cases h

/-- **`process4state`** performs these operations only. -/
theorem ofProcess_process4state :
    (process4state cfg raw).Uses fun op => op.ofProcess raw = true := by
  unfold process4state rescheduleEnquireLink
  apply Prog.Uses.bind
  · exact uses_then rfl fun _ => uses_then rfl fun _ => uses_call rfl
  intro _
  refine uses_then rfl fun st => uses_then (beq_self_eq_true raw) fun _ => ?_
  exact (ofDispatch_process4stateSwitch st).mono fun _ => ofProcess_of_ofDispatch

/-- What `process4state` performs, `handle_read_body` performs too. -/
theorem ofReadBody_of_ofProcess {op : Op} (h : op.ofProcess raw = true) :
    op.ofReadBody raw = true := by
  cases op <;> first | rfl | exact h | cases h

/-- What the handling of a failure performs, `handle_read_body` performs too. -/
theorem ofReadBody_of_ofFailure {op : Op} (h : op.ofFailure = true) : op.ofReadBody raw = true := by
  by_cases hclose : op.ofClose = true
  · exact ofReadBody_of_ofProcess (ofProcess_of_ofDispatch (ofDispatch_of_ofReply (ofReply_of_ofClose hclose)))
  · cases op <;> first | rfl | exact absurd h hclose

/-- **`handle_read_body`** performs these operations only. -/
theorem ofReadBody_handleReadBody (raw : RawPdu) (e : ErrorCode) :
    (handleReadBody cfg raw e).Uses fun op => op.ofReadBody raw = true := by
  unfold handleReadBody
  split
  · apply Prog.Uses.bind
    · apply Prog.Uses.when
      refine uses_then rfl fun _ => uses_then ?_ fun _ => uses_call rfl
      show (raw.cmdId == raw.cmdId && raw.seqNum == raw.seqNum) = true
      rw [beq_self_eq_true, beq_self_eq_true]
      rfl
    intro _
    apply Prog.Uses.bind (ofProcess_process4state.mono fun _ => ofReadBody_of_ofProcess)
    exact fun _ => uses_call rfl
  · exact (ofFailure_handleReadError e).mono fun _ => ofReadBody_of_ofFailure

/-! ### The other handlers -/

/-- What `write_pdu` performs, `handle_write` performs too. -/
theorem ofWrite_of_ofWritePdu {op : Op} (h : op.ofWritePdu = true) : op.ofWrite = true := by
  cases op <;> first | rfl | cases h

/-- What `handle_write` does with a PDU that has been written is within its operations. -/
theorem ofWrite_handleWritten (o : Option Ref) :
    (handleWritten cfg o).Uses fun op => op.ofWrite = true := by
  cases o with
  | none => exact uses_call rfl
  | some r =>
      unfold handleWritten w4rQPut canSend
      apply Prog.Uses.bind
      · refine uses_then rfl fun p => Prog.Uses.when ?_
        exact uses_then rfl fun _ => uses_then rfl fun _ => uses_call rfl
      intro _
      refine uses_then rfl fun _ => ?_
      apply Prog.Uses.bind
      · refine uses_then rfl fun size => ?_
        split
        · exact uses_then rfl fun _ => trivial
        · trivial
      intro mayWrite
      refine Prog.Uses.when (uses_then rfl fun e => Prog.Uses.when ?_)
      exact ofWritePdu_writePdu.mono fun _ => ofWrite_of_ofWritePdu

/-- **`handle_write`** performs these operations only. -/
theorem ofWrite_handleWrite (e : ErrorCode) :
    (handleWrite cfg e).Uses fun op => op.ofWrite = true := by
  unfold handleWrite setCurrentState
  split
  · refine uses_then rfl fun _ => uses_then rfl fun o => ?_
    exact (ofWrite_handleWritten o).bind fun _ => uses_call rfl
  · refine uses_then rfl fun _ => uses_then rfl fun stopFlag => Prog.Uses.when ?_
    exact uses_then rfl fun _ => uses_then rfl fun _ => uses_call rfl

/-- `close_connection` performs these operations only. -/
theorem ofCloseConnection_closeConnection :
    closeConnection.Uses fun op => op.ofCloseConnection = true := by
  unfold closeConnection setCurrentState sleep connect
  refine uses_then rfl fun _ => uses_then rfl fun _ => uses_then rfl fun _ => ?_
  refine uses_then rfl fun _ => uses_then rfl fun _ => uses_then rfl fun _ => ?_
  refine uses_then rfl fun _ => uses_then rfl fun stopFlag => Prog.Uses.when ?_
  refine uses_then rfl fun reconnectFlag => Prog.Uses.when (uses_then rfl fun _ => ?_)
  apply Prog.Uses.bind
  · exact uses_then rfl fun _ => uses_call rfl
  · exact fun _ => uses_call rfl

/-- `do_enquire_link` performs these operations only. -/
theorem ofEnquireLink_doEnquireLink (e : ErrorCode) :
    (doEnquireLink cfg e).Uses fun op => op.ofEnquireLink = true := by
  unfold doEnquireLink
  apply Prog.Uses.when
  apply Prog.Uses.bind
  · apply ofWritePdu_seqNumGenNext.mono
    intro op hop
    cases op <;> first | rfl | cases hop
  intro n
  refine uses_then rfl fun r => ?_
  apply Prog.Uses.bind
  · apply uses_doWrite
    · intro op hop
      cases op <;> first | rfl | cases hop
    · rfl
    · rfl
  · exact fun _ => uses_call rfl

/-- `do_enquire_link_failure` performs these operations only. -/
theorem ofEnquireLinkFailure_doEnquireLinkFailure (e : ErrorCode) :
    (doEnquireLinkFailure cfg e).Uses fun op => op.ofEnquireLinkFailure = true := by
  unfold doEnquireLinkFailure
  refine Prog.Uses.when (uses_then rfl fun stopFlag => Prog.Uses.when (uses_then rfl fun _ => ?_))
  apply ofClose_closeSession.mono
  intro op hop
  cases op <;> first | rfl | exact hop

/-- The loop of `w4rQ_age_cleanup` over the keys performs the operations of a sweep only, by
induction on the keys. -/
theorem ofAgeCleanup_ageSweep (keys : List Nat) :
    (ageSweep cfg keys).Uses fun op => op.ofAgeCleanup = true := by
  have hwrite : ∀ op : Op, op.ofWritePdu = true → op.ofAgeCleanup = true := by
    intro op hop
    cases op <;> first | rfl | cases hop
  induction keys with
  | nil => trivial
  | cons k ks ih =>
      unfold ageSweep
      refine uses_then rfl fun o => ?_
      cases o with
      | none => exact ih
      | some i =>
          refine uses_then rfl fun now => ?_
          apply Prog.Uses.bind
          · apply Prog.Uses.when
            apply Prog.Uses.bind (uses_doWrite hwrite rfl rfl)
            intro _
            refine uses_then rfl fun found => ?_
            cases found with
            | none => exact uses_call rfl
            | some k' => exact Prog.Uses.when (uses_call rfl)
          · exact fun _ => ih

/-- **`w4rQ_age_cleanup`** performs these operations only. -/
theorem ofAgeCleanup_w4rQAgeCleanup (e : ErrorCode) :
    (w4rQAgeCleanup cfg e).Uses fun op => op.ofAgeCleanup = true := by
  unfold w4rQAgeCleanup
  refine Prog.Uses.when (uses_then rfl fun size => Prog.Uses.when ?_)
  refine uses_then rfl fun _ => uses_then rfl fun keys => ?_
  apply (ofAgeCleanup_ageSweep keys).bind
  intro _
  exact uses_then rfl fun _ => uses_call rfl

/-- **The inventory of the handlers.** -/
theorem Handler.uses_body (h : Handler) : (h.body cfg).Uses fun op => h.uses op = true := by
  cases h with
  | handleConnect e => exact ofConnect_handleConnect e
  | handleReadHeader raw e => exact ofReadHeader_handleReadHeader raw e
  | handleReadBody raw e => exact ofReadBody_handleReadBody raw e
  | handleWrite r e => exact ofWrite_handleWrite e
  | closeConnection => exact ofCloseConnection_closeConnection
  | doEnquireLink e => exact ofEnquireLink_doEnquireLink e
  | doEnquireLinkFailure e => exact ofEnquireLinkFailure_doEnquireLinkFailure e
  | w4rQAgeCleanup e => exact ofAgeCleanup_w4rQAgeCleanup e

/-! ### The other threads -/

/-- `send_pdu` performs the operations of the sending thread only. -/
theorem ofSending_sendPdu (r : Ref) : (sendPdu cfg r).Uses fun op => op.ofSending = true := by
  have hwrite : (doWrite cfg r .MESSAGE).Uses fun op => op.ofSending = true := by
    apply uses_doWrite
    · intro op hop
      cases op <;> first | rfl | cases hop
    · rfl
    · rfl
  unfold sendPdu
  refine uses_then rfl fun st => ?_
  cases st with
  | BOUND_TX =>
      refine uses_then rfl fun p => ?_
      split <;> first | exact hwrite | trivial
  | BOUND_RX =>
      refine uses_then rfl fun p => ?_
      split <;> first | exact hwrite | trivial
  | BOUND_TRX =>
      refine uses_then rfl fun p => ?_
      split <;> first | exact hwrite | trivial
  | OPEN => trivial
  | UNBOUND => trivial
  | CLOSED => trivial
  | OUTBOUND => trivial

/-- **`sendingProcessor`** performs these operations only. -/
theorem ofSending_sendingProcessor :
    (sendingProcessor cfg).Uses fun op => op.ofSending = true := by
  unfold sendingProcessor sleep
  refine uses_then rfl fun empty => ?_
  split
  · exact uses_then rfl fun _ => uses_call rfl
  · refine uses_then rfl fun o => ?_
    cases o with
    | none => trivial
    | some r => exact (ofSending_sendPdu r).bind fun _ => uses_call rfl

/-- **`recieveProcessor`** performs these operations only. -/
theorem ofReceiving_recieveProcessor : recieveProcessor.Uses fun op => op.ofReceiving = true := by
  unfold recieveProcessor sleep
  refine uses_then rfl fun empty => ?_
  split
  · exact uses_then rfl fun _ => uses_call rfl
  · refine uses_then rfl fun o => ?_
    cases o with
    | none => exact uses_call rfl
    | some r =>
        refine uses_then rfl fun a => ?_
        cases a with
        | success => exact uses_then rfl fun _ => uses_call rfl
        | retryable => exact uses_then rfl fun _ => uses_call rfl
        | perminant => exact uses_then rfl fun _ => uses_call rfl

/-- **`stop`** performs these operations only. -/
theorem ofStop_stop : (Job.stop.body cfg).Uses fun op => op.ofStop = true := by
  apply Prog.Uses.bind
  · refine uses_then rfl fun _ => uses_closeSession rfl fun op hop hflag => ?_
    cases op <;> first | rfl | exact absurd rfl (hflag _) | exact hop | cases hop
  · exact fun _ => uses_call rfl

/-- **The inventory of the program.** -/
theorem Job.uses_body (j : Job) : (j.body cfg).Uses fun op => j.uses op = true := by
  cases j with
  | handler h => exact h.uses_body
  | send => exact ofSending_sendingProcessor
  | receive => exact ofReceiving_recieveProcessor
  | stop => exact ofStop_stop

/-! ## The inventory in a run -/

/-- The job is under way: the io thread runs the handler it took up last, and a call of `stop` is on
record. -/
def Session.UnderWay (s : Session) (j : Job) : Prop :=
  (∀ h, j = .handler h → s.running = some h) ∧ (j = .stop → .stopCalled ∈ s.hist)

/-- The thread runs a job that uses the operation. -/
def Session.InJob (s : Session) (t : Tid) (op : Op) : Prop :=
  ∃ j : Job, j.thread = t ∧ j.uses op = true ∧ s.UnderWay j

/-- **The inventory as a contract.** -/
def inventory (cfg : Params) (g : Guard Op Tid Session Job) : Contract (system cfg) where
  guard := g.also (discipline cfg)
  inv _ := True
  fact t op s := s.InJob t op
  rely t s s' := (t = .io → s'.running = s.running) ∧ (.stopCalled ∈ s.hist → .stopCalled ∈ s'.hist)
  idle _ _ := True
  rely_refl _ _ := ⟨fun _ => rfl, id⟩
  rely_trans _ _ _ _ h h' := ⟨fun ht => (h'.1 ht).trans (h.1 ht), h'.2 ∘ h.2⟩

variable {g : Guard Op Tid Session Job}

/-- A job performs what the inventory lists for it. -/
theorem triple_job (j : Job) : (inventory cfg g).Triple j.thread
    (fun s => s.UnderWay j) (j.body cfg) fun _ s => s.UnderWay j := by
  apply Contract.Triple.uses j.uses_body
  · intro s s' _ hj hr _
    refine ⟨fun h hjh => ?_, fun hstop => hr.2 (hj.2 hstop)⟩
    rw [hr.1 (by rw [hjh]; rfl)]
    exact hj.1 h hjh
  · intro op s r hop _ hj _ hx
    obtain ⟨-, hx⟩ := perform_of_exec hx
    refine ⟨⟨⟨j, rfl, hop, hj⟩, trivial, fun _ _ => ⟨fun _ => perform_running hx,
      mem_hist_perform hx⟩⟩, fun h hjh => ?_, fun hjs => mem_hist_perform hx (hj.2 hjs)⟩
    rw [perform_running hx]
    exact hj.1 h hjh

/-- **The inventory is sound**: what a thread is about to perform belongs to the job it is in. -/
theorem inventory_sound (cfg : Params) (g : Guard Op Tid Session Job) (p : Persisted) (now : Nat) :
    (inventory cfg g).Sound (Machine.init p now) where
  inv_init := trivial
  safe_init _ := fun _ _ _ => trivial
  env e s s' _ hx :=
    ⟨trivial, fun _ => ⟨fun _ => env_same (f := .running) hx (by simp), mem_hist_env hx⟩⟩
  take j s s' _ _ _ hx := by
    refine ⟨trivial, fun u hu => ⟨fun hio => take_running hx (hio ▸ hu.symm), mem_hist_take hx⟩, ?_⟩
    · refine ((triple_job j).post fun _ _ _ _ => trivial) s' trivial ⟨fun h hjh => ?_, fun hjs => ?_⟩
      · subst hjh
        obtain ⟨-, rfl⟩ := Job.take_handler hx
        rfl
      · subst hjs
        cases hx
        exact List.mem_cons_self

/-- A guard with all that is known of the operations of a run. -/
def known (cfg : Params) (g : Guard Op Tid Session Job) : Guard Op Tid Session Job :=
  (g.also (discipline cfg)).also (inventory cfg g)

/-- The discipline and the inventory may be assumed of every move of a run. -/
theorem Runs.knowing {p : Persisted} {now : Nat} {c : Machine} (h : Runs cfg g p now c) :
    Reach (system cfg) (known cfg g).Allows (Machine.init p now) c :=
  (inventory_sound cfg g p now).reach_also (fun _ _ hm => hm) h.disciplined

/-- The discipline and the inventory may be assumed of every move that follows some moment of a run.
-/
theorem Runs.knowing_from {p : Persisted} {now : Nat} {c c' : Machine} (h : Runs cfg g p now c)
    (h' : Reach (system cfg) g.Allows c c') : Reach (system cfg) (known cfg g).Allows c c' :=
  (inventory_sound cfg g p now).reach_also_from (fun _ _ hm => hm) h.disciplined
    ((discipline_sound cfg p now).reach_also_from (fun c m _ => Guard.free_allows c m) h h')

/-- All that is known of a thread's next operation. -/
theorem Runs.knowing_next {p : Persisted} {now : Nat} {c : Machine} (h : Runs cfg g p now c) {t : Tid}
    {op : Op} {k : op.Res → Code Unit} (hcode : c.code t = .step op k) (hg : g.op t op c.shared)
    {r : op.Res × Session} (hx : exec cfg t op c.shared = some r) : (known cfg g).op t op c.shared :=
  have hdisc : (g.also (discipline cfg)).op t op c.shared := ⟨hg, h.inv, h.known_next hcode hx⟩
  ⟨hdisc, trivial, (inventory_sound cfg g p now).reach_fact h.disciplined hcode hdisc hx⟩

section

variable {t : Tid} {op : Op} {s : Session}

/-- What the guard itself allows is among what is known. -/
theorem known_guard (h : (known cfg g).op t op s) : g.op t op s := h.1.1

/-- An operation is performed by a thread that may run it. -/
theorem known_mayRun (h : (known cfg g).op t op s) : op.mayRun t = true := h.1.2.2.1

/-- What the discipline knows of an operation holds where it is performed. -/
theorem known_known (h : (known cfg g).op t op s) : Known t op s := h.1.2.2.2

/-- The invariant holds where an operation is performed. -/
theorem known_inv (h : (known cfg g).op t op s) : Inv s := h.1.2.1

/-- A thread that starts a job is quiet. -/
theorem known_quiet {j : Job} (h : (known cfg g).job j s) : Quiet j.thread s := h.1.2.2

/-- An operation is performed by a thread that is in a job it belongs to. -/
theorem known_inJob (h : (known cfg g).op t op s) : s.InJob t op := h.2.2

end

/-- **Induction over the operations of a run**, with all that is known of them and the facts of a
further contract. -/
theorem Runs.dataKnown {p : Persisted} {now : Nat} {c : Machine} {L : Contract (system cfg)}
    {K : Session → Prop} (hL : L.Sound (Machine.init p now)) (hguard : L.guard = known cfg g)
    (h : Runs cfg g p now c) (h0 : K (Session.init p now))
    (hop : ∀ t op s r, Inv s → K s → (known cfg g).op t op s → L.fact t op s →
      perform cfg t op s = some r → K r.2)
    (henv : ∀ (e : Env) s s', Inv s → K s → e.perform cfg s = some s' → K s')
    (htake : ∀ (j : Job) s s', Inv s → Quiet j.thread s → K s → g.job j s → j.take s = some s' →
      K s') :
    K c.shared := by
  have hfacts : Reach (system cfg) ((known cfg g).also L).Allows (Machine.init p now) c :=
    hL.reach_also (fun c m hm => by rw [hguard]; exact hm) h.knowing
  refine Reach.data (I := Inv) (K := K) ?_ h0 ?_ henv ?_ hfacts
  · intro c hc
    exact Runs.inv (hc.mono fun c m hm => Guard.also_allows (Guard.also_allows (Guard.also_allows hm)))
  · rintro t op s r hi hK ⟨hg, -, hf⟩ hx
    exact hop t op s r hi hK hg hf (perform_of_exec hx).2
  · rintro j s s' hi hK ⟨⟨⟨hg, -, hq⟩, -⟩, -⟩ hx
    exact htake j s s' hi hq hK hg hx

/-- What the io thread performs belongs to the handler it runs. -/
theorem Session.InJob.handler {s : Session} {op : Op} (h : s.InJob .io op) :
    ∃ q, s.running = some q ∧ q.uses op = true := by
  obtain ⟨j, hj, hop, hrun, -⟩ := h
  obtain ⟨q, rfl⟩ := Job.handler_of_io hj
  exact ⟨q, hrun q rfl, hop⟩

/-- **Soundness of a contract about the io thread**: its handlers must lead from idle to idle. -/
theorem sound_of_handlers {F : Focus (system cfg)} (hF : F.Steps) (hio : F.thread = .io)
    {p : Persisted} {now : Nat} (hi : F.inv (Session.init p now))
    (hidle : F.idle (Session.init p now)) (hstable : F.contract.Stable F.thread F.idle)
    (h : ∀ (q : Handler) s s', F.inv s → F.inv s' → F.idle s → F.guard.job (.handler q) s →
      (Job.handler q).take s = some s' →
      F.contract.Safe F.thread (fun _ => F.idle) (q.body cfg) s') :
    F.contract.Sound (Machine.init p now) := by
  refine hF.sound hi ⟨(), rfl⟩ hidle hstable fun j s s' hj his hid hg hx => ?_
  obtain ⟨q, rfl⟩ := Job.handler_of_io (hj.trans hio)
  exact h q s s' his (hF.take _ s s' his hg hx).1 hid hg hx

/-! ## Runs without a stop -/

/-- If `stop()` is not called, its thread performs nothing. -/
theorem Runs.withoutStopper {p : Persisted} {now : Nat} {c : Machine} (h : Runs cfg g p now c)
    (hg : ∀ j s, g.job j s → j ≠ .stop) : Runs cfg (g.without .stopper) p now c := by
  refine (Reach.without (fun j s hj ht => ?_) rfl h).1
  cases j with
  | stop => exact hg _ s hj rfl
  | handler q => cases ht
  | send => cases ht
  | receive => cases ht

/-- Only `stop()` sets `stopFlag`. -/
theorem stopFlag_perform_false {t : Tid} {op : Op} {s : Session} {r : op.Res × Session}
    (h : perform cfg t op s = some r) (hm : op.mayRun t = true) (ht : t ≠ .stopper)
    (hs : s.stopFlag = false) : r.2.stopFlag = false := by
  by_cases hw : Field.stopFlag ∈ op.writes
  · cases op with
    | setStopFlag b =>
        cases b with
        | false => cases h; rfl
        | true => exact absurd (Op.stopper_of_mayRun hm rfl) ht
    | _ => simp at hw
  · have hsame : r.2.stopFlag = s.stopFlag := perform_same (f := .stopFlag) h hw
    rw [hsame, hs]

end KissSmpp
