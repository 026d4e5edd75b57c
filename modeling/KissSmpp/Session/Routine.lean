import KissSmpp.Interleave.Protocol
import KissSmpp.Session.Methods

/-! # Routine code

Most of the process is routine as far as a protocol is concerned: operations it takes no notice of,
numbers drawn from the generator, and PDUs written by `do_write`. `Routine` says what a protocol has to be
shown about these, and `Upkeep` what about the three methods that are on their own: `handle_write`,
`w4rQ_pop` and the ageing sweep. The code of every job then follows the protocol. -/

namespace KissSmpp

open Interleave Queue

variable {cfg : Params} {A α β : Type} {P : Protocol Op Op.Res A} {Q : A → Prop}

/-- One operation, and the code after it. -/
theorem follows_call {op : Op} {f : op.Res → Code α} {R : α → A → Prop} {x : A}
    (hop : P.allows x op) (h : ∀ b, (f b).Follows P R (P.next x op b)) :
    (call op >>= f).Follows P R x := ⟨hop, h⟩

/-- **The code keeps to the protocol**, started and left in a position with `Q`. -/
def Abides (P : Protocol Op Op.Res A) (Q : A → Prop) (p : Code α) : Prop :=
  ∀ x, Q x → p.Follows P (fun _ => Q) x

/-- Code that does nothing keeps to any protocol. -/
theorem Abides.ret (a : α) : Abides P Q (.ret a : Code α) := fun _ hx => hx

/-- Code that keeps to the protocol may be followed by such code. -/
theorem Abides.bind {p : Code α} {f : α → Code β} (hp : Abides P Q p) (hf : ∀ a, Abides P Q (f a)) :
    Abides P Q (p >>= f) := fun x hx => (hp x hx).bind fun a y hy => hf a y hy

/-- Code that keeps to the protocol may run under a condition. -/
theorem Abides.when {b : Bool} {p : Code Unit} (hp : Abides P Q p) : Abides P Q (Prog.when b p) :=
  fun x hx => .when (fun _ => hp x hx) fun _ => hx

/-- The operations outside the critical sections of the three mutexes. -/
@[simp] def Op.plain : Op → Bool
  | .lock _ | .unlock _ | .txEmpty | .txPush _ _ | .txPop | .txLastPop | .w4rSize | .w4rKeys | .w4rAt _
  | .w4rInsert _ | .w4rAnswer _ _ | .w4rEraseFound _ | .getVal | .setVal _ | .setSeq _ _ | .getNextSend
  | .setNextSend _ | .asyncWrite _ _ | .retire => false
  | _ => true

/-- **What is routine** keeps to the protocol. -/
structure Routine (cfg : Params) (P : Protocol Op Op.Res A) (Q : A → Prop) : Prop where
  plain : ∀ op x, op.plain = true → Q x → P.allows x op ∧ ∀ b, Q (P.next x op b)
  number : Abides P Q seqNumGenNext
  write : ∀ r l, Abides P Q (doWrite cfg r l)

/-- The operations outside the critical sections that a protocol may take for granted: nothing goes wrong in
them, and they have nothing to do with what a PDU is or where it comes from. -/
@[simp] def Op.calm : Op → Bool
  | .fail _ | .getPdu _ | .newPdu _ | .rxPop | .rxPush _ | .errPush _ | .note (.received _ _)
  | .note (.delivered _) | .note .staleIterator => false
  | op => op.plain

/-- A calm operation is plain. -/
theorem Op.plain_of_calm {op : Op} (h : op.calm = true) : op.plain = true := by
  cases op with
  | note m => rfl
  | _ => first | exact h | cases h

/-- **What a PDU says**, apart from its number. -/
structure Content where
  commandId : CommandId
  commandStatus : Nat
  body : Body
  deriving DecidableEq, Repr

/-- What a PDU says. -/
def Pdu.content (q : Pdu) : Content := ⟨q.commandId, q.commandStatus, q.body⟩

/-- **What the PDUs say that the session makes**, of its own accord or as an answer. -/
inductive Params.Makes (cfg : Params) : Content → Prop
  | bind : Makes cfg ⟨bindCommandId cfg.smppcfg.typeOfBind, ESME_ROK, .bind cfg.smppcfg.bindFields⟩
  | unbind : Makes cfg ⟨.Unbind, ESME_ROK, .empty⟩
  | enquireLink : Makes cfg ⟨.EnquireLink, ESME_ROK, .empty⟩
  | response (c : CommandId) (hc : c = .DeliverSmResp ∨ c = .EnquireLinkResp ∨ c = .UnbindResp) :
      Makes cfg ⟨c, ESME_ROK, .empty⟩

/-- The object made of a message of the peer. -/
def RawPdu.message (raw : RawPdu) : Pdu := ⟨.DeliverSm, raw.cmdStatus, raw.seqNum, .octets raw.body, Option.none⟩

/-- **Routine of which less is to be shown**: PDUs are constructed only if the session makes them.
-/
structure Regular (cfg : Params) (P : Protocol Op Op.Res A) (Q : A → Prop) : Prop where
  plain : ∀ op x, op.calm = true → Q x → P.allows x op ∧ ∀ b, Q (P.next x op b)
  own : ∀ q, cfg.Makes q.content → Abides P Q (call (.newPdu q))
  number : Abides P Q seqNumGenNext
  write : ∀ r l, Abides P Q (doWrite cfg r l)

/-- **What passes through the process** keeps to it as well: the messages of the two processors, and the PDUs
of the peer. -/
structure Traffic (cfg : Params) (P : Protocol Op Op.Res A) (Q : A → Prop) : Prop where
  send : Abides P Q (KissSmpp.sendingProcessor cfg)
  receive : Abides P Q KissSmpp.recieveProcessor
  process : ∀ raw, Abides P Q (KissSmpp.process4state cfg raw)

/-- **What `sendingProcessor` does**, where reading a PDU is nothing special. -/
theorem abides_sendingProcessor (hcall : ∀ op : Op, op.calm = true → Abides P Q (call op))
    (hread : ∀ r, Abides P Q (call (.getPdu r))) (hwrite : ∀ r l, Abides P Q (doWrite cfg r l)) :
    Abides P Q (sendingProcessor cfg) := by
  have hsend : ∀ r, Abides P Q (sendPdu cfg r) := by
    intro r
    refine (hcall _ rfl).bind fun st => ?_
    cases st <;> first
      | exact Abides.ret _
      | (refine (hread r).bind fun p => ?_
         split <;> first
          | exact hwrite r .MESSAGE
          | exact Abides.ret _)
  unfold sendingProcessor
  refine (hcall _ rfl).bind fun empty => ?_
  split
  · exact (hcall _ rfl).bind fun _ => hcall _ rfl
  · refine (hcall _ rfl).bind fun o => ?_
    cases o with
    | none => exact Abides.ret _
    | some r => exact (hsend r).bind fun _ => hcall _ rfl

/-- Where a state admits messages, the code for one is `procpdu_deliver_sm`. -/
theorem process4stateSwitch_deliverSm {raw : RawPdu} {st : State} (hcmd : CommandId.ofValue raw.cmdId = .DeliverSm)
    (hst : st = .BOUND_RX ∨ st = .BOUND_TRX) : process4stateSwitch cfg raw st = procpduDeliverSm cfg raw := by
  rcases hst with rfl | rfl
  · show process4stateBoundRx cfg raw = _
    unfold process4stateBoundRx
    rw [hcmd]
  · show process4stateBoundTrx cfg raw = _
    unfold process4stateBoundTrx
    rw [hcmd]

/-- **What only the io thread runs** under the mutexes keeps to it as well. -/
structure Upkeep (cfg : Params) (P : Protocol Op Op.Res A) (Q : A → Prop) : Prop where
  written : Abides P Q (handleWrite cfg .success)
  answer : ∀ raw, Abides P Q (w4rQPop raw)
  cleanup : ∀ e, Abides P Q (w4rQAgeCleanup cfg e)

namespace Regular

variable (hR : Regular cfg P Q)
include hR

/-- One calm operation. -/
theorem call {op : Op} (hop : op.calm = true) : Abides P Q (call op) := fun x => hR.plain op x hop

/-- Sleeping is a matter of plain operations. -/
theorem sleep (seconds : Nat) : Abides P Q (sleep seconds) :=
  (hR.call rfl).bind fun _ => hR.call rfl

/-- A PDU is constructed and written. -/
theorem newPdu {q : Pdu} (hq : cfg.Makes q.content) (l : Level) :
    Abides P Q (KissSmpp.call (.newPdu q) >>= fun r => doWrite cfg r l) :=
  (hR.own q hq).bind fun r => hR.write r l

/-- `do_bind_request` keeps to the protocol: the bind request is one that the session makes. -/
theorem doBindRequest : Abides P Q (doBindRequest cfg) :=
  hR.number.bind fun _ => hR.newPdu .bind .SESSION

/-- `close_session` keeps to the protocol: the unbind request is one that the session makes. -/
theorem closeSession (reConnect : Bool) : Abides P Q (closeSession cfg reConnect) :=
  (hR.call rfl).bind fun _ => (hR.call rfl).bind fun _ =>
    (hR.newPdu .unbind .SESSION).when.bind fun _ => hR.call rfl

/-- `close_connection` keeps to the protocol. -/
theorem closeConnection : Abides P Q closeConnection := by
  refine (hR.call rfl).bind fun _ => (hR.call rfl).bind fun _ => (hR.call rfl).bind fun _ =>
    (hR.call rfl).bind fun _ => (hR.call rfl).bind fun _ => (hR.call rfl).bind fun _ =>
      (hR.call rfl).bind fun _ => (hR.call rfl).bind fun stopFlag => Abides.when ?_
  refine (hR.call rfl).bind fun reconnectFlag => Abides.when ?_
  exact (hR.call rfl).bind fun _ => (hR.sleep 1).bind fun _ => hR.call rfl

/-- `handle_connect` keeps to the protocol. -/
theorem handleConnect (e : ErrorCode) : Abides P Q (handleConnect cfg e) := by
  unfold KissSmpp.handleConnect
  split
  · exact (hR.call rfl).bind fun _ => hR.doBindRequest.bind fun _ => hR.call rfl
  · refine (hR.call rfl).bind fun stopFlag => Abides.when ?_
    exact (hR.sleep 5).bind fun _ => hR.call rfl

/-- `handle_read_error` keeps to the protocol. -/
theorem handleReadError (e : ErrorCode) : Abides P Q (handleReadError cfg e) := by
  unfold KissSmpp.handleReadError
  refine (hR.call rfl).bind fun stopFlag => Abides.when ?_
  split
  · exact (hR.call rfl).bind fun _ => (hR.call rfl).bind fun _ => hR.call rfl
  · exact hR.closeSession true

/-- `handle_read_header` keeps to the protocol. -/
theorem handleReadHeader (raw : RawPdu) (e : ErrorCode) : Abides P Q (handleReadHeader cfg raw e) := by
  unfold KissSmpp.handleReadHeader
  split
  · exact hR.call rfl
  · exact hR.handleReadError e

/-- `handle_write` keeps to the protocol, if it does so after a successful write. -/
theorem handleWrite (hU : Upkeep cfg P Q) (e : ErrorCode) : Abides P Q (handleWrite cfg e) := by
  by_cases he : e = .success
  · rw [he]
    exact hU.written
  · unfold KissSmpp.handleWrite
    rw [if_neg he]
    refine (hR.call rfl).bind fun _ => (hR.call rfl).bind fun stopFlag => Abides.when ?_
    exact (hR.call rfl).bind fun _ => (hR.call rfl).bind fun _ => hR.call rfl

/-- `do_enquire_link` keeps to the protocol: the `enquire_link` is one that the session makes. -/
theorem doEnquireLink (e : ErrorCode) : Abides P Q (doEnquireLink cfg e) :=
  Abides.when <| hR.number.bind fun _ => (hR.own _ .enquireLink).bind fun r =>
    (hR.write r .SESSION).bind fun _ => hR.call rfl

/-- `do_enquire_link_failure` keeps to the protocol. -/
theorem doEnquireLinkFailure (e : ErrorCode) : Abides P Q (doEnquireLinkFailure cfg e) :=
  Abides.when <| (hR.call rfl).bind fun _ => Abides.when <| (hR.call rfl).bind fun _ =>
    hR.closeSession false

/-- A response is constructed and written. -/
theorem response (raw : RawPdu) {c : CommandId} (hc : c = .DeliverSmResp ∨ c = .EnquireLinkResp ∨ c = .UnbindResp) :
    Abides P Q (do
      let r ← KissSmpp.call (.newPdu (responsePdu raw c))
      doWrite cfg r .RESPONSE
      return Completion.returned) :=
  (hR.own _ (.response c hc)).bind fun r => (hR.write r .RESPONSE).bind fun _ => Abides.ret _

/-- `procpdu_enquire_link` keeps to the protocol: the response is one that the session makes. -/
theorem procpduEnquireLink (raw : RawPdu) : Abides P Q (procpduEnquireLink cfg raw) := by
  unfold KissSmpp.procpduEnquireLink
  split
  · exact hR.response raw (.inr (.inl rfl))
  · exact Abides.ret _

/-- `procpdu_unbind` keeps to the protocol: the response is one that the session makes. -/
theorem procpduUnbind (raw : RawPdu) : Abides P Q (procpduUnbind cfg raw) := by
  unfold KissSmpp.procpduUnbind
  split
  · refine (hR.own _ (.response _ (.inr (.inr rfl)))).bind fun r => (hR.call rfl).bind fun _ =>
      (hR.write r .RESPONSE).bind fun _ => ?_
    exact (hR.call rfl).bind fun _ => (hR.call rfl).bind fun _ => (hR.call rfl).bind fun _ => Abides.ret _
  · exact Abides.ret _

/-- **`procpdu_deliver_sm`**, with what is done about the message as a whole. -/
theorem procpduDeliverSm (raw : RawPdu)
    (htake : Abides P Q (KissSmpp.call (.newPdu raw.message) >>= fun r => KissSmpp.call (.rxPush r))) :
    Abides P Q (procpduDeliverSm cfg raw) := by
  unfold KissSmpp.procpduDeliverSm
  split
  · have hrest := htake.bind fun _ => hR.response raw (.inl rfl)
    rw [Prog.bind_assoc] at hrest
    exact hrest
  · exact Abides.ret _

/-- **The code for a PDU** that is not a message, or not one the state admits. -/
theorem switch (raw : RawPdu) (st : State)
    (hother : CommandId.ofValue raw.cmdId = .DeliverSm → st ≠ .BOUND_RX ∧ st ≠ .BOUND_TRX) :
    Abides P Q (process4stateSwitch cfg raw st) := by
  have hnone : Abides P Q (return Completion.returned : Code Completion) := Abides.ret _
  have hbindResp : ∀ st', Abides P Q (procpduBindResp raw st') :=
    fun _ => (hR.call rfl).when.bind fun _ => Abides.ret _
  have houtbind : Abides P Q (KissSmpp.doBindRequest cfg >>= fun _ => return Completion.returned) :=
    hR.doBindRequest.bind fun _ => Abides.ret _
  have hlinkResp : Abides P Q (procpduEnquireLinkResp raw) := (hR.call rfl).bind fun _ => Abides.ret _
  have hunbindResp : Abides P Q (procpduUnbindResp cfg raw) :=
    (hR.call rfl).bind fun _ => (hR.closeSession false).bind fun _ => Abides.ret _
  have hsubmitSmResp : Abides P Q (procpduSubmitSmResp raw) := Abides.ret _
  have hlink := hR.procpduEnquireLink raw
  have hunbind := hR.procpduUnbind raw
  -- each state's `switch` leads to some of these, a message to none of them
  cases st with
  | OPEN =>
      show Abides P Q (process4stateOpen cfg raw)
      unfold process4stateOpen
      split <;> first | exact hbindResp _ | exact hlink | exact hlinkResp | exact houtbind | exact hnone
  | OUTBOUND =>
      show Abides P Q (process4stateOutbound cfg raw)
      unfold process4stateOutbound
      split <;> first | exact hbindResp _ | exact hlink | exact hlinkResp | exact hnone
  | BOUND_TX =>
      show Abides P Q (process4stateBoundTx cfg raw)
      unfold process4stateBoundTx
      split <;> first
        | exact hlink | exact hunbind | exact hunbindResp | exact hlinkResp | exact hsubmitSmResp
  | BOUND_RX =>
      show Abides P Q (process4stateBoundRx cfg raw)
      unfold process4stateBoundRx
      split <;> first
        | exact absurd rfl (hother ‹_›).1 | exact hlink | exact hunbind | exact hunbindResp | exact hlinkResp
        | exact hnone
  | BOUND_TRX =>
      show Abides P Q (process4stateBoundTrx cfg raw)
      unfold process4stateBoundTrx
      split <;> first
        | exact absurd rfl (hother ‹_›).2 | exact hlink | exact hunbind | exact hunbindResp | exact hlinkResp
        | exact hsubmitSmResp
  | UNBOUND =>
      show Abides P Q (process4stateUnbound cfg raw)
      unfold process4stateUnbound
      split <;> first | exact hlink | exact hlinkResp | exact hnone
  | CLOSED => exact hnone

/-- The timers are started anew when a PDU comes. -/
theorem rescheduleEnquireLink : Abides P Q rescheduleEnquireLink :=
  (hR.call rfl).bind fun _ => (hR.call rfl).bind fun _ => hR.call rfl

/-- **`process4state`**, where receiving a PDU and storing it is nothing special. -/
theorem process4state (hnote : ∀ raw st, Abides P Q (KissSmpp.call (.note (.received raw st))))
    (htake : ∀ raw : RawPdu,
      Abides P Q (KissSmpp.call (.newPdu raw.message) >>= fun r => KissSmpp.call (.rxPush r)))
    (raw : RawPdu) : Abides P Q (process4state cfg raw) := by
  refine hR.rescheduleEnquireLink.bind fun _ => (hR.call rfl).bind fun st => (hnote raw st).bind fun _ =>
    Abides.bind ?_ fun o => ?_
  · by_cases hmsg : CommandId.ofValue raw.cmdId = .DeliverSm ∧ (st = .BOUND_RX ∨ st = .BOUND_TRX)
    · rw [process4stateSwitch_deliverSm hmsg.1 hmsg.2]
      exact hR.procpduDeliverSm raw (htake raw)
    · exact hR.switch raw st fun hcmd => not_or.mp fun hst => hmsg ⟨hcmd, hst⟩
  · cases o with
    | returned => exact Abides.ret _
    | threw => exact hR.closeSession true

/-- `handle_read_body` keeps to the protocol, if the processing of the PDU does. -/
theorem handleReadBody (hU : Upkeep cfg P Q) (hT : Traffic cfg P Q) (raw : RawPdu) (e : ErrorCode) :
    Abides P Q (handleReadBody cfg raw e) := by
  unfold KissSmpp.handleReadBody
  split
  · exact (hU.answer raw).bind fun _ => (hT.process raw).bind fun _ => hR.call rfl
  · exact hR.handleReadError e

/-- **The code of every job** keeps to the protocol. -/
theorem body {j : Job} (hU : j.thread = .io → Upkeep cfg P Q) (hT : Traffic cfg P Q) :
    Abides P Q (j.body cfg) := by
  cases j with
  | handler h =>
      cases h with
      | handleConnect e => exact hR.handleConnect e
      | handleReadHeader raw e => exact hR.handleReadHeader raw e
      | handleReadBody raw e => exact hR.handleReadBody (hU rfl) hT raw e
      | handleWrite r e => exact hR.handleWrite (hU rfl) e
      | closeConnection => exact hR.closeConnection
      | doEnquireLink e => exact hR.doEnquireLink e
      | doEnquireLinkFailure e => exact hR.doEnquireLinkFailure e
      | w4rQAgeCleanup e => exact (hU rfl).cleanup e
  | send => exact hT.send
  | receive => exact hT.receive
  | stop => exact ((hR.call rfl).bind fun _ => hR.closeSession false).bind fun _ => hR.call rfl

end Regular

namespace Routine

variable (hR : Routine cfg P Q)
include hR

/-- A single plain operation is routine. -/
theorem one {op : Op} (hop : op.plain = true) : Abides P Q (KissSmpp.call op) := fun x => hR.plain op x hop

/-- `recieveProcessor` keeps to the protocol. -/
theorem recieveProcessor : Abides P Q recieveProcessor := by
  unfold KissSmpp.recieveProcessor
  refine (hR.one rfl).bind fun empty => ?_
  split
  · exact (hR.one rfl).bind fun _ => hR.one rfl
  · refine (hR.one rfl).bind fun o => ?_
    cases o with
    | none => exact hR.one rfl
    | some r =>
        refine (hR.one rfl).bind fun a => ?_
        cases a <;> exact (hR.one rfl).bind fun _ => hR.one rfl

/-- What is routine is regular: the construction of a PDU is a plain operation. -/
theorem regular : Regular cfg P Q where
  plain op x hop := hR.plain op x (Op.plain_of_calm hop)
  own _ _ := hR.one rfl
  number := hR.number
  write := hR.write

/-- What is routine passes messages through the process without further ado. -/
theorem traffic : Traffic cfg P Q where
  send := abides_sendingProcessor (fun _ hop => hR.one (Op.plain_of_calm hop)) (fun _ => hR.one rfl) hR.write
  receive := hR.recieveProcessor
  process := hR.regular.process4state (fun _ _ => hR.one rfl) fun _ => (hR.one rfl).bind fun _ => hR.one rfl

/-- **The code of every job** keeps to the protocol. -/
theorem body {j : Job} (hU : j.thread = .io → Upkeep cfg P Q) : Abides P Q (j.body cfg) :=
  hR.regular.body hU hR.traffic

end Routine

end KissSmpp
