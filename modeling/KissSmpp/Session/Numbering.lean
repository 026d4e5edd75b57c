import KissSmpp.Session.Routine

/-! # The numbering protocol

How the code numbers its PDUs, seen from one thread: a number is drawn inside the critical section of
the sequence generator, and goes to one PDU; no PDU is handed to the socket before the thread knows that
it has a number, and the critical section of `writeMutex` is not left with a popped PDU. `numbering` is
this protocol, and the file shows method by method that all the code of the process follows it. What it
means for the numbers that are out at the same time is said in `Properties.Numbers`. -/

namespace KissSmpp

open Interleave Queue

variable {cfg : Params} {α β : Type}

/-! ## The protocol -/

/-- Where a thread stands in `SequinceNumberGenerator::next`. -/
inductive Drawing
  | outside | locked | read (v : Nat) | written
  deriving DecidableEq

/-- **Where a thread stands with the numbers of PDUs.** -/
structure Tally where
  drawing : Drawing
  /-- The number it has drawn, and not yet given to a PDU. -/
  drawn : Option Nat
  /-- The PDU to which it has given the smallest number, which passes for no number. -/
  first : Option Ref
  /-- It has popped a PDU, and not yet handed it to the socket. -/
  holding : Bool
  /-- The PDU it has got hold of last. -/
  subject : Option Ref
  /-- A PDU that is known to have a number, to be outbound, to be a request. -/
  numbered : Option Ref
  outbound : Option Ref
  request : Option Ref

/-- The objects the session constructs for what it receives are of this kind. -/
def Pdu.IsInbound (p : Pdu) : Prop := p.commandId = .DeliverSm

/-- Whether a PDU comes from the peer can be read off its command id. -/
instance (p : Pdu) : Decidable p.IsInbound := inferInstanceAs (Decidable (_ = _))

namespace Tally

/-- The smallest number passes for no number. -/
def unassigned (n : Nat) : Bool := decide (n ≤ SequenceNumber.Min)

/-- Read a PDU. -/
def see (x : Tally) (r : Ref) (p : Pdu) : Tally :=
  { x with
    numbered := if unassigned p.sequenceNumber then x.numbered else some r
    outbound := if p.IsInbound then x.outbound else some r
    request := if p.IsRequest then some r else x.request }

/-- Give a number to a PDU. -/
def give (x : Tally) (r : Ref) (n : Nat) : Tally :=
  { x with
    drawn := none
    first := if unassigned n then some r else x.first
    numbered := some r }

/-- Take the generator a step further. -/
def draw (x : Tally) : Tally :=
  match x.drawing with
  | .read v =>
      { x with drawing := .written, drawn := some (if v < SequenceNumber.Max then v else SequenceNumber.Max) }
  | _ => x

end Tally

/-- **The numbering protocol.** -/
def numbering : Protocol Op Op.Res Tally where
  allows x op :=
    match op with
    | .getVal => x.drawing = .locked
    | .setVal v' =>
        ∃ v, x.drawing = .read v ∧
          v' = if v < SequenceNumber.Max then v + 1 else SequenceNumber.Min
    | .unlock .mMtx => x.drawing = .written
    | .unlock .writeMutex => x.holding = false
    | .txPush r _ => x.outbound = some r
    | .asyncWrite r _ => x.numbered = some r
    | .w4rInsert r => x.request = some r
    | .getPdu r => x.subject = some r
    -- a request of the session's own has a number drawn by `next`, or one up to `Min`
    | .newPdu p =>
        p.IsInbound ∨ ¬p.IsRequest ∨ p.sequenceNumber ≤ SequenceNumber.Min ∨
          x.drawn = some p.sequenceNumber
    -- `write_pdu` numbers with what `next` has returned
    | .setSeq _ n => x.drawn = some n
    | _ => True
  next x op b :=
    match op, b with
    | .lock .mMtx, _ => { x with drawing := .locked }
    | .getVal, v => { x with drawing := .read v }
    | .setVal _, _ => x.draw
    | .unlock .mMtx, _ => { x with drawing := .outside }
    -- `holding` until `async_write`: `writeMutex` is kept in between
    | .txPop, o => { x with holding := o.isSome, subject := o }
    | .txLastPop, o => { x with subject := o }
    | .sendPop, o => { x with subject := o }
    | .asyncWrite _ _, _ => { x with holding := false }
    | .newPdu p, r => { x with drawn := none, outbound := if p.IsInbound then x.outbound else some r }
    | .getPdu r, p => x.see r p
    | .w4rAt _, some e => { x with outbound := some e.obj }
    | .setSeq r n, _ => x.give r n
    | _, _ => x

/-- A thread outside the generator that holds no popped PDU. -/
structure Tally.Ready (x : Tally) : Prop where
  drawing : x.drawing = .outside
  holding : x.holding = false

/-- The operations of which the protocol takes no notice. -/
@[simp] def Op.unnumbered : Op → Bool
  | .lock .mMtx | .unlock .mMtx | .unlock .writeMutex | .getVal | .setVal _ | .txPush _ _ | .txPop
  | .txLastPop | .sendPop | .asyncWrite _ _ | .w4rInsert _ | .newPdu _ | .getPdu _ | .w4rAt _
  | .setSeq _ _ => false
  | _ => true

/-- Operations that number nothing are allowed anywhere, and leave a thread in its position. -/
theorem numbering_unnumbered (op : Op) (x : Tally) (hop : op.unnumbered = true) :
    numbering.allows x op ∧ ∀ b, numbering.next x op b = x := by
  cases op with
  | lock m => cases m <;> first | exact ⟨trivial, fun _ => rfl⟩ | simp at hop
  | unlock m => cases m <;> first | exact ⟨trivial, fun _ => rfl⟩ | simp at hop
  | _ => first | exact ⟨trivial, fun _ => rfl⟩ | simp at hop

/-! ## Rules for the code -/

/-- **The code keeps to the protocol**, started and left in a position with `Q`. -/
def Numbering (Q : Tally → Prop) (p : Code α) : Prop :=
  ∀ x, Q x → p.Follows numbering (fun _ => Q) x

variable {Q : Tally → Prop}

/-- Code of which the protocol takes no notice. -/
abbrev Unnumbered (p : Code α) : Prop := p.Uses fun op => op.unnumbered = true

/-- A single operation that the protocol does not notice is code of that kind. -/
theorem unnumbered_call {op : Op} (hop : op.unnumbered = true) : Unnumbered (call op) := uses_call hop

/-- Code that the protocol does not notice keeps to it. -/
theorem Numbering.aside {p : Code α} (hp : Unnumbered p) : Numbering Q p := fun _ hx =>
  Prog.Follows.aside hp numbering_unnumbered hx

/-- Code that keeps to the protocol may be followed by such code. -/
theorem Numbering.bind {p : Code α} {f : α → Code β} (hp : Numbering Q p)
    (hf : ∀ a, Numbering Q (f a)) : Numbering Q (p >>= f) := fun x hx =>
  (hp x hx).bind fun a y hy => hf a y hy

/-- Code that keeps to the protocol may run under a condition. -/
theorem Numbering.when {b : Bool} {p : Code Unit} (hp : Numbering Q p) :
    Numbering Q (Prog.when b p) := fun x hx => .when (fun _ => hp x hx) fun _ => hx

/-- Code that does nothing keeps to the protocol. -/
theorem Numbering.ret (a : α) : Numbering Q (.ret a : Code α) := fun _ hx => hx

/-- One operation of which it takes no notice. -/
theorem Numbering.call {op : Op} (hop : op.unnumbered = true) : Numbering Q (call op) :=
  .aside (unnumbered_call hop)

/-! ## The methods -/

/-- `SequinceNumberGenerator::next` draws the number it returns. -/
theorem follows_seqNumGenNext {x : Tally} (hx : x.drawing = .outside) :
    seqNumGenNext.Follows numbering (fun n y => y = { x with drawn := some n }) x := by
  obtain ⟨drawing, drawn, first, holding, subject, numbered, outbound, request⟩ := x
  cases hx
  refine ⟨trivial, fun _ => ⟨rfl, fun v => ?_⟩⟩
  show (ite _ _ _ : Code Nat).Follows _ _ _
  split
  · next hv =>
      refine ⟨⟨v, rfl, (if_pos hv).symm⟩, fun _ => ⟨rfl, fun _ => ?_⟩⟩
      show Tally.mk _ (some (if v < SequenceNumber.Max then v else _)) _ _ _ _ _ _ = _
      rw [if_pos hv]
      rfl
  · next hv =>
      refine ⟨⟨v, rfl, (if_neg hv).symm⟩, fun _ => ⟨rfl, fun _ => ?_⟩⟩
      show Tally.mk _ (some (if v < SequenceNumber.Max then v else _)) _ _ _ _ _ _ = _
      rw [if_neg hv]
      rfl

/-- Sleeping numbers nothing. -/
theorem unnumbered_sleep (seconds : Nat) : Unnumbered (sleep seconds) :=
  (unnumbered_call rfl).bind fun _ => unnumbered_call rfl

/-- `throttle_check` numbers nothing. -/
theorem unnumbered_throttleCheck : Unnumbered (throttleCheck cfg) :=
  (unnumbered_call rfl).bind fun _ => (unnumbered_call rfl).bind fun _ =>
    (unnumbered_call rfl).when.bind fun _ => unnumbered_call rfl

/-- What `write_pdu` does with the PDU it has popped. -/
theorem follows_numbered {q : Ref} {x : Tally} (hx : x.drawing = .outside) (hq : x.subject = some q) :
    (do
      let p ← call (.getPdu q)
      Prog.when (p.sequenceNumber ≤ SequenceNumber.Min) do
        let n ← seqNumGenNext
        call (.setSeq q n)
      let tbuf ← call (.getPdu q)
      throttleCheck cfg
      call (.asyncWrite q tbuf) : Code Unit).Follows numbering (fun _ => Tally.Ready) x := by
  -- in the end the PDU is known to have a number
  have hrest : ∀ y : Tally, y.drawing = .outside → y.subject = some q → y.numbered = some q →
      (call (.getPdu q) >>= fun tbuf => throttleCheck cfg >>= fun _ =>
        call (.asyncWrite q tbuf)).Follows numbering (fun _ => Tally.Ready) y := by
    intro y hy hsub hnum
    refine follows_call hsub fun tbuf => ?_
    have hsee : (y.see q tbuf).drawing = .outside ∧ (y.see q tbuf).numbered = some q := by
      refine ⟨hy, ?_⟩
      show (if _ then y.numbered else some q) = some q
      rw [hnum, ite_self]
    refine Prog.Follows.bind (Q := fun _ z => z.drawing = .outside ∧ z.numbered = some q)
      (.aside unnumbered_throttleCheck numbering_unnumbered hsee) fun _ z hz => ?_
    exact ⟨hz.2, fun _ => ⟨hz.1, rfl⟩⟩
  refine follows_call hq fun p => Prog.Follows.bind
    (Q := fun _ y => y.drawing = .outside ∧ y.subject = some q ∧ y.numbered = some q)
    (.when (fun _ => ?_) fun hp => ?_) fun _ y hy => hrest y hy.1 hy.2.1 hy.2.2
  · refine (follows_seqNumGenNext (x := x.see q p) hx).bind fun n y hy => ?_
    subst hy
    exact ⟨rfl, fun _ => ⟨hx, hq, rfl⟩⟩
  · refine ⟨hx, hq, ?_⟩
    show (if Tally.unassigned p.sequenceNumber = true then x.numbered else some q) = some q
    rw [Tally.unassigned, hp]
    rfl

/-- **`write_pdu`** leaves no popped PDU behind, and none it hands over is without a number. -/
theorem follows_writePdu {x : Tally} (hx : x.drawing = .outside) :
    (writePdu cfg).Follows numbering (fun _ => Tally.Ready) x := by
  refine ⟨trivial, fun o => ?_⟩
  cases o with
  | none => exact ⟨trivial, fun _ => ⟨hx, rfl⟩⟩
  | some q => exact follows_numbered hx rfl

/-- **`do_write`** of a PDU known to be outbound. -/
theorem follows_doWrite {r : Ref} {l : Level} {x : Tally} (hx : x.Ready) (hr : x.outbound = some r) :
    (doWrite cfg r l).Follows numbering (fun _ => Tally.Ready) x := by
  unfold doWrite writing
  refine follows_call trivial fun _ => ?_
  rw [Prog.bind_assoc]
  refine follows_call trivial fun e => follows_call hr fun _ => ?_
  refine Prog.Follows.bind (Q := fun _ => Tally.Ready)
    (.when (fun _ => follows_writePdu hx.drawing) fun _ => hx) fun _ y hy => ?_
  exact ⟨hy.holding, fun _ => hy⟩

/-- A PDU is constructed, with a number drawn for it, without a number, or as no request, and
written. -/
theorem follows_newPdu_doWrite {p : Pdu} {l : Level} {x : Tally} (hx : x.Ready) (hp : ¬p.IsInbound)
    (hn : ¬p.IsRequest ∨ p.sequenceNumber ≤ SequenceNumber.Min ∨ x.drawn = some p.sequenceNumber) :
    (call (.newPdu p) >>= fun r => doWrite cfg r l).Follows numbering (fun _ => Tally.Ready) x := by
  refine ⟨.inr hn, fun r => follows_doWrite ⟨hx.drawing, hx.holding⟩ ?_⟩
  exact if_neg hp

/-- A PDU with a number drawn for it is constructed and written. -/
theorem numbering_request {p : Nat → Pdu} {l : Level} (hp : ∀ n, ¬(p n).IsInbound)
    (hn : ∀ n, (p n).sequenceNumber = n) :
    Numbering Tally.Ready (do
      let n ← seqNumGenNext
      let r ← call (.newPdu (p n))
      doWrite cfg r l) := by
  intro x hx
  refine (follows_seqNumGenNext hx.drawing).bind fun n y hy => ?_
  subst hy
  exact follows_newPdu_doWrite ⟨hx.drawing, hx.holding⟩ (hp n) (.inr (.inr (by rw [hn])))

/-- `do_bind_request` keeps to the protocol: its request is numbered by the generator. -/
theorem numbering_doBindRequest : Numbering Tally.Ready (doBindRequest cfg) := by
  refine numbering_request (fun n => ?_) fun _ => rfl
  intro h
  cases hb : cfg.smppcfg.typeOfBind <;>
    · rw [Pdu.IsInbound, hb] at h
      cases h

/-- An unbind request gets its number from `write_pdu`. -/
theorem numbering_doUnbindRequest (hnew : cfg.newSeq ≤ SequenceNumber.Min) :
    Numbering Tally.Ready (doUnbindRequest cfg) := fun _ hx =>
  follows_newPdu_doWrite hx (by intro h; cases h) (.inr (.inl hnew))

/-- A response has the number of its request, and is none itself. -/
theorem numbering_response {raw : RawPdu} {c : CommandId} {l : Level}
    (hc : ¬c.value < CommandId.BindReceiverResp.value) (hin : c ≠ .DeliverSm) :
    Numbering Tally.Ready (call (.newPdu (responsePdu raw c)) >>= fun r => doWrite cfg r l) :=
  fun _ hx => follows_newPdu_doWrite hx hin (.inl hc)

/-- `close_session` keeps to the protocol, if a fresh PDU has no assigned number. -/
theorem numbering_closeSession (hnew : cfg.newSeq ≤ SequenceNumber.Min) (reConnect : Bool) :
    Numbering Tally.Ready (closeSession cfg reConnect) :=
  (Numbering.call rfl).bind fun _ => (Numbering.call rfl).bind fun _ =>
    (Numbering.when (numbering_doUnbindRequest hnew)).bind fun _ => Numbering.call rfl

/-- `handle_read_error` keeps to the protocol. -/
theorem numbering_handleReadError (hnew : cfg.newSeq ≤ SequenceNumber.Min) (error : ErrorCode) :
    Numbering Tally.Ready (handleReadError cfg error) := by
  unfold handleReadError
  refine (Numbering.call rfl).bind fun stopFlag => Numbering.when ?_
  split
  · exact (Numbering.call rfl).bind fun _ => (Numbering.call rfl).bind fun _ => Numbering.call rfl
  · exact numbering_closeSession hnew true

/-- `w4rQ_put` records requests only. -/
theorem follows_w4rQPut {r : Ref} {x : Tally} (hx : x.Ready) (hr : x.subject = some r) :
    (w4rQPut r).Follows numbering (fun _ => Tally.Ready) x := by
  refine follows_call hr fun p => ?_
  have hsee : (x.see r p).Ready := ⟨hx.drawing, hx.holding⟩
  refine Prog.Follows.when (fun hp => ?_) fun _ => hsee
  refine follows_call trivial fun _ => follows_call ?_ fun _ => ⟨trivial, fun _ => hsee⟩
  exact if_pos (of_decide_eq_true hp)

/-- `canSend` keeps to the protocol. -/
theorem numbering_canSend : Numbering Q canSend := by
  refine (Numbering.call rfl).bind fun size => ?_
  split
  · exact (Numbering.call rfl).bind fun _ => Numbering.ret _
  · exact Numbering.ret _

/-- `handle_write` records the PDU it has been given, and no other. -/
theorem follows_handleWritten {o : Option Ref} {x : Tally} (hx : x.Ready) (ho : x.subject = o) :
    (handleWritten cfg o).Follows numbering (fun _ => Tally.Ready) x := by
  cases o with
  | none => exact ⟨trivial, fun _ => hx⟩
  | some r =>
      refine (follows_w4rQPut hx ho).bind fun _ y hy => ?_
      have hrest : Numbering Tally.Ready (do
          call .retire
          let mayWrite ← canSend
          Prog.when mayWrite do
            let e ← call .txEmpty
            Prog.when (!e) (writePdu cfg)) :=
        (Numbering.call rfl).bind fun _ => numbering_canSend.bind fun _ => Numbering.when <|
          (Numbering.call rfl).bind fun _ => Numbering.when fun _ hz => follows_writePdu hz.drawing
      exact hrest y hy

/-- `handle_write` keeps to the protocol. -/
theorem numbering_handleWrite (error : ErrorCode) : Numbering Tally.Ready (handleWrite cfg error) := by
  unfold handleWrite
  split
  · intro x hx
    refine follows_call trivial fun _ => follows_call trivial fun o => ?_
    refine Prog.Follows.bind (follows_handleWritten ⟨hx.drawing, hx.holding⟩ rfl) fun _ y hy => ?_
    exact ⟨hy.holding, fun _ => hy⟩
  · refine (Numbering.call rfl).bind fun _ => (Numbering.call rfl).bind fun _ => Numbering.when ?_
    exact (Numbering.call rfl).bind fun _ => (Numbering.call rfl).bind fun _ => Numbering.call rfl

/-- The sweep puts back what it finds in `w4rQ`. -/
theorem numbering_ageSweep (ks : List Nat) : Numbering Tally.Ready (ageSweep cfg ks) := by
  induction ks with
  | nil => exact Numbering.ret _
  | cons k ks ih =>
      intro x hx
      refine follows_call trivial fun o => ?_
      cases o with
      | none => exact ih x hx
      | some i =>
          have hi : Tally.Ready { x with outbound := some i.obj } := ⟨hx.drawing, hx.holding⟩
          refine follows_call trivial fun now => Prog.Follows.bind (Q := fun _ => Tally.Ready)
            (.when (fun _ => ?_) fun _ => hi) fun _ y hy => ih y hy
          refine (follows_doWrite hi rfl).bind fun _ y hy => ?_
          refine follows_call trivial fun k' => ?_
          cases k' with
          | none => exact ⟨trivial, fun _ => hy⟩
          | some k' => exact Numbering.when (Numbering.call rfl) y hy

/-- `w4rQ_age_cleanup` keeps to the protocol. -/
theorem numbering_w4rQAgeCleanup (e : ErrorCode) : Numbering Tally.Ready (w4rQAgeCleanup cfg e) :=
  Numbering.when <| (Numbering.call rfl).bind fun _ => Numbering.when <|
    (Numbering.call rfl).bind fun _ => (Numbering.call rfl).bind fun keys =>
      (numbering_ageSweep keys).bind fun _ => (Numbering.call rfl).bind fun _ => Numbering.call rfl

/-- `close_connection` keeps to the protocol. -/
theorem numbering_closeConnection : Numbering Q closeConnection := by
  refine .aside ((unnumbered_call rfl).bind fun _ => (unnumbered_call rfl).bind fun _ =>
    (unnumbered_call rfl).bind fun _ => (unnumbered_call rfl).bind fun _ =>
      (unnumbered_call rfl).bind fun _ => (unnumbered_call rfl).bind fun _ =>
        (unnumbered_call rfl).bind fun _ => (unnumbered_call rfl).bind fun stopFlag => ?_)
  refine ((unnumbered_call rfl).bind fun reconnectFlag => ?_).when
  exact ((unnumbered_call rfl).bind fun _ => (unnumbered_sleep 1).bind fun _ =>
    unnumbered_call rfl).when

/-- `handle_connect` keeps to the protocol. -/
theorem numbering_handleConnect (error : ErrorCode) :
    Numbering Tally.Ready (handleConnect cfg error) := by
  unfold handleConnect
  split
  · exact (Numbering.call rfl).bind fun _ => numbering_doBindRequest.bind fun _ => Numbering.call rfl
  · refine .aside ((unnumbered_call rfl).bind fun stopFlag => ?_)
    exact ((unnumbered_sleep 5).bind fun _ => unnumbered_call rfl).when

/-- `handle_read_header` keeps to the protocol. -/
theorem numbering_handleReadHeader (hnew : cfg.newSeq ≤ SequenceNumber.Min) (raw : RawPdu)
    (error : ErrorCode) : Numbering Tally.Ready (handleReadHeader cfg raw error) := by
  unfold handleReadHeader
  split
  · exact Numbering.call rfl
  · exact numbering_handleReadError hnew error

/-- `do_enquire_link` keeps to the protocol. -/
theorem numbering_doEnquireLink (e : ErrorCode) : Numbering Tally.Ready (doEnquireLink cfg e) := by
  refine Numbering.when fun x hx => ?_
  refine (follows_seqNumGenNext hx.drawing).bind fun n y hy => ?_
  subst hy
  have hx' : Tally.Ready { x with drawn := some n } := ⟨hx.drawing, hx.holding⟩
  rw [← Prog.bind_assoc]
  refine (follows_newPdu_doWrite hx' (by simp [Pdu.IsInbound]) (.inr (.inr rfl))).bind fun _ y hy => ?_
  exact ⟨trivial, fun _ => hy⟩

/-- `do_enquire_link_failure` keeps to the protocol. -/
theorem numbering_doEnquireLinkFailure (hnew : cfg.newSeq ≤ SequenceNumber.Min) (e : ErrorCode) :
    Numbering Tally.Ready (doEnquireLinkFailure cfg e) :=
  Numbering.when <| (Numbering.call rfl).bind fun _ => Numbering.when <|
    (Numbering.call rfl).bind fun _ => numbering_closeSession hnew false

/-! ## Processing and sending -/

/-- An `unbind_resp` is no request. -/
theorem unbindResp_not_request (raw : RawPdu) : ¬(responsePdu raw .UnbindResp).IsRequest := by
  show ¬CommandId.UnbindResp.value < CommandId.BindReceiverResp.value
  decide

/-- **Whatever the code for a PDU is**, it keeps to the protocol. -/
theorem Dispatch.numbering (hnew : cfg.newSeq ≤ SequenceNumber.Min) {raw : RawPdu} {st : State}
    {p : Code Completion} (hp : Dispatch cfg raw st p) : Numbering Tally.Ready p := by
  cases hp with
  | ignored => exact Numbering.ret _
  | submitSmResp => exact Numbering.ret _
  | bindResp st' => exact (Numbering.when (Numbering.call rfl)).bind fun _ => Numbering.ret _
  | outbind => exact numbering_doBindRequest.bind fun _ => Numbering.ret _
  | enquireLinkResp => exact (Numbering.call rfl).bind fun _ => Numbering.ret _
  | unbindResp =>
      exact (Numbering.call rfl).bind fun _ =>
        (numbering_closeSession hnew false).bind fun _ => Numbering.ret _
  | enquireLink =>
      unfold procpduEnquireLink
      split
      · rw [← Prog.bind_assoc]
        exact (numbering_response (by decide) (by decide)).bind fun _ => Numbering.ret _
      · exact Numbering.ret _
  | deliverSm =>
      unfold procpduDeliverSm
      split
      · intro x hx
        refine follows_call (.inl rfl) fun r => follows_call trivial fun _ => ?_
        have hrest : Numbering Tally.Ready (do
            let responsePDU ← call (.newPdu (responsePdu raw .DeliverSmResp))
            doWrite cfg responsePDU .RESPONSE
            return Completion.returned) := by
          rw [← Prog.bind_assoc]
          exact (numbering_response (by decide) (by decide)).bind fun _ => Numbering.ret _
        exact hrest _ ⟨hx.drawing, hx.holding⟩
      · exact Numbering.ret _
  | unbind =>
      unfold procpduUnbind
      split
      · intro x hx
        -- the state changes between the construction of the response and its `do_write`
        refine follows_call (.inr (.inl (unbindResp_not_request raw))) fun r =>
          follows_call trivial fun _ => ?_
        have hr : Tally.Ready { x with drawn := none, outbound := some r } := ⟨hx.drawing, hx.holding⟩
        refine (follows_doWrite hr rfl).bind fun _ y hy => ?_
        exact ⟨trivial, fun _ => ⟨trivial, fun _ => ⟨trivial, fun _ => hy⟩⟩⟩
      · exact Numbering.ret _

/-- `handle_read_body` keeps to the protocol. -/
theorem numbering_handleReadBody (hnew : cfg.newSeq ≤ SequenceNumber.Min) (raw : RawPdu)
    (error : ErrorCode) : Numbering Tally.Ready (handleReadBody cfg raw error) := by
  unfold handleReadBody
  split
  · refine Numbering.bind (.aside ?_) fun _ => Numbering.bind ?_ fun _ => Numbering.call rfl
    · exact ((unnumbered_call rfl).bind fun _ => (unnumbered_call rfl).bind fun _ =>
        unnumbered_call rfl).when
    · refine Numbering.bind (.aside ?_) fun _ => (Numbering.call rfl).bind fun st =>
        (Numbering.call rfl).bind fun _ => ?_
      · exact (unnumbered_call rfl).bind fun _ => (unnumbered_call rfl).bind fun _ =>
          unnumbered_call rfl
      · refine ((dispatch_process4stateSwitch cfg raw st).numbering hnew).bind fun o => ?_
        cases o with
        | returned => exact Numbering.ret _
        | threw => exact numbering_closeSession hnew true
  · exact numbering_handleReadError hnew error

/-- **`send_pdu`** writes nothing inbound. -/
theorem follows_sendPdu {r : Ref} {x : Tally} (hx : x.Ready) (hr : x.subject = some r) :
    (sendPdu cfg r).Follows numbering (fun _ => Tally.Ready) x := by
  have hread : ∀ p : Pdu, ¬p.IsInbound →
      (doWrite cfg r .MESSAGE).Follows numbering (fun _ => Tally.Ready) (x.see r p) :=
    fun p hp => follows_doWrite ⟨hx.drawing, hx.holding⟩ (if_neg hp)
  have hskip : ∀ p : Pdu, (x.see r p).Ready := fun p => ⟨hx.drawing, hx.holding⟩
  unfold sendPdu
  refine follows_call trivial fun st => ?_
  cases st <;> first
    | exact hx
    | (refine follows_call hr fun p => ?_
       split <;> first
        | exact hread p (by simp [Pdu.IsInbound, *])
        | exact hskip p)

/-- `sendingProcessor` keeps to the protocol. -/
theorem numbering_sendingProcessor : Numbering Tally.Ready (sendingProcessor cfg) := by
  unfold sendingProcessor
  refine (Numbering.call rfl).bind fun empty => ?_
  split
  · exact .aside (unnumbered_sleep 1)
  · intro x hx
    refine follows_call trivial fun o => ?_
    have ho : Tally.Ready { x with subject := o } := ⟨hx.drawing, hx.holding⟩
    cases o with
    | none => exact ho
    | some r =>
        refine (follows_sendPdu ho rfl).bind fun _ y hy => ?_
        exact ⟨trivial, fun _ => hy⟩

/-- `recieveProcessor` numbers nothing. -/
theorem unnumbered_recieveProcessor : Unnumbered recieveProcessor := by
  unfold recieveProcessor
  refine (unnumbered_call rfl).bind fun empty => ?_
  split
  · exact unnumbered_sleep 1
  · refine (unnumbered_call rfl).bind fun o => ?_
    cases o with
    | none => exact unnumbered_call rfl
    | some r =>
        refine (unnumbered_call rfl).bind fun a => ?_
        cases a with
        | success => exact (unnumbered_call rfl).bind fun _ => unnumbered_call rfl
        | retryable => exact (unnumbered_call rfl).bind fun _ => unnumbered_call rfl
        | perminant => exact (unnumbered_call rfl).bind fun _ => unnumbered_call rfl

/-- **The code of every job keeps to the protocol.** -/
theorem numbering_body (hnew : cfg.newSeq ≤ SequenceNumber.Min) (j : Job) :
    Numbering Tally.Ready (j.body cfg) := by
  cases j with
  | handler h =>
      cases h with
      | handleConnect e => exact numbering_handleConnect e
      | handleReadHeader raw e => exact numbering_handleReadHeader hnew raw e
      | handleReadBody raw e => exact numbering_handleReadBody hnew raw e
      | handleWrite r e => exact numbering_handleWrite e
      | closeConnection => exact numbering_closeConnection
      | doEnquireLink e => exact numbering_doEnquireLink e
      | doEnquireLinkFailure e => exact numbering_doEnquireLinkFailure hnew e
      | w4rQAgeCleanup e => exact numbering_w4rQAgeCleanup e
  | send => exact numbering_sendingProcessor
  | receive => exact .aside unnumbered_recieveProcessor
  | stop =>
      exact Numbering.bind ((Numbering.call rfl).bind fun _ => numbering_closeSession hnew false)
        fun _ => Numbering.call rfl

end KissSmpp
