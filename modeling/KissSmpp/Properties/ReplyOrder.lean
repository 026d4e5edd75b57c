import KissSmpp.Session.Freshness
import KissSmpp.Session.Lanes
import KissSmpp.Session.Routine

/-! # Requests are answered in the order in which they came

The peer's `deliver_sm`, `enquire_link` and `unbind` are answered from within `process4state`: the response
is constructed there, pushed on the response level of the transmit queue and written when its turn comes. A
request may go unanswered (its body does not decode, the state does not admit it, the connection is closed
first), but there are never two responses to one request, nothing is answered that was not received, and no answer
overtakes an earlier one when it is handed to `async_write` for the first time. A response that `handle_write` puts
back is handed over again; this is not counted here.

The protocol `replying` says that the code makes one answer at most to what it has received last;
`answering` is the pipeline from there to `async_write`. -/

namespace KissSmpp

open Interleave Queue

variable {cfg : Params} {t : Tid} {s s' : Session} {α : Type}

/-! ## Requests and answers -/

/-- The response that a request of the peer calls for, if the session answers it. -/
def CommandId.response? : CommandId → Option CommandId
  | .EnquireLink => some .EnquireLinkResp
  | .DeliverSm => some .DeliverSmResp
  | .Unbind => some .UnbindResp
  | _ => none

/-- The command and the number of the answer that a PDU of the peer calls for. -/
def RawPdu.reply? (raw : RawPdu) : Option (CommandId × Nat) :=
  (CommandId.ofValue raw.cmdId).response?.map fun c => (c, raw.seqNum)

/-- The command and the number with which a PDU was built as an answer. -/
def Pdu.reply? (q : Pdu) : Option (CommandId × Nat) :=
  match q.commandId with
  | .EnquireLinkResp | .DeliverSmResp | .UnbindResp => q.answers.map fun n => (q.commandId, n)
  | _ => none

/-- The answer called for by a PDU that an event records as received. -/
def Event.calledFor? : Event → Option (CommandId × Nat)
  | .mark (.received raw _) => raw.reply?
  | _ => none

namespace Session

/-- What a reference denotes, as an answer. -/
def reply? (s : Session) (r : Ref) : Option (CommandId × Nat) := (s.pdu r).reply?

/-- **The answers called for**, in the order in which the requests were received. -/
def calledFor (s : Session) : List (CommandId × Nat) := (s.hist.filterMap Event.calledFor?).reverse

end Session

/-! ## The protocol -/

/-- **Where a thread stands with the answer** to what it has received last: it owes none, it owes one, or
it has made one that is not in the queue yet. -/
inductive Replying
  | idle
  | owes (a : CommandId × Nat)
  | made
  deriving DecidableEq

/-- What is still to be made. -/
def Replying.owed : Replying → List (CommandId × Nat)
  | .owes a => [a]
  | _ => []

/-- What a PDU of the peer leads to. -/
def RawPdu.replying (raw : RawPdu) : Replying := raw.reply?.elim .idle .owes

/-- **The protocol of answers**: the one that is owed may be made, and is pushed on the response level
next. -/
def replying : Protocol Op Op.Res Replying where
  allows x
    | .note (.received _ _) => x ≠ .made
    | .newPdu q => x ≠ .made ∧ ∀ a, q.reply? = some a → x = .owes a
    | .txPush _ l => x = .made → l = .RESPONSE
    | _ => True
  next x
    | .note (.received raw _), _ => raw.replying
    | .newPdu q, _ => if q.reply? = none then x else .made
    | .txPush _ _, _ => if x = .made then .idle else x
    | _, _ => x

/-- Operations that receive nothing and make no answer. -/
def Op.unasked : Op → Prop
  | .note (.received _ _) => False
  | .newPdu q => q.reply? = none
  | _ => True

/-- With no answer in hand they change nothing. -/
theorem replying_unasked {op : Op} {x : Replying} (hop : op.unasked) (hx : x ≠ .made) :
    replying.allows x op ∧ ∀ b, replying.next x op b = x := by
  cases op with
  | note m => cases m <;> first | exact ⟨trivial, fun _ => rfl⟩ | exact hop.elim
  | newPdu q =>
      have hq : q.reply? = none := hop
      exact ⟨⟨hx, fun a ha => by rw [hq] at ha; cases ha⟩, fun _ => if_pos hq⟩
  | txPush r l => exact ⟨fun hmade => absurd hmade hx, fun _ => if_neg hx⟩
  | _ => exact ⟨trivial, fun _ => rfl⟩

/-- Code that starts and ends with no answer in hand. -/
abbrev Answering (p : Code α) (x : Replying) : Prop := p.Follows replying (fun _ y => y ≠ .made) x

/-- Code that receives nothing and makes no answer. -/
theorem Answering.unasked {p : Code α} {x : Replying} (hp : p.Uses Op.unasked) (hx : x ≠ .made) :
    Answering p x :=
  hp.follows (fun op _ hop hy => ⟨(replying_unasked hop hy).1, fun b => by
    rw [(replying_unasked hop hy).2 b]
    exact hy⟩) hx

/-- A request of the session is no answer. -/
theorem Pdu.reply?_of_isRequest {q : Pdu} (h : q.IsRequest) : q.reply? = none := by
  unfold Pdu.IsRequest at h
  unfold Pdu.reply?
  split
  · next hc => rw [hc] at h; exact absurd h (by decide)
  · next hc => rw [hc] at h; exact absurd h (by decide)
  · next hc => rw [hc] at h; exact absurd h (by decide)
  · rfl

/-- A PDU of this command is a request. -/
theorem Pdu.isRequest_of_beq {q : Pdu} {c : CommandId} (h : (q.commandId == c) = true)
    (hc : c.value < CommandId.BindReceiverResp.value) : q.IsRequest := by
  unfold Pdu.IsRequest
  rw [eq_of_beq h]
  exact hc

/-- Bind requests are requests. -/
theorem Pdu.isRequest_of_isBind {q : Pdu} (h : q.commandId.isBind = true) : q.IsRequest := by
  unfold Pdu.IsRequest
  cases hc : q.commandId <;> first | decide | (rw [hc] at h; cases h)

/-- **Only `handle_read_body` receives and answers.** -/
theorem unasked_of_uses {j : Job} (hj : ∀ raw e, j ≠ .handler (.handleReadBody raw e)) {op : Op}
    (h : j.uses op = true) : op.unasked := by
  -- only a reception and a construction can be about an answer; what another job makes is a request
  cases op with
  | note m =>
      cases m with
      | received raw st =>
          cases j with
          | handler q =>
              cases q with
              | handleReadBody raw' e => exact absurd rfl (hj raw' e)
              | _ => cases h
          | _ => cases h
      | _ => trivial
  | newPdu q =>
      refine Pdu.reply?_of_isRequest ?_
      cases j with
      | handler q' =>
          cases q' with
          | handleConnect e => exact Pdu.isRequest_of_isBind h
          | handleReadHeader raw e => exact Pdu.isRequest_of_beq h (by decide)
          | handleReadBody raw e => exact absurd rfl (hj raw e)
          | handleWrite r e => cases h
          | closeConnection => cases h
          | doEnquireLink e => exact Pdu.isRequest_of_beq h (by decide)
          | doEnquireLinkFailure e => exact Pdu.isRequest_of_beq h (by decide)
          | w4rQAgeCleanup e => cases h
      | send => cases h
      | receive => cases h
      | stop => exact Pdu.isRequest_of_beq h (by decide)
  | _ => trivial

/-! ## The code follows it -/

section

variable {raw : RawPdu} {x : Replying} {a : CommandId × Nat}

/-- `write_pdu` answers nothing. -/
theorem unasked_of_ofWritePdu {op : Op} (h : op.ofWritePdu = true) : op.unasked := by
  cases op with
  | newPdu q => cases h
  | note m => cases h
  | _ => trivial

/-- `close_session` queues no response. -/
theorem unasked_closeSession {b : Bool} : (closeSession cfg b).Uses Op.unasked :=
  ofClose_closeSession.mono fun op h =>
    unasked_of_uses (j := .handler (.doEnquireLinkFailure .success)) (fun _ _ => by simp) (by
      cases op <;> first | rfl | exact h)

/-- Making a bind request queues no response. -/
theorem unasked_doBindRequest : (doBindRequest cfg).Uses Op.unasked := by
  refine (ofWritePdu_seqNumGenNext.mono fun _ => unasked_of_ofWritePdu).bind fun n => ?_
  refine uses_request CommandId.isBind (by cases cfg.smppcfg.typeOfBind <;> rfl) fun op h => ?_
  cases op with
  | newPdu q => exact Pdu.reply?_of_isRequest (Pdu.isRequest_of_isBind h)
  | note m => cases h
  | _ => trivial

/-- **`do_write` of an answer** that has just been made. -/
theorem answering_doWrite (r : Ref) : Answering (doWrite cfg r .RESPONSE) .made := by
  have hidle : Replying.idle ≠ .made := by simp
  have hrest : ∀ busy : Bool, (Prog.when (!busy) (writePdu cfg) >>= fun _ =>
      call (.unlock .writeMutex)).Uses Op.unasked := fun busy =>
    (ofWritePdu_writePdu.mono fun _ => unasked_of_ofWritePdu).when.bind fun _ => uses_call trivial
  refine follows_call trivial fun _ => ?_
  refine follows_call trivial fun e => ?_
  exact follows_call (fun _ => rfl) fun _ => Answering.unasked (hrest _) hidle

/-- **The answer that is owed** is made and written. -/
theorem answering_reply {c : CommandId} (hc : (responsePdu raw c).reply? = some a) :
    Answering (call (.newPdu (responsePdu raw c)) >>= fun r => doWrite cfg r .RESPONSE) (.owes a) := by
  refine follows_call ⟨by simp, fun a' ha' => ?_⟩ fun r => ?_
  · rw [hc, Option.some.injEq] at ha'
    rw [ha']
  · have hmade : replying.next (.owes a) (.newPdu (responsePdu raw c)) r = .made := by
      show (if (responsePdu raw c).reply? = none then Replying.owes a else .made) = .made
      rw [hc]
      rfl
    rw [hmade]
    exact answering_doWrite r

/-- What is done for a PDU that calls for an answer starts with the answer owed. -/
theorem replying_of_command {c c' : CommandId} (hc : CommandId.ofValue raw.cmdId = c)
    (hc' : c.response? = some c') : raw.replying = .owes (c', raw.seqNum) := by
  unfold RawPdu.replying RawPdu.reply?
  rw [hc, hc']
  rfl

/-- A PDU just received has no answer made for it. -/
theorem replying_ne_made : raw.replying ≠ .made := by
  unfold RawPdu.replying
  cases raw.reply? <;> simp

/-- `procpdu_enquire_link` makes the answer that is owed to an `enquire_link`. -/
theorem answering_procpduEnquireLink (hc : CommandId.ofValue raw.cmdId = .EnquireLink) :
    Answering (procpduEnquireLink cfg raw) raw.replying := by
  unfold procpduEnquireLink
  split
  · rw [replying_of_command hc rfl, ← Prog.bind_assoc]
    exact (answering_reply rfl).bind fun _ _ hx => hx
  · exact replying_ne_made

/-- `procpdu_deliver_sm` makes the answer that is owed to a `deliver_sm`, if that decodes. -/
theorem answering_procpduDeliverSm (hc : CommandId.ofValue raw.cmdId = .DeliverSm) :
    Answering (procpduDeliverSm cfg raw) raw.replying := by
  unfold procpduDeliverSm
  split
  · rw [replying_of_command hc rfl]
    -- the PDU received becomes an object first
    refine follows_call ⟨by simp, fun a ha => by cases ha⟩ fun r => follows_call trivial fun _ => ?_
    rw [← Prog.bind_assoc]
    exact (answering_reply rfl).bind fun _ _ hx => hx
  · exact replying_ne_made

/-- `procpdu_unbind` makes the answer that is owed to an `unbind`. -/
theorem answering_procpduUnbind (hc : CommandId.ofValue raw.cmdId = .Unbind) :
    Answering (procpduUnbind cfg raw) raw.replying := by
  unfold procpduUnbind
  split
  · rw [replying_of_command hc rfl]
    refine follows_call ⟨by simp, fun a ha => ?_⟩ fun r => follows_call trivial fun _ => ?_
    · cases ha
      rfl
    · refine (answering_doWrite r).bind fun _ x hx => Answering.unasked ?_ hx
      exact uses_then trivial fun _ => uses_then trivial fun _ => uses_then trivial fun _ => trivial
  · exact replying_ne_made

/-- **The answer owed to what was received is made at most once**, whatever the state. -/
theorem answering_process4stateSwitch (st : State) :
    Answering (process4stateSwitch cfg raw st) raw.replying := by
  have haside : ∀ p : Code Completion, p.Uses Op.unasked → Answering p raw.replying :=
    fun p hp => Answering.unasked hp replying_ne_made
  have hbindResp : ∀ st', Answering (procpduBindResp raw st') raw.replying := fun st' =>
    haside _ ((Prog.Uses.when (uses_call trivial)).bind fun _ => trivial)
  have houtbind : Answering (doBindRequest cfg >>= fun _ => return Completion.returned) raw.replying :=
    haside _ (unasked_doBindRequest.bind fun _ => trivial)
  have hunbindResp : Answering (procpduUnbindResp cfg raw) raw.replying :=
    haside _ (uses_then trivial fun _ => unasked_closeSession.bind fun _ => trivial)
  have hlinkResp : Answering (procpduEnquireLinkResp raw) raw.replying :=
    haside _ (uses_then trivial fun _ => trivial)
  have hnone : Answering (return Completion.returned) raw.replying := replying_ne_made
  -- every state's `switch` leads to some of these; only the three requests are answered
  cases st with
  | OPEN =>
      show Answering (process4stateOpen cfg raw) _
      unfold process4stateOpen
      split <;> first
        | exact hbindResp _
        | exact answering_procpduEnquireLink ‹_›
        | exact hlinkResp
        | exact houtbind
        | exact hnone
  | OUTBOUND =>
      show Answering (process4stateOutbound cfg raw) _
      unfold process4stateOutbound
      split <;> first
        | exact hbindResp _
        | exact answering_procpduEnquireLink ‹_›
        | exact hlinkResp
        | exact hnone
  | BOUND_TX =>
      show Answering (process4stateBoundTx cfg raw) _
      unfold process4stateBoundTx
      split <;> first
        | exact answering_procpduUnbind ‹_›
        | exact answering_procpduEnquireLink ‹_›
        | exact hunbindResp
        | exact hlinkResp
        | exact hnone
  | BOUND_RX =>
      show Answering (process4stateBoundRx cfg raw) _
      unfold process4stateBoundRx
      split <;> first
        | exact answering_procpduDeliverSm ‹_›
        | exact answering_procpduUnbind ‹_›
        | exact answering_procpduEnquireLink ‹_›
        | exact hunbindResp
        | exact hlinkResp
        | exact hnone
  | BOUND_TRX =>
      show Answering (process4stateBoundTrx cfg raw) _
      unfold process4stateBoundTrx
      split <;> first
        | exact answering_procpduDeliverSm ‹_›
        | exact answering_procpduUnbind ‹_›
        | exact answering_procpduEnquireLink ‹_›
        | exact hunbindResp
        | exact hlinkResp
        | exact hnone
  | UNBOUND =>
      show Answering (process4stateUnbound cfg raw) _
      unfold process4stateUnbound
      split <;> first
        | exact answering_procpduEnquireLink ‹_›
        | exact hlinkResp
        | exact hnone
  | CLOSED => exact hnone

/-- `handle_read_body` makes the answer that the PDU calls for. -/
theorem answering_handleReadBody (e : ErrorCode) (hx : x ≠ .made) :
    Answering (handleReadBody cfg raw e) x := by
  unfold handleReadBody
  split
  · refine Prog.Follows.bind (Q := fun _ y => y ≠ .made) (Answering.unasked (Prog.Uses.when ?_) hx)
      fun _ y hy => ?_
    · exact uses_then trivial fun _ => uses_then trivial fun _ => uses_call trivial
    refine Prog.Follows.bind (Q := fun _ y => y ≠ .made) ?_
      fun _ z hz => Answering.unasked (uses_call trivial) hz
    refine Prog.Follows.bind (Q := fun _ y => y ≠ .made) (Answering.unasked ?_ hy) fun _ y hy => ?_
    · exact uses_then trivial fun _ => uses_then trivial fun _ => uses_call trivial
    refine follows_call trivial fun st => follows_call hy fun _ => ?_
    refine (answering_process4stateSwitch st).bind fun completion z hz => ?_
    cases completion with
    | returned => exact hz
    | threw => exact Answering.unasked unasked_closeSession hz
  · refine Answering.unasked ((ofFailure_handleReadError e).mono fun op h => ?_) hx
    exact unasked_of_uses (j := .handler (.handleReadHeader raw e)) (fun _ _ => by simp) (by
      cases op <;> first | rfl | exact h | cases h)

/-- **The code of every job follows the protocol.** -/
theorem answering_body (j : Job) (hx : x ≠ .made) : Answering (j.body cfg) x := by
  by_cases hj : ∀ raw e, j ≠ .handler (.handleReadBody raw e)
  · exact Answering.unasked (j.uses_body.mono fun _ => unasked_of_uses hj) hx
  · obtain ⟨raw, e, rfl⟩ : ∃ raw e, j = .handler (.handleReadBody raw e) := by
      by_contra hne
      exact hj fun raw e h => hne ⟨raw, e, h⟩
    exact answering_handleReadBody e hx

end

/-! ## The pipeline -/

namespace Session

/-- **Answers keep to their way**: the io thread alone makes them, and has one in hand only while its
position says so; on the other levels of the transmit queue there is none that has not been popped
before. -/
structure Replies (s : Session) (x : Tid → Replying) : Prop where
  others : ∀ u, u ≠ .io → x u = .idle
  hands : ∀ u r, x u ≠ .made → s.inHand u = some r → s.reply? r = none
  buffer : ∀ r ∈ s.sendingBuffer, s.reply? r = none
  levels : ∀ i, i ≠ .RESPONSE → ∀ r ∈ s.txQ.level i, s.reply? r ≠ none → r ∈ s.touched

/-- **The way of the answers**: from the lane of their level back to what is owed to the PDU received
last. -/
def answering (s : Session) (x : Replying) : Pipeline (CommandId × Nat) :=
  s.pipeline s.calledFor s.reply? .RESPONSE ((s.inHand .io).toList.filterMap s.reply? ++ x.owed)

end Session

open Session

variable {x : Tid → Replying}

/-- An object remains the answer it is. -/
theorem reply?_perform {op : Op} {y : op.Res × Session} (h : perform cfg t op s = some y) {r : Ref}
    (hr : r < s.heap.length) : y.2.reply? r = s.reply? r := by
  obtain ⟨n, hn⟩ := pdu_perform_number h hr
  unfold Session.reply?
  rw [hn]
  rfl

/-- What an operation records of the answers called for. -/
theorem calledFor_perform {op : Op} {y : op.Res × Session} (h : perform cfg t op s = some y) :
    y.2.calledFor = s.calledFor ++ ((op.logs s).filterMap Event.calledFor?).reverse := by
  unfold Session.calledFor
  rw [perform_hist h, List.filterMap_append, List.reverse_append]

/-- Only what is received calls for answers. -/
theorem calledFor_same {op : Op} {y : op.Res × Session} (h : perform cfg t op s = some y)
    (hop : ∀ raw st, op ≠ .note (.received raw st)) : y.2.calledFor = s.calledFor := by
  have hnil : (op.logs s).filterMap Event.calledFor? = [] := by
    cases op with
    | note m =>
        cases m with
        | received raw st => exact absurd rfl (hop raw st)
        | _ => rfl
    | _ => rfl
  rw [calledFor_perform h, hnil, List.reverse_nil, List.append_nil]

/-- A thread with an answer in hand keeps it until it pushes it. -/
theorem made_next {op : Op} {y : Replying} {b : op.Res} (ha : replying.allows y op) (hy : y = .made) :
    replying.next y op b = .made ∨ ∃ r l, op = .txPush r l := by
  subst hy
  cases op with
  | txPush r l => exact .inr ⟨r, l, rfl⟩
  | newPdu q => exact absurd rfl ha.1
  | note m => cases m <;> first | exact .inl rfl | exact absurd rfl ha
  | _ => exact .inl rfl

/-- A thread other than the io thread owes nothing. -/
theorem replies_others {op : Op} {b : op.Res} (hm : op.mayRun t = true) (ha : replying.allows .idle op)
    (ht : t ≠ .io) : replying.next .idle op b = .idle := by
  cases op with
  | note m =>
      cases m with
      | received raw st => exact absurd (Op.io_of_mayRun hm rfl) ht
      | _ => rfl
  | newPdu q =>
      refine if_pos ?_
      cases hq : q.reply? with
      | none => rfl
      | some a => cases ha.2 a hq
  | txPush r l => rfl
  | _ => rfl

/-- What a thread has in hand is no answer, unless it has just made one. -/
theorem replies_hands {op : Op} {y : op.Res × Session} (hi : Inv s) (hR : s.Replies x)
    (ha : replying.allows (x t) op) (h : perform cfg t op s = some y) {u : Tid} {r : Ref}
    (hu : Function.update x t (replying.next (x t) op y.1) u ≠ .made) (hr : y.2.inHand u = some r) :
    y.2.reply? r = none := by
  rcases inHand_perform h hr with hold | ⟨rfl, rfl, q, rfl⟩ | ⟨rfl, hhead, rfl⟩
  · have hlt := hi.fresh r (.inl ⟨u, hold⟩)
    rw [reply?_perform h hlt]
    refine hR.hands u r (fun hmade => ?_) hold
    by_cases hut : u = t
    · subst hut
      rw [Function.update_self] at hu
      -- an answer that has been made is let go of when it is pushed
      rcases made_next (b := y.1) ha hmade with hnext | ⟨r', l, rfl⟩
      · exact hu hnext
      · cases h
        have hr : Function.update s.inHand u none u = some r := hr
        rw [Function.update_self] at hr
        cases hr
    · rw [Function.update_of_ne hut] at hu
      exact hu hmade
  · rw [Function.update_self] at hu
    have hq : q.reply? = none := by
      by_contra hq
      exact hu (if_neg hq)
    have hpdu := (perform_newPdu h).2
    have hy : y.1 = s.heap.length := by cases h; rfl
    unfold Session.reply?
    rw [← hy, hpdu, hq]
  · have hmem : r ∈ s.sendingBuffer := List.mem_of_mem_head? hhead
    rw [reply?_perform h (hi.fresh r (.inr hmem))]
    exact hR.buffer r hmem

/-- No answer is in the sending buffer. -/
theorem replies_buffer {op : Op} {y : op.Res × Session} (hi : Inv s) (hR : s.Replies x)
    (h : perform cfg t op s = some y) {r : Ref} (hr : r ∈ y.2.sendingBuffer) : y.2.reply? r = none := by
  have hmem : r ∈ s.sendingBuffer := by
    rcases sendingBuffer_perform h with ⟨hbuf, -⟩ | ⟨hbuf, -⟩
    · exact hbuf ▸ hr
    · rw [hbuf] at hr
      exact List.mem_of_mem_tail hr
  rw [reply?_perform h (hi.fresh r (.inr hmem))]
  exact hR.buffer r hmem

/-- An answer on another level than its own has been popped before. -/
theorem replies_levels {op : Op} {y : op.Res × Session} (hi : Inv s) (hS : s.Spent) (hR : s.Replies x)
    (hk : Known t op s) (ha : replying.allows (x t) op) (h : perform cfg t op s = some y) {i : Level}
    (hne : i ≠ .RESPONSE) {r : Ref} (hr : r ∈ y.2.txQ.level i) (htag : y.2.reply? r ≠ none) :
    r ∈ y.2.touched := by
  refine touched_perform h hk ?_
  rcases mem_level_perform h hr with hr | rfl | hr
  · rw [reply?_perform h (hi.queued r (.waiting ⟨i, hr⟩))] at htag
    exact hR.levels i hne r hr htag
  · rcases hk.2 with hin | ⟨-, -, haw⟩
    · rw [reply?_perform h (hi.fresh r (.inl ⟨t, hin⟩))] at htag
      by_cases hmade : x t = .made
      · exact absurd (ha hmade) hne
      · exact absurd (hR.hands t r hmade hin) htag
    · exact hS.awaits r haw
  · exact hS.slot r hr

/-- **Every operation leaves the answers on their way.** -/
theorem replies_perform {g : Guard Op Tid Session Job} {op : Op} {y : op.Res × Session} (hi : Inv s)
    (hS : s.Spent) (hR : s.Replies x) (hg : (known cfg g).op t op s) (ha : replying.allows (x t) op)
    (h : perform cfg t op s = some y) :
    y.2.Replies (Function.update x t (replying.next (x t) op y.1)) where
  others u hu := by
    by_cases hut : u = t
    · subst hut
      rw [Function.update_self]
      have hidle := hR.others u hu
      rw [hidle] at ha ⊢
      exact replies_others (known_mayRun hg) ha hu
    · rw [Function.update_of_ne hut]
      exact hR.others u hu
  hands _ _ hu hr := replies_hands hi hR ha h hu hr
  buffer _ hr := replies_buffer hi hR h hr
  levels _ hne _ hr htag := replies_levels hi hS hR (known_known hg) ha h hne hr htag

/-- What the io thread has in hand changes by its own construction of PDUs and pushes only. -/
theorem inHand_io {op : Op} {y : op.Res × Session} (h : perform cfg t op s = some y)
    (hm : op.mayRun t = true) (hnew : t = .io → ∀ q, op ≠ .newPdu q)
    (hpush : t = .io → ∀ r l, op ≠ .txPush r l) : y.2.inHand .io = s.inHand .io := by
  by_cases ht : t = .io
  · subst ht
    have hsame : y.2.inHand = s.inHand := perform_same (f := .inHand) h (by
      cases op with
      | newPdu q => exact absurd rfl (hnew rfl q)
      | txPush r l => exact absurd rfl (hpush rfl r l)
      | sendPop => exact absurd (Op.sender_of_mayRun hm rfl) (by simp)
      | sendDone => exact absurd (Op.sender_of_mayRun hm rfl) (by simp)
      | _ => simp)
    rw [hsame]
  · exact (perform_local h (Ne.symm ht)).2.1

/-- A position changes by receiving, making and pushing only. -/
theorem replying_next_same {op : Op} {y : Replying} {b : op.Res}
    (hnote : ∀ raw st, op ≠ .note (.received raw st)) (hnew : ∀ q, op ≠ .newPdu q)
    (hpush : ∀ r l, op ≠ .txPush r l) : replying.next y op b = y := by
  cases op with
  | note m =>
      cases m with
      | received raw st => exact absurd rfl (hnote raw st)
      | _ => rfl
  | newPdu q => exact absurd rfl (hnew q)
  | txPush r l => exact absurd rfl (hpush r l)
  | _ => rfl

/-! ### What operations do to it -/

/-- What calls for an answer is owed one. -/
theorem owed_replying (raw : RawPdu) : raw.replying.owed = raw.reply?.toList := by
  unfold RawPdu.replying
  cases raw.reply? <;> rfl

/-- **What is received** arrives in the pipeline; an answer that was still owed is lost. -/
theorem answering_received {raw : RawPdu} {st : State} {y : Unit × Session} (z : Replying)
    (h : perform cfg t (.note (.received raw st)) s = some y) :
    Pipeline.Steps (s.answering z) (y.2.answering raw.replying) := by
  have hcalled : y.2.calledFor = s.calledFor ++ raw.reply?.toList := by
    rw [calledFor_perform h]
    show s.calledFor ++ ([Event.mark (.received raw st)].filterMap Event.calledFor?).reverse = _
    cases hraw : raw.reply? <;> simp [Event.calledFor?, hraw]
  have htag : y.2.reply? = s.reply? := by cases h; rfl
  have hin : y.2.inHand = s.inHand := perform_same (f := .inHand) h (by simp)
  have hlose : Pipeline.Step (s.answering z) (s.pipeline s.calledFor s.reply? .RESPONSE
      ((s.inHand .io).toList.filterMap s.reply?)) :=
    .lose _ _ ((List.sublist_append_left _ _).append_left _)
  refine (Relation.ReflTransGen.single hlose).trans ?_
  unfold Session.answering
  rw [hcalled, htag, hin, owed_replying, pipeline_same (written_same h (by simp))
    (perform_same (f := .pdu2send) h (by simp)) (perform_same (f := .txQ) h (by simp))]
  cases raw.reply? with
  | none =>
      rw [Option.toList_none, List.append_nil, List.append_nil]
  | some a =>
      unfold Session.pipeline
      rw [Option.toList_some, ← List.append_assoc]
      exact .single (.arrive _ _ _ _)

/-- **An answer that is owed is made.** -/
theorem answering_newPdu {g : Guard Op Tid Session Job} {q : Pdu} {y : Ref × Session} (hi : Inv s)
    (hR : s.Replies x) (hg : (known cfg g).op t (.newPdu q) s) (ha : replying.allows (x t) (.newPdu q))
    (h : perform cfg t (.newPdu q) s = some y) : Pipeline.Steps (s.answering (x .io))
      (y.2.answering (Function.update x t (replying.next (x t) (.newPdu q) y.1) .io)) := by
  have hcalled : y.2.calledFor = s.calledFor := calledFor_same h (by simp)
  have hqueued : ∀ r, s.Queued r → y.2.reply? r = s.reply? r := fun r hr =>
    reply?_perform h (hi.queued r hr)
  unfold Session.answering
  rw [hcalled, pipeline_same (written_same h (by simp)) (perform_same (f := .pdu2send) h (by simp))
    (perform_same (f := .txQ) h (by simp)), pipeline_tag hqueued]
  have hups : ∀ up : List (CommandId × Nat),
      up = (s.inHand .io).toList.filterMap s.reply? ++ (x .io).owed →
      Pipeline.Steps (s.pipeline s.calledFor s.reply? .RESPONSE
        ((s.inHand .io).toList.filterMap s.reply? ++ (x .io).owed))
        (s.pipeline s.calledFor s.reply? .RESPONSE up) := by
    rintro up rfl
    exact .refl
  apply hups
  -- only the io thread makes answers, and its hand was empty of them
  by_cases ht : t = .io
  · subst ht
    have hy : y.1 = s.heap.length := by cases h; rfl
    have hnow : y.2.inHand .io = some y.1 := by
      cases h
      exact Function.update_self Tid.io (some s.heap.length) s.inHand
    have hnew : y.2.reply? y.1 = q.reply? := by
      unfold Session.reply?
      rw [(perform_newPdu h).2]
    have hbefore : (s.inHand .io).toList.filterMap s.reply? = [] := by
      refine List.filterMap_eq_nil_iff.mpr fun r hr => hR.hands .io r ha.1 ?_
      exact Option.mem_toList.mp hr
    rw [Function.update_self, hnow, Option.toList_some, List.filterMap_cons, hnew, hbefore]
    cases hq : q.reply? with
    | none =>
        have hnext : replying.next (x .io) (.newPdu q) y.1 = x .io := if_pos hq
        rw [hnext]
        rfl
    | some a =>
        have hnext : replying.next (x .io) (.newPdu q) y.1 = .made := by
          show (if q.reply? = none then x .io else .made) = .made
          rw [hq]
          rfl
        rw [hnext, ha.2 a hq]
        rfl
  · rw [Function.update_of_ne (Ne.symm ht), (perform_local h (Ne.symm ht)).2.1]
    congr 1
    refine List.filterMap_congr fun r hr => reply?_perform h (hi.fresh r (.inl ⟨.io, ?_⟩))
    exact Option.mem_toList.mp hr

/-- **An answer that has been made is pushed** on the level it belongs to. -/
theorem answering_txPush {g : Guard Op Tid Session Job} {r : Ref} {l : Level} {y : Unit × Session}
    (hS : s.Spent) (hR : s.Replies x) (hg : (known cfg g).op t (.txPush r l) s)
    (ha : replying.allows (x t) (.txPush r l)) (h : perform cfg t (.txPush r l) s = some y) :
    Pipeline.Steps (s.answering (x .io))
      (y.2.answering (Function.update x t (replying.next (x t) (.txPush r l) y.1) .io)) := by
  have hcalled : y.2.calledFor = s.calledFor := calledFor_same h (by simp)
  have htag : y.2.reply? = s.reply? := by cases h; rfl
  have hin : y.2.inHand = Function.update s.inHand t none := by cases h; rfl
  have hk : s.Pushable t r l := (known_known hg).2
  unfold Session.answering
  rw [hcalled, htag, hin]
  refine pipeline_txPush h ?_
  by_cases hmade : x t = .made
  · -- the io thread has it in hand
    have ht : t = .io := by
      by_contra ht
      rw [hR.others t ht] at hmade
      cases hmade
    subst ht
    have hl := ha hmade
    have hr : s.inHand .io = some r := hk.resolve_right fun hio => by
      rw [hl] at hio
      cases hio.2.1
    have hnext : replying.next (x .io) (.txPush r l) y.1 = .idle := if_pos hmade
    rw [Function.update_self, Function.update_self, hnext, hmade, hr]
    split
    · cases hq : s.reply? r <;> simp [Replying.owed, hq]
    · exact List.nil_sublist _
  · -- nothing else that is pushed for the first time is an answer
    have hnil : (if l = .RESPONSE ∧ r ∉ s.touched then (s.reply? r).toList else []) = [] := by
      refine ite_eq_right_iff.mpr fun hr => ?_
      rcases hk with hin | ⟨-, -, haw⟩
      · rw [hR.hands t r hmade hin]
        rfl
      · exact absurd (hS.awaits r haw) hr.2
    have hnext : replying.next (x t) (.txPush r l) y.1 = x t := if_neg hmade
    rw [hnil, hnext, Function.update_eq_self, List.nil_append]
    refine List.Sublist.append_right (List.Sublist.filterMap _ ?_) _
    by_cases ht : t = .io
    · subst ht
      rw [Function.update_self]
      exact List.nil_sublist _
    · rw [Function.update_of_ne (Ne.symm ht)]

/-- **What an operation does to the pipeline.** -/
theorem answering_step {g : Guard Op Tid Session Job} {op : Op} {y : op.Res × Session} (hi : Inv s)
    (hH : s.Holds) (hS : s.Spent) (hR : s.Replies x) (hg : (known cfg g).op t op s)
    (ha : replying.allows (x t) op) (h : perform cfg t op s = some y) :
    Pipeline.Steps (s.answering (x .io))
      (y.2.answering (Function.update x t (replying.next (x t) op y.1) .io)) := by
  by_cases hnote : ∃ raw st, op = .note (.received raw st)
  · obtain ⟨raw, st, rfl⟩ := hnote
    have ht : t = .io := Op.io_of_mayRun (known_mayRun hg) rfl
    subst ht
    rw [Function.update_self]
    exact answering_received _ h
  by_cases hnew : ∃ q, op = .newPdu q
  · obtain ⟨q, rfl⟩ := hnew
    exact answering_newPdu hi hR hg ha h
  by_cases hpush : ∃ r l, op = .txPush r l
  · obtain ⟨r, l, rfl⟩ := hpush
    exact answering_txPush hS hR hg ha h
  -- all other operations leave the position and what is made
  have hnext : replying.next (x t) op y.1 = x t := replying_next_same
    (fun raw st hop => hnote ⟨raw, st, hop⟩) (fun q hop => hnew ⟨q, hop⟩) fun r l hop => hpush ⟨r, l, hop⟩
  have hcalled : y.2.calledFor = s.calledFor := calledFor_same h fun raw st hop => hnote ⟨raw, st, hop⟩
  have hin : y.2.inHand .io = s.inHand .io := inHand_io h (known_mayRun hg)
    (fun _ q hop => hnew ⟨q, hop⟩) fun _ r l hop => hpush ⟨r, l, hop⟩
  have hqueued : ∀ r, y.2.Queued r → y.2.reply? r = s.reply? r := by
    intro r hr
    rcases queued_perform h (known_known hg) hr with hr | ⟨l, rfl⟩
    · exact reply?_perform h (hi.queued r hr)
    · exact absurd ⟨r, l, rfl⟩ hpush
  have hhand : (s.inHand .io).toList.filterMap y.2.reply? = (s.inHand .io).toList.filterMap s.reply? :=
    List.filterMap_congr fun r hr =>
      reply?_perform h (hi.fresh r (.inl ⟨.io, Option.mem_toList.mp hr⟩))
  have hpos : Function.update x t (replying.next (x t) op y.1) .io = x .io := by
    rw [hnext, Function.update_eq_self]
  unfold Session.answering
  rw [hpos, hcalled, hin, hhand, pipeline_tag hqueued]
  exact pipeline_perform h hi (known_known hg) hH hS hR.levels (fun r l hop => hpush ⟨r, l, hop⟩)
    (List.Sublist.refl _)

/-! ### The environment and the start of jobs -/

/-- Where no PDU moves, the answers stay where they are. -/
theorem answering_same (hw : s'.written = s.written) (hp : s'.pdu2send = s.pdu2send)
    (hq : s'.txQ = s.txQ) (hin : s'.inHand = s.inHand)
    (htag : ∀ r, r < s.heap.length → s'.reply? r = s.reply? r) (hcalled : s'.calledFor = s.calledFor)
    (hbuf : ∀ r ∈ s'.sendingBuffer, r ∈ s.sendingBuffer ∨ s'.reply? r = none) (hi : Inv s)
    (hR : s.Replies x) : s'.answering (x .io) = s.answering (x .io) ∧ s'.Replies x := by
  have hpopped : s'.touched = s.touched := by
    unfold Session.touched Session.popped
    rw [hw, hp]
  constructor
  · have hhand : (s.inHand .io).toList.filterMap s'.reply? = (s.inHand .io).toList.filterMap s.reply? :=
      List.filterMap_congr fun r hr => htag r (hi.fresh r (.inl ⟨.io, Option.mem_toList.mp hr⟩))
    unfold Session.answering
    rw [pipeline_same hw hp hq, hcalled, hin, hhand,
      pipeline_tag fun r hr => htag r (hi.queued r hr)]
  · refine ⟨hR.others, fun u r hu hr => ?_, fun r hr => ?_, fun i hne r hr hans => ?_⟩
    · rw [hin] at hr
      rw [htag r (hi.fresh r (.inl ⟨u, hr⟩))]
      exact hR.hands u r hu hr
    · rcases hbuf r hr with hr | hr
      · rw [htag r (hi.fresh r (.inr hr))]
        exact hR.buffer r hr
      · exact hr
    · rw [hq] at hr
      rw [htag r (hi.queued r (.waiting ⟨i, hr⟩))] at hans
      rw [hpopped]
      exact hR.levels i hne r hr hans

/-- What is submitted is no answer. -/
theorem sendingBuffer_env {e : Env} (h : e.perform cfg s = some s') {r : Ref}
    (hr : r ∈ s'.sendingBuffer) : r ∈ s.sendingBuffer ∨ s'.reply? r = none := by
  cases e with
  | submit body =>
      cases h
      rcases List.mem_append.mp hr with hr | hr
      · exact .inl hr
      · rw [List.mem_singleton.mp hr]
        right
        show ((s.heap ++ [(⟨.SubmitSm, ESME_ROK, cfg.newSeq, .octets body, none⟩ : Pdu)]).getD
          s.heap.length _).reply? = none
        simp [Pdu.reply?]
  | complete io raw er =>
      obtain ⟨-, rfl⟩ := Env.perform_complete h
      unfold Session.connectDone at hr
      split at hr <;> exact .inl hr
  | expire tm =>
      obtain ⟨-, rfl⟩ := Env.perform_expire h
      exact .inl hr
  | elapse us => cases h; exact .inl hr
  | reply a => cases h; exact .inl hr

/-- The environment leaves the answers and what has called for them. -/
theorem answering_env {e : Env} (hi : Inv s) (hR : s.Replies x) (h : e.perform cfg s = some s') :
    s'.answering (x .io) = s.answering (x .io) ∧ s'.Replies x := by
  have hlogs : (e.logs s).filterMap Event.calledFor? = [] := by
    unfold Env.logs
    split <;> rfl
  have hcalled : s'.calledFor = s.calledFor := by
    unfold Session.calledFor
    rw [env_hist h, List.filterMap_append, hlogs, List.nil_append]
  have htag : ∀ r, r < s.heap.length → s'.reply? r = s.reply? r := fun r hr => by
    unfold Session.reply?
    rw [(pdu_env h).2 r hr]
  exact answering_same (written_env h) (env_same (f := .pdu2send) h (by simp))
    (env_same (f := .txQ) h (by simp)) (env_same (f := .inHand) h (by simp)) htag hcalled
    (fun _ => sendingBuffer_env h) hi hR

/-- The start of a job leaves the answers and what has called for them. -/
theorem answering_take {j : Job} (hi : Inv s) (hR : s.Replies x) (h : j.take s = some s') :
    s'.answering (x .io) = s.answering (x .io) ∧ s'.Replies x := by
  have hlogs : j.logs.filterMap Event.calledFor? = [] := by cases j <;> rfl
  have hcalled : s'.calledFor = s.calledFor := by
    unfold Session.calledFor
    rw [take_hist h, List.filterMap_append, hlogs, List.nil_append]
  have htag : ∀ r, r < s.heap.length → s'.reply? r = s.reply? r := fun r _ => by
    unfold Session.reply?
    rw [(pdu_take h).2 r]
  have hbuf : s'.sendingBuffer = s.sendingBuffer := take_same (f := .sendingBuffer) h (by simp)
  exact answering_same (written_take h) (take_same (f := .pdu2send) h (by simp))
    (take_same (f := .txQ) h (by simp)) (take_same (f := .inHand) h (by simp)) htag hcalled
    (fun _ hr => .inl (hbuf ▸ hr)) hi hR

/-! ## The order -/

variable {p : Persisted} {now : Nat}

/-- What an earlier process has left answers nothing. -/
theorem reply?_init (r : Ref) : (Session.init p now).reply? r = none := by
  have hanswers : ((Session.init p now).pdu r).answers = none := by
    show (p.heap.getD r _).answers = none
    rw [List.getD_eq_getElem?_getD]
    unfold Persisted.heap
    rw [List.getElem?_map]
    cases (p.message ++ p.sending ++ p.recieve ++ p.rcvErr ++ p.session ++ p.response)[r]? <;> rfl
  unfold Session.reply? Pdu.reply?
  rw [hanswers]
  split <;> rfl

/-- At the start nothing has been answered, and no answer is on its way. -/
theorem replies_init (p : Persisted) (now : Nat) : (Session.init p now).Replies fun _ => .idle :=
  ⟨fun _ _ => rfl, fun _ r _ _ => reply?_init r, fun r _ => reply?_init r,
    fun _ _ r _ htag => absurd (reply?_init r) htag⟩

variable {c : Machine}

/-- **The way of the answers is a pipeline** in every run. -/
theorem Runs.answering (h : Runs cfg Guard.free p now c) : ∃ x : Tid → Replying, c.shared.Replies x ∧
    Pipeline.Steps ((Session.init p now).answering .idle) (c.shared.answering (x .io)) := by
  have hidle : ∀ t, ((Machine.init p now).code t).Follows replying (fun _ y => y ≠ .made) .idle :=
    fun _ => by simp [Machine.init, Prog.Follows]
  have hrun := Reach.protocolWith (I := fun _ y => y ≠ .made)
    (J := fun s => Inv s ∧ s.Holds ∧ s.Spent)
    (K := fun s x => s.Replies x ∧
      Pipeline.Steps ((Session.init p now).answering .idle) (s.answering (x .io)))
    ?_ hidle (fun j x hx => answering_body j hx) ⟨replies_init p now, .refl⟩ ?_ ?_ ?_ h.knowing
  · obtain ⟨x, hK, -⟩ := hrun
    exact ⟨x, hK⟩
  · intro c hc
    have hc : Runs cfg Guard.free p now c :=
      hc.mono fun _ _ hm => Guard.also_allows (Guard.also_allows hm)
    exact ⟨hc.inv, hc.holds, hc.spent⟩
  · rintro t op s x y ⟨hi, hH, hS⟩ ⟨hR, hsteps⟩ hg ha hx
    obtain ⟨-, hx⟩ := perform_of_exec hx
    exact ⟨replies_perform hi hS hR hg ha hx, hsteps.trans (answering_step hi hH hS hR hg ha hx)⟩
  · rintro e s s' x ⟨hi, -, -⟩ ⟨hR, hsteps⟩ hx
    obtain ⟨hsame, hR'⟩ := answering_env hi hR hx
    exact ⟨hR', hsame ▸ hsteps⟩
  · rintro j s s' x ⟨hi, -, -⟩ ⟨hR, hsteps⟩ - hx
    obtain ⟨hsame, hR'⟩ := answering_take hi hR hx
    exact ⟨hR', hsame ▸ hsteps⟩

end KissSmpp
