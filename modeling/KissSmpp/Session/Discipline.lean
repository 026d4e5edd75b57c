import KissSmpp.Session.Flight

/-! # The discipline of the code

What holds of every operation the code performs, whatever the other threads do meanwhile: which
thread performs it, what it has locked, and what it knows of the PDUs it moves. `Known` collects these
facts, `Inv` the invariant they keep, and `Relies` what a thread may rely on between two of its
operations. The step lemmas `inv_perform` and `relies_perform` tie the three together: an operation
that finds its facts keeps the invariant and stays within what the other threads rely on. -/

namespace KissSmpp

open Interleave Queue

/-! ## Vocabulary -/

/-- A PDU that is not a response, as `w4rQ_put` tells them apart. -/
def Pdu.IsRequest (p : Pdu) : Prop := p.commandId.value < CommandId.BindReceiverResp.value

/-- Whether a PDU is a request can be read off its command id. -/
instance (p : Pdu) : Decidable p.IsRequest :=
  inferInstanceAs (Decidable (p.commandId.value < CommandId.BindReceiverResp.value))

namespace Session

/-- The io thread runs the `handle_write` of a write that succeeded. -/
def InHandleWrite (s : Session) : Prop := ∃ r, s.running = some (.handleWrite r .success)

/-- The io thread is in one of the two handlers that reconnect, past its test of `stopFlag`. -/
def Connecting (s : Session) : Prop :=
  s.pastStopTest = true ∧
    (s.running = some .closeConnection ∨ ∃ e, s.running = some (.handleConnect e))

/-- **The PDU has been through the transmit queue**, or is in it. -/
inductive Queued (s : Session) (r : Ref) : Prop
  | waiting (h : r ∈ s.txQ)
  | slot (h : s.slot = some r)
  | flight (h : r ∈ s.inFlight)
  | awaiting (h : s.Awaits r)
  | pushed (l : Level) (h : .pushed r l ∈ s.hist)
  | wrote (tbuf : Pdu) (st : State) (conn : Option Nat) (h : .wrote r tbuf st conn ∈ s.hist)

/-- **The PDU is not part of the session yet**: a thread has it in hand, or it is in the sending
buffer. -/
def Fresh (s : Session) (r : Ref) : Prop :=
  (∃ t, s.inHand t = some r) ∨ r ∈ s.sendingBuffer

/-- The PDU is on its way to the peer. -/
def OnWay (s : Session) (r : Ref) : Prop := r ∈ s.txQ ∨ r ∈ s.inFlight

/-- What a thread may push on a level of the transmit queue: the PDU it has in hand, and the io thread
also a PDU that awaits its response. -/
def Pushable (s : Session) (t : Tid) (r : Ref) (l : Level) : Prop :=
  s.inHand t = some r ∨ (t = .io ∧ l = .MESSAGE ∧ s.Awaits r)

end Session

/-! ## Which thread performs what -/

/-- The operations only the io thread performs. -/
@[simp] def Op.onIo : Op → Bool
  | .setState _ | .getStopFlag | .getReconnectFlag | .txClear _ | .txLastPop | .txPushBackLastPop
  | .w4rSize | .w4rKeys | .w4rAt _ | .w4rInsert _ | .w4rAnswer _ _ | .w4rEraseFound _ | .asyncConnect
  | .asyncReadHeader | .asyncReadBody _ | .socketClose | .cancel _ | .arm _ | .retire
  | .setStopFlag false | .note (.received _ _) | .note .staleIterator => true
  | _ => false

/-- The operations only `sendingProcessor` performs. -/
@[simp] def Op.onSender : Op → Bool
  | .sendEmpty | .sendPop | .sendDone => true
  | _ => false

/-- The operations only `recieveProcessor` performs. -/
@[simp] def Op.onReceiver : Op → Bool
  | .rxEmpty | .rxPop | .rxDone | .errPush _ | .takeReply | .note (.delivered _) => true
  | _ => false

/-- The operations of `close_session`, which run on the io thread or on the thread that stops the
session. -/
@[simp] def Op.onCloser : Op → Bool
  | .setReconnectFlag _ | .postClose | .newPdu _ => true
  | _ => false

/-- The operations only the thread that stops the session performs. -/
@[simp] def Op.onStopper : Op → Bool
  | .setStopFlag true | .note .stopReturned => true
  | _ => false

/-- **Which thread performs which operation.** -/
def Op.mayRun (t : Tid) (op : Op) : Bool :=
  (!op.onIo || t == .io) && (!op.onSender || t == .sender) && (!op.onReceiver || t == .receiver) &&
    (!op.onCloser || t == .io || t == .stopper) && (!op.onStopper || t == .stopper)

namespace Op

variable {t : Tid} {op : Op}

/-- The table of threads, read off. -/
theorem mayRun_iff : op.mayRun t = true ↔
    (op.onIo = true → t = .io) ∧ (op.onSender = true → t = .sender) ∧
      (op.onReceiver = true → t = .receiver) ∧ (op.onCloser = true → t = .io ∨ t = .stopper) ∧
      (op.onStopper = true → t = .stopper) := by
  simp only [mayRun, Bool.and_eq_true, Bool.or_eq_true, Bool.not_eq_true', beq_iff_eq, or_assoc,
    and_assoc]
  simp only [← Bool.not_eq_true, ← imp_iff_not_or]

/-- What is reserved to the io thread is performed there only. -/
theorem io_of_mayRun (h : op.mayRun t = true) (ho : op.onIo = true) : t = .io :=
  (mayRun_iff.mp h).1 ho

@[inherit_doc io_of_mayRun]
theorem onIo_of_ne (h : op.mayRun t = true) (ht : t ≠ .io) : op.onIo = false :=
  Bool.eq_false_iff.mpr fun ho => ht (io_of_mayRun h ho)

/-- What is reserved to `sendingProcessor` is performed there only. -/
theorem sender_of_mayRun (h : op.mayRun t = true) (ho : op.onSender = true) : t = .sender :=
  (mayRun_iff.mp h).2.1 ho

/-- What is reserved to `recieveProcessor` is performed there only. -/
theorem receiver_of_mayRun (h : op.mayRun t = true) (ho : op.onReceiver = true) : t = .receiver :=
  (mayRun_iff.mp h).2.2.1 ho

/-- `close_session` runs on two threads only. -/
theorem closer_of_mayRun (h : op.mayRun t = true) (ho : op.onCloser = true) :
    t = .io ∨ t = .stopper :=
  (mayRun_iff.mp h).2.2.2.1 ho

/-- What is reserved to the thread that stops the session is performed there only. -/
theorem stopper_of_mayRun (h : op.mayRun t = true) (ho : op.onStopper = true) : t = .stopper :=
  (mayRun_iff.mp h).2.2.2.2 ho

end Op

/-- The io thread alone changes the state. -/
theorem currentState_other {op : Op} {t : Tid} {s : Session} {r : op.Res × Session}
    (h : perform cfg t op s = some r) (hm : op.mayRun t = true) (ht : t ≠ .io) :
    r.2.currentState = s.currentState := by
  refine perform_currentState h ?_
  rintro st rfl
  exact ht (Op.io_of_mayRun hm rfl)

/-! ## What is known of an operation -/

/-- **What thread `t` knows when it performs `op`.** -/
def Known (t : Tid) (op : Op) (s : Session) : Prop :=
  match op with
  | .lock .writeMutex => t = .io → s.InHandleWrite → s.handling ≠ none
  | .unlock .writeMutex => s.owner .writeMutex = some t
  | .txEmpty =>
      s.owner .writeMutex = some t ∧ s.phase t = .locked ∧
        (t = .io → s.InHandleWrite → s.handling = none)
  | .txPush r l => s.owner .writeMutex = some t ∧ s.Pushable t r l
  | .txPop =>
      s.owner .writeMutex = some t ∧ s.pdu2send t = none ∧
        (s.phase t = .found true ∨
          t = .io ∧ s.phase t = .found false ∧ s.InHandleWrite ∧ s.handling = none ∧
            s.w4rQ.size < 10)
  | .txClear l => l ≠ .MESSAGE
  | .txPushBackLastPop => s.phase t = .outside ∧ s.handling ≠ none
  | .w4rInsert r =>
      s.InHandleWrite ∧ s.phase t = .locked ∧ s.handling ≠ none ∧ s.slot = some r
  | .w4rEraseFound r => s.OnWay r ∧ s.Awaits r
  | .newPdu p => ∀ n, p.answers = some n → p.sequenceNumber = n
  | .setSeq r _ =>
      s.owner .writeMutex = some t ∧ s.pdu2send t = some r ∧
        (s.pdu r).sequenceNumber ≤ SequenceNumber.Min
  | .asyncWrite r tbuf =>
      s.owner .writeMutex = some t ∧ s.pdu2send t = some r ∧ tbuf = s.pdu r
  | .asyncConnect => s.Connecting
  | .retire =>
      s.InHandleWrite ∧ s.phase t = .locked ∧
        (s.handling = none ∨ ∃ r, s.slot = some r ∧ ¬(s.pdu r).IsRequest)
  | _ => True

/-- **The invariant of the discipline**: only one thread is in the critical section of `writeMutex`,
there is a PDU popped last while any is in flight, and every reference denotes an object. -/
structure Inv (s : Session) : Prop where
  mutex : ∀ t, s.phase t ≠ .outside → s.owner .writeMutex = some t
  popped : ∀ r, r ∈ s.inFlight → s.slot ≠ none
  queued : ∀ r, s.Queued r → r < s.heap.length
  fresh : ∀ r, s.Fresh r → r < s.heap.length

/-- What the io thread relies on beyond what every thread does. -/
structure IoRelies (s s' : Session) : Prop where
  handling : s'.handling = s.handling
  running : s'.running = s.running
  w4rQ : s'.w4rQ = s.w4rQ
  pastStopTest : s'.pastStopTest = s.pastStopTest
  onWay : ∀ r, s.OnWay r → s'.OnWay r

/-- **What thread `t` relies on** between two of its operations. -/
structure Relies (t : Tid) (s s' : Session) : Prop where
  pdu2send : s'.pdu2send t = s.pdu2send t
  inHand : s'.inHand t = s.inHand t
  phase : s'.phase t = s.phase t
  heap : s.heap.length ≤ s'.heap.length
  owner : s.owner .writeMutex = some t → s'.owner .writeMutex = some t
  slot : s.owner .writeMutex = some t → s'.slot = s.slot
  pdu : s.owner .writeMutex = some t → ∀ r, r < s.heap.length → s'.pdu r = s.pdu r
  io : t = .io → IoRelies s s'

/-- A thread can rely on a session that has not moved. -/
theorem Relies.refl (t : Tid) (s : Session) : Relies t s s :=
  ⟨rfl, rfl, rfl, Nat.le_refl _, id, fun _ => rfl, fun _ _ _ => rfl, fun _ => ⟨rfl, rfl, rfl, rfl, fun _ => id⟩⟩

/-- What a thread relies on may happen any number of times. -/
theorem Relies.trans {t : Tid} {s₁ s₂ s₃ : Session} (h : Relies t s₁ s₂) (h' : Relies t s₂ s₃) :
    Relies t s₁ s₃ where
  pdu2send := h'.pdu2send.trans h.pdu2send
  inHand := h'.inHand.trans h.inHand
  phase := h'.phase.trans h.phase
  heap := Nat.le_trans h.heap h'.heap
  owner ho := h'.owner (h.owner ho)
  slot ho := (h'.slot (h.owner ho)).trans (h.slot ho)
  pdu ho r hr := (h'.pdu (h.owner ho) r (Nat.lt_of_lt_of_le hr h.heap)).trans (h.pdu ho r hr)
  io ht :=
    have hi := h.io ht
    have hi' := h'.io ht
    ⟨hi'.handling.trans hi.handling, hi'.running.trans hi.running, hi'.w4rQ.trans hi.w4rQ,
      hi'.pastStopTest.trans hi.pastStopTest, fun r hr => hi'.onWay r (hi.onWay r hr)⟩

/-! ## The step lemma -/

variable {cfg : Params} {t : Tid} {s : Session}

/-- A PDU in flight was so before, or has just been popped. -/
theorem mem_inFlight_perform {op : Op} {r : op.Res × Session} (h : perform cfg t op s = some r)
    (hk : Known t op s) {x : Ref} (hx : x ∈ r.2.inFlight) :
    x ∈ s.inFlight ∨ (op = .txPop ∧ s.txQ.pop.1 = some x) := by
  cases hstill : op.still with
  | true => exact .inl ((inFlight_still h hstill).mem_iff.mp hx)
  | false =>
      cases op with
      | txPop =>
          have hx := (inFlight_txPop h hk.2.1).mem_iff.mp hx
          rw [List.mem_append, Option.mem_toList] at hx
          exact hx.symm.imp_right fun hx => ⟨rfl, hx⟩
      | asyncWrite p tbuf => exact .inl ((inFlight_asyncWrite h hk.2.1).mem_iff.mp hx)
      | txPushBackLastPop =>
          exact .inl ((inFlight_deals h rfl).1.mem_iff.mpr (List.mem_append_right _ hx))
      | w4rInsert p =>
          exact .inl ((inFlight_deals h rfl).1.mem_iff.mpr (List.mem_append_right _ hx))
      | retire =>
          exact .inl ((inFlight_deals h rfl).1.mem_iff.mpr (List.mem_append_right _ hx))
      | _ => simp at hstill

/-- Once a PDU has been popped there always is one popped last. -/
theorem slot_ne_none_perform {op : Op} {r : op.Res × Session} (h : perform cfg t op s = some r)
    (hs : s.slot ≠ none ∨ (op = .txPop ∧ s.txQ.pop.1 ≠ none)) : r.2.slot ≠ none := by
  by_cases hop : op = .txPop
  · subst hop
    cases hp : s.txQ.pop.1 with
    | none =>
        -- the pop has changed nothing
        have hslot := hs.resolve_right fun hs => hs.2 hp
        cases h
        have hq : s.txQ.pop.2 = s.txQ := (PrioQ.pop_none (Prod.ext hp rfl)).2
        show s.txQ.pop.2.lastPop.map Prod.snd ≠ none
        rw [hq]
        exact hslot
    | some a =>
        rw [slot_txPop h hp]
        simp
  · rw [slot_same h hop]
    exact hs.resolve_right fun hs => hop hs.1

/-- A recorded push is an earlier one or the one just performed. -/
theorem pushed_perform {op : Op} {r : op.Res × Session} (h : perform cfg t op s = some r) {x : Ref}
    {l : Level} (hx : .pushed x l ∈ r.2.hist) : .pushed x l ∈ s.hist ∨ op = .txPush x l := by
  rw [perform_hist h, List.mem_append] at hx
  rcases hx with hx | hx
  · right
    cases op <;> simp at hx
    rw [hx.1, hx.2]
  · exact .inl hx

/-- A recorded write is an earlier one or the one just performed. -/
theorem wrote_perform {op : Op} {r : op.Res × Session} (h : perform cfg t op s = some r) {x : Ref}
    {tbuf : Pdu} {st : State} {conn : Option Nat} (hx : .wrote x tbuf st conn ∈ r.2.hist) :
    .wrote x tbuf st conn ∈ s.hist ∨ op = .asyncWrite x tbuf := by
  rw [perform_hist h, List.mem_append] at hx
  rcases hx with hx | hx
  · right
    cases op <;> simp at hx
    rw [hx.1, hx.2.1]
  · exact .inl hx

/-- **Nothing gets into the queue's reach** except by a push. -/
theorem queued_perform {op : Op} {r : op.Res × Session} (h : perform cfg t op s = some r)
    (hk : Known t op s) {x : Ref} (hx : r.2.Queued x) :
    s.Queued x ∨ ∃ l, op = .txPush x l := by
  cases hx with
  | waiting hx =>
      rcases mem_txQ_perform h hx with hx | ⟨l, rfl⟩ | ⟨-, hx⟩
      · exact .inl (.waiting hx)
      · exact .inr ⟨l, rfl⟩
      · exact .inl (.slot hx)
  | slot hx =>
      rcases slot_perform h hx with hx | ⟨-, hx⟩
      · exact .inl (.slot hx)
      · exact .inl (.waiting (PrioQ.mem_iff_pop.mpr (.inl hx)))
  | flight hx =>
      rcases mem_inFlight_perform h hk hx with hx | ⟨-, hx⟩
      · exact .inl (.flight hx)
      · exact .inl (.waiting (PrioQ.mem_iff_pop.mpr (.inl hx)))
  | awaiting hx =>
      rcases awaits_perform h hx with hx | rfl
      · exact .inl (.awaiting hx)
      · exact .inl (.slot hk.2.2.2)
  | pushed l hx =>
      rcases pushed_perform h hx with hx | rfl
      · exact .inl (.pushed l hx)
      · exact .inr ⟨l, rfl⟩
  | wrote tbuf st conn hx =>
      rcases wrote_perform h hx with hx | rfl
      · exact .inl (.wrote tbuf st conn hx)
      · exact .inl (.flight (Session.mem_inFlight.mpr (.inl ⟨t, hk.2.1⟩)))

/-- A PDU in the hand of a thread was there before, has just been constructed, or has just been taken
from the sending buffer. -/
theorem inHand_perform {op : Op} {r : op.Res × Session} (h : perform cfg t op s = some r) {u : Tid}
    {x : Ref} (hx : r.2.inHand u = some x) :
    s.inHand u = some x ∨ (u = t ∧ x = s.heap.length ∧ ∃ p, op = .newPdu p) ∨
      (u = t ∧ s.sendingBuffer.head? = some x ∧ op = .sendPop) := by
  by_cases hut : u = t
  · subst hut
    by_cases hw : Field.inHand ∈ op.writes
    · cases op with
      | txPush q l =>
          cases h
          simp [Session.record] at hx
      | newPdu p =>
          cases h
          exact .inr (.inl ⟨rfl, by simpa [Session.record] using hx.symm, p, rfl⟩)
      | sendPop =>
          cases h
          exact .inr (.inr ⟨rfl, by simpa using hx, rfl⟩)
      | sendDone =>
          cases h
          simp at hx
      | _ => simp at hw
    · have hin : r.2.inHand = s.inHand := perform_same (f := .inHand) h hw
      exact .inl (hin ▸ hx)
  · exact .inl ((perform_local h hut).2.1 ▸ hx)

/-- A thread gets a PDU to send by popping it. -/
theorem pdu2send_perform {op : Op} {x : op.Res × Session} (h : perform cfg t op s = some x) {u : Tid}
    {r : Ref} (hu : x.2.pdu2send u = some r) :
    s.pdu2send u = some r ∨ (op = .txPop ∧ u = t ∧ s.txQ.pop.1 = some r) := by
  by_cases hut : u = t
  · subst hut
    by_cases hw : Field.pdu2send ∈ op.writes
    · cases op with
      | txPop =>
          cases h
          have hp : Function.update s.pdu2send u s.txQ.pop.1 u = s.txQ.pop.1 :=
            Function.update_self ..
          exact .inr ⟨rfl, rfl, hp.symm.trans hu⟩
      | asyncWrite q tbuf =>
          cases h
          have hp : (({ s with pdu2send := Function.update s.pdu2send u none }.startIo
              (.write q)).record (.wrote q tbuf s.currentState
                (if s.isConnected then some s.connNo else none))).pdu2send =
              Function.update s.pdu2send u none :=
            Session.startIo_same (f := .pdu2send) _ (by decide)
          rw [hp, Function.update_self] at hu
          cases hu
      | _ => simp at hw
    · have hp : x.2.pdu2send = s.pdu2send := perform_same (f := .pdu2send) h hw
      exact .inl (hp ▸ hu)
  · exact .inl ((perform_local h hut).1 ▸ hu)

/-- The sending buffer changes only when its head is taken. -/
theorem sendingBuffer_perform {op : Op} {r : op.Res × Session} (h : perform cfg t op s = some r) :
    (r.2.sendingBuffer = s.sendingBuffer ∧ op ≠ .sendPop) ∨
      (r.2.sendingBuffer = s.sendingBuffer.tail ∧ op = .sendPop) := by
  by_cases hop : op = .sendPop
  · subst hop
    cases h
    exact .inr ⟨rfl, rfl⟩
  · refine .inl ⟨perform_same (f := .sendingBuffer) h ?_, hop⟩
    cases op <;> first | simp; done | exact absurd rfl hop

/-- A PDU is fresh because it was so before, or because its object has just been constructed. -/
theorem fresh_perform {op : Op} {r : op.Res × Session} (h : perform cfg t op s = some r) {x : Ref}
    (hx : r.2.Fresh x) : s.Fresh x ∨ (x = s.heap.length ∧ ∃ p, op = .newPdu p) := by
  rcases hx with ⟨u, hu⟩ | hx
  · rcases inHand_perform h hu with hu | ⟨-, rfl, hp⟩ | ⟨-, hhead, -⟩
    · exact .inl (.inl ⟨u, hu⟩)
    · exact .inr ⟨rfl, hp⟩
    · exact .inl (.inr (List.mem_of_mem_head? hhead))
  · rcases sendingBuffer_perform h with ⟨hbuf, -⟩ | ⟨hbuf, -⟩
    · exact .inl (.inr (hbuf ▸ hx))
    · exact .inl (.inr (List.mem_of_mem_tail (hbuf ▸ hx)))

/-- The heap only grows. -/
theorem heap_perform {op : Op} {r : op.Res × Session} (h : perform cfg t op s = some r) :
    s.heap.length ≤ r.2.heap.length := by
  by_cases hw : Field.heap ∈ op.writes
  · cases op with
    | newPdu p =>
        cases h
        simp [Session.record]
    | setSeq q n =>
        cases h
        simp
    | _ => simp at hw
  · have hq : r.2.heap = s.heap := perform_same (f := .heap) h hw
    exact Nat.le_of_eq (congrArg List.length hq.symm)

/-- An object only changes when its number is set. -/
theorem pdu_perform {op : Op} {r : op.Res × Session} (h : perform cfg t op s = some r) {x : Ref}
    (hx : x < s.heap.length) (hop : ∀ n, op ≠ .setSeq x n) : r.2.pdu x = s.pdu x := by
  by_cases hw : Field.heap ∈ op.writes
  · cases op with
    | newPdu p =>
        cases h
        simp [Session.pdu, Session.record, List.getElem?_append_left hx]
    | setSeq q n =>
        cases h
        have hqx : q ≠ x := fun hq => hop n (by rw [hq])
        simp [Session.pdu, hqx]
    | _ => simp at hw
  · have hq : r.2.heap = s.heap := perform_same (f := .heap) h hw
    unfold Session.pdu
    rw [hq]

/-- All that changes of an object is its number. -/
theorem pdu_perform_number {op : Op} {r : op.Res × Session} (h : perform cfg t op s = some r)
    {x : Ref} (hx : x < s.heap.length) : ∃ n, r.2.pdu x = { s.pdu x with sequenceNumber := n } := by
  by_cases hop : ∃ n, op = .setSeq x n
  · obtain ⟨n, rfl⟩ := hop
    cases h
    exact ⟨n, by simp [Session.pdu, hx]⟩
  · exact ⟨_, pdu_perform h hx fun n hn => hop ⟨n, hn⟩⟩

/-- No operation changes the command id of an object. -/
theorem commandId_perform {op : Op} {r : op.Res × Session} (h : perform cfg t op s = some r) {x : Ref}
    (hx : x < s.heap.length) : (r.2.pdu x).commandId = (s.pdu x).commandId := by
  obtain ⟨n, hn⟩ := pdu_perform_number h hx
  rw [hn]

/-- The mutex a thread holds is not taken from it. -/
theorem owner_perform {op : Op} {r : op.Res × Session} (h : perform cfg t op s = some r)
    (hk : Known t op s) {u : Tid} (hu : u ≠ t) (ho : s.owner .writeMutex = some u) :
    r.2.owner .writeMutex = some u := by
  by_cases hw : Field.owner ∈ op.writes
  · cases op with
    | lock m =>
        obtain ⟨hfree, rfl⟩ := perform_lock h
        have hm : Mutex.writeMutex ≠ m := by
          intro hm
          rw [← hm, ho] at hfree
          cases hfree
        show (Session.onWriteMutex _ m t .locked).owner .writeMutex = some u
        rw [Session.onWriteMutex, if_neg hm.symm]
        exact (Function.update_of_ne hm _ _).trans ho
    | unlock m =>
        cases h
        have hm : Mutex.writeMutex ≠ m := by
          intro hm
          subst hm
          have hown : s.owner .writeMutex = some t := hk
          rw [hown, Option.some.injEq] at ho
          exact hu ho.symm
        show (Session.onWriteMutex _ m t .outside).owner .writeMutex = some u
        rw [Session.onWriteMutex, if_neg hm.symm]
        exact (Function.update_of_ne hm _ _).trans ho
    | _ => simp at hw
  · have hq : r.2.owner = s.owner := perform_same (f := .owner) h hw
    rw [hq]
    exact ho

/-- The phase of the thread that performs the operation is one inside only while it holds the
mutex. -/
theorem phase_perform {op : Op} {r : op.Res × Session} (h : perform cfg t op s = some r)
    (hk : Known t op s) (hi : Inv s) (hp : r.2.phase t ≠ .outside) :
    r.2.owner .writeMutex = some t := by
  cases op with
  -- only a lock of `writeMutex` enters its critical section, and only an unlock of it leaves
  | lock m =>
      obtain ⟨hfree, rfl⟩ := perform_lock h
      by_cases hm : m = .writeMutex
      · subst hm
        exact Function.update_self Mutex.writeMutex (some t) s.owner
      · rw [Session.onWriteMutex, if_neg hm] at hp ⊢
        exact (Function.update_of_ne (Ne.symm hm) _ _).trans (hi.mutex t hp)
  | unlock m =>
      cases h
      by_cases hm : m = .writeMutex
      · subst hm
        have hout : Function.update s.phase t Phase.outside t = Phase.outside :=
          Function.update_self ..
        rw [Session.onWriteMutex, if_pos rfl] at hp
        exact absurd hout hp
      · rw [Session.onWriteMutex, if_neg hm] at hp ⊢
        exact (Function.update_of_ne (Ne.symm hm) _ _).trans (hi.mutex t hp)
  | txEmpty =>
      have ho : r.2.owner = s.owner := perform_same (f := .owner) h (by simp)
      rw [ho]
      exact hk.1
  | txPop =>
      have ho : r.2.owner = s.owner := perform_same (f := .owner) h (by simp)
      rw [ho]
      exact hk.1
  | _ =>
      have ho : r.2.owner = s.owner := perform_same (f := .owner) h (by simp)
      have hph : r.2.phase = s.phase := perform_same (f := .phase) h (by simp)
      rw [ho]
      exact hi.mutex t (hph ▸ hp)

/-- **An operation keeps the invariant.** -/
theorem inv_perform {op : Op} {r : op.Res × Session} (h : perform cfg t op s = some r)
    (hk : Known t op s) (hi : Inv s) : Inv r.2 := by
  refine ⟨fun u hu => ?_, fun x hx => ?_, fun x hx => ?_, fun x hx => ?_⟩
  · by_cases hut : u = t
    · subst hut; exact phase_perform h hk hi hu
    · rw [(perform_local h hut).2.2] at hu
      exact owner_perform h hk hut (hi.mutex u hu)
  · rcases mem_inFlight_perform h hk hx with hx | ⟨hop, hpop⟩
    · exact slot_ne_none_perform h (.inl (hi.popped x hx))
    · exact slot_ne_none_perform h (.inr ⟨hop, by rw [hpop]; simp⟩)
  · refine Nat.lt_of_lt_of_le ?_ (heap_perform h)
    rcases queued_perform h hk hx with hx | ⟨l, rfl⟩
    · exact hi.queued x hx
    · rcases hk.2 with hx | ⟨-, -, hx⟩
      · exact hi.fresh x (.inl ⟨t, hx⟩)
      · exact hi.queued x (.awaiting hx)
  · rcases fresh_perform h hx with hx | ⟨rfl, p, rfl⟩
    · exact Nat.lt_of_lt_of_le (hi.fresh x hx) (heap_perform h)
    · cases h
      simp [Session.record]

/-- A PDU stays in flight until `handle_write` deals with it. -/
theorem mem_inFlight_stays {op : Op} {r : op.Res × Session} (h : perform cfg t op s = some r)
    (hk : Known t op s) (hop : op.deals = false) {x : Ref} (hx : x ∈ s.inFlight) :
    x ∈ r.2.inFlight := by
  cases op with
  | txPop => exact (inFlight_txPop h hk.2.1).mem_iff.mpr (List.mem_append_right _ hx)
  | asyncWrite p tbuf => exact (inFlight_asyncWrite h hk.2.1).mem_iff.mpr hx
  | txPushBackLastPop => cases hop
  | w4rInsert p => cases hop
  | retire => cases hop
  | _ => exact (inFlight_still h rfl).mem_iff.mpr hx

/-- A PDU stays in the queue until it is popped, and is in flight then, unless its level is cleared. -/
theorem mem_txQ_stays {op : Op} {r : op.Res × Session} (h : perform cfg t op s = some r)
    (hk : Known t op s) {x : Ref} {i : Level} (hx : x ∈ s.txQ.level i) (hop : op ≠ .txClear i) :
    r.2.OnWay x := by
  have hmem : x ∈ s.txQ := ⟨i, hx⟩
  by_cases hw : Field.txQ ∈ op.writes
  · cases op with
    | txPush q l =>
        have hq : r.2.txQ = s.txQ.push q l := by cases h; rfl
        exact .inl (hq ▸ PrioQ.mem_push.mpr (.inl hmem))
    | txPop =>
        have hq : r.2.txQ = s.txQ.pop.2 := by cases h; rfl
        rcases PrioQ.mem_iff_pop.mp hmem with hpop | hrest
        · have hfl := inFlight_txPop h hk.2.1
          rw [hpop] at hfl
          exact .inr (hfl.mem_iff.mpr List.mem_cons_self)
        · exact .inl (hq ▸ hrest)
    | txClear l =>
        have hq : r.2.txQ = s.txQ.clear l := by cases h; rfl
        have hne : i ≠ l := fun hil => hop (by rw [hil])
        exact .inl (hq ▸ ⟨i, PrioQ.mem_level_clear.mpr ⟨hx, hne⟩⟩)
    | txPushBackLastPop =>
        have hq : r.2.txQ = s.txQ.pushBackLastPop cfg.pushBackFront := by cases h; rfl
        exact .inl (hq ▸ PrioQ.mem_pushBackLastPop.mpr (.inl hmem))
    | _ => simp at hw
  · have hq : r.2.txQ = s.txQ := perform_same (f := .txQ) h hw
    exact .inl (hq ▸ hmem)

/-- Only the io thread takes a PDU off its way. -/
theorem onWay_perform {op : Op} {r : op.Res × Session} (h : perform cfg t op s = some r)
    (hk : Known t op s) (hm : op.onIo = false) {x : Ref} (hx : s.OnWay x) : r.2.OnWay x := by
  rcases hx with ⟨i, hx⟩ | hx
  · refine mem_txQ_stays h hk hx fun hop => ?_
    subst hop
    cases hm
  · refine .inr (mem_inFlight_stays h hk ?_ hx)
    cases op <;> first | rfl | simp at hm

/-- **An operation stays within what the other threads rely on.** -/
theorem relies_perform {op : Op} {r : op.Res × Session} (h : perform cfg t op s = some r)
    (hk : Known t op s) (hm : op.mayRun t = true) {u : Tid} (hu : u ≠ t) : Relies u s r.2 where
  pdu2send := (perform_local h hu).1
  inHand := (perform_local h hu).2.1
  phase := (perform_local h hu).2.2
  heap := heap_perform h
  owner := owner_perform h hk hu
  slot ho := by
    refine slot_same h fun hop => ?_
    -- a pop is made by the thread that holds the mutex
    subst hop
    have hown : s.owner .writeMutex = some t := hk.1
    rw [hown, Option.some.injEq] at ho
    exact absurd ho.symm hu
  pdu ho x hx := by
    refine pdu_perform h hx fun n hop => ?_
    subst hop
    have hown : s.owner .writeMutex = some t := hk.1
    rw [hown, Option.some.injEq] at ho
    exact absurd ho.symm hu
  io hio := by
    subst hio
    -- the operation is not one of the io thread's
    have hnio : op.onIo = false := Op.onIo_of_ne hm hu.symm
    refine ⟨perform_same (f := .handling) h ?_, perform_same (f := .running) h ?_,
      perform_same (f := .w4rQ) h ?_, perform_same (f := .pastStopTest) h ?_,
      fun x => onWay_perform h hk hnio⟩
    · cases op <;> first | simp; done | simp at hnio
    · cases op <;> simp
    · cases op <;> first | simp; done | simp at hnio
    · cases op <;> first | simp; done | simp at hnio

end KissSmpp
