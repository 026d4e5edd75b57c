import KissSmpp.Session.Alone
import KissSmpp.Session.Counting

/-! # Outstanding requests have distinct numbers

`w4rQ` is keyed by sequence number, so a request that awaits its response is lost from it when another
one with the same number is recorded. That does not happen until the generator starts over. -/

namespace KissSmpp

open Interleave Queue

variable {cfg : Params} {t : Tid} {s : Session} {p : Persisted} {now : Nat} {c : Machine}

/-! ## A backlog on the message level -/

/-- **A session with a backlog** from an earlier process: nothing is ever popped, because the queue never
becomes empty, and so nothing is written and nothing awaits a response. -/
structure Backlogged (s : Session) : Prop where
  backlog : ∃ r, r ∈ s.txQ.level .MESSAGE
  found : ∀ u, s.phase u ≠ .found true
  flight : ∀ r, r ∉ s.inFlight
  running : ¬s.InHandleWrite
  w4rQ : ∀ k : Nat, s.w4rQ[k]? = none

namespace Backlogged

/-- A queue with a backlog is not empty. -/
theorem not_empty (hB : Backlogged s) : s.txQ.empty ≠ true := by
  intro hempty
  obtain ⟨r, hr⟩ := hB.backlog
  rw [PrioQ.empty_iff.mp hempty .MESSAGE] at hr
  cases hr

/-- No thread gets to pop. -/
theorem no_pop (hB : Backlogged s) : ¬Known t .txPop s := by
  rintro ⟨-, -, hfound | ⟨-, -, hhw, -⟩⟩
  · exact hB.found t hfound
  · exact hB.running hhw

/-- An operation leaves the backlog. -/
theorem backlog_perform {op : Op} {r : op.Res × Session} (hB : Backlogged s) (hk : Known t op s)
    (h : perform cfg t op s = some r) : ∃ q, q ∈ r.2.txQ.level .MESSAGE := by
  obtain ⟨q, hq⟩ := hB.backlog
  refine ⟨q, ?_⟩
  by_cases hw : Field.txQ ∈ op.writes
  · cases op with
    | txPush q' l =>
        cases h
        exact PrioQ.mem_level_push.mpr (.inl hq)
    | txPop => exact absurd hk hB.no_pop
    | txClear l =>
        cases h
        exact PrioQ.mem_level_clear.mpr ⟨hq, Ne.symm hk⟩
    | txPushBackLastPop =>
        -- nothing is in flight that could be put back
        obtain ⟨q', hq'⟩ := Option.ne_none_iff_exists'.mp hk.2
        exact absurd (Session.mem_inFlight.mpr (.inr (.inr hq'))) (hB.flight q')
    | _ => simp at hw
  · have hsame : r.2.txQ = s.txQ := perform_same (f := .txQ) h hw
    rw [hsame]
    exact hq

/-- **An operation keeps it so.** -/
theorem perform {op : Op} {r : op.Res × Session} (hB : Backlogged s) (hk : Known t op s)
    (h : perform cfg t op s = some r) : Backlogged r.2 := by
  have hrun : r.2.running = s.running := perform_running h
  refine ⟨hB.backlog_perform hk h, fun u hu => ?_, fun q hq => ?_, ?_, fun k => ?_⟩
  · rcases found_or_empty h hu with hold | ⟨-, hempty⟩
    · exact hB.found u hold
    · exact hB.not_empty hempty
  · rcases mem_inFlight_perform h hk hq with hold | ⟨rfl, -⟩
    · exact hB.flight q hold
    · exact hB.no_pop hk
  · unfold Session.InHandleWrite
    rw [hrun]
    exact hB.running
  · by_contra hne
    obtain ⟨e, he⟩ := Option.ne_none_iff_exists'.mp hne
    rcases entry_perform h he with hold | ⟨rfl, -⟩
    · rw [hB.w4rQ k] at hold
      cases hold
    · exact hB.running hk.1

/-- The environment keeps the backlog. -/
theorem env {e : Env} {s' : Session} (hB : Backlogged s) (h : e.perform cfg s = some s') :
    Backlogged s' := by
  have hq : s'.txQ = s.txQ := env_same (f := .txQ) h (by simp)
  have hph : s'.phase = s.phase := env_same (f := .phase) h (by simp)
  have hrun : s'.running = s.running := env_same (f := .running) h (by simp)
  have hw : s'.w4rQ = s.w4rQ := env_same (f := .w4rQ) h (by simp)
  refine ⟨?_, ?_, fun q hq => hB.flight q ((inFlight_env h).mem_iff.mp hq), ?_, ?_⟩
  · rw [hq]
    exact hB.backlog
  · rw [hph]
    exact hB.found
  · unfold Session.InHandleWrite
    rw [hrun]
    exact hB.running
  · rw [hw]
    exact hB.w4rQ

/-- The start of a job keeps the backlog: no `handle_write` is waiting. -/
theorem take {j : Job} {s' : Session} (hB : Backlogged s) (hidle : Quiet j.thread s)
    (h : j.take s = some s') : Backlogged s' := by
  have hq : s'.txQ = s.txQ := take_same (f := .txQ) h (by simp)
  have hph : s'.phase = s.phase := take_same (f := .phase) h (by simp)
  have hw : s'.w4rQ = s.w4rQ := take_same (f := .w4rQ) h (by simp)
  refine ⟨?_, ?_, fun q hq => hB.flight q (mem_inFlight_take h hidle hq), ?_, ?_⟩
  · rw [hq]
    exact hB.backlog
  · rw [hph]
    exact hB.found
  · rintro ⟨q, hq⟩
    cases j with
    | handler h' =>
        obtain ⟨hmem, rfl⟩ := Job.take_handler h
        obtain rfl : h' = .handleWrite q .success := Option.some.inj hq
        refine hB.flight q (Session.mem_inFlight.mpr (.inr (.inl ?_)))
        exact List.mem_append_right _ (List.mem_filterMap.mpr ⟨_, hmem, rfl⟩)
    | send => cases h; exact hB.running ⟨q, hq⟩
    | receive => cases h; exact hB.running ⟨q, hq⟩
    | stop => cases h; exact hB.running ⟨q, hq⟩
  · rw [hw]
    exact hB.w4rQ

end Backlogged

/-- **A backlog stays** for the whole run. -/
theorem Runs.backlogged {g : Guard Op Tid Session Job} (hmsg : p.message ≠ [])
    (h : Runs cfg g p now c) : Backlogged c.shared := by
  refine h.data ⟨⟨0, ?_⟩, fun _ hu => ?_, fun q hq => ?_, ?_, fun k => rfl⟩ ?_ ?_ ?_
  · show (0 : Nat) ∈ Persisted.refs 0 p.message
    rw [Persisted.refs, List.mem_range'_1]
    have := List.length_pos_iff.mpr hmsg
    omega
  · cases hu
  · have hflight : (Session.init p now).inFlight = [] := rfl
    rw [hflight] at hq
    cases hq
  · rintro ⟨q, hq⟩
    cases hq
  · exact fun t op s x _ hB _ _ hk hx => hB.perform hk hx
  · exact fun e s s' _ hB hx => hB.env hx
  · exact fun j s s' _ hidle hB _ hx => hB.take hidle hx

/-! ## Distinct numbers -/

/-- Two requests that have been given the same number are the same. -/
theorem Assigned.eq_of_number {x : Tid → Tally} (hA : Assigned s x) {r r' : Ref} (hr : s.Outgoing r)
    (hr' : s.Outgoing r') (hn : HasNumber s x r) (hn' : HasNumber s x r')
    (heq : (s.pdu r).sequenceNumber = (s.pdu r').sequenceNumber) : r = r' := by
  by_cases hlow : SequenceNumber.Min < (s.pdu r).sequenceNumber
  · exact hA.unique r r' hr hr' hlow heq
  · obtain ⟨u, hu⟩ := hn.resolve_left hlow
    obtain ⟨u', hu'⟩ := hn'.resolve_left (heq ▸ hlow)
    exact hA.firstOnly u u' r r' hu hu'

/-- What awaits a response has been given a number. -/
theorem Assigned.hasNumber_entry {x : Tid → Tally} (hA : Assigned s x) {k : Nat} {e : TimeStampedPdu}
    (he : s.w4rQ[k]? = some e) : HasNumber s x e.obj := by
  rcases (hA.entry k e he).2 with ⟨-, hn⟩ | ⟨-, hfirst⟩
  · exact hn
  · exact .inr hfirst

/-- **Outstanding requests have distinct numbers** in every run in which the generator does not start
over: `w4rQ_put` never replaces an entry of another PDU, and two entries of `w4rQ` with PDUs of the same
number belong to the same PDU. -/
theorem outstanding_numbers_distinct (hnew : cfg.newSeq ≤ SequenceNumber.Min)
    (hsend : ∀ q ∈ p.sending, q.sequenceNumber ≤ SequenceNumber.Min)
    (h : Runs cfg neverWraps p now c) :
    (∀ t r k, c.code t = .step (.w4rInsert r) k → c.shared.fault = none →
      ∀ e, c.shared.w4rQ[(c.shared.pdu r).sequenceNumber]? = some e → e.obj = r) ∧
    ∀ (k k' : Nat) (e e' : TimeStampedPdu), c.shared.w4rQ[k]? = some e →
      c.shared.w4rQ[k']? = some e' →
      (c.shared.pdu e.obj).sequenceNumber = (c.shared.pdu e'.obj).sequenceNumber →
        e.obj = e'.obj := by
  -- the numbers are counted from an empty queue; with a backlog nothing is ever recorded
  by_cases hmsg : p.message = []
  · obtain ⟨x, ⟨hG, hK, hA⟩, hfol⟩ := h.counted hnew hmsg hsend
    have hi : Inv c.shared := h.inv
    have hawaits : ∀ (k : Nat) (e : TimeStampedPdu), c.shared.w4rQ[k]? = some e →
        c.shared.Outgoing e.obj := by
      intro k e he
      have hq : c.shared.Queued e.obj := .awaiting ⟨k, e, he, rfl⟩
      exact ⟨.inl hq, (hA.entry k e he).1, hK.queued _ hq⟩
    refine ⟨fun t r k hcode hfault e he => ?_, fun k k' e e' he he' heq => ?_⟩
    · have hx : exec cfg t (.w4rInsert r) c.shared = perform cfg t (.w4rInsert r) c.shared :=
        if_pos hfault
      have hk : Known t (.w4rInsert r) c.shared := (h.known_next hcode hx).2
      have hfol := hfol t
      rw [hcode] at hfol
      have hqueued : c.shared.Queued r := .slot hk.2.2.2
      have hr : c.shared.Outgoing r := ⟨.inl hqueued, (hK.request t r hfol.1).2, hK.queued r hqueued⟩
      have hn := hasNumber_w4rInsert hi hK hA hk
      rcases (hA.entry _ e he).2 with ⟨heq, hn'⟩ | ⟨hlow, u, hu⟩
      · -- the entry has its own number, and so has the PDU that is inserted
        exact hA.eq_of_number (hawaits _ e he) hr hn' hn heq
      · -- both have been given the smallest number
        obtain ⟨u', hu'⟩ := hn.resolve_left (Nat.not_lt.mpr hlow)
        exact hA.firstOnly u u' e.obj r hu hu'
    · exact hA.eq_of_number (hawaits k e he) (hawaits k' e' he') (hA.hasNumber_entry he)
        (hA.hasNumber_entry he') heq
  · have hB := h.backlogged hmsg
    refine ⟨fun t r k _ _ e he => ?_, fun k k' e e' he => ?_⟩
    · rw [hB.w4rQ] at he
      cases he
    · rw [hB.w4rQ] at he
      cases he

/-- Two messages that await their responses. -/
theorem outstanding_numbers_distinct_two :
    ((Machine.after sampleParams .none
      (Schedule.bind ++ Schedule.sendWritten 1 ++ Schedule.sendWritten 2)).shared.pdu 1).sequenceNumber ≠
    ((Machine.after sampleParams .none
      (Schedule.bind ++ Schedule.sendWritten 1 ++ Schedule.sendWritten 2)).shared.pdu 2).sequenceNumber := by
  intro heq
  have hsame := (outstanding_numbers_distinct (Nat.le_refl _) (by simp [Persisted.none])
    (runs_under (g := neverWraps) (by decide +kernel))).2 3 4 ⟨1, 1⟩ ⟨2, 2⟩ (by decide +kernel)
    (by decide +kernel) heq
  exact absurd hsame (by decide)

/-! ## The generator starts over -/

/-- `throttle_check`, once the time of the next send has come. -/
theorem ends_throttleCheck (hf : s.fault = none) (hthrottle : s.throttleNextSendTime ≤ s.now) :
    (throttleCheck cfg).Ends (exec cfg t)
      (fun _ s' => s' = { s with throttleNextSendTime := s.now + cfg.timeBetweenSends }) s := by
  refine ends_call hf rfl (ends_call hf rfl ?_)
  show (Prog.when (decide (s.now < s.throttleNextSendTime)) _ >>= _).Ends _ _ _
  rw [decide_eq_false (Nat.not_lt.mpr hthrottle), Prog.when_false, Prog.ret_bind]
  exact .step ((if_pos hf).trans rfl) (.ret rfl)

/-- A thread that runs alone has written the PDU `q`, which had no number. -/
structure WrittenAlone (cfg : Params) (q : Ref) (s s' : Session) : Prop where
  fault : s'.fault = none
  owner : s'.owner = s.owner
  val : s'.mVal = following s.mVal
  pdu : s'.pdu q = { s.pdu q with sequenceNumber := issued s.mVal }
  heap : s'.heap.length = s.heap.length
  pending : s'.pending = s.pending ++ [.write q]
  throttle : s'.throttleNextSendTime = s.now + cfg.timeBetweenSends
  now : s'.now = s.now
  state : s'.currentState = s.currentState
  connected : s'.isConnected = true
  w4rQ : s'.w4rQ = s.w4rQ
  buffer : s'.sendingBuffer = s.sendingBuffer

variable (cfg t) in
/-- What `write_pdu` does with the PDU it has popped, by a thread that runs alone. -/
theorem ends_popped {q : Ref} (hf : s.fault = none) (hfree : s.owner .mMtx = none)
    (hconn : s.isConnected = true) (hq : q < s.heap.length)
    (hn : (s.pdu q).sequenceNumber ≤ SequenceNumber.Min)
    (hthrottle : s.throttleNextSendTime ≤ s.now) :
    (do
      let p ← call (.getPdu q)
      Prog.when (p.sequenceNumber ≤ SequenceNumber.Min) do
        let n ← seqNumGenNext
        call (.setSeq q n)
      let tbuf ← call (.getPdu q)
      throttleCheck cfg
      call (.asyncWrite q tbuf) : Code Unit).Ends (exec cfg t)
        (fun _ s' => WrittenAlone cfg q s s' ∧ s'.txQ = s.txQ) s := by
  let s₁ : Session :=
    { s with
      mVal := following s.mVal
      heap := s.heap.modify q fun p => { p with sequenceNumber := issued s.mVal } }
  refine ends_call hf rfl ?_
  show (Prog.when (decide ((s.pdu q).sequenceNumber ≤ SequenceNumber.Min)) _ >>= _).Ends _ _ _
  rw [decide_eq_true hn, Prog.when_true, Prog.bind_assoc]
  -- a new PDU draws a number
  refine (ends_seqNumGenNext (s := s) hf hfree).bind fun n s' h' => ?_
  obtain ⟨rfl, rfl⟩ := h'
  refine ends_call hf rfl (ends_call hf rfl ?_)
  refine (ends_throttleCheck (s := s₁) hf hthrottle).bind fun _ s' h' => ?_
  subst h'
  refine .step ((if_pos hf).trans rfl) (.ret ?_)
  -- the socket is connected
  unfold Session.startIo
  rw [if_pos hconn]
  refine ⟨⟨hf, rfl, rfl, ?_, ?_, rfl, rfl, rfl, rfl, hconn, rfl, rfl⟩, rfl⟩
  · simp [Session.pdu, Session.record, s₁, hq]
  · simp [Session.record, s₁]

variable (cfg t) in
/-- `write_pdu`, by a thread that runs alone, on the PDU `q`. -/
theorem ends_writePdu {q : Ref} (hf : s.fault = none) (hfree : s.owner .mMtx = none)
    (hconn : s.isConnected = true) (hpop : s.txQ.pop.1 = some q) (hq : q < s.heap.length)
    (hn : (s.pdu q).sequenceNumber ≤ SequenceNumber.Min)
    (hthrottle : s.throttleNextSendTime ≤ s.now) :
    (writePdu cfg).Ends (exec cfg t)
      (fun _ s' => WrittenAlone cfg q s s' ∧ s'.txQ = s.txQ.pop.2) s := by
  have hx : perform cfg t .txPop s = some (some q, ({ s with
      txQ := s.txQ.pop.2
      pdu2send := Function.update s.pdu2send t (some q) }).setPhase t .popped) := by
    rw [← hpop]
    rfl
  refine ends_call hf hx ?_
  obtain ⟨u, s', hrun, hW, hq'⟩ := ends_popped cfg t (s := ({ s with
      txQ := s.txQ.pop.2
      pdu2send := Function.update s.pdu2send t (some q) }).setPhase t .popped) hf hfree hconn hq hn
    hthrottle
  exact ⟨u, s', hrun, ⟨hW.fault, hW.owner, hW.val, hW.pdu, hW.heap, hW.pending, hW.throttle, hW.now,
    hW.state, hW.connected, hW.w4rQ, hW.buffer⟩, hq'⟩

/-- `do_write`, by a thread that runs alone, with nothing else to write. -/
theorem ends_doWrite {q : Ref} {l : Level} (hf : s.fault = none) (hfree : ∀ m, s.owner m = none)
    (hconn : s.isConnected = true) (hempty : s.txQ.empty = true) (hq : q < s.heap.length)
    (hn : (s.pdu q).sequenceNumber ≤ SequenceNumber.Min)
    (hthrottle : s.throttleNextSendTime ≤ s.now) :
    (doWrite cfg q l).Ends (exec cfg t)
      (fun _ s' => WrittenAlone cfg q s s' ∧ s'.txQ.empty = true ∧ s'.slot = some q) s := by
  obtain ⟨hpop, hleft, hlast⟩ := PrioQ.pop_push_of_empty hempty q l
  unfold doWrite writing
  refine ends_call hf (if_pos (hfree .writeMutex)) ?_
  rw [Prog.bind_assoc]
  refine ends_call hf rfl ?_
  show (call (.txPush q l) >>= fun _ => Prog.when (!!s.txQ.empty) (writePdu cfg) >>= fun _ =>
    call (.unlock .writeMutex)).Ends _ _ _
  rw [hempty]
  refine ends_call hf rfl ?_
  let s₁ : Session := ({ s with
    owner := Function.update s.owner .writeMutex (some t) }.onWriteMutex .writeMutex t .locked).setPhase
      t (.found s.txQ.empty)
  let s₂ : Session := { s₁ with txQ := s.txQ.push q l, inHand := Function.update s.inHand t none }
  refine (ends_writePdu cfg t (s := s₂.record (.pushed q l))
    hf (hfree .mMtx) hconn hpop hq hn hthrottle).bind fun _ s' h' => ?_
  obtain ⟨hW, hq'⟩ := h'
  -- what is left to be done is to release the mutex
  refine .step ((if_pos hW.fault).trans rfl) (.ret ⟨⟨hW.fault, ?_, hW.val, hW.pdu, hW.heap, hW.pending,
    hW.throttle, hW.now, hW.state, hW.connected, hW.w4rQ, hW.buffer⟩, ?_, ?_⟩)
  · show Function.update s'.owner .writeMutex none = s.owner
    rw [hW.owner]
    show Function.update (Function.update s.owner .writeMutex (some t)) .writeMutex none = s.owner
    rw [Function.update_idem, ← hfree .writeMutex, Function.update_eq_self]
  · show s'.txQ.empty = true
    rw [hq']
    exact hleft
  · show s'.txQ.lastPop.map Prod.snd = some q
    rw [hq']
    exact congrArg (Option.map Prod.snd) hlast

variable (cfg) in
/-- A turn of `sendingProcessor`, alone, for a `submit_sm` that has just been submitted. -/
theorem ends_sendingProcessor {q : Ref} {body : List UInt8} (hf : s.fault = none)
    (hfree : ∀ m, s.owner m = none) (hconn : s.isConnected = true) (hempty : s.txQ.empty = true)
    (hstate : s.currentState = .BOUND_TRX) (hbuf : s.sendingBuffer = [q]) (hq : q < s.heap.length)
    (hpdu : s.pdu q = ⟨.SubmitSm, ESME_ROK, cfg.newSeq, .octets body, none⟩)
    (hnew : cfg.newSeq ≤ SequenceNumber.Min) (hthrottle : s.throttleNextSendTime ≤ s.now) :
    (sendingProcessor cfg).Ends (exec cfg .sender)
      (fun _ s' => WrittenAlone cfg q { s with sendingBuffer := [] } s' ∧ s'.txQ.empty = true ∧
        s'.slot = some q) s := by
  let s₁ : Session :=
    { s with sendingBuffer := [], inHand := Function.update s.inHand .sender (some q) }
  have hsendEmpty : perform cfg .sender .sendEmpty s = some (false, s) := by
    show some (s.sendingBuffer.isEmpty, s) = _
    rw [hbuf]
    rfl
  have hsendPop : perform cfg .sender .sendPop s = some (some q, s₁) := by
    show some (s.sendingBuffer.head?, _) = _
    rw [hbuf]
    rfl
  refine ends_call hf hsendEmpty (ends_call hf hsendPop ?_)
  have hsend : (sendPdu cfg q).Ends (exec cfg .sender)
      (fun _ s' => WrittenAlone cfg q s₁ s' ∧ s'.txQ.empty = true ∧ s'.slot = some q) s₁ := by
    refine ends_call (r := (.BOUND_TRX, s₁)) hf (congrArg (fun st => some (st, s₁)) hstate) ?_
    refine ends_call (r := (⟨.SubmitSm, ESME_ROK, cfg.newSeq, .octets body, none⟩, s₁)) hf
      (congrArg (fun p => some (p, s₁)) hpdu) ?_
    have hnum : (s₁.pdu q).sequenceNumber ≤ SequenceNumber.Min := by
      show (s.pdu q).sequenceNumber ≤ _
      rw [hpdu]
      exact hnew
    exact ends_doWrite hf hfree hconn hempty hq hnum hthrottle
  refine hsend.bind fun _ s' h' => ?_
  obtain ⟨hW, hleft, hslot⟩ := h'
  exact .step ((if_pos hW.fault).trans rfl) (.ret ⟨⟨hW.fault, hW.owner, hW.val, hW.pdu, hW.heap,
    hW.pending, hW.throttle, hW.now, hW.state, hW.connected, hW.w4rQ, hW.buffer⟩, hleft, hslot⟩)

/-- **A session that goes on sending**: nothing waits to be sent, the next number is `v`, and PDU `1`
awaits its response under the number `3`. -/
structure Sending (v : Nat) (s : Session) : Prop where
  fault : s.fault = none
  free : ∀ m, s.owner m = none
  connected : s.isConnected = true
  empty : s.txQ.empty = true
  state : s.currentState = .BOUND_TRX
  buffer : s.sendingBuffer = []
  throttle : s.throttleNextSendTime ≤ s.now + 50000
  val : s.mVal = v
  heap : 1 < s.heap.length
  awaiting : ∃ e, s.w4rQ[3]? = some e ∧ e.obj = 1

/-- A `submit_sm` is submitted, the time for its sending comes, and `sendingProcessor` takes its turn:
it is written with the next number. -/
theorem sending_next {v : Nat} (hs : Sending v c.shared) (hio : c.code .io = .ret ())
    (hsender : c.code .sender = .ret ()) :
    ∃ c' : Machine, Reach (system sampleParams) Guard.free.Allows c c' ∧
      Sending (following v) c'.shared ∧ c'.code .io = .ret () ∧ c'.code .sender = .ret () ∧
      ∃ r, 1 < r ∧ c'.shared.slot = some r ∧
        .write r ∈ c'.shared.pending ∧ (c'.shared.pdu r).commandId = .SubmitSm ∧
        (c'.shared.pdu r).sequenceNumber = issued v := by
  obtain ⟨s, code⟩ := c
  obtain ⟨hf, hfree, hconn, hempty, hstate, hbuf, hthrottle, hval, hheap, e, he, hobj⟩ := hs
  let p : Pdu := ⟨.SubmitSm, ESME_ROK, sampleParams.newSeq, .octets [], none⟩
  let s₁ : Session := { s with
    heap := s.heap ++ [p]
    sendingBuffer := s.sendingBuffer ++ [s.heap.length] }.record (.submitted s.heap.length)
  let s₂ : Session := { s₁ with now := s₁.now + 50000 }
  have hbuf₂ : s₂.sendingBuffer = [s.heap.length] := by
    show s.sendingBuffer ++ [s.heap.length] = _
    rw [hbuf]
    rfl
  have hlen : s₂.heap.length = s.heap.length + 1 := List.length_append
  have hpdu : s₂.pdu s.heap.length = p := by simp [s₂, s₁, Session.pdu, Session.record]
  have hturn := ends_sendingProcessor sampleParams (s := s₂) hf hfree hconn hempty hstate hbuf₂
    (by rw [hlen]; exact Nat.lt_succ_self _) hpdu (Nat.le_refl _) hthrottle
  -- a message is submitted, the throttle's time passes, and `sendingProcessor` takes a turn
  have hsubmit : Config.move (system sampleParams) ⟨s, code⟩ (.env (.submit [])) = some ⟨s₁, code⟩ := rfl
  have hwait : Config.move (system sampleParams) ⟨s₁, code⟩ (.env (.elapse 50000)) =
      some ⟨s₂, code⟩ := rfl
  have hstart := Config.move_start (M := system sampleParams) (c := ⟨s₂, code⟩) (j := .send) hsender rfl
  have hcode : Function.update code .sender (sendingProcessor sampleParams) .sender =
      sendingProcessor sampleParams >>= Prog.ret := by
    rw [Function.update_self, Prog.bind_ret]
  obtain ⟨⟨⟩, s', ⟨hW, hleft, hslot⟩, hreach⟩ := reach_ends (M := system sampleParams)
    (c := ⟨s₂, Function.update code .sender (sendingProcessor sampleParams)⟩)
    (Guard.free_allows · _) hcode hturn
  have hlen' : s'.heap.length = s.heap.length + 1 := hW.heap.trans hlen
  refine ⟨_, (((Reach.refl.next _ trivial hsubmit).next _ trivial hwait).next _ trivial hstart).trans
    hreach, ⟨hW.fault, ?_, hW.connected, hleft, hW.state.trans hstate, hW.buffer, ?_, ?_, ?_, e, ?_, hobj⟩,
    ?_, ?_, s.heap.length, hheap, hslot, ?_, ?_, ?_⟩
  · intro m
    rw [hW.owner]
    exact hfree m
  · show s'.throttleNextSendTime ≤ s'.now + 50000
    rw [hW.throttle, hW.now]
    exact Nat.le_refl _
  · rw [← hval]
    exact hW.val
  · show 1 < s'.heap.length
    rw [hlen']
    exact Nat.lt_succ_of_lt hheap
  · show s'.w4rQ[3]? = some e
    rw [hW.w4rQ]
    exact he
  · have hio : code .io = .ret () := hio
    simp [hio]
  · simp
  · show Io.write s.heap.length ∈ s'.pending
    rw [hW.pending]
    exact List.mem_append_right _ List.mem_cons_self
  · show (s'.pdu s.heap.length).commandId = .SubmitSm
    rw [hW.pdu]
    exact congrArg Pdu.commandId hpdu
  · show (s'.pdu s.heap.length).sequenceNumber = issued v
    rw [hW.pdu, ← hval]
    rfl

/-- The ageing timer expires while nothing awaits a response, and is not armed again; the session is
bound, and the response to its first `submit_sm` does not come. -/
def unansweredSubmit : List Step :=
  .env (.expire .w4rQAgeing) :: Schedule.handle (.w4rQAgeCleanup .success) ++ Schedule.bind ++
    Schedule.sendWritten 1

/-- A session whose first `submit_sm` stays unanswered can go on sending until all numbers have been
used. -/
theorem sending_all {v : Nat} (hlow : 4 ≤ v) (hv : v ≤ SequenceNumber.Max) :
    ∃ c : Machine, Runs sampleParams Guard.free .none 0 c ∧ Sending v c.shared ∧
      c.code .io = .ret () ∧ c.code .sender = .ret () := by
  obtain ⟨n, rfl⟩ := Nat.exists_eq_add_of_le hlow
  induction n with
  | zero =>
      refine ⟨Machine.after sampleParams .none unansweredSubmit, runs_after _ _ _,
        ⟨by decide +kernel, fun m => by cases m <;> decide +kernel, by decide +kernel,
          by decide +kernel, by decide +kernel, by decide +kernel, by decide +kernel,
          by decide +kernel, by decide +kernel, ⟨1, 1⟩, by decide +kernel, rfl⟩, ?_, ?_⟩
      · have hidle : (Machine.after sampleParams .none unansweredSubmit).Idle .io := by decide +kernel
        exact hidle
      · have hidle : (Machine.after sampleParams .none unansweredSubmit).Idle .sender := by
          decide +kernel
        exact hidle
  | succ n ih =>
      obtain ⟨c, hrun, hs, hio, hsender⟩ := ih (by omega) (by omega)
      obtain ⟨c', hreach, hs', hio', hsender', -⟩ := sending_next hs hio hsender
      have hnext : following (4 + n) = 4 + n + 1 := if_pos (by omega)
      exact ⟨c', hrun.trans hreach, hnext ▸ hs', hio', hsender'⟩

variable (cfg) in
/-- A write completes, and `handle_write` gets to `w4rQ_put` with the request it has found. -/
theorem reach_w4rInsert {s : Session} {code : Tid → Code Unit} {r : Ref} (hf : s.fault = none)
    (hfree : ∀ m, s.owner m = none) (hio : code .io = .ret ()) (hwrite : .write r ∈ s.pending)
    (hslot : s.slot = some r) (hreq : (s.pdu r).IsRequest) :
    ∃ c k, Reach (system cfg) Guard.free.Allows ⟨s, code⟩ c ∧ c.code .io = .step (.w4rInsert r) k ∧
      c.shared.fault = none ∧ c.shared.w4rQ = s.w4rQ ∧ c.shared.heap = s.heap := by
  let s₁ : Session :=
    { s with pending := s.pending.erase (.write r) }.enqueue (.handleWrite r .success)
  let s₂ : Session := { s₁ with
    ready := s₁.ready.erase (.handleWrite r .success)
    running := some (.handleWrite r .success)
    handling := some r
    pastStopTest := false }.record (.started (.handleWrite r .success))
  let s₃ : Session :=
    { s₂ with owner := Function.update s₂.owner .writeMutex (some .io) }.setPhase .io .locked
  let s₄ : Session := { s₃ with owner := Function.update s₃.owner .w4rQMutex (some .io) }
  -- the write completes, and `handle_write` runs up to the insertion
  have hcomplete : Config.move (system cfg) ⟨s, code⟩
      (.env (.complete (.write r) .none .success)) = some ⟨s₁, code⟩ :=
    congrArg (Option.map fun s => (⟨s, code⟩ : Machine)) (if_pos hwrite)
  have htake : (Job.handler (.handleWrite r .success)).take s₁ = some s₂ :=
    if_pos (List.mem_append_right _ List.mem_cons_self)
  have hstart := Config.move_start (M := system cfg) (c := ⟨s₁, code⟩)
    (j := .handler (.handleWrite r .success)) hio htake
  have hok : ∀ c : Machine, Guard.free.Allows c (.run .io : Step) := fun c => Guard.free_allows c _
  have hlock := reach_op (M := system cfg) (.lock .writeMutex)
    (fun _ => call .txLastPop >>= fun o => handleWritten cfg o >>= fun _ =>
      call (.unlock .writeMutex)) code (s := s₂) (r := ((), s₃)) hok
    ((if_pos hf).trans (if_pos (hfree .writeMutex)))
  have hlast := reach_op (M := system cfg) .txLastPop
    (fun o => handleWritten cfg o >>= fun _ => call (.unlock .writeMutex)) code (s := s₃)
    (r := (some r, s₃)) hok ((if_pos hf).trans (congrArg (fun o => some (o, s₃)) hslot))
  have hget := reach_op (M := system cfg) (.getPdu r)
    (fun p => (Prog.when (p.commandId.value < CommandId.BindReceiverResp.value) (do
        call (.lock .w4rQMutex)
        call (.w4rInsert r)
        call (.unlock .w4rQMutex)) >>= fun _ => do
      call .retire
      let mayWrite ← canSend
      Prog.when mayWrite do
        let e ← call .txEmpty
        Prog.when (!e) (writePdu cfg)) >>= fun _ => call (.unlock .writeMutex)) code (s := s₃)
    (r := (s₃.pdu r, s₃)) hok ((if_pos hf).trans rfl)
  have hreq : (s₃.pdu r).commandId.value < CommandId.BindReceiverResp.value := hreq
  -- a request is recorded
  rw [decide_eq_true hreq, Prog.when_true] at hget
  have hfree' : s₃.owner .w4rQMutex = none := by
    show Function.update s.owner .writeMutex (some .io) .w4rQMutex = none
    rw [Function.update_of_ne (by decide)]
    exact hfree .w4rQMutex
  have hlock' := reach_op (M := system cfg) (.lock .w4rQMutex)
    (fun _ => (call (.w4rInsert r) >>= fun _ => call (.unlock .w4rQMutex) >>= fun _ => do
      call .retire
      let mayWrite ← canSend
      Prog.when mayWrite do
        let e ← call .txEmpty
        Prog.when (!e) (writePdu cfg)) >>= fun _ => call (.unlock .writeMutex)) code (s := s₃)
    (r := ((), s₄)) hok ((if_pos hf).trans (if_pos hfree'))
  refine ⟨_, ?k, (((((Reach.refl.next _ trivial hcomplete).next _ trivial hstart).trans hlock).trans
    hlast).trans hget).trans hlock', ?_, hf, rfl, rfl⟩
  show Function.update code .io _ .io = _
  rw [Function.update_self]
  rfl

/-- **After `Max` the numbers begin again**, and PDU `1` is replaced by another one with its number. -/
theorem outstanding_number_taken : ¬∀ (cfg : Params) (p : Persisted) (now : Nat) (c : Machine),
    cfg.newSeq ≤ SequenceNumber.Min → (∀ q ∈ p.sending, q.sequenceNumber ≤ SequenceNumber.Min) →
      Runs cfg Guard.free p now c → ∀ t r k, c.code t = .step (.w4rInsert r) k →
        c.shared.fault = none →
          ∀ e, c.shared.w4rQ[(c.shared.pdu r).sequenceNumber]? = some e → e.obj = r := by
  intro hevery
  obtain ⟨c, hrun, hs, hio, hsender⟩ := sending_all (v := SequenceNumber.Max) (by decide) (Nat.le_refl _)
  -- the next number is the smallest one, and so on up to the number of PDU `1`
  obtain ⟨c₁, hreach₁, hs₁, hio₁, hsender₁, -⟩ := sending_next hs hio hsender
  obtain ⟨c₂, hreach₂, hs₂, hio₂, hsender₂, -⟩ := sending_next hs₁ hio₁ hsender₁
  obtain ⟨c₃, hreach₃, hs₃, hio₃, hsender₃, -⟩ := sending_next hs₂ hio₂ hsender₂
  obtain ⟨c₄, hreach₄, hs₄, hio₄, -, r, hr, hslot, hwrite, hcmd, hnum⟩ :=
    sending_next hs₃ hio₃ hsender₃
  have hreq : (c₄.shared.pdu r).IsRequest := by
    unfold Pdu.IsRequest
    rw [hcmd]
    decide
  obtain ⟨c', k, hreach, hcode, hfault, hw, hheap⟩ :=
    reach_w4rInsert sampleParams hs₄.fault hs₄.free hio₄ hwrite hslot hreq
  obtain ⟨e, he, hobj⟩ := hs₄.awaiting
  have hkey : (c'.shared.pdu r).sequenceNumber = 3 := by
    unfold Session.pdu
    rw [hheap]
    exact hnum
  have htaken := hevery sampleParams .none 0 c' (Nat.le_refl _) (by simp [Persisted.none])
    (((((hrun.trans hreach₁).trans hreach₂).trans hreach₃).trans hreach₄).trans hreach) .io r k hcode
    hfault e (by rw [hkey, hw]; exact he)
  rw [hobj] at htaken
  exact absurd htaken (Nat.ne_of_lt hr)

end KissSmpp
