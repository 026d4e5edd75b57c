import KissSmpp.Session.Methods

/-! # The handlers keep the discipline

The handlers of the io thread, the loops of the process and `stop`, each from the state in which it is
taken up. `discipline_sound` is the result: the contract `discipline` holds of every run. -/

namespace KissSmpp

open Interleave Queue

variable {cfg : Params} {t : Tid} {s s' : Session} {α : Type} {G : Session → Prop}

/-! ## Reading -/

/-- Having nothing to deal with is an assertion under which the methods may be called. -/
theorem steady_settled : Steady Settled := ⟨fun _ _ => Settled.keeps, fun _ => id⟩

/-- `reschedule_enquire_link` is neutral. -/
theorem neutral_rescheduleEnquireLink : Neutral .io rescheduleEnquireLink :=
  (uses_call ⟨rfl, rfl⟩).bind fun _ => (uses_call ⟨rfl, rfl⟩).bind fun _ => uses_call ⟨rfl, rfl⟩

/-- `procpdu_bind_resp` is neutral. -/
theorem neutral_procpduBindResp (raw : RawPdu) (st : State) : Neutral .io (procpduBindResp raw st) :=
  (Prog.Uses.when (uses_call ⟨rfl, rfl⟩)).bind fun _ => trivial

/-- The code for a received PDU, whatever it is. -/
theorem keeping_dispatch (hG : Steady G) {raw : RawPdu} {st : State} {p : Code Completion}
    (h : Dispatch cfg raw st p) : Keeping cfg G .io p := by
  cases h with
  | ignored => exact Keeping.ret hG _
  | submitSmResp => exact Keeping.ret hG _
  | bindResp _ st' => exact .neutral hG (neutral_procpduBindResp raw st')
  | outbind => exact (keeping_doBindRequest hG).bind fun _ => Keeping.ret hG _
  | enquireLink => exact keeping_procpduEnquireLink hG raw
  | enquireLinkResp => exact .neutral hG ((uses_call ⟨rfl, rfl⟩).bind fun _ => trivial)
  | deliverSm => exact keeping_procpduDeliverSm hG raw
  | unbind => exact keeping_procpduUnbind hG raw
  | unbindResp => exact keeping_procpduUnbindResp hG raw

/-- `process4state` keeps the discipline, whatever PDU it is given. -/
theorem keeping_process4state (hG : Steady G) (raw : RawPdu) :
    Keeping cfg G .io (process4state cfg raw) := by
  unfold process4state
  refine (Keeping.neutral hG neutral_rescheduleEnquireLink).bind fun _ => ?_
  refine (Keeping.neutral hG (uses_call ⟨rfl, rfl⟩)).bind fun st => ?_
  refine (Keeping.neutral hG (uses_call ⟨rfl, rfl⟩)).bind fun _ => ?_
  refine (keeping_dispatch hG (dispatch_process4stateSwitch cfg raw st)).bind fun c => ?_
  cases c with
  | returned => exact Keeping.ret hG _
  | threw => exact keeping_closeSession hG (.inl rfl) true

/-- An operation of the io thread that needs no facts and leaves its place in the code alone keeps an
assertion on that place. -/
theorem keeping_aside {op : Op} (hm : op.mayRun .io = true) (hk : ∀ s, Known .io op s)
    (hw : ∀ f ∈ [Field.phase, .owner, .pdu2send, .handling, .running], f ∉ op.writes) (hG : Steady G)
    (hGs : ∀ s s' : Session, s'.handling = s.handling → s'.running = s.running → G s → G s') :
    Keeping cfg G .io (call op) := by
  refine triple_call hm (Here.lasts hG).stable (fun _ => (Here.lasts hG).stable) ?_
  rintro s r - ⟨hs, hG⟩ h
  have hph : r.2.phase = s.phase := perform_same (f := .phase) h (hw _ (by simp))
  have ho : r.2.owner = s.owner := perform_same (f := .owner) h (hw _ (by simp))
  have hp : r.2.pdu2send = s.pdu2send := perform_same (f := .pdu2send) h (hw _ (by simp))
  have hh : r.2.handling = s.handling := perform_same (f := .handling) h (hw _ (by simp))
  have hr : r.2.running = s.running := perform_same (f := .running) h (hw _ (by simp))
  exact ⟨hk s, ⟨(congrFun hph _).trans hs.phase, fun hne => (congrFun ho _).trans (hs.owner hne),
    (congrFun hp _).trans hs.pdu2send⟩, fun hio => hGs s r.2 hh hr (hG hio)⟩

/-- Having nothing to deal with depends on the handler that runs and what it has to deal with. -/
theorem Settled.of_eq (hh : s'.handling = s.handling) (hr : s'.running = s.running)
    (hs : Settled s) : Settled s' := by
  unfold Settled Session.InHandleWrite
  rw [hh, hr]
  exact hs

/-- `handle_read_body` keeps the discipline. -/
theorem keeping_handleReadBody (raw : RawPdu) (error : ErrorCode) :
    Keeping cfg Settled .io (handleReadBody cfg raw error) := by
  have hans : ∀ cmd seq, Keeping cfg Settled .io (call (.w4rAnswer cmd seq)) := fun cmd seq =>
    keeping_aside rfl (fun _ => trivial) (by simp) steady_settled
      fun _ _ => Settled.of_eq
  unfold handleReadBody w4rQPop
  split
  · refine Keeping.bind (Keeping.when steady_settled ?_) fun _ => ?_
    · exact (Keeping.neutral steady_settled (uses_call ⟨rfl, rfl⟩)).bind fun _ =>
        (hans _ _).bind fun _ => Keeping.neutral steady_settled (uses_call ⟨rfl, rfl⟩)
    · exact (keeping_process4state steady_settled raw).bind fun _ =>
        Keeping.neutral steady_settled (uses_call ⟨rfl, rfl⟩)
  · exact keeping_handleReadError steady_settled error

/-! ## Connecting -/

/-- The io thread runs one of the two handlers that reconnect. -/
def Reconnecting (s : Session) : Prop :=
  s.handling = none ∧
    (s.running = some .closeConnection ∨ ∃ e, s.running = some (.handleConnect e))

/-- Reconnecting depends on the handler that runs and what it has to deal with. -/
theorem Reconnecting.of_eq (hh : s'.handling = s.handling) (hr : s'.running = s.running)
    (hs : Reconnecting s) : Reconnecting s' := by
  unfold Reconnecting
  rw [hh, hr]
  exact hs

/-- Reconnecting is an assertion under which the methods may be called. -/
theorem steady_reconnecting : Steady Reconnecting where
  keeps _ _ hk := Reconnecting.of_eq hk.handling hk.running
  settled s hs := by
    refine ⟨hs.1, ?_⟩
    rintro ⟨r, hr⟩
    rcases hs.2 with hrun | ⟨e, hrun⟩
    · rw [hrun] at hr; cases hr
    · rw [hrun] at hr; cases hr

/-- The io thread is past its test of `stopFlag`; nobody else changes that. -/
theorem stable_past {b : Bool} :
    (discipline cfg).Stable .io fun s => b = true → s.pastStopTest = true :=
  fun _ _ _ hP hr _ hb => (hr.io rfl).pastStopTest.trans (hP hb)

/-- A handler that reconnects, past its test of `stopFlag`, is not disturbed by the other threads.
-/
theorem stable_reconnecting {b : Bool} : (discipline cfg).Stable .io fun s =>
    Here Reconnecting .io s ∧ (b = true → s.pastStopTest = true) :=
  (Here.lasts steady_reconnecting).stable.and stable_past

/-- The test of `stopFlag`. -/
theorem triple_getStopFlag : (discipline cfg).Triple .io (Here Reconnecting .io) (call .getStopFlag)
    fun b s => Here Reconnecting .io s ∧ ((!b) = true → s.pastStopTest = true) := by
  refine triple_call rfl (Here.lasts steady_reconnecting).stable (fun _ => stable_reconnecting) ?_
  rintro s r - hs h
  cases h
  exact ⟨trivial, ⟨⟨hs.1.phase, hs.1.owner, hs.1.pdu2send⟩, hs.2⟩, fun hb => hb⟩

/-- The test of `reconnectFlag`. -/
theorem triple_getReconnectFlag : (discipline cfg).Triple .io
    (fun s => Here Reconnecting .io s ∧ (true = true → s.pastStopTest = true))
    (call .getReconnectFlag)
    fun b s => Here Reconnecting .io s ∧ (b = true → s.pastStopTest = true) := by
  refine triple_call rfl stable_reconnecting (fun _ => stable_reconnecting) ?_
  rintro s r - ⟨hs, hpast⟩ h
  cases h
  refine ⟨trivial, ⟨⟨hs.1.phase, hs.1.owner, hs.1.pdu2send⟩, hs.2⟩, fun hb => ?_⟩
  have hflag : s.reconnectFlag = true := hb
  show (s.pastStopTest && s.reconnectFlag) = true
  rw [hpast rfl, hflag]
  rfl

/-- Neutral code that does not touch `pastStopTest` leaves the io thread past its test. -/
theorem triple_past {p : Code α} (hp : p.Uses fun op =>
      (op.neutral = true ∧ op.mayRun .io = true) ∧ Field.pastStopTest ∉ op.writes) :
    (discipline cfg).Triple .io
      (fun s => Here Reconnecting .io s ∧ (true = true → s.pastStopTest = true)) p
      fun _ s => Here Reconnecting .io s ∧ (true = true → s.pastStopTest = true) := by
  refine Contract.Triple.uses hp stable_reconnecting ?_
  rintro op s r ⟨hop, hw⟩ hi ⟨hs, hpast⟩ - hx
  obtain ⟨-, hx⟩ := perform_of_exec hx
  have hsame : r.2.pastStopTest = s.pastStopTest := perform_same (f := .pastStopTest) hx hw
  have hlasts : Lasts cfg .io (Here Reconnecting .io) := Here.lasts steady_reconnecting
  exact ⟨keeps_of_known hx hi hop.2 (known_of_neutral hop.1),
    hlasts.neutral s r.2 (unmoved_of_neutral hx hop.1) hs, fun h => hsame.trans (hpast h)⟩

/-- `sleep` and then `connect`, after the tests. -/
theorem triple_sleep_connect (seconds : Nat) : (discipline cfg).Triple .io
    (fun s => Here Reconnecting .io s ∧ (true = true → s.pastStopTest = true))
    (sleep seconds >>= fun _ => connect) fun _ => Here Reconnecting .io := by
  refine Contract.Triple.bind (triple_past ?_) fun _ => ?_
  · exact (uses_call ⟨⟨rfl, rfl⟩, by simp⟩).bind fun _ =>
      uses_call ⟨⟨rfl, rfl⟩, by simp⟩
  · refine triple_call rfl stable_reconnecting
      (fun _ => (Here.lasts steady_reconnecting).stable) ?_
    rintro s r - ⟨hs, hpast⟩ h
    have hk : Known .io .asyncConnect s := ⟨hpast rfl, (hs.2 rfl).2⟩
    cases h
    exact ⟨hk, ⟨hs.1.phase, hs.1.owner, hs.1.pdu2send⟩, hs.2⟩

/-- `close_connection` keeps the discipline: it connects only past its test of `stopFlag`. -/
theorem keeping_closeConnection : Keeping cfg Reconnecting .io closeConnection := by
  have hn : ∀ op : Op, op.neutral = true → op.mayRun .io = true →
      Keeping cfg Reconnecting .io (call op) :=
    fun op h₁ h₂ => .neutral steady_reconnecting (uses_call ⟨h₁, h₂⟩)
  have hclear : ∀ l : Level, l ≠ .MESSAGE → Keeping cfg Reconnecting .io (call (.txClear l)) :=
    fun l hl => keeping_aside rfl (fun _ => hl) (by simp) steady_reconnecting
      fun _ _ => Reconnecting.of_eq
  unfold closeConnection
  refine (hn _ rfl rfl).bind fun _ => (hn _ rfl rfl).bind fun _ => (hn _ rfl rfl).bind fun _ => ?_
  refine (hn _ rfl rfl).bind fun _ => (hclear _ (by simp)).bind fun _ => ?_
  refine (hclear _ (by simp)).bind fun _ => (hn _ rfl rfl).bind fun _ => ?_
  refine Contract.Triple.bind triple_getStopFlag fun stopFlag => ?_
  cases stopFlag with
  | true => exact (Keeping.ret steady_reconnecting ()).pre fun _ _ hs => hs.1
  | false =>
      refine Contract.Triple.bind triple_getReconnectFlag fun reconnectFlag => ?_
      cases reconnectFlag with
      | false => exact (Keeping.ret steady_reconnecting ()).pre fun _ _ hs => hs.1
      | true =>
          exact Contract.Triple.bind (triple_past (uses_call ⟨⟨rfl, rfl⟩, by simp⟩))
            fun _ => triple_sleep_connect 1

/-- `handle_connect` keeps the discipline. -/
theorem keeping_handleConnect (e : ErrorCode) :
    Keeping cfg Reconnecting .io (handleConnect cfg e) := by
  unfold handleConnect
  split
  · exact (Keeping.neutral steady_reconnecting (uses_call ⟨rfl, rfl⟩)).bind fun _ =>
      (keeping_doBindRequest steady_reconnecting).bind fun _ =>
        Keeping.neutral steady_reconnecting (uses_call ⟨rfl, rfl⟩)
  · refine Contract.Triple.bind triple_getStopFlag fun stopFlag => ?_
    cases stopFlag with
    | true => exact (Keeping.ret steady_reconnecting ()).pre fun _ _ hs => hs.1
    | false => exact triple_sleep_connect 5

/-! ## Ageing -/

/-- `Settled`, with a certain entry at a key of `w4rQ`. -/
def SettledWith (k : Nat) (i : TimeStampedPdu) (s : Session) : Prop :=
  Settled s ∧ s.w4rQ[k]? = some i

/-- The methods may be called while the sweep looks at an entry. -/
theorem steady_settledWith (k : Nat) (i : TimeStampedPdu) : Steady (SettledWith k i) where
  keeps _ _ hk hs := ⟨hs.1.keeps hk, hk.w4rQ ▸ hs.2⟩
  settled _ hs := hs.1

/-- Erasing the entry that has just been pushed again. -/
theorem triple_w4rEraseFound (k : Nat) (i : TimeStampedPdu) : (discipline cfg).Triple .io
    (fun s => At .io .outside none s ∧ (Tid.io = .io → SettledWith k i s ∧ s.OnWay i.obj))
    (call (.w4rEraseFound i.obj)) fun _ => Here Settled .io := by
  have hG : ∀ s s', IoKeeps s s' → SettledWith k i s ∧ s.OnWay i.obj →
      SettledWith k i s' ∧ s'.OnWay i.obj :=
    fun s s' hk hs => ⟨(steady_settledWith k i).keeps s s' hk hs.1, hk.onWay _ hs.2⟩
  refine triple_call rfl (At.lasts.and (lasts_io hG)).stable
    (fun _ => (Here.lasts steady_settled).stable) ?_
  rintro s r - ⟨hs, hGs⟩ h
  obtain ⟨⟨hset, hentry⟩, hway⟩ := hGs rfl
  refine ⟨⟨hway, k, i, hentry, rfl⟩, ?_⟩
  rcases perform_w4rEraseFound h with rfl | rfl
  · exact ⟨⟨hs.phase, hs.owner, hs.pdu2send⟩, fun _ => hset⟩
  · exact ⟨⟨hs.phase, hs.owner, hs.pdu2send⟩, fun _ => hset⟩

/-- The ageing sweep, by recursion on the keys it has still to visit. -/
theorem keeping_ageSweep (keys : List Nat) : Keeping cfg Settled .io (ageSweep cfg keys) := by
  induction keys with
  | nil => exact Keeping.ret steady_settled ()
  | cons k ks ih =>
      unfold ageSweep
      refine Contract.Triple.bind (Q := fun o s => At .io .outside none s ∧
        (Tid.io = .io → Settled s ∧ s.w4rQ[k]? = o)) ?_ fun o => ?_
      · -- looking up the entry
        have hG : ∀ (o : Option TimeStampedPdu) (s s' : Session), IoKeeps s s' →
            Settled s ∧ s.w4rQ[k]? = o → Settled s' ∧ s'.w4rQ[k]? = o :=
          fun o s s' hk hs => ⟨hs.1.keeps hk, hk.w4rQ ▸ hs.2⟩
        refine triple_call rfl (Here.lasts steady_settled).stable
          (fun o => (At.lasts.and (lasts_io (hG o))).stable) ?_
        rintro s r - ⟨hs, hset⟩ h
        cases h
        exact ⟨trivial, hs, fun hio => ⟨hset hio, rfl⟩⟩
      cases o with
      -- no entry under this key any more
      | none => exact ih.pre fun s _ hs => ⟨hs.1, fun hio => (hs.2 hio).1⟩
      | some i =>
          have hwith := steady_settledWith k i
          have hclock : Keeping cfg (SettledWith k i) .io (call .clock) :=
            .neutral hwith (uses_call ⟨rfl, rfl⟩)
          refine Contract.Triple.bind hclock fun now => ?_
          refine Contract.Triple.bind (Q := fun _ => Here Settled .io) ?_ fun _ => ih
          unfold Prog.when
          split
          · -- an expired PDU is written again, and its entry erased
            refine Contract.Triple.bind ((triple_doWrite hwith.keeps hwith.settled).pre
              fun s _ hs => ⟨hs.1, hs.2, .inr ⟨rfl, rfl, k, i, (hs.2 rfl).2, rfl⟩⟩) fun _ => ?_
            refine (triple_w4rEraseFound k i).bind fun found => ?_
            cases found with
            | none => exact Keeping.neutral steady_settled (uses_call ⟨rfl, rfl⟩)
            | some k' =>
                exact Keeping.when steady_settled
                  (Keeping.neutral steady_settled (uses_call ⟨rfl, rfl⟩))
          · exact (Keeping.ret steady_settled ()).pre
              fun s _ hs => ⟨hs.1, fun hio => (hs.2 hio).1⟩

/-- `w4rQ_age_cleanup` keeps the discipline. -/
theorem keeping_w4rQAgeCleanup (e : ErrorCode) :
    Keeping cfg Settled .io (w4rQAgeCleanup cfg e) := by
  have hn : ∀ op : Op, op.neutral = true → op.mayRun .io = true →
      Keeping cfg Settled .io (call op) :=
    fun op h₁ h₂ => .neutral steady_settled (uses_call ⟨h₁, h₂⟩)
  unfold w4rQAgeCleanup
  refine Keeping.when steady_settled ((hn _ rfl rfl).bind fun size => ?_)
  refine Keeping.when steady_settled ((hn _ rfl rfl).bind fun _ => ?_)
  refine (hn _ rfl rfl).bind fun keys => ?_
  exact (keeping_ageSweep keys).bind fun _ => (hn _ rfl rfl).bind fun _ => hn _ rfl rfl

/-! ## Write completions -/

/-- The io thread runs the `handle_write` of `r`, which is still to be dealt with. -/
def Writing (r : Ref) (s : Session) : Prop :=
  s.running = some (.handleWrite r .success) ∧ s.handling = some r

/-- The io thread runs a successful `handle_write` and has dealt with its PDU. -/
def Written (s : Session) : Prop := s.InHandleWrite ∧ s.handling = none

/-- The `handle_write` of `r` still has it to deal with after what the io thread keeps. -/
theorem Writing.keeps {r : Ref} (hk : IoKeeps s s') (hs : Writing r s) : Writing r s' :=
  ⟨hk.running.trans hs.1, hk.handling.trans hs.2⟩

/-- A `handle_write` that has dealt with its PDU still has after what the io thread keeps. -/
theorem Written.keeps (hk : IoKeeps s s') (hs : Written s) : Written s' := by
  obtain ⟨⟨r, hr⟩, hh⟩ := hs
  exact ⟨⟨r, hk.running.trans hr⟩, hk.handling.trans hh⟩

/-- Inside the critical section the PDU popped last stays the same. -/
theorem lasts_slot {o : Option Ref} : Lasts cfg t fun s => At t .locked none s ∧ s.slot = o where
  stable s s' hi hP hr hi' :=
    ⟨At.lasts.stable s s' hi hP.1 hr hi', (hr.slot (hP.1.owner (by simp))).trans hP.2⟩
  neutral s s' hu hP := by
    have hat : Lasts cfg t (At t .locked none) := At.lasts
    exact ⟨hat.neutral s s' hu hP.1, hu.slot.trans hP.2⟩

/-- Inside the critical section the object of the PDU popped last stays the same. -/
theorem lasts_slot_pdu {q : Ref} {p : Pdu} : Lasts cfg t fun s =>
    (At t .locked none s ∧ s.slot = some q) ∧ s.pdu q = p where
  stable s s' hi hP hr hi' := by
    refine ⟨lasts_slot.stable s s' hi hP.1 hr hi', ?_⟩
    rw [hr.pdu (hP.1.1.owner (by simp)) q (hi.queued q (.slot hP.1.2))]
    exact hP.2
  neutral s s' hu hP := by
    have hslot : Lasts cfg t fun s => At t .locked none s ∧ s.slot = some q := lasts_slot
    refine ⟨hslot.neutral s s' hu hP.1, ?_⟩
    unfold Session.pdu
    rw [hu.heap]
    exact hP.2

/-- The state after `w4rQ_put`: the PDU has been recorded, or is a response. -/
def Recorded (q : Ref) (s : Session) : Prop :=
  (At .io .locked none s ∧ Written s) ∨
    (((At .io .locked none s ∧ s.slot = some q) ∧ ¬(s.pdu q).IsRequest) ∧ s.InHandleWrite)

/-- The state after `w4rQ_put` is stable under the other threads. -/
theorem stable_recorded {q : Ref} : (discipline cfg).Stable .io (Recorded q) := by
  rintro s s' hi (⟨hs, hw⟩ | ⟨⟨hs, hreq⟩, hw⟩) hr hi'
  · exact .inl ⟨At.lasts.stable s s' hi hs hr hi', hw.keeps (hr.io rfl).keeps⟩
  · obtain ⟨r, hrun⟩ := hw
    have hpdu := lasts_slot_pdu.stable s s' hi ⟨hs, rfl⟩ hr hi'
    exact .inr ⟨⟨hpdu.1, by rw [hpdu.2]; exact hreq⟩, r, (hr.io rfl).running.trans hrun⟩

/-- `w4rQ_put` of the PDU popped last. -/
theorem triple_w4rQPut {r q : Ref} : (discipline cfg).Triple .io
    (fun s => (At .io .locked none s ∧ s.slot = some q) ∧ (Tid.io = .io → Writing r s))
    (w4rQPut q) fun _ => Recorded q := by
  have hW : ∀ s s', IoKeeps s s' → Writing r s → Writing r s' := fun _ _ => Writing.keeps
  have hlasts : ∀ p, Lasts cfg .io fun s =>
      ((At .io .locked none s ∧ s.slot = some q) ∧ s.pdu q = p) ∧ (Tid.io = .io → Writing r s) :=
    fun p => lasts_slot_pdu.and (lasts_io hW)
  unfold w4rQPut
  -- the object read is the one the thread then compares and records
  refine Contract.Triple.bind (Q := fun p s =>
    ((At .io .locked none s ∧ s.slot = some q) ∧ s.pdu q = p) ∧ (Tid.io = .io → Writing r s))
    ?_ fun p => ?_
  · refine triple_call rfl (lasts_slot.and (lasts_io hW)).stable (fun p => (hlasts p).stable) ?_
    rintro s x - ⟨hs, hw⟩ h
    cases h
    exact ⟨trivial, ⟨hs, rfl⟩, hw⟩
  unfold Prog.when
  split
  · refine (triple_neutral (uses_call ⟨rfl, rfl⟩) (hlasts p)).bind fun _ => ?_
    have hafter : Lasts cfg .io fun s => At .io .locked none s ∧ (Tid.io = .io → Written s) :=
      At.lasts.and (lasts_io fun _ _ => Written.keeps)
    refine Contract.Triple.bind (Q := fun _ s =>
      At .io .locked none s ∧ (Tid.io = .io → Written s)) ?_ fun _ => ?_
    · -- the entry is made
      refine triple_call rfl (hlasts p).stable (fun _ => hafter.stable) ?_
      rintro s x - ⟨⟨⟨hs, hslot⟩, -⟩, hw⟩ h
      obtain ⟨hrun, hh⟩ := hw rfl
      have hk : Known .io (.w4rInsert q) s :=
        ⟨⟨r, hrun⟩, hs.phase, by rw [hh]; simp, hslot⟩
      cases h
      exact ⟨hk, ⟨hs.phase, hs.owner, hs.pdu2send⟩, fun _ => ⟨⟨r, hrun⟩, rfl⟩⟩
    · exact (triple_neutral (uses_call ⟨rfl, rfl⟩) hafter).post
        fun _ s _ hs => .inl ⟨hs.1, hs.2 rfl⟩
  · -- no request: no entry is made
    next hreq =>
      refine (Contract.Triple.ret (Q := fun _ => Recorded q) stable_recorded).pre ?_
      rintro s - ⟨⟨hs, hp⟩, hw⟩
      refine .inr ⟨⟨hs, ?_⟩, r, (hw rfl).1⟩
      rw [hp]
      exact fun h => hreq (decide_eq_true h)

/-- The step that ends `handle_write`'s dealing with its PDU. -/
theorem triple_retire {q : Ref} : (discipline cfg).Triple .io (Recorded q) (call .retire)
    fun _ s => At .io .locked none s ∧ (Tid.io = .io → Written s) := by
  refine triple_call rfl stable_recorded
    (fun _ => (At.lasts.and (lasts_io fun _ _ => Written.keeps)).stable) ?_
  intro s x hi hs h
  have hk : At .io .locked none s ∧ Known .io .retire s := by
    rcases hs with ⟨hs, hw⟩ | ⟨⟨hs, hreq⟩, hw⟩
    · exact ⟨hs, hw.1, hs.phase, .inl hw.2⟩
    · exact ⟨hs.1, hw, hs.1.phase, .inr ⟨q, hs.2, hreq⟩⟩
  obtain ⟨hs, hk⟩ := hk
  have hrun := hk.1
  cases h
  exact ⟨hk, ⟨hs.phase, hs.owner, hs.pdu2send⟩, fun _ => ⟨hrun, rfl⟩⟩

/-- A positive answer of `canSend` means that fewer than ten PDUs await a response. -/
theorem triple_canSend : (discipline cfg).Triple .io
    (fun s => At .io .locked none s ∧ (Tid.io = .io → Written s)) canSend
    fun b s => At .io .locked none s ∧
      (Tid.io = .io → Written s ∧ (b = true → s.w4rQ.size < 10)) := by
  have hG : ∀ (b : Bool) (s s' : Session), IoKeeps s s' →
      Written s ∧ (b = true → s.w4rQ.size < 10) → Written s' ∧ (b = true → s'.w4rQ.size < 10) :=
    fun b s s' hk hs => ⟨hs.1.keeps hk, hk.w4rQ ▸ hs.2⟩
  have hlasts : ∀ b : Bool, Lasts cfg .io fun s => At .io .locked none s ∧
      (Tid.io = .io → Written s ∧ (b = true → s.w4rQ.size < 10)) :=
    fun b => At.lasts.and (lasts_io (hG b))
  unfold canSend
  refine Contract.Triple.bind (Q := fun n s => At .io .locked none s ∧
    (Tid.io = .io → Written s ∧ (decide (n < 10) = true → s.w4rQ.size < 10))) ?_ fun n => ?_
  · refine triple_call rfl (At.lasts.and (lasts_io fun _ _ => Written.keeps)).stable
      (fun n => (hlasts (decide (n < 10))).stable) ?_
    rintro s r - ⟨hs, hw⟩ h
    cases h
    exact ⟨trivial, hs, fun hio => ⟨hw hio, of_decide_eq_true⟩⟩
  split
  · next hlt =>
      refine (triple_neutral (uses_call ⟨rfl, rfl⟩) (hlasts (decide (n < 10)))).bind fun st => ?_
      refine (Contract.Triple.ret (Q := fun b s => At .io .locked none s ∧
        (Tid.io = .io → Written s ∧ (b = true → s.w4rQ.size < 10))) (hlasts _).stable).pre ?_
      exact fun s _ hs => ⟨hs.1, fun hio => ⟨(hs.2 hio).1, fun _ =>
        (hs.2 hio).2 (decide_eq_true hlt)⟩⟩
  · refine (Contract.Triple.ret (Q := fun b s => At .io .locked none s ∧
      (Tid.io = .io → Written s ∧ (b = true → s.w4rQ.size < 10))) (hlasts false).stable).pre ?_
    exact fun s _ hs => ⟨hs.1, fun hio => ⟨(hs.2 hio).1, fun hb => by cases hb⟩⟩

/-- The end of `handle_write`: another PDU is written if the session may send. -/
theorem triple_writeNext (mayWrite : Bool) : (discipline cfg).Triple .io
    (fun s => At .io .locked none s ∧
      (Tid.io = .io → Written s ∧ (mayWrite = true → s.w4rQ.size < 10)))
    (Prog.when mayWrite do
      let e ← call .txEmpty
      Prog.when (!e) (writePdu cfg))
    fun _ s => Inside .io s ∧ (Tid.io = .io → Written s) := by
  have hinside : Lasts cfg .io fun s => Inside .io s ∧ (Tid.io = .io → Written s) :=
    Inside.lasts.and (lasts_io fun _ _ => Written.keeps)
  have hG : ∀ s s', IoKeeps s s' → Written s ∧ s.w4rQ.size < 10 →
      Written s' ∧ s'.w4rQ.size < 10 :=
    fun s s' hk hs => ⟨hs.1.keeps hk, hk.w4rQ ▸ hs.2⟩
  cases mayWrite with
  | false =>
      exact (Contract.Triple.ret (Q := fun _ s => Inside .io s ∧ (Tid.io = .io → Written s))
        hinside.stable).pre fun s _ hs => ⟨⟨.locked, by simp, hs.1⟩, fun hio => (hs.2 hio).1⟩
  | true =>
      refine Contract.Triple.bind (((triple_txEmpty hG (fun _ hs _ => hs.1.2)
        (P := fun _ => True) Lasts.const fun _ _ _ _ _ _ => trivial)).pre
          fun s _ hs => ⟨hs.1, fun hio => ⟨(hs.2 hio).1, (hs.2 hio).2 rfl⟩, trivial⟩) fun e => ?_
      cases e with
      | true =>
          exact (Contract.Triple.ret (Q := fun _ s => Inside .io s ∧ (Tid.io = .io → Written s))
            hinside.stable).pre
              fun s _ hs => ⟨⟨.found true, by simp, hs.1⟩, fun hio => (hs.2.1 hio).1⟩
      | false =>
          refine (triple_writePdu hG (.inr ⟨rfl, rfl, fun s hs => ⟨hs.1.1, hs.1.2, hs.2⟩⟩)).conseq
            (fun s _ hs => ⟨hs.1, hs.2.1⟩) ?_
          exact fun _ s _ hs => ⟨⟨.popped, by simp, hs.1⟩, fun hio => (hs.2 hio).1⟩

/-- **`handle_write` of a write that succeeded.** -/
theorem triple_handleWrite_success (r : Ref) : (discipline cfg).Triple .io
    (fun s => At .io .outside none s ∧ (Tid.io = .io → Writing r s))
    (handleWrite cfg .success) fun _ => Quiet .io := by
  have hW : ∀ s s', IoKeeps s s' → Writing r s → Writing r s' := fun _ _ => Writing.keeps
  unfold handleWrite
  rw [if_pos rfl]
  refine Contract.Triple.bind ((triple_lock hW (fun s hs _ => by rw [hs.2]; simp)
    (P := fun _ => True) Lasts.const fun _ _ _ _ _ _ => trivial).pre
      fun s _ hs => ⟨hs.1, hs.2, trivial⟩) fun _ => ?_
  -- the PDU popped last is looked up
  refine Contract.Triple.bind (Q := fun o s =>
    (At .io .locked none s ∧ s.slot = o) ∧ (Tid.io = .io → Writing r s)) ?_ fun o => ?_
  · refine triple_call rfl (At.lasts.and ((lasts_io hW).and Lasts.const)).stable
      (fun _ => (lasts_slot.and (lasts_io hW)).stable) ?_
    rintro s x - ⟨hs, hw, -⟩ h
    cases h
    exact ⟨trivial, ⟨hs, rfl⟩, hw⟩
  have hquiet : ∀ (_ : Unit) (s : Session), Inv s →
      At .io .outside none s ∧ (Tid.io = .io → Written s) → Quiet .io s :=
    fun _ s _ hs => ⟨hs.1.phase, hs.1.pdu2send, fun hio => (hs.2 hio).2⟩
  refine Contract.Triple.bind (Q := fun _ s => Inside .io s ∧ (Tid.io = .io → Written s)) ?_
    fun _ => (triple_unlock fun _ _ => Written.keeps).post hquiet
  cases o with
  | none =>
      -- there is a PDU in flight, so one has been popped
      intro s hi hs
      obtain ⟨-, hh⟩ := hs.2 rfl
      exact absurd hs.1.2 (hi.popped r (Session.mem_inFlight.mpr (.inr (.inr hh))))
  | some q =>
      unfold handleWritten
      exact triple_w4rQPut.bind fun _ => triple_retire.bind fun _ =>
        triple_canSend.bind fun mayWrite => triple_writeNext mayWrite

/-- **`handle_write` of a write that failed.** -/
theorem triple_handleWrite_error {r : Ref} {e : ErrorCode} (he : e ≠ .success) :
    (discipline cfg).Triple .io
      (fun s => At .io .outside none s ∧
        (Tid.io = .io → s.running = some (.handleWrite r e) ∧ s.handling = some r))
      (handleWrite cfg e) fun _ => Here Settled .io := by
  have hrun : ∀ s s' : Session, IoKeeps s s' →
      s.running = some (.handleWrite r e) ∧ s.handling = some r →
      s'.running = some (.handleWrite r e) ∧ s'.handling = some r :=
    fun s s' hk hs => ⟨hk.running.trans hs.1, hk.handling.trans hs.2⟩
  have hn : ∀ op : Op, op.neutral = true → op.mayRun .io = true →
      Keeping cfg Settled .io (call op) :=
    fun op h₁ h₂ => .neutral steady_settled (uses_call ⟨h₁, h₂⟩)
  unfold handleWrite
  rw [if_neg he]
  refine Contract.Triple.bind (Q := fun _ => Here Settled .io) ?_ fun _ => ?_
  · refine triple_call rfl (At.lasts.and (lasts_io hrun)).stable
      (fun _ => (Here.lasts steady_settled).stable) ?_
    rintro s x - ⟨hs, hr⟩ h
    obtain ⟨hrun, hh⟩ := hr rfl
    cases h
    refine ⟨⟨hs.phase, by rw [hh]; simp⟩, ⟨hs.phase, hs.owner, hs.pdu2send⟩, fun _ => ⟨rfl, ?_⟩⟩
    rintro ⟨q, hq⟩
    have hq : s.running = some (.handleWrite q .success) := hq
    rw [hrun, Option.some.injEq, Handler.handleWrite.injEq] at hq
    exact he hq.2
  · refine (hn _ rfl rfl).bind fun stopFlag => Keeping.when steady_settled ?_
    exact (hn _ rfl rfl).bind fun _ => (hn _ rfl rfl).bind fun _ => hn _ rfl rfl

/-! ## The loops of the process -/

/-- `send_pdu` of the PDU in hand. -/
theorem triple_sendPdu {q : Ref} : (discipline cfg).Triple .sender
    (fun s => Here Settled .sender s ∧ s.inHand .sender = some q) (sendPdu cfg q)
    fun _ => Here Settled .sender := by
  have hlasts : Lasts cfg .sender fun s => Here Settled .sender s ∧ s.inHand .sender = some q :=
    (Here.lasts steady_settled).and lasts_inHand
  have hskip : (discipline cfg).Triple .sender
      (fun s => Here Settled .sender s ∧ s.inHand .sender = some q) (Prog.ret ())
      fun _ => Here Settled .sender :=
    (Keeping.ret steady_settled ()).pre fun _ _ hs => hs.1
  have hwrite : (discipline cfg).Triple .sender
      (fun s => Here Settled .sender s ∧ s.inHand .sender = some q) (doWrite cfg q .MESSAGE)
      fun _ => Here Settled .sender :=
    triple_doWrite_inHand steady_settled
  unfold sendPdu
  refine (triple_neutral (uses_call ⟨rfl, rfl⟩) hlasts).bind fun st => ?_
  cases st with
  | BOUND_TX =>
      refine (triple_neutral (uses_call ⟨rfl, rfl⟩) hlasts).bind fun p => ?_
      split <;> first | exact hwrite | exact hskip
  | BOUND_RX =>
      refine (triple_neutral (uses_call ⟨rfl, rfl⟩) hlasts).bind fun p => ?_
      split <;> first | exact hwrite | exact hskip
  | BOUND_TRX =>
      refine (triple_neutral (uses_call ⟨rfl, rfl⟩) hlasts).bind fun p => ?_
      split <;> first | exact hwrite | exact hskip
  | _ => exact hskip

/-- Sleeping is neutral. -/
theorem neutral_sleep (seconds : Nat) : Neutral t (sleep seconds) :=
  (uses_call ⟨rfl, rfl⟩).bind fun _ => uses_call ⟨rfl, rfl⟩

/-- One turn of `sendingProcessor`. -/
theorem keeping_sendingProcessor : Keeping cfg Settled .sender (sendingProcessor cfg) := by
  unfold sendingProcessor
  refine (Keeping.neutral steady_settled (uses_call ⟨rfl, rfl⟩)).bind fun empty => ?_
  split
  · exact Keeping.neutral steady_settled (neutral_sleep 1)
  refine Contract.Triple.bind (Q := fun o s => Here Settled .sender s ∧ s.inHand .sender = o) ?_
    fun o => ?_
  · refine triple_call rfl (Here.lasts steady_settled).stable (fun o => ?_) ?_
    · exact fun s s' hi hs hr hi' =>
        ⟨(Here.lasts steady_settled).stable s s' hi hs.1 hr hi', hr.inHand.trans hs.2⟩
    rintro s r - ⟨hs, hset⟩ h
    cases h
    have hin : Function.update s.inHand .sender s.sendingBuffer.head? .sender =
        s.sendingBuffer.head? := Function.update_self ..
    exact ⟨trivial, ⟨⟨hs.phase, hs.owner, hs.pdu2send⟩, hset⟩, hin⟩
  cases o with
  | none => exact (Keeping.ret steady_settled ()).pre fun _ _ hs => hs.1
  | some q =>
      refine Contract.Triple.bind triple_sendPdu fun _ => ?_
      refine triple_call rfl (Here.lasts steady_settled).stable
        (fun _ => (Here.lasts steady_settled).stable) ?_
      rintro s r - ⟨hs, hset⟩ h
      cases h
      exact ⟨trivial, ⟨hs.phase, hs.owner, hs.pdu2send⟩, hset⟩

/-- One turn of `recieveProcessor`. -/
theorem keeping_recieveProcessor : Keeping cfg Settled .receiver recieveProcessor := by
  refine Keeping.neutral steady_settled ?_
  unfold recieveProcessor
  refine (uses_call ⟨rfl, rfl⟩).bind fun empty => ?_
  split
  · exact neutral_sleep 1
  refine (uses_call ⟨rfl, rfl⟩).bind fun o => ?_
  cases o with
  | none => exact uses_call ⟨rfl, rfl⟩
  | some q =>
      refine (uses_call ⟨rfl, rfl⟩).bind fun a => ?_
      cases a <;> exact (uses_call ⟨rfl, rfl⟩).bind fun _ => uses_call ⟨rfl, rfl⟩

/-! ## Soundness -/

/-- A quiet thread stays quiet under the others. -/
theorem stable_quiet : (discipline cfg).Stable t (Quiet t) := fun _ _ _ hs hr _ =>
  ⟨hr.phase.trans hs.phase, hr.pdu2send.trans hs.pdu2send,
    fun hio => (hr.io hio).handling.trans (hs.handling hio)⟩

/-- Code that keeps the discipline leaves the thread quiet. -/
theorem Keeping.quiet (hG : Steady G) {p : Code Unit} (hp : Keeping cfg G t p) :
    (discipline cfg).Triple t (Here G t) p fun _ => Quiet t :=
  Contract.Triple.post hp fun _ s _ hs =>
    ⟨hs.1.phase, hs.1.pdu2send, fun hio => (hG.settled s (hs.2 hio)).1⟩

/-- A handler, from the state in which the io thread has taken it up. -/
theorem triple_body (h : Handler) : (discipline cfg).Triple .io
    (fun s => At .io .outside none s ∧
      (Tid.io = .io → s.running = some h ∧ s.handling = h.written?))
    (h.body cfg) fun _ => Quiet .io := by
  -- the handlers that have no PDU to deal with
  have hsettled : ∀ p : Code Unit, (∀ r, h ≠ .handleWrite r .success) → h.written? = none →
      Keeping cfg Settled .io p → (discipline cfg).Triple .io (fun s => At .io .outside none s ∧
        (Tid.io = .io → s.running = some h ∧ s.handling = h.written?)) p fun _ => Quiet .io := by
    intro p hne hw hp
    refine (hp.quiet steady_settled).pre fun s _ hs => ⟨hs.1, fun hio => ?_⟩
    obtain ⟨hrun, hh⟩ := hs.2 hio
    refine ⟨hh.trans hw, ?_⟩
    rintro ⟨r, hr⟩
    rw [hrun, Option.some.injEq] at hr
    exact hne r hr
  cases h with
  -- the two handlers that may reconnect
  | handleConnect e =>
      refine ((keeping_handleConnect e).quiet steady_reconnecting).pre ?_
      exact fun s _ hs => ⟨hs.1, fun hio => ⟨(hs.2 hio).2, .inr ⟨e, (hs.2 hio).1⟩⟩⟩
  | closeConnection =>
      refine (keeping_closeConnection.quiet steady_reconnecting).pre ?_
      exact fun s _ hs => ⟨hs.1, fun hio => ⟨(hs.2 hio).2, .inl (hs.2 hio).1⟩⟩
  | handleReadHeader raw e =>
      exact hsettled _ (fun _ => by simp) rfl (keeping_handleReadHeader steady_settled raw e)
  | handleReadBody raw e =>
      exact hsettled _ (fun _ => by simp) rfl (keeping_handleReadBody raw e)
  | doEnquireLink e =>
      exact hsettled _ (fun _ => by simp) rfl (keeping_doEnquireLink steady_settled e)
  | doEnquireLinkFailure e =>
      exact hsettled _ (fun _ => by simp) rfl (keeping_doEnquireLinkFailure steady_settled e)
  | w4rQAgeCleanup e =>
      exact hsettled _ (fun _ => by simp) rfl (keeping_w4rQAgeCleanup e)
  | handleWrite r e =>
      by_cases he : e = .success
      · subst he
        exact triple_handleWrite_success r
      · refine (triple_handleWrite_error he).conseq
          (fun s _ hs => ⟨hs.1, fun hio => ⟨(hs.2 hio).1, (hs.2 hio).2⟩⟩) ?_
        exact fun _ s _ hs => ⟨hs.1.phase, hs.1.pdu2send, fun hio => (hs.2 hio).1⟩

/-- A job, from the state in which its thread has taken it up. -/
theorem safe_job {j : Job} (h : j.take s = some s') (hi : Inv s) (hq : Quiet j.thread s) :
    (discipline cfg).Safe j.thread (fun _ => Quiet j.thread) (j.body cfg) s' := by
  have hi' := inv_take h hq hi
  cases j with
  | handler h' =>
      refine triple_body h' s' hi' ?_
      obtain ⟨-, rfl⟩ := Job.take_handler h
      exact ⟨⟨hq.phase, fun hne => absurd rfl hne, hq.pdu2send⟩, fun _ => ⟨rfl, rfl⟩⟩
  | send =>
      cases h
      exact (keeping_sendingProcessor.quiet steady_settled) s hi
        ⟨⟨hq.phase, fun hne => absurd rfl hne, hq.pdu2send⟩, fun hio => by cases hio⟩
  | receive =>
      cases h
      exact (keeping_recieveProcessor.quiet steady_settled) s hi
        ⟨⟨hq.phase, fun hne => absurd rfl hne, hq.pdu2send⟩, fun hio => by cases hio⟩
  | stop =>
      have hstop : Keeping cfg Settled .stopper (Job.body cfg .stop) :=
        (keeping_stop steady_settled).bind fun _ =>
          Keeping.neutral steady_settled (uses_call ⟨rfl, rfl⟩)
      refine (hstop.quiet steady_settled) s' hi' ?_
      cases h
      exact ⟨⟨hq.phase, fun hne => absurd rfl hne, hq.pdu2send⟩, fun hio => by cases hio⟩

/-- The queue begins with what an earlier process has left on its message level. -/
theorem mem_txQ_init {p : Persisted} {now : Nat} {r : Ref} (h : r ∈ (Session.init p now).txQ) :
    r < p.message.length := by
  obtain ⟨l, hl⟩ := h
  have hmsg : r ∈ Persisted.refs 0 p.message := by
    cases l with
    | MESSAGE => exact hl
    | SESSION => cases hl
    | RESPONSE => cases hl
  rw [Persisted.refs, List.mem_range'_1] at hmsg
  exact Nat.lt_of_lt_of_le hmsg.2 (by omega)

/-- Nothing else is in its reach. -/
theorem queued_init {p : Persisted} {now : Nat} {r : Ref} (h : (Session.init p now).Queued r) :
    r < p.message.length := by
  cases h with
  | waiting hr => exact mem_txQ_init hr
  | slot hr => cases hr
  | flight hr =>
      have hflight : (Session.init p now).inFlight = [] := rfl
      rw [hflight] at hr
      cases hr
  | awaiting hr =>
      obtain ⟨k, e, hk, -⟩ := hr
      have hempty : (∅ : AwaitingResponseMap)[k]? = some e := hk
      rw [Std.TreeMap.getElem?_emptyc] at hempty
      cases hempty
  | pushed l hr => simp [Session.init] at hr
  | wrote tbuf st conn hr => simp [Session.init] at hr

/-- The sending buffer begins with what an earlier process has left there. -/
theorem fresh_init {p : Persisted} {now : Nat} {r : Ref} (h : (Session.init p now).Fresh r) :
    p.message.length ≤ r ∧ r < p.message.length + p.sending.length := by
  rcases h with ⟨t, ht⟩ | hr
  · cases ht
  · have hsend : r ∈ Persisted.refs p.message.length p.sending := hr
    rw [Persisted.refs, List.mem_range'_1] at hsend
    exact hsend

/-- The references of the queues read back at the start denote objects. -/
theorem inv_init (p : Persisted) (now : Nat) : Inv (Session.init p now) := by
  have hlen : (Session.init p now).heap.length = p.message.length + p.sending.length +
      p.recieve.length + p.rcvErr.length + p.session.length + p.response.length := by
    simp only [Session.init, Session.opened, Persisted.heap, List.length_map, List.length_append]
  have hflight : (Session.init p now).inFlight = [] := rfl
  refine ⟨fun t ht => absurd rfl ht, fun r hr => ?_, fun r hr => ?_, fun r hr => ?_⟩
  · rw [hflight] at hr
    cases hr
  · rw [hlen]
    exact Nat.lt_of_lt_of_le (queued_init hr) (by omega)
  · rw [hlen]
    exact Nat.lt_of_lt_of_le (fresh_init hr).2 (by omega)

/-- **The code keeps the discipline in every run.** -/
theorem discipline_sound (cfg : Params) (p : Persisted) (now : Nat) :
    (discipline cfg).Sound (Machine.init p now) where
  inv_init := inv_init p now
  safe_init _ := fun _ hr hi => stable_quiet _ _ (inv_init p now) ⟨rfl, rfl, fun _ => rfl⟩ hr hi
  env _ _ _ hi h := ⟨inv_env h hi, relies_env h⟩
  take _ _ _ hi hq _ h :=
    ⟨inv_take h hq hi, fun _ hu => relies_take h hu, safe_job h hi hq⟩

/-! ## What every run keeps -/

variable {g : Guard Op Tid Session Job} {p : Persisted} {now : Nat} {c : Machine}

/-- The discipline may be assumed of every move of a run. -/
theorem Runs.disciplined (h : Runs cfg g p now c) :
    Reach (system cfg) (g.also (discipline cfg)).Allows (Machine.init p now) c :=
  (discipline_sound cfg p now).reach_also (fun c m _ => Guard.free_allows c m) h

/-- The invariant of the discipline holds throughout every run. -/
theorem Runs.inv (h : Runs cfg g p now c) : Inv c.shared :=
  (discipline_sound cfg p now).reach_inv (h.mono fun c m _ => Guard.free_allows c m)

/-- What a thread knows when it performs its next operation. -/
theorem Runs.known_next (h : Runs cfg g p now c) {op : Op} {k : op.Res → Code Unit}
    (hcode : c.code t = .step op k) {r : op.Res × Session} (hx : exec cfg t op c.shared = some r) :
    op.mayRun t = true ∧ Known t op c.shared :=
  (discipline_sound cfg p now).reach_fact (h.mono fun c m _ => Guard.free_allows c m) hcode trivial hx

/-- **Induction over the operations of a run.** An assertion `K` on the shared state that holds at the
start and is kept by every operation that is known to be in order, by the environment, and by the start
of every job, holds throughout the runs under the guard `g`; another assertion `I` that is known of
these runs may be used on the way. -/
theorem Runs.dataWith {I K : Session → Prop} (hI : ∀ c, Runs cfg g p now c → I c.shared)
    (h : Runs cfg g p now c) (h0 : K (Session.init p now))
    (hop : ∀ t op s r, Inv s → I s → K s → g.op t op s → op.mayRun t = true → Known t op s →
      perform cfg t op s = some r → K r.2)
    (henv : ∀ (e : Env) s s', Inv s → I s → K s → e.perform cfg s = some s' → K s')
    (htake : ∀ (j : Job) s s', Inv s → I s → Quiet j.thread s → K s → g.job j s →
      j.take s = some s' → K s') :
    K c.shared := by
  refine Reach.data (I := fun s => Inv s ∧ I s) (K := K) ?_ h0 ?_ ?_ ?_ h.disciplined
  · intro c hc
    have hr : Runs cfg g p now c := hc.mono fun c m hm => Guard.also_allows hm
    exact ⟨hr.inv, hI c hr⟩
  · rintro t op s r ⟨hi, hI⟩ hK ⟨hg, -, hm, hk⟩ hx
    exact hop t op s r hi hI hK hg hm hk (perform_of_exec hx).2
  · exact fun e s s' hi hK h => henv e s s' hi.1 hi.2 hK h
  · rintro j s s' ⟨hi, hI⟩ hK ⟨hg, -, hq⟩ h
    exact htake j s s' hi hI hq hK hg h

/-- **An assertion about the session**, kept by operations, the environment and the start of a job,
holds in every run. -/
theorem Runs.data {K : Session → Prop} (h : Runs cfg g p now c) (h0 : K (Session.init p now))
    (hop : ∀ t op s r, Inv s → K s → g.op t op s → op.mayRun t = true → Known t op s →
      perform cfg t op s = some r → K r.2)
    (henv : ∀ (e : Env) s s', Inv s → K s → e.perform cfg s = some s' → K s')
    (htake : ∀ (j : Job) s s', Inv s → Quiet j.thread s → K s → g.job j s → j.take s = some s' →
      K s') :
    K c.shared :=
  Runs.dataWith (I := fun _ => True) (fun _ _ => trivial) h h0
    (fun t op s r hi _ hK hg hm hk hx => hop t op s r hi hK hg hm hk hx)
    (fun e s s' hi _ hK hx => henv e s s' hi hK hx)
    fun j s s' hi _ hq hK hg hx => htake j s s' hi hq hK hg hx

/-- An assertion about the session, kept by operations that find the facts of a further contract,
holds in every run. -/
theorem Runs.dataAlso {L : Contract (system cfg)} {K : Session → Prop}
    (hL : L.Sound (Machine.init p now)) (hguard : L.guard = g.also (discipline cfg))
    (h : Runs cfg g p now c) (h0 : K (Session.init p now))
    (hop : ∀ t op s r, Inv s → K s → g.op t op s → op.mayRun t = true → Known t op s →
      L.fact t op s → perform cfg t op s = some r → K r.2)
    (henv : ∀ (e : Env) s s', Inv s → K s → e.perform cfg s = some s' → K s')
    (htake : ∀ (j : Job) s s', Inv s → Quiet j.thread s → K s → g.job j s → j.take s = some s' →
      K s') :
    K c.shared := by
  have hdisc := h.disciplined
  have hfacts : Reach (system cfg) ((g.also (discipline cfg)).also L).Allows
      (Machine.init p now) c :=
    hL.reach_also (fun c m hm => by rw [hguard]; exact hm) hdisc
  refine Reach.data (I := Inv) (K := K) ?_ h0 ?_ ?_ ?_ hfacts
  · intro c hc
    exact Runs.inv (hc.mono fun c m hm => Guard.also_allows (Guard.also_allows hm))
  · rintro t op s r hi hK ⟨⟨hg, -, hm, hk⟩, -, hf⟩ hx
    exact hop t op s r hi hK hg hm hk hf (perform_of_exec hx).2
  · exact fun e s s' hi hK h => henv e s s' hi hK h
  · rintro j s s' hi hK ⟨⟨hg, -, hq⟩, -⟩ h
    exact htake j s s' hi hq hK hg h

end KissSmpp
