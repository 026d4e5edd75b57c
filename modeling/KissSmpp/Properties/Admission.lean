import KissSmpp.Interleave.OneThread
import KissSmpp.Session.Calls

/-! # Messages on a bound session

`send_pdu` lets a message through to `do_write` in a state that admits it, but the message is handed
to `async_write` later, and `do_write` has other callers. What is known of the state then depends on
the way the message has come: the ageing sweep asks for no state, `handle_write` for any bound state,
and between a test and `async_write` a thread may wait for `writeMutex` and for the throttle. Where
none of these lets a message pass in a state that does not admit it (`admitting`), none is written in
such a state. -/

namespace KissSmpp

open Interleave Queue

variable {cfg : Params} {t : Tid} {s s' : Session}

/-! ## What a state admits -/

/-- The PDUs that `send4state_bound_tx`, `send4state_bound_rx` and `send4state_bound_trx` pass on. -/
def State.admits : State → CommandId → Bool
  | .BOUND_TX, c =>
    match c with
    | .BroadcastSm | .CancelBroadcastSm | .CancelSm | .DataSm | .QueryBroadcastSm | .QuerySm
    | .ReplaceSm | .SubmitMulti | .SubmitSm => true
    | _ => false
  | .BOUND_RX, c =>
    match c with
    | .DataSmResp | .DeliverSmResp => true
    | _ => false
  | .BOUND_TRX, c =>
    match c with
    | .BroadcastSm | .CancelBroadcastSm | .CancelSm | .DataSm | .DataSmResp | .DeliverSmResp
    | .QueryBroadcastSm | .QuerySm | .ReplaceSm | .SubmitMulti | .SubmitSm => true
    | _ => false
  | _, _ => false

/-- What `send_pdu` does with a PDU it is given in the state `st`. -/
def letThrough (cfg : Params) (st : State) (pdu : Ref) (p : Pdu) : Code Unit :=
  if st.admits p.commandId = true then doWrite cfg pdu .MESSAGE else return

/-- `send4state_bound_tx` lets through what `BOUND_TX` admits. -/
theorem send4stateBoundTx_eq (pdu : Ref) :
    send4stateBoundTx cfg pdu = call (.getPdu pdu) >>= letThrough cfg .BOUND_TX pdu := by
  unfold send4stateBoundTx
  congr 1
  funext p
  unfold letThrough
  cases p.commandId <;> rfl

/-- `send4state_bound_rx` lets through what `BOUND_RX` admits. -/
theorem send4stateBoundRx_eq (pdu : Ref) :
    send4stateBoundRx cfg pdu = call (.getPdu pdu) >>= letThrough cfg .BOUND_RX pdu := by
  unfold send4stateBoundRx
  congr 1
  funext p
  unfold letThrough
  cases p.commandId <;> rfl

/-- `send4state_bound_trx` lets through what `BOUND_TRX` admits. -/
theorem send4stateBoundTrx_eq (pdu : Ref) :
    send4stateBoundTrx cfg pdu = call (.getPdu pdu) >>= letThrough cfg .BOUND_TRX pdu := by
  unfold send4stateBoundTrx
  congr 1
  funext p
  unfold letThrough
  cases p.commandId <;> rfl

/-- **`send_pdu` passes on what the state admits**, and nothing in a state that is not bound. -/
theorem sendPdu_eq (pdu : Ref) :
    sendPdu cfg pdu = call .getState >>= fun st =>
      if st.isBound = true then call (.getPdu pdu) >>= letThrough cfg st pdu else return := by
  unfold sendPdu
  congr 1
  funext st
  cases st with
  | BOUND_TX => exact send4stateBoundTx_eq pdu
  | BOUND_RX => exact send4stateBoundRx_eq pdu
  | BOUND_TRX => exact send4stateBoundTrx_eq pdu
  | _ => rfl

/-- A bound state admits messages unless it is `BOUND_RX`. -/
theorem State.admits_of_isBound {st : State} {c : CommandId} (hst : st.isBound = true)
    (hrx : st ≠ .BOUND_RX) (hc : c.isMessage = true) : st.admits c = true := by
  cases st with
  | BOUND_TX => cases c <;> first | rfl | cases hc
  | BOUND_TRX => cases c <;> first | rfl | cases hc
  | BOUND_RX => exact absurd rfl hrx
  | _ => cases hst

namespace Session

/-- If the PDU is a message, the session's state admits it. -/
def Admitted (s : Session) (r : Ref) : Prop :=
  (s.pdu r).commandId.isMessage = true → s.currentState.admits (s.pdu r).commandId = true

/-- Whether a PDU is admitted can be read off its command id and the state. -/
instance (s : Session) (r : Ref) : Decidable (s.Admitted r) :=
  inferInstanceAs (Decidable (_ → _))

/-- The PDUs a thread may be about to hand to `async_write`: those in the queue it has found empty,
and the one it has popped. -/
def toWrite (s : Session) (u : Tid) : List Ref :=
  (if s.phase u = .found true then s.txQ.toList else []) ++ (s.pdu2send u).toList

/-- A thread may be about to write what is in the queue it has found empty, and what it has popped.
-/
theorem mem_toWrite {u : Tid} {r : Ref} :
    r ∈ s.toWrite u ↔ (s.phase u = .found true ∧ r ∈ s.txQ) ∨ s.pdu2send u = some r := by
  unfold toWrite
  rw [List.mem_append, Option.mem_toList]
  by_cases h : s.phase u = .found true
  · rw [if_pos h, PrioQ.mem_toList]
    simp [h]
  · rw [if_neg h]
    simp [h]

end Session

open Session

/-- **No message passes in a state that does not admit it**: not in a `do_write` that goes on to write,
nor in a `handle_write` that does (which has tested that the session is bound), nor into a queue that
has been found empty; and the state does not change to such a one under a message that is about to be
written. -/
def admitting : Guard Op Tid Session Job where
  op t op s := match op with
    | .txPush r _ => s.phase t = .found true → s.Admitted r
    | .txPop => s.phase t = .found false →
        ∀ r ∈ s.txQ.pop.1, (s.pdu r).commandId.isMessage = true → s.currentState ≠ .BOUND_RX
    | .setState p => ∀ u ∈ Tid.all, ∀ r ∈ s.toWrite u, { s with currentState := p }.Admitted r
    | .txPushBackLastPop =>
        (∃ u ∈ Tid.all, s.phase u = .found true) → ∀ r ∈ s.slot, s.Admitted r
    | _ => True
  job _ _ := True

/-- The guard can be evaluated, operation by operation. -/
instance : admitting.Checkable where
  op t op s := by
    apply Op.casesOn (motive := fun op => Decidable (admitting.op t op s)) op <;> intros <;>
      unfold admitting <;> exact inferInstance
  job _ _ := inferInstanceAs (Decidable True)

/-! ## `handle_write` goes on in a bound state only -/

/-- **The contract on the io thread**: in a `handle_write` a PDU is popped in a bound state. -/
def draining (cfg : Params) (g : Guard Op Tid Session Job) : Focus (system cfg) where
  thread := .io
  guard := g.also (discipline cfg)
  inv _ := True
  fact op s := op = .txPop → s.InHandleWrite → s.currentState.isBound = true
  rely s s' := s'.currentState = s.currentState ∧ s'.running = s.running
  idle _ := True
  rely_refl _ := ⟨rfl, rfl⟩
  rely_trans _ _ _ h h' := ⟨h'.1.trans h.1, h'.2.trans h.2⟩

variable {g : Guard Op Tid Session Job}

/-- What the other threads do is a step of the focus on the io thread. -/
theorem steps_draining : (draining cfg g).Steps where
  op t op s r _ hg hx := by
    obtain ⟨-, hx⟩ := perform_of_exec hx
    exact ⟨trivial, fun ht => ⟨currentState_other hx hg.2.2.1 ht, perform_running hx⟩⟩
  env e s s' _ hx :=
    ⟨trivial, env_same (f := .currentState) hx (by simp), env_same (f := .running) hx (by simp)⟩
  take j s s' _ _ hx := by
    refine ⟨trivial, fun hj => ?_⟩
    cases j with
    | handler q => exact absurd rfl hj
    | send => cases hx; exact ⟨rfl, rfl⟩
    | receive => cases hx; exact ⟨rfl, rfl⟩
    | stop => cases hx; exact ⟨rfl, rfl⟩

/-- Code that leaves the state alone, where a pop finds a bound state. -/
theorem triple_draining {α : Type} {p : Code α} {P : State → Prop}
    (hp : p.Uses fun op => Field.currentState ∉ op.writes ∧
      (op = .txPop → ∀ st, P st → st.isBound = true)) :
    (draining cfg g).contract.Triple .io (fun s => P s.currentState) p
      fun _ s => P s.currentState := by
  apply Focus.Steps.triple_uses steps_draining hp
  · exact Focus.stable fun s s' _ _ hr hs => hr.1.symm ▸ hs
  · intro op s r hop _ hs _ hx
    have hst : r.2.currentState = s.currentState :=
      perform_same (f := .currentState) (perform_of_exec hx).2 hop.1
    exact ⟨fun heq _ => hop.2 heq _ hs, hst.symm ▸ hs⟩

/-- `canSend` holds in a bound state only. -/
theorem triple_canSend_bound : (draining cfg g).contract.Triple .io (fun _ => True) canSend
    fun b s => b = true → s.currentState.isBound = true := by
  have hfalse : (draining cfg g).contract.Triple .io (fun _ => True) (.ret false)
      fun b s => b = true → s.currentState.isBound = true :=
    fun _ _ _ _ _ _ hb => by cases hb
  unfold canSend
  apply (triple_draining (P := fun _ => True) (uses_call (by simp))).bind
  intro size
  split
  · apply Contract.Triple.bind (Q := fun st s => s.currentState = st)
    · refine Focus.Steps.triple_op steps_draining .const (fun st => ?_) fun s r _ _ _ hx => ?_
      · exact Focus.stable fun s s' _ _ hr hs => hr.1.trans hs
      · obtain ⟨-, hx⟩ := perform_of_exec hx
        cases hx
        exact ⟨fun heq => (by cases heq), rfl⟩
    · intro st s _ hs s' hr _ hb
      rw [(hr rfl).1, hs]
      exact hb
  · exact hfalse

/-- **`handle_write` on a PDU that has been written.** -/
theorem triple_handleWritten_bound (o : Option Ref) : (draining cfg g).contract.Triple .io
    (fun _ => True) (handleWritten cfg o) fun _ _ => True := by
  -- only the state at the pop matters, and nothing but `canSend` decides it
  have hquiet : ∀ {α : Type} {p : Code α},
      (p.Uses fun op => Field.currentState ∉ op.writes ∧ op ≠ .txPop) →
        (draining cfg g).contract.Triple .io (fun _ => True) p fun _ _ => True :=
    fun hp => triple_draining (P := fun _ => True)
      (hp.mono fun op hop => ⟨hop.1, fun heq => absurd heq hop.2⟩)
  cases o with
  | none => exact hquiet (uses_call (by simp))
  | some q =>
      unfold handleWritten w4rQPut
      apply (hquiet _).bind
      · intro _
        apply (hquiet (uses_call (by simp))).bind
        intro _
        apply triple_canSend_bound.bind
        intro mayWrite
        cases mayWrite with
        | false => exact fun _ _ _ _ _ _ => trivial
        | true =>
            show (draining cfg g).contract.Triple .io
              (fun s => true = true → s.currentState.isBound = true)
              (call .txEmpty >>= fun e => Prog.when (!e) (writePdu cfg)) fun _ _ => True
            -- the state that `canSend` has found stays until the pop
            refine ((triple_draining (P := fun st => st.isBound = true) ?_).conseq
              (fun _ _ hs => hs rfl) fun _ _ _ _ => trivial)
            refine uses_then ⟨by simp, fun heq => (by cases heq)⟩ fun e => Prog.Uses.when ?_
            apply ofWritePdu_writePdu.mono
            intro op hop
            refine ⟨?_, fun _ _ hst => hst⟩
            cases op <;> first | simp; done | simp [Op.ofWritePdu] at hop
      · refine uses_then (by simp) fun p => Prog.Uses.when ?_
        exact uses_then (by simp) fun _ => uses_then (by simp) fun _ => uses_call (by simp)

/-- `handle_write` goes on with the queue only after it has tested that the session is bound. -/
theorem triple_handleWrite_bound : (draining cfg g).contract.Triple .io
    (fun _ => True) (handleWrite cfg .success) fun _ _ => True := by
  have hquiet : ∀ {op : Op}, Field.currentState ∉ op.writes ∧ op ≠ .txPop →
      (draining cfg g).contract.Triple .io (fun _ => True) (call op) fun _ _ => True :=
    fun hop => triple_draining (P := fun _ => True)
      (uses_call ⟨hop.1, fun heq => absurd heq hop.2⟩)
  unfold handleWrite
  rw [if_pos rfl]
  apply (hquiet (by simp)).bind
  intro _
  apply (hquiet (by simp)).bind
  intro lastPop
  exact (triple_handleWritten_bound lastPop).bind fun _ => hquiet (by simp)

variable {p : Persisted} {now : Nat} {c : Machine}

/-- **The focus on the queue is sound**: the io thread goes on with it in a bound session only. -/
theorem draining_sound (cfg : Params) (g : Guard Op Tid Session Job) (p : Persisted) (now : Nat) :
    (draining cfg g).contract.Sound (Machine.init p now) := by
  refine sound_of_handlers steps_draining rfl trivial trivial .const ?_
  intro q s s' _ _ _ _ hx
  obtain ⟨-, rfl⟩ := Job.take_handler hx
  by_cases hq : ∃ r, q = .handleWrite r .success
  · obtain ⟨r, rfl⟩ := hq
    exact triple_handleWrite_bound _ trivial trivial
  · -- in another handler there is nothing to show
    have hrun : (draining cfg g).contract.Stable .io fun s => s.running = some q :=
      Focus.stable fun s s' _ _ hr hs => hr.2.trans hs
    have hbody := Focus.Steps.triple_any steps_draining hrun ?_ (q.body cfg)
    · exact (hbody.post fun _ _ _ _ => trivial) _ trivial rfl
    intro op s₁ r _ hs _ hx
    obtain ⟨-, hx⟩ := perform_of_exec hx
    have hsame : r.2.running = s₁.running := perform_running hx
    refine ⟨fun _ hhw => ?_, hsame.trans hs⟩
    obtain ⟨r', hr'⟩ := hhw
    rw [hs, Option.some.injEq] at hr'
    exact absurd ⟨r', hr'⟩ hq

/-! ## The PDUs about to be written -/

namespace Session

/-- **What the runs keep**: the messages about to be written are admitted, and those handed to
`async_write` were. -/
structure Admits (s : Session) : Prop where
  about : ∀ u, ∀ r ∈ s.toWrite u, s.Admitted r
  wrote : ∀ r tbuf st conn, .wrote r tbuf st conn ∈ s.hist → tbuf.commandId.isMessage = true →
    st.admits tbuf.commandId = true

/-- A PDU stays admitted while the state and its kind do. -/
theorem Admitted.same {r : Ref} (hst : s'.currentState = s.currentState)
    (hc : (s'.pdu r).commandId = (s.pdu r).commandId) (h : s.Admitted r) : s'.Admitted r := by
  unfold Admitted
  rw [hst, hc]
  exact h

end Session

/-- **A PDU a thread may be about to write** was so before, or has just been pushed by the thread, has
just been popped by it, or has just been pushed back. -/
theorem mem_toWrite_perform {op : Op} {x : op.Res × Session} (h : perform cfg t op s = some x)
    (hi : Inv s) (hk : Known t op s) {u : Tid} {r : Ref} (hr : r ∈ x.2.toWrite u) :
    r ∈ s.toWrite u ∨ (∃ l, op = .txPush r l ∧ u = t ∧ s.phase t = .found true) ∨
      (op = .txPop ∧ u = t ∧ s.txQ.pop.1 = some r) ∨
      (op = .txPushBackLastPop ∧ s.phase u = .found true ∧ s.slot = some r) := by
  rcases mem_toWrite.mp hr with ⟨hfound, hq⟩ | hp
  · rcases found_or_empty h hfound with hph | ⟨rfl, hempty⟩
    · rcases mem_txQ_perform h hq with hq | ⟨l, rfl⟩ | ⟨rfl, hslot⟩
      · exact .inl (mem_toWrite.mpr (.inl ⟨hph, hq⟩))
      · -- only the thread in the critical section pushes
        have hown := hi.mutex u (by rw [hph]; simp)
        have hown' : s.owner .writeMutex = some t := hk.1
        rw [hown, Option.some.injEq] at hown'
        subst hown'
        exact .inr (.inl ⟨l, rfl, rfl, hph⟩)
      · exact .inr (.inr (.inr ⟨rfl, hph, hslot⟩))
    · -- the queue has just been found empty
      rcases mem_txQ_perform h hq with hq | ⟨l, hl⟩ | ⟨hl, -⟩
      · exact absurd hq (PrioQ.empty_iff_forall_not_mem.mp hempty r)
      · cases hl
      · cases hl
  · rcases pdu2send_perform h hp with hp | hpop
    · exact .inl (mem_toWrite.mpr (.inr hp))
    · exact .inr (.inr (.inl hpop))

/-- A PDU a thread may be about to write is an object. -/
theorem lt_of_mem_toWrite (hi : Inv s) {u : Tid} {r : Ref} (hr : r ∈ s.toWrite u) :
    r < s.heap.length := by
  rcases mem_toWrite.mp hr with ⟨-, hq⟩ | hp
  · exact hi.queued r (.waiting hq)
  · exact hi.queued r (.flight (mem_inFlight.mpr (.inl ⟨u, hp⟩)))

/-- **Every operation that meets the guard keeps it so.** -/
theorem admits_perform {op : Op} {x : op.Res × Session} (hi : Inv s) (hK : s.Admits)
    (hg : admitting.op t op s) (hm : op.mayRun t = true) (hk : Known t op s)
    (hf : t = .io → op = .txPop → s.InHandleWrite → s.currentState.isBound = true)
    (h : perform cfg t op s = some x) : x.2.Admits := by
  have hkind : ∀ r, r < s.heap.length → (x.2.pdu r).commandId = (s.pdu r).commandId :=
    fun r hr => commandId_perform h hr
  refine ⟨fun u r hr => ?_, fun r tbuf st conn hw hc => ?_⟩
  · by_cases hset : ∃ st, op = .setState st
    · -- the new state must admit what is about to be written
      obtain ⟨st, rfl⟩ := hset
      cases h
      exact hg u (Tid.mem_all u) r hr
    · have hst : x.2.currentState = s.currentState := perform_currentState h (not_exists.mp hset)
      rcases mem_toWrite_perform h hi hk hr with hold | ⟨l, rfl, rfl, hph⟩ | ⟨rfl, rfl, hpop⟩ |
        ⟨rfl, hph, hslot⟩
      · -- it was about to be written before
        exact (hK.about u r hold).same hst (hkind r (lt_of_mem_toWrite hi hold))
      · have hlt : r < s.heap.length := by
          -- the thread in the critical section pushes it: the queue was empty
          rcases hk.2 with hin | ⟨-, -, hin⟩
          · exact hi.fresh r (.inl ⟨u, hin⟩)
          · exact hi.queued r (.awaiting hin)
        exact (hg hph).same hst (hkind r hlt)
      · have hmem : r ∈ s.txQ := PrioQ.mem_iff_pop.mpr (.inl hpop)
        -- it is popped, by the thread that stood before it or by `handle_write`
        refine Admitted.same hst (hkind r (hi.queued r (.waiting hmem))) ?_
        rcases hk.2.2 with hph | ⟨hio, hph, hhw, -, -⟩
        · exact hK.about u r (mem_toWrite.mpr (.inl ⟨hph, hmem⟩))
        · -- `canSend` has found a bound state
          intro hc
          exact State.admits_of_isBound (hf hio rfl hhw) (hg hph r hpop hc) hc
      · -- it is put back while a thread stands before its pop
        exact (hg ⟨u, Tid.mem_all u, hph⟩ r hslot).same hst (hkind r (hi.queued r (.slot hslot)))
  · rw [perform_hist h, List.mem_append] at hw
    -- what is handed to `async_write` was about to be written
    rcases hw with hw | hw
    · cases op with
      | asyncWrite q tbuf' =>
          simp only [Op.logs, List.mem_singleton, Event.wrote.injEq] at hw
          obtain ⟨rfl, rfl, rfl, -⟩ := hw
          obtain ⟨-, hsend, rfl⟩ := hk
          exact hK.about t r (mem_toWrite.mpr (.inr hsend)) hc
      | _ => simp at hw
    · exact hK.wrote r tbuf st conn hw hc

/-- The environment keeps it so. -/
theorem admits_env {e : Env} (hi : Inv s) (hK : s.Admits) (h : e.perform cfg s = some s') :
    s'.Admits := by
  have hst : s'.currentState = s.currentState := env_same (f := .currentState) h (by simp)
  have hph : s'.phase = s.phase := env_same (f := .phase) h (by simp)
  have hq : s'.txQ = s.txQ := env_same (f := .txQ) h (by simp)
  have hsend : s'.pdu2send = s.pdu2send := env_same (f := .pdu2send) h (by simp)
  refine ⟨fun u r hr => ?_, fun r tbuf st conn hw => ?_⟩
  · unfold toWrite at hr
    rw [hph, hq, hsend] at hr
    exact (hK.about u r hr).same hst (congrArg _ ((pdu_env h).2 r (lt_of_mem_toWrite hi hr)))
  · exact hK.wrote r tbuf st conn (mem_hist_of_env h hw nofun nofun)

/-- The start of a job keeps it so. -/
theorem admits_take {j : Job} (hK : s.Admits) (h : j.take s = some s') : s'.Admits := by
  have hst : s'.currentState = s.currentState := take_same (f := .currentState) h (by simp)
  have hph : s'.phase = s.phase := take_same (f := .phase) h (by simp)
  have hq : s'.txQ = s.txQ := take_same (f := .txQ) h (by simp)
  have hsend : s'.pdu2send = s.pdu2send := take_same (f := .pdu2send) h (by simp)
  refine ⟨fun u r hr => ?_, fun r tbuf st conn hw => ?_⟩
  · unfold toWrite at hr
    rw [hph, hq, hsend] at hr
    exact (hK.about u r hr).same hst (congrArg _ ((pdu_take h).2 r))
  · exact hK.wrote r tbuf st conn (mem_hist_of_take h hw nofun nofun)

/-- What the runs under the guard keep. -/
theorem Runs.admits (h : Runs cfg admitting p now c) : c.shared.Admits := by
  refine Runs.dataAlso (draining_sound cfg admitting p now) rfl h ⟨fun u r hr => ?_, ?_⟩ ?_ ?_ ?_
  · simp [Session.init, Session.opened, toWrite] at hr
  · intro r tbuf st conn hw
    simp [Session.init] at hw
  · intro t op s x hi hK hg hm hk hf hx
    exact admits_perform hi hK hg hm hk (fun hio => hf hio) hx
  · exact fun e s s' hi hK hx => admits_env hi hK hx
  · exact fun j s s' _ _ hK _ hx => admits_take hK hx

/-! ## Messages travel on a bound session -/

/-- **A message is handed to `async_write` only in a state that admits it**, in every run in which none
passes in a state that does not. -/
theorem message_needs_bind (h : Runs cfg admitting p now c) {r : Ref} {tbuf : Pdu} {st : State}
    {conn : Option Nat} (hw : .wrote r tbuf st conn ∈ c.shared.hist)
    (hmsg : tbuf.commandId.isMessage = true) :
    st.isBound = true ∧ st.admits tbuf.commandId = true := by
  have hadm := h.admits.wrote r tbuf st conn hw hmsg
  refine ⟨?_, hadm⟩
  cases st <;> first | rfl | cases hadm

/-- A message sent on a session that is bound. -/
theorem message_needs_bind_first_send :
    State.BOUND_TRX.isBound = true ∧ State.BOUND_TRX.admits .SubmitSm = true :=
  have hrun : Runs sampleParams admitting .none 0
      (Machine.after sampleParams .none (Schedule.bind ++ Schedule.send)) :=
    runs_under (g := admitting) (by decide +kernel)
  have hw : .wrote 1 ⟨.SubmitSm, ESME_ROK, 3, .octets [], none⟩ .BOUND_TRX (some 1) ∈
      (Machine.after sampleParams .none (Schedule.bind ++ Schedule.send)).shared.hist := by
    decide +kernel
  message_needs_bind hrun hw rfl

/-- A message awaits its response when the peer ends the connection, and is aged. -/
def agedAfterEof : List Step :=
  Schedule.bind ++ Schedule.sendWritten 1 ++ [.env (.elapse 31000000)] ++
    Schedule.complete .readHeader .none .eof ++ [.env (.expire .w4rQAgeing)] ++
    Schedule.handle (.w4rQAgeCleanup .success)

/-- Without the condition a message is written in `CLOSED`: the ageing sweep re-sends it. -/
theorem message_written_in_closed : ¬∀ (cfg : Params) (p : Persisted) (now : Nat) (c : Machine),
    Runs cfg Guard.free p now c → ∀ r tbuf st conn, .wrote r tbuf st conn ∈ c.shared.hist →
      tbuf.commandId.isMessage = true →
        st.isBound = true ∧ st.admits tbuf.commandId = true := by
  intro h
  have hwrote := h _ _ _ _ (runs_after sampleParams .none agedAfterEof) 1
    ⟨.SubmitSm, ESME_ROK, 3, .octets [], none⟩ .CLOSED (some 1) (by decide +kernel) rfl
  cases hwrote.1

end KissSmpp
