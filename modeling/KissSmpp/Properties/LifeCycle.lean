import KissSmpp.Session.Calls

/-! # The life of a session

`currentState` is written in nine places, by handlers that look at it, if at all, long before they write.
`LifeCycle` is the machine a reader of the protocol expects behind it: a session opens with its connection,
is bound by a positive response to its bind request, is unbound by the peer or falls back to `OPEN` when its
own unbind request is answered, and is closed at any time. `lives` shows that the session follows this
machine: each change of its state is a step of it, made by the io thread in a handler that is about the
trigger of that step. `OUTBOUND`, which only the tests of the state mention, is never reached. -/

namespace KissSmpp

open Interleave Queue

variable {cfg : Params} {t : Tid} {s s' : Session} {p : Persisted} {now : Nat} {c c' : Machine}

/-! ## The abstract machine -/

/-- What makes a session change its state. -/
inductive Trigger
  /-- A connection has been established, or lost. -/
  | established
  | lost
  /-- The peer has accepted the session in this bound state. -/
  | accepted (st : State)
  /-- The peer has asked for the session to be unbound, or has answered such a request. -/
  | unbound
  | released
  deriving DecidableEq, Repr

/-- **The life of a session**: where a trigger leads. -/
def LifeCycle : Trigger → State → Option State
  | .established, _ => some .OPEN
  | .lost, _ => some .CLOSED
  | .accepted st', st => if st = .OPEN ∧ st'.isBound then some st' else none
  | .unbound, st => if st.isBound then some .UNBOUND else none
  | .released, st => if st.isBound then some .OPEN else none

/-- No step leads to `OUTBOUND`. -/
theorem LifeCycle.ne_outbound {tr : Trigger} {st st' : State} (h : LifeCycle tr st = some st') :
    st' ≠ .OUTBOUND := by
  rintro rfl
  cases tr with
  | accepted st' =>
      obtain ⟨⟨-, hb⟩, h⟩ := Option.ite_none_right_eq_some.mp h
      cases h
      cases hb
  | unbound => cases (Option.ite_none_right_eq_some.mp h).2
  | released => cases (Option.ite_none_right_eq_some.mp h).2
  | established => cases h
  | lost => cases h

/-! ## What the handlers are about -/

/-- **The triggers a handler is about.** -/
def Handler.concerns : Handler → Trigger → Prop
  | .handleConnect e, tr => e = .success ∧ tr = .established
  | .closeConnection, tr => tr = .lost
  | .handleReadHeader _ e, tr => e = .eof ∧ tr = .lost
  | .handleWrite _ e, tr => e ≠ .success ∧ tr = .lost
  | .handleReadBody raw e, tr =>
      match tr with
      | .lost => e = .eof
      | .accepted st => e = .success ∧ raw.cmdStatus = ESME_ROK ∧
          st.bindResp? = some (CommandId.ofValue raw.cmdId)
      | .unbound => e = .success ∧ raw.decodes = true ∧ CommandId.ofValue raw.cmdId = .Unbind
      | .released => e = .success ∧ CommandId.ofValue raw.cmdId = .UnbindResp
      | .established => False
  | _, _ => False

/-- The handler that runs may bring the session into this state. -/
def Session.MayEnter (s : Session) (st' : State) : Prop :=
  ∃ q tr, s.running = some q ∧ q.concerns tr ∧ LifeCycle tr s.currentState = some st'

/-! ## The contract on the io thread -/

/-- **The contract on the io thread**: it changes the state along the life cycle, and leaves `OUTBOUND`
alone. -/
def living (cfg : Params) : Focus (system cfg) where
  thread := .io
  guard := known cfg Guard.free
  inv _ := True
  fact op s := ∀ st, op = .setState st → s.MayEnter st
  rely s s' := s'.running = s.running ∧ s'.currentState = s.currentState
  idle s := s.currentState ≠ .OUTBOUND
  rely_refl _ := ⟨rfl, rfl⟩
  rely_trans _ _ _ h h' := ⟨h'.1.trans h.1, h'.2.trans h.2⟩

/-- What the other threads do is a step of the focus on the io thread. -/
theorem steps_living : (living cfg).Steps where
  op t op s r _ hg hx := by
    obtain ⟨-, hx⟩ := perform_of_exec hx
    exact ⟨trivial, fun ht => ⟨perform_running hx, currentState_other hx (known_mayRun hg) ht⟩⟩
  env e s s' _ hx :=
    ⟨trivial, env_same (f := .running) hx (by simp), env_same (f := .currentState) hx (by simp)⟩
  take j s s' _ _ hx :=
    ⟨trivial, fun hj => ⟨take_running hx hj, take_same (f := .currentState) hx (by simp)⟩⟩

/-! ## Rules for the code -/

/-- The handler `q` runs, and the session is in a state with `S`. -/
def Session.In (s : Session) (q : Handler) (S : State → Prop) : Prop :=
  s.running = some q ∧ S s.currentState

/-- The handler that runs and the state it finds are stable under the other threads. -/
theorem stable_in {q : Handler} {S : State → Prop} :
    (living cfg).contract.Stable .io fun s => s.In q S :=
  Focus.stable fun _ _ _ _ hr hs => ⟨hr.1.trans hs.1, hr.2 ▸ hs.2⟩

/-- Code that leaves the state alone. -/
abbrev Stays {α : Type} (p : Code α) : Prop := p.Uses fun op => ∀ st, op ≠ .setState st

/-- Code that leaves the state alone keeps what is known of it. -/
theorem triple_stays {α : Type} {q : Handler} {S : State → Prop} {p : Code α} (hp : Stays p) :
    (living cfg).contract.Triple .io (fun s => s.In q S) p fun _ s => s.In q S := by
  apply Focus.Steps.triple_uses steps_living hp stable_in
  intro op s r hop _ hs _ hx
  obtain ⟨-, hx⟩ := perform_of_exec hx
  refine ⟨fun st heq => absurd heq (hop st), (perform_running hx).trans hs.1, ?_⟩
  rw [perform_currentState hx hop]
  exact hs.2

/-- **Entering a state** along the life cycle. -/
theorem triple_enter {q : Handler} {S : State → Prop} (tr : Trigger) {st' : State} (hq : q.concerns tr)
    (hstep : ∀ st, S st → LifeCycle tr st = some st') :
    (living cfg).contract.Triple .io (fun s => s.In q S) (setCurrentState st')
      fun _ s => s.In q (· ≠ .OUTBOUND) := by
  apply Focus.Steps.triple_op steps_living stable_in fun _ => stable_in
  intro s r _ hs _ hx
  obtain ⟨-, hx⟩ := perform_of_exec hx
  have hlife := hstep _ hs.2
  refine ⟨fun st heq => ?_, (perform_running hx).trans hs.1, ?_⟩
  · cases heq
    exact ⟨q, tr, hs.1, hq, hlife⟩
  · cases hx
    exact LifeCycle.ne_outbound hlife

/-- Code whose changes of the state do not depend on it. -/
theorem triple_anyway {α : Type} {q : Handler} {p : Code α}
    (hp : p.Uses fun op => ∀ st', op = .setState st' →
      ∃ tr, q.concerns tr ∧ ∀ st, LifeCycle tr st = some st') :
    (living cfg).contract.Triple .io (fun s => s.In q (· ≠ .OUTBOUND)) p
      fun _ s => s.In q (· ≠ .OUTBOUND) := by
  apply Focus.Steps.triple_uses steps_living hp stable_in
  intro op s r hop _ hs _ hx
  obtain ⟨-, hx⟩ := perform_of_exec hx
  refine ⟨fun st' heq => ?_, (perform_running hx).trans hs.1, ?_⟩
  · obtain ⟨tr, hq, hstep⟩ := hop st' heq
    exact ⟨q, tr, hs.1, hq, hstep _⟩
  · by_cases hset : ∃ st', op = .setState st'
    · obtain ⟨st', rfl⟩ := hset
      obtain ⟨tr, -, hstep⟩ := hop st' rfl
      cases hx
      exact LifeCycle.ne_outbound (hstep st')
    · rw [perform_currentState hx (not_exists.mp hset)]
      exact hs.2

/-! ## The handlers -/

/-- `do_write` leaves the state alone. -/
theorem stays_doWrite {r : Ref} {l : Level} : Stays (doWrite cfg r l) := by
  apply uses_doWrite
  · rintro op hop st rfl
    cases hop
  · simp
  · simp

/-- `close_session` leaves the state alone. -/
theorem stays_closeSession {b : Bool} : Stays (closeSession cfg b) := by
  apply uses_closeSession
  · simp
  · rintro op hop - st rfl
    cases hop

/-- `do_bind_request` leaves the state alone. -/
theorem stays_doBindRequest : Stays (doBindRequest cfg) := by
  apply ofRequest_doBindRequest.mono
  rintro op hop st rfl
  cases hop

/-- An operation that sets no state may come before code that leaves it alone. -/
theorem stays_then {α : Type} {op : Op} {f : op.Res → Code α} (hop : ∀ st, op ≠ .setState st)
    (hf : ∀ b, Stays (f b)) : Stays (call op >>= f) := uses_then hop hf

/-- `procpdu_deliver_sm` leaves the state alone. -/
theorem stays_procpduDeliverSm {raw : RawPdu} : Stays (procpduDeliverSm cfg raw) := by
  unfold procpduDeliverSm
  split
  · refine stays_then (by simp) fun r => stays_then (by simp) fun _ => stays_then (by simp) fun r' => ?_
    exact stays_doWrite.bind fun _ => trivial
  · trivial

/-- `procpdu_enquire_link` leaves the state alone. -/
theorem stays_procpduEnquireLink {raw : RawPdu} : Stays (procpduEnquireLink cfg raw) := by
  unfold procpduEnquireLink
  split
  · exact stays_then (by simp) fun r => stays_doWrite.bind fun _ => trivial
  · trivial

section

variable {raw : RawPdu}

/-- Code that leaves the state alone, in the handler of a received PDU. -/
theorem triple_stays_read {st : State} {q : Handler} {p : Code Completion} (hst : st ≠ .OUTBOUND)
    (hp : Stays p) : (living cfg).contract.Triple .io (fun s => s.In q (· = st)) p
      fun _ s => s.In q (· ≠ .OUTBOUND) :=
  (triple_stays hp).post fun _ _ _ hs => ⟨hs.1, fun h => hst (hs.2.symm.trans h)⟩

/-- A bind response received in `OPEN`. -/
theorem triple_procpduBindResp_open {st' : State} (hb : st'.isBound = true)
    (hresp : st'.bindResp? = some (CommandId.ofValue raw.cmdId)) :
    (living cfg).contract.Triple .io (fun s => s.In (.handleReadBody raw .success) (· = .OPEN))
      (procpduBindResp raw st') fun _ s => s.In (.handleReadBody raw .success) (· ≠ .OUTBOUND) := by
  unfold procpduBindResp
  by_cases hok : raw.cmdStatus = ESME_ROK
  · rw [beq_iff_eq.mpr hok, Prog.when_true]
    refine Contract.Triple.bind (triple_enter (.accepted st') ⟨rfl, hok, hresp⟩ ?_) fun _ => ?_
    · rintro st rfl
      exact if_pos ⟨rfl, hb⟩
    · exact triple_stays trivial
  · rw [beq_eq_false_iff_ne.mpr hok, Prog.when_false]
    exact triple_stays_read (by simp) trivial

/-- The peer's unbind. -/
theorem triple_procpduUnbind_bound {st : State} (hst : st.isBound = true)
    (hcmd : CommandId.ofValue raw.cmdId = .Unbind) :
    (living cfg).contract.Triple .io (fun s => s.In (.handleReadBody raw .success) (· = st))
      (procpduUnbind cfg raw) fun _ s => s.In (.handleReadBody raw .success) (· ≠ .OUTBOUND) := by
  unfold procpduUnbind
  split
  · next hdec =>
      refine Contract.Triple.bind (triple_stays (uses_call (by simp))) fun r => ?_
      refine Contract.Triple.bind (triple_enter (.unbound) ⟨rfl, hdec, hcmd⟩ ?_) fun _ => ?_
      · rintro st' rfl
        exact if_pos hst
      · refine triple_stays (stays_doWrite.bind fun _ => ?_)
        exact stays_then (by simp) fun _ => stays_then (by simp) fun _ => stays_then (by simp) fun _ => trivial
  · exact triple_stays_read (by rintro rfl; cases hst) trivial

/-- The answer to the session's own unbind request. -/
theorem triple_procpduUnbindResp_bound {st : State} (hst : st.isBound = true)
    (hcmd : CommandId.ofValue raw.cmdId = .UnbindResp) :
    (living cfg).contract.Triple .io (fun s => s.In (.handleReadBody raw .success) (· = st))
      (procpduUnbindResp cfg raw) fun _ s => s.In (.handleReadBody raw .success) (· ≠ .OUTBOUND) := by
  unfold procpduUnbindResp
  refine Contract.Triple.bind (triple_enter (.released) ⟨rfl, hcmd⟩ ?_) fun _ => ?_
  · rintro st' rfl
    exact if_pos hst
  · exact triple_stays (stays_closeSession.bind fun _ => trivial)

/-- **A received PDU is processed** in the state in which it was received. -/
theorem triple_process4stateSwitch_living {st : State} (hst : st ≠ .OUTBOUND) :
    (living cfg).contract.Triple .io (fun s => s.In (.handleReadBody raw .success) (· = st))
      (process4stateSwitch cfg raw st) fun _ s => s.In (.handleReadBody raw .success) (· ≠ .OUTBOUND) := by
  cases st with
  | OUTBOUND => exact absurd rfl hst
  | CLOSED => exact triple_stays_read (by simp) trivial
  | UNBOUND =>
      dsimp only [process4stateSwitch, process4stateUnbound]
      split <;> first
        | exact triple_stays_read (by simp) stays_procpduEnquireLink
        | exact triple_stays_read (by simp) (stays_then (by simp) fun _ => trivial)
        | exact triple_stays_read (by simp) trivial
  | OPEN =>
      dsimp only [process4stateSwitch, process4stateOpen]
      split <;> first
        | exact triple_procpduBindResp_open rfl (by simp only [*]; rfl)
        | exact triple_stays_read (by simp) stays_procpduEnquireLink
        | exact triple_stays_read (by simp) (stays_then (by simp) fun _ => trivial)
        | exact triple_stays_read (by simp) (stays_doBindRequest.bind fun _ => trivial)
        | exact triple_stays_read (by simp) trivial
  | BOUND_TX | BOUND_RX | BOUND_TRX =>
      dsimp only [process4stateSwitch, process4stateBoundTx, process4stateBoundRx, process4stateBoundTrx]
      split <;> first
        | exact triple_procpduUnbind_bound rfl ‹_›
        | exact triple_procpduUnbindResp_bound rfl ‹_›
        | exact triple_stays_read (by simp) stays_procpduEnquireLink
        | exact triple_stays_read (by simp) stays_procpduDeliverSm
        | exact triple_stays_read (by simp) (stays_then (by simp) fun _ => trivial)
        | exact triple_stays_read (by simp) trivial

/-- `process4state` changes the state along the life cycle. -/
theorem triple_process4state_living : (living cfg).contract.Triple .io
    (fun s => s.In (.handleReadBody raw .success) (· ≠ .OUTBOUND)) (process4state cfg raw)
      fun _ s => s.In (.handleReadBody raw .success) (· ≠ .OUTBOUND) := by
  unfold process4state rescheduleEnquireLink
  refine Contract.Triple.bind (triple_stays ?_) fun _ => ?_
  · exact stays_then (by simp) fun _ => stays_then (by simp) fun _ => uses_call (by simp)
  -- from here on the state is the one that was read
  refine Contract.Triple.bind (Q := fun st s => s.In (.handleReadBody raw .success)
    fun st' => st' = st ∧ st ≠ .OUTBOUND) ?_ fun st => ?_
  · apply Focus.Steps.triple_op steps_living stable_in fun _ => stable_in
    intro s r _ hs _ hx
    obtain ⟨-, hx⟩ := perform_of_exec hx
    cases hx
    exact ⟨fun st heq => (by cases heq), hs.1, rfl, hs.2⟩
  by_cases hst : st = .OUTBOUND
  · exact fun s _ hs => absurd hst hs.2.2
  refine Contract.Triple.bind (triple_stays (uses_call (by simp))) fun _ => ?_
  refine Contract.Triple.bind ((triple_process4stateSwitch_living hst).pre
    fun s _ hs => ⟨hs.1, hs.2.1⟩) fun completion => ?_
  cases completion with
  | returned => exact triple_stays trivial
  | threw => exact triple_stays stays_closeSession

end

/-- The reaction to a failed read: at the end of the file the session is closed. -/
theorem triple_handleReadError_living {q : Handler} {e : ErrorCode} (hq : e = .eof → q.concerns .lost) :
    (living cfg).contract.Triple .io (fun s => s.In q (· ≠ .OUTBOUND)) (handleReadError cfg e)
      fun _ s => s.In q (· ≠ .OUTBOUND) := by
  unfold handleReadError
  by_cases he : e = .eof
  · rw [if_pos he]
    apply triple_anyway
    refine uses_then (by simp) fun stopFlag => Prog.Uses.when ?_
    refine uses_then ?_ fun _ => uses_then (by simp) fun _ => uses_call (by simp)
    rintro st' heq
    cases heq
    exact ⟨.lost, hq he, fun _ => rfl⟩
  · rw [if_neg he]
    exact triple_stays (stays_then (by simp) fun stopFlag => Prog.Uses.when stays_closeSession)

/-- `write_pdu` leaves the state alone. -/
theorem stays_writePdu : Stays (writePdu cfg) := by
  apply ofWritePdu_writePdu.mono
  rintro op hop st rfl
  cases hop

/-- `handle_write` leaves the state alone after a successful write. -/
theorem stays_handleWritten (o : Option Ref) : Stays (handleWritten cfg o) := by
  cases o with
  | none => exact uses_call (by simp)
  | some r =>
      unfold handleWritten w4rQPut canSend
      apply Prog.Uses.bind
      · refine stays_then (by simp) fun p => Prog.Uses.when ?_
        exact stays_then (by simp) fun _ => stays_then (by simp) fun _ => uses_call (by simp)
      intro _
      refine stays_then (by simp) fun _ => ?_
      apply Prog.Uses.bind
      · refine stays_then (by simp) fun size => ?_
        split
        · exact stays_then (by simp) fun _ => trivial
        · trivial
      intro mayWrite
      exact Prog.Uses.when (stays_then (by simp) fun e => Prog.Uses.when stays_writePdu)

/-- **The handlers change the state along the life cycle.** -/
theorem triple_handler_living (q : Handler) : (living cfg).contract.Triple .io
    (fun s => s.In q (· ≠ .OUTBOUND)) (q.body cfg) fun _ s => s.In q (· ≠ .OUTBOUND) := by
  -- a handler whose inventory lists no state but the one it may enter need not be followed further
  have huses : ∀ {S : Op → Bool}, (q.body cfg).Uses (fun op => S op = true) →
      (∀ st', S (.setState st') = true → ∃ tr, q.concerns tr ∧ ∀ st, LifeCycle tr st = some st') →
      (living cfg).contract.Triple .io (fun s => s.In q (· ≠ .OUTBOUND)) (q.body cfg)
        fun _ s => s.In q (· ≠ .OUTBOUND) := by
    intro S hq hset
    apply triple_anyway (hq.mono _)
    rintro op hop st' rfl
    exact hset st' hop
  cases q with
  -- the state is set first thing after a successful connection
  | handleConnect e =>
      dsimp only [Handler.body]
      unfold handleConnect
      by_cases he : e = .success
      · rw [if_pos he]
        refine Contract.Triple.bind (triple_enter (.established) ⟨he, rfl⟩ fun _ _ => rfl) fun _ => ?_
        exact triple_stays (stays_doBindRequest.bind fun _ => uses_call (by simp))
      · rw [if_neg he]
        refine triple_stays (stays_then (by simp) fun stopFlag => Prog.Uses.when ?_)
        apply Prog.Uses.bind
        · exact stays_then (by simp) fun _ => uses_call (by simp)
        · exact fun _ => uses_call (by simp)
  | handleReadBody raw e =>
      dsimp only [Handler.body]
      unfold handleReadBody
      by_cases he : e = .success
      · rw [if_pos he, he]
        refine Contract.Triple.bind (triple_stays (Prog.Uses.when ?_)) fun _ => ?_
        · exact stays_then (by simp) fun _ => stays_then (by simp) fun _ => uses_call (by simp)
        · exact triple_process4state_living.bind fun _ => triple_stays (uses_call (by simp))
      · rw [if_neg he]
        exact triple_handleReadError_living id
  | closeConnection =>
      apply huses ofCloseConnection_closeConnection
      intro st' h
      cases st' <;> first | exact ⟨.lost, rfl, fun _ => rfl⟩ | cases h
  | handleReadHeader raw e =>
      dsimp only [Handler.body]
      unfold handleReadHeader
      by_cases he : e = .success
      · rw [if_pos he]
        exact triple_stays (uses_call (by simp))
      · rw [if_neg he]
        exact triple_handleReadError_living fun heof => ⟨heof, rfl⟩
  | handleWrite r e =>
      by_cases he : e = .success
      · dsimp only [Handler.body]
        unfold handleWrite
        rw [if_pos he]
        refine triple_stays (stays_then (by simp) fun _ => stays_then (by simp) fun o => ?_)
        exact (stays_handleWritten o).bind fun _ => uses_call (by simp)
      · apply huses (ofWrite_handleWrite e)
        intro st' h
        cases st' <;> first | exact ⟨.lost, ⟨he, rfl⟩, fun _ => rfl⟩ | cases h
  | doEnquireLink e => exact huses (ofEnquireLink_doEnquireLink e) fun st h => by cases h
  | doEnquireLinkFailure e =>
      exact huses (ofEnquireLinkFailure_doEnquireLinkFailure e) fun st h => by cases h
  | w4rQAgeCleanup e => exact huses (ofAgeCleanup_w4rQAgeCleanup e) fun st h => by cases h

/-- **The focus on the life cycle is sound**: only the io thread changes the state. -/
theorem living_sound (cfg : Params) (p : Persisted) (now : Nat) :
    (living cfg).contract.Sound (Machine.init p now) := by
  refine sound_of_handlers steps_living rfl trivial (by simp [living, Session.init, Session.opened])
    (Focus.stable fun _ _ _ _ hr hs => hr.2.trans_ne hs) fun q s s' _ _ hs _ hx => ?_
  have hst : s'.currentState = s.currentState := take_same (f := .currentState) hx (by simp)
  obtain ⟨-, rfl⟩ := Job.take_handler hx
  exact ((triple_handler_living q).post fun _ _ _ hs => hs.2) _ trivial ⟨rfl, hs⟩

/-! ## The life of every session -/

/-- `OUTBOUND` is never reached. -/
theorem Runs.ne_outbound (h : Runs cfg Guard.free p now c) : c.shared.currentState ≠ .OUTBOUND := by
  refine Runs.dataKnown (K := fun s => s.currentState ≠ .OUTBOUND) (living_sound cfg p now) rfl h
    (by simp [Session.init, Session.opened]) ?_ ?_ ?_
  · intro t op s r _ hK hg hf hx
    by_cases hset : ∃ st, op = .setState st
    · obtain ⟨st, rfl⟩ := hset
      obtain rfl : t = .io := Op.io_of_mayRun (known_mayRun hg) rfl
      obtain ⟨q, tr, -, -, hstep⟩ := hf rfl st rfl
      cases hx
      exact LifeCycle.ne_outbound hstep
    · rwa [perform_currentState hx (not_exists.mp hset)]
  · intro e s s' _ hK hx
    have hst : s'.currentState = s.currentState := env_same (f := .currentState) hx (by simp)
    rwa [hst]
  · intro j s s' _ _ hK _ hx
    have hst : s'.currentState = s.currentState := take_same (f := .currentState) hx (by simp)
    rwa [hst]

/-- **The session lives as the abstract machine does**: in every run it is never in `OUTBOUND`, and each move
leaves its state alone or is an operation of the io thread that takes it one step along the life cycle, on a
trigger that the handler it runs is about. -/
theorem lives (h : Runs cfg Guard.free p now c) {m : Step} (hm : c.move (system cfg) m = some c') :
    c.shared.currentState ≠ .OUTBOUND ∧ (c'.shared.currentState = c.shared.currentState ∨
      m = .run .io ∧ ∃ q tr, c.shared.running = some q ∧ q.concerns tr ∧
        LifeCycle tr c.shared.currentState = some c'.shared.currentState) := by
  refine ⟨h.ne_outbound, ?_⟩
  cases m with
  | env e =>
      obtain ⟨s, hx, rfl⟩ := Config.of_move_env hm
      exact .inl (env_same (f := .currentState) hx (by simp))
  | start j =>
      obtain ⟨-, s, hx, rfl⟩ := Config.of_move_start hm
      exact .inl (take_same (f := .currentState) hx (by simp))
  | run t =>
      obtain ⟨op, k, r, hcode, hx, rfl⟩ := Config.of_move_run hm
      by_cases hset : ∃ st, op = .setState st
      · obtain ⟨st, rfl⟩ := hset
        have hknown := h.knowing_next hcode trivial hx
        obtain rfl : t = .io := Op.io_of_mayRun (known_mayRun hknown) rfl
        have hf := (living_sound cfg p now).reach_fact h.knowing hcode hknown hx
        obtain ⟨-, hx⟩ := perform_of_exec hx
        cases hx
        exact .inr ⟨rfl, hf rfl st rfl⟩
      · exact .inl (perform_currentState (perform_of_exec hx).2 (not_exists.mp hset))

/-- The peer's positive answer to the bind request has arrived, and is about to be acted on. -/
def bindAnswered : List Step :=
  Schedule.connect ++ Schedule.complete (.write 0) .none .success ++
    Schedule.complete .readHeader (Schedule.response .BindTransceiverResp 2) .success ++
    [.env (.complete (.readBody (Schedule.response .BindTransceiverResp 2)) .none .success),
      .start (.handler (.handleReadBody (Schedule.response .BindTransceiverResp 2) .success))] ++
    Schedule.turn .io 8

/-- The bind response takes the session from `OPEN` to `BOUND_TRX`. -/
theorem lives_bindAnswered :
    ∃ c', (Machine.after sampleParams .none bindAnswered).move (system sampleParams) (.run .io) = some c' ∧
      c'.shared.currentState = .BOUND_TRX ∧
      ∃ q tr, (Machine.after sampleParams .none bindAnswered).shared.running = some q ∧ q.concerns tr ∧
        LifeCycle tr (Machine.after sampleParams .none bindAnswered).shared.currentState =
          some c'.shared.currentState := by
  have hstep : ((Machine.after sampleParams .none bindAnswered).move (system sampleParams)
      (.run .io)).map (·.shared.currentState) = some .BOUND_TRX := by decide +kernel
  have hopen : (Machine.after sampleParams .none bindAnswered).shared.currentState = .OPEN := by
    decide +kernel
  obtain ⟨c', hmove, hbound⟩ := Option.map_eq_some_iff.mp hstep
  have hlives := (lives (runs_after sampleParams .none bindAnswered) hmove).2.resolve_left (by
    rw [hopen, hbound]
    decide)
  exact ⟨c', hmove, hbound, hlives.2⟩

end KissSmpp
