import KissSmpp.Interleave.OneThread
import KissSmpp.Session.Calls

/-! # A session that was not told to stop never dies

Between its handlers the io thread leaves something behind that brings the session on: a connection
attempt, a read, or a posted `close_connection` that will reconnect. Every handler that ends one of
these starts another, with one exception: `do_enquire_link_failure` sets `reconnectFlag` and then has
it cleared by `close_session`. When a read or a connection attempt is under way this does no harm,
since closing the socket aborts it and its handler reconnects (`timeoutWhileLinked`); otherwise the
session is dead. -/

namespace KissSmpp

open Interleave

variable {cfg : Params} {t : Tid} {s s' : Session}

/-! ## What keeps a session alive -/

/-- The reads. -/
def Io.isRead : Io → Bool
  | .readHeader | .readBody _ => true
  | _ => false

/-- The completion handlers of the reads. -/
def Handler.isRead : Handler → Bool
  | .handleReadHeader _ _ | .handleReadBody _ _ => true
  | _ => false

/-- The completion handler of a connection attempt. -/
def Handler.isConnect : Handler → Bool
  | .handleConnect _ => true
  | _ => false

/-- The handler of a read is that of a read, whatever has been read. -/
@[simp] theorem Io.isRead_handler (raw : RawPdu) (e : ErrorCode) (io : Io) :
    (io.handler raw e).isRead = io.isRead := by
  cases io <;> rfl

namespace Session

/-- An `async_connect` is outstanding, or its `handle_connect` queued. -/
def ConnectUnderWay (s : Session) : Prop := .connect ∈ s.pending ∨ ∃ h ∈ s.ready, h.isConnect = true

/-- A read is outstanding on a connected socket, or its handler queued. -/
def Reading (s : Session) : Prop :=
  (s.isConnected = true ∧ ∃ io ∈ s.pending, io.isRead = true) ∨ ∃ h ∈ s.ready, h.isRead = true

/-- A connection attempt or a read is under way. -/
def Linked (s : Session) : Prop := s.ConnectUnderWay ∨ s.Reading

/-- A posted `close_connection` finds `reconnectFlag` set. -/
def ClosePosted (s : Session) : Prop := .closeConnection ∈ s.ready ∧ s.reconnectFlag = true

/-- **The session is alive.** -/
def Alive (s : Session) : Prop := s.ConnectUnderWay ∨ s.Reading ∨ s.ClosePosted

/-- Whether the session is linked can be read off what is under way. -/
instance (s : Session) : Decidable s.Linked := inferInstanceAs (Decidable ((_ ∨ _) ∨ (_ ∧ _) ∨ _))

/-- Whether the session is alive can be read off what is under way. -/
instance (s : Session) : Decidable s.Alive :=
  inferInstanceAs (Decidable ((_ ∨ _) ∨ ((_ ∧ _) ∨ _) ∨ (_ ∧ _)))

/-- A linked session is alive. -/
theorem Linked.alive (h : s.Linked) : s.Alive := h.imp_right .inl

/-- A live session is linked, or its close is posted and will reconnect. -/
theorem Alive.linked_or (h : s.Alive) : s.Linked ∨ s.ClosePosted := by
  rcases h with h | h | h
  · exact .inl (.inl h)
  · exact .inl (.inr h)
  · exact .inr h

end Session

open Session

/-- The error code of a failed enquire link, for which the handler does something. -/
def Job.isTimeout : Job → Bool
  | .handler (.doEnquireLinkFailure e) => e != .operationAborted
  | _ => false

/-- **No stop, and enquire link timeouts only while linked**: `stop()` is not called, and
`do_enquire_link_failure` runs only while a connection attempt or a read is under way. -/
def timeoutWhileLinked : Guard Op Tid Session Job where
  op _ _ _ := True
  job j s := j ≠ .stop ∧ (j.isTimeout = true → s.Linked)

/-- The guard can be evaluated. -/
instance : timeoutWhileLinked.Checkable where
  op _ _ _ := inferInstanceAs (Decidable True)
  job j s := inferInstanceAs (Decidable (j ≠ .stop ∧ (j.isTimeout = true → s.Linked)))

/-! ## Single steps -/

/-- A socket operation under way stays so, unless the socket is closed: then its handler is queued. -/
theorem pending_perform {op : Op} {x : op.Res × Session} (h : perform cfg t op s = some x) {io : Io}
    (hio : io ∈ s.pending) :
    (io ∈ x.2.pending ∧ (s.isConnected = true → x.2.isConnected = true)) ∨
      io.handler .none .operationAborted ∈ x.2.ready := by
  by_cases hclose : op = .socketClose
  · -- closing the socket aborts what is pending, and its handlers become ready
    subst hclose
    cases h
    exact .inr (List.mem_append_right _ (List.mem_map_of_mem hio))
  · have hconn : x.2.isConnected = s.isConnected := perform_same (f := .isConnected) h (by
      cases op <;> first | simp; done | exact absurd rfl hclose)
    refine .inl ⟨?_, fun hc => hconn.trans hc⟩
    have hstart : ∀ (s : Session) (io' : Io), io ∈ s.pending → io ∈ (s.startIo io').pending := by
      intro s io' hio
      unfold Session.startIo
      split
      · exact List.mem_append_left _ hio
      · exact hio
    by_cases hw : Field.pending ∈ op.writes
    · cases op with
      | asyncConnect => cases h; exact List.mem_append_left _ hio
      | asyncReadHeader => cases h; exact hstart _ _ hio
      | asyncReadBody raw => cases h; exact hstart _ _ hio
      | asyncWrite q tbuf => cases h; exact hstart _ _ hio
      | socketClose => exact absurd rfl hclose
      | _ => simp at hw
    · have hsame : x.2.pending = s.pending := perform_same (f := .pending) h hw
      exact hsame ▸ hio

/-- **No operation ends a link.** -/
theorem linked_perform {op : Op} {x : op.Res × Session} (h : perform cfg t op s = some x)
    (hL : s.Linked) : x.2.Linked := by
  rcases hL with (hio | ⟨q, hq, hc⟩) | (⟨hconn, io, hio, hr⟩ | ⟨q, hq, hr⟩)
  · rcases pending_perform h hio with hio | hq
    · exact .inl (.inl hio.1)
    · exact .inl (.inr ⟨_, hq, rfl⟩)
  · exact .inl (.inr ⟨q, ready_perform h hq, hc⟩)
  · rcases pending_perform h hio with hio | hq
    · exact .inr (.inl ⟨hio.2 hconn, io, hio.1, hr⟩)
    · exact .inr (.inr ⟨_, hq, (Io.isRead_handler ..).trans hr⟩)
  · exact .inr (.inr ⟨q, ready_perform h hq, hr⟩)

/-- An operation that completes hands the link on to its handler. -/
theorem linked_env {e : Env} (h : e.perform cfg s = some s') (hL : s.Linked) : s'.Linked := by
  -- an operation stays pending, or it completes and its handler becomes ready
  have hpend : ∀ io, io ∈ s.pending → (io ∈ s'.pending ∧ (s.isConnected = true → s'.isConnected = true)) ∨
      ∃ raw e, io.handler raw e ∈ s'.ready := by
    intro io hio
    cases e with
    | complete io' raw er =>
        obtain ⟨-, rfl⟩ := Env.perform_complete h
        by_cases heq : io = io'
        · subst heq
          exact .inr ⟨raw, er, List.mem_append_right _ List.mem_cons_self⟩
        · left
          have hmem : io ∈ s.pending.erase io' := (List.mem_erase_of_ne heq).mpr hio
          unfold Session.connectDone
          split
          · exact ⟨hmem, fun _ => rfl⟩
          · exact ⟨hmem, id⟩
    | expire tm =>
        obtain ⟨-, rfl⟩ := Env.perform_expire h
        exact .inl ⟨hio, id⟩
    | elapse us => cases h; exact .inl ⟨hio, id⟩
    | submit body => cases h; exact .inl ⟨hio, id⟩
    | reply a => cases h; exact .inl ⟨hio, id⟩
  rcases hL with (hio | ⟨q, hq, hc⟩) | (⟨hconn, io, hio, hr⟩ | ⟨q, hq, hr⟩)
  · rcases hpend _ hio with hio | ⟨raw, e, hq⟩
    · exact .inl (.inl hio.1)
    · exact .inl (.inr ⟨_, hq, rfl⟩)
  · exact .inl (.inr ⟨q, ready_env h hq, hc⟩)
  · rcases hpend _ hio with hio | ⟨raw, e, hq⟩
    · exact .inr (.inl ⟨hio.2 hconn, io, hio.1, hr⟩)
    · exact .inr (.inr ⟨_, hq, (Io.isRead_handler ..).trans hr⟩)
  · exact .inr (.inr ⟨q, ready_env h hq, hr⟩)

/-- A job that is no handler of a connection attempt or a read takes no link away. -/
theorem linked_take {j : Job} (h : j.take s = some s')
    (hj : ∀ q, j = .handler q → q.isConnect = false ∧ q.isRead = false) (hL : s.Linked) :
    s'.Linked := by
  have hpend : s'.pending = s.pending := take_same (f := .pending) h (by simp)
  have hconn : s'.isConnected = s.isConnected := take_same (f := .isConnected) h (by simp)
  rcases hL with (hio | ⟨q, hq, hc⟩) | (⟨hc, io, hio, hr⟩ | ⟨q, hq, hr⟩)
  · exact .inl (.inl (hpend ▸ hio))
  · refine .inl (.inr ⟨q, ready_take h (fun hjq => ?_) hq, hc⟩)
    rw [(hj q hjq).1] at hc
    cases hc
  · exact .inr (.inl ⟨hconn.trans hc, io, hpend ▸ hio, hr⟩)
  · refine .inr (.inr ⟨q, ready_take h (fun hjq => ?_) hq, hr⟩)
    rw [(hj q hjq).2] at hr
    cases hr

/-- A read that is started links the session, even on a closed socket. -/
theorem linked_startIo {io : Io} (hio : io.isRead = true) : (s.startIo io).Linked := by
  unfold Session.startIo
  split
  · next hc => exact .inr (.inl ⟨hc, io, List.mem_append_right _ List.mem_cons_self, hio⟩)
  · exact .inr (.inr ⟨_, List.mem_append_right _ List.mem_cons_self, (Io.isRead_handler ..).trans hio⟩)

/-- The flag changes only where it is set. -/
theorem reconnectFlag_perform {op : Op} {x : op.Res × Session} (h : perform cfg t op s = some x)
    (hop : op ≠ .setReconnectFlag false) (hf : s.reconnectFlag = true) :
    x.2.reconnectFlag = true := by
  by_cases hw : Field.reconnectFlag ∈ op.writes
  · cases op with
    | setReconnectFlag b =>
        cases b with
        | true => cases h; rfl
        | false => exact absurd rfl hop
    | _ => simp at hw
  · have hsame : x.2.reconnectFlag = s.reconnectFlag := perform_same (f := .reconnectFlag) h hw
    exact hsame.trans hf

/-- **Only clearing the flag can end a session's life.** -/
theorem alive_perform {op : Op} {x : op.Res × Session} (h : perform cfg t op s = some x)
    (hop : op ≠ .setReconnectFlag false) (hA : s.Alive) : x.2.Alive := by
  rcases hA.linked_or with hL | ⟨hq, hf⟩
  · exact (linked_perform h hL).alive
  · exact .inr (.inr ⟨ready_perform h hq, reconnectFlag_perform h hop hf⟩)

/-! ## The contract on the io thread -/

/-- **The contract on the io thread**: between its handlers the session is alive. -/
def vitality (cfg : Params) : Focus (system cfg) where
  thread := .io
  guard := (timeoutWhileLinked.without .stopper).also (discipline cfg)
  inv s := s.stopFlag = false
  fact _ _ := True
  rely s s' := s'.reconnectFlag = s.reconnectFlag ∧ (∀ q, q ∈ s.ready → q ∈ s'.ready) ∧
    (s.Linked → s'.Linked)
  idle := Alive
  rely_refl _ := ⟨rfl, fun _ => id, id⟩
  rely_trans _ _ _ h h' :=
    ⟨h'.1.trans h.1, fun q hq => h'.2.1 q (h.2.1 q hq), fun hL => h'.2.2 (h.2.2 hL)⟩

/-- What the other threads do is a step of the focus on the io thread. -/
theorem steps_vitality : (vitality cfg).Steps where
  op t op s r hi hg hx := by
    obtain ⟨-, hx⟩ := perform_of_exec hx
    obtain ⟨⟨hstopper, -⟩, -, hm, -⟩ := hg
    refine ⟨stopFlag_perform_false hx hm hstopper hi, fun ht => ⟨?_, fun _ => ready_perform hx,
      linked_perform hx⟩⟩
    -- only the io thread and `stop()` write the flag, and `stop()` is not called
    refine perform_same (f := .reconnectFlag) hx fun hw => ?_
    cases op with
    | setReconnectFlag b =>
        exact (Op.closer_of_mayRun hm rfl).elim ht hstopper
    | _ => simp at hw
  env e s s' hi hx := by
    have hstop : s'.stopFlag = s.stopFlag := env_same (f := .stopFlag) hx (by simp)
    exact ⟨hstop.trans hi, env_same (f := .reconnectFlag) hx (by simp), fun _ => ready_env hx,
      linked_env hx⟩
  take j s s' hi _ hx := by
    have hstop : s'.stopFlag = s.stopFlag := take_same (f := .stopFlag) hx (by simp)
    refine ⟨hstop.trans hi, fun hj => ⟨take_same (f := .reconnectFlag) hx (by simp), fun q hq => ?_,
      linked_take hx fun q hjq => ?_⟩⟩
    · refine ready_take hx (fun hjq => hj ?_) hq
      rw [hjq]
      rfl
    · refine absurd ?_ hj
      rw [hjq]
      rfl

/-! ## Rules for the code -/

/-- A link is stable under the other threads. -/
theorem stable_linked : (vitality cfg).contract.Stable .io Linked :=
  Focus.stable fun _ _ _ _ hr hL => hr.2.2 hL

/-- No other thread touches `reconnectFlag`. -/
theorem stable_reconnect : (vitality cfg).contract.Stable .io fun s => s.reconnectFlag = true :=
  Focus.stable fun _ _ _ _ hr hf => hr.1.trans hf

/-- Being alive is stable under the other threads. -/
theorem stable_alive : (vitality cfg).contract.Stable .io Alive := by
  refine Focus.stable fun s s' _ _ hr hA => ?_
  rcases hA.linked_or with hL | ⟨hq, hf⟩
  · exact (hr.2.2 hL).alive
  · exact .inr (.inr ⟨hr.2.1 _ hq, hr.1.trans hf⟩)

/-- Code about which nothing needs to be known. -/
theorem triple_some {α : Type} (p : Code α) :
    (vitality cfg).contract.Triple .io (fun _ => True) p fun _ _ => True :=
  Focus.Steps.triple_any steps_vitality .const (fun _ _ _ _ _ _ _ => ⟨trivial, trivial⟩) p

/-- All code keeps a link. -/
theorem triple_linked {α : Type} (p : Code α) :
    (vitality cfg).contract.Triple .io Linked p fun _ => Linked :=
  Focus.Steps.triple_any steps_vitality stable_linked
    (fun _ _ _ _ hL _ hx => ⟨trivial, linked_perform (perform_of_exec hx).2 hL⟩) p

/-- The code never clears `reconnectFlag`. -/
abbrev NoClear {α : Type} (p : Code α) : Prop := p.Uses fun op => op ≠ .setReconnectFlag false

/-- Code that does not clear `reconnectFlag` leaves it set. -/
theorem triple_reconnect {α : Type} {p : Code α} (hp : NoClear p) :
    (vitality cfg).contract.Triple .io (fun s => s.reconnectFlag = true) p
      fun _ s => s.reconnectFlag = true :=
  Focus.Steps.triple_uses steps_vitality hp stable_reconnect fun _ _ _ hop _ hf _ hx =>
    ⟨trivial, reconnectFlag_perform (perform_of_exec hx).2 hop hf⟩

/-- Code that does not clear `reconnectFlag` leaves the session alive. -/
theorem triple_alive {α : Type} {p : Code α} (hp : NoClear p) :
    (vitality cfg).contract.Triple .io Alive p fun _ => Alive :=
  Focus.Steps.triple_uses steps_vitality hp stable_alive fun _ _ _ hop _ hA _ hx =>
    ⟨trivial, alive_perform (perform_of_exec hx).2 hop hA⟩

/-- An operation that establishes what it is called for, whatever the state. -/
theorem triple_makes {op : Op} {Q : Session → Prop} (hQ : (vitality cfg).contract.Stable .io Q)
    (h : ∀ s r, perform cfg .io op s = some r → Q r.2) :
    (vitality cfg).contract.Triple .io (fun _ => True) (call op) fun _ => Q :=
  Focus.Steps.triple_op steps_vitality .const (fun _ => hQ) fun s r _ _ _ hx =>
    ⟨trivial, h s r (perform_of_exec hx).2⟩

/-- A read is started. -/
theorem triple_asyncReadHeader : (vitality cfg).contract.Triple .io (fun _ => True)
    (call .asyncReadHeader) fun _ => Linked :=
  triple_makes stable_linked fun s r h => by cases h; exact linked_startIo rfl

/-- Reading a body links the session. -/
theorem triple_asyncReadBody (raw : RawPdu) : (vitality cfg).contract.Triple .io (fun _ => True)
    (call (.asyncReadBody raw)) fun _ => Linked :=
  triple_makes stable_linked fun s r h => by cases h; exact linked_startIo rfl

/-- A connection attempt is started. -/
theorem triple_connect : (vitality cfg).contract.Triple .io (fun _ => True) connect
    fun _ => Linked :=
  triple_makes stable_linked fun s r h => by
    cases h
    exact .inl (.inl (List.mem_append_right _ List.mem_cons_self))

/-- The flag is set. -/
theorem triple_setReconnect : (vitality cfg).contract.Triple .io (fun _ => True)
    (call (.setReconnectFlag true)) fun _ s => s.reconnectFlag = true :=
  triple_makes stable_reconnect fun s r h => by cases h; rfl

/-- With the flag set, `close_connection` is posted. -/
theorem triple_postClose : (vitality cfg).contract.Triple .io (fun s => s.reconnectFlag = true)
    (call .postClose) fun _ => Alive := by
  refine Focus.Steps.triple_op steps_vitality stable_reconnect (fun _ => stable_alive)
    fun s r _ hf _ hx => ?_
  obtain ⟨-, hx⟩ := perform_of_exec hx
  cases hx
  exact ⟨trivial, .inr (.inr ⟨List.mem_append_right _ List.mem_cons_self, hf⟩)⟩

/-- The session has not been told to stop. -/
theorem triple_notStopped {P : Session → Prop} (hP : (vitality cfg).contract.Stable .io P)
    (hkeep : ∀ s r, perform cfg .io .getStopFlag s = some r → P s → P r.2) :
    (vitality cfg).contract.Triple .io P (call .getStopFlag) fun b s => b = false ∧ P s := by
  refine Focus.Steps.triple_op steps_vitality hP (fun _ => Contract.Stable.const.and hP)
    fun s r hi hPs _ hx => ?_
  obtain ⟨-, hx⟩ := perform_of_exec hx
  refine ⟨trivial, ?_, hkeep s r hx hPs⟩
  cases hx
  exact hi

/-! ## The handlers that bring the session on -/

/-- `handle_connect` starts a read, or connects again. -/
theorem triple_handleConnect (e : ErrorCode) : (vitality cfg).contract.Triple .io (fun _ => True)
    (handleConnect cfg e) fun _ => Linked := by
  unfold handleConnect
  split
  · exact (triple_some _).bind fun _ => (triple_some _).bind fun _ => triple_asyncReadHeader
  · refine (triple_notStopped .const fun _ _ _ => id).bind fun stopFlag => ?_
    cases stopFlag with
    | true => exact fun s _ hs => by cases hs.1
    | false =>
        exact Contract.Triple.pre ((triple_some (sleep 5)).bind fun _ => triple_connect)
          fun _ _ hs => hs.2

/-- `close_session(true)` leaves a `close_connection` that will reconnect. -/
theorem triple_closeSession_reconnect : (vitality cfg).contract.Triple .io (fun _ => True)
    (closeSession cfg true) fun _ => Alive := by
  have hunbind : NoClear (doUnbindRequest cfg) := ofRequest_doUnbindRequest.mono fun op hop hclear => by
    rw [hclear] at hop
    cases hop
  exact triple_setReconnect.bind fun _ => (triple_reconnect (uses_call (by simp))).bind fun _ =>
    (triple_reconnect hunbind.when).bind fun _ => triple_postClose

/-- A failed read leads to a new connection. -/
theorem triple_handleReadError (e : ErrorCode) : (vitality cfg).contract.Triple .io
    (fun _ => True) (handleReadError cfg e) fun _ => Alive := by
  unfold handleReadError
  refine (triple_notStopped .const fun _ _ _ => id).bind fun stopFlag => ?_
  cases stopFlag with
  | true => exact fun s _ hs => by cases hs.1
  | false =>
      refine Contract.Triple.pre (P := fun _ => True) ?_ fun _ _ _ => trivial
      rw [Bool.not_false, Prog.when_true]
      split
      · exact (triple_some _).bind fun _ => triple_setReconnect.bind fun _ => triple_postClose
      · exact triple_closeSession_reconnect

/-- `handle_read_header` reads on, or closes the connection with `reconnectFlag` set. -/
theorem triple_handleReadHeader (raw : RawPdu) (e : ErrorCode) : (vitality cfg).contract.Triple .io
    (fun _ => True) (handleReadHeader cfg raw e) fun _ => Alive := by
  unfold handleReadHeader
  split
  · exact (triple_asyncReadBody raw).post fun _ _ _ hL => hL.alive
  · exact triple_handleReadError e

/-- `handle_read_body` reads on, whatever the PDU has led to. -/
theorem triple_handleReadBody (raw : RawPdu) (e : ErrorCode) : (vitality cfg).contract.Triple .io
    (fun _ => True) (handleReadBody cfg raw e) fun _ => Alive := by
  unfold handleReadBody
  split
  · exact (triple_some _).bind fun _ => (triple_some _).bind fun _ =>
      triple_asyncReadHeader.post fun _ _ _ hL => hL.alive
  · exact triple_handleReadError e

/-- What `close_connection` needs to keep the session alive. -/
def Session.Reconnectable (s : Session) : Prop := s.reconnectFlag = true ∨ s.Linked

/-- What `close_connection` needs is stable under the other threads. -/
theorem stable_reconnectable : (vitality cfg).contract.Stable .io Reconnectable :=
  Focus.stable fun _ _ _ _ hr hR => hR.imp (fun hf => hr.1.trans hf) hr.2.2

/-- Code that does not clear `reconnectFlag` leaves what `close_connection` needs. -/
theorem triple_reconnectable {α : Type} {p : Code α} (hp : NoClear p) :
    (vitality cfg).contract.Triple .io Reconnectable p fun _ => Reconnectable :=
  Focus.Steps.triple_uses steps_vitality hp stable_reconnectable fun _ _ _ hop _ hR _ hx =>
    ⟨trivial, hR.imp (reconnectFlag_perform (perform_of_exec hx).2 hop)
      (linked_perform (perform_of_exec hx).2)⟩

/-- `close_connection` connects again if the flag is set; otherwise the link it finds is aborted. -/
theorem triple_closeConnection : (vitality cfg).contract.Triple .io Reconnectable closeConnection
    fun _ => Linked := by
  have hcall : ∀ op : Op, op ≠ .setReconnectFlag false →
      (vitality cfg).contract.Triple .io Reconnectable (call op) fun _ => Reconnectable :=
    fun op hop => triple_reconnectable (uses_call hop)
  unfold closeConnection setCurrentState
  refine (hcall _ (by simp)).bind fun _ => (hcall _ (by simp)).bind fun _ => ?_
  refine (hcall _ (by simp)).bind fun _ => (hcall _ (by simp)).bind fun _ => ?_
  refine (hcall _ (by simp)).bind fun _ => (hcall _ (by simp)).bind fun _ => ?_
  refine (hcall _ (by simp)).bind fun _ => ?_
  -- nobody has called `stop()`, so the branch is that of the reconnect flag
  refine (triple_notStopped stable_reconnectable fun s r h hR => ?_).bind fun stopFlag => ?_
  · exact hR.imp (reconnectFlag_perform h (by simp)) (linked_perform h)
  cases stopFlag with
  | true => exact fun s _ hs => by cases hs.1
  | false =>
      rw [Bool.not_false, Prog.when_true]
      refine Contract.Triple.bind (Q := fun f s => f = true ∨ s.Linked) ?_ fun f => ?_
      · refine Focus.Steps.triple_op steps_vitality
          (Contract.Stable.const.and stable_reconnectable) (fun f => ?_)
          fun s r _ hs _ hx => ?_
        · exact Focus.stable fun _ _ _ _ hr hs => hs.imp id hr.2.2
        · obtain ⟨-, hx⟩ := perform_of_exec hx
          refine ⟨trivial, hs.2.imp (fun hf => ?_) (linked_perform hx)⟩
          cases hx
          exact hf
      cases f with
      | true =>
          refine Contract.Triple.pre (P := fun _ => True) ?_ fun _ _ _ => trivial
          exact (triple_some _).bind fun _ => (triple_some _).bind fun _ => triple_connect
      | false =>
          refine (Contract.Triple.ret (Q := fun _ => Linked) stable_linked).pre fun s _ hs => ?_
          exact hs.resolve_left fun hf => by cases hf

/-! ## The handlers that leave the session as it is -/

/-- The handlers that the inventory lists without such an operation. -/
theorem noClear_body {q : Handler} (hq : q.uses (.setReconnectFlag false) = false) :
    NoClear (q.body cfg) :=
  q.uses_body.mono fun op hop hclear => by
    rw [hclear, hq] at hop
    cases hop

/-! ## Soundness -/

/-- A handler other than those of links and closes finds the session as alive as it was. -/
theorem alive_take {q : Handler} (h : (Job.handler q).take s = some s')
    (hc : q.isConnect = false) (hr : q.isRead = false) (hq : q ≠ .closeConnection) (hA : s.Alive) :
    s'.Alive := by
  have hflag : s'.reconnectFlag = s.reconnectFlag := take_same (f := .reconnectFlag) h (by simp)
  rcases hA.linked_or with hL | ⟨hmem, hf⟩
  · refine (linked_take h (fun q' hq' => ?_) hL).alive
    cases hq'
    exact ⟨hc, hr⟩
  · refine .inr (.inr ⟨ready_take h (fun hne => ?_) hmem, hflag.trans hf⟩)
    cases hne
    exact hq rfl

/-- **A handler leaves the session alive.** -/
theorem safe_handler {q : Handler} (hi' : s'.stopFlag = false) (hA : s.Alive)
    (hg : timeoutWhileLinked.job (.handler q) s) (h : (Job.handler q).take s = some s') :
    (vitality cfg).contract.Safe .io (fun _ => Alive) (q.body cfg) s' := by
  have hlink : ∀ {p : Code Unit} {P : Session → Prop}, (vitality cfg).contract.Triple .io P p
      (fun _ => Linked) → P s' → (vitality cfg).contract.Safe .io (fun _ => Alive) p s' :=
    fun ht hP => (ht.post fun _ _ _ hL => hL.alive) s' hi' hP
  cases q with
  | handleConnect e => exact hlink (triple_handleConnect e) trivial
  | handleReadHeader raw e => exact triple_handleReadHeader raw e s' hi' trivial
  | handleReadBody raw e => exact triple_handleReadBody raw e s' hi' trivial
  | handleWrite r e =>
      exact triple_alive (noClear_body rfl) s' hi' (alive_take h rfl rfl (by simp) hA)
  -- either the flag is set, and it reconnects, or there is a link beside this handler
  | closeConnection =>
      refine hlink triple_closeConnection ?_
      have hflag : s'.reconnectFlag = s.reconnectFlag := take_same (f := .reconnectFlag) h (by simp)
      rcases hA.linked_or with hL | ⟨-, hf⟩
      · refine .inr (linked_take h (fun q' hq' => ?_) hL)
        cases hq'
        exact ⟨rfl, rfl⟩
      · exact .inl (hflag.trans hf)
  | doEnquireLink e =>
      exact triple_alive (noClear_body rfl) s' hi' (alive_take h rfl rfl (by simp) hA)
  | w4rQAgeCleanup e =>
      exact triple_alive (noClear_body rfl) s' hi' (alive_take h rfl rfl (by simp) hA)
  | doEnquireLinkFailure e =>
      by_cases he : e = .operationAborted
      · subst he
        have hnothing : NoClear (doEnquireLinkFailure cfg .operationAborted) := trivial
        exact triple_alive hnothing s' hi' (alive_take h rfl rfl (by simp) hA)
      · -- the flag is cleared, but there is a link
        have hL : s.Linked := hg.2 (bne_iff_ne.mpr he)
        refine hlink (triple_linked _) (linked_take h (fun q' hq' => ?_) hL)
        cases hq'
        exact ⟨rfl, rfl⟩

variable {p : Persisted} {now : Nat} {c : Machine}

/-- **The focus on the session's life is sound**: nothing but a guarded timeout clears
`reconnectFlag`. -/
theorem vitality_sound (cfg : Params) (p : Persisted) (now : Nat) :
    (vitality cfg).contract.Sound (Machine.init p now) := by
  have halive : (Session.init p now).Alive := .inl (.inl List.mem_cons_self)
  exact sound_of_handlers steps_vitality rfl rfl halive stable_alive
    fun q s s' _ hi' hA hg hx => safe_handler hi' hA hg.1 hx

/-- **A session that was not told to stop never dies**, in every run in which enquire link timeouts
only happen while a connection attempt or a read is under way. -/
theorem never_dies (h : Runs cfg timeoutWhileLinked p now c) (hio : c.Idle .io) :
    c.shared.Alive := by
  have hwithout : Runs cfg (timeoutWhileLinked.without .stopper) p now c :=
    h.withoutStopper fun _ _ hj => hj.1
  exact (vitality_sound cfg p now).reach_idle hwithout.disciplined hio rfl

/-- An enquire link goes unanswered while a read is outstanding; the connection is closed, and the
aborted read connects again. -/
def timeoutWhileReading : List Step :=
  Schedule.bind ++ [.env (.elapse 1000000), .env (.expire .enquireLink)] ++
    Schedule.handle (.doEnquireLink .success) ++ .env (.elapse 1000000) ::
    .env (.expire .enquireLinkResponse) :: Schedule.handle (.doEnquireLinkFailure .success) ++
    Schedule.handle .closeConnection ++ .env (.elapse 1000000) ::
    Schedule.handle (.handleReadHeader .none .operationAborted)

/-- A timeout while a read is under way leaves the session alive. -/
theorem never_dies_timeout : (Machine.after sampleParams .none timeoutWhileReading).shared.Alive :=
  never_dies (runs_under (g := timeoutWhileLinked) (by decide +kernel))
    (by decide +kernel)

/-- An enquire link is written; then the peer closes the connection, and before the end of file has
been handled the response is due. -/
def timeoutAfterEof : List Step :=
  Schedule.bind ++ [.env (.elapse 1000000), .env (.expire .enquireLink)] ++
    Schedule.handle (.doEnquireLink .success) ++ Schedule.complete (.write 1) .none .success ++
    [.env (.complete .readHeader .none .eof), .env (.expire .enquireLinkResponse)] ++
    Schedule.handle (.handleReadHeader .none .eof) ++
    Schedule.handle (.doEnquireLinkFailure .success) ++
    Schedule.handle .closeConnection ++ Schedule.handle .closeConnection

/-- Without the condition the session dies. -/
theorem dies_after_eof : ¬∀ (cfg : Params) (p : Persisted) (now : Nat) (c : Machine),
    Runs cfg noStop p now c → c.Idle .io → c.shared.Alive := by
  intro h
  have halive := h sampleParams .none 0 (Machine.after sampleParams .none timeoutAfterEof)
    (runs_under (by decide +kernel)) (by decide +kernel)
  exact absurd halive (by decide +kernel)

end KissSmpp
