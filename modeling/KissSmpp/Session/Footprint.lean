import KissSmpp.Session.Machine

/-! # Footprints

Which members of the shared state an operation can change. `Op.writes` lists them, and
`perform_same` states that everything else is left as it was, so that an argument about a few members
only has to look at the operations that write them. -/

namespace KissSmpp

open Interleave Queue

/-- The members of the shared state that operations change. -/
inductive Field
  | currentState | stopFlag | reconnectFlag | txQ | w4rQ | mVal | throttleNextSendTime | owner | heap
  | now | isConnected | connNo | pending | ready | armed | running | sendingBuffer | recieveBuffer
  | rcvErrBuffer | phase | pastStopTest | inHand | pdu2send | handling | hands | appReply | fault
  | hist
  deriving DecidableEq

/-- A member has the same value in both states. -/
def Field.Same (s s' : Session) : Field → Prop
  | .currentState => s'.currentState = s.currentState
  | .stopFlag => s'.stopFlag = s.stopFlag
  | .reconnectFlag => s'.reconnectFlag = s.reconnectFlag
  | .txQ => s'.txQ = s.txQ
  | .w4rQ => s'.w4rQ = s.w4rQ
  | .mVal => s'.mVal = s.mVal
  | .throttleNextSendTime => s'.throttleNextSendTime = s.throttleNextSendTime
  | .owner => s'.owner = s.owner
  | .heap => s'.heap = s.heap
  | .now => s'.now = s.now
  | .isConnected => s'.isConnected = s.isConnected
  | .connNo => s'.connNo = s.connNo
  | .pending => s'.pending = s.pending
  | .ready => s'.ready = s.ready
  | .armed => s'.armed = s.armed
  | .running => s'.running = s.running
  | .sendingBuffer => s'.sendingBuffer = s.sendingBuffer
  | .recieveBuffer => s'.recieveBuffer = s.recieveBuffer
  | .rcvErrBuffer => s'.rcvErrBuffer = s.rcvErrBuffer
  | .phase => s'.phase = s.phase
  | .pastStopTest => s'.pastStopTest = s.pastStopTest
  | .inHand => s'.inHand = s.inHand
  | .pdu2send => s'.pdu2send = s.pdu2send
  | .handling => s'.handling = s.handling
  | .hands => s'.hands = s.hands
  | .appReply => s'.appReply = s.appReply
  | .fault => s'.fault = s.fault
  | .hist => s'.hist = s.hist

/-- The members an operation can change. -/
@[simp] def Op.writes : Op → List Field
  | .lock _ | .unlock _ => [.owner, .phase]
  | .setState _ => [.currentState]
  | .getStopFlag | .getReconnectFlag => [.pastStopTest]
  | .setStopFlag _ => [.stopFlag]
  | .setReconnectFlag _ => [.reconnectFlag]
  | .txEmpty => [.phase]
  | .txPush _ _ => [.txQ, .inHand, .hist]
  | .txPop => [.txQ, .pdu2send, .phase]
  | .txClear _ => [.txQ]
  | .txPushBackLastPop => [.txQ, .handling]
  | .w4rInsert _ => [.w4rQ, .handling]
  | .w4rAnswer _ _ => [.w4rQ, .hist]
  | .w4rEraseFound _ => [.w4rQ]
  | .setVal _ => [.mVal]
  | .newPdu _ => [.heap, .inHand, .hist]
  | .setSeq _ _ => [.heap]
  | .setNextSend _ => [.throttleNextSendTime]
  | .asyncConnect => [.pending, .pastStopTest, .hist]
  | .asyncReadHeader | .asyncReadBody _ => [.pending, .ready]
  | .asyncWrite _ _ => [.pending, .ready, .pdu2send, .hist]
  | .socketClose => [.isConnected, .pending, .ready, .hist]
  | .postClose => [.ready]
  | .cancel _ | .arm _ => [.ready, .armed]
  | .retire => [.handling]
  | .sendPop => [.sendingBuffer, .inHand]
  | .sendDone => [.inHand]
  | .rxPush _ => [.recieveBuffer]
  | .rxPop => [.recieveBuffer, .hands]
  | .rxDone => [.hands]
  | .errPush _ => [.rcvErrBuffer]
  | .takeReply => [.appReply]
  | .note _ => [.hist]
  | .fail _ => [.fault]
  | _ => []

variable {cfg : Params} {t : Tid} {s : Session}

/-- Starting a socket operation changes `pending` or `ready` only. -/
theorem Session.startIo_same (io : Io) {f : Field} (hf : f ∉ [Field.pending, Field.ready]) :
    f.Same s (s.startIo io) := by
  unfold Session.startIo
  split <;> cases f <;> first | rfl | simp at hf

/-- **The footprint of an operation**: a member it does not write is left as it was. -/
theorem perform_same {op : Op} {r : op.Res × Session} (h : perform cfg t op s = some r) {f : Field}
    (hf : f ∉ op.writes) : f.Same s r.2 := by
  cases op
  -- the operations that may block, or whose effect depends on the state
  case lock m =>
      obtain ⟨-, rfl⟩ := perform_lock h
      unfold Session.onWriteMutex
      split <;> cases f <;> first | rfl | simp at hf
  case unlock m =>
      cases h
      unfold Session.onWriteMutex
      split <;> cases f <;> first | rfl | simp at hf
  case sleepUntil t' =>
      obtain ⟨-, rfl⟩ := perform_sleepUntil h
      cases f <;> rfl
  case takeReply =>
      obtain ⟨a, -, rfl⟩ := Option.map_eq_some_iff.mp h
      cases f <;> first | rfl | simp at hf
  case w4rEraseFound r =>
      rcases perform_w4rEraseFound h with rfl | rfl <;> cases f <;>
        first | rfl | simp at hf
  case asyncReadHeader =>
      cases h
      unfold Session.startIo
      split <;> cases f <;> first | rfl | simp at hf
  case asyncReadBody raw =>
      cases h
      unfold Session.startIo
      split <;> cases f <;> first | rfl | simp at hf
  case asyncWrite r tbuf =>
      cases h
      unfold Session.startIo
      split <;> cases f <;> first | rfl | simp at hf
  case cancel tm =>
      cases h
      unfold Session.cancelTimer
      split <;> cases f <;> first | rfl | simp at hf
  case arm tm =>
      cases h
      unfold Session.cancelTimer
      split <;> cases f <;> first | rfl | simp at hf
  all_goals
    cases h
    cases f <;> first | rfl | simp at hf

/-- An operation runs only in a process without a fault. -/
theorem perform_of_exec {op : Op} {r : op.Res × Session} (h : exec cfg t op s = some r) :
    s.fault = none ∧ perform cfg t op s = some r := by
  unfold exec at h
  split at h
  · next hf => exact ⟨hf, h⟩
  · cases h

/-- The footprint of the environment. -/
theorem env_same {e : Env} {s' : Session} (h : e.perform cfg s = some s') {f : Field}
    (hf : f ∉ [Field.pending, .ready, .armed, .isConnected, .connNo, .now, .heap, .sendingBuffer,
      .appReply, .hist]) : f.Same s s' := by
  cases e with
  | complete io raw er =>
      obtain ⟨-, rfl⟩ := Env.perform_complete h
      unfold Session.connectDone
      split <;> cases f <;> first | rfl | simp at hf
  | expire tm =>
      obtain ⟨-, rfl⟩ := Env.perform_expire h
      cases f <;> first | rfl | simp at hf
  | elapse us => cases h; cases f <;> first | rfl | simp at hf
  | submit body => cases h; cases f <;> first | rfl | simp at hf
  | reply a => cases h; cases f <;> first | rfl | simp at hf

/-- In the environment time passes. -/
theorem now_env {e : Env} {s' : Session} (h : e.perform cfg s = some s') : ∃ d, s'.now = s.now + d := by
  cases e with
  | elapse us => cases h; exact ⟨us, rfl⟩
  | complete io raw er =>
      obtain ⟨-, rfl⟩ := Env.perform_complete h
      unfold Session.connectDone
      split <;> exact ⟨0, rfl⟩
  | expire tm =>
      obtain ⟨-, rfl⟩ := Env.perform_expire h
      exact ⟨0, rfl⟩
  | submit body => cases h; exact ⟨0, rfl⟩
  | reply a => cases h; exact ⟨0, rfl⟩

/-- The footprint of the start of a job. -/
theorem take_same {j : Job} {s' : Session} (h : j.take s = some s') {f : Field}
    (hf : f ∉ [Field.ready, .running, .handling, .pastStopTest, .hist]) : f.Same s s' := by
  cases j with
  | handler h' =>
      obtain ⟨-, rfl⟩ := Job.take_handler h
      cases f <;> first | rfl | simp at hf
  | send => cases h; cases f <;> rfl
  | receive => cases h; cases f <;> rfl
  | stop => cases h; cases f <;> first | rfl | simp at hf

/-- No operation changes which handler the io thread runs. -/
theorem perform_running {op : Op} {r : op.Res × Session} (h : perform cfg t op s = some r) :
    r.2.running = s.running :=
  perform_same (f := .running) h (by cases op <;> simp)

/-- The start of a job on another thread leaves the handler of the io thread as it is. -/
theorem take_running {j : Job} {s' : Session} (h : j.take s = some s') (hj : j.thread ≠ .io) :
    s'.running = s.running := by
  cases j with
  | handler q => exact absurd rfl hj
  | send => cases h; rfl
  | receive => cases h; rfl
  | stop => cases h; rfl

/-- The state is left as it is where it is not set. -/
theorem perform_currentState {op : Op} {r : op.Res × Session} (h : perform cfg t op s = some r)
    (hop : ∀ st, op ≠ .setState st) : r.2.currentState = s.currentState := by
  apply perform_same (f := .currentState) h
  intro hw
  cases op <;> first | exact hop _ rfl | simp at hw

/-! ## What is recorded -/

/-- The events an operation records. -/
@[simp] def Op.logs (s : Session) : Op → List Event
  | .txPush r l => [.pushed r l]
  | .w4rAnswer cmd seq => [.response cmd seq]
  | .newPdu _ => [.constructed s.heap.length]
  | .asyncConnect => [.connect]
  | .asyncWrite r tbuf =>
      [.wrote r tbuf s.currentState (if s.isConnected then some s.connNo else none)]
  | .socketClose => [.closed]
  | .note m => [.mark m]
  | _ => []

/-- Every operation only adds to the record. -/
theorem perform_hist {op : Op} {r : op.Res × Session} (h : perform cfg t op s = some r) :
    r.2.hist = op.logs s ++ s.hist := by
  by_cases hw : Field.hist ∈ op.writes
  · cases op
    case asyncWrite p tbuf =>
      cases h
      exact congrArg (_ :: ·) (Session.startIo_same (f := .hist) _ (by decide))
    all_goals first
      | (cases h; rfl)
      | simp at hw
  · have hsame : r.2.hist = s.hist := perform_same (f := .hist) h hw
    rw [hsame]
    cases op <;> first | rfl | simp at hw

/-- The events a move of the environment records. -/
def Env.logs (s : Session) : Env → List Event
  | .complete .connect _ .success => [.connected (s.connNo + 1)]
  | .submit _ => [.submitted s.heap.length]
  | _ => []

/-- Every move of the environment only adds to the record. -/
theorem env_hist {e : Env} {s' : Session} (h : e.perform cfg s = some s') :
    s'.hist = e.logs s ++ s.hist := by
  cases e with
  | complete io raw er =>
      obtain ⟨-, rfl⟩ := Env.perform_complete h
      cases io <;> cases er <;> rfl
  | expire tm =>
      obtain ⟨-, rfl⟩ := Env.perform_expire h
      rfl
  | elapse us => cases h; rfl
  | submit body => cases h; rfl
  | reply a => cases h; rfl

/-- The events the start of a job records. -/
def Job.logs : Job → List Event
  | .handler h => [.started h]
  | .stop => [.stopCalled]
  | _ => []

/-- The start of a job only adds to the record. -/
theorem take_hist {j : Job} {s' : Session} (h : j.take s = some s') :
    s'.hist = j.logs ++ s.hist := by
  cases j with
  | handler h' =>
      obtain ⟨-, rfl⟩ := Job.take_handler h
      rfl
  | send => cases h; rfl
  | receive => cases h; rfl
  | stop => cases h; rfl

/-- The environment records a connection or a submission. -/
theorem mem_env_logs {e : Env} {ev : Event} (hev : ev ∈ e.logs s) :
    ev = .connected (s.connNo + 1) ∨ ev = .submitted s.heap.length := by
  unfold Env.logs at hev
  split at hev
  · exact .inl (List.mem_singleton.mp hev)
  · exact .inr (List.mem_singleton.mp hev)
  · cases hev

/-- The start of a job records a handler or a call of `stop()`. -/
theorem mem_job_logs {j : Job} {ev : Event} (hev : ev ∈ j.logs) :
    (∃ q, j = .handler q ∧ ev = .started q) ∨ j = .stop ∧ ev = .stopCalled := by
  cases j with
  | handler q => exact .inl ⟨q, rfl, List.mem_singleton.mp hev⟩
  | stop => exact .inr ⟨rfl, List.mem_singleton.mp hev⟩
  | send => cases hev
  | receive => cases hev

/-- What is on record after a move of the environment was there before, unless it is a new
connection or a submission. -/
theorem mem_hist_of_env {e : Env} {s' : Session} (h : e.perform cfg s = some s') {ev : Event}
    (hev : ev ∈ s'.hist) (hconnected : ∀ n, ev ≠ .connected n) (hsubmitted : ∀ r, ev ≠ .submitted r) :
    ev ∈ s.hist := by
  rw [env_hist h, List.mem_append] at hev
  refine hev.resolve_left fun hev => ?_
  rcases mem_env_logs hev with rfl | rfl
  · exact hconnected _ rfl
  · exact hsubmitted _ rfl

/-- What is on record after the start of a job was there before, unless it is that start or a call
of `stop()`. -/
theorem mem_hist_of_take {j : Job} {s' : Session} (h : j.take s = some s') {ev : Event}
    (hev : ev ∈ s'.hist) (hstarted : ∀ q, ev ≠ .started q) (hstop : ev ≠ .stopCalled) :
    ev ∈ s.hist := by
  rw [take_hist h, List.mem_append] at hev
  refine hev.resolve_left fun hev => ?_
  rcases mem_job_logs hev with ⟨q, -, rfl⟩ | ⟨-, rfl⟩
  · exact hstarted _ rfl
  · exact hstop rfl

/-- What is on record stays there, whatever operation is performed. -/
theorem mem_hist_perform {op : Op} {r : op.Res × Session} (h : perform cfg t op s = some r)
    {ev : Event} (hev : ev ∈ s.hist) : ev ∈ r.2.hist := by
  rw [perform_hist h]
  exact List.mem_append_right _ hev

/-- What is on record stays there, whatever the environment does. -/
theorem mem_hist_env {e : Env} {s' : Session} (h : e.perform cfg s = some s') {ev : Event}
    (hev : ev ∈ s.hist) : ev ∈ s'.hist := by
  rw [env_hist h]
  exact List.mem_append_right _ hev

/-- What is on record stays there, whatever job is started. -/
theorem mem_hist_take {j : Job} {s' : Session} (h : j.take s = some s') {ev : Event}
    (hev : ev ∈ s.hist) : ev ∈ s'.hist := by
  rw [take_hist h]
  exact List.mem_append_right _ hev

/-! ## Handlers that wait -/

/-- What is ready to run stays so when a socket operation is started. -/
theorem Session.mem_ready_startIo {q : Handler} (io : Io) (hq : q ∈ s.ready) :
    q ∈ (s.startIo io).ready := by
  unfold Session.startIo
  split
  · exact hq
  · exact List.mem_append_left _ hq

/-- What is ready to run stays so when a timer is cancelled. -/
theorem Session.mem_ready_cancelTimer {q : Handler} (tm : Timer) (hq : q ∈ s.ready) :
    q ∈ (s.cancelTimer tm).ready := by
  unfold Session.cancelTimer
  split
  · exact List.mem_append_left _ hq
  · exact hq

/-- No operation takes a handler out of the queue. -/
theorem ready_perform {op : Op} {r : op.Res × Session} (h : perform cfg t op s = some r) {q : Handler}
    (hq : q ∈ s.ready) : q ∈ r.2.ready := by
  by_cases hw : Field.ready ∈ op.writes
  · cases op with
    | asyncReadHeader => cases h; exact Session.mem_ready_startIo _ hq
    | asyncReadBody raw => cases h; exact Session.mem_ready_startIo _ hq
    | asyncWrite p tbuf => cases h; exact Session.mem_ready_startIo _ hq
    | socketClose => cases h; exact List.mem_append_left _ hq
    | postClose => cases h; exact List.mem_append_left _ hq
    | cancel tm => cases h; exact Session.mem_ready_cancelTimer tm hq
    | arm tm => cases h; exact Session.mem_ready_cancelTimer tm hq
    | _ => simp at hw
  · have hsame : r.2.ready = s.ready := perform_same (f := .ready) h hw
    exact hsame ▸ hq

/-- The environment takes no handler out of the queue. -/
theorem ready_env {e : Env} {s' : Session} (h : e.perform cfg s = some s') {q : Handler}
    (hq : q ∈ s.ready) : q ∈ s'.ready := by
  cases e with
  | complete io raw er =>
      obtain ⟨-, rfl⟩ := Env.perform_complete h
      refine List.mem_append_left _ ?_
      unfold Session.connectDone
      split <;> exact hq
  | expire tm =>
      obtain ⟨-, rfl⟩ := Env.perform_expire h
      exact List.mem_append_left _ hq
  | elapse us => cases h; exact hq
  | submit body => cases h; exact hq
  | reply a => cases h; exact hq

/-- The start of a job takes no other handler out of the queue. -/
theorem ready_take {j : Job} {s' : Session} (h : j.take s = some s') {q : Handler}
    (hj : j ≠ .handler q) (hq : q ∈ s.ready) : q ∈ s'.ready := by
  cases j with
  | handler h' =>
      have hne : q ≠ h' := fun hne => hj (by rw [hne])
      obtain ⟨-, rfl⟩ := Job.take_handler h
      exact (List.mem_erase_of_ne hne).mpr hq
  | send => cases h; exact hq
  | receive => cases h; exact hq
  | stop => cases h; exact hq

/-! ## New objects -/

/-- The object constructed is the one behind the new reference. -/
theorem perform_newPdu {p : Pdu} {r : Ref × Session} (h : perform cfg t (.newPdu p) s = some r) :
    r.1 < r.2.heap.length ∧ r.2.pdu r.1 = p := by
  cases h
  constructor
  · simp [Session.record]
  · show (s.heap ++ [p]).getD s.heap.length _ = p
    simp

/-! ## What belongs to one thread -/

/-- The members that hold a thread's local variables only change by the thread itself. -/
theorem perform_local {op : Op} {r : op.Res × Session} (h : perform cfg t op s = some r) {u : Tid}
    (hu : u ≠ t) :
    r.2.pdu2send u = s.pdu2send u ∧ r.2.inHand u = s.inHand u ∧ r.2.phase u = s.phase u := by
  by_cases hw : Field.pdu2send ∉ op.writes ∧ Field.inHand ∉ op.writes ∧ Field.phase ∉ op.writes
  · have h₁ : r.2.pdu2send = s.pdu2send := perform_same (f := .pdu2send) h hw.1
    have h₂ : r.2.inHand = s.inHand := perform_same (f := .inHand) h hw.2.1
    have h₃ : r.2.phase = s.phase := perform_same (f := .phase) h hw.2.2
    exact ⟨congrFun h₁ u, congrFun h₂ u, congrFun h₃ u⟩
  -- what an operation writes there, it writes at its own thread
  · cases op with
    | lock m =>
        obtain ⟨-, rfl⟩ := perform_lock h
        unfold Session.onWriteMutex
        split
        · exact ⟨rfl, rfl, Function.update_of_ne hu _ _⟩
        · exact ⟨rfl, rfl, rfl⟩
    | unlock m =>
        cases h
        unfold Session.onWriteMutex
        split
        · exact ⟨rfl, rfl, Function.update_of_ne hu _ _⟩
        · exact ⟨rfl, rfl, rfl⟩
    | txEmpty =>
        cases h
        exact ⟨rfl, rfl, Function.update_of_ne hu _ _⟩
    | txPush r l =>
        cases h
        exact ⟨rfl, Function.update_of_ne hu _ _, rfl⟩
    | txPop =>
        cases h
        exact ⟨Function.update_of_ne hu _ _, rfl, Function.update_of_ne hu _ _⟩
    | newPdu p =>
        cases h
        exact ⟨rfl, Function.update_of_ne hu _ _, rfl⟩
    | asyncWrite p tbuf =>
        cases h
        let s₁ : Session := { s with pdu2send := Function.update s.pdu2send t none }
        have h₁ : (s₁.startIo (.write p)).pdu2send = s₁.pdu2send :=
          Session.startIo_same (f := .pdu2send) _ (by decide)
        have h₂ : (s₁.startIo (.write p)).inHand = s.inHand :=
          Session.startIo_same (s := s₁) (f := .inHand) _ (by decide)
        have h₃ : (s₁.startIo (.write p)).phase = s.phase :=
          Session.startIo_same (s := s₁) (f := .phase) _ (by decide)
        refine ⟨?_, congrFun h₂ u, congrFun h₃ u⟩
        exact (congrFun h₁ u).trans (Function.update_of_ne hu _ _)
    | sendPop =>
        cases h
        exact ⟨rfl, Function.update_of_ne hu _ _, rfl⟩
    | sendDone =>
        cases h
        exact ⟨rfl, Function.update_of_ne hu _ _, rfl⟩
    | _ => simp at hw

/-- Where inside the critical section of `writeMutex` an operation takes the thread that performs it,
if it moves it at all. -/
def Op.phase? (s : Session) : Op → Option Phase
  | .lock .writeMutex => some .locked
  | .unlock .writeMutex => some .outside
  | .txEmpty => some (.found s.txQ.empty)
  | .txPop => some .popped
  | _ => none

/-- A thread is where its last operation has taken it. -/
theorem phase_moved {op : Op} {r : op.Res × Session} (h : perform cfg t op s = some r) :
    r.2.phase t = (op.phase? s).getD (s.phase t) := by
  by_cases hw : Field.phase ∈ op.writes
  · cases op with
    | lock m =>
        obtain ⟨-, rfl⟩ := perform_lock h
        cases m with
        | writeMutex => exact Function.update_self ..
        | w4rQMutex => rfl
        | mMtx => rfl
    | unlock m =>
        cases h
        cases m with
        | writeMutex => exact Function.update_self ..
        | w4rQMutex => rfl
        | mMtx => rfl
    | txEmpty => cases h; exact Function.update_self ..
    | txPop => cases h; exact Function.update_self ..
    | _ => simp at hw
  · have hph : r.2.phase = s.phase := perform_same (f := .phase) h hw
    have hnone : op.phase? s = none := by
      cases op with
      | lock m => simp at hw
      | unlock m => simp at hw
      | txEmpty => simp at hw
      | txPop => simp at hw
      | _ => rfl
    rw [hnone, hph]
    rfl

/-- A thread that is at `ph` was there before, or has just been taken there. -/
theorem phase_eq_perform {op : Op} {r : op.Res × Session} (h : perform cfg t op s = some r) {u : Tid}
    {ph : Phase} (hu : r.2.phase u = ph) : s.phase u = ph ∨ (u = t ∧ op.phase? s = some ph) := by
  by_cases hut : u = t
  · subst hut
    rw [phase_moved h] at hu
    cases hop : op.phase? s with
    | none =>
        rw [hop] at hu
        exact .inl hu
    | some ph' =>
        rw [hop] at hu
        exact .inr ⟨rfl, congrArg some hu⟩
  · rw [(perform_local h hut).2.2] at hu
    exact .inl hu

/-- A thread finds out about the queue by asking. -/
theorem found_or_empty {op : Op} {x : op.Res × Session} (h : perform cfg t op s = some x) {u : Tid}
    {b : Bool} (hu : x.2.phase u = .found b) :
    s.phase u = .found b ∨ (op = .txEmpty ∧ s.txQ.empty = b) := by
  refine (phase_eq_perform h hu).imp_right fun ⟨_, hph⟩ => ?_
  unfold Op.phase? at hph
  split at hph
  · cases hph
  · cases hph
  · rw [Option.some.injEq, Phase.found.injEq] at hph
    exact ⟨rfl, hph⟩
  · cases hph
  · cases hph

end KissSmpp
