import KissSmpp.Properties.Reconnect
import KissSmpp.Properties.Shutdown

/-! # One connection chain

A connection is established and read by a chain of operations, each started by the handler of the one
before. `handle_connect` and the two read handlers continue the chain they belong to, and
`close_connection` starts a new one. Closing the socket does not end the old one: its handler is yet to
run with `operation_aborted`, which the handlers of the timers check for and those of connecting and
reading do not. -/

namespace KissSmpp

open Interleave

variable {cfg : Params} {t : Tid} {s s' : Session}

/-! ## Chains -/

/-- The operations of a chain: connecting and reading. -/
def Io.isLink (io : Io) : Bool := io == .connect || io.isRead

/-- The handlers of a chain: those of connecting and reading. -/
def Handler.isLink (h : Handler) : Bool := h.isConnect || h.isRead

/-- The handler of an operation of connecting or reading belongs to the same chain. -/
@[simp] theorem Io.isLink_handler (raw : RawPdu) (e : ErrorCode) (io : Io) :
    (io.handler raw e).isLink = io.isLink := by
  cases io <;> rfl

/-- The operations that start or continue a chain. -/
@[simp] def Op.starts : Op → Bool
  | .asyncConnect | .asyncReadHeader | .asyncReadBody _ => true
  | _ => false

namespace Session

/-- **How many chains there are**: operations of connecting and reading under way, and handlers of such
operations that wait. -/
def chains (s : Session) : Nat := s.pending.countP Io.isLink + s.ready.countP Handler.isLink

/-- An outstanding `async_connect` is the only chain. -/
def OneChain (s : Session) : Prop := .connect ∈ s.pending → s.chains = 1

/-- Whether the connection attempt is the only chain is decidable. -/
instance (s : Session) : Decidable s.OneChain :=
  inferInstanceAs (Decidable (Io.connect ∈ s.pending → s.chains = 1))

end Session

open Session

/-- **Reconnecting alone**: when `close_connection` finds `reconnectFlag` set, no operation of
connecting or reading is under way, and no handler of one waits. -/
def reconnectsAlone : Guard Op Tid Session Job where
  op _ op s := op = Op.getReconnectFlag → s.reconnectFlag = true → s.chains = 0
  job _ _ := True

/-- The guard can be evaluated. -/
instance : reconnectsAlone.Checkable where
  op _ op s :=
    inferInstanceAs (Decidable (op = Op.getReconnectFlag → s.reconnectFlag = true → s.chains = 0))
  job _ _ := inferInstanceAs (Decidable True)

/-! ## Single steps -/

/-- A handler of connecting or reading that is queued adds a chain. -/
theorem chains_enqueue (s : Session) (q : Handler) :
    (s.enqueue q).chains = s.chains + if q.isLink then 1 else 0 := by
  simp only [chains, enqueue, List.countP_append, List.countP_singleton]
  omega

/-- An operation of connecting or reading that is started adds a chain, also if it fails at once. -/
theorem chains_startIo (io : Io) : (s.startIo io).chains = s.chains + if io.isLink then 1 else 0 := by
  unfold startIo
  split
  · simp only [chains, List.countP_append, List.countP_singleton]
    omega
  · rw [chains_enqueue, Io.isLink_handler]

/-- Cancelling a timer adds no chain. -/
theorem chains_cancelTimer (tm : Timer) : (s.cancelTimer tm).chains = s.chains := by
  unfold cancelTimer
  split
  · have hlink : (tm.handler .operationAborted).isLink = false := by cases tm <;> rfl
    show (s.enqueue (tm.handler .operationAborted)).chains = s.chains
    rw [chains_enqueue, hlink]
    rfl
  · rfl

/-- Closing the socket passes every chain on to a handler. -/
theorem chains_closeSocket : s.closeSocket.chains = s.chains := by
  have hcount : (s.pending.map (Io.handler .none .operationAborted)).countP Handler.isLink =
      s.pending.countP Io.isLink := by
    rw [List.countP_map]
    congr 1
    funext io
    exact Io.isLink_handler _ _ io
  simp only [chains, closeSocket, List.countP_nil, List.countP_append, hcount]
  omega

/-- **What an operation does to the number of chains.** -/
theorem chains_perform {op : Op} {x : op.Res × Session} (h : perform cfg t op s = some x) :
    x.2.chains = s.chains + if op.starts then 1 else 0 := by
  -- the links of a chain are in `pending` or in `ready`
  by_cases hw : Field.pending ∈ op.writes ∨ Field.ready ∈ op.writes
  · cases op with
    | asyncConnect =>
        cases h
        show (s.pending ++ [Io.connect]).countP Io.isLink + s.ready.countP Handler.isLink = s.chains + 1
        rw [List.countP_append]
        simp only [chains]
        show _ + 1 + _ = _
        omega
    | asyncReadHeader => cases h; exact chains_startIo _
    | asyncReadBody raw => cases h; exact chains_startIo _
    | asyncWrite q tbuf =>
        cases h
        let s₁ : Session := { s with pdu2send := Function.update s.pdu2send t none }
        exact chains_startIo (s := s₁) (.write q)
    | socketClose => cases h; exact chains_closeSocket
    | postClose => cases h; exact chains_enqueue s _
    | cancel tm => cases h; exact chains_cancelTimer tm
    | arm tm => cases h; exact chains_cancelTimer tm
    | _ => simp at hw
  · have hp : x.2.pending = s.pending := perform_same (f := .pending) h fun hf => hw (.inl hf)
    have hr : x.2.ready = s.ready := perform_same (f := .ready) h fun hf => hw (.inr hf)
    have hstart : op.starts = false := by
      cases op <;> first | rfl | simp at hw
    rw [hstart]
    show x.2.pending.countP _ + x.2.ready.countP _ = _
    rw [hp, hr]
    rfl

/-- An element taken out of a list counts no more. -/
theorem countP_erase_add {α : Type} [BEq α] [LawfulBEq α] {l : List α} {a : α} (p : α → Bool)
    (h : a ∈ l) : (l.erase a).countP p + (if p a then 1 else 0) = l.countP p := by
  rw [(List.perm_cons_erase h).countP_eq, List.countP_cons]

/-- The environment neither starts nor ends a chain. -/
theorem chains_env {e : Env} (h : e.perform cfg s = some s') : s'.chains = s.chains := by
  cases e with
  | complete io raw er =>
      obtain ⟨hio, rfl⟩ := Env.perform_complete h
      rw [chains_enqueue, Io.isLink_handler]
      have hdone : (Session.connectDone { s with pending := s.pending.erase io } io er).chains =
          (s.pending.erase io).countP Io.isLink + s.ready.countP Handler.isLink := by
        unfold connectDone
        split <;> rfl
      have hcount := countP_erase_add Io.isLink hio
      rw [hdone, chains]
      omega
  | expire tm =>
      obtain ⟨-, rfl⟩ := Env.perform_expire h
      have hlink : (tm.handler .success).isLink = false := by cases tm <;> rfl
      rw [chains_enqueue, hlink]
      rfl
  | elapse us => cases h; rfl
  | submit body => cases h; rfl
  | reply a => cases h; rfl

/-- Taking up a handler of a chain takes it out of the count. -/
theorem chains_take {q : Handler} (h : (Job.handler q).take s = some s') :
    s.chains = s'.chains + if q.isLink then 1 else 0 := by
  obtain ⟨hq, rfl⟩ := Job.take_handler h
  show s.pending.countP Io.isLink + s.ready.countP Handler.isLink =
    s.pending.countP Io.isLink + (s.ready.erase q).countP Handler.isLink + _
  have hcount := countP_erase_add Handler.isLink hq
  omega

/-! ## The contract on the io thread -/

/-- **The contract on the io thread**: it starts an operation of a chain only when there is none, and
leaves one chain at most between its handlers. -/
def chaining (cfg : Params) : Focus (system cfg) where
  thread := .io
  guard := known cfg reconnectsAlone
  inv _ := True
  fact op s := op.starts = true → s.chains = 0
  rely s s' := s'.chains = s.chains
  idle s := s.chains ≤ 1
  rely_refl _ := rfl
  rely_trans _ _ _ h h' := h'.trans h

/-- What the other threads do is a step of the focus on the io thread. -/
theorem steps_chaining : (chaining cfg).Steps where
  op t op s r _ hg hx := by
    obtain ⟨-, hx⟩ := perform_of_exec hx
    refine ⟨trivial, fun ht => ?_⟩
    have hio : op.onIo = false := Op.onIo_of_ne (known_mayRun hg) ht
    have hstart : op.starts = false := by
      cases op <;> first | rfl | cases hio
    show r.2.chains = s.chains
    rw [chains_perform hx, hstart]
    rfl
  env e s s' _ hx := ⟨trivial, chains_env hx⟩
  take j s s' _ _ hx := by
    refine ⟨trivial, fun hj => ?_⟩
    cases j with
    | handler q => exact absurd rfl hj
    | send => cases hx; rfl
    | receive => cases hx; rfl
    | stop => cases hx; rfl

/-- No other thread adds a chain. -/
theorem stable_chains {n : Nat} : (chaining cfg).contract.Stable .io fun s => s.chains ≤ n := by
  apply Focus.stable
  intro s s' _ _ hr hs
  rw [hr]
  exact hs

/-- Code that starts nothing keeps the number of chains. -/
theorem triple_noStart {α : Type} {n : Nat} {p : Code α} (hp : p.Uses fun op => op.starts = false) :
    (chaining cfg).contract.Triple .io (fun s => s.chains ≤ n) p fun _ s => s.chains ≤ n := by
  apply Focus.Steps.triple_uses steps_chaining hp stable_chains
  intro op s r hop _ hs _ hx
  obtain ⟨-, hx⟩ := perform_of_exec hx
  refine ⟨fun hstart => ?_, ?_⟩
  · rw [hop] at hstart
    cases hstart
  · rw [chains_perform hx, hop]
    exact hs

/-- The next operation of a chain is started when the one before is over. -/
theorem triple_start {op : Op} (hop : op.starts = true) : (chaining cfg).contract.Triple .io
    (fun s => s.chains ≤ 0) (call op) fun _ s => s.chains ≤ 1 := by
  apply Focus.Steps.triple_op steps_chaining stable_chains fun _ => stable_chains
  intro s r _ hs _ hx
  obtain ⟨-, hx⟩ := perform_of_exec hx
  refine ⟨fun _ => Nat.le_zero.mp hs, ?_⟩
  rw [chains_perform hx, hop]
  exact Nat.succ_le_succ hs

/-- Waiting and connecting again. -/
theorem triple_sleep_start (n : Nat) : (chaining cfg).contract.Triple .io
    (fun s => s.chains ≤ 0) (sleep n >>= fun _ => connect) fun _ s => s.chains ≤ 1 := by
  have hsleep : (sleep n).Uses fun op => op.starts = false :=
    uses_then rfl fun _ => uses_call rfl
  exact (triple_noStart hsleep).bind fun _ => triple_start rfl

/-! ## The handlers -/

/-- `handle_connect` goes on with the chain it belongs to. -/
theorem triple_handleConnect_chain (e : ErrorCode) : (chaining cfg).contract.Triple .io
    (fun s => s.chains ≤ 0) (handleConnect cfg e) fun _ s => s.chains ≤ 1 := by
  unfold handleConnect
  split
  · apply (triple_noStart (uses_call rfl)).bind
    intro _
    apply (triple_noStart _).bind
    · exact fun _ => triple_start rfl
    · apply ofRequest_doBindRequest.mono
      intro op hop
      cases op <;> first | rfl | cases hop
  · apply (triple_noStart (uses_call rfl)).bind
    intro stopFlag
    cases stopFlag with
    | true =>
        exact (Contract.Triple.skip stable_chains).pre fun _ _ hs => Nat.le_succ_of_le hs
    | false => exact triple_sleep_start 5

/-- A failed read starts nothing. -/
theorem triple_handleReadError_chain (e : ErrorCode) : (chaining cfg).contract.Triple .io
    (fun s => s.chains ≤ 0) (handleReadError cfg e) fun _ s => s.chains ≤ 1 := by
  apply (triple_noStart _).post fun _ _ _ hs => Nat.le_succ_of_le hs
  apply (ofFailure_handleReadError e).mono
  intro op hop
  cases op <;> first | rfl | cases hop

/-- `handle_read_header` goes on with the chain it belongs to. -/
theorem triple_handleReadHeader_chain (raw : RawPdu) (e : ErrorCode) :
    (chaining cfg).contract.Triple .io (fun s => s.chains ≤ 0) (handleReadHeader cfg raw e)
      fun _ s => s.chains ≤ 1 := by
  unfold handleReadHeader
  split
  · exact triple_start rfl
  · exact triple_handleReadError_chain e

/-- `handle_read_body` goes on with the chain it belongs to. -/
theorem triple_handleReadBody_chain (raw : RawPdu) (e : ErrorCode) :
    (chaining cfg).contract.Triple .io (fun s => s.chains ≤ 0) (handleReadBody cfg raw e)
      fun _ s => s.chains ≤ 1 := by
  unfold handleReadBody
  split
  · apply (triple_noStart _).bind
    · intro _
      apply (triple_noStart _).bind
      · exact fun _ => triple_start rfl
      · have hprocess : (process4state cfg raw).Uses fun op => op.ofProcess raw = true :=
          ofProcess_process4state
        apply hprocess.mono
        intro op hop
        cases op <;> first | rfl | cases hop
    · exact Prog.Uses.when (uses_then rfl fun _ => uses_then rfl fun _ => uses_call rfl)
  · exact triple_handleReadError_chain e

/-- `close_connection` starts a new chain only when the guard lets it find the flag set. -/
theorem triple_closeConnection_chain : (chaining cfg).contract.Triple .io (fun s => s.chains ≤ 1)
    closeConnection fun _ s => s.chains ≤ 1 := by
  have hcall : ∀ op : Op, op.starts = false → (chaining cfg).contract.Triple .io
      (fun s => s.chains ≤ 1) (call op) fun _ s => s.chains ≤ 1 :=
    fun op hop => triple_noStart (uses_call hop)
  -- the guard: when the flag is found set, no chain is left
  have hflag : (chaining cfg).contract.Triple .io (fun s => s.chains ≤ 1) (call .getReconnectFlag)
      fun b s => s.chains ≤ if b then 0 else 1 := by
    apply Focus.Steps.triple_op steps_chaining stable_chains fun _ => stable_chains
    intro s r _ hs hg hx
    obtain ⟨-, hx⟩ := perform_of_exec hx
    cases hx
    refine ⟨fun hstart => (by cases hstart), ?_⟩
    show s.chains ≤ if s.reconnectFlag then 0 else 1
    split
    · next hf => exact Nat.le_of_eq (known_guard hg rfl hf)
    · exact hs
  -- up to the test of the flag nothing is started
  unfold closeConnection setCurrentState
  apply (hcall _ rfl).bind
  intro _
  apply (hcall _ rfl).bind
  intro _
  apply (hcall _ rfl).bind
  intro _
  apply (hcall _ rfl).bind
  intro _
  apply (hcall _ rfl).bind
  intro _
  apply (hcall _ rfl).bind
  intro _
  apply (hcall _ rfl).bind
  intro _
  apply (hcall _ rfl).bind
  intro stopFlag
  apply Contract.Triple.when stable_chains
  intro _
  apply hflag.bind
  intro reconnectFlag
  cases reconnectFlag with
  | true =>
      apply (triple_noStart (uses_call rfl)).bind
      exact fun _ => triple_sleep_start 1
  | false => exact Contract.Triple.skip stable_chains

/-- **A handler leaves one chain at most.** -/
theorem safe_handler_chain {q : Handler} (hs : s.chains ≤ 1)
    (h : (Job.handler q).take s = some s') :
    (chaining cfg).contract.Safe .io (fun _ s => s.chains ≤ 1) (q.body cfg) s' := by
  have htake := chains_take h
  -- the handlers of a chain find none besides their own
  have hlink : q.isLink = true → s'.chains ≤ 0 := by
    intro hq
    rw [hq, if_pos rfl] at htake
    omega
  have hother : ∀ {S : Op → Bool}, (q.body cfg).Uses (fun op => S op = true) →
      (∀ op, S op = true → op.starts = false) →
      (chaining cfg).contract.Safe .io (fun _ s => s.chains ≤ 1) (q.body cfg) s' := by
    intro S hq hS
    apply triple_noStart (hq.mono hS) s' trivial
    omega
  cases q with
  | handleConnect e => exact triple_handleConnect_chain e s' trivial (hlink rfl)
  | handleReadHeader raw e => exact triple_handleReadHeader_chain raw e s' trivial (hlink rfl)
  | handleReadBody raw e => exact triple_handleReadBody_chain raw e s' trivial (hlink rfl)
  | handleWrite r e =>
      apply hother (ofWrite_handleWrite e)
      intro op hop
      cases op <;> first | rfl | cases hop
  | closeConnection =>
      apply triple_closeConnection_chain s' trivial
      omega
  | doEnquireLink e =>
      apply hother (ofEnquireLink_doEnquireLink e)
      intro op hop
      cases op <;> first | rfl | cases hop
  | doEnquireLinkFailure e =>
      apply hother (ofEnquireLinkFailure_doEnquireLinkFailure e)
      intro op hop
      cases op <;> first | rfl | cases hop
  | w4rQAgeCleanup e =>
      apply hother (ofAgeCleanup_w4rQAgeCleanup e)
      intro op hop
      cases op <;> first | rfl | cases hop

variable {p : Persisted} {now : Nat} {c : Machine}

/-- **The focus on the chains is sound**: every handler of the io thread leaves one chain at most.
-/
theorem chaining_sound (cfg : Params) (p : Persisted) (now : Nat) :
    (chaining cfg).contract.Sound (Machine.init p now) := by
  exact sound_of_handlers steps_chaining rfl trivial (Nat.le_refl 1) stable_chains
    fun q s s' _ _ hs _ hx => safe_handler_chain hs hx

/-- There is never more than one chain. -/
theorem Runs.chains_le (h : Runs cfg reconnectsAlone p now c) : c.shared.chains ≤ 1 := by
  apply Runs.dataKnown (K := fun s => s.chains ≤ 1) (chaining_sound cfg p now) rfl h (Nat.le_refl 1)
  · intro t op s r _ hs hg hf hx
    rw [chains_perform hx]
    split
    · next hstart =>
        -- only the io thread starts operations, and only when there is no chain
        have ht : t = .io := by
          apply Op.io_of_mayRun (known_mayRun hg)
          cases op <;> first | rfl | cases hstart
        have hnone := hf ht hstart
        omega
    · exact hs
  · intro e s s' _ hs hx
    rw [chains_env hx]
    exact hs
  · intro j s s' _ _ hs _ hx
    cases j with
    | handler q => exact Nat.le_trans (by rw [chains_take hx]; omega) hs
    | send => cases hx; exact hs
    | receive => cases hx; exact hs
    | stop => cases hx; exact hs

/-- **One connection chain**: in every run in which `close_connection` reconnects only when no chain is
left, an outstanding `async_connect` is the only operation of connecting or reading there is, and no
handler of another one waits. -/
theorem one_chain (h : Runs cfg reconnectsAlone p now c) : c.shared.OneChain := by
  intro hc
  have hpos : 0 < c.shared.pending.countP Io.isLink := List.countP_pos_iff.mpr ⟨_, hc, rfl⟩
  have hle := h.chains_le
  unfold chains at hle ⊢
  omega

/-- The peer closes the connection, and the session connects again. -/
def reconnectAfterEof : List Step :=
  Schedule.bind ++ Schedule.complete .readHeader .none .eof ++
    Schedule.handle .closeConnection ++ .env (.elapse 1000000) :: Schedule.turn .io 2

/-- After an end of the connection there is one chain. -/
theorem one_chain_after_eof :
    (Machine.after sampleParams .none reconnectAfterEof).shared.OneChain :=
  one_chain (runs_under (g := reconnectsAlone) (by decide +kernel))

/-- The peer unbinds: the read that `handle_read_body` has started is aborted by the close, and
`close_connection` connects while the handler of that read still waits. -/
def peerUnbinds : List Step :=
  Schedule.bind ++ .env (.elapse 1000000) :: Schedule.receive peerUnbind ++
    Schedule.handle .closeConnection ++ .env (.elapse 1000000) :: Schedule.turn .io 2

/-- Without the condition there are two chains. -/
theorem two_chains : ¬∀ (cfg : Params) (p : Persisted) (now : Nat) (c : Machine),
    Runs cfg Guard.free p now c → c.shared.OneChain := by
  intro h
  have hone := h sampleParams .none 0 (Machine.after sampleParams .none peerUnbinds)
    (runs_after _ _ _)
  exact absurd hone (by decide +kernel)

end KissSmpp
