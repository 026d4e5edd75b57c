import KissSmpp.Interleave.OneThread
import KissSmpp.Session.Calls

/-! # Nothing is received while the session is closed

The state becomes `CLOSED` in several handlers, and the reads that have succeeded by then still wait to be
handled; others can succeed until the socket is closed. Only the bodies of PDUs matter: a header that
arrives late leads to another read, which the closed socket refuses. So nothing is received in `CLOSED`
as long as no body has arrived when the session becomes `CLOSED`, and none arrives before it is left. -/

namespace KissSmpp

open Interleave

variable {cfg : Params} {t : Tid} {s s' : Session}

/-! ## Bodies that wait -/

/-- The handler of a PDU whose body has been read. -/
def Handler.isBody : Handler → Bool
  | .handleReadBody _ .success => true
  | _ => false

/-- No PDU waits to be processed. -/
def Session.NoBody (s : Session) : Prop := ∀ q ∈ s.ready, q.isBody = false

/-- Whether a PDU waits to be processed can be read off what is ready to run. -/
instance : Decidable s.NoBody := inferInstanceAs (Decidable (∀ q ∈ s.ready, _))

/-- No PDU waits if none is added to what is ready to run. -/
theorem Session.NoBody.append {l : List Handler} (hs : s.NoBody) (hr : s'.ready = s.ready ++ l)
    (hl : ∀ q ∈ l, q.isBody = false) : s'.NoBody := by
  unfold NoBody
  rw [hr]
  exact List.forall_mem_append.mpr ⟨hs, hl⟩

/-- Starting a socket operation makes no PDU wait. -/
theorem Session.NoBody.startIo (hs : s.NoBody) (io : Io) : (s.startIo io).NoBody := by
  unfold Session.startIo
  split
  · exact hs
  · refine hs.append rfl fun q hq => ?_
    rw [List.mem_singleton.mp hq]
    cases io <;> rfl

/-- Cancelling a timer makes no PDU wait. -/
theorem Session.NoBody.cancelTimer (hs : s.NoBody) (tm : Timer) : (s.cancelTimer tm).NoBody := by
  unfold Session.cancelTimer
  split
  · refine hs.append rfl fun q hq => ?_
    rw [List.mem_singleton.mp hq]
    cases tm <;> rfl
  · exact hs

/-- What is started on a closed socket fails, and what its close ends is aborted. -/
theorem noBody_perform {op : Op} {r : op.Res × Session} (h : perform cfg t op s = some r)
    (hs : s.NoBody) : r.2.NoBody := by
  by_cases hw : Field.ready ∈ op.writes
  · cases op with
    | asyncReadHeader => cases h; exact hs.startIo _
    | asyncReadBody raw => cases h; exact hs.startIo _
    | asyncWrite p tbuf =>
        cases h
        have hsend : ({ s with pdu2send := Function.update s.pdu2send t none } : Session).NoBody := hs
        exact hsend.startIo _
    -- closing the socket completes reads with an error
    | socketClose =>
        cases h
        refine hs.append rfl fun q hq => ?_
        obtain ⟨io, -, rfl⟩ := List.mem_map.mp hq
        cases io <;> rfl
    | postClose =>
        cases h
        refine hs.append rfl fun q hq => ?_
        rw [List.mem_singleton.mp hq]
        rfl
    | cancel tm => cases h; exact hs.cancelTimer tm
    | arm tm => cases h; exact hs.cancelTimer tm
    | _ => simp at hw
  · have hsame : r.2.ready = s.ready := perform_same (f := .ready) h hw
    unfold Session.NoBody
    rwa [hsame]

/-- The body of a PDU arrives. -/
def Env.isBody : Env → Bool
  | .complete (.readBody _) _ .success => true
  | _ => false

/-- Nothing else of the environment adds one. -/
theorem noBody_env {e : Env} (h : e.perform cfg s = some s') (he : e.isBody = false) (hs : s.NoBody) :
    s'.NoBody := by
  cases e with
  | complete io raw er =>
      obtain ⟨-, rfl⟩ := Env.perform_complete h
      have hready : (({ s with pending := s.pending.erase io }.connectDone io er).enqueue
          (io.handler raw er)).ready = s.ready ++ [io.handler raw er] := by
        unfold Session.connectDone
        split <;> rfl
      refine hs.append hready fun q hq => ?_
      rw [List.mem_singleton.mp hq]
      cases io with
      | readBody raw' => cases er <;> first | rfl | cases he
      | _ => rfl
  | expire tm =>
      obtain ⟨-, rfl⟩ := Env.perform_expire h
      refine hs.append rfl fun q hq => ?_
      rw [List.mem_singleton.mp hq]
      cases tm <;> rfl
  | elapse us => cases h; exact hs
  | submit body => cases h; exact hs
  | reply a => cases h; exact hs

/-- A handler that is taken up leaves the queue. -/
theorem noBody_take {j : Job} (h : j.take s = some s') (hs : s.NoBody) : s'.NoBody := by
  cases j with
  | handler q =>
      obtain ⟨-, rfl⟩ := Job.take_handler h
      exact fun q' hq' => hs q' (List.mem_of_mem_erase hq')
  | send => cases h; exact hs
  | receive => cases h; exact hs
  | stop => cases h; exact hs

/-! ## The handler of a body -/

/-- The runs in which a body that has been read is taken up in a state other than `CLOSED`. -/
def bodiesWhileOpen : Guard Op Tid Session Job where
  op _ _ _ := True
  job j s := ∀ q, j = .handler q → q.isBody = true → s.currentState ≠ .CLOSED

/-- The operation is none by which a PDU is received in `CLOSED`. -/
def Op.NotReceiving (op : Op) (s : Session) : Prop :=
  (∀ raw, op ≠ .note (.received raw .CLOSED)) ∧ (op = .arm .enquireLink → s.currentState ≠ .CLOSED)

/-- **The contract on the io thread**: no PDU is received in `CLOSED`, and none restarts a timer there. -/
def receivingOpen (cfg : Params) : Focus (system cfg) where
  thread := .io
  guard := known cfg bodiesWhileOpen
  inv _ := True
  fact op s := op.NotReceiving s
  rely s s' := s'.currentState = s.currentState
  idle _ := True
  rely_refl _ := rfl
  rely_trans _ _ _ h h' := h'.trans h

/-- What the other threads do is a step of the focus on the io thread. -/
theorem steps_receivingOpen : (receivingOpen cfg).Steps where
  op _ _ _ _ _ hg hx :=
    ⟨trivial, currentState_other (perform_of_exec hx).2 (known_mayRun hg)⟩
  env _ _ _ _ hx := ⟨trivial, env_same (f := .currentState) hx (by simp)⟩
  take _ _ _ _ _ hx := ⟨trivial, fun _ => take_same (f := .currentState) hx (by simp)⟩

/-- Code that neither records the reception of a PDU nor restarts the timer. -/
abbrev Silent {α : Type} (p : Code α) : Prop :=
  p.Uses fun op => op ≠ .arm .enquireLink ∧ ∀ raw st, op ≠ .note (.received raw st)

/-- Silent code asks for nothing. -/
theorem triple_silent {α : Type} {p : Code α} (hp : Silent p) :
    (receivingOpen cfg).contract.Triple .io (fun _ => True) p fun _ _ => True :=
  Focus.Steps.triple_uses steps_receivingOpen hp Contract.Stable.const fun _ _ _ hop _ _ _ _ =>
    ⟨⟨fun raw => hop.2 raw .CLOSED, fun harm => absurd harm hop.1⟩, trivial⟩

/-- The session is not closed. -/
def Session.Open (s : Session) : Prop := s.currentState ≠ .CLOSED

/-- That the session is open is stable under the other threads. -/
theorem stable_open : (receivingOpen cfg).contract.Stable .io Session.Open :=
  Focus.stable fun s s' _ _ (hr : s'.currentState = s.currentState) hs => by
    unfold Session.Open
    rwa [hr]

/-- Code that leaves the state alone and records no reception. -/
theorem triple_open {α : Type} {p : Code α}
    (hp : p.Uses fun op => (∀ st, op ≠ .setState st) ∧ ∀ raw st, op ≠ .note (.received raw st)) :
    (receivingOpen cfg).contract.Triple .io Session.Open p fun _ => Session.Open := by
  apply Focus.Steps.triple_uses steps_receivingOpen hp stable_open
  intro op s r hop _ hs _ hx
  refine ⟨⟨fun raw => hop.2 raw .CLOSED, fun _ => hs⟩, ?_⟩
  have hst : r.2.currentState = s.currentState :=
    perform_currentState (perform_of_exec hx).2 hop.1
  unfold Session.Open
  rwa [hst]

/-- **A PDU is processed** in the state it is received in, which is not `CLOSED`. -/
theorem triple_process4state_open (raw : RawPdu) :
    (receivingOpen cfg).contract.Triple .io Session.Open (process4state cfg raw) fun _ _ => True := by
  -- the state that is read is noted: it is not `CLOSED`
  have htimers : (receivingOpen cfg).contract.Triple .io Session.Open rescheduleEnquireLink
      fun _ => Session.Open := triple_open (uses_then ⟨by simp, by simp⟩ fun _ =>
        uses_then ⟨by simp, by simp⟩ fun _ => uses_call ⟨by simp, by simp⟩)
  have hstate : (receivingOpen cfg).contract.Triple .io Session.Open (call .getState)
      fun st _ => st ≠ .CLOSED := by
    apply Focus.Steps.triple_op steps_receivingOpen stable_open fun _ => Contract.Stable.const
    intro s r _ hs _ hx
    obtain ⟨-, hx⟩ := perform_of_exec hx
    cases hx
    exact ⟨⟨by simp, by simp⟩, hs⟩
  have hnote : ∀ st, (receivingOpen cfg).contract.Triple .io (fun _ => st ≠ .CLOSED)
      (call (.note (.received raw st))) fun _ _ => True := by
    intro st
    apply Focus.Steps.triple_op steps_receivingOpen Contract.Stable.const
      fun _ => Contract.Stable.const
    intro s r _ hst _ _
    refine ⟨⟨fun raw' heq => ?_, nofun⟩, trivial⟩
    cases heq
    exact hst rfl
  refine htimers.bind fun _ => hstate.bind fun st => (hnote st).bind fun _ => ?_
  -- the rest records no reception
  apply triple_silent ((ofDispatch_process4stateSwitch st).mono _)
  intro op hop
  constructor
  · rintro rfl
    cases hop
  · rintro raw st rfl
    cases hop

/-- The operations of the other handlers. -/
theorem silent_of_uses {α : Type} {S : Op → Bool} {p : Code α} (hp : p.Uses fun op => S op = true)
    (harm : S (.arm .enquireLink) = false) (hnote : ∀ raw st, S (.note (.received raw st)) = false) :
    Silent p := by
  apply hp.mono
  intro op hop
  constructor
  · rintro rfl
    rw [harm] at hop
    cases hop
  · rintro raw st rfl
    rw [hnote] at hop
    cases hop

/-- **A handler**, which starts outside `CLOSED` if it is that of a body. -/
theorem triple_handler_open (q : Handler) : (receivingOpen cfg).contract.Triple .io
    (fun s => q.isBody = true → s.Open) (q.body cfg) fun _ _ => True := by
  -- only `handle_read_body` notes a reception
  have hsilent : q.uses (.arm .enquireLink) = false → (∀ raw st, q.uses (.note (.received raw st)) = false) →
      (receivingOpen cfg).contract.Triple .io (fun s => q.isBody = true → s.Open) (q.body cfg)
        fun _ _ => True := fun harm hnote =>
    (triple_silent (silent_of_uses q.uses_body harm hnote)).pre fun _ _ _ => trivial
  cases q with
  | handleReadBody raw e =>
      by_cases he : e = .success
      · subst he
        have hpop : (receivingOpen cfg).contract.Triple .io Session.Open (w4rQPop raw)
            fun _ => Session.Open := triple_open <| Prog.Uses.when <|
              uses_then ⟨by simp, by simp⟩ fun _ => uses_then ⟨by simp, by simp⟩ fun _ =>
                uses_call ⟨by simp, by simp⟩
        have hbody : (receivingOpen cfg).contract.Triple .io Session.Open
            (handleReadBody cfg raw .success) fun _ _ => True :=
          hpop.bind fun _ => (triple_process4state_open raw).bind fun _ =>
            triple_silent (uses_call ⟨by simp, by simp⟩)
        exact hbody.pre fun s _ hs => hs rfl
      · have herror : (Handler.handleReadBody raw e).body cfg = handleReadError cfg e := if_neg he
        rw [herror]
        exact (triple_silent (silent_of_uses (ofFailure_handleReadError e) rfl fun _ _ => rfl)).pre
          fun _ _ _ => trivial
  | _ => exact hsilent rfl fun _ _ => rfl

variable {p : Persisted} {now : Nat} {c : Machine}

/-- **The focus on the reception is sound**: a body is processed in a session that is open. -/
theorem receivingOpen_sound (cfg : Params) (p : Persisted) (now : Nat) :
    (receivingOpen cfg).contract.Sound (Machine.init p now) := by
  refine sound_of_handlers steps_receivingOpen rfl trivial trivial Contract.Stable.const ?_
  intro q s s' _ _ _ hg hx
  refine triple_handler_open q s' trivial fun hq => ?_
  have hst : s'.currentState = s.currentState := take_same (f := .currentState) hx (by simp)
  have hopen : s.currentState ≠ .CLOSED := hg.1.1 q rfl hq
  unfold Session.Open
  rwa [hst]

/-! ## Runs -/

/-- **No body arrives at a closed session**: none waits when the session becomes `CLOSED`, and none is
read as long as it is. -/
def noLateBody (c : Machine) : Step → Prop
  | .run t => c.next? t = some (.setState .CLOSED) → c.shared.NoBody
  | .env e => e.isBody = true → c.shared.currentState ≠ .CLOSED
  | .start _ => True

/-- In `CLOSED` no body waits. -/
def Session.Closes (s : Session) : Prop := s.currentState = .CLOSED → s.NoBody

/-- In `CLOSED` no body waits after an operation, if none waits when the state becomes `CLOSED`. -/
theorem closes_perform {op : Op} {r : op.Res × Session} (h : perform cfg t op s = some r)
    (hop : op = .setState .CLOSED → s.NoBody) (hs : s.Closes) : r.2.Closes := by
  intro hclosed
  refine noBody_perform h ?_
  by_cases hset : ∃ st, op = .setState st
  · obtain ⟨st, rfl⟩ := hset
    cases h
    have hst : st = .CLOSED := hclosed
    exact hop (by rw [hst])
  · have hst : r.2.currentState = s.currentState := perform_currentState h (not_exists.mp hset)
    exact hs (hst.symm.trans hclosed)

/-- In every state reached, no body waits at a closed session. -/
theorem closes_reached (h : Reach (system cfg) noLateBody (Machine.init p now) c) : c.shared.Closes := by
  refine h.keeps (fun _ q hq => absurd hq List.not_mem_nil) ?_ ?_ ?_
  · intro c t op k r _ hm hcode hx hs
    refine closes_perform (perform_of_exec hx).2 (fun hop => hm ?_) hs
    rw [Machine.next?_of_code hcode, hop]
  · intro c e s _ hm hx hs hclosed
    have hst : s.currentState = c.shared.currentState := env_same (f := .currentState) hx (by simp)
    rw [hst] at hclosed
    exact noBody_env hx (Bool.eq_false_iff.mpr fun he => hm he hclosed) (hs hclosed)
  · intro c j s _ _ hx hs hclosed
    have hst : s.currentState = c.shared.currentState := take_same (f := .currentState) hx (by simp)
    rw [hst] at hclosed
    exact noBody_take hx (hs hclosed)

/-- In a run without late bodies a body is taken up outside `CLOSED` only. -/
theorem runs_bodiesWhileOpen (h : Reach (system cfg) noLateBody (Machine.init p now) c) :
    Runs cfg bodiesWhileOpen p now c := by
  induction h with
  | refl => exact .refl
  | @next c c' m hc _ hstep ih =>
      refine ih.next m ?_ hstep
      cases m with
      | run t =>
          simp only [Guard.Allows]
          split <;> trivial
      | env e => trivial
      | start j =>
          rintro q rfl hbody hclosed
          -- it has waited, in a state in which none waits
          obtain ⟨-, s, hx, -⟩ := Config.of_move_start hstep
          have hno := closes_reached hc hclosed q (Job.take_handler hx).1
          rw [hbody] at hno
          cases hno

/-- **Nothing is received while the session is closed**: in every run in which no body has arrived when
the session becomes `CLOSED`, and none arrives while it is, no PDU is received in `CLOSED`, and none
restarts the enquire link timer there. -/
theorem not_received_closed (h : Reach (system cfg) noLateBody (Machine.init p now) c) :
    (∀ raw, .mark (.received raw .CLOSED) ∉ c.shared.hist) ∧
      ∀ t c', c.next? t = some (.arm .enquireLink) → c.move (system cfg) (.run t) = some c' →
        c.shared.currentState ≠ .CLOSED := by
  have hrun := runs_bodiesWhileOpen h
  have hsound := receivingOpen_sound cfg p now
  constructor
  · -- every reception in the log was noted in an open state
    refine Runs.dataKnown (K := fun s => ∀ raw, .mark (.received raw .CLOSED) ∉ s.hist) hsound rfl hrun
      (fun raw hmem => ?_) ?_ ?_ ?_
    · have hinit : (Session.init p now).hist = [.connect] := rfl
      simp [hinit] at hmem
    · intro t op s r _ hK hg hf hx raw hmem
      rw [perform_hist hx, List.mem_append] at hmem
      rcases hmem with hmem | hmem
      -- only the io thread notes a reception, and it does so in an open state
      · cases op with
        | note m =>
            cases List.mem_singleton.mp hmem
            exact (hf (Op.io_of_mayRun (known_mayRun hg) rfl)).1 raw rfl
        | _ => simp at hmem
      · exact hK raw hmem
    · intro e s s' _ hK hx raw hmem
      exact hK raw (mem_hist_of_env hx hmem nofun nofun)
    · intro j s s' _ _ hK _ hx raw hmem
      exact hK raw (mem_hist_of_take hx hmem nofun nofun)
  · -- a step that re-arms the timer is one of the io thread's
    intro t c' hnext hstep
    obtain ⟨k, hcode⟩ := Machine.code_of_next? hnext
    simp only [Config.move, hcode, Option.map_eq_some_iff] at hstep
    obtain ⟨r, hr, -⟩ := hstep
    have hio : t = .io := Op.io_of_mayRun (hrun.known_next hcode hr).1 rfl
    exact (hsound.reach_fact hrun.knowing hcode (hrun.knowing_next hcode trivial hr) hr hio).2 rfl

/-- The condition can be evaluated, move by move. -/
instance (c : Machine) : (m : Step) → Decidable (noLateBody c m)
  | .run t => inferInstanceAs (Decidable (c.next? t = some (.setState .CLOSED) → c.shared.NoBody))
  | .env e => inferInstanceAs (Decidable (e.isBody = true → c.shared.currentState ≠ .CLOSED))
  | .start _ => inferInstanceAs (Decidable True)

/-- The peer of a bound session closes the connection. -/
def peerCloses : List Step :=
  Schedule.bind ++ Schedule.complete .readHeader .none .eof ++ Schedule.handle .closeConnection

/-- No `enquire_link` has been received in `CLOSED` by then. -/
theorem not_received_closed_peerCloses :
    .mark (.received (Schedule.response .EnquireLink 9) .CLOSED) ∉
      (Machine.after sampleParams .none peerCloses).shared.hist :=
  (not_received_closed (reach_play_of_meets (by decide +kernel))).1 _

/-- A PDU has been read when the write of a message fails, and is handled after that. -/
def lateBody : List Step :=
  Schedule.bind ++ Schedule.send ++
    Schedule.complete .readHeader (Schedule.response .EnquireLink 9) .success ++
    [.env (.complete (.readBody (Schedule.response .EnquireLink 9)) .none .success)] ++
    Schedule.complete (.write 1) .none .other ++
    Schedule.handle (.handleReadBody (Schedule.response .EnquireLink 9) .success)

/-- Without the condition a PDU can be received in `CLOSED`. -/
theorem received_closed : ¬∀ (cfg : Params) (p : Persisted) (now : Nat) (c : Machine),
    Runs cfg Guard.free p now c → ∀ raw, .mark (.received raw .CLOSED) ∉ c.shared.hist := by
  intro h
  have hmem : .mark (.received (Schedule.response .EnquireLink 9) .CLOSED) ∈
      (Machine.after sampleParams .none lateBody).shared.hist := by decide +kernel
  exact h _ _ _ _ (runs_after sampleParams .none lateBody) _ hmem

end KissSmpp
