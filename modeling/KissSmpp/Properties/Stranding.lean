import KissSmpp.Interleave.OneThread
import KissSmpp.Session.Calls
import KissSmpp.Session.Pacing

/-! # PDUs that wait with nobody to write them

`do_write` writes only if it finds the queue empty, and `handle_write` goes on only if fewer than ten PDUs
await a response; nothing else starts a write. So a PDU can wait in the queue of a bound session with
nobody to write it. This happens in four places only: when the session becomes bound, when `do_write` puts
a PDU behind others, when `handle_write` finds ten PDUs that await a response, and when `w4rQ` loses the
tenth. -/

namespace KissSmpp

open Interleave Queue

variable {cfg : Params} {t : Tid} {s s' : Session}

/-! ## The session in service -/

/-- The handlers that end the session: `close_connection`, and the `handle_write` of a write that
failed. -/
def Handler.breaks : Handler → Bool
  | .closeConnection => true
  | .handleWrite _ e => e != .success
  | _ => false

namespace Session

/-- The io thread has taken up such a handler, and no other since. -/
def Breaking (s : Session) : Prop := ∃ q ∈ s.running, q.breaks = true

/-- Whether a handler that ends the session runs can be read off what runs. -/
instance : Decidable s.Breaking := inferInstanceAs (Decidable (∃ q ∈ s.running, _))

/-- Whether the session is being ended depends on the handler that runs only. -/
theorem breaking_congr (h : s'.running = s.running) : s'.Breaking ↔ s.Breaking := by
  unfold Breaking
  rw [h]

/-- **The session is in service**: it is bound, and nothing is about to end that. -/
structure Serving (s : Session) : Prop where
  bound : s.currentState.isBound = true
  notClosing : .closeConnection ∉ s.ready
  notStopped : .stopCalled ∉ s.hist
  notBreaking : ¬s.Breaking

/-- Whether the session is in service is decidable. -/
instance : Decidable s.Serving :=
  decidable_of_iff (s.currentState.isBound = true ∧ .closeConnection ∉ s.ready ∧
    .stopCalled ∉ s.hist ∧ ¬s.Breaking)
    ⟨fun h => ⟨h.1, h.2.1, h.2.2.1, h.2.2.2⟩,
      fun h => ⟨h.bound, h.notClosing, h.notStopped, h.notBreaking⟩⟩

/-- **Nothing waits that could be written**: no session or response PDU, and no message while fewer than
ten PDUs await a response. -/
structure Drained (s : Session) : Prop where
  session : s.txQ.level .SESSION = []
  response : s.txQ.level .RESPONSE = []
  message : s.w4rQ.size < 10 → s.txQ.level .MESSAGE = []

/-- Whether something waits that could be written can be read off the two queues. -/
instance : Decidable s.Drained :=
  decidable_of_iff (s.txQ.level .SESSION = [] ∧ s.txQ.level .RESPONSE = [] ∧
    (s.w4rQ.size < 10 → s.txQ.level .MESSAGE = []))
    ⟨fun h => ⟨h.1, h.2.1, h.2.2⟩, fun h => ⟨h.session, h.response, h.message⟩⟩

/-- **Nobody is writing**, nor about to: no PDU is in flight, and no thread is in `do_write` before its
pop from the queue it found empty. -/
structure Unattended (s : Session) : Prop where
  serving : s.Serving
  inFlight : s.inFlight = []
  found : ∀ u ∈ Tid.all, u ≠ .io → s.phase u ≠ .found true

/-- Whether anybody is writing is decidable, since there are four threads. -/
instance : Decidable s.Unattended :=
  decidable_of_iff (s.Serving ∧ s.inFlight = [] ∧ ∀ u ∈ Tid.all, u ≠ .io → s.phase u ≠ .found true)
    ⟨fun h => ⟨h.1, h.2.1, h.2.2⟩, fun h => ⟨h.serving, h.inFlight, h.found⟩⟩

end Session

/-- **Nothing is left behind with nobody writing**: when the session becomes bound nothing waits that
could be written; what `do_write` puts behind others is a message, and ten PDUs await a response;
`handle_write` leaves only messages to those ten; and when one of them is removed no message waits. -/
def nothingLeft : Guard Op Tid Session Job where
  op t op s :=
    match op with
    | .setState st => ({ s with currentState := st } : Session).Unattended → s.Drained
    | .txPush _ l => s.phase t = .found false → s.Unattended → l = .MESSAGE ∧ 10 ≤ s.w4rQ.size
    | .w4rSize => s.phase t = .locked → 10 ≤ s.w4rQ.size → s.Unattended →
        s.txQ.level .SESSION = [] ∧ s.txQ.level .RESPONSE = []
    | .w4rAnswer _ seq => s.Unattended → (s.w4rQ.erase seq).size < 10 → s.txQ.level .MESSAGE = []
    | .w4rEraseFound r => s.Unattended →
        (s.w4rQ.erase (s.pdu r).sequenceNumber).size < 10 → s.txQ.level .MESSAGE = []
    | _ => True
  job _ _ := True

/-- The guard can be evaluated, operation by operation. -/
instance : nothingLeft.Checkable where
  op t op s := by
    apply Op.casesOn (motive := fun op => Decidable (nothingLeft.op t op s)) op <;> intros <;>
      unfold nothingLeft <;> exact inferInstance
  job _ _ := inferInstanceAs (Decidable True)

/-! ## The handlers that end the session -/

/-- **The handlers that end the session** do so before they are through. -/
def ending (cfg : Params) : Focus (system cfg) where
  thread := .io
  guard := known cfg nothingLeft
  inv s := s.stopFlag = true → .stopCalled ∈ s.hist
  fact op s := op = .txPushBackLastPop → s.Breaking
  rely s s' := s'.currentState = s.currentState ∧ s'.running = s.running ∧
    (.stopCalled ∈ s.hist → .stopCalled ∈ s'.hist)
  idle s := s.Breaking → s.currentState.isBound = false ∨ .stopCalled ∈ s.hist
  rely_refl _ := ⟨rfl, rfl, id⟩
  rely_trans _ _ _ h h' := ⟨h'.1.trans h.1, h'.2.1.trans h.2.1, h'.2.2 ∘ h.2.2⟩

/-- What the other threads do is a step of the focus on the io thread. -/
theorem steps_ending : (ending cfg).Steps where
  op t op s r hi hg hx := by
    obtain ⟨-, hx⟩ := perform_of_exec hx
    refine ⟨fun hflag => mem_hist_perform hx ?_, fun ht =>
      ⟨currentState_other hx (known_mayRun hg) ht, perform_running hx, mem_hist_perform hx⟩⟩
    · by_cases hop : op = .setStopFlag true
      · -- the flag is set in a call of `stop()`
        subst hop
        obtain ⟨j, hj, -, -, hcalled⟩ := known_inJob hg
        have ht : t = .stopper := Op.stopper_of_mayRun (known_mayRun hg) rfl
        cases j with
        | stop => exact hcalled rfl
        | handler q => exact absurd (hj.trans ht) nofun
        | send => exact absurd (hj.trans ht) nofun
        | receive => exact absurd (hj.trans ht) nofun
      · -- any other operation leaves the flag as it is, or clears it
        apply hi
        by_cases hw : Field.stopFlag ∈ op.writes
        · cases op with
          | setStopFlag b =>
              cases hx
              have hflag : b = true := hflag
              rw [hflag] at hop
              exact absurd rfl hop
          | _ => simp at hw
        · have hsame : r.2.stopFlag = s.stopFlag := perform_same (f := .stopFlag) hx hw
          rwa [hsame] at hflag
  env e s s' hi hx := by
    have hflag : s'.stopFlag = s.stopFlag := env_same (f := .stopFlag) hx (by simp)
    exact ⟨fun h => mem_hist_env hx (hi (hflag ▸ h)), env_same (f := .currentState) hx (by simp),
      env_same (f := .running) hx (by simp), mem_hist_env hx⟩
  take j s s' hi _ hx := by
    have hflag : s'.stopFlag = s.stopFlag := take_same (f := .stopFlag) hx (by simp)
    exact ⟨fun h => mem_hist_take hx (hi (hflag ▸ h)), fun ht =>
      ⟨take_same (f := .currentState) hx (by simp), take_running hx ht, mem_hist_take hx⟩⟩

/-- The session has been closed, or `stop()` is to see to it. -/
def Session.Ended (s : Session) : Prop := s.currentState = .CLOSED ∨ .stopCalled ∈ s.hist

/-- The state stays as it is where it is not set. -/
theorem triple_closed {p : Code Unit}
    (hp : p.Uses fun op => (∀ st, op ≠ .setState st) ∧ op ≠ .txPushBackLastPop) :
    (ending cfg).contract.Triple .io (fun s => s.currentState = .CLOSED) p
      fun _ s => s.currentState = .CLOSED := by
  have hstable : (ending cfg).contract.Stable .io fun s => s.currentState = .CLOSED :=
    Focus.stable fun s s' _ _ hr hs => hr.1.trans hs
  refine Focus.Steps.triple_uses steps_ending hp hstable fun op s r hop _ hs _ hx => ?_
  refine ⟨fun heq => absurd heq hop.2, ?_⟩
  exact (perform_currentState (perform_of_exec hx).2 hop.1).trans hs

/-- Setting the state to `CLOSED`. -/
theorem triple_setClosed : (ending cfg).contract.Triple .io (fun _ => True) (setCurrentState .CLOSED)
    fun _ s => s.currentState = .CLOSED := by
  refine Focus.Steps.triple_op steps_ending (Focus.stable fun _ _ _ _ _ _ => trivial)
    (fun _ => Focus.stable fun s s' _ _ hr hs => hr.1.trans hs) fun s r _ _ _ hx => ?_
  refine ⟨nofun, ?_⟩
  cases (perform_of_exec hx).2
  rfl

/-- `close_connection` leaves the session `CLOSED`. -/
theorem triple_closeConnection_ending : (ending cfg).contract.Triple .io (fun _ => True)
    closeConnection fun _ s => s.currentState = .CLOSED := by
  refine triple_setClosed.bind fun _ => triple_closed ?_
  refine uses_then (by simp) fun _ => uses_then (by simp) fun _ => uses_then (by simp) fun _ =>
    uses_then (by simp) fun _ => uses_then (by simp) fun _ => uses_then (by simp) fun _ =>
      uses_then (by simp) fun _ => Prog.Uses.when ?_
  refine uses_then (by simp) fun _ => Prog.Uses.when ?_
  exact uses_then (by simp) fun _ => uses_then (by simp) fun _ => uses_then (by simp) fun _ =>
    uses_call (by simp)

/-- The `handle_write` of a write that failed closes the session, unless `stop()` does. -/
theorem triple_handleWrite_ending {e : ErrorCode} (he : e ≠ .success) :
    (ending cfg).contract.Triple .io Session.Breaking (handleWrite cfg e)
      fun _ => Session.Ended := by
  -- the PDU goes back into the queue; the handler still ends the session
  have hput : (ending cfg).contract.Triple .io Session.Breaking (call .txPushBackLastPop)
      fun _ _ => True := by
    refine Focus.Steps.triple_op steps_ending (Focus.stable fun s s' _ _ hr hs => ?_)
      (fun _ => Focus.stable fun _ _ _ _ _ _ => trivial) fun s r _ hs _ _ => ⟨fun _ => hs, trivial⟩
    exact (Session.breaking_congr hr.2.1).mpr hs
  have hflag : (ending cfg).contract.Triple .io (fun _ => True) (call .getStopFlag)
      fun b s => b = true → .stopCalled ∈ s.hist := by
    refine Focus.Steps.triple_op steps_ending (Focus.stable fun _ _ _ _ _ _ => trivial)
      (fun _ => Focus.stable fun s s' _ _ hr hs hb => hr.2.2 (hs hb)) fun s r hi _ _ hx => ?_
    refine ⟨nofun, fun hb => ?_⟩
    cases (perform_of_exec hx).2
    exact hi hb
  unfold handleWrite
  rw [if_neg he]
  refine hput.bind fun _ => hflag.bind fun stopFlag => ?_
  cases stopFlag with
  -- stopped: the handler does nothing more, and `stop()` has been called
  | true =>
      have hskip : (ending cfg).contract.Triple .io Session.Ended (.ret ()) fun _ => Session.Ended :=
        Contract.Triple.skip (Focus.stable fun s s' _ _ hr hs => hs.imp hr.1.trans hr.2.2)
      exact hskip.pre fun s _ hs => .inr (hs rfl)
  | false =>
      have hrest : (ending cfg).contract.Triple .io (fun _ => True) (do
          setCurrentState .CLOSED
          call (.setReconnectFlag true)
          call .postClose) fun _ s => s.currentState = .CLOSED :=
        triple_setClosed.bind fun _ => triple_closed <|
          uses_then (by simp) fun _ => uses_call (by simp)
      exact (hrest.post fun _ _ _ hs => .inl hs).pre fun _ _ _ => trivial

/-- The other handlers put nothing back. -/
theorem triple_notBreaking {p : Code Unit} (hp : p.Uses fun op => op ≠ .txPushBackLastPop) :
    (ending cfg).contract.Triple .io (fun s => ¬s.Breaking) p fun _ s => ¬s.Breaking := by
  refine Focus.Steps.triple_uses steps_ending hp (Focus.stable fun s s' _ _ hr hs => ?_)
    fun op s r hop _ hs _ hx => ⟨fun heq => absurd heq hop, ?_⟩
  · exact fun hb => hs ((Session.breaking_congr hr.2.1).mp hb)
  · exact fun hb => hs ((Session.breaking_congr (perform_running (perform_of_exec hx).2)).mp hb)

/-- The code of the other handlers. -/
theorem uses_of_not_breaks {q : Handler} (hq : q.breaks = false) :
    (q.body cfg).Uses fun op => op ≠ .txPushBackLastPop := by
  cases q with
  -- a write that succeeded puts nothing back
  | handleWrite r e =>
      have he : e = .success := by simpa [Handler.breaks] using hq
      subst he
      refine uses_then (by simp) fun _ => uses_then (by simp) fun o => ?_
      refine Prog.Uses.bind ?_ fun _ => uses_call (by simp)
      cases o with
      | none => exact uses_call (by simp)
      | some r =>
          have hput : (w4rQPut r).Uses fun op => op ≠ .txPushBackLastPop :=
            uses_then (by simp) fun _ => Prog.Uses.when <| uses_then (by simp) fun _ =>
              uses_then (by simp) fun _ => uses_call (by simp)
          have hask : canSend.Uses fun op => op ≠ .txPushBackLastPop := by
            refine uses_then (by simp) fun size => ?_
            split
            · exact uses_then (by simp) fun _ => trivial
            · trivial
          refine hput.bind fun _ => uses_then (by simp) fun _ => hask.bind fun _ => Prog.Uses.when ?_
          refine uses_then (by simp) fun _ => Prog.Uses.when ?_
          refine ofWritePdu_writePdu.mono fun op hop => ?_
          rintro rfl
          cases hop
  | closeConnection => cases hq
  | _ =>
      refine (Handler.uses_body _).mono fun op hop => ?_
      rintro rfl
      cases hop

variable {p : Persisted} {now : Nat} {c : Machine}

/-- **The focus on the end of the session is sound**: a handler that ends the session has ended it
when it is through. -/
theorem ending_sound (cfg : Params) (p : Persisted) (now : Nat) :
    (ending cfg).contract.Sound (Machine.init p now) := by
  refine sound_of_handlers steps_ending rfl nofun (fun ⟨q, hq, _⟩ => by cases hq) ?_ ?_
  · refine Focus.stable fun s s' _ _ hr hs hb => ?_
    exact (hs ((Session.breaking_congr hr.2.1).mp hb)).imp (fun h => by rw [hr.1, h]) hr.2.2
  · intro q s s' _ hi' _ _ hx
    have hrun : s'.running = some q := by
      obtain ⟨-, rfl⟩ := Job.take_handler hx
      rfl
    -- the handlers that end the session, and those that leave it alone
    cases hq : q.breaks with
    | true =>
        have hb : s'.Breaking := ⟨q, hrun, hq⟩
        have hclosed : (ending cfg).contract.Triple .io Session.Breaking (q.body cfg)
            fun _ => Session.Ended := by
          cases q with
          | closeConnection =>
              exact triple_closeConnection_ending.conseq (fun _ _ _ => trivial) fun _ _ _ h => .inl h
          | handleWrite r e => exact triple_handleWrite_ending (by simpa [Handler.breaks] using hq)
          | _ => cases hq
        refine (hclosed.post fun _ s _ hs _ => ?_) s' hi' hb
        exact hs.imp_left fun h => by rw [h]; rfl
    | false =>
        have hb : ¬s'.Breaking := by
          rintro ⟨q', hq', hb⟩
          cases hrun.symm.trans hq'
          rw [hq] at hb
          cases hb
        exact ((triple_notBreaking (uses_of_not_breaks hq)).post fun _ _ _ hs h => absurd h hs) s' hi' hb

/-! ## Nothing is stranded -/

variable {x : Tid → Place}

/-- **Nothing waits that could be written**, once nobody attends to it. -/
def Session.Unstranded (s : Session) (x : Tid → Place) : Prop :=
  (∀ u, (x u).attends = false) → s.Serving → s.inFlight = [] → s.Drained

/-- A session in service was so before, as long as its state is the same and the same handler runs. -/
theorem Session.Serving.before (hstate : s'.currentState = s.currentState)
    (hrun : s'.running = s.running) (hready : ∀ q, q ∈ s.ready → q ∈ s'.ready)
    (hhist : ∀ ev, ev ∈ s.hist → ev ∈ s'.hist) (h : s'.Serving) : s.Serving where
  bound := hstate ▸ h.bound
  notClosing hq := h.notClosing (hready _ hq)
  notStopped hev := h.notStopped (hhist _ hev)
  notBreaking hb := h.notBreaking ((Session.breaking_congr hrun).mpr hb)

/-- An operation that sets no state puts no session into service. -/
theorem serving_perform {op : Op} {r : op.Res × Session} (h : perform cfg t op s = some r)
    (hop : ∀ st, op ≠ .setState st) (hs : r.2.Serving) : s.Serving :=
  hs.before (perform_currentState h hop) (perform_running h) (fun _ => ready_perform h)
    fun _ => mem_hist_perform h

/-- Whether something waits depends on the two queues only. -/
theorem drained_same (hq : s'.txQ = s.txQ) (hw : s'.w4rQ = s.w4rQ) (hs : s.Drained) : s'.Drained := by
  constructor
  · rw [hq]
    exact hs.session
  · rw [hq]
    exact hs.response
  · rw [hq, hw]
    exact hs.message

/-- An empty queue holds nothing that could be written. -/
theorem drained_of_empty (he : s.txQ.empty = true) : s.Drained :=
  ⟨PrioQ.empty_iff.mp he _, PrioQ.empty_iff.mp he _, fun _ => PrioQ.empty_iff.mp he _⟩

/-- Clearing a level leaves nothing to be written there. -/
theorem drained_clear (l : Level) (hs : s.Drained) : ({ s with txQ := s.txQ.clear l } : Session).Drained := by
  have hlevel : ∀ j, s.txQ.level j = [] → (s.txQ.clear l).level j = [] := by
    intro j hj
    by_cases hjl : j = l
    · subst hjl
      exact Function.update_self ..
    · exact (Function.update_of_ne hjl _ _).trans hj
  exact ⟨hlevel _ hs.session, hlevel _ hs.response, fun h => hlevel _ (hs.message h)⟩

/-- **Where waiting PDUs and the session stay as they are**, nothing is stranded that was not. -/
theorem Session.Unstranded.step {y : Place} (hU : s.Unstranded x)
    (hatt : y.attends = false → (x t).attends = false) (hserve : s'.Serving → s.Serving)
    (hflight : s'.inFlight = [] → s.inFlight = []) (hdrained : s.Drained → s'.Drained) :
    s'.Unstranded (Function.update x t y) := by
  intro hx hs hfl
  refine hdrained (hU (fun u => ?_) (hserve hs) (hflight hfl))
  by_cases hut : u = t
  · subst hut
    have hself := hx u
    rw [Function.update_self] at hself
    exact hatt hself
  · have hother := hx u
    rwa [Function.update_of_ne hut] at hother

/-- A thread that attends to what waits leaves nothing stranded. -/
theorem unstranded_of_attends {y : Place} (hy : y.attends = true) :
    s.Unstranded (Function.update x t y) := by
  intro hx
  have hself := hx t
  rw [Function.update_self, hy] at hself
  cases hself

/-- An operation that moves no PDU, sets no state and drains nothing strands nothing. -/
theorem unstranded_still {op : Op} {r : op.Res × Session} (h : perform cfg t op s = some r)
    (hU : s.Unstranded x) (hstill : op.still = true) (hset : ∀ st, op ≠ .setState st)
    (hdrained : s.Drained → r.2.Drained) {y : Place}
    (hatt : y.attends = false → (x t).attends = false) : r.2.Unstranded (Function.update x t y) :=
  hU.step hatt (serving_perform h hset)
    (fun hfl => List.Perm.eq_nil (hfl ▸ (inFlight_still h hstill).symm)) hdrained

/-- An operation that touches neither queue and sets no state strands nothing. -/
theorem unstranded_quiet {op : Op} {r : op.Res × Session} (h : perform cfg t op s = some r)
    (hU : s.Unstranded x) (hstill : op.still = true) (hset : ∀ st, op ≠ .setState st)
    (hq : Field.txQ ∉ op.writes) (hw : Field.w4rQ ∉ op.writes) {y : Place}
    (hatt : y.attends = false → (x t).attends = false) : r.2.Unstranded (Function.update x t y) :=
  unstranded_still h hU hstill hset
    (drained_same (perform_same (f := .txQ) h hq) (perform_same (f := .w4rQ) h hw)) hatt

/-- **The operations the protocol takes no notice of** strand nothing. -/
theorem unstranded_unpaced {op : Op} {r : op.Res × Session} (h : perform cfg t op s = some r)
    (hU : s.Unstranded x) (hop : op.unpaced = true) :
    r.2.Unstranded (Function.update x t (pacing.next (x t) op r.1)) := by
  rw [(pacing_unpaced op (x t) hop).2]
  refine unstranded_still h hU ?_ ?_ ?_ id
  · cases op <;> first | rfl | cases hop
  · rintro st rfl
    cases hop
  · by_cases hclear : ∃ l, op = .txClear l
    · obtain ⟨l, rfl⟩ := hclear
      cases h
      exact drained_clear l
    · refine drained_same (perform_same (f := .txQ) h fun hw => ?_)
        (perform_same (f := .w4rQ) h fun hw => ?_)
      · cases op <;> first | exact hclear ⟨_, rfl⟩ | simp at hw; done | simp at hop
      · cases op <;> first | simp at hw; done | simp at hop

/-- The other threads attend to nothing. -/
theorem attends_other {y : Place} (hx : ∀ u, (Function.update x t y u).attends = false)
    (ht : t ≠ .io → (x t).attends = false) : ∀ u, u ≠ .io → (x u).attends = false := by
  intro u hu
  by_cases hut : u = t
  · subst hut
    exact ht hu
  · have hother := hx u
    rwa [Function.update_of_ne hut] at hother

/-- **What the guard has to say something of**: an operation after which PDUs could wait in a session in
service with nobody to write them. -/
theorem unattended_of {op : Op} {r : op.Res × Session} {y : Place} (hP : s.Placed x)
    (h : perform cfg t op s = some r) (hstill : op.still = true) (hset : ∀ st, op ≠ .setState st)
    (ht : t ≠ .io → (x t).attends = false) (hx : ∀ u, (Function.update x t y u).attends = false)
    (hs : r.2.Serving) (hfl : r.2.inFlight = []) : s.Unattended :=
  ⟨serving_perform h hset hs, List.Perm.eq_nil (hfl ▸ (inFlight_still h hstill).symm),
    hP.found (attends_other hx ht)⟩

/-- **A push** behind others. -/
theorem unstranded_txPush {q : Ref} {l : Level} {e : Bool} {r : Unit × Session} (hU : s.Unstranded x)
    (hP : s.Placed x) (hg : nothingLeft.op t (.txPush q l) s) (he : x t = .asked e)
    (h : perform cfg t (.txPush q l) s = some r) : r.2.Unstranded (Function.update x t (.asked e)) := by
  cases e with
  | true => exact unstranded_of_attends rfl
  | false =>
      intro hx hs hfl
      have hself : Function.update x t (.asked false) = x := by
        rw [← he]
        exact Function.update_eq_self ..
      have hun := unattended_of hP h rfl nofun (fun _ => by rw [he]; rfl) hx hs hfl
      have hph : s.phase t = .found false := by
        have hagree := hP.agrees t
        rwa [he] at hagree
      rw [hself] at hx
      have hdrained := hU hx hun.serving hun.inFlight
      obtain ⟨rfl, hsize⟩ := hg hph hun
      cases h
      exact ⟨hdrained.session, hdrained.response, fun hlt => absurd hlt (Nat.not_lt.mpr hsize)⟩

/-- **A pop** takes a PDU into flight, unless the queue is empty. -/
theorem unstranded_txPop {r : Option Ref × Session} {y : Tid → Place} (hk : Known t .txPop s)
    (h : perform cfg t .txPop s = some r) : r.2.Unstranded y := by
  intro _ _ hfl
  have hperm := inFlight_txPop h hk.2.1
  have hq : r.2.txQ = s.txQ.pop.2 := by
    cases h
    rfl
  rcases hpop : s.txQ.pop with ⟨o, rest⟩
  rw [hpop] at hq hperm
  cases o with
  | none =>
      obtain ⟨hempty, rfl⟩ := PrioQ.pop_none hpop
      apply drained_of_empty
      rw [hq]
      exact hempty
  | some q =>
      rw [hfl] at hperm
      exact absurd hperm.symm.eq_nil nofun

/-- **The state is set.** -/
theorem unstranded_setState {st : State} {r : Unit × Session} (hP : s.Placed x)
    (hg : nothingLeft.op t (.setState st) s) (hx : x t = .away)
    (h : perform cfg t (.setState st) s = some r) : r.2.Unstranded (Function.update x t .away) := by
  intro hatt hs hfl
  cases h
  have hother := hP.found (attends_other hatt fun _ => by rw [hx]; rfl)
  exact drained_same (s := s) rfl rfl (hg ⟨hs, hfl, hother⟩)

/-- **An entry of `w4rQ` is removed.** -/
theorem unstranded_erase {op : Op} {r : op.Res × Session} {k : Nat} (hU : s.Unstranded x)
    (hP : s.Placed x) (hstill : op.still = true) (hset : ∀ st, op ≠ .setState st)
    (hg : s.Unattended → (s.w4rQ.erase k).size < 10 → s.txQ.level .MESSAGE = []) (hx : x t = .away)
    (hq : Field.txQ ∉ op.writes) (hw : r.2.w4rQ = s.w4rQ.erase k)
    (h : perform cfg t op s = some r) : r.2.Unstranded (Function.update x t .away) := by
  intro hatt hs hfl
  have hun := unattended_of hP h hstill hset (fun _ => by rw [hx]; rfl) hatt hs hfl
  have hself : Function.update x t .away = x := by
    rw [← hx]
    exact Function.update_eq_self ..
  rw [hself] at hatt
  have hdrained := hU hatt hun.serving hun.inFlight
  have hsame : r.2.txQ = s.txQ := perform_same (f := .txQ) h hq
  constructor
  · rw [hsame]
    exact hdrained.session
  · rw [hsame]
    exact hdrained.response
  · rw [hsame, hw]
    exact hg hun

/-- **`handle_write` looks how many PDUs await a response**: with fewer than ten it goes on. -/
theorem unstranded_w4rSize {r : Nat × Session} (hU : s.Unstranded x) (hP : s.Placed x)
    (hg : nothingLeft.op t .w4rSize s) (hm : Op.w4rSize.mayRun t = true)
    (h : perform cfg t .w4rSize s = some r) :
    r.2.Unstranded (Function.update x t (pacing.next (x t) .w4rSize r.1)) := by
  have hio : t = .io := Op.io_of_mayRun hm rfl
  show r.2.Unstranded (Function.update x t (ite (x t = .dealing) (ite (r.1 < 10) _ _) _))
  split
  · next hdeal =>
      split
      · exact unstranded_of_attends rfl
      · next hsize =>
          intro hx hs hfl
          have hun := unattended_of hP h rfl nofun (fun hne => absurd hio hne) hx hs hfl
          have hph : s.phase t = .locked := by
            have hagree := hP.agrees t
            rwa [hdeal] at hagree
          cases h
          obtain ⟨hsession, hresponse⟩ := hg hph (Nat.not_lt.mp hsize) hun
          exact ⟨hsession, hresponse, fun hlt => absurd hlt hsize⟩
  · exact unstranded_quiet h hU rfl nofun (by simp) (by simp) id

/-- Reading the state strands nothing: a thread gives up a PDU on it only if the session is not
bound. -/
theorem unstranded_getState {r : State × Session} (hU : s.Unstranded x)
    (h : perform cfg t .getState s = some r) :
    r.2.Unstranded (Function.update x t (pacing.next (x t) .getState r.1)) := by
  show r.2.Unstranded (Function.update x t (ite (x t = .room) (ite (r.1.isBound = true) _ _) _))
  split
  · split
    · exact unstranded_of_attends rfl
    · next hbound =>
        intro _ hs _
        cases h
        exact absurd hs.bound hbound
  · exact unstranded_quiet h hU rfl nofun (by simp) (by simp) id

/-- **No operation strands a PDU.** -/
theorem unstranded_perform {op : Op} {r : op.Res × Session} (hU : s.Unstranded x) (hP : s.Placed x)
    (hnone : s.fault = none) (hm : op.mayRun t = true) (hk : Known t op s) (hg : nothingLeft.op t op s)
    (hback : op = .txPushBackLastPop → s.Breaking) (ha : pacing.allows (x t) op)
    (h : perform cfg t op s = some r) :
    r.2.Unstranded (Function.update x t (pacing.next (x t) op r.1)) := by
  by_cases hop : op.unpaced = true
  · exact unstranded_unpaced h hU hop
  cases op with
  | lock m =>
      cases m with
      | writeMutex =>
          have hx : x t = .away := ha
          exact unstranded_quiet h hU rfl nofun (by simp) (by simp) fun _ => by rw [hx]; rfl
      | _ => exact absurd rfl hop
  | unlock m =>
      cases m with
      | writeMutex =>
          have hx : (x t).attends = false := by
            rcases ha with ha | ha | ha | ha
            · rw [ha]; rfl
            · rw [ha]; rfl
            · rw [ha]; rfl
            · exact absurd hnone (hP.dead t ha)
          exact unstranded_quiet h hU rfl nofun (by simp) (by simp) fun _ => hx
      | _ => exact absurd rfl hop
  | txEmpty =>
      rcases ha with hx | hx
      · exact unstranded_quiet h hU rfl nofun (by simp) (by simp) fun _ => by rw [hx]; rfl
      · -- `handle_write` goes on, unless the queue is empty
        have hnext : pacing.next (x t) .txEmpty r.1 = if r.1 = true then .done else .toPop := by
          rw [hx]
          rfl
        rw [hnext]
        split
        · next he =>
            intro _ _ _
            cases h
            exact drained_of_empty he
        · exact unstranded_of_attends rfl
  | txPush q l =>
      obtain ⟨e, he⟩ := ha
      have hnext : pacing.next (x t) (.txPush q l) r.1 = .asked e := he
      rw [hnext]
      exact unstranded_txPush hU hP hg he h
  | txPop => exact unstranded_txPop hk h
  | txLastPop => exact unstranded_of_attends rfl
  | asyncWrite q tbuf =>
      have hx : x t = .holding := ha
      have hperm := inFlight_asyncWrite h hk.2.1
      refine hU.step (fun _ => by rw [hx]; rfl) (serving_perform h nofun) (fun hfl => ?_)
        (drained_same (perform_same (f := .txQ) h (by simp)) (perform_same (f := .w4rQ) h (by simp)))
      rw [hfl] at hperm
      exact hperm.symm.eq_nil
  | w4rInsert q =>
      have hnext : pacing.next (x t) (.w4rInsert q) r.1 = .dealing := ha
      rw [hnext]
      exact unstranded_of_attends rfl
  | retire =>
      have hnext : pacing.next (x t) .retire r.1 = .dealing := ha
      rw [hnext]
      exact unstranded_of_attends rfl
  | setState st =>
      have hnext : pacing.next (x t) (.setState st) r.1 = .away := ha
      rw [hnext]
      exact unstranded_setState hP hg ha h
  | w4rAnswer cmd seq =>
      have hnext : pacing.next (x t) (.w4rAnswer cmd seq) r.1 = .away := ha
      have hw : r.2.w4rQ = s.w4rQ.erase seq := by
        cases h
        rfl
      rw [hnext]
      exact unstranded_erase hU hP rfl nofun hg ha (by simp) hw h
  | w4rEraseFound q =>
      have hnext : pacing.next (x t) (.w4rEraseFound q) r.1 = .away := ha
      rw [hnext]
      rcases perform_w4rEraseFound h with hr | hr
      · have hw : r.2.w4rQ = s.w4rQ.erase (s.pdu q).sequenceNumber := by rw [← hr]
        exact unstranded_erase hU hP rfl nofun hg ha (by simp) hw h
      · have hsame : r.2 = s := by rw [← hr]
        have hx : x t = .away := ha
        exact unstranded_still h hU rfl nofun (fun hs => hsame ▸ hs) fun _ => by rw [hx]; rfl
  | txPushBackLastPop =>
      -- the session is about to be closed
      intro _ hs _
      exact absurd (hback rfl) (serving_perform h nofun hs).notBreaking
  | w4rSize => exact unstranded_w4rSize hU hP hg hm h
  | getState => exact unstranded_getState hU h
  | fail f =>
      show r.2.Unstranded (Function.update x t (ite (x t = .dealing) _ _))
      split
      · exact unstranded_of_attends rfl
      · exact unstranded_quiet h hU rfl nofun (by simp) (by simp) id
  | _ => exact absurd rfl hop

/-! ## Runs -/

/-- The environment strands nothing. -/
theorem unstranded_env {e : Env} (h : e.perform cfg s = some s') (hU : s.Unstranded x) :
    s'.Unstranded x := by
  intro hx hs hfl
  have hq : s'.txQ = s.txQ := env_same (f := .txQ) h (by simp)
  have hw : s'.w4rQ = s.w4rQ := env_same (f := .w4rQ) h (by simp)
  have hstate : s'.currentState = s.currentState := env_same (f := .currentState) h (by simp)
  have hrun : s'.running = s.running := env_same (f := .running) h (by simp)
  have hserving : s.Serving :=
    hs.before hstate hrun (fun _ => ready_env h) fun _ => mem_hist_env h
  have hflight : s.inFlight = [] := List.Perm.eq_nil (hfl ▸ (inFlight_env h).symm)
  exact drained_same hq hw (hU hx hserving hflight)

/-- The start of a job strands nothing. -/
theorem unstranded_take {j : Job} (h : j.take s = some s') (hq : Quiet j.thread s)
    (hend : j.thread = .io → s.Breaking → s.currentState.isBound = false ∨ .stopCalled ∈ s.hist)
    (hU : s.Unstranded x) : s'.Unstranded x := by
  intro hx hs hfl
  have htx : s'.txQ = s.txQ := take_same (f := .txQ) h (by simp)
  have hw : s'.w4rQ = s.w4rQ := take_same (f := .w4rQ) h (by simp)
  have hstate : s'.currentState = s.currentState := take_same (f := .currentState) h (by simp)
  have hstop : .stopCalled ∉ s.hist := fun hmem => hs.notStopped (mem_hist_take h hmem)
  have hbound : s.currentState.isBound = true := hstate ▸ hs.bound
  have hserving : s.Serving := by
    refine ⟨hbound, fun hmem => ?_, hstop, fun hb => ?_⟩
    · by_cases hj : j = .handler .closeConnection
      · -- the handler that has been taken up ends the session
        subst hj
        obtain ⟨-, rfl⟩ := Job.take_handler h
        exact hs.notBreaking ⟨_, rfl, rfl⟩
      · exact hs.notClosing (ready_take h hj hmem)
    · by_cases hj : j.thread = .io
      · rcases hend hj hb with hunbound | hcalled
        · rw [hbound] at hunbound
          cases hunbound
        · exact hstop hcalled
      · exact hs.notBreaking ((Session.breaking_congr (take_running h hj)).mpr hb)
  have hflight : s.inFlight = [] := List.Perm.eq_nil (hfl ▸ (inFlight_start h hq).symm)
  exact drained_same htx hw (hU hx hserving hflight)

/-- **In every run the threads go through the critical section as the protocol has it**, and strand
nothing. -/
theorem Runs.unstranded (h : Runs cfg nothingLeft p now c) :
    ∃ x : Tid → Place, (c.shared.Placed x ∧ c.shared.Unstranded x) ∧
      ∀ t, (c.code t).Follows pacing (fun _ => Away) (x t) := by
  have hfacts : Reach (system cfg) ((known cfg nothingLeft).also (ending cfg).contract).Allows
      (Machine.init p now) c :=
    (ending_sound cfg p now).reach_also (fun _ _ hm => hm) h.knowing
  have hidle : ∀ t, ((Machine.init p now).code t).Follows pacing (fun _ => Away) .away := fun _ => rfl
  -- `Placed` by the protocol of `writeMutex`, `Unstranded` with it
  refine Reach.protocol (I := fun _ => Away) (K := fun s x => s.Placed x ∧ s.Unstranded x) hidle
    (fun j x hx => pacing_routine.body (fun _ => pacing_upkeep) x hx) ?_ ?_ ?_ ?_ hfacts
  · refine ⟨⟨fun _ => rfl, nofun, fun u hu => absurd rfl hu, nofun⟩, fun _ hs => ?_⟩
    exact absurd hs.bound nofun
  · -- an operation
    rintro t op s x r ⟨hP, hU⟩ ⟨hg, -, hf⟩ ha hx
    obtain ⟨hnone, hx⟩ := perform_of_exec hx
    refine ⟨placed_perform hP hx (known_mayRun hg) ha, ?_⟩
    refine unstranded_perform hU hP hnone (known_mayRun hg) (known_known hg) (known_guard hg) ?_ ha hx
    intro hop
    subst hop
    exact hf (Op.io_of_mayRun (known_mayRun hg) rfl) rfl
  · -- a move of the environment
    rintro e s s' x ⟨hP, hU⟩ hx
    have hph : s'.phase = s.phase := env_same (f := .phase) hx (by simp)
    have hsend : s'.pdu2send = s.pdu2send := env_same (f := .pdu2send) hx (by simp)
    have hfault : s'.fault = s.fault := env_same (f := .fault) hx (by simp)
    exact ⟨hP.same hph hsend hfault, unstranded_env hx hU⟩
  · -- the start of a job
    rintro j s s' x ⟨hP, hU⟩ ⟨hg, -, hend⟩ hx
    have hph : s'.phase = s.phase := take_same (f := .phase) hx (by simp)
    have hsend : s'.pdu2send = s.pdu2send := take_same (f := .pdu2send) hx (by simp)
    have hfault : s'.fault = s.fault := take_same (f := .fault) hx (by simp)
    exact ⟨hP.same hph hsend hfault, unstranded_take hx (known_quiet hg) hend hU⟩

/-- **Nothing is stranded in a bound session**: between two handlers, while no thread is in the critical
section of `writeMutex` and no write is outstanding, nothing waits that could be written. -/
theorem nothing_stranded (h : Runs cfg nothingLeft p now c) (hidle : c.Idle .io)
    (hfree : c.shared.owner .writeMutex = none) (hbound : c.shared.currentState.isBound = true)
    (hclose : .closeConnection ∉ c.shared.ready) (hstop : .stopCalled ∉ c.shared.hist)
    (hwrites : c.shared.writes = []) : c.shared.Drained := by
  obtain ⟨x, ⟨hP, hU⟩, hfol⟩ := h.unstranded
  -- the mutex is free, so nobody is in its critical section
  have haway : ∀ u, x u = .away := by
    intro u
    have hagree := hP.agrees u
    have hout : c.shared.phase u = .outside := by
      by_contra hph
      rw [h.inv.mutex u hph] at hfree
      cases hfree
    rw [hout] at hagree
    cases hu : x u with
    | away => rfl
    | done =>
        rw [hu] at hagree
        exact absurd rfl hagree
    | dead =>
        have hio : x .io = .away := by
          have hfollows := hfol .io
          rw [hidle] at hfollows
          exact hfollows
        have huio := hP.onIo u (by rw [hu]; rfl)
        rw [huio, hio] at hu
        cases hu
    | _ =>
        rw [hu] at hagree
        cases hagree
  have hquiet : Quiet .io c.shared :=
    (discipline_sound cfg p now).reach_idle (h.mono fun c m _ => Guard.free_allows c m) hidle
  -- nor does anybody hold a PDU that has been popped
  have hpopped : ∀ u, c.shared.pdu2send u = none := by
    intro u
    by_contra hsend
    have hheld := hP.holding u hsend
    rw [haway u] at hheld
    cases hheld
  have hflight : c.shared.inFlight = [] := by
    unfold Session.inFlight Session.popped
    rw [hwrites, hquiet.handling rfl, List.filterMap_eq_nil_iff.mpr fun u _ => hpopped u]
    rfl
  refine hU (fun u => by rw [haway u]; rfl) ⟨hbound, hclose, hstop, fun hb => ?_⟩ hflight
  rcases Focus.reach_idle (ending_sound cfg p now) h.knowing hidle hb with hunbound | hcalled
  · rw [hbound] at hunbound
    cases hunbound
  · exact hstop hcalled

/-- A message is sent in a bound session, and answered. -/
def answeredSend : List Step :=
  Schedule.bind ++ Schedule.sendWritten 1 ++ Schedule.receive (Schedule.response .SubmitSmResp 3)

/-- Nothing waits then. -/
theorem nothing_stranded_answeredSend :
    (Machine.after sampleParams .none answeredSend).shared.Drained :=
  nothing_stranded (runs_under (g := nothingLeft) (by decide +kernel)) (by decide +kernel)
    (by decide +kernel) (by decide +kernel) (by decide +kernel) (by decide +kernel) (by decide +kernel)

/-- A message of an earlier process waits in the queue, the bind request waits behind it, and the peer
lets the session be bound all the same. -/
def boundBehind : Machine :=
  Machine.after sampleParams
    { Persisted.none with message := [⟨.SubmitSm, ESME_ROK, 1, .empty, none⟩] }
    (Schedule.connect ++ Schedule.receive (Schedule.response .BindTransceiverResp 2))

/-- Without the condition PDUs can wait with nobody to write them. -/
theorem stranded_behind : ¬∀ (cfg : Params) (p : Persisted) (now : Nat) (c : Machine),
    Runs cfg Guard.free p now c → c.Idle .io → c.shared.owner .writeMutex = none →
      c.shared.currentState.isBound = true → .closeConnection ∉ c.shared.ready →
        .stopCalled ∉ c.shared.hist → c.shared.writes = [] → c.shared.Drained := by
  intro h
  have hdrained : boundBehind.shared.Drained :=
    h _ _ _ _ (runs_after _ _ _) (by decide +kernel) (by decide +kernel) (by decide +kernel)
      (by decide +kernel) (by decide +kernel) (by decide +kernel)
  have hbind : boundBehind.shared.txQ.level .SESSION ≠ [] := by decide +kernel
  exact hbind hdrained.session

end KissSmpp
