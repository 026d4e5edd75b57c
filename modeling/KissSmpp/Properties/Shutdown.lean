import KissSmpp.Interleave.OneThread
import KissSmpp.Session.Calls

/-! # Stop is final

`close_connection` and `handle_connect` test `stopFlag` before they connect again. This does not help
where the flag is cleared again, which `procpdu_unbind` does when the peer unbinds, or where the test
has been passed already when `stop()` is called. Apart from these two cases (`stopHeeded`) no
connection is attempted once `stop()` has returned. -/

namespace KissSmpp

open Interleave

variable {cfg : Params} {t : Tid} {s s' : Session}

/-! ## The condition -/

/-- Whether `handle_connect` runs can be read off what runs. -/
instance (o : Option Handler) : Decidable (∃ e, o = some (.handleConnect e)) :=
  match o with
  | some (.handleConnect e) => isTrue ⟨e, rfl⟩
  | none => isFalse (by simp)
  | some (.handleReadHeader _ _) => isFalse (by simp)
  | some (.handleReadBody _ _) => isFalse (by simp)
  | some (.handleWrite _ _) => isFalse (by simp)
  | some .closeConnection => isFalse (by simp)
  | some (.doEnquireLink _) => isFalse (by simp)
  | some (.doEnquireLinkFailure _) => isFalse (by simp)
  | some (.w4rQAgeCleanup _) => isFalse (by simp)

/-- Whether the io thread is on its way to `connect()` is decidable. -/
instance (s : Session) : Decidable s.Connecting := inferInstanceAs (Decidable (_ ∧ (_ ∨ _)))

/-- **The stop is heeded**: once `stop()` has been called the flag is not cleared, and when it returns
the io thread is not on its way from the test of the flag to `connect()`. -/
def stopHeeded : Guard Op Tid Session Job where
  op _ op s :=
    (op = .setStopFlag false → .stopCalled ∉ s.hist) ∧
      (op = .note .stopReturned → ¬s.Connecting)
  job _ _ := True

/-- The guard can be evaluated. -/
instance : stopHeeded.Checkable where
  op _ op s := inferInstanceAs (Decidable
    ((op = .setStopFlag false → .stopCalled ∉ s.hist) ∧
      (op = .note .stopReturned → ¬s.Connecting)))
  job _ _ := inferInstanceAs (Decidable True)

/-- **No `connect()` after `stop()` has returned.** -/
def Session.StopIsFinal (s : Session) : Prop :=
  s.hist.Pairwise fun later earlier => later = .connect → earlier ≠ .mark .stopReturned

/-- Whether a `connect()` follows the return of `stop()` can be read off the record. -/
instance (s : Session) : Decidable s.StopIsFinal := inferInstanceAs (Decidable (List.Pairwise _ _))

/-! ## `stop` sets the flag -/

/-- The session has been told to stop, and the flag is set. -/
def Session.Stopping (s : Session) : Prop := .stopCalled ∈ s.hist ∧ s.stopFlag = true

/-- **The contract on `stop`**: when it returns, the flag is set. -/
def stopping (cfg : Params) : Focus (system cfg) where
  thread := .stopper
  guard := stopHeeded.also (discipline cfg)
  inv _ := True
  fact op s := op = .note .stopReturned → s.Stopping
  rely s s' := .stopCalled ∈ s.hist →
    .stopCalled ∈ s'.hist ∧ (s.stopFlag = true → s'.stopFlag = true)
  idle _ := True
  rely_refl _ h := ⟨h, id⟩
  rely_trans _ _ _ h h' hs := ⟨(h' (h hs).1).1, fun hf => (h' (h hs).1).2 ((h hs).2 hf)⟩

/-- An operation that meets the guard does not clear the flag of a session told to stop. -/
theorem stopFlag_perform {op : Op} {x : op.Res × Session} (hg : stopHeeded.op t op s)
    (h : perform cfg t op s = some x) (hcalled : .stopCalled ∈ s.hist) (hf : s.stopFlag = true) :
    x.2.stopFlag = true := by
  by_cases hw : Field.stopFlag ∈ op.writes
  · cases op with
    | setStopFlag b =>
        cases b with
        | true => cases h; rfl
        | false => exact absurd hcalled (hg.1 rfl)
    | _ => simp at hw
  · have hsame : x.2.stopFlag = s.stopFlag := perform_same (f := .stopFlag) h hw
    exact hsame.trans hf

/-- What the other threads do is a step of the focus on the thread that stops. -/
theorem steps_stopping : (stopping cfg).Steps where
  op t op s r _ hg hx := by
    obtain ⟨-, hx⟩ := perform_of_exec hx
    exact ⟨trivial, fun _ hcalled =>
      ⟨mem_hist_perform hx hcalled, stopFlag_perform hg.1 hx hcalled⟩⟩
  env e s s' _ hx := by
    have hsame : s'.stopFlag = s.stopFlag := env_same (f := .stopFlag) hx (by simp)
    exact ⟨trivial, fun hcalled => ⟨mem_hist_env hx hcalled, hsame.trans⟩⟩
  take j s s' _ _ hx := by
    have hsame : s'.stopFlag = s.stopFlag := take_same (f := .stopFlag) hx (by simp)
    exact ⟨trivial, fun _ hcalled => ⟨mem_hist_take hx hcalled, hsame.trans⟩⟩

/-- The call of `stop()` stays on record. -/
theorem stable_stopCalled : (stopping cfg).contract.Stable .stopper fun s => .stopCalled ∈ s.hist :=
  Focus.stable fun _ _ _ _ hr hs => (hr hs).1

/-- A flag that is set stays set, since the stop is heeded. -/
theorem stable_stopping : (stopping cfg).contract.Stable .stopper Session.Stopping :=
  Focus.stable fun _ _ _ _ hr hs => ⟨(hr hs.1).1, (hr hs.1).2 hs.2⟩

/-- `close_session` leaves the flag alone. -/
theorem triple_closeSession_stopping (reConnect : Bool) :
    (stopping cfg).contract.Triple .stopper Session.Stopping (closeSession cfg reConnect)
      fun _ => Session.Stopping := by
  have huses : (closeSession cfg reConnect).Uses
      fun op => op ≠ .note .stopReturned := by
    have hunbind : (doUnbindRequest cfg).Uses fun op => op ≠ .note .stopReturned :=
      ofRequest_doUnbindRequest.mono fun op hop hnote => by
        rw [hnote] at hop
        cases hop
    exact (uses_call (by simp)).bind fun _ => (uses_call (by simp)).bind fun _ =>
      hunbind.when.bind fun _ => uses_call (by simp)
  refine Focus.Steps.triple_uses steps_stopping huses stable_stopping
    fun op s r hop _ hs hg hx => ?_
  obtain ⟨-, hx⟩ := perform_of_exec hx
  exact ⟨fun hnote => absurd hnote hop, mem_hist_perform hx hs.1,
    stopFlag_perform hg.1 hx hs.1 hs.2⟩

/-- **`stop()`** returns with the flag set. -/
theorem triple_stop : (stopping cfg).contract.Triple .stopper (fun s => .stopCalled ∈ s.hist)
    (Job.body cfg .stop) fun _ _ => True := by
  refine Contract.Triple.bind (Q := fun _ => Session.Stopping) ?_ fun _ => ?_
  · refine Contract.Triple.bind (Q := fun _ => Session.Stopping) ?_ fun _ =>
      triple_closeSession_stopping false
    refine Focus.Steps.triple_op steps_stopping stable_stopCalled (fun _ => stable_stopping)
      fun s r _ hs _ hx => ?_
    obtain ⟨-, hx⟩ := perform_of_exec hx
    cases hx
    refine ⟨fun hnote => ?_, hs, rfl⟩
    cases hnote
  · exact Focus.Steps.triple_op steps_stopping stable_stopping (fun _ => .const) fun s r _ hs _ _ =>
      ⟨fun _ => hs, trivial⟩

variable {p : Persisted} {now : Nat} {c : Machine}

/-- **The focus on `stop` is sound**: the flag is set when it returns. -/
theorem stopping_sound (cfg : Params) (p : Persisted) (now : Nat) :
    (stopping cfg).contract.Sound (Machine.init p now) := by
  refine Focus.Steps.sound steps_stopping trivial ⟨(), rfl⟩ trivial .const ?_
  intro j s s' hj _ _ _ hx
  cases j with
  | handler h => cases hj
  | send => cases hj
  | receive => cases hj
  | stop =>
      cases hx
      exact (triple_stop.post fun _ _ _ _ => trivial) _ trivial List.mem_cons_self

/-! ## No connection after the return -/

namespace Session

/-- What a run keeps: no connection has been attempted after the return of `stop()`, and none is on
its way. -/
structure Stopped (s : Session) : Prop where
  final : s.StopIsFinal
  heeded : .mark .stopReturned ∈ s.hist → s.Stopping ∧ ¬s.Connecting

end Session

/-- With the flag set the io thread does not get on its way to `connect()`. -/
theorem connecting_perform {op : Op} {x : op.Res × Session} (h : perform cfg t op s = some x)
    (hf : s.stopFlag = true) (hc : x.2.Connecting) : s.Connecting := by
  obtain ⟨hpast, hc⟩ := hc
  rw [perform_running h] at hc
  refine ⟨?_, hc⟩
  -- who is past the test of the flag now was so before, since a test finds it set
  by_cases hw : Field.pastStopTest ∈ op.writes
  · cases op with
    | getStopFlag =>
        cases h
        have hpast : (if t = .io then !s.stopFlag else s.pastStopTest) = true := hpast
        split at hpast
        · rw [hf] at hpast
          cases hpast
        · exact hpast
    | getReconnectFlag =>
        cases h
        have hpast : (if t = .io then s.pastStopTest && s.reconnectFlag else s.pastStopTest) = true :=
          hpast
        split at hpast
        · exact (Bool.and_eq_true_iff.mp hpast).1
        · exact hpast
    | asyncConnect => cases h; cases hpast
    | _ => simp at hw
  · have hsame : x.2.pastStopTest = s.pastStopTest := perform_same (f := .pastStopTest) h hw
    exact hsame.symm.trans hpast

/-- **Every operation keeps the stop final.** -/
theorem stopped_perform {op : Op} {x : op.Res × Session} (hS : s.Stopped) (hg : stopHeeded.op t op s)
    (hk : Known t op s) (hf : op = .note .stopReturned → s.Stopping)
    (h : perform cfg t op s = some x) : x.2.Stopped := by
  have hhist := perform_hist h
  -- once `stop()` has set the flag the guard keeps it set
  have hstopping : s.Stopping → x.2.Stopping := fun hs => by
    refine ⟨?_, stopFlag_perform hg h hs.1 hs.2⟩
    rw [hhist]
    exact List.mem_append_right _ hs.1
  refine ⟨?_, fun hm => ?_⟩
  · -- no `connect` comes after the return
    unfold Session.StopIsFinal
    rw [hhist, List.pairwise_append]
    refine ⟨?_, hS.final, fun a ha b hb hconn hret => ?_⟩
    · cases op <;> simp
    · -- `connect()` is only called on the way from the test of the flag
      subst hconn hret
      have hop : op = .asyncConnect := by
        cases op <;> first | rfl | simp at ha
      subst hop
      exact (hS.heeded hb).2 hk
  · rw [hhist, List.mem_append] at hm
    rcases hm with hm | hm
    · -- `stop()` returns with this operation: the guard says that nobody is connecting
      have hop : op = .note .stopReturned := by
        cases op <;> simp at hm
        rw [hm]
      refine ⟨hstopping (hf hop), fun hc => ?_⟩
      exact hg.2 hop (connecting_perform h (hf hop).2 hc)
    · obtain ⟨hs, hc⟩ := hS.heeded hm
      exact ⟨hstopping hs, fun hc' => hc (connecting_perform h hs.2 hc')⟩

/-- A step that neither calls `connect()` nor returns from `stop()`, leaves the flag set and sends nobody on
the way to `connect()` keeps the stop final. -/
theorem Session.Stopped.aside (hS : s.Stopped) {s' : Session} {logs : List Event}
    (hhist : s'.hist = logs ++ s.hist)
    (hlogs : ∀ ev ∈ logs, ev ≠ .connect ∧ ev ≠ .mark .stopReturned)
    (hflag : s'.stopFlag = s.stopFlag) (hpast : s'.Connecting → s.Connecting) : s'.Stopped := by
  refine ⟨?_, fun hm => ?_⟩
  · unfold Session.StopIsFinal
    rw [hhist, List.pairwise_append]
    refine ⟨?_, hS.final, fun a ha _ _ hconn => absurd hconn (hlogs a ha).1⟩
    exact List.pairwise_of_forall_mem_list fun a ha _ _ hconn => absurd hconn (hlogs a ha).1
  · rw [hhist, List.mem_append] at hm
    obtain ⟨hs, hc⟩ := hS.heeded (hm.resolve_left fun hm => (hlogs _ hm).2 rfl)
    refine ⟨⟨?_, hflag.trans hs.2⟩, fun hc' => hc (hpast hc')⟩
    rw [hhist]
    exact List.mem_append_right _ hs.1

/-- A stopped session stays stopped whatever the environment does. -/
theorem stopped_env {e : Env} {s' : Session} (hS : s.Stopped) (h : e.perform cfg s = some s') :
    s'.Stopped := by
  have hflag : s'.stopFlag = s.stopFlag := env_same (f := .stopFlag) h (by simp)
  have hpast : s'.pastStopTest = s.pastStopTest := env_same (f := .pastStopTest) h (by simp)
  have hrun : s'.running = s.running := env_same (f := .running) h (by simp)
  refine hS.aside (env_hist h) (fun ev hev => ?_) hflag fun hc => ?_
  · rcases mem_env_logs hev with rfl | rfl
    · exact ⟨nofun, nofun⟩
    · exact ⟨nofun, nofun⟩
  · unfold Session.Connecting at hc ⊢
    rwa [hpast, hrun] at hc

/-- A stopped session stays stopped whatever job is started. -/
theorem stopped_take {j : Job} {s' : Session} (hS : s.Stopped) (h : j.take s = some s') :
    s'.Stopped := by
  have hflag : s'.stopFlag = s.stopFlag := take_same (f := .stopFlag) h (by simp)
  refine hS.aside (take_hist h) (fun ev hev => ?_) hflag fun hc => ?_
  · rcases mem_job_logs hev with ⟨q, -, rfl⟩ | ⟨-, rfl⟩
    · exact ⟨nofun, nofun⟩
    · exact ⟨nofun, nofun⟩
  · cases j with
    | handler q =>
        -- the io thread has not tested anything yet
        obtain ⟨-, rfl⟩ := Job.take_handler h
        cases hc.1
    | send => cases h; exact hc
    | receive => cases h; exact hc
    | stop => cases h; exact hc

/-- The stop is final in every run in which it is heeded. -/
theorem Runs.stopped (h : Runs cfg stopHeeded p now c) : c.shared.Stopped := by
  refine Runs.dataAlso (stopping_sound cfg p now) rfl h ?_ ?_ ?_ ?_
  · exact ⟨List.pairwise_singleton _ _, fun hm => by simp [Session.init] at hm⟩
  · intro t op s x _ hS hg hm hk hf hx
    refine stopped_perform hS hg hk (fun hop => ?_) hx
    subst hop
    exact hf (Op.stopper_of_mayRun hm rfl) rfl
  · exact fun e s s' _ hS hx => stopped_env hS hx
  · exact fun j s s' _ _ hS _ hx => stopped_take hS hx

/-- **Stop is final**: in every run in which the stop is heeded, no `connect()` is issued after the
call of `stop()` has returned. -/
theorem stop_is_final (h : Runs cfg stopHeeded p now c) : c.shared.StopIsFinal := h.stopped.final

/-- A bound session is stopped; its connection is closed, and the aborted read ends nothing else. -/
theorem stop_is_final_orderly :
    (Machine.after sampleParams .none (Schedule.bind ++ .env (.elapse 1000000) :: .start .stop ::
      Schedule.turn .stopper 40 ++ Schedule.handle .closeConnection ++
      Schedule.handle (.handleReadHeader .none .operationAborted))).shared.StopIsFinal :=
  stop_is_final (runs_under (g := stopHeeded) (by decide +kernel))

/-- The `unbind` of the peer. -/
def peerUnbind : RawPdu := ⟨16, CommandId.Unbind.value, ESME_ROK, 7, [], true⟩

/-- The peer's `unbind` crosses the stop: it has been read when `stop()` is called, and is processed
after `stop()` has returned. Then the posted `close_connection` runs. -/
def unbindCrossesStop : List Step :=
  Schedule.bind ++ .env (.elapse 1000000) :: Schedule.complete .readHeader peerUnbind .success ++
    .env (.complete (.readBody peerUnbind) .none .success) :: .start .stop ::
    Schedule.turn .stopper 40 ++ .env (.elapse 1000000) ::
    Schedule.handle (.handleReadBody peerUnbind .success) ++
    .start (.handler .closeConnection) :: Schedule.turn .io 15 ++ .env (.elapse 1000000) ::
    Schedule.turn .io 5

/-- Without the condition a connection is attempted after the stop. -/
theorem reconnects_after_stop : ¬∀ (cfg : Params) (p : Persisted) (now : Nat) (c : Machine),
    Runs cfg Guard.free p now c → c.shared.StopIsFinal := by
  intro h
  have hfinal := h _ _ _ _ (runs_after sampleParams .none unbindCrossesStop)
  exact absurd hfinal (by decide +kernel)

end KissSmpp
