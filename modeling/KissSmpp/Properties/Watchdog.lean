import KissSmpp.Interleave.OneThread
import KissSmpp.Session.Calls

/-! # A bound session is watched

While a session is bound, something is under way that will notice a dead link: the enquire link timer,
the timer for the response, the handler of one of them, or a posted `close_connection`. Only receiving
a PDU and `close_connection` cancel the timers; the one arms the enquire link timer again at once, the
other has left the bound state before. Each expiry handler leaves the next of these behind, whatever
has been cancelled or armed again while it was waiting. -/

namespace KissSmpp

open Interleave

variable {cfg : Params} {t : Tid} {s s' : Session}

namespace Session

/-- A wait on the timer is pending, or the handler of its expiry is queued. -/
def Running (s : Session) (tm : Timer) : Prop :=
  s.armed tm = true ∨ tm.handler .success ∈ s.ready

/-- **The link is watched.** -/
def LinkWatched (s : Session) : Prop :=
  s.Running .enquireLink ∨ s.Running .enquireLinkResponse ∨ .closeConnection ∈ s.ready

/-- A bound session is watched. -/
def BoundWatched (s : Session) : Prop := s.currentState.isBound = true → s.LinkWatched

/-- Whether a timer is running can be read off the session. -/
instance (s : Session) (tm : Timer) : Decidable (s.Running tm) := inferInstanceAs (Decidable (_ ∨ _))

/-- Whether the link is watched can be read off the session. -/
instance (s : Session) : Decidable s.LinkWatched := inferInstanceAs (Decidable (_ ∨ _ ∨ _))

/-- Whether a bound session is watched can be read off the session. -/
instance (s : Session) : Decidable s.BoundWatched := inferInstanceAs (Decidable (_ → _))

end Session

open Session

/-! ## Single steps -/

/-- A timer that is running stays so, unless it is cancelled. -/
theorem running_perform {op : Op} {x : op.Res × Session} (h : perform cfg t op s = some x)
    {tm : Timer} (hop : op ≠ .cancel tm) (hr : s.Running tm) : x.2.Running tm := by
  -- the timer waits, or its handler does
  rcases hr with harm | hq
  · by_cases hw : Field.armed ∈ op.writes
    · cases op with
      | cancel tm' =>
          have hne : tm ≠ tm' := fun heq => hop (by rw [heq])
          cases h
          left
          show (s.cancelTimer tm').armed tm = true
          unfold Session.cancelTimer
          split
          · exact (Function.update_of_ne hne _ _).trans harm
          · exact harm
      | arm tm' =>
          cases h
          left
          show Function.update s.armed tm' true tm = true
          by_cases heq : tm = tm'
          · rw [heq, Function.update_self]
          · rw [Function.update_of_ne heq, harm]
      | _ => simp at hw
    · have hsame : x.2.armed = s.armed := perform_same (f := .armed) h hw
      left
      rw [hsame, harm]
  · exact .inr (ready_perform h hq)

/-- A timer that is armed is running. -/
theorem running_arm {tm : Timer} {x : Unit × Session} (h : perform cfg t (.arm tm) s = some x) :
    x.2.Running tm := by
  cases h
  left
  show Function.update s.armed tm true tm = true
  rw [Function.update_self]

/-- The expiry of a timer queues its handler. -/
theorem running_env {e : Env} (h : e.perform cfg s = some s') {tm : Timer} (hr : s.Running tm) :
    s'.Running tm := by
  rcases hr with harm | hq
  · cases e with
    | expire tm' =>
        obtain ⟨-, rfl⟩ := Env.perform_expire h
        by_cases heq : tm = tm'
        · rw [heq]
          exact .inr (List.mem_append_right _ List.mem_cons_self)
        · exact .inl ((Function.update_of_ne heq _ _).trans harm)
    | complete io raw er =>
        obtain ⟨-, rfl⟩ := Env.perform_complete h
        left
        show (Session.connectDone _ io er).armed tm = true
        unfold Session.connectDone
        split <;> exact harm
    | elapse us => cases h; exact .inl harm
    | submit body => cases h; exact .inl harm
    | reply a => cases h; exact .inl harm
  · exact .inr (ready_env h hq)

/-- A job that is not the timer's handler leaves it running. -/
theorem running_take {j : Job} (h : j.take s = some s') {tm : Timer}
    (hj : j ≠ .handler (tm.handler .success)) (hr : s.Running tm) : s'.Running tm := by
  have harmed : s'.armed = s.armed := take_same (f := .armed) h (by simp)
  rcases hr with harm | hq
  · exact .inl (by rw [harmed, harm])
  · exact .inr (ready_take h hj hq)

/-- Only a cancelled timer can end the watch. -/
theorem watched_perform {op : Op} {x : op.Res × Session} (h : perform cfg t op s = some x)
    (hop : op ≠ .cancel .enquireLink) (hop' : op ≠ .cancel .enquireLinkResponse)
    (hw : s.LinkWatched) : x.2.LinkWatched := by
  rcases hw with hr | hr | hq
  · exact .inl (running_perform h hop hr)
  · exact .inr (.inl (running_perform h hop' hr))
  · exact .inr (.inr (ready_perform h hq))

/-- The environment leaves a watched link watched: an expired timer queues its handler. -/
theorem watched_env {e : Env} (h : e.perform cfg s = some s') (hw : s.LinkWatched) : s'.LinkWatched := by
  rcases hw with hr | hr | hq
  · exact .inl (running_env h hr)
  · exact .inr (.inl (running_env h hr))
  · exact .inr (.inr (ready_env h hq))

/-- The start of a job leaves the link watched, unless it is one of the handlers that watch it. -/
theorem watched_take {j : Job} (h : j.take s = some s') (hel : j ≠ .handler (.doEnquireLink .success))
    (hfail : j ≠ .handler (.doEnquireLinkFailure .success)) (hclose : j ≠ .handler .closeConnection)
    (hw : s.LinkWatched) : s'.LinkWatched := by
  rcases hw with hr | hr | hq
  · exact .inl (running_take h hel hr)
  · exact .inr (.inl (running_take h hfail hr))
  · exact .inr (.inr (ready_take h hclose hq))

/-! ## The contract on the io thread -/

/-- **The contract on the io thread**: between its handlers a bound session is watched. -/
def watching (cfg : Params) : Focus (system cfg) where
  thread := .io
  guard := known cfg (noStop.without .stopper)
  inv s := s.stopFlag = false
  fact _ _ := True
  rely s s' := s'.currentState = s.currentState ∧ (s.LinkWatched → s'.LinkWatched) ∧
    (s.Running .enquireLink → s'.Running .enquireLink)
  idle := BoundWatched
  rely_refl _ := ⟨rfl, id, id⟩
  rely_trans _ _ _ h h' := ⟨h'.1.trans h.1, h'.2.1 ∘ h.2.1, h'.2.2 ∘ h.2.2⟩

/-- What the other threads do is a step of the focus on the io thread. -/
theorem steps_watching : (watching cfg).Steps where
  op t op s r hi hg hx := by
    obtain ⟨-, hx⟩ := perform_of_exec hx
    have hm := known_mayRun hg
    refine ⟨stopFlag_perform_false hx hm (known_guard hg).1 hi, fun ht => ?_⟩
    have hio : op.onIo = false := Op.onIo_of_ne hm ht
    have hcancel : ∀ tm, op ≠ .cancel tm := by
      rintro tm rfl
      cases hio
    exact ⟨currentState_other hx hm ht, watched_perform hx (hcancel _) (hcancel _),
      running_perform hx (hcancel _)⟩
  env e s s' hi hx := by
    have hstop : s'.stopFlag = s.stopFlag := env_same (f := .stopFlag) hx (by simp)
    exact ⟨hstop.trans hi, env_same (f := .currentState) hx (by simp), watched_env hx,
      running_env hx⟩
  take j s s' hi _ hx := by
    have hstop : s'.stopFlag = s.stopFlag := take_same (f := .stopFlag) hx (by simp)
    refine ⟨hstop.trans hi, fun hj => ⟨take_same (f := .currentState) hx (by simp), ?_, ?_⟩⟩
    · refine watched_take hx ?_ ?_ ?_ <;> exact fun h => hj (by rw [h]; rfl)
    · exact running_take hx fun h => hj (by rw [h]; rfl)

/-! ## Rules for the code -/

/-- That a bound session is watched is stable under the other threads. -/
theorem stable_boundWatched : (watching cfg).contract.Stable .io BoundWatched := by
  apply Focus.stable
  intro s s' _ _ hr hw hbound
  rw [hr.1] at hbound
  exact hr.2.1 (hw hbound)

/-- A running enquire link timer is stable under the other threads. -/
theorem stable_running : (watching cfg).contract.Stable .io (Running · .enquireLink) :=
  Focus.stable fun _ _ _ _ hr hw => hr.2.2 hw

/-- No other thread binds the session. -/
theorem stable_notBound :
    (watching cfg).contract.Stable .io fun s => s.currentState.isBound = false := by
  apply Focus.stable
  intro s s' _ _ hr hs
  rw [hr.1, hs]

/-- The state changes only where it is set. -/
theorem currentState_perform {op : Op} {x : op.Res × Session} (h : perform cfg t op s = some x)
    (hop : ∀ st : State, st.isBound = true → op ≠ .setState st) (hs : s.currentState.isBound = false) :
    x.2.currentState.isBound = false := by
  by_cases hw : Field.currentState ∈ op.writes
  · cases op with
    | setState st =>
        cases h
        show st.isBound = false
        exact Bool.eq_false_iff.mpr fun hb => hop st hb rfl
    | _ => simp at hw
  · have hsame : x.2.currentState = s.currentState := perform_same (f := .currentState) h hw
    rw [hsame, hs]

/-- **Code that neither cancels an enquire link timer nor binds the session.** -/
abbrev Calm {α : Type} (p : Code α) : Prop :=
  p.Uses fun op => op ≠ .cancel .enquireLink ∧ op ≠ .cancel .enquireLinkResponse ∧
    ∀ st : State, st.isBound = true → op ≠ .setState st

/-- Code is calm if its inventory lists none of these. -/
theorem calm_of_uses {α : Type} {S : Op → Bool} {p : Code α} (hp : p.Uses fun op => S op = true)
    (h : S (.cancel .enquireLink) = false) (h' : S (.cancel .enquireLinkResponse) = false)
    (hst : ∀ st : State, st.isBound = true → S (.setState st) = false) : Calm p := by
  apply hp.mono
  intro op hop
  refine ⟨?_, ?_, fun st hb => ?_⟩ <;> rintro rfl
  · rw [h] at hop
    cases hop
  · rw [h'] at hop
    cases hop
  · rw [hst st hb] at hop
    cases hop

/-- Calm code keeps a bound session watched. -/
theorem triple_calm {α : Type} {p : Code α} (hp : Calm p) :
    (watching cfg).contract.Triple .io BoundWatched p fun _ => BoundWatched := by
  apply Focus.Steps.triple_uses steps_watching hp stable_boundWatched
  intro op s r hop _ hw _ hx
  obtain ⟨-, hx⟩ := perform_of_exec hx
  refine ⟨trivial, fun hbound => ?_⟩
  by_cases hb : s.currentState.isBound = true
  · exact watched_perform hx hop.1 hop.2.1 (hw hb)
  · rw [Bool.not_eq_true] at hb
    rw [currentState_perform hx hop.2.2 hb] at hbound
    cases hbound

/-- Code that does not bind the session leaves it unbound. -/
theorem triple_notBound {α : Type} {p : Code α}
    (hp : p.Uses fun op => ∀ st : State, st.isBound = true → op ≠ .setState st) :
    (watching cfg).contract.Triple .io (fun s => s.currentState.isBound = false) p
      fun _ s => s.currentState.isBound = false :=
  Focus.Steps.triple_uses steps_watching hp stable_notBound fun _ _ _ hop _ hs _ hx =>
    ⟨trivial, currentState_perform (perform_of_exec hx).2 hop hs⟩

/-- Code that does not cancel the enquire link timer leaves it running. -/
theorem triple_running {α : Type} {p : Code α} (hp : p.Uses fun op => op ≠ .cancel .enquireLink) :
    (watching cfg).contract.Triple .io (Running · .enquireLink) p
      fun _ => (Running · .enquireLink) :=
  Focus.Steps.triple_uses steps_watching hp stable_running fun _ _ _ hop _ hr _ hx =>
    ⟨trivial, running_perform (perform_of_exec hx).2 hop hr⟩

/-- Code about which nothing needs to be known. -/
theorem triple_whatever {α : Type} (p : Code α) :
    (watching cfg).contract.Triple .io (fun _ => True) p fun _ _ => True :=
  Focus.Steps.triple_any steps_watching .const (fun _ _ _ _ _ _ _ => ⟨trivial, trivial⟩) p

/-- An operation that makes sure of the watch. -/
theorem triple_watch {op : Op} (h : ∀ s r, perform cfg .io op s = some r → r.2.LinkWatched) :
    (watching cfg).contract.Triple .io (fun _ => True) (call op) fun _ => BoundWatched :=
  Focus.Steps.triple_op steps_watching .const (fun _ => stable_boundWatched) fun s r _ _ _ hx =>
    ⟨trivial, fun _ => h s r (perform_of_exec hx).2⟩

/-! ## The handlers -/

/-- `do_enquire_link` leaves the wait for the response. -/
theorem triple_doEnquireLink {e : ErrorCode} (he : e ≠ .operationAborted) :
    (watching cfg).contract.Triple .io (fun _ => True) (doEnquireLink cfg e)
      fun _ => BoundWatched := by
  unfold doEnquireLink
  rw [bne_iff_ne.mpr he, Prog.when_true]
  apply (triple_whatever _).bind
  intro n
  apply (triple_whatever _).bind
  intro r
  apply (triple_whatever _).bind
  intro _
  apply triple_watch
  intro s x h
  exact .inr (.inl (running_arm h))

/-- `do_enquire_link_failure` posts `close_connection`. -/
theorem triple_doEnquireLinkFailure {e : ErrorCode} (he : e ≠ .operationAborted) :
    (watching cfg).contract.Triple .io (fun _ => True) (doEnquireLinkFailure cfg e)
      fun _ => BoundWatched := by
  unfold doEnquireLinkFailure
  rw [bne_iff_ne.mpr he, Prog.when_true]
  have hflag : (watching cfg).contract.Triple .io (fun _ => True) (call .getStopFlag)
      fun b _ => b = false := by
    apply Focus.Steps.triple_op steps_watching .const (fun _ => .const)
    intro s r hi _ _ hx
    obtain ⟨-, hx⟩ := perform_of_exec hx
    cases hx
    exact ⟨trivial, hi⟩
  apply hflag.bind
  intro stopFlag
  cases stopFlag with
  | true => exact fun s _ hs => by cases hs
  | false =>
      apply Contract.Triple.pre (P := fun _ => True) _ fun _ _ _ => trivial
      rw [Bool.not_false, Prog.when_true]
      unfold closeSession
      apply (triple_whatever _).bind
      intro _
      apply (triple_whatever _).bind
      intro _
      apply (triple_whatever _).bind
      intro st
      apply (triple_whatever _).bind
      intro _
      -- the handler that closes the connection is posted
      apply triple_watch
      intro s x h
      cases h
      exact .inr (.inr (List.mem_append_right _ List.mem_cons_self))

/-- `close_connection` leaves the session closed. -/
theorem triple_closeConnection_watched : (watching cfg).contract.Triple .io (fun _ => True)
    closeConnection fun _ => BoundWatched := by
  have hclosed : (watching cfg).contract.Triple .io (fun _ => True) (setCurrentState .CLOSED)
      fun _ s => s.currentState.isBound = false := by
    apply Focus.Steps.triple_op steps_watching .const (fun _ => stable_notBound)
    intro s r _ _ _ hx
    obtain ⟨-, hx⟩ := perform_of_exec hx
    cases hx
    exact ⟨trivial, rfl⟩
  unfold closeConnection
  apply hclosed.bind
  intro _
  apply Contract.Triple.post (triple_notBound ?_)
  rotate_left
  · apply (ofCloseConnection_closeConnection.2 ()).mono
    rintro op hop st hst rfl
    cases st <;> first | cases hst; done | cases hop
  intro _ s _ hs hbound
  rw [hs] at hbound
  cases hbound

/-- **A received PDU** restarts the enquire link timer, whatever it leads to. -/
theorem triple_process4state_running (raw : RawPdu) : (watching cfg).contract.Triple .io
    (fun _ => True) (process4state cfg raw) fun _ => (Running · .enquireLink) := by
  have hrestart : (watching cfg).contract.Triple .io (fun _ => True) rescheduleEnquireLink
      fun _ => (Running · .enquireLink) := by
    unfold rescheduleEnquireLink
    apply (triple_whatever _).bind
    intro _
    apply (triple_whatever _).bind
    intro _
    exact Focus.Steps.triple_op steps_watching .const (fun _ => stable_running) fun s x _ _ _ hx =>
      ⟨trivial, running_arm (perform_of_exec hx).2⟩
  unfold process4state
  apply hrestart.bind
  intro _
  apply (triple_running (uses_call (by simp))).bind
  intro st
  apply (triple_running (uses_call (by simp))).bind
  intro _
  apply triple_running
  apply (ofDispatch_process4stateSwitch st).mono
  rintro op hop rfl
  cases hop

/-- `handle_read_body` leaves a bound session watched: it arms the enquire link timer anew. -/
theorem triple_handleReadBody_watched (raw : RawPdu) (e : ErrorCode) :
    (watching cfg).contract.Triple .io BoundWatched (handleReadBody cfg raw e)
      fun _ => BoundWatched := by
  unfold handleReadBody
  split
  · apply ((triple_whatever _).pre fun _ _ _ => trivial).bind
    intro _
    apply (triple_process4state_running raw).bind
    intro _
    apply (triple_running (uses_call (by simp))).post
    exact fun _ s _ hs _ => .inl hs
  · apply triple_calm (calm_of_uses (ofFailure_handleReadError e) rfl rfl _)
    intro st hst
    cases st <;> first | rfl | cases hst

/-! ## Soundness -/

/-- A handler that plays no part in the watch finds it as it was. -/
theorem boundWatched_take {j : Job} (h : j.take s = some s')
    (hel : j ≠ .handler (.doEnquireLink .success))
    (hfail : j ≠ .handler (.doEnquireLinkFailure .success)) (hclose : j ≠ .handler .closeConnection)
    (hw : s.BoundWatched) : s'.BoundWatched := by
  intro hbound
  have hstate : s'.currentState = s.currentState := take_same (f := .currentState) h (by simp)
  rw [hstate] at hbound
  exact watched_take h hel hfail hclose (hw hbound)

/-- **A handler leaves a bound session watched.** -/
theorem safe_handler_watched {q : Handler} (hi' : s'.stopFlag = false) (hw : s.BoundWatched)
    (h : (Job.handler q).take s = some s') :
    (watching cfg).contract.Safe .io (fun _ => BoundWatched) (q.body cfg) s' := by
  -- a handler that neither touches the timer nor enters a bound state
  have hcalm : Calm (q.body cfg) → q ≠ .doEnquireLink .success → q ≠ .doEnquireLinkFailure .success →
      q ≠ .closeConnection →
      (watching cfg).contract.Safe .io (fun _ => BoundWatched) (q.body cfg) s' := by
    intro hc h₁ h₂ h₃
    apply triple_calm hc s' hi'
    apply boundWatched_take h _ _ _ hw
    · exact fun heq => h₁ (Job.handler.inj heq)
    · exact fun heq => h₂ (Job.handler.inj heq)
    · exact fun heq => h₃ (Job.handler.inj heq)
  cases q with
  | handleConnect e =>
      refine hcalm (calm_of_uses (ofConnect_handleConnect e) rfl rfl fun st hst => ?_)
        (by simp) (by simp) (by simp)
      cases st <;> first | rfl | cases hst
  | handleReadHeader raw e =>
      refine hcalm (calm_of_uses (ofReadHeader_handleReadHeader raw e) rfl rfl fun st hst => ?_)
        (by simp) (by simp) (by simp)
      cases st <;> first | rfl | cases hst
  | handleReadBody raw e =>
      apply triple_handleReadBody_watched raw e s' hi'
      exact boundWatched_take h (by simp) (by simp) (by simp) hw
  | handleWrite r e =>
      refine hcalm (calm_of_uses (ofWrite_handleWrite e) rfl rfl fun st hst => ?_)
        (by simp) (by simp) (by simp)
      cases st <;> first | rfl | cases hst
  | closeConnection => exact triple_closeConnection_watched s' hi' trivial
  | doEnquireLink e =>
      by_cases he : e = .operationAborted
      · -- the wait was cancelled, and the handler does nothing
        subst he
        exact hcalm trivial (by simp) (by simp) (by simp)
      · exact triple_doEnquireLink he s' hi' trivial
  | doEnquireLinkFailure e =>
      by_cases he : e = .operationAborted
      · subst he
        exact hcalm trivial (by simp) (by simp) (by simp)
      · exact triple_doEnquireLinkFailure he s' hi' trivial
  | w4rQAgeCleanup e =>
      exact hcalm (calm_of_uses (ofAgeCleanup_w4rQAgeCleanup e) rfl rfl fun _ _ => rfl)
        (by simp) (by simp) (by simp)

variable {p : Persisted} {now : Nat} {c : Machine}

/-- **The focus on the watch is sound**: every handler leaves a bound session watched. -/
theorem watching_sound (cfg : Params) (p : Persisted) (now : Nat) :
    (watching cfg).contract.Sound (Machine.init p now) := by
  exact sound_of_handlers steps_watching rfl rfl (fun hbound => by cases hbound)
    stable_boundWatched fun q s s' _ hi' hw _ hx => safe_handler_watched hi' hw hx

/-- **A bound session is watched**: in every run in which `stop()` is not called, whenever the io thread
is between two handlers and the session is bound, a timer of the enquire link is running or a
`close_connection` is posted. -/
theorem bound_is_watched (h : Runs cfg noStop p now c) (hio : c.Idle .io)
    (hbound : c.shared.currentState.isBound = true) : c.shared.LinkWatched :=
  (watching_sound cfg p now).reach_idle
    (h.withoutStopper fun _ _ hj => hj).knowing hio rfl hbound

/-- The enquire link timer expires, and a PDU of the peer arrives before its handler runs. -/
def receivedAfterExpiry : List Step :=
  Schedule.bind ++ .env (.elapse 1000000) :: .env (.expire .enquireLink) ::
    Schedule.receive (Schedule.response .GenericNack 1) ++ Schedule.handle (.doEnquireLink .success)

/-- A PDU that arrives after the timer has expired leaves the link watched. -/
theorem bound_is_watched_after_expiry :
    (Machine.after sampleParams .none receivedAfterExpiry).shared.LinkWatched :=
  bound_is_watched (runs_under (g := noStop) (by decide +kernel)) (by decide +kernel)
    (by decide +kernel)

end KissSmpp
