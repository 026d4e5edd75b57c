import KissSmpp.Interleave.OneThread
import KissSmpp.Session.Handlers

/-! # Ageing

The timer that watches over the PDUs awaiting a response is armed by the constructor, and from then on
only by its own handler. A tick that finds nothing awaiting a response is the last one, and so is the
one that `close_connection` cancels. As long as neither happens (`ageingUndisturbed`) the session
keeps watching. -/

namespace KissSmpp

open Interleave

variable {cfg : Params} {t : Tid} {s s' : Session}

/-- **The ageing timer is left alone**: it is not cancelled while it is armed, and a tick always finds a
PDU that awaits a response. -/
def ageingUndisturbed : Guard Op Tid Session Job where
  op _ op s := op = .cancel .w4rQAgeing → s.armed .w4rQAgeing = false
  job j s := j = .handler (.w4rQAgeCleanup .success) → 0 < s.w4rQ.size

/-- The guard can be evaluated. -/
instance : ageingUndisturbed.Checkable where
  op _ op s := inferInstanceAs (Decidable
    (op = .cancel .w4rQAgeing → s.armed .w4rQAgeing = false))
  job j s := inferInstanceAs (Decidable
    (j = .handler (.w4rQAgeCleanup .success) → 0 < s.w4rQ.size))

namespace Session

/-- The ageing timer is armed, or its expiry handler is queued. -/
def Watching (s : Session) : Prop :=
  s.armed .w4rQAgeing = true ∨ .w4rQAgeCleanup .success ∈ s.ready

/-- Whether the ageing timer is running can be read off the session. -/
instance (s : Session) : Decidable s.Watching := inferInstanceAs (Decidable (_ ∨ _))

/-- **A bound session watches over the PDUs that await a response.** -/
def Watched (s : Session) : Prop :=
  0 < s.w4rQ.size → s.currentState.isBound = true → s.Watching

/-- Whether the session watches over what awaits a response can be read off the session. -/
instance (s : Session) : Decidable s.Watched := inferInstanceAs (Decidable (_ → _ → _))

end Session

open Session

/-! ## Single steps -/

/-- **Every operation keeps watching**, if the timer is left alone. -/
theorem watching_perform {op : Op} {x : op.Res × Session} (hg : ageingUndisturbed.op t op s)
    (h : perform cfg t op s = some x) (hW : s.Watching) : x.2.Watching := by
  refine hW.imp (fun harmed => ?_) (ready_perform h)
  by_cases hw : Field.armed ∈ op.writes
  · cases op with
    | cancel tm =>
        -- no handler cancels the ageing timer before it is destroyed
        by_cases htm : tm = .w4rQAgeing
        · subst htm
          rw [hg rfl] at harmed
          cases harmed
        · cases h
          show (s.cancelTimer tm).armed .w4rQAgeing = true
          unfold Session.cancelTimer
          split
          · exact (Function.update_of_ne (Ne.symm htm) _ _).trans harmed
          · exact harmed
    | arm tm =>
        cases h
        show Function.update s.armed tm true .w4rQAgeing = true
        by_cases htm : tm = .w4rQAgeing
        · subst htm
          exact Function.update_self ..
        · exact (Function.update_of_ne (Ne.symm htm) _ _).trans harmed
    | _ => simp at hw
  · have hsame : x.2.armed = s.armed := perform_same (f := .armed) h hw
    rw [hsame]
    exact harmed

/-- A tick that is due is queued. -/
theorem watching_env {e : Env} (h : e.perform cfg s = some s') (hW : s.Watching) : s'.Watching := by
  rcases hW with harmed | hq
  · cases e with
    | complete io raw er =>
        obtain ⟨-, rfl⟩ := Env.perform_complete h
        left
        unfold Session.connectDone
        split <;> exact harmed
    | expire tm =>
        obtain ⟨-, rfl⟩ := Env.perform_expire h
        by_cases htm : tm = .w4rQAgeing
        · subst htm
          exact .inr (List.mem_append_right _ List.mem_cons_self)
        · exact .inl ((Function.update_of_ne (Ne.symm htm) _ _).trans harmed)
    | elapse us => cases h; exact .inl harmed
    | submit body => cases h; exact .inl harmed
    | reply a => cases h; exact .inl harmed
  · exact .inr (ready_env h hq)

/-- Only the tick itself is taken up. -/
theorem watching_take {j : Job} (h : j.take s = some s')
    (hj : j ≠ .handler (.w4rQAgeCleanup .success)) (hW : s.Watching) : s'.Watching := by
  have harmed : s'.armed = s.armed := take_same (f := .armed) h (by simp)
  exact hW.imp (fun ha => (congrFun harmed _).trans ha) (ready_take h hj)

/-! ## The contract on the io thread -/

/-- **The contract on the io thread**: between its handlers the session is watching. -/
def ageing (cfg : Params) : Focus (system cfg) where
  thread := .io
  guard := ageingUndisturbed.also (discipline cfg)
  inv _ := True
  fact _ _ := True
  rely s s' := s'.w4rQ = s.w4rQ ∧ (s.Watching → s'.Watching)
  idle := Watching
  rely_refl _ := ⟨rfl, id⟩
  rely_trans _ _ _ h h' := ⟨h'.1.trans h.1, fun hW => h'.2 (h.2 hW)⟩

/-- What the other threads do is a step of the focus on the io thread. -/
theorem steps_ageing : (ageing cfg).Steps where
  op t op s r _ hg hx := by
    obtain ⟨-, hx⟩ := perform_of_exec hx
    refine ⟨trivial, fun ht => ⟨?_, watching_perform hg.1 hx⟩⟩
    have hop : op.onIo = false := Op.onIo_of_ne hg.2.2.1 ht
    refine perform_same (f := .w4rQ) hx ?_
    cases op <;> first | simp; done | simp at hop
  env _ _ _ _ hx := ⟨trivial, env_same (f := .w4rQ) hx (by simp), watching_env hx⟩
  take j _ _ _ _ hx := by
    refine ⟨trivial, fun hj => ⟨take_same (f := .w4rQ) hx (by simp), watching_take hx ?_⟩⟩
    rintro rfl
    exact hj rfl

/-- A running ageing timer is stable under the other threads. -/
theorem stable_watching : (ageing cfg).contract.Stable .io Watching :=
  Focus.stable fun _ _ _ _ hr hW => hr.2 hW

/-- What awaits a response does so until the io thread takes it out. -/
theorem stable_awaited : (ageing cfg).contract.Stable .io fun s => 0 < s.w4rQ.size :=
  Focus.stable fun _ _ _ _ hr hs => by rw [hr.1]; exact hs

/-- All code keeps watching. -/
theorem triple_watching {α : Type} (p : Code α) :
    (ageing cfg).contract.Triple .io Watching p fun _ => Watching := by
  refine Focus.Steps.triple_any steps_ageing stable_watching (fun op s r _ hW hg hx => ?_) p
  exact ⟨trivial, watching_perform hg.1 (perform_of_exec hx).2 hW⟩

/-- **A tick that finds a PDU awaiting a response** arms the timer again. -/
theorem triple_w4rQAgeCleanup : (ageing cfg).contract.Triple .io (fun s => 0 < s.w4rQ.size)
    (w4rQAgeCleanup cfg .success) fun _ => Watching := by
  have hany : ∀ {α : Type} (p : Code α),
      -- up to the `arm` anything may happen
      (ageing cfg).contract.Triple .io (fun _ => True) p fun _ _ => True := fun p =>
    Focus.Steps.triple_any steps_ageing .const (fun _ _ _ _ _ _ _ => ⟨trivial, trivial⟩) p
  unfold w4rQAgeCleanup
  refine Contract.Triple.bind (Q := fun size s => 0 < size) ?_ fun size => ?_
  · refine Focus.Steps.triple_op steps_ageing stable_awaited (fun _ => .const)
      fun s r _ hs _ hx => ?_
    obtain ⟨-, hx⟩ := perform_of_exec hx
    cases hx
    exact ⟨trivial, hs⟩
  cases hsize : decide (0 < size) with
  | false => exact fun s _ hs => absurd hs (of_decide_eq_false hsize)
  | true =>
      refine Contract.Triple.pre (P := fun _ => True) ?_ fun _ _ _ => trivial
      refine (hany _).bind fun _ => (hany _).bind fun keys => (hany _).bind fun _ => ?_
      -- whatever the sweep did, the timer is armed
      refine Contract.Triple.bind (Q := fun _ => Watching) ?_ fun _ => triple_watching _
      refine Focus.Steps.triple_op steps_ageing .const (fun _ => stable_watching)
        fun s r _ _ _ hx => ?_
      obtain ⟨-, hx⟩ := perform_of_exec hx
      cases hx
      have harmed : Function.update s.armed .w4rQAgeing true .w4rQAgeing = true :=
        Function.update_self ..
      exact ⟨trivial, .inl harmed⟩

variable {p : Persisted} {now : Nat} {c : Machine}

/-- **The focus on ageing is sound**: every handler leaves the entries watched over. -/
theorem ageing_sound (cfg : Params) (p : Persisted) (now : Nat) :
    (ageing cfg).contract.Sound (Machine.init p now) := by
  refine Focus.Steps.sound steps_ageing trivial ⟨(), rfl⟩ (.inl rfl) stable_watching ?_
  intro j s s' _ _ hW hg hx
  by_cases hj : j = .handler (.w4rQAgeCleanup .success)
  · have hsize : 0 < s.w4rQ.size := hg.1 hj
    have hw : s'.w4rQ = s.w4rQ := take_same (f := .w4rQ) hx (by simp)
    rw [← hw] at hsize
    subst hj
    exact triple_w4rQAgeCleanup s' trivial hsize
  · exact triple_watching _ s' trivial (watching_take hx hj hW)

/-- **Ageing never stops watching**, in every run in which the timer is left alone. -/
theorem ageing_watches (h : Runs cfg ageingUndisturbed p now c) (hio : c.Idle .io) :
    c.shared.Watched :=
  fun _ _ => (ageing_sound cfg p now).reach_idle h.disciplined hio rfl

/-- A message has been written, a tick has found it, and the next one is on its way. -/
theorem ageing_watches_first_tick :
    (Machine.after sampleParams .none (Schedule.bind ++ Schedule.sendWritten 1 ++
      .env (.expire .w4rQAgeing) :: Schedule.handle (.w4rQAgeCleanup .success))).shared.Watched :=
  ageing_watches (runs_under (g := ageingUndisturbed) (by decide +kernel))
    (by decide +kernel)

/-- A tick while nothing awaits a response, and then a message. -/
def tickBeforeSend : List Step :=
  Schedule.bind ++ .env (.expire .w4rQAgeing) :: Schedule.handle (.w4rQAgeCleanup .success) ++
    Schedule.sendWritten 1

/-- Without the condition a PDU awaits its response and nobody watches. -/
theorem unwatched_after_tick : ¬∀ (cfg : Params) (p : Persisted) (now : Nat) (c : Machine),
    Runs cfg noStop p now c → c.Idle .io → c.shared.Watched := by
  intro h
  have hwatched := h sampleParams .none 0 (Machine.after sampleParams .none tickBeforeSend)
    (runs_under (by decide +kernel)) (by decide +kernel)
  exact absurd hwatched (by decide +kernel)

end KissSmpp
