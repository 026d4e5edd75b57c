import KissSmpp.Interleave.RelyGuarantee
import KissSmpp.Session.Discipline

/-! # The discipline as a contract

The environment and the start of jobs keep the discipline too, so that it can be stated as a
rely–guarantee contract on the threads of the process, `discipline`. That the code meets this contract
is shown method by method in `Session.Methods`. -/

namespace KissSmpp

open Interleave Queue

variable {cfg : Params} {t : Tid} {s : Session}

/-! ## The environment and the start of jobs -/

/-- A step that leaves the queues alone, starts no write and records none puts nothing into the queue's
reach. -/
theorem Session.Queued.before {s' : Session} {x : Ref} (hq : s'.txQ = s.txQ) (hw : s'.w4rQ = s.w4rQ)
    (hflight : x ∈ s'.inFlight → x ∈ s.inFlight)
    (hpushed : ∀ l, .pushed x l ∈ s'.hist → .pushed x l ∈ s.hist)
    (hwrote : ∀ tbuf st conn, .wrote x tbuf st conn ∈ s'.hist → .wrote x tbuf st conn ∈ s.hist)
    (hx : s'.Queued x) : s.Queued x := by
  cases hx with
  | waiting hx => exact .waiting (hq ▸ hx)
  | slot hx =>
      unfold Session.slot at hx
      rw [hq] at hx
      exact .slot hx
  | flight hx => exact .flight (hflight hx)
  | awaiting hx =>
      obtain ⟨k, e, he, hobj⟩ := hx
      exact .awaiting ⟨k, e, hw ▸ he, hobj⟩
  | pushed l hx => exact .pushed l (hpushed l hx)
  | wrote tbuf st conn hx => exact .wrote tbuf st conn (hwrote tbuf st conn hx)

/-- The environment puts nothing into the queue's reach. -/
theorem queued_env {e : Env} {s' : Session} (h : e.perform cfg s = some s') {x : Ref}
    (hx : s'.Queued x) : s.Queued x :=
  hx.before (env_same (f := .txQ) h (by simp)) (env_same (f := .w4rQ) h (by simp))
    (inFlight_env h).mem_iff.mp (fun _ hx => mem_hist_of_env h hx nofun nofun)
    fun _ _ _ hx => mem_hist_of_env h hx nofun nofun

/-- The environment adds objects, and changes none. -/
theorem pdu_env {e : Env} {s' : Session} (h : e.perform cfg s = some s') :
    s.heap.length ≤ s'.heap.length ∧ ∀ r, r < s.heap.length → s'.pdu r = s.pdu r := by
  cases e with
  | submit body =>
      cases h
      refine ⟨by simp [Session.record], fun r hr => ?_⟩
      simp [Session.pdu, Session.record, List.getElem?_append_left hr]
  | complete io raw er =>
      obtain ⟨-, rfl⟩ := Env.perform_complete h
      unfold Session.connectDone
      split <;> exact ⟨Nat.le_refl _, fun _ _ => rfl⟩
  | expire tm =>
      obtain ⟨-, rfl⟩ := Env.perform_expire h
      exact ⟨Nat.le_refl _, fun _ _ => rfl⟩
  | elapse us => cases h; exact ⟨Nat.le_refl _, fun _ _ => rfl⟩
  | reply a => cases h; exact ⟨Nat.le_refl _, fun _ _ => rfl⟩

/-- The start of a job leaves the objects alone. -/
theorem pdu_take {j : Job} {s' : Session} (h : j.take s = some s') :
    s.heap.length ≤ s'.heap.length ∧ ∀ r, s'.pdu r = s.pdu r := by
  have hheap : s'.heap = s.heap := take_same (f := .heap) h (by simp)
  unfold Session.pdu
  rw [hheap]
  exact ⟨Nat.le_refl _, fun _ => rfl⟩

/-- A PDU is fresh because it was so before, or because `SendHandler::run` has just submitted it. -/
theorem fresh_env {e : Env} {s' : Session} (h : e.perform cfg s = some s') {x : Ref}
    (hx : s'.Fresh x) : s.Fresh x ∨ (x = s.heap.length ∧ x < s'.heap.length) := by
  have hin : s'.inHand = s.inHand := env_same (f := .inHand) h (by simp)
  rcases hx with ⟨u, hu⟩ | hx
  · exact .inl (.inl ⟨u, hin ▸ hu⟩)
  · cases e with
    | submit body =>
        cases h
        simp only [Session.record, List.mem_append, List.mem_singleton] at hx
        rcases hx with hx | rfl
        · exact .inl (.inr hx)
        · exact .inr ⟨rfl, by simp [Session.record]⟩
    | complete io raw er =>
        obtain ⟨-, rfl⟩ := Env.perform_complete h
        left; right
        unfold Session.connectDone at hx
        split at hx <;> exact hx
    | expire tm =>
        obtain ⟨-, rfl⟩ := Env.perform_expire h
        exact .inl (.inr hx)
    | elapse us => cases h; exact .inl (.inr hx)
    | reply a => cases h; exact .inl (.inr hx)

/-- **A move of the environment keeps the invariant.** -/
theorem inv_env {e : Env} {s' : Session} (h : e.perform cfg s = some s') (hi : Inv s) : Inv s' := by
  have hph : s'.phase = s.phase := env_same (f := .phase) h (by simp)
  have ho : s'.owner = s.owner := env_same (f := .owner) h (by simp)
  have hheap := (pdu_env h).1
  refine ⟨fun u hu => ?_, fun x hx => ?_, fun x hx => ?_, fun x hx => ?_⟩
  · rw [ho]
    exact hi.mutex u (hph ▸ hu)
  · rw [slot_env h]
    exact hi.popped x ((inFlight_env h).mem_iff.mp hx)
  · exact Nat.lt_of_lt_of_le (hi.queued x (queued_env h hx)) hheap
  · rcases fresh_env h hx with hx | ⟨-, hx⟩
    · exact Nat.lt_of_lt_of_le (hi.fresh x hx) hheap
    · exact hx

/-- **A move of the environment stays within what every thread relies on.** -/
theorem relies_env {e : Env} {s' : Session} (h : e.perform cfg s = some s') (t : Tid) :
    Relies t s s' := by
  have hp : s'.pdu2send = s.pdu2send := env_same (f := .pdu2send) h (by simp)
  have hin : s'.inHand = s.inHand := env_same (f := .inHand) h (by simp)
  have hph : s'.phase = s.phase := env_same (f := .phase) h (by simp)
  have ho : s'.owner = s.owner := env_same (f := .owner) h (by simp)
  have hq : s'.txQ = s.txQ := env_same (f := .txQ) h (by simp)
  obtain ⟨hheap, hpdu⟩ := pdu_env h
  refine ⟨congrFun hp t, congrFun hin t, congrFun hph t, hheap, fun hown => ho ▸ hown,
    fun _ => slot_env h, fun _ => hpdu, fun _ => ⟨env_same (f := .handling) h (by simp),
      env_same (f := .running) h (by simp), env_same (f := .w4rQ) h (by simp),
      env_same (f := .pastStopTest) h (by simp), fun x hx => ?_⟩⟩
  rcases hx with hx | hx
  · exact .inl (hq ▸ hx)
  · exact .inr ((inFlight_env h).mem_iff.mpr hx)

/-- **What holds of a thread with nothing to do**: it is outside the critical section of `writeMutex`
and holds no popped PDU. -/
structure Quiet (t : Tid) (s : Session) : Prop where
  phase : s.phase t = .outside
  pdu2send : s.pdu2send t = none
  handling : t = .io → s.handling = none

/-- The start of a job leaves the PDUs in flight. -/
theorem inFlight_start {j : Job} {s' : Session} (h : j.take s = some s')
    (hidle : Quiet j.thread s) : s'.inFlight.Perm s.inFlight := by
  cases j with
  | handler h' => exact inFlight_take h (hidle.handling rfl)
  | send => cases h; exact List.Perm.refl _
  | receive => cases h; exact List.Perm.refl _
  | stop => cases h; exact List.Perm.refl _

@[inherit_doc inFlight_start]
theorem mem_inFlight_take {j : Job} {s' : Session} (h : j.take s = some s')
    (hidle : Quiet j.thread s) {x : Ref} (hx : x ∈ s'.inFlight) : x ∈ s.inFlight :=
  (inFlight_start h hidle).mem_iff.mp hx

/-- The start of a job puts nothing into the queue's reach. -/
theorem queued_take {j : Job} {s' : Session} (h : j.take s = some s')
    (hidle : Quiet j.thread s) {x : Ref} (hx : s'.Queued x) : s.Queued x :=
  hx.before (take_same (f := .txQ) h (by simp)) (take_same (f := .w4rQ) h (by simp))
    (mem_inFlight_take h hidle) (fun _ hx => mem_hist_of_take h hx nofun nofun)
    fun _ _ _ hx => mem_hist_of_take h hx nofun nofun

/-- **The start of a job keeps the invariant.** -/
theorem inv_take {j : Job} {s' : Session} (h : j.take s = some s') (hidle : Quiet j.thread s)
    (hi : Inv s) : Inv s' := by
  have hph : s'.phase = s.phase := take_same (f := .phase) h (by simp)
  have ho : s'.owner = s.owner := take_same (f := .owner) h (by simp)
  have hheap : s'.heap = s.heap := take_same (f := .heap) h (by simp)
  have hin : s'.inHand = s.inHand := take_same (f := .inHand) h (by simp)
  have hsend : s'.sendingBuffer = s.sendingBuffer := take_same (f := .sendingBuffer) h (by simp)
  refine ⟨fun u hu => ?_, fun x hx => ?_, fun x hx => ?_, fun x hx => ?_⟩
  · rw [ho]
    exact hi.mutex u (hph ▸ hu)
  · rw [slot_take h]
    exact hi.popped x (mem_inFlight_take h hidle hx)
  · rw [hheap]
    exact hi.queued x (queued_take h hidle hx)
  · unfold Session.Fresh at hx
    rw [hin, hsend] at hx
    rw [hheap]
    exact hi.fresh x hx

/-- **The start of a job stays within what the other threads rely on.** -/
theorem relies_take {j : Job} {s' : Session} (h : j.take s = some s') {u : Tid}
    (hu : u ≠ j.thread) : Relies u s s' := by
  have hp : s'.pdu2send = s.pdu2send := take_same (f := .pdu2send) h (by simp)
  have hin : s'.inHand = s.inHand := take_same (f := .inHand) h (by simp)
  have hph : s'.phase = s.phase := take_same (f := .phase) h (by simp)
  have ho : s'.owner = s.owner := take_same (f := .owner) h (by simp)
  refine ⟨congrFun hp u, congrFun hin u, congrFun hph u, (pdu_take h).1, fun hown => ho ▸ hown,
    fun _ => slot_take h, fun _ r _ => (pdu_take h).2 r, fun hio => ?_⟩
  subst hio
  cases j with
  | handler h' => exact absurd rfl hu
  | send => cases h; exact ⟨rfl, rfl, rfl, rfl, fun _ => id⟩
  | receive => cases h; exact ⟨rfl, rfl, rfl, rfl, fun _ => id⟩
  | stop => cases h; exact ⟨rfl, rfl, rfl, rfl, fun _ => id⟩

/-! ## The contract -/

/-- **The discipline as a contract** on the threads of the process; it holds of every run. -/
def discipline (cfg : Params) : Contract (system cfg) where
  guard := Guard.free
  inv := Inv
  fact t op s := op.mayRun t = true ∧ Known t op s
  rely := Relies
  idle := Quiet
  rely_refl := Relies.refl
  rely_trans _ _ _ _ := Relies.trans

/-- **An operation that finds its facts keeps the contract.** -/
theorem keeps_of_known {op : Op} {r : op.Res × Session} (h : perform cfg t op s = some r)
    (hi : Inv s) (hm : op.mayRun t = true) (hk : Known t op s) : (discipline cfg).Keeps t op s r.2 where
  fact := ⟨hm, hk⟩
  inv := inv_perform h hk hi
  rely _ hu := relies_perform h hk hm hu

end KissSmpp
