import Mathlib.Data.List.TakeWhile
import KissSmpp.Session.Reception

/-! # Unbinding is not orderly

`procpdu_unbind` queues the `unbind_resp` and posts the close in one go, and so does `close_session`
with its unbind request. Nothing makes the posted `close_connection` wait: if it is the next handler to
run, it closes the socket before the PDU has been written, let alone answered. -/

namespace KissSmpp

open Interleave

variable {cfg : Params} {t : Tid} {s : Session}

/-! ## What an orderly close waits for -/

/-- What has been recorded since the PDU was last put on the level. -/
def sincePush (r : Ref) (l : Level) (hist : List Event) : List Event :=
  hist.takeWhile fun ev => decide (ev ≠ .pushed r l)

namespace Session

/-- The write of the PDU has completed: its `handle_write` has run. -/
def WriteDone (s : Session) (r : Ref) (l : Level) : Prop :=
  .started (.handleWrite r .success) ∈ sincePush r l s.hist

/-- The unbind request has been written, and the response to it has been processed. -/
def UnbindDone (s : Session) (r : Ref) : Prop :=
  s.WriteDone r .SESSION ∧
    .response CommandId.UnbindResp.value (s.pdu r).sequenceNumber ∈ sincePush r .SESSION s.hist

end Session

/-- A handler that does not report a read or write error, or a missing response to an
`enquire_link`. -/
def Handler.undisturbed : Handler → Bool
  | .handleReadHeader _ e | .handleReadBody _ e | .handleWrite _ e => e == .success
  | .doEnquireLinkFailure e => e == .operationAborted
  | _ => true

/-- A move of a run in which no read or write fails, and no `enquire_link` times out. -/
def Undisturbed (_ : Machine) : Step → Prop
  | .start (.handler q) => q.undisturbed = true
  | .env (.complete .connect _ _) => True
  | .env (.complete _ _ e) => e = .success
  | .env (.expire tm) => tm ≠ .enquireLinkResponse
  | _ => True

/-- The io thread closes the socket with its next operation. -/
def Machine.AboutToClose (c : Machine) : Prop := ∃ k, c.code .io = .step .socketClose k

/-- **An orderly close**: whatever happens from now on, as long as nothing is disturbed, the socket is
not closed before this has been done. -/
def Machine.ClosesOnlyAfter (cfg : Params) (c : Machine) (done : Session → Prop) : Prop :=
  ∀ c' : Machine, Reach (system cfg) Undisturbed c c' → c'.AboutToClose → done c'.shared

/-! ## The close comes first -/

/-- Operations that never wait, and leave no trace. -/
def Op.quick : Op → Bool
  | .setState _ | .cancel _ | .txClear _ => true
  | _ => false

variable (cfg) in
/-- A quick operation is performed at once, and neither the record nor the objects change. -/
theorem exec_quick {op : Op} (hop : op.quick = true) (hs : s.fault = none) :
    ∃ x, exec cfg t op s = some x ∧ x.2.fault = none ∧ x.2.hist = s.hist ∧ x.2.heap = s.heap := by
  have hperform : ∃ x, perform cfg t op s = some x := by
    cases op <;> first | exact ⟨_, rfl⟩ | cases hop
  obtain ⟨x, hx⟩ := hperform
  refine ⟨x, (if_pos hs).trans hx, ?_, ?_, ?_⟩
  · have hsame : x.2.fault = s.fault := by
      apply perform_same (f := .fault) hx
      cases op <;> first | simp; done | cases hop
    rw [hsame, hs]
  · apply perform_same (f := .hist) hx
    cases op <;> first | simp; done | cases hop
  · apply perform_same (f := .heap) hx
    cases op <;> first | simp; done | cases hop

variable (cfg) in
/-- Code made of such operations runs through. -/
theorem run_quick {α : Type} {p : Code α} (hp : p.Uses fun op => op.quick = true)
    (hs : s.fault = none) :
    ∃ a s', p.run (exec cfg t) s = some (a, s') ∧ s'.hist = s.hist ∧ s'.heap = s.heap := by
  induction p generalizing s with
  | ret a => exact ⟨a, s, rfl, rfl, rfl⟩
  | step op k ih =>
      obtain ⟨x, hx, hfault, hhist, hheap⟩ := exec_quick cfg (t := t) hp.1 hs
      obtain ⟨a, s', hrun, hhist', hheap'⟩ := ih x.1 (hp.2 x.1) hfault
      refine ⟨a, s', ?_, hhist'.trans hhist, hheap'.trans hheap⟩
      show (exec cfg t op s).bind _ = _
      rw [hx]
      exact hrun

/-- What `close_connection` does before it closes the socket. -/
def closing : Code Unit := do
  setCurrentState .CLOSED
  call (.cancel .enquireLink)
  call (.cancel .enquireLinkResponse)
  call (.cancel .w4rQAgeing)
  call (.txClear .SESSION)
  call (.txClear .RESPONSE)

/-- What `close_connection` does before it closes the socket is quick. -/
theorem quick_closing : closing.Uses fun op => op.quick = true := by
  unfold closing setCurrentState
  refine uses_then rfl fun _ => uses_then rfl fun _ => uses_then rfl fun _ => ?_
  exact uses_then rfl fun _ => uses_then rfl fun _ => uses_call rfl

/-- `close_connection` goes on to close the socket. -/
theorem closeConnection_eq :
    ∃ k, closeConnection = closing >>= fun _ => .step .socketClose k := ⟨_, rfl⟩

variable (cfg) in
/-- **A posted close can be the next thing that happens.** -/
theorem closes_next {c : Machine} (hio : c.Idle .io) (hfault : c.shared.fault = none)
    (hclosing : c.shared.Closing) :
    ∃ c' : Machine, Reach (system cfg) Undisturbed c c' ∧ c'.AboutToClose ∧
      c'.shared.hist = .started .closeConnection :: c.shared.hist ∧
      c'.shared.heap = c.shared.heap := by
  obtain ⟨k, hk⟩ := closeConnection_eq
  obtain ⟨s, htake⟩ : ∃ s, (Job.handler .closeConnection).take c.shared = some s :=
    ⟨_, if_pos hclosing⟩
  have hs : s.fault = none := (take_same (f := .fault) htake (by simp)).trans hfault
  have hhist : s.hist = .started .closeConnection :: c.shared.hist := take_hist htake
  have hheap : s.heap = c.shared.heap := take_same (f := .heap) htake (by simp)
  have hstart := Config.move_start (M := system cfg) (j := .handler .closeConnection) hio htake
  obtain ⟨⟨⟩, s', hrun, hhist', hheap'⟩ := run_quick cfg (t := .io) quick_closing hs
  let c₁ : Machine := ⟨s, Function.update c.code .io closeConnection⟩
  have hcode : c₁.code .io = closing >>= fun _ => .step .socketClose k := by
    rw [← hk]
    exact Function.update_self Tid.io closeConnection c.code
  have hok : ∀ c, Undisturbed c (.run .io) := fun _ => trivial
  have hrest := reach_run (M := system cfg) (c := c₁) hok hcode hrun
  refine ⟨_, (Reach.refl.next _ rfl hstart).trans hrest, ⟨k, ?_⟩, ?_, ?_⟩
  · exact Function.update_self Tid.io _ c₁.code
  · exact hhist'.trans hhist
  · exact hheap'.trans hheap

/-- `close_connection` that starts on a closing session comes before anything that has not been done
by then. -/
theorem not_closesOnlyAfter {c : Machine} {done : Session → Prop} (hio : c.Idle .io)
    (hfault : c.shared.fault = none) (hclosing : c.shared.Closing)
    (hnot : ∀ s : Session, s.hist = .started .closeConnection :: c.shared.hist →
      s.heap = c.shared.heap → ¬done s) : ¬c.ClosesOnlyAfter cfg done := by
  intro honly
  obtain ⟨c', hreach, habout, hhist, hheap⟩ := closes_next cfg hio hfault hclosing
  exact hnot c'.shared hhist hheap (honly c' hreach habout)

/-- A handler has not started since a push that was made in the latest one. -/
theorem started_not_mem_sincePush {r : Ref} {l : Level} {q : Handler} {rc : Reception}
    {hist : List Event} (hrc : reception? hist = some rc) (hr : .pushed r l ∈ rc.since) :
    .started q ∉ sincePush r l hist := by
  obtain ⟨⟨older, rfl⟩, hopens⟩ := reception?_eq_some hrc
  intro hq
  have hin : .started q ∈ rc.since := by
    unfold sincePush at hq
    rw [List.takeWhile_append, if_neg] at hq
    · exact List.takeWhile_subset _ hq
    · intro hlen
      -- otherwise the push would not be part of it
      have hall := (List.takeWhile_prefix _).eq_of_length hlen
      rw [← hall] at hr
      have hne := List.mem_takeWhile_imp hr
      exact of_decide_eq_true hne rfl
  cases hopens _ hin

/-- The posted close adds to what has been recorded since. -/
theorem sincePush_started {r : Ref} {l : Level} {q : Handler} {hist : List Event} :
    sincePush r l (.started q :: hist) = .started q :: sincePush r l hist := rfl

variable {p : Persisted} {now : Nat} {c : Machine}

/-- **Unbinding is never orderly.** In every run, as long as the process goes on: once the peer's unbind
request has been processed, the socket may be closed before the response to it has been written; and
while the close that `close_session` posted waits, and the unbind request has not been both written and
answered, the socket may be closed before that. -/
theorem unbind_is_not_orderly (h : Runs cfg Guard.free p now c) (hio : c.Idle .io)
    (hfault : c.shared.fault = none) :
    (∀ rc, reception? c.shared.hist = some rc → rc.rawpdu.Unbinds rc.state →
      ∃ r, .pushed r .RESPONSE ∈ rc.since ∧ (c.shared.pdu r).commandId = .UnbindResp ∧
        ¬c.ClosesOnlyAfter cfg fun s => s.WriteDone r .RESPONSE) ∧
      ∀ r, .pushed r .SESSION ∈ c.shared.hist → (c.shared.pdu r).commandId = .Unbind →
        c.shared.Closing → ¬c.shared.UnbindDone r →
          ¬c.ClosesOnlyAfter cfg fun s => s.UnbindDone r := by
  refine ⟨fun rc hrc hraw => ?_, fun r hr _ hclosing hnot => ?_⟩
  · obtain ⟨hclosing, r, hr, hkind⟩ := (h.outcome hio rc hrc).2 hraw
    refine ⟨r, hr, hkind, not_closesOnlyAfter hio hfault hclosing fun s hhist _ hdone => ?_⟩
    unfold Session.WriteDone at hdone
    rw [hhist, sincePush_started, List.mem_cons] at hdone
    exact started_not_mem_sincePush hrc hr (hdone.resolve_left (by simp))
  · refine not_closesOnlyAfter hio hfault hclosing fun s hhist hheap hdone => hnot ?_
    obtain ⟨hwritten, hanswered⟩ := hdone
    unfold Session.WriteDone at hwritten
    unfold Session.pdu at hanswered
    rw [hhist, sincePush_started, List.mem_cons] at hwritten hanswered
    rw [hheap] at hanswered
    exact ⟨hwritten.resolve_left (by simp), hanswered.resolve_left (by simp)⟩

/-- The peer's unbind request arrives, and is processed. -/
def unbindArrives : List Step :=
  Schedule.bind ++ .env (.elapse 1000000) ::
    Schedule.receive ⟨16, CommandId.Unbind.value, ESME_ROK, 9, [], true⟩

/-- When the peer unbinds, the connection may be closed before the `unbind_resp` has been written.
-/
theorem unbind_is_not_orderly_peer :
    ∃ r, ((Machine.after sampleParams .none unbindArrives).shared.pdu r).commandId = .UnbindResp ∧
      ¬(Machine.after sampleParams .none unbindArrives).ClosesOnlyAfter sampleParams
        fun s => s.WriteDone r .RESPONSE := by
  obtain ⟨r, -, hr⟩ := (unbind_is_not_orderly (runs_after sampleParams .none unbindArrives)
    (by decide +kernel) (by decide +kernel)).1
    ⟨⟨16, CommandId.Unbind.value, ESME_ROK, 9, [], true⟩, .BOUND_TRX,
      (Machine.after sampleParams .none unbindArrives).shared.hist.take 3⟩
    (by decide +kernel) (by decide +kernel)
  exact ⟨r, hr⟩

/-- `stop()` unbinds a bound session. -/
def stopUnbinds : List Step :=
  Schedule.bind ++ .env (.elapse 1000000) :: .start .stop :: Schedule.turn .stopper 40

/-- After the peer's unbind the socket may be closed before the response, PDU `1`, has been written; and
after an unbind of its own, before the request has been written and answered. -/
theorem closes_before_written :
    (let c := Machine.after sampleParams .none unbindArrives
     .mark (.received ⟨16, CommandId.Unbind.value, ESME_ROK, 9, [], true⟩ .BOUND_TRX) ∈
        c.shared.hist ∧
      (c.shared.pdu 1).commandId = .UnbindResp ∧
      ¬c.ClosesOnlyAfter sampleParams fun s => s.WriteDone 1 .RESPONSE) ∧
    let c := Machine.after sampleParams .none stopUnbinds
    (c.shared.pdu 1).commandId = .Unbind ∧
      ¬c.ClosesOnlyAfter sampleParams fun s => s.UnbindDone 1 := by
  refine ⟨⟨by decide +kernel, by decide +kernel, ?_⟩, by decide +kernel, ?_⟩
  · refine not_closesOnlyAfter (by decide +kernel) (by decide +kernel) (by decide +kernel) ?_
    intro s hhist _ hdone
    unfold Session.WriteDone at hdone
    rw [hhist] at hdone
    exact absurd hdone (by decide +kernel)
  · refine not_closesOnlyAfter (by decide +kernel) (by decide +kernel) (by decide +kernel) ?_
    intro s hhist _ hdone
    have hdone := hdone.1
    unfold Session.WriteDone at hdone
    rw [hhist] at hdone
    exact absurd hdone (by decide +kernel)

end KissSmpp
