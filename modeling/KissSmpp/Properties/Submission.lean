import KissSmpp.Interleave.OneThread
import KissSmpp.Session.Calls

/-! # From the sending buffer to the session

`sendingProcessor` takes a PDU out of the sending buffer before it knows whether the session can take
it, and `send_pdu` has no way to say that it did not: without a bind for transmission the PDU goes
nowhere. Where the session is always bound for transmission when it is asked (`boundForSending`), no
submitted message is lost on this way. -/

namespace KissSmpp

open Interleave Queue

variable {cfg : Params} {t : Tid} {s s' : Session}

/-- **`sendingProcessor` only calls on a session that may transmit**: `send_pdu` finds it bound as a
transmitter or a transceiver. -/
def boundForSending : Guard Op Tid Session Job where
  op t op s :=
    t = .sender → op = .getState → s.currentState = .BOUND_TX ∨ s.currentState = .BOUND_TRX
  job _ _ := True

/-- The guard can be evaluated. -/
instance : boundForSending.Checkable where
  op t op s := inferInstanceAs (Decidable
    (t = .sender → op = .getState → s.currentState = .BOUND_TX ∨ s.currentState = .BOUND_TRX))
  job _ _ := inferInstanceAs (Decidable True)

namespace Session

/-- **The submitted PDU `r` is still there**: in the sending buffer, in the hands of
`sendingProcessor`, or it has been pushed on the transmit queue. -/
def Kept (s : Session) (r : Ref) : Prop :=
  r ∈ s.sendingBuffer ∨ s.inHand .sender = some r ∨ ∃ l, .pushed r l ∈ s.hist

/-- `sendingProcessor` has no `submit_sm` in hand. -/
def HandedOver (s : Session) : Prop :=
  ∀ q, s.inHand .sender = some q → (s.pdu q).commandId ≠ .SubmitSm

end Session

open Session

/-! ## `sendingProcessor` hands over -/

/-- **The contract on `sendingProcessor`**: it takes the next PDU only with empty hands, and lets go
of a `submit_sm` only by pushing it. -/
def submission (cfg : Params) : Focus (system cfg) where
  thread := .sender
  guard := boundForSending.also (discipline cfg)
  inv := Inv
  fact op s :=
    (op = .sendPop → s.inHand .sender = none) ∧ (op = .sendDone → s.HandedOver)
  rely s s' := s'.inHand .sender = s.inHand .sender ∧ s.heap.length ≤ s'.heap.length ∧
    ∀ q, q < s.heap.length → (s'.pdu q).commandId = (s.pdu q).commandId
  idle s := s.inHand .sender = none
  rely_refl _ := ⟨rfl, Nat.le_refl _, fun _ _ => rfl⟩
  rely_trans _ _ _ h h' :=
    ⟨h'.1.trans h.1, Nat.le_trans h.2.1 h'.2.1, fun q hq =>
      (h'.2.2 q (Nat.lt_of_lt_of_le hq h.2.1)).trans (h.2.2 q hq)⟩

/-- Other operations need no facts. -/
theorem fact_of_ne {op : Op} (hpop : op ≠ .sendPop) (hdone : op ≠ .sendDone) :
    (submission cfg).fact op s :=
  ⟨fun h => absurd h hpop, fun h => absurd h hdone⟩

/-- What the other threads do is a step of the focus on the sending thread. -/
theorem steps_submission : (submission cfg).Steps where
  op t op s r hi hg hx := by
    obtain ⟨-, hx⟩ := perform_of_exec hx
    obtain ⟨-, -, -, hk⟩ := hg
    exact ⟨inv_perform hx hk hi, fun ht => ⟨(perform_local hx (Ne.symm ht)).2.1, heap_perform hx,
      fun q hq => commandId_perform hx hq⟩⟩
  env e s s' hi hx :=
    ⟨inv_env hx hi, congrFun (env_same (f := .inHand) hx (by simp)) _, (pdu_env hx).1,
      fun q hq => congrArg _ ((pdu_env hx).2 q hq)⟩
  take j s s' hi hg hx := by
    exact ⟨inv_take hx hg.2.2 hi, fun _ => ⟨congrFun (take_same (f := .inHand) hx (by simp)) _,
      (pdu_take hx).1, fun q _ => congrArg _ ((pdu_take hx).2 q)⟩⟩

/-- What is in the hand of `sendingProcessor` stays there. -/
theorem stable_hand {o : Option Ref} :
    (submission cfg).contract.Stable .sender fun s => s.inHand .sender = o :=
  Focus.stable fun _ _ _ _ hr hP => hr.1.trans hP

/-- The PDU in the hand of `sendingProcessor` keeps its kind, whatever the other threads do. -/
theorem stable_hand_kind {q : Ref} {c : CommandId} : (submission cfg).contract.Stable .sender
    fun s => s.inHand .sender = some q ∧ (s.pdu q).commandId = c :=
  Focus.stable fun _ _ hi _ hr hP =>
    ⟨hr.1.trans hP.1, (hr.2.2 q (hi.fresh q (.inl ⟨.sender, hP.1⟩))).trans hP.2⟩

/-- That a PDU has been handed over is stable under the other threads. -/
theorem stable_handedOver : (submission cfg).contract.Stable .sender HandedOver := by
  refine Focus.stable fun s s' hi _ hr hP q hq => ?_
  have hq : s.inHand .sender = some q := hr.1 ▸ hq
  rw [hr.2.2 q (hi.fresh q (.inl ⟨.sender, hq⟩))]
  exact hP q hq

/-- Code that leaves the hands alone. -/
theorem triple_hand {α : Type} {p : Code α} {o : Option Ref}
    (hp : p.Uses fun op => Field.inHand ∉ op.writes) :
    (submission cfg).contract.Triple .sender (fun s => s.inHand .sender = o) p
      fun _ s => s.inHand .sender = o := by
  refine Focus.Steps.triple_uses steps_submission hp stable_hand fun op s r hop _ hP _ hx => ?_
  obtain ⟨-, hx⟩ := perform_of_exec hx
  have hin : r.2.inHand = s.inHand := perform_same (f := .inHand) hx hop
  refine ⟨fact_of_ne (fun h => ?_) fun h => ?_, (congrFun hin _).trans hP⟩
  · subst h
    simp at hop
  · subst h
    simp at hop

/-- `do_write` takes the PDU out of the hand. -/
theorem triple_doWrite_hand {q : Ref} {l : Level} : (submission cfg).contract.Triple .sender
    (fun s => s.inHand .sender = some q) (doWrite cfg q l) fun _ s => s.inHand .sender = none := by
  unfold doWrite
  refine (triple_hand (uses_call (by simp))).bind fun _ => ?_
  have hwriting : writing.Uses fun op => Field.inHand ∉ op.writes :=
    (uses_call (by simp)).bind fun _ => Prog.uses_ret
  refine (triple_hand hwriting).bind fun busy => ?_
  refine Contract.Triple.bind (Q := fun _ s => s.inHand .sender = none) ?_ fun _ => ?_
  · refine Focus.Steps.triple_op steps_submission stable_hand (fun _ => stable_hand)
      fun s r _ _ _ hx => ?_
    obtain ⟨-, hx⟩ := perform_of_exec hx
    cases hx
    have hin : Function.update s.inHand .sender none .sender = none := Function.update_self ..
    exact ⟨fact_of_ne (by simp) (by simp), hin⟩
  · have hwrite : (writePdu cfg).Uses fun op => Field.inHand ∉ op.writes :=
      ofWritePdu_writePdu.mono fun op hop => by
        cases op <;> first | simp; done | simp [Op.ofWritePdu] at hop
    exact triple_hand (hwrite.when.bind fun _ => uses_call (by simp))

/-- `send_pdu` pushes a `submit_sm` if it finds the session bound for transmission. -/
theorem triple_sendPdu_hand {q : Ref} : (submission cfg).contract.Triple .sender
    (fun s => s.inHand .sender = some q) (sendPdu cfg q) fun _ => HandedOver := by
  have hwrite : ∀ c, (submission cfg).contract.Triple .sender
      (fun s => s.inHand .sender = some q ∧ (s.pdu q).commandId = c) (doWrite cfg q .MESSAGE)
      fun _ => HandedOver := fun c =>
    triple_doWrite_hand.conseq (fun _ _ hs => hs.1) fun _ s _ hs r hr => by
      rw [hs] at hr
      cases hr
  -- what is not written is no message
  have hskip : ∀ c, c ≠ .SubmitSm → (submission cfg).contract.Triple .sender
      (fun s => s.inHand .sender = some q ∧ (s.pdu q).commandId = c) (.ret ())
      fun _ => HandedOver := by
    intro c hc
    refine (Contract.Triple.ret (Q := fun _ => HandedOver) stable_handedOver).pre ?_
    intro s _ hs r hr
    rw [hs.1, Option.some.injEq] at hr
    rw [← hr, hs.2]
    exact hc
  have hget : (submission cfg).contract.Triple .sender (fun s => s.inHand .sender = some q)
      (call (.getPdu q)) fun p s => s.inHand .sender = some q ∧ (s.pdu q).commandId = p.commandId := by
    refine Focus.Steps.triple_op steps_submission stable_hand (fun _ => stable_hand_kind)
      fun s r _ hs _ hx => ?_
    obtain ⟨-, hx⟩ := perform_of_exec hx
    cases hx
    exact ⟨fact_of_ne (by simp) (by simp), hs, rfl⟩
  unfold sendPdu
  -- the guard leaves only the two states in which the session transmits
  refine Contract.Triple.bind (Q := fun st s => s.inHand .sender = some q ∧
    (st = .BOUND_TX ∨ st = .BOUND_TRX)) ?_ fun st => ?_
  · refine Focus.Steps.triple_op steps_submission stable_hand (fun _ => stable_hand.and .const)
      fun s r _ hs hg hx => ?_
    obtain ⟨-, hx⟩ := perform_of_exec hx
    cases hx
    exact ⟨fact_of_ne (by simp) (by simp), hs, hg.1 rfl rfl⟩
  cases st with
  | BOUND_TX =>
      refine Contract.Triple.bind (hget.pre fun _ _ hs => hs.1) fun p => ?_
      split
      all_goals first | exact hwrite _ | exact hskip _ (by assumption)
  | BOUND_TRX =>
      refine Contract.Triple.bind (hget.pre fun _ _ hs => hs.1) fun p => ?_
      split
      all_goals first | exact hwrite _ | exact hskip _ (by assumption)
  | _ =>
      intro s _ hs
      rcases hs.2 with h | h
      · cases h
      · cases h

/-- **One turn of `sendingProcessor`** begins and ends with empty hands. -/
theorem triple_sendingProcessor_hand : (submission cfg).contract.Triple .sender
    (fun s => s.inHand .sender = none) (sendingProcessor cfg) fun _ s => s.inHand .sender = none := by
  unfold sendingProcessor
  refine (triple_hand (uses_call (by simp))).bind fun empty => ?_
  split
  · exact triple_hand ((uses_call (by simp)).bind fun _ =>
      uses_call (by simp))
  -- from the pop on the message is in the hand of the sender
  refine Contract.Triple.bind (Q := fun o s => s.inHand .sender = o) ?_ fun o => ?_
  · refine Focus.Steps.triple_op steps_submission stable_hand (fun _ => stable_hand)
      fun s r _ hs _ hx => ?_
    obtain ⟨-, hx⟩ := perform_of_exec hx
    cases hx
    have hin : Function.update s.inHand .sender s.sendingBuffer.head? .sender =
        s.sendingBuffer.head? := Function.update_self ..
    refine ⟨⟨fun _ => hs, fun h => ?_⟩, hin⟩
    cases h
  cases o with
  | none => exact triple_hand Prog.uses_ret
  | some q =>
      refine triple_sendPdu_hand.bind fun _ => ?_
      refine Focus.Steps.triple_op steps_submission stable_handedOver (fun _ => stable_hand)
        fun s r _ hs _ hx => ?_
      obtain ⟨-, hx⟩ := perform_of_exec hx
      cases hx
      have hin : Function.update s.inHand .sender none .sender = none := Function.update_self ..
      refine ⟨⟨fun h => ?_, fun _ => hs⟩, hin⟩
      cases h

variable {p : Persisted} {now : Nat} {c : Machine}

/-- **The focus on submissions is sound**: the other threads leave the PDU in hand alone. -/
theorem submission_sound (cfg : Params) (p : Persisted) (now : Nat) :
    (submission cfg).contract.Sound (Machine.init p now) := by
  refine Focus.Steps.sound steps_submission (inv_init p now) ⟨(), rfl⟩ rfl stable_hand ?_
  intro j s s' hj hi hidle hg hx
  cases j with
  | handler h => cases hj
  | receive => cases hj
  | stop => cases hj
  | send =>
      cases hx
      exact triple_sendingProcessor_hand s hi hidle

/-! ## Nothing is lost -/

namespace Session

/-- What a run keeps: every submitted PDU is a `submit_sm`, and still there. -/
structure Submitted (s : Session) : Prop where
  kind : ∀ r, .submitted r ∈ s.hist → r < s.heap.length ∧ (s.pdu r).commandId = .SubmitSm
  kept : ∀ r, .submitted r ∈ s.hist → s.Kept r

end Session

/-- Only `SendHandler::run` submits. -/
theorem submitted_perform {op : Op} {x : op.Res × Session} (h : perform cfg t op s = some x) {r : Ref}
    (hr : .submitted r ∈ x.2.hist) : .submitted r ∈ s.hist := by
  rw [perform_hist h, List.mem_append] at hr
  refine hr.resolve_left fun hr => ?_
  cases op <;> simp at hr

/-- **Every operation keeps a submitted message**, given the facts of the contract. -/
theorem kept_perform {op : Op} {x : op.Res × Session} (hm : op.mayRun t = true) (hk : Known t op s)
    (hf : t = .sender → (submission cfg).fact op s) (h : perform cfg t op s = some x) {r : Ref}
    (hkind : (s.pdu r).commandId = .SubmitSm) (hr : s.Kept r) : x.2.Kept r := by
  have hlog : ∀ e, e ∈ s.hist → e ∈ x.2.hist := fun e => mem_hist_perform h
  -- in the buffer, in the hand of the sender, or pushed
  rcases hr with hr | hr | ⟨l, hl⟩
  · rcases sendingBuffer_perform h with ⟨hbuf, -⟩ | ⟨hbuf, rfl⟩
    · exact .inl (hbuf ▸ hr)
    · -- the head goes into the hands of the sender
      have ht : t = .sender := Op.sender_of_mayRun hm rfl
      subst ht
      cases hs : s.sendingBuffer with
      | nil => rw [hs] at hr; cases hr
      | cons a l =>
          rw [hs] at hr
          rcases List.mem_cons.mp hr with rfl | hr
          · refine .inr (.inl ?_)
            cases h
            show Function.update s.inHand .sender s.sendingBuffer.head? .sender = some r
            rw [Function.update_self, hs]
            rfl
          · refine .inl ?_
            rw [hbuf, hs]
            exact hr
  · by_cases ht : t = .sender
    · subst ht
      by_cases hw : Field.inHand ∈ op.writes
      · cases op with
        | txPush q l =>
            -- it is this PDU that is pushed
            have hq : s.inHand .sender = some q := hk.2.resolve_right fun hk => by cases hk.1
            rw [hr, Option.some.injEq] at hq
            subst hq
            cases h
            exact .inr (.inr ⟨l, List.mem_cons_self⟩)
        | newPdu p =>
            rcases Op.closer_of_mayRun hm rfl with ht | ht
            · cases ht
            · cases ht
        | sendPop =>
            have hnone := (hf rfl).1 rfl
            rw [hr] at hnone
            cases hnone
        | sendDone => exact absurd hkind ((hf rfl).2 rfl r hr)
        | _ => simp at hw
      · have hin : x.2.inHand = s.inHand := perform_same (f := .inHand) h hw
        exact .inr (.inl ((congrFun hin _).trans hr))
    · exact .inr (.inl ((perform_local h (Ne.symm ht)).2.1.trans hr))
  · exact .inr (.inr ⟨l, hlog _ hl⟩)

/-- The environment takes nothing away. -/
theorem kept_env {e : Env} (h : e.perform cfg s = some s') {r : Ref} (hr : s.Kept r) : s'.Kept r := by
  have hin : s'.inHand = s.inHand := env_same (f := .inHand) h (by simp)
  rcases hr with hr | hr | ⟨l, hl⟩
  · refine .inl ?_
    cases e with
    | submit body => cases h; exact List.mem_append_left _ hr
    | complete io raw er =>
        obtain ⟨-, rfl⟩ := Env.perform_complete h
        unfold Session.connectDone
        split <;> exact hr
    | expire tm =>
        obtain ⟨-, rfl⟩ := Env.perform_expire h
        exact hr
    | elapse us => cases h; exact hr
    | reply a => cases h; exact hr
  · exact .inr (.inl ((congrFun hin _).trans hr))
  · exact .inr (.inr ⟨l, mem_hist_env h hl⟩)

/-- A recorded submission is an earlier one, or has just been made. -/
theorem submitted_env {e : Env} (h : e.perform cfg s = some s') {r : Ref}
    (hr : .submitted r ∈ s'.hist) :
    .submitted r ∈ s.hist ∨
      (r ∈ s'.sendingBuffer ∧ r < s'.heap.length ∧ (s'.pdu r).commandId = .SubmitSm) := by
  rw [env_hist h, List.mem_append] at hr
  refine hr.symm.imp_right fun hr => ?_
  cases e with
  | submit body =>
      cases h
      simp only [Env.logs, List.mem_singleton, Event.submitted.injEq] at hr
      subst hr
      exact ⟨List.mem_append_right _ (List.mem_singleton.mpr rfl), by simp [Session.record],
        by simp [Session.pdu, Session.record]⟩
  | complete io raw er => cases io <;> cases er <;> simp [Env.logs] at hr
  | _ => simp [Env.logs] at hr

/-- Every submitted message is kept in every run in which the session is bound when it is asked. -/
theorem Runs.submitted (h : Runs cfg boundForSending p now c) : c.shared.Submitted := by
  refine Runs.dataAlso (submission_sound cfg p now) rfl h ?_ ?_ ?_ ?_
  · exact ⟨fun r hr => by simp [Session.init] at hr, fun r hr => by simp [Session.init] at hr⟩
  -- an operation submits nothing, and keeps what has been submitted
  · intro t op s x _ hK _ hm hk hf hx
    refine ⟨fun r hr => ?_, fun r hr => ?_⟩
    · obtain ⟨hlt, hc⟩ := hK.kind r (submitted_perform hx hr)
      exact ⟨Nat.lt_of_lt_of_le hlt (heap_perform hx), (commandId_perform hx hlt).trans hc⟩
    · have hr := submitted_perform hx hr
      exact kept_perform hm hk hf hx (hK.kind r hr).2 (hK.kept r hr)
  -- the application's call is the environment's: it puts the new PDU into the sending buffer
  · intro e s s' _ hK hx
    refine ⟨fun r hr => ?_, fun r hr => ?_⟩
    · rcases submitted_env hx hr with hr | ⟨-, hlt, hc⟩
      · obtain ⟨hlt, hc⟩ := hK.kind r hr
        rw [(pdu_env hx).2 r hlt]
        exact ⟨Nat.lt_of_lt_of_le hlt (pdu_env hx).1, hc⟩
      · exact ⟨hlt, hc⟩
    · rcases submitted_env hx hr with hr | ⟨hbuf, -, -⟩
      · exact kept_env hx (hK.kept r hr)
      · exact .inl hbuf
  -- the start of a job touches neither the hands nor the buffer
  · intro j s s' _ _ hK _ hx
    have hin : s'.inHand = s.inHand := take_same (f := .inHand) hx (by simp)
    have hbuf : s'.sendingBuffer = s.sendingBuffer := take_same (f := .sendingBuffer) hx (by simp)
    have hold : ∀ r, .submitted r ∈ s'.hist → .submitted r ∈ s.hist :=
      fun r hr => mem_hist_of_take hx hr (by simp) (by simp)
    refine ⟨fun r hr => ?_, fun r hr => ?_⟩
    · obtain ⟨hlt, hc⟩ := hK.kind r (hold r hr)
      rw [(pdu_take hx).2 r]
      exact ⟨Nat.lt_of_lt_of_le hlt (pdu_take hx).1, hc⟩
    · unfold Session.Kept
      rw [hin, hbuf, take_hist hx]
      exact (hK.kept r (hold r hr)).imp_right
        (.imp_right (Exists.imp fun l hl => List.mem_append_right _ hl))

/-- **No message is lost before the session has it**, in every run in which `send_pdu` finds the
session bound for transmission whenever `sendingProcessor` calls it. -/
theorem submission_not_lost (h : Runs cfg boundForSending p now c) {r : Ref}
    (hr : .submitted r ∈ c.shared.hist) : c.shared.Kept r :=
  h.submitted.kept r hr

/-- A message sent by a bound session. -/
theorem submission_not_lost_first_send :
    (Machine.after sampleParams .none (Schedule.bind ++ Schedule.send)).shared.Kept 1 :=
  submission_not_lost (runs_under (g := boundForSending) (by decide +kernel))
    (by decide +kernel)

/-- Without the condition a message is lost: it is sent while the connection is being established. -/
theorem sent_before_connect_lost : ¬∀ (cfg : Params) (p : Persisted) (now : Nat) (c : Machine),
    Runs cfg Guard.free p now c → ∀ r, .submitted r ∈ c.shared.hist → c.shared.Kept r := by
  intro h
  have hkept := h _ _ _ _ (runs_after sampleParams .none Schedule.send) 0 (by decide +kernel)
  rcases hkept with hbuf | hhand | ⟨l, hl⟩
  · exact absurd hbuf (by decide +kernel)
  · exact absurd hhand (by decide +kernel)
  · have hnone : ∀ l, .pushed 0 l ∉ (Machine.after sampleParams .none Schedule.send).shared.hist := by
      intro l
      cases l <;> decide +kernel
    exact hnone l hl

end KissSmpp
