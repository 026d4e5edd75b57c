import KissSmpp.Interleave.OneThread
import KissSmpp.Session.Calls

/-! # What a received PDU has led to

The record shows which PDU the handler the io thread ran last has received, and what has happened
since. A message that cannot be decoded is not answered, and the session is closed to be reconnected;
an unbind request is answered, and the close is posted in the same handler. -/

namespace KissSmpp

open Interleave

variable {cfg : Params} {t : Tid} {s s' : Session}

/-! ## The reception on record -/

/-- **The reception of a PDU**: the PDU, the state in which it was received, and what has been recorded
since, the latest first. -/
structure Reception where
  rawpdu : RawPdu
  state : State
  since : List Event
  deriving DecidableEq

/-- The reception in the handler the io thread ran last, if it received a PDU. -/
def reception? : List Event → Option Reception
  | [] => none
  | .started _ :: _ => none
  | .mark (.received raw st) :: _ => some ⟨raw, st, []⟩
  | ev :: l => (reception? l).map fun rc => { rc with since := ev :: rc.since }

/-- The events that end what has been recorded since a reception. -/
def Event.opens : Event → Bool
  | .started _ | .mark (.received _ _) => true
  | _ => false

/-- Events that open nothing are put to what has happened since the reception. -/
theorem reception?_append {logs l : List Event} (hlogs : ∀ ev ∈ logs, ev.opens = false) :
    reception? (logs ++ l) =
      (reception? l).map fun rc => { rc with since := logs ++ rc.since } := by
  induction logs with
  | nil => exact Option.map_id'.symm
  | cons ev logs ih =>
      have hev := hlogs ev List.mem_cons_self
      have ih := ih fun ev hev => hlogs ev (List.mem_cons_of_mem _ hev)
      have hcons : reception? (ev :: (logs ++ l)) =
          (reception? (logs ++ l)).map fun rc => { rc with since := ev :: rc.since } := by
        cases ev with
        | started h => cases hev
        | mark m => cases m <;> first | rfl | cases hev
        | _ => rfl
      rw [List.cons_append, hcons, ih, Option.map_map]
      rfl

/-- What has been recorded since a reception is the latest part of the record, and lies in one
handler. -/
theorem reception?_eq_some {l : List Event} {rc : Reception} (h : reception? l = some rc) :
    (∃ older, l = rc.since ++ .mark (.received rc.rawpdu rc.state) :: older) ∧
      ∀ ev ∈ rc.since, ev.opens = false := by
  induction l generalizing rc with
  | nil => cases h
  | cons ev l ih =>
      have hcons : ev.opens = false →
          reception? (ev :: l) = (reception? l).map (fun rc => { rc with since := ev :: rc.since }) →
          (∃ older, ev :: l = rc.since ++ .mark (.received rc.rawpdu rc.state) :: older) ∧
            ∀ ev ∈ rc.since, ev.opens = false := by
        intro hev heq
        rw [heq, Option.map_eq_some_iff] at h
        obtain ⟨rc', hrc, rfl⟩ := h
        obtain ⟨⟨older, hl⟩, hopens⟩ := ih hrc
        refine ⟨⟨older, by rw [List.cons_append, ← hl]⟩, fun ev' hev' => ?_⟩
        rcases List.mem_cons.mp hev' with rfl | hev'
        · exact hev
        · exact hopens ev' hev'
      cases ev with
      | started h' => cases h
      | mark m =>
          cases m with
          | received raw st =>
              cases h
              exact ⟨⟨l, rfl⟩, fun _ hev => absurd hev List.not_mem_nil⟩
          | _ => exact hcons rfl rfl
      | _ => exact hcons rfl rfl

namespace Session

/-- What the record says of the state: every object on record exists, and a session is told to stop by
a call of `stop`. -/
structure Recorded (s : Session) : Prop where
  constructed : ∀ r, .constructed r ∈ s.hist → r < s.heap.length
  stopped : s.stopFlag = true → .stopCalled ∈ s.hist

/-- Nothing that answers the PDU has been constructed since, or queued. -/
def Unanswered (s : Session) (rc : Reception) : Prop :=
  (∀ r, .constructed r ∈ rc.since → (s.pdu r).commandId = .Unbind) ∧
    ∀ r, .pushed r .RESPONSE ∉ rc.since

/-- The close is posted. -/
def Closing (s : Session) : Prop := .closeConnection ∈ s.ready

/-- Whether the session is closing can be read off what is ready to run. -/
instance (s : Session) : Decidable s.Closing := inferInstanceAs (Decidable (_ ∈ s.ready))

/-- The session is to be reconnected, unless it was told to stop. -/
def Reconnects (s : Session) : Prop := s.reconnectFlag = true ∨ .stopCalled ∈ s.hist

/-- A response to an unbind request has been queued since. -/
def UnbindAnswered (s : Session) (rc : Reception) : Prop :=
  ∃ r, .pushed r .RESPONSE ∈ rc.since ∧ (s.pdu r).commandId = .UnbindResp

/-- What is left of the session when a PDU could not be decoded. -/
structure Rejected (s : Session) (rc : Reception) : Prop where
  unanswered : s.Unanswered rc
  closing : s.Closing
  reconnects : s.Reconnects

/-- What is left of the session when the peer has unbound. -/
structure PeerUnbound (s : Session) (rc : Reception) : Prop where
  closing : s.Closing
  answered : s.UnbindAnswered rc

end Session

/-- A message that is processed in the state `st`, and cannot be decoded. -/
def RawPdu.Undecodable (raw : RawPdu) (st : State) : Prop :=
  CommandId.ofValue raw.cmdId = .DeliverSm ∧ raw.decodes = false ∧ (st = .BOUND_RX ∨ st = .BOUND_TRX)

/-- An unbind request in a bound state. -/
def RawPdu.Unbinds (raw : RawPdu) (st : State) : Prop :=
  CommandId.ofValue raw.cmdId = .Unbind ∧ raw.decodes = true ∧ st.isBound = true

/-- Whether a PDU fails to be decoded is decidable. -/
instance (raw : RawPdu) (st : State) : Decidable (raw.Undecodable st) :=
  inferInstanceAs (Decidable (_ ∧ _ ∧ _))

/-- Whether a PDU unbinds the session is decidable. -/
instance (raw : RawPdu) (st : State) : Decidable (raw.Unbinds st) :=
  inferInstanceAs (Decidable (_ ∧ _ ∧ _))

/-- **What the reception has led to**, once its handler is done. -/
def Session.Outcome (s : Session) : Prop :=
  ∀ rc, reception? s.hist = some rc →
    (rc.rawpdu.Undecodable rc.state → s.Rejected rc) ∧
      (rc.rawpdu.Unbinds rc.state → s.PeerUnbound rc)

open Session

/-! ## What others record -/

/-- An event that has to do with no reception: not part of one, and no answer. -/
def Event.Aside (s : Session) : Event → Prop
  | .started _ | .mark (.received _ _) => False
  | .constructed r => r < s.heap.length ∧ (s.pdu r).commandId = .Unbind
  | .pushed _ l => l ≠ .RESPONSE
  | _ => True

/-- What lies between the two states has to do with no reception. -/
structure Session.Aside (s s' : Session) : Prop where
  hist : ∃ logs, s'.hist = logs ++ s.hist ∧ ∀ ev ∈ logs, ev.Aside s'
  heap : s.heap.length ≤ s'.heap.length
  kind : ∀ r, r < s.heap.length → (s'.pdu r).commandId = (s.pdu r).commandId

/-- An event aside is not the reception of a PDU. -/
theorem Event.Aside.opens {ev : Event} (h : ev.Aside s) : ev.opens = false := by
  cases ev with
  | started h' => exact h.elim
  | mark m => cases m <;> first | rfl | exact h.elim
  | _ => rfl

/-- What is aside now is aside after further steps aside. -/
theorem Event.Aside.later {ev : Event} (h : ev.Aside s) (hs : s.Aside s') : ev.Aside s' := by
  cases ev with
  | constructed r => exact ⟨Nat.lt_of_lt_of_le h.1 hs.heap, (hs.kind r h.1).trans h.2⟩
  | mark m => cases m <;> exact h
  | _ => exact h

/-- A session that has not moved has moved aside. -/
theorem Session.Aside.refl (s : Session) : s.Aside s :=
  ⟨⟨[], rfl, fun _ hev => absurd hev List.not_mem_nil⟩, Nat.le_refl _, fun _ _ => rfl⟩

/-- Two stretches aside are one. -/
theorem Session.Aside.trans {s₁ s₂ s₃ : Session} (h : s₁.Aside s₂) (h' : s₂.Aside s₃) :
    s₁.Aside s₃ := by
  obtain ⟨logs, hlogs, haside⟩ := h.hist
  obtain ⟨logs', hlogs', haside'⟩ := h'.hist
  refine ⟨⟨logs' ++ logs, ?_, fun ev hev => ?_⟩, Nat.le_trans h.heap h'.heap, fun r hr => ?_⟩
  · rw [hlogs', hlogs, List.append_assoc]
  · rcases List.mem_append.mp hev with hev | hev
    · exact haside' ev hev
    · exact (haside ev hev).later h'
  · exact (h'.kind r (Nat.lt_of_lt_of_le hr h.heap)).trans (h.kind r hr)

/-- The record since the reception has grown by that. -/
theorem Session.Aside.reception? (h : s.Aside s') {rc : Reception}
    (hrc : KissSmpp.reception? s'.hist = some rc) : ∃ rc' logs,
      KissSmpp.reception? s.hist = some rc' ∧ rc = { rc' with since := logs ++ rc'.since } ∧
        ∀ ev ∈ logs, ev.Aside s' := by
  obtain ⟨logs, hlogs, haside⟩ := h.hist
  rw [hlogs, reception?_append fun ev hev => (haside ev hev).opens, Option.map_eq_some_iff] at hrc
  obtain ⟨rc', hrc', rfl⟩ := hrc
  exact ⟨rc', logs, hrc', rfl, haside⟩

/-! ## What an operation adds to it -/

/-- The operations that have to do with no reception. -/
def Op.aside : Op → Bool
  | .newPdu p => p.commandId == .Unbind
  | .txPush _ l => l != .RESPONSE
  | .note (.received _ _) => false
  | _ => true

/-- An operation that has to do with no reception adds nothing about one to the record. -/
theorem aside_perform {op : Op} {x : op.Res × Session} (h : perform cfg t op s = some x)
    (hop : op.aside = true) : s.Aside x.2 := by
  refine ⟨⟨op.logs s, perform_hist h, fun ev hev => ?_⟩, heap_perform h,
    fun r hr => commandId_perform h hr⟩
  cases op <;> simp at hev <;> subst hev
  case newPdu p =>
    have hp : p.commandId = .Unbind := eq_of_beq hop
    cases h
    refine ⟨by simp [Session.record], ?_⟩
    simpa [Session.pdu, Session.record] using hp
  case txPush r l => exact bne_iff_ne.mp hop
  case note m => cases m <;> trivial
  all_goals trivial

/-- The environment moves aside of the io thread. -/
theorem aside_env {e : Env} (h : e.perform cfg s = some s') : s.Aside s' := by
  obtain ⟨hheap, hpdu⟩ := pdu_env h
  refine ⟨⟨e.logs s, env_hist h, fun ev hev => ?_⟩, hheap, fun r hr => by rw [hpdu r hr]⟩
  rcases mem_env_logs hev with rfl | rfl
  · trivial
  · trivial

/-- A job that another thread starts is aside of the io thread. -/
theorem aside_take {j : Job} (h : j.take s = some s') (hj : j.thread ≠ .io) : s.Aside s' := by
  refine ⟨⟨j.logs, take_hist h, fun ev hev => ?_⟩, (pdu_take h).1, fun r _ => by rw [(pdu_take h).2 r]⟩
  cases j with
  | handler q => exact absurd rfl hj
  | send => cases hev
  | receive => cases hev
  | stop =>
      rw [List.mem_singleton.mp hev]
      trivial

/-- The other threads' operations are all of that kind. -/
theorem aside_of_inJob {op : Op} (h : s.InJob t op) (ht : t ≠ .io) : op.aside = true := by
  obtain ⟨j, hj, hop, -⟩ := h
  cases j with
  | handler q => exact absurd hj.symm ht
  | send =>
      change op.ofSending = true at hop
      cases op <;> first | rfl | cases hop | skip
      case txPush r l =>
        have hl : l = .MESSAGE := eq_of_beq hop
        rw [hl]
        rfl
  | receive =>
      change op.ofReceiving = true at hop
      cases op <;> first | rfl | cases hop | skip
      case note m => cases m <;> first | rfl | cases hop
  | stop =>
      change op.ofStop = true at hop
      cases op <;> first | rfl | exact hop | skip
      case txPush r l =>
        have hl : l = .SESSION := eq_of_beq hop
        rw [hl]
        rfl
      case note m => cases m <;> first | rfl | exact hop

/-- Only `close_session` and its callers set `reconnectFlag`, on the io thread or for a stop. -/
theorem reconnectFlag_or_stopped {op : Op} {x : op.Res × Session} (h : perform cfg t op s = some x)
    (hop : ∀ b, op = .setReconnectFlag b → .stopCalled ∈ s.hist) :
    x.2.reconnectFlag = s.reconnectFlag ∨ .stopCalled ∈ x.2.hist := by
  by_cases hw : Field.reconnectFlag ∈ op.writes
  · cases op with
    | setReconnectFlag b => exact .inr (mem_hist_perform h (hop b rfl))
    | _ => simp at hw
  · exact .inl (perform_same (f := .reconnectFlag) h hw)

/-! ## The contract on the io thread -/

/-- What the io thread relies on while it handles a PDU. -/
structure Session.HandlingStays (s s' : Session) : Prop where
  aside : s.Aside s'
  inHand : s'.inHand .io = s.inHand .io
  closing : s.Closing → s'.Closing
  reconnectFlag : s'.reconnectFlag = s.reconnectFlag ∨ .stopCalled ∈ s'.hist

/-- What is on record outlasts steps aside. -/
theorem Session.Aside.mem_hist (h : s.Aside s') {ev : Event} (hev : ev ∈ s.hist) : ev ∈ s'.hist := by
  obtain ⟨logs, hlogs, -⟩ := h.hist
  rw [hlogs]
  exact List.mem_append_right _ hev

/-- **The contract on the io thread**: when a handler is done, the PDU it has received has led to what
it has to. -/
def receiving (cfg : Params) : Focus (system cfg) where
  thread := .io
  guard := known cfg Guard.free
  inv s := Inv s ∧ s.Recorded
  fact _ _ := True
  rely := Session.HandlingStays
  idle := Outcome
  rely_refl s := ⟨.refl s, rfl, id, .inl rfl⟩
  rely_trans _ _ _ h h' := by
    refine ⟨h.aside.trans h'.aside, h'.inHand.trans h.inHand, h'.closing ∘ h.closing, ?_⟩
    rcases h'.reconnectFlag with hflag | hstop
    · rw [hflag]
      exact h.reconnectFlag.imp_right h'.aside.mem_hist
    · exact .inr hstop

/-- The record stays complete if it is extended by events about known objects. -/
theorem recorded_append (hrec : s.Recorded) {logs : List Event} (hhist : s'.hist = logs ++ s.hist)
    (hheap : s.heap.length ≤ s'.heap.length)
    (hnew : ∀ r, .constructed r ∈ logs → r < s'.heap.length)
    (hstop : s'.stopFlag = true → s.stopFlag = true ∨ .stopCalled ∈ s.hist) : s'.Recorded := by
  refine ⟨fun r hr => ?_, fun hs => ?_⟩
  · rw [hhist, List.mem_append] at hr
    rcases hr with hr | hr
    · exact hnew r hr
    · exact Nat.lt_of_lt_of_le (hrec.constructed r hr) hheap
  · rw [hhist]
    exact List.mem_append_right _ ((hstop hs).elim hrec.stopped id)

/-- No operation leaves the record incomplete. -/
theorem recorded_perform {op : Op} {x : op.Res × Session} (h : perform cfg t op s = some x)
    (hg : (known cfg Guard.free).op t op s) (hrec : s.Recorded) : x.2.Recorded := by
  refine recorded_append hrec (perform_hist h) (heap_perform h) (fun r hr => ?_) fun hs => ?_
  · cases op <;> simp at hr
    case newPdu q =>
      cases h
      simp [hr, Session.record]
  · by_cases hstopped : s.stopFlag = true
    · exact .inl hstopped
    · rw [Bool.not_eq_true] at hstopped
      by_cases ht : t = .stopper
      · subst ht
        obtain ⟨j, hj, -, hrun⟩ := known_inJob hg
        cases j with
        | stop => exact .inr (hrun.2 rfl)
        | _ => cases hj
      · rw [stopFlag_perform_false h (known_mayRun hg) ht hstopped] at hs
        cases hs

/-- The environment leaves the record complete. -/
theorem recorded_env {e : Env} (h : e.perform cfg s = some s') (hrec : s.Recorded) :
    s'.Recorded := by
  have hstop : s'.stopFlag = s.stopFlag := env_same (f := .stopFlag) h (by simp)
  refine recorded_append hrec (env_hist h) (pdu_env h).1 (fun r hr => ?_) fun hs => .inl (hstop ▸ hs)
  rcases mem_env_logs hr with heq | heq
  · cases heq
  · cases heq

/-- The start of a job leaves the record complete. -/
theorem recorded_take {j : Job} (h : j.take s = some s') (hrec : s.Recorded) : s'.Recorded := by
  have hstop : s'.stopFlag = s.stopFlag := take_same (f := .stopFlag) h (by simp)
  refine recorded_append hrec (take_hist h) (pdu_take h).1 (fun r hr => ?_) fun hs => .inl (hstop ▸ hs)
  rcases mem_job_logs hr with ⟨q, -, heq⟩ | ⟨-, heq⟩
  · cases heq
  · cases heq

/-- The record of the initial session is complete. -/
theorem recorded_init (p : Persisted) (now : Nat) : (Session.init p now).Recorded :=
  ⟨fun r hr => (by simp [Session.init] at hr), nofun⟩

/-- What the other threads do while a PDU is handled is a step of the focus. -/
theorem steps_receiving : (receiving cfg).Steps where
  op t op s r hi hg hx := by
    obtain ⟨-, hx⟩ := perform_of_exec hx
    refine ⟨⟨inv_perform hx (known_known hg) hi.1, recorded_perform hx hg hi.2⟩, fun ht => ?_⟩
    have haside := aside_perform hx (aside_of_inJob (known_inJob hg) ht)
    refine ⟨haside, (perform_local hx (Ne.symm ht)).2.1, ready_perform hx, ?_⟩
    apply reconnectFlag_or_stopped hx
    rintro b rfl
    obtain ⟨j, hj, hop, hrun⟩ := known_inJob hg
    cases j with
    | stop => exact hrun.2 rfl
    | handler q => exact absurd hj.symm ht
    | send => cases hop
    | receive => cases hop
  env e s s' hi hx :=
    ⟨⟨inv_env hx hi.1, recorded_env hx hi.2⟩, aside_env hx,
      congrFun (env_same (f := .inHand) hx (by simp)) .io, ready_env hx,
      .inl (env_same (f := .reconnectFlag) hx (by simp))⟩
  take j s s' hi hg hx := by
    refine ⟨⟨inv_take hx (known_quiet hg) hi.1, recorded_take hx hi.2⟩, fun hj => ?_⟩
    refine ⟨aside_take hx hj, congrFun (take_same (f := .inHand) hx (by simp)) .io, ?_,
      .inl (take_same (f := .reconnectFlag) hx (by simp))⟩
    exact ready_take hx fun hj' => hj (by rw [hj']; rfl)

/-! ## Rules for the code -/

/-- The PDU has been received, and `P` holds of the reception. -/
def Session.Received (s : Session) (raw : RawPdu) (st : State) (P : Session → Reception → Prop) : Prop :=
  ∃ rc, reception? s.hist = some rc ∧ rc.rawpdu = raw ∧ rc.state = st ∧ P s rc

/-- `P` stays true of a reception when others act. -/
def Session.Lasting (P : Session → Reception → Prop) : Prop :=
  ∀ s s' rc logs, Inv s → s.Recorded → reception? s.hist = some rc → s.Aside s' →
    (∀ ev ∈ logs, Event.Aside s' ev) → P s rc → P s' { rc with since := logs ++ rc.since }

/-- That nothing has been answered yet lasts through steps aside. -/
theorem lasting_unanswered : Session.Lasting Unanswered := by
  intro s s' rc logs hi hrec hrc haside hlogs hs
  obtain ⟨⟨older, hl⟩, -⟩ := reception?_eq_some hrc
  refine ⟨fun r hr => ?_, fun r hr => ?_⟩
  · rcases List.mem_append.mp hr with hr | hr
    · exact (hlogs _ hr).2
    · refine (haside.kind r (hrec.constructed r ?_)).trans (hs.1 r hr)
      rw [hl]
      exact List.mem_append_left _ hr
  · rcases List.mem_append.mp hr with hr | hr
    · exact hlogs _ hr rfl
    · exact hs.2 r hr

/-- That an unbind has been answered lasts through steps aside. -/
theorem lasting_unbindAnswered : Session.Lasting UnbindAnswered := by
  rintro s s' rc logs hi hrec hrc haside hlogs ⟨r, hr, hkind⟩
  obtain ⟨⟨older, hl⟩, -⟩ := reception?_eq_some hrc
  refine ⟨r, List.mem_append_right _ hr, (haside.kind r (hi.queued r (.pushed .RESPONSE ?_))).trans hkind⟩
  rw [hl]
  exact List.mem_append_left _ hr

/-- The assertion that asks for nothing lasts. -/
theorem lasting_true : Session.Lasting fun _ _ => True := fun _ _ _ _ _ _ _ _ _ _ => trivial

/-- What lies between has to do with no reception, so the PDU stays received. -/
theorem Session.Received.aside {raw : RawPdu} {st : State} {P : Session → Reception → Prop}
    (hP : Session.Lasting P) (hi : Inv s) (hrec : s.Recorded) (h : s.Aside s')
    (hs : s.Received raw st P) : s'.Received raw st P := by
  obtain ⟨rc, hrc, hraw, hst, hPs⟩ := hs
  obtain ⟨logs, hlogs, haside⟩ := h.hist
  refine ⟨{ rc with since := logs ++ rc.since }, ?_, hraw, hst, hP s s' rc logs hi hrec hrc h haside hPs⟩
  rw [hlogs, reception?_append fun ev hev => (haside ev hev).opens, hrc]
  rfl

/-- An assertion of the io thread about the PDU it has received, which may also say that the session
reconnects and that the close is posted. -/
structure Session.Handling (raw : RawPdu) (st : State) (P : Session → Reception → Prop)
    (reconnects closing : Bool) (s : Session) : Prop where
  received : s.Received raw st P
  reconnects : reconnects = true → s.Reconnects
  closing : closing = true → s.Closing

variable {raw : RawPdu} {st : State} {P : Session → Reception → Prop} {b b' : Bool}

/-- A session that reconnects still does so after steps that leave the handling alone. -/
theorem Session.Reconnects.stays (h : s.HandlingStays s') (hs : s.Reconnects) : s'.Reconnects := by
  rcases h.reconnectFlag with hflag | hstop
  · exact hs.imp (fun hs => hflag.trans hs) h.aside.mem_hist
  · exact .inr hstop

/-- What is known of the handling of a PDU is stable under the other threads. -/
theorem stable_handling (hP : Session.Lasting P) :
    (receiving cfg).contract.Stable .io (Session.Handling raw st P b b') := by
  apply Focus.stable
  intro s s' hi _ hr hs
  exact ⟨hs.received.aside hP hi.1 hi.2 hr.aside, fun hb => (hs.reconnects hb).stays hr,
    fun hb => hr.closing (hs.closing hb)⟩

/-- An operation that has to do with no reception, and does not set `reconnectFlag`. -/
theorem handling_aside {op : Op} {x : op.Res × Session} (h : perform cfg .io op s = some x)
    (hP : Session.Lasting P) (hi : Inv s) (hrec : s.Recorded) (hop : op.aside = true)
    (hflag : b = true → ∀ b, op ≠ .setReconnectFlag b) (hs : s.Handling raw st P b b') :
    x.2.Handling raw st P b b' := by
  have haside := aside_perform h hop
  refine ⟨hs.received.aside hP hi hrec haside, fun hb => ?_, fun hb => ready_perform h (hs.closing hb)⟩
  rcases reconnectFlag_or_stopped h fun b' heq => absurd heq (hflag hb b') with hsame | hstop
  · exact (hs.reconnects hb).imp (fun hs => hsame.trans hs) haside.mem_hist
  · exact .inr hstop

/-- Code aside leaves the handling where it is. -/
theorem triple_handling {α : Type} {p : Code α} (hP : Session.Lasting P)
    (hp : p.Uses fun op => op.aside = true ∧ (b = true → ∀ b, op ≠ .setReconnectFlag b)) :
    (receiving cfg).contract.Triple .io (Session.Handling raw st P b b') p
      fun _ => Session.Handling raw st P b b' :=
  Focus.Steps.triple_uses steps_receiving hp (stable_handling hP) fun _ _ _ hop hi hs _ hx =>
    ⟨trivial, handling_aside (perform_of_exec hx).2 hP hi.1 hi.2 hop.1 hop.2 hs⟩

/-- Setting `reconnectFlag` is what makes the handling one that reconnects. -/
theorem triple_setReconnects (hP : Session.Lasting P) : (receiving cfg).contract.Triple .io
    (Session.Handling raw st P b b') (call (.setReconnectFlag true))
      fun _ => Session.Handling raw st P true b' := by
  apply Focus.Steps.triple_op steps_receiving (stable_handling hP) fun _ => stable_handling hP
  intro s x hi hs _ hx
  obtain ⟨-, hx⟩ := perform_of_exec hx
  have haside := aside_perform hx rfl
  refine ⟨trivial, hs.received.aside hP hi.1 hi.2 haside, fun _ => ?_,
    fun hb => ready_perform hx (hs.closing hb)⟩
  cases hx
  exact .inl rfl

/-- Posting `close_connection` is what makes the handling one that closes. -/
theorem triple_postsClose (hP : Session.Lasting P) : (receiving cfg).contract.Triple .io
    (Session.Handling raw st P b b') (call .postClose) fun _ => Session.Handling raw st P b true := by
  apply Focus.Steps.triple_op steps_receiving (stable_handling hP) fun _ => stable_handling hP
  intro s x hi hs _ hx
  obtain ⟨-, hx⟩ := perform_of_exec hx
  have hkeep := handling_aside hx hP hi.1 hi.2 rfl (fun _ _ => nofun) hs
  refine ⟨trivial, hkeep.received, hkeep.reconnects, fun _ => ?_⟩
  cases hx
  exact List.mem_append_right _ List.mem_cons_self

/-- **A PDU that could not be processed** closes the session, to be reconnected. -/
theorem triple_closeSession_rejects : (receiving cfg).contract.Triple .io
    (Session.Handling raw st Unanswered false false) (closeSession cfg true)
      fun _ => Session.Handling raw st Unanswered true true := by
  have hunbind : (doUnbindRequest cfg).Uses fun op =>
      op.aside = true ∧ (true = true → ∀ b, op ≠ .setReconnectFlag b) := by
    refine uses_request (· == .Unbind) rfl fun op hop => ⟨?_, fun _ b => ?_⟩
    · cases op <;> first | rfl | exact hop | cases hop | skip
      case txPush r l =>
        have hl : l = .SESSION := eq_of_beq hop
        rw [hl]
        rfl
    · rintro rfl
      cases hop
  unfold closeSession
  apply (triple_setReconnects lasting_unanswered).bind
  intro _
  apply (triple_handling lasting_unanswered (uses_call (by simp [Op.aside]))).bind
  intro st'
  apply (triple_handling lasting_unanswered hunbind.when).bind
  exact fun _ => triple_postsClose lasting_unanswered

/-- The PDU stays received whatever else is recorded in its handler. -/
theorem Session.Received.append {logs : List Event} (hhist : s'.hist = logs ++ s.hist)
    (hlogs : ∀ ev ∈ logs, ev.opens = false) (hs : s.Received raw st P) :
    ∃ rc, reception? s'.hist = some { rc with since := logs ++ rc.since } ∧ rc.rawpdu = raw ∧
      rc.state = st ∧ P s rc := by
  obtain ⟨rc, hrc, hraw, hst, hPs⟩ := hs
  refine ⟨rc, ?_, hraw, hst, hPs⟩
  rw [hhist, reception?_append hlogs, hrc]
  rfl

/-- The operations of a handler that do not receive a PDU. -/
def Op.inside : Op → Bool
  | .note (.received _ _) => false
  | _ => true

/-- An operation inside the handling puts no other reception on record. -/
theorem opens_logs {op : Op} (hop : op.inside = true) : ∀ ev ∈ op.logs s, ev.opens = false := by
  intro ev hev
  cases op <;> simp at hev <;> subst hev <;> first | rfl | skip
  case note m => cases m <;> first | rfl | cases hop

/-- A response to the unbind request has been constructed, and not yet queued. -/
structure Session.Answering (raw : RawPdu) (st : State) (r : Ref) (s : Session) : Prop where
  received : s.Received raw st fun _ _ => True
  inHand : s.inHand .io = some r
  kind : (s.pdu r).commandId = .UnbindResp

/-- That a response has been made for the PDU is stable under the other threads. -/
theorem stable_answering {r : Ref} :
    (receiving cfg).contract.Stable .io (Session.Answering raw st r) := by
  apply Focus.stable
  intro s s' hi _ hr hs
  refine ⟨hs.received.aside lasting_true hi.1 hi.2 hr.aside, hr.inHand.trans hs.inHand, ?_⟩
  exact (hr.aside.kind r (hi.1.fresh r (.inl ⟨_, hs.inHand⟩))).trans hs.kind

/-- An operation that leaves the PDU in hand alone. -/
theorem triple_answering {op : Op} {r : Ref} (hop : op.aside = true)
    (hw : Field.inHand ∉ op.writes) : (receiving cfg).contract.Triple .io
      (Session.Answering raw st r) (call op) fun _ => Session.Answering raw st r := by
  apply Focus.Steps.triple_op steps_receiving stable_answering fun _ => stable_answering
  intro s x hi hs _ hx
  obtain ⟨-, hx⟩ := perform_of_exec hx
  have hsame : x.2.inHand = s.inHand := perform_same (f := .inHand) hx hw
  refine ⟨trivial, hs.received.aside lasting_true hi.1 hi.2 (aside_perform hx hop), ?_, ?_⟩
  · rw [hsame]
    exact hs.inHand
  · exact (commandId_perform hx (hi.1.fresh r (.inl ⟨_, hs.inHand⟩))).trans hs.kind

/-- Constructing an `unbind_resp` is the first half of an answer to an unbind. -/
theorem triple_newResponse {q : Pdu} (hq : q.commandId = .UnbindResp) :
    (receiving cfg).contract.Triple .io (Session.Handling raw st (fun _ _ => True) false false)
      (call (.newPdu q)) fun r => Session.Answering raw st r := by
  apply Focus.Steps.triple_op steps_receiving (stable_handling lasting_true)
    fun _ => stable_answering
  intro s x _ hs _ hx
  obtain ⟨-, hx⟩ := perform_of_exec hx
  obtain ⟨rc, hrc, hraw, hst, -⟩ := hs.received.append (perform_hist hx) (opens_logs rfl)
  refine ⟨trivial, ⟨_, hrc, hraw, hst, trivial⟩, ?_, ?_⟩
  · cases hx
    show Function.update s.inHand Tid.io (some s.heap.length) Tid.io = some s.heap.length
    exact Function.update_self ..
  · cases hx
    simpa [Session.pdu, Session.record] using hq

/-- Queueing the response completes the answer to an unbind. -/
theorem triple_pushResponse {r : Ref} : (receiving cfg).contract.Triple .io
    (Session.Answering raw st r) (call (.txPush r .RESPONSE))
      fun _ => Session.Handling raw st UnbindAnswered false false := by
  apply Focus.Steps.triple_op steps_receiving stable_answering
    fun _ => stable_handling lasting_unbindAnswered
  intro s x hi hs _ hx
  obtain ⟨-, hx⟩ := perform_of_exec hx
  obtain ⟨rc, hrc, hraw, hst, -⟩ := hs.received.append (perform_hist hx) (opens_logs rfl)
  refine ⟨trivial, ⟨_, hrc, hraw, hst, r, List.mem_cons_self, ?_⟩, nofun, nofun⟩
  exact (commandId_perform hx (hi.1.fresh r (.inl ⟨_, hs.inHand⟩))).trans hs.kind

/-- The response is queued. -/
theorem triple_doWrite_answers {r : Ref} : (receiving cfg).contract.Triple .io
    (Session.Answering raw st r) (doWrite cfg r .RESPONSE)
      fun _ => Session.Handling raw st UnbindAnswered false false := by
  have hwrite : (writePdu cfg).Uses fun op =>
      op.aside = true ∧ (false = true → ∀ b, op ≠ .setReconnectFlag b) := by
    apply ofWritePdu_writePdu.mono
    intro op hop
    refine ⟨?_, nofun⟩
    cases op <;> first | rfl | cases hop
  unfold doWrite writing
  apply (triple_answering rfl (by simp)).bind
  intro _
  apply Contract.Triple.bind (Q := fun _ => Session.Answering raw st r)
  · apply (triple_answering rfl (by simp)).bind
    exact fun e => Contract.Triple.skip stable_answering
  intro busy
  apply triple_pushResponse.bind
  intro _
  apply (triple_handling lasting_unbindAnswered hwrite.when).bind
  exact fun _ => triple_handling lasting_unbindAnswered (uses_call ⟨rfl, nofun⟩)

/-- **An unbind request of the peer** is answered, and the close is posted. -/
theorem triple_procpduUnbind_answers (hdec : raw.decodes = true) :
    (receiving cfg).contract.Triple .io (Session.Handling raw st (fun _ _ => True) false false)
      (procpduUnbind cfg raw)
        fun how s => how = .returned ∧ s.Handling raw st UnbindAnswered false true := by
  unfold procpduUnbind setCurrentState
  rw [if_pos hdec]
  apply (triple_newResponse rfl).bind
  intro r
  apply (triple_answering rfl (by simp)).bind
  intro _
  apply triple_doWrite_answers.bind
  intro _
  apply (triple_handling (b := false) lasting_unbindAnswered (uses_call ⟨rfl, nofun⟩)).bind
  intro _
  apply (triple_handling (b := false) lasting_unbindAnswered (uses_call ⟨rfl, nofun⟩)).bind
  intro _
  apply (triple_postsClose lasting_unbindAnswered).bind
  intro _ s hi hs s' hr hi'
  exact ⟨rfl, stable_handling lasting_unbindAnswered s s' hi hs hr hi'⟩

/-! ## The handler of a received PDU -/

/-- Code inside the handling keeps what is known of a PDU that has been received. -/
theorem triple_received {α : Type} {p : Code α} (hp : p.Uses fun op => op.inside = true) :
    (receiving cfg).contract.Triple .io (Session.Handling raw st (fun _ _ => True) false false) p
      fun _ => Session.Handling raw st (fun _ _ => True) false false := by
  apply Focus.Steps.triple_uses steps_receiving hp (stable_handling lasting_true)
  intro op s x hop _ hs _ hx
  obtain ⟨-, hx⟩ := perform_of_exec hx
  obtain ⟨rc, hrc, hraw, hst, -⟩ := hs.received.append (perform_hist hx) (opens_logs hop)
  exact ⟨trivial, ⟨_, hrc, hraw, hst, trivial⟩, nofun, nofun⟩

/-- What a dispatch performs stays inside the handling. -/
theorem inside_of_ofDispatch {op : Op} (h : op.ofDispatch = true) : op.inside = true := by
  cases op <;> first | rfl | cases h

/-- A PDU that could not be decoded has its outcome once the session closes and will reconnect. -/
theorem outcome_rejected (hraw : raw.Undecodable st) (h : s.Handling raw st Unanswered true true) :
    s.Outcome := by
  intro rc hrc
  obtain ⟨rc', hrc', rfl, rfl, hun⟩ := h.received
  rw [hrc', Option.some.injEq] at hrc
  subst hrc
  refine ⟨fun _ => ⟨hun, h.closing rfl, h.reconnects rfl⟩, fun hunbind => ?_⟩
  have hkind := hunbind.1
  rw [hraw.1] at hkind
  cases hkind

/-- An unbind of the peer has its outcome once it is answered and the session closes. -/
theorem outcome_peerUnbound (hraw : raw.Unbinds st)
    (h : s.Handling raw st UnbindAnswered false true) : s.Outcome := by
  intro rc hrc
  obtain ⟨rc', hrc', rfl, rfl, hans⟩ := h.received
  rw [hrc', Option.some.injEq] at hrc
  subst hrc
  refine ⟨fun hund => ?_, fun _ => ⟨h.closing rfl, hans⟩⟩
  have hkind := hund.1
  rw [hraw.1] at hkind
  cases hkind

/-- Any other PDU has its outcome as soon as it has been received. -/
theorem outcome_other (hraw : ¬raw.Undecodable st) (hraw' : ¬raw.Unbinds st)
    (h : s.Handling raw st (fun _ _ => True) false false) : s.Outcome := by
  intro rc hrc
  obtain ⟨rc', hrc', rfl, rfl, -⟩ := h.received
  rw [hrc', Option.some.injEq] at hrc
  subst hrc
  exact ⟨fun h => absurd h hraw, fun h => absurd h hraw'⟩

/-- **What the code for a PDU leads to.** -/
theorem triple_dispatch_outcome (raw : RawPdu) (st : State) : (receiving cfg).contract.Triple .io
    (Session.Handling raw st Unanswered false false)
    (process4stateSwitch cfg raw st >>= fun how =>
      match how with
      | .returned => return ()
      | .threw => closeSession cfg true)
    fun _ => Outcome := by
  have hpre : ∀ s : Session, s.Handling raw st Unanswered false false →
      s.Handling raw st (fun _ _ => True) false false := by
    rintro s ⟨⟨rc, hrc, hraw, hst, -⟩, -, -⟩
    exact ⟨⟨rc, hrc, hraw, hst, trivial⟩, nofun, nofun⟩
  -- three kinds of PDU: one that does not decode, one that unbinds, and any other
  by_cases hund : raw.Undecodable st
  · have hthrows : process4stateSwitch cfg raw st = return .threw := by
      obtain ⟨hkind, hdec, rfl | rfl⟩ := hund
      · simp [process4stateSwitch, process4stateBoundRx, hkind, procpduDeliverSm, hdec]
      · simp [process4stateSwitch, process4stateBoundTrx, hkind, procpduDeliverSm, hdec]
    rw [hthrows]
    exact triple_closeSession_rejects.post fun _ s _ hs => outcome_rejected hund hs
  by_cases hunb : raw.Unbinds st
  · have hunbind : process4stateSwitch cfg raw st = procpduUnbind cfg raw := by
      obtain ⟨hkind, -, hst⟩ := hunb
      cases st <;> first
        | cases hst; done
        | simp [process4stateSwitch, process4stateBoundTx, process4stateBoundRx,
            process4stateBoundTrx, hkind]
    rw [hunbind]
    apply ((triple_procpduUnbind_answers hunb.2.1).pre fun s _ hs => hpre s hs).bind
    intro how
    cases how with
    | returned =>
        intro s hi hs s' hr hi'
        exact outcome_peerUnbound hunb (stable_handling lasting_unbindAnswered s s' hi hs.2 hr hi')
    | threw => exact fun s _ hs => by cases hs.1
  · have huses : (process4stateSwitch cfg raw st >>= fun how =>
        match how with
        | .returned => return ()
        | .threw => closeSession cfg true).Uses fun op => op.inside = true :=
      (ofDispatch_process4stateSwitch st).mono fun _ => inside_of_ofDispatch
    apply ((triple_received huses).pre fun s _ hs => hpre s hs).post
    exact fun _ s _ hs => outcome_other hund hunb hs

/-- The handler has not received a PDU. -/
def Session.NotYet (s : Session) : Prop := reception? s.hist = none

/-- A handler that has received nothing yet still has not after events that open nothing. -/
theorem Session.NotYet.append {logs : List Event} (hs : s.NotYet) (hhist : s'.hist = logs ++ s.hist)
    (hlogs : ∀ ev ∈ logs, ev.opens = false) : s'.NotYet := by
  unfold Session.NotYet at hs ⊢
  rw [hhist, reception?_append hlogs, hs]
  rfl

/-- Where nothing has been received, nothing is due. -/
theorem Session.NotYet.outcome (hs : s.NotYet) : s.Outcome := by
  intro rc hrc
  rw [hs] at hrc
  cases hrc

/-- That nothing has been received yet is stable under the other threads. -/
theorem stable_notYet : (receiving cfg).contract.Stable .io NotYet := by
  apply Focus.stable
  intro s s' _ _ hr hs
  obtain ⟨logs, hlogs, haside⟩ := hr.aside.hist
  exact hs.append hlogs fun ev hev => (haside ev hev).opens

/-- Code inside the handling receives nothing. -/
theorem triple_notYet {α : Type} {p : Code α} (hp : p.Uses fun op => op.inside = true) :
    (receiving cfg).contract.Triple .io NotYet p fun _ => NotYet :=
  Focus.Steps.triple_uses steps_receiving hp stable_notYet fun _ _ _ hop _ hs _ hx =>
    ⟨trivial, hs.append (perform_hist (perform_of_exec hx).2) (opens_logs hop)⟩

/-- What the reception has led to stays so. -/
theorem outcome_aside (hi : Inv s) (hrec : s.Recorded) (h : s.Aside s')
    (hclosing : s.Closing → s'.Closing)
    (hflag : s'.reconnectFlag = s.reconnectFlag ∨ .stopCalled ∈ s'.hist) (hs : s.Outcome) :
    s'.Outcome := by
  intro rc hrc
  obtain ⟨rc', logs, hrc', rfl, hlogs⟩ := h.reception? hrc
  obtain ⟨hrej, hunb⟩ := hs rc' hrc'
  refine ⟨fun hraw => ?_, fun hraw => ?_⟩
  · obtain ⟨hun, hclose, hre⟩ := hrej hraw
    refine ⟨lasting_unanswered s s' rc' logs hi hrec hrc' h hlogs hun, hclosing hclose, ?_⟩
    rcases hflag with hflag | hstop
    · exact hre.imp (fun hre => hflag.trans hre) h.mem_hist
    · exact .inr hstop
  · obtain ⟨hclose, hans⟩ := hunb hraw
    exact ⟨hclosing hclose, lasting_unbindAnswered s s' rc' logs hi hrec hrc' h hlogs hans⟩

/-- What has become of the PDU received last is stable under the other threads. -/
theorem stable_outcome : (receiving cfg).contract.Stable .io Outcome := by
  apply Focus.stable
  intro s s' hi _ hr hs
  exact outcome_aside hi.1 hi.2 hr.aside hr.closing hr.reconnectFlag hs

/-- The mark of the reception is put on record. -/
theorem triple_note_received : (receiving cfg).contract.Triple .io NotYet
    (call (.note (.received raw st))) fun _ => Session.Handling raw st Unanswered false false := by
  apply Focus.Steps.triple_op steps_receiving stable_notYet
    fun _ => stable_handling lasting_unanswered
  intro s x _ _ _ hx
  obtain ⟨-, hx⟩ := perform_of_exec hx
  cases hx
  exact ⟨trivial, ⟨⟨raw, st, []⟩, rfl, rfl, rfl, fun _ hr => absurd hr List.not_mem_nil,
    fun _ => List.not_mem_nil⟩, nofun, nofun⟩

/-- `process4state` receives the PDU and sees to its outcome. -/
theorem triple_process4state_outcome (raw : RawPdu) : (receiving cfg).contract.Triple .io NotYet
    (process4state cfg raw) fun _ => Outcome := by
  unfold process4state rescheduleEnquireLink
  apply Contract.Triple.bind (triple_notYet ?_)
  · intro _
    apply (triple_notYet (uses_call rfl)).bind
    intro st
    apply triple_note_received.bind
    exact fun _ => triple_dispatch_outcome raw st
  · exact uses_then rfl fun _ => uses_then rfl fun _ => uses_call rfl

/-- `handle_read_body` sees to the outcome of the PDU, if it receives one. -/
theorem triple_handleReadBody_outcome (raw : RawPdu) (e : ErrorCode) :
    (receiving cfg).contract.Triple .io NotYet (handleReadBody cfg raw e) fun _ => Outcome := by
  unfold handleReadBody
  split
  · apply Contract.Triple.bind (triple_notYet ?_)
    · intro _
      apply (triple_process4state_outcome raw).bind
      intro _
      apply Focus.Steps.triple_op steps_receiving stable_outcome fun _ => stable_outcome
      intro s x hi hs _ hx
      obtain ⟨-, hx⟩ := perform_of_exec hx
      refine ⟨trivial, outcome_aside hi.1 hi.2 (aside_perform hx rfl) (ready_perform hx) ?_ hs⟩
      exact reconnectFlag_or_stopped hx nofun
    · apply Prog.Uses.when
      exact uses_then rfl fun _ => uses_then rfl fun _ => uses_call rfl
  · refine (triple_notYet ?_).post fun _ _ _ hs => hs.outcome
    apply (ofFailure_handleReadError e).mono
    intro op hop
    cases op <;> first | rfl | cases hop

/-- **Every handler leads to what its reception calls for.** -/
theorem triple_handler_outcome (q : Handler) :
    (receiving cfg).contract.Triple .io NotYet (q.body cfg) fun _ => Outcome := by
  have hother : (∀ op : Op, q.uses op = true → op.inside = true) →
      (receiving cfg).contract.Triple .io NotYet (q.body cfg) fun _ => Outcome :=
    fun h => (triple_notYet (q.uses_body.mono h)).post fun _ _ _ hs => hs.outcome
  cases q with
  | handleReadBody raw e => exact triple_handleReadBody_outcome raw e
  | w4rQAgeCleanup e =>
      apply hother
      intro op hop
      cases op <;> first | rfl | cases hop | skip
      case note m => cases m <;> first | rfl | cases hop
  | _ =>
      apply hother
      intro op hop
      cases op <;> first | rfl | cases hop

variable {p : Persisted} {now : Nat} {c : Machine}

/-- **The focus on the reception is sound**: between its own operations the io thread finds steps
aside only. -/
theorem receiving_sound (cfg : Params) (p : Persisted) (now : Nat) :
    (receiving cfg).contract.Sound (Machine.init p now) := by
  have hinit : (Session.init p now).NotYet := rfl
  refine sound_of_handlers steps_receiving rfl ⟨inv_init p now, recorded_init p now⟩ hinit.outcome
    stable_outcome ?_
  intro q s s' _ hi' _ _ hx
  refine triple_handler_outcome q s' hi' ?_
  obtain ⟨-, rfl⟩ := Job.take_handler hx
  rfl

/-- **What a received PDU has led to**: in every run, whenever the io thread is between two handlers. -/
theorem Runs.outcome (h : Runs cfg Guard.free p now c) (hio : c.Idle .io) : c.shared.Outcome :=
  (receiving_sound cfg p now).reach_idle h.knowing hio rfl

/-- The record is complete in every run. -/
theorem Runs.recorded (h : Runs cfg Guard.free p now c) : c.shared.Recorded :=
  ((receiving_sound cfg p now).reach_inv h.knowing).2

end KissSmpp
