import KissSmpp.Session.Calls

/-! # PDUs that are not transferable between sessions

A `TransmitQ` forgets the session and response PDUs of an earlier process, and `close_connection`
clears their two levels. Such a PDU can be elsewhere at that moment, though: in `w4rQ`, from where the
ageing sweep brings it back as a message, in the hands of another thread, or in a write whose failure
pushes it back after the clearing. Where none is left when a connection has been established, and none
is brought back later (`transferring`), none is written on a connection it was not made for. -/

namespace KissSmpp

open Interleave Queue

variable {cfg : Params} {t : Tid} {s s' : Session}

/-- The commands that belong to one connection: the session requests, and the responses. -/
def CommandId.ofConnection : CommandId → Bool
  | BindReceiver | BindTransmitter | BindTransceiver | Unbind | EnquireLink | EnquireLinkResp
  | UnbindResp | DeliverSmResp => true
  | _ => false

/-- The event with which a successful `handle_connect` begins. -/
def Event.connects : Event → Bool
  | .started (.handleConnect .success) => true
  | _ => false

/-- What has happened since the most recent successful `handle_connect`. -/
def sinceConnect (hist : List Event) : List Event := hist.takeWhile fun ev => !ev.connects

/-- Whatever else happens, what has happened since stays so. -/
theorem mem_sinceConnect_append {logs hist : List Event} (hlogs : ∀ ev ∈ logs, ev.connects = false)
    {ev : Event} (h : ev ∈ sinceConnect hist) : ev ∈ sinceConnect (logs ++ hist) := by
  unfold sinceConnect at *
  rw [List.takeWhile_append_of_pos fun ev hev => by rw [hlogs ev hev]; rfl]
  exact List.mem_append_right _ h

/-- A suffix that begins with an event of another kind than those added lies in what was there. -/
theorem suffix_of_append {ev : Event} {older logs hist : List Event} (h : ev :: older <:+ logs ++ hist)
    (hev : ev ∉ logs) : ev :: older <:+ hist := by
  induction logs with
  | nil => exact h
  | cons ev' logs ih =>
      rw [List.cons_append, List.suffix_cons_iff] at h
      rcases h with h | h
      · rw [List.cons.injEq] at h
        exact absurd (h.1 ▸ List.mem_cons_self) hev
      · exact ih h fun hmem => hev (List.mem_cons_of_mem _ hmem)

namespace Session

/-- If the PDU belongs to a connection, it was constructed since the most recent successful
`handle_connect`. -/
def Current (s : Session) (r : Ref) : Prop :=
  (s.pdu r).commandId.ofConnection = true → .constructed r ∈ sinceConnect s.hist

/-- Whether a PDU belongs to the present connection can be read off the record. -/
instance (s : Session) (r : Ref) : Decidable (s.Current r) := inferInstanceAs (Decidable (_ → _))

/-- The PDUs on their way to `async_write`: in the transmit queue, popped by a thread, or constructed
by one. -/
def underWay (s : Session) : List Ref :=
  s.txQ.toList ++ s.popped ++ [Tid.io, .receiver, .stopper].filterMap s.inHand

end Session

open Session

/-- **No PDU changes to another connection**: none that belongs to one is under way when a
`handle_connect` begins, and none of an earlier connection is brought back, by the ageing sweep or
from the sending buffer, or by a write that has failed. -/
def transferring : Guard Op Tid Session Job where
  op t op s := match op with
    | .txPush r _ => t = .sender ∨ s.inHand t ≠ some r → s.Current r
    | .txPushBackLastPop => ∀ r ∈ s.slot, s.Current r
    | _ => True
  job j s := j = .handler (.handleConnect .success) →
    ∀ r ∈ s.underWay, (s.pdu r).commandId.ofConnection = false

/-- The guard can be evaluated. -/
instance : transferring.Checkable where
  op t op s := by
    apply Op.casesOn (motive := fun op => Decidable (transferring.op t op s)) op <;> intros <;>
      unfold transferring <;> exact inferInstance
  job j s := inferInstanceAs (Decidable (_ → _))

/-! ## What the runs keep -/

namespace Session

/-- **What the runs keep**: everything under way is of this connection, and what has been written was
of its own. -/
structure Transfers (s : Session) : Prop where
  queue : ∀ r ∈ s.txQ, s.Current r
  popped : ∀ u r, s.pdu2send u = some r → s.Current r
  hand : ∀ u r, u ≠ .sender → s.inHand u = some r → s.Current r
  wrote : ∀ r tbuf st conn older, .wrote r tbuf st conn :: older <:+ s.hist →
    tbuf.commandId.ofConnection = true → .constructed r ∈ sinceConnect older

/-- A PDU stays current while no connection is established. -/
theorem Current.append {r : Ref} {logs : List Event} (hhist : s'.hist = logs ++ s.hist)
    (hlogs : ∀ ev ∈ logs, ev.connects = false) (hc : (s'.pdu r).commandId = (s.pdu r).commandId)
    (h : s.Current r) : s'.Current r := by
  intro hkind
  rw [hhist]
  exact mem_sinceConnect_append hlogs (h (hc ▸ hkind))

end Session

/-- No operation records the start of a handler. -/
theorem connects_logs (op : Op) (s : Session) : ∀ ev ∈ op.logs s, ev.connects = false := by
  intro ev hev
  cases op <;> simp at hev <;> subst hev <;> rfl

/-- **Every operation that meets the guard keeps it so.** -/
theorem transfers_perform {op : Op} {x : op.Res × Session} (hi : Inv s) (hK : s.Transfers)
    (hg : transferring.op t op s) (hm : op.mayRun t = true) (hk : Known t op s)
    (h : perform cfg t op s = some x) : x.2.Transfers := by
  have hhist := perform_hist h
  have hcurrent : ∀ r, r < s.heap.length → s.Current r → x.2.Current r := fun r hr hc =>
    hc.append hhist (connects_logs op s) (commandId_perform h hr)
  have hqueued : ∀ r ∈ s.txQ, x.2.Current r := fun r hr =>
    hcurrent r (hi.queued r (.waiting hr)) (hK.queue r hr)
  -- in the queue, popped, in the hand of a thread, and already written
  constructor
  · intro r hr
    rcases mem_txQ_perform h hr with hr | ⟨l, rfl⟩ | ⟨rfl, hslot⟩
    · exact hqueued r hr
    · by_cases hown : t ≠ .sender ∧ s.inHand t = some r
      · exact hcurrent r (hi.fresh r (.inl ⟨t, hown.2⟩)) (hK.hand t r hown.1 hown.2)
      · -- the sweep, or `sendingProcessor`
        have hlt : r < s.heap.length := by
          rcases hk.2 with hin | ⟨-, -, hin⟩
          · exact hi.fresh r (.inl ⟨t, hin⟩)
          · exact hi.queued r (.awaiting hin)
        refine hcurrent r hlt (hg ?_)
        by_cases ht : t = .sender
        · exact .inl ht
        · exact .inr fun hin => hown ⟨ht, hin⟩
    · exact hcurrent r (hi.queued r (.slot hslot)) (hg r hslot)
  · intro u r hu
    rcases pdu2send_perform h hu with hu | ⟨-, -, hpop⟩
    · exact hcurrent r (hi.queued r (.flight (mem_inFlight.mpr (.inl ⟨u, hu⟩)))) (hK.popped u r hu)
    · exact hqueued r (PrioQ.mem_iff_pop.mpr (.inl hpop))
  · intro u r hne hu
    rcases inHand_perform h hu with hu | ⟨-, rfl, q, rfl⟩ | ⟨rfl, -, rfl⟩
    · exact hcurrent r (hi.fresh r (.inl ⟨u, hu⟩)) (hK.hand u r hne hu)
    · -- it has just been constructed
      intro _
      rw [hhist]
      exact List.mem_cons_self
    · exact absurd (Op.sender_of_mayRun hm rfl) hne
  · intro r tbuf st conn older hw hkind
    rw [hhist] at hw
    by_cases hnew : .wrote r tbuf st conn ∈ op.logs s
    · cases op with
      | asyncWrite q tbuf' =>
          rw [Op.logs, List.singleton_append, List.suffix_cons_iff] at hw
          rcases hw with hw | hw
          · simp only [List.cons.injEq, Event.wrote.injEq] at hw
            obtain ⟨⟨rfl, rfl, -, -⟩, rfl⟩ := hw
            obtain ⟨-, hsend, rfl⟩ := hk
            exact hK.popped t r hsend hkind
          · exact hK.wrote r tbuf st conn older hw hkind
      | _ => simp at hnew
    · exact hK.wrote r tbuf st conn older (suffix_of_append hw hnew) hkind

/-- The environment keeps it so. -/
theorem transfers_env {e : Env} (hi : Inv s) (hK : s.Transfers) (h : e.perform cfg s = some s') :
    s'.Transfers := by
  have hq : s'.txQ = s.txQ := env_same (f := .txQ) h (by simp)
  have hsend : s'.pdu2send = s.pdu2send := env_same (f := .pdu2send) h (by simp)
  have hin : s'.inHand = s.inHand := env_same (f := .inHand) h (by simp)
  have hlogs : ∀ ev ∈ e.logs s, ev.connects = false := by
    intro ev hev
    rcases mem_env_logs hev with rfl | rfl
    · rfl
    · rfl
  have hcurrent : ∀ r, r < s.heap.length → s.Current r → s'.Current r := fun r hr hc =>
    hc.append (env_hist h) hlogs (congrArg _ ((pdu_env h).2 r hr))
  constructor
  · intro r hr
    rw [hq] at hr
    exact hcurrent r (hi.queued r (.waiting hr)) (hK.queue r hr)
  · intro u r hu
    rw [hsend] at hu
    exact hcurrent r (hi.queued r (.flight (mem_inFlight.mpr (.inl ⟨u, hu⟩)))) (hK.popped u r hu)
  · intro u r hne hu
    rw [hin] at hu
    exact hcurrent r (hi.fresh r (.inl ⟨u, hu⟩)) (hK.hand u r hne hu)
  · intro r tbuf st conn older hw
    rw [env_hist h] at hw
    refine hK.wrote r tbuf st conn older (suffix_of_append hw fun hmem => ?_)
    rcases mem_env_logs hmem with heq | heq
    · cases heq
    · cases heq

/-- The start of a job keeps it so: at a `handle_connect` nothing of a connection is under way. -/
theorem transfers_take {j : Job} (hK : s.Transfers) (hg : transferring.job j s)
    (h : j.take s = some s') : s'.Transfers := by
  have hq : s'.txQ = s.txQ := take_same (f := .txQ) h (by simp)
  have hsend : s'.pdu2send = s.pdu2send := take_same (f := .pdu2send) h (by simp)
  have hin : s'.inHand = s.inHand := take_same (f := .inHand) h (by simp)
  have hpdu := (pdu_take h).2
  have hcurrent : ∀ r, r ∈ s.underWay → s.Current r → s'.Current r := by
    intro r hr hc
    -- a connection begins: by the guard nothing that is under way belongs to another one
    by_cases hj : j = .handler (.handleConnect .success)
    · intro hkind
      rw [hpdu, hg hj r hr] at hkind
      cases hkind
    · refine hc.append (take_hist h) (fun ev hev => ?_) (congrArg _ (hpdu r))
      rcases mem_job_logs hev with ⟨q, rfl, rfl⟩ | ⟨-, rfl⟩
      · -- another handler than that of the connection
        unfold Event.connects
        split
        · next heq =>
          cases heq
          exact absurd rfl hj
        · rfl
      · rfl
  constructor
  · intro r hr
    rw [hq] at hr
    refine hcurrent r ?_ (hK.queue r hr)
    simp [underWay, hr]
  · intro u r hu
    rw [hsend] at hu
    refine hcurrent r ?_ (hK.popped u r hu)
    have hmem : r ∈ s.popped := List.mem_filterMap.mpr ⟨u, Tid.mem_all u, hu⟩
    simp [underWay, hmem]
  · intro u r hne hu
    rw [hin] at hu
    refine hcurrent r ?_ (hK.hand u r hne hu)
    have hmem : r ∈ [Tid.io, .receiver, .stopper].filterMap s.inHand :=
      List.mem_filterMap.mpr ⟨u, by cases u <;> simp at hne ⊢, hu⟩
    simp only [underWay, List.mem_append, hmem, or_true]
  · intro r tbuf st conn older hw
    rw [take_hist h] at hw
    refine hK.wrote r tbuf st conn older (suffix_of_append hw fun hmem => ?_)
    rcases mem_job_logs hmem with ⟨q, -, heq⟩ | ⟨-, heq⟩
    · cases heq
    · cases heq

/-! ## At the start -/

variable {p : Persisted} {now : Nat} {c : Machine}

/-- What an earlier process has left on the message level has its commands there. -/
theorem commandId_init {r : Ref} (hr : r < p.message.length) :
    ((Session.init p now).pdu r).commandId = (p.message.get ⟨r, hr⟩).commandId := by
  have hheap : (Session.init p now).heap = p.heap := rfl
  unfold Session.pdu
  rw [hheap, Persisted.heap]
  simp [List.getElem?_append_left, hr, List.append_assoc]

/-- What the runs under the guard keep. -/
theorem Runs.transfers (hp : ∀ q ∈ p.message, q.commandId.ofConnection = false)
    (h : Runs cfg transferring p now c) : c.shared.Transfers := by
  refine h.data ⟨fun r hr hkind => ?_, ?_, ?_, ?_⟩ ?_ ?_ ?_
  · rw [commandId_init (mem_txQ_init hr), hp _ (List.get_mem _ _)] at hkind
    cases hkind
  · intro u r hu
    cases hu
  · intro u r _ hu
    cases hu
  · intro r tbuf st conn older hw
    have hw := hw.subset List.mem_cons_self
    simp [Session.init] at hw
  · exact fun t op s x hi hK hg hm hk hx => transfers_perform hi hK hg hm hk hx
  · exact fun e s s' hi hK hx => transfers_env hi hK hx
  · exact fun j s s' _ _ hK hg hx => transfers_take hK hg hx

/-! ## Session and response PDUs stay on their connection -/

/-- **No PDU that belongs to a connection is written on another one**, in every run in which none
changes to another: whatever `write_pdu` hands to `async_write` was constructed since the most recent
successful `handle_connect`. -/
theorem written_on_own_connection (hp : ∀ q ∈ p.message, q.commandId.ofConnection = false)
    (h : Runs cfg transferring p now c) {r : Ref} {tbuf : Pdu} {st : State} {conn : Option Nat}
    {older : List Event} (hw : .wrote r tbuf st conn :: older <:+ c.shared.hist)
    (hkind : tbuf.commandId.ofConnection = true) : .constructed r ∈ sinceConnect older :=
  (h.transfers hp).wrote r tbuf st conn older hw hkind

/-- A first connection: its bind request is its own. -/
theorem written_on_own_connection_first_bind :
    .constructed 0 ∈ sinceConnect ((Machine.after sampleParams .none Schedule.connect).shared.hist.tail) :=
  have hrun : Runs sampleParams transferring .none 0
      (Machine.after sampleParams .none Schedule.connect) :=
    runs_under (g := transferring) (by decide +kernel)
  have hw : .wrote 0 ⟨.BindTransceiver, ESME_ROK, 2, .bind sampleParams.smppcfg.bindFields, none⟩
      .OPEN (some 1) :: (Machine.after sampleParams .none Schedule.connect).shared.hist.tail <:+
        (Machine.after sampleParams .none Schedule.connect).shared.hist := by decide +kernel
  written_on_own_connection (by simp [Persisted.none]) hrun hw rfl

/-- An `enquire_link` is written, and its response does not come. -/
def unansweredLink : List Step :=
  Schedule.bind ++ [.env (.elapse 1000000), .env (.expire .enquireLink)] ++
    Schedule.handle (.doEnquireLink .success) ++ Schedule.complete (.write 1) .none .success

/-- An `enquire_link` stays unanswered until the peer ends the connection, the session connects
again, and the sweep finds it. The ageing timer has expired just before `close_connection` cancels
it. -/
def agedOnNextConnection : List Step :=
  unansweredLink ++ Schedule.complete .readHeader .none .eof ++ [.env (.expire .w4rQAgeing)] ++
    Schedule.handle .closeConnection ++ .env (.elapse 1000000) :: Schedule.turn .io 2 ++
    Schedule.handle (.w4rQAgeCleanup .success) ++ Schedule.connect ++
    [.env (.elapse 31000000), .env (.expire .w4rQAgeing)] ++
    .start (.handler (.w4rQAgeCleanup .success)) :: Schedule.turn .io 15

/-- Without the condition an `enquire_link` is written on a connection it was not made for. -/
theorem link_written_on_next_connection : ¬∀ (cfg : Params) (p : Persisted) (now : Nat) (c : Machine),
    Runs cfg Guard.free p now c → ∀ r tbuf st conn older,
      .wrote r tbuf st conn :: older <:+ c.shared.hist → tbuf.commandId.ofConnection = true →
        .constructed r ∈ sinceConnect older := by
  intro h
  have hlink := h _ _ _ _ (runs_after sampleParams .none agedOnNextConnection) 1
    ⟨.EnquireLink, ESME_ROK, 3, .empty, none⟩ .OPEN (some 2)
    (Machine.after sampleParams .none agedOnNextConnection).shared.hist.tail (by decide +kernel) rfl
  exact absurd hlink (by decide +kernel)

end KissSmpp
