import KissSmpp.Interleave.OneThread
import KissSmpp.Session.Calls

/-! # How often a connection binds

`do_bind_request` is called by `handle_connect`, and again for every `outbind` received in `OPEN`. Each
call hands one bind request to `async_write` if its `do_write` finds the transmit queue empty. Two things
can write a bind request apart from that: the ageing sweep, which puts it back on the message level as if
it were a message, and a pop that finds it waiting in the queue. Without them (`bindsAtOnce`) the bind
requests written are one for each call, and none is written in a bound state. -/

namespace KissSmpp

open Interleave Queue

variable {cfg : Params} {t : Tid} {s s' : Session}

/-! ## The record -/

/-- A bind request was handed to `async_write`. -/
def Event.isBindWrite : Event → Bool
  | .wrote _ tbuf _ _ => tbuf.commandId.isBind
  | _ => false

/-- The session is to bind: `handle_connect` was taken up with success, or an `outbind` was received in
`OPEN`. -/
def Event.callsForBind : Event → Bool
  | .started (.handleConnect .success) => true
  | .mark (.received raw .OPEN) => decide (CommandId.ofValue raw.cmdId = .Outbind)
  | _ => false

/-- No bind request has been written since the session was to bind last. -/
def bindDue : List Event → Bool
  | [] => false
  | ev :: hist => ev.callsForBind || (!ev.isBindWrite && bindDue hist)

/-- Every bind request written was due. -/
def BindsDue : List Event → Prop
  | [] => True
  | ev :: hist => (ev.isBindWrite = true → bindDue hist = true) ∧ BindsDue hist

/-- **One call, one bind request**: since any point of the record, no more bind requests have been written
than calls made, but for one that was due then. -/
theorem countP_isBindWrite_le (newer older : List Event) (h : BindsDue (newer ++ older)) :
    newer.countP Event.isBindWrite + (bindDue (newer ++ older)).toNat ≤
      newer.countP Event.callsForBind + (bindDue older).toNat := by
  induction newer with
  | nil => exact Nat.le_refl _
  | cons ev newer ih =>
      have ih := ih h.2
      have hdue : bindDue (ev :: newer ++ older) =
          (ev.callsForBind || (!ev.isBindWrite && bindDue (newer ++ older))) := rfl
      rw [hdue, List.countP_cons, List.countP_cons]
      cases hcall : ev.callsForBind with
      | true =>
          -- a call for a bind is not itself the writing of one
          have hwrite : ev.isBindWrite = false := by
            unfold Event.callsForBind at hcall
            split at hcall <;> first | rfl | cases hcall
          simp only [hwrite, Bool.true_or, Bool.toNat_true, if_true, Bool.false_eq_true, if_false]
          omega
      | false =>
          cases hwrite : ev.isBindWrite with
          | true =>
              -- the bind request that is written was due, and is due no longer
              have hone : bindDue (newer ++ older) = true := h.1 hwrite
              rw [hone] at ih
              simp only [Bool.toNat_true] at ih
              simp only [Bool.not_true, Bool.false_and, Bool.or_false, Bool.toNat_false, if_true,
                Bool.false_eq_true, if_false]
              omega
          | false =>
              simp only [Bool.not_false, Bool.true_and, Bool.false_or, Bool.false_eq_true, if_false]
              omega

/-- What is neither keeps a bind request due. -/
theorem bindDue_append {logs hist : List Event} (hlogs : ∀ ev ∈ logs, ev.isBindWrite = false)
    (h : bindDue hist = true) : bindDue (logs ++ hist) = true := by
  induction logs with
  | nil => exact h
  | cons ev logs ih =>
      have hrest := ih fun ev hev => hlogs ev (List.mem_cons_of_mem _ hev)
      show (_ || (!ev.isBindWrite && bindDue (logs ++ hist))) = true
      rw [hlogs ev List.mem_cons_self, hrest]
      simp

/-- What writes no bind request leaves every bind request written due. -/
theorem bindsDue_append {logs hist : List Event} (hlogs : ∀ ev ∈ logs, ev.isBindWrite = false)
    (h : BindsDue hist) : BindsDue (logs ++ hist) := by
  induction logs with
  | nil => exact h
  | cons ev logs ih =>
      refine ⟨fun hev => ?_, ih fun ev hev => hlogs ev (List.mem_cons_of_mem _ hev)⟩
      rw [hlogs ev List.mem_cons_self] at hev
      cases hev

/-! ## Who may write a bind request -/

namespace Session

/-- The PDU is a bind request. -/
def IsBind (s : Session) (r : Ref) : Prop := (s.pdu r).commandId.isBind = true

/-- Whether a PDU is a bind request can be read off its command id. -/
instance (r : Ref) : Decidable (s.IsBind r) := inferInstanceAs (Decidable (_ = true))

/-- A bind request may be written. -/
structure MayBind (s : Session) : Prop where
  due : bindDue s.hist = true
  state : s.currentState = .OPEN

/-- The PDU may be written. -/
def MayWrite (s : Session) (r : Ref) : Prop := r < s.heap.length ∧ (s.IsBind r → s.MayBind)

/-- The PDU is no bind request. -/
def NoBind (s : Session) (r : Ref) : Prop := r < s.heap.length ∧ ¬s.IsBind r

/-- What is no bind request may be written. -/
theorem NoBind.mayWrite {r : Ref} (h : s.NoBind r) : s.MayWrite r := ⟨h.1, fun hb => absurd hb h.2⟩

/-- Bind requests are popped on the io thread only. -/
def BindsOnIo (s : Session) : Prop := ∀ u, u ≠ .io → ∀ r, s.pdu2send u = some r → ¬s.IsBind r

/-- **What most operations leave as it is**, as far as bind requests are concerned. -/
structure Unbinding (s s' : Session) : Prop where
  state : s'.currentState = s.currentState
  due : bindDue s.hist = true → bindDue s'.hist = true
  heap : s.heap.length ≤ s'.heap.length
  kind : ∀ r, r < s.heap.length → (s'.pdu r).commandId = (s.pdu r).commandId

/-- Where a bind request may be written, it may be after what leaves bind requests alone. -/
theorem Unbinding.mayBind (h : s.Unbinding s') (hs : s.MayBind) : s'.MayBind :=
  ⟨h.due hs.due, h.state.trans hs.state⟩

/-- What leaves bind requests alone makes no PDU one, and no bind request another PDU. -/
theorem Unbinding.isBind (h : s.Unbinding s') {r : Ref} (hr : r < s.heap.length) :
    s'.IsBind r ↔ s.IsBind r := by
  unfold IsBind
  rw [h.kind r hr]

/-- What may be written may be written after what leaves bind requests alone. -/
theorem Unbinding.mayWrite (h : s.Unbinding s') {r : Ref} (hs : s.MayWrite r) : s'.MayWrite r :=
  ⟨Nat.lt_of_lt_of_le hs.1 h.heap, fun hb => h.mayBind (hs.2 ((h.isBind hs.1).mp hb))⟩

/-- What is no bind request is none after what leaves bind requests alone. -/
theorem Unbinding.noBind (h : s.Unbinding s') {r : Ref} (hs : s.NoBind r) : s'.NoBind r :=
  ⟨Nat.lt_of_lt_of_le hs.1 h.heap, fun hb => hs.2 ((h.isBind hs.1).mp hb)⟩

/-- Leaving everything as it is leaves bind requests alone. -/
theorem Unbinding.refl (s : Session) : s.Unbinding s := ⟨rfl, id, Nat.le_refl _, fun _ _ => rfl⟩

/-- Two changes that leave bind requests alone are one such change. -/
theorem Unbinding.trans {s₁ s₂ s₃ : Session} (h : s₁.Unbinding s₂) (h' : s₂.Unbinding s₃) :
    s₁.Unbinding s₃ where
  state := h'.state.trans h.state
  due := h'.due ∘ h.due
  heap := Nat.le_trans h.heap h'.heap
  kind r hr := (h'.kind r (Nat.lt_of_lt_of_le hr h.heap)).trans (h.kind r hr)

end Session

open Session

/-- **Bind requests are written at once**: the ageing sweep puts none back on the message level, and none
is popped but by the `do_write` that has found the queue empty. -/
def bindsAtOnce : Guard Op Tid Session Job where
  op t op s :=
    (∀ r ∈ op.pushed?, op = .txPush r .MESSAGE → ¬s.IsBind r) ∧
      (op = .txPop → ∀ r ∈ s.txQ.pop.1, s.IsBind r → t = .io ∧ s.phase t = .found true)
  job _ _ := True

/-- The guard can be evaluated. -/
instance : bindsAtOnce.Checkable where
  op t op s := inferInstanceAs (Decidable
    ((∀ r ∈ op.pushed?, op = .txPush r .MESSAGE → ¬s.IsBind r) ∧
      (op = .txPop → ∀ r ∈ s.txQ.pop.1, s.IsBind r → t = .io ∧ s.phase t = .found true)))
  job _ _ := inferInstanceAs (Decidable True)

/-- The operation writes a bind request. -/
def Op.WritesBind (op : Op) : Prop := ∃ q tbuf, op = .asyncWrite q tbuf ∧ tbuf.commandId.isBind = true

/-- Without that, no bind request is written. -/
theorem isBindWrite_logs {op : Op} (hop : ¬op.WritesBind) :
    ∀ ev ∈ op.logs s, ev.isBindWrite = false := by
  intro ev hev
  by_cases hw : ∃ q tbuf, op = .asyncWrite q tbuf
  · obtain ⟨q, tbuf, rfl⟩ := hw
    rw [Op.logs, List.mem_singleton] at hev
    subst hev
    exact Bool.eq_false_iff.mpr fun hb => hop ⟨q, tbuf, rfl, hb⟩
  · cases op <;> simp at hev <;> first | (subst hev; rfl) | exact absurd ⟨_, _, rfl⟩ hw

/-- An operation that writes no bind request and leaves the session's state alone. -/
theorem unbinding_perform {op : Op} {r : op.Res × Session} (h : perform cfg t op s = some r)
    (hop : ¬op.WritesBind) (hset : ∀ st, op ≠ .setState st) : s.Unbinding r.2 where
  state := perform_currentState h hset
  due hdue := by
    rw [perform_hist h]
    exact bindDue_append (isBindWrite_logs hop) hdue
  heap := heap_perform h
  kind r hr := commandId_perform h hr

/-- What the environment puts on record is never the write of a bind request. -/
theorem isBindWrite_envLogs (e : Env) : ∀ ev ∈ e.logs s, ev.isBindWrite = false := by
  intro ev hev
  rcases mem_env_logs hev with rfl | rfl
  · rfl
  · rfl

/-- What the start of a job puts on record is never the write of a bind request. -/
theorem isBindWrite_jobLogs (j : Job) : ∀ ev ∈ j.logs, ev.isBindWrite = false := by
  intro ev hev
  rcases mem_job_logs hev with ⟨q, -, rfl⟩ | ⟨-, rfl⟩
  · rfl
  · rfl

/-- The environment leaves bind requests alone. -/
theorem unbinding_env {e : Env} (h : e.perform cfg s = some s') : s.Unbinding s' where
  state := env_same (f := .currentState) h (by simp)
  due hdue := by
    rw [env_hist h]
    exact bindDue_append (isBindWrite_envLogs e) hdue
  heap := (pdu_env h).1
  kind r hr := by rw [(pdu_env h).2 r hr]

/-- The start of a job leaves bind requests alone. -/
theorem unbinding_take {j : Job} (h : j.take s = some s') : s.Unbinding s' where
  state := take_same (f := .currentState) h (by simp)
  due hdue := by
    rw [take_hist h]
    exact bindDue_append (isBindWrite_jobLogs j) hdue
  heap := (pdu_take h).1
  kind r _ := by rw [(pdu_take h).2 r]

/-- Another thread writes no bind request. -/
theorem not_writesBind {op : Op} (hk : Known t op s) (hB : s.BindsOnIo) (ht : t ≠ .io) :
    ¬op.WritesBind := by
  rintro ⟨q, tbuf, rfl, hb⟩
  obtain ⟨-, hsend, rfl⟩ := hk
  exact hB t ht q hsend hb

/-- **Every operation keeps the bind requests on the io thread.** -/
theorem bindsOnIo_perform {op : Op} {r : op.Res × Session} (h : perform cfg t op s = some r)
    (hi : Inv s) (hg : bindsAtOnce.op t op s) (hB : s.BindsOnIo) : r.2.BindsOnIo := by
  intro u hu q hq
  have hold : s.pdu2send u = some q → ¬r.2.IsBind q := by
    intro hq
    have hlt : q < s.heap.length := hi.queued q (.flight (mem_inFlight.mpr (.inl ⟨u, hq⟩)))
    unfold IsBind
    rw [commandId_perform h hlt]
    exact hB u hu q hq
  by_cases hw : Field.pdu2send ∈ op.writes
  · by_cases hut : u = t
    · subst hut
      cases op with
      | txPop =>
          -- a bind request is popped on the io thread only
          cases h
          have hself : Function.update s.pdu2send u s.txQ.pop.1 u = s.txQ.pop.1 :=
            Function.update_self ..
          have hpop : s.txQ.pop.1 = some q := hself.symm.trans hq
          exact fun hb => hu (hg.2 rfl q hpop hb).1
      | asyncWrite q' tbuf =>
          -- after `async_write` the thread holds nothing
          cases h
          have hsame : (({ s with pdu2send := Function.update s.pdu2send u none }).startIo
              (.write q')).pdu2send = Function.update s.pdu2send u none :=
            Session.startIo_same (f := .pdu2send) _ (by decide)
          have hself : Function.update s.pdu2send u none u = none := Function.update_self ..
          have hnone := hself.symm.trans ((congrFun hsame u).symm.trans hq)
          cases hnone
      | _ => simp at hw
    · exact hold ((perform_local h hut).1.symm.trans hq)
  · have hsame : r.2.pdu2send = s.pdu2send := perform_same (f := .pdu2send) h hw
    exact hold ((congrFun hsame u).symm.trans hq)

/-- A change that leaves bind requests and the popped PDUs alone keeps the bind requests on the io
thread. -/
theorem bindsOnIo_same (hi : Inv s) (h : s.Unbinding s') (hsend : s'.pdu2send = s.pdu2send)
    (hB : s.BindsOnIo) : s'.BindsOnIo := by
  intro u hu q hq
  rw [hsend] at hq
  have hlt : q < s.heap.length := hi.queued q (.flight (mem_inFlight.mpr (.inl ⟨u, hq⟩)))
  rw [h.isBind hlt]
  exact hB u hu q hq

/-! ## The contract on the io thread -/

/-- **The contract on the io thread**: a bind request is written only if it is due, in `OPEN`. -/
def bindingOnce (cfg : Params) : Focus (system cfg) where
  thread := .io
  guard := known cfg bindsAtOnce
  inv s := Inv s ∧ s.BindsOnIo
  fact op s := op.WritesBind → s.MayBind
  rely s s' := s.Unbinding s' ∧ s'.phase .io = s.phase .io ∧
    (s.owner .writeMutex = some .io → s'.owner .writeMutex = some .io ∧ s'.txQ = s.txQ)
  idle _ := True
  rely_refl s := ⟨Unbinding.refl s, rfl, fun ho => ⟨ho, rfl⟩⟩
  rely_trans _ _ _ h h' := ⟨h.1.trans h'.1, h'.2.1.trans h.2.1, fun ho =>
    ⟨(h'.2.2 (h.2.2 ho).1).1, (h'.2.2 (h.2.2 ho).1).2.trans (h.2.2 ho).2⟩⟩

/-- Nobody touches the queue while the io thread is in the critical section. -/
theorem txQ_perform_other {op : Op} {r : op.Res × Session} (h : perform cfg t op s = some r)
    (hk : Known t op s) (hm : op.mayRun t = true) (ht : t ≠ .io) (ho : s.owner .writeMutex = some .io) :
    r.2.txQ = s.txQ := by
  have hother : s.owner .writeMutex ≠ some t := fun h => ht (Option.some.inj (h.symm.trans ho))
  have hio : op.onIo = false := Op.onIo_of_ne hm ht
  apply perform_same (f := .txQ) h
  intro hw
  cases op with
  | txPush q l => exact hother hk.1
  | txPop => exact hother hk.1
  | txClear l => cases hio
  | txPushBackLastPop => cases hio
  | _ => simp at hw

/-- What the other threads do is a step of the focus on the io thread. -/
theorem steps_bindingOnce : (bindingOnce cfg).Steps where
  op t op s r hi hg hx := by
    obtain ⟨-, hx⟩ := perform_of_exec hx
    refine ⟨⟨inv_perform hx (known_known hg) hi.1, bindsOnIo_perform hx hi.1 (known_guard hg) hi.2⟩,
      fun ht => ⟨?_, (perform_local hx (Ne.symm ht)).2.2, fun ho =>
        ⟨owner_perform hx (known_known hg) (Ne.symm ht) ho,
          txQ_perform_other hx (known_known hg) (known_mayRun hg) ht ho⟩⟩⟩
    refine unbinding_perform hx (not_writesBind (known_known hg) hi.2 ht) fun st hop => ?_
    subst hop
    exact ht (Op.io_of_mayRun (known_mayRun hg) rfl)
  env e s s' hi hx := by
    have hq : s'.txQ = s.txQ := env_same (f := .txQ) hx (by simp)
    have ho : s'.owner = s.owner := env_same (f := .owner) hx (by simp)
    have hph : s'.phase = s.phase := env_same (f := .phase) hx (by simp)
    have hcalm : s.Unbinding s' := unbinding_env hx
    refine ⟨⟨inv_env hx hi.1, bindsOnIo_same hi.1 hcalm (env_same (f := .pdu2send) hx (by simp)) hi.2⟩,
      hcalm, by rw [hph], fun hown => ⟨by rw [ho]; exact hown, hq⟩⟩
  take j s s' hi hg hx := by
    have hq : s'.txQ = s.txQ := take_same (f := .txQ) hx (by simp)
    have ho : s'.owner = s.owner := take_same (f := .owner) hx (by simp)
    have hph : s'.phase = s.phase := take_same (f := .phase) hx (by simp)
    have hcalm : s.Unbinding s' := unbinding_take hx
    refine ⟨⟨inv_take hx (known_quiet hg) hi.1,
      bindsOnIo_same hi.1 hcalm (take_same (f := .pdu2send) hx (by simp)) hi.2⟩,
      fun _ => ⟨hcalm, by rw [hph], fun hown => ⟨by rw [ho]; exact hown, hq⟩⟩⟩

/-! ## Rules for the code -/

/-- An assertion that most operations keep. -/
def KeptUnbinding (P : Session → Prop) : Prop := ∀ s s' : Session, s.Unbinding s' → P s → P s'

/-- An assertion that is kept by what leaves bind requests alone is stable under the other threads.
-/
theorem KeptUnbinding.stable {P : Session → Prop} (hP : KeptUnbinding P) :
    (bindingOnce cfg).contract.Stable .io P :=
  Focus.stable fun s s' _ _ hr hs => hP s s' hr.1 hs

/-- That a bind request may be written is kept. -/
theorem kept_mayBind : KeptUnbinding Session.MayBind := fun _ _ h hs => h.mayBind hs

/-- That a PDU may be written is kept. -/
theorem kept_mayWrite {r : Ref} : KeptUnbinding fun s => s.MayWrite r := fun _ _ h hs => h.mayWrite hs

/-- That a PDU is no bind request is kept. -/
theorem kept_noBind {r : Ref} : KeptUnbinding fun s => s.NoBind r := fun _ _ h hs => h.noBind hs

/-- The operations of which the bind requests take no notice. -/
@[simp] def Op.unbinding : Op → Bool
  | .asyncWrite _ _ | .setState _ => false
  | _ => true

/-- Code of such operations keeps what is kept. -/
theorem triple_unbinding {α : Type} {P : Session → Prop} (hP : KeptUnbinding P) {p : Code α}
    (hp : p.Uses fun op => op.unbinding = true) :
    (bindingOnce cfg).contract.Triple .io P p fun _ => P := by
  apply Focus.Steps.triple_uses steps_bindingOnce hp hP.stable
  intro op s r hop _ hs _ hx
  have hwrite : ¬op.WritesBind := by
    rintro ⟨q, tbuf, rfl, -⟩
    cases hop
  refine ⟨fun hw => absurd hw hwrite, hP s r.2 ?_ hs⟩
  refine unbinding_perform (perform_of_exec hx).2 hwrite fun st => ?_
  rintro rfl
  cases hop

/-- An operation that leaves bind requests alone, whose result or effect matters. -/
theorem triple_unbinding_op {P : Session → Prop} (hP : KeptUnbinding P) {op : Op}
    {Q : op.Res → Session → Prop} (hop : op.unbinding = true)
    (hQ : ∀ b, (bindingOnce cfg).contract.Stable .io (Q b))
    (h : ∀ s r, Inv s → (known cfg bindsAtOnce).op .io op s → P s → P r.2 →
      perform cfg .io op s = some r → Q r.1 r.2) :
    (bindingOnce cfg).contract.Triple .io P (call op) Q := by
  apply Focus.Steps.triple_op steps_bindingOnce hP.stable hQ
  intro s r hi hs hg hx
  obtain ⟨-, hx⟩ := perform_of_exec hx
  have hwrite : ¬op.WritesBind := by
    rintro ⟨q, tbuf, rfl, -⟩
    cases hop
  have hst : ∀ st, op ≠ .setState st := by
    rintro st rfl
    cases hop
  exact ⟨fun hw => absurd hw hwrite, h s r hi.1 hg hs (hP s r.2 (unbinding_perform hx hwrite hst) hs) hx⟩

/-- Code that needs nothing. -/
abbrev Harmless {α : Type} (cfg : Params) (p : Code α) : Prop :=
  (bindingOnce cfg).contract.Triple .io (fun _ => True) p fun _ _ => True

/-- The assertion that asks for nothing is kept. -/
theorem kept_true : KeptUnbinding fun _ => True := fun _ _ _ _ => trivial

/-- Harmless code that runs under a condition is harmless. -/
theorem Harmless.when {b : Bool} {p : Code Unit} (hp : Harmless cfg p) : Harmless cfg (Prog.when b p) :=
  Contract.Triple.when kept_true.stable fun _ => hp

/-- Code that does nothing is harmless. -/
theorem Harmless.ret {α : Type} (a : α) : Harmless cfg (.ret a : Code α) :=
  Contract.Triple.skip kept_true.stable

/-- The state may be set. -/
theorem Harmless.uses {α : Type} {p : Code α} (hp : p.Uses fun op => ∀ q tbuf, op ≠ .asyncWrite q tbuf) :
    Harmless cfg p := by
  apply Focus.Steps.triple_uses steps_bindingOnce hp kept_true.stable
  intro op s r hop _ _ _ _
  refine ⟨?_, trivial⟩
  rintro ⟨q, tbuf, rfl, -⟩
  exact absurd rfl (hop q tbuf)

/-! ## Writing -/

/-- The io thread is in the critical section, and what it is going to pop may be written. -/
structure Session.PopsMayWrite (s : Session) : Prop where
  owner : s.owner .writeMutex = some .io
  pop : s.phase .io = .found false ∨ ∀ q, s.txQ.pop.1 = some q → s.MayWrite q

/-- What the io thread is going to pop stays one that may be written, since it holds `writeMutex`.
-/
theorem stable_popsMayWrite : (bindingOnce cfg).contract.Stable .io Session.PopsMayWrite :=
  Focus.stable fun s s' _ _ ⟨hcalm, hph, hq⟩ hs => by
    obtain ⟨ho', htx⟩ := hq hs.owner
    refine ⟨ho', ?_⟩
    rw [hph, htx]
    exact hs.pop.imp_right fun hpop q hq => hcalm.mayWrite (hpop q hq)

/-- A single operation that leaves bind requests alone is code that does. -/
theorem uses_unbinding {op : Op} (hop : op.unbinding = true) :
    (call op).Uses fun op => op.unbinding = true := uses_call hop

/-- `seqNumGen.next()` leaves bind requests alone. -/
theorem uses_seqNumGenNext_unbinding : seqNumGenNext.Uses fun op => op.unbinding = true := by
  refine uses_then rfl fun _ => uses_then rfl fun v => ?_
  split
  · exact uses_then rfl fun _ => uses_then rfl fun _ => trivial
  · exact uses_then rfl fun _ => uses_then rfl fun _ => trivial

/-- `throttle_check` leaves bind requests alone. -/
theorem uses_throttleCheck_unbinding : (throttleCheck cfg).Uses fun op => op.unbinding = true :=
  uses_then rfl fun _ => uses_then rfl fun _ =>
    (uses_unbinding rfl).when.bind fun _ => uses_call rfl

/-- A pop yields a PDU that may be written. -/
theorem triple_pop_once : (bindingOnce cfg).contract.Triple .io Session.PopsMayWrite (call .txPop)
    fun o s => ∀ q, o = some q → s.MayWrite q := by
  have hkept : ∀ o, KeptUnbinding fun s => ∀ q, o = some q → s.MayWrite q :=
    fun o s s' h hs q hq => h.mayWrite (hs q hq)
  refine Focus.Steps.triple_op steps_bindingOnce stable_popsMayWrite (fun o => (hkept o).stable) ?_
  rintro s r ⟨hi, -⟩ hs hg hx
  obtain ⟨-, hx⟩ := perform_of_exec hx
  have hwrite : ¬Op.txPop.WritesBind := by
    rintro ⟨q, tbuf, h, -⟩
    cases h
  have hcalm := unbinding_perform hx hwrite nofun
  refine ⟨fun hw => absurd hw hwrite, fun q hq => hcalm.mayWrite ?_⟩
  cases hx
  have hpop : s.txQ.pop.1 = some q := hq
  rcases hs.pop with hph | hmay
  · -- what has waited in the queue is no bind request
    have hmem : q ∈ s.txQ := (PrioQ.mem_pop (Prod.ext hpop rfl)).mpr (.inl rfl)
    refine ⟨hi.queued q (.waiting hmem), fun hb => ?_⟩
    have hfound : s.phase .io = .found true := ((known_guard hg).2 rfl q hpop hb).2
    rw [hph] at hfound
    cases hfound
  · exact hmay q hpop

/-- **`write_pdu`** writes a PDU that may be written. -/
theorem triple_writePdu_once : (bindingOnce cfg).contract.Triple .io Session.PopsMayWrite (writePdu cfg)
    fun _ _ => True := by
  refine triple_pop_once.bind fun o => ?_
  cases o with
  | none => exact (triple_unbinding kept_true (uses_call rfl)).pre fun _ _ _ => trivial
  | some q =>
      -- from the pop to `async_write` nothing changes what is due
      have hnumber : (do
          let n ← seqNumGenNext
          call (.setSeq q n) : Code Unit).Uses fun op => op.unbinding = true :=
        uses_seqNumGenNext_unbinding.bind fun _ => uses_call rfl
      have hread : (bindingOnce cfg).contract.Triple .io (fun s => s.MayWrite q) (call (.getPdu q))
          fun tbuf s => tbuf.commandId.isBind = true → s.MayBind := by
        refine triple_unbinding_op kept_mayWrite rfl (fun tbuf => ?_) ?_
        · exact KeptUnbinding.stable fun s s' h hs hb => h.mayBind (hs hb)
        · intro s r _ _ hs _ hx
          cases hx
          exact hs.2
      refine Contract.Triple.bind (Q := fun _ s => s.MayWrite q)
        (Contract.Triple.pre (P := fun s => s.MayWrite q) ?_ fun s _ hs => hs q rfl) fun p => ?_
      · exact triple_unbinding kept_mayWrite (uses_call rfl)
      refine (triple_unbinding kept_mayWrite hnumber.when).bind fun _ => hread.bind fun tbuf => ?_
      have hkept : KeptUnbinding fun s => tbuf.commandId.isBind = true → s.MayBind :=
        fun s s' h hs hb => h.mayBind (hs hb)
      refine (triple_unbinding hkept uses_throttleCheck_unbinding).bind fun _ => ?_
      refine Focus.Steps.triple_op steps_bindingOnce hkept.stable (fun _ => kept_true.stable) ?_
      rintro s r - hs - -
      refine ⟨?_, trivial⟩
      -- `async_write` gets the octets that were read
      rintro ⟨q', tbuf', heq, hb⟩
      cases heq
      exact hs hb

/-- The PDU exists, and may be written unless it is put on the message level. -/
def Session.MayPush (s : Session) (r : Ref) (l : Level) : Prop :=
  r < s.heap.length ∧ (l ≠ .MESSAGE → s.MayWrite r)

/-- `do_write` is about to push it: the io thread is in the critical section, and the queue is empty if
it was found so. -/
def Session.Pushing (s : Session) (r : Ref) (l : Level) (e : Bool) : Prop :=
  s.MayPush r l ∧ s.owner .writeMutex = some .io ∧ (e = true → s.txQ.empty = true)

/-- That a PDU may be pushed on a level is kept. -/
theorem kept_mayPush {r : Ref} {l : Level} : KeptUnbinding fun s => s.MayPush r l :=
  fun _ _ h hs => ⟨Nat.lt_of_lt_of_le hs.1 h.heap, fun hl => h.mayWrite (hs.2 hl)⟩

/-- What `do_write` is about to push stays so under the other threads. -/
theorem stable_pushing {r : Ref} {l : Level} {e : Bool} :
    (bindingOnce cfg).contract.Stable .io fun s => s.Pushing r l e := by
  refine Focus.stable ?_
  rintro s s' - - ⟨hcalm, -, hq⟩ ⟨hs, ho, he⟩
  obtain ⟨ho', htx⟩ := hq ho
  exact ⟨kept_mayPush s s' hcalm hs, ho', fun heq => by rw [htx]; exact he heq⟩

/-- A PDU pushed into an empty queue is the one that is popped. -/
theorem triple_txPush_once {r : Ref} {l : Level} {e : Bool} :
    (bindingOnce cfg).contract.Triple .io (fun s => s.Pushing r l e) (call (.txPush r l))
      fun _ s => e = true → s.PopsMayWrite := by
  refine Focus.Steps.triple_op steps_bindingOnce stable_pushing (fun _ => ?_) ?_
  · exact fun s s' hi hs hr hi' he => stable_popsMayWrite s s' hi (hs he) hr hi'
  · rintro s x - ⟨hs, ho, he⟩ hg hx
    obtain ⟨-, hx⟩ := perform_of_exec hx
    have hwrite : ¬(Op.txPush r l).WritesBind := by
      rintro ⟨q, tbuf, h, -⟩
      cases h
    have hcalm := unbinding_perform hx hwrite nofun
    refine ⟨fun hw => absurd hw hwrite, fun heq => ?_⟩
    -- what is pushed may be written: as a message it is no bind request, else it was due
    have hmay : s.MayWrite r := by
      by_cases hl : l = .MESSAGE
      · subst hl
        exact ⟨hs.1, fun hb => absurd hb ((known_guard hg).1 r rfl rfl)⟩
      · exact hs.2 hl
    have hpop := (PrioQ.pop_push_of_empty (he heq) r l).1
    have hmay' := hcalm.mayWrite hmay
    cases hx
    refine ⟨ho, .inr fun q hq => ?_⟩
    have hqr : some q = some r := hq.symm.trans hpop
    cases hqr
    exact hmay'

/-- **`do_write`** of a PDU that may be written, or is put on the message level. -/
theorem triple_doWrite_once {r : Ref} {l : Level} : (bindingOnce cfg).contract.Triple .io
    (fun s => s.MayPush r l) (doWrite cfg r l) fun _ _ => True := by
  have hempty : (bindingOnce cfg).contract.Triple .io (fun s => s.MayPush r l) (call .txEmpty)
      fun e s => s.Pushing r l e := by
    refine triple_unbinding_op kept_mayPush rfl (fun _ => stable_pushing) ?_
    intro s x _ hg hs hs' hx
    have ho : s.owner .writeMutex = some .io := (known_known hg).1
    cases hx
    exact ⟨hs', ho, id⟩
  unfold doWrite writing
  refine (triple_unbinding kept_mayPush (uses_call rfl)).bind fun _ => ?_
  rw [Prog.bind_assoc]
  refine hempty.bind fun e => ?_
  rw [Prog.pure_eq_ret, Prog.ret_bind]
  refine triple_txPush_once.bind fun _ => ?_
  refine Contract.Triple.bind (Q := fun _ _ => True) ?_ fun _ => triple_unbinding kept_true (uses_call rfl)
  cases e with
  | true => exact triple_writePdu_once.pre fun s _ hs => hs rfl
  | false => exact (Harmless.ret ()).pre fun _ _ _ => trivial

/-- What may be written is written. -/
theorem triple_mayWrite {r : Ref} {l : Level} : (bindingOnce cfg).contract.Triple .io
    (fun s => s.MayWrite r) (doWrite cfg r l) fun _ _ => True :=
  triple_doWrite_once.pre fun _ _ hs => ⟨hs.1, fun _ => hs⟩

/-- `do_write` of a PDU that is no bind request needs no permission. -/
theorem triple_noBind {r : Ref} {l : Level} : (bindingOnce cfg).contract.Triple .io
    (fun s => s.NoBind r) (doWrite cfg r l) fun _ _ => True :=
  triple_mayWrite.pre fun _ _ hs => hs.mayWrite

/-- A PDU that is no bind request is constructed. -/
theorem triple_newPdu_once {p : Pdu} (hp : p.commandId.isBind = false) :
    (bindingOnce cfg).contract.Triple .io (fun _ => True) (call (.newPdu p)) fun r s => s.NoBind r := by
  refine triple_unbinding_op kept_true rfl (fun _ => kept_noBind.stable) ?_
  intro s x _ _ _ _ hx
  obtain ⟨hlt, hpdu⟩ := perform_newPdu hx
  refine ⟨hlt, fun hb => ?_⟩
  unfold Session.IsBind at hb
  rw [hpdu, hp] at hb
  cases hb

/-- A PDU that is no bind request is constructed and written. -/
theorem Harmless.write {p : Pdu} {l : Level} (hp : p.commandId.isBind = false) :
    Harmless cfg (call (.newPdu p) >>= fun r => doWrite cfg r l) :=
  (triple_newPdu_once hp).bind fun _ => triple_noBind

/-- **`do_bind_request`** writes a bind request that is due. -/
theorem triple_doBindRequest_once : (bindingOnce cfg).contract.Triple .io Session.MayBind
    (doBindRequest cfg) fun _ _ => True := by
  have hnew : ∀ p : Pdu, (bindingOnce cfg).contract.Triple .io Session.MayBind (call (.newPdu p))
      fun r s => s.MayWrite r := by
    intro p
    refine triple_unbinding_op kept_mayBind rfl (fun _ => kept_mayWrite.stable) ?_
    intro s x _ _ _ hs hx
    exact ⟨(perform_newPdu hx).1, fun _ => hs⟩
  exact (triple_unbinding kept_mayBind uses_seqNumGenNext_unbinding).bind fun _ =>
    (hnew _).bind fun _ => triple_mayWrite

/-! ## The handlers -/

/-- Code that hands nothing to `async_write`. -/
theorem Harmless.of_uses {α : Type} {S : Op → Bool} {p : Code α} (hp : p.Uses fun op => S op = true)
    (hS : ∀ q tbuf, S (.asyncWrite q tbuf) = false) : Harmless cfg p := by
  refine Harmless.uses (hp.mono fun op hop q tbuf => ?_)
  rintro rfl
  rw [hS] at hop
  cases hop

/-- One operation that is no write. -/
theorem Harmless.call {op : Op} (hop : ∀ q tbuf, op ≠ .asyncWrite q tbuf) : Harmless cfg (call op) :=
  Harmless.uses (uses_call hop)

/-- `seqNumGen.next()` hands nothing to `async_write`. -/
theorem harmless_seqNumGenNext : Harmless cfg seqNumGenNext :=
  triple_unbinding kept_true uses_seqNumGenNext_unbinding

/-- `close_session` writes an unbind request at most, which is no bind request. -/
theorem harmless_closeSession (reConnect : Bool) : Harmless cfg (closeSession cfg reConnect) := by
  have hunbind : Harmless cfg (doUnbindRequest cfg) := Harmless.write rfl
  exact (Harmless.call (by simp)).bind fun _ => (Harmless.call (by simp)).bind fun _ =>
    hunbind.when.bind fun _ => Harmless.call (by simp)

/-- `handle_read_error` writes an unbind request at most. -/
theorem harmless_handleReadError (e : ErrorCode) : Harmless cfg (handleReadError cfg e) := by
  unfold handleReadError
  refine (Harmless.call (by simp)).bind fun stopFlag => Harmless.when ?_
  split
  · exact (Harmless.call (by simp)).bind fun _ => (Harmless.call (by simp)).bind fun _ =>
      Harmless.call (by simp)
  · exact harmless_closeSession true

/-- `handle_read_header` writes nothing but what `handle_read_error` does. -/
theorem harmless_handleReadHeader (raw : RawPdu) (e : ErrorCode) :
    Harmless cfg (handleReadHeader cfg raw e) := by
  unfold handleReadHeader
  split
  · exact Harmless.call (by simp)
  · exact harmless_handleReadError e

/-- `do_enquire_link` writes an `enquire_link` at most. -/
theorem harmless_doEnquireLink (e : ErrorCode) : Harmless cfg (doEnquireLink cfg e) :=
  Harmless.when <| harmless_seqNumGenNext.bind fun _ => (triple_newPdu_once rfl).bind fun _ =>
    triple_noBind.bind fun _ => Harmless.call (by simp)

/-- `do_enquire_link_failure` writes nothing but what `close_session` does. -/
theorem harmless_doEnquireLinkFailure (e : ErrorCode) : Harmless cfg (doEnquireLinkFailure cfg e) :=
  Harmless.when <| (Harmless.call (by simp)).bind fun _ => Harmless.when <|
    (Harmless.call (by simp)).bind fun _ => harmless_closeSession false

/-- `w4rQ_put` writes nothing. -/
theorem harmless_w4rQPut (r : Ref) : Harmless cfg (w4rQPut r) :=
  Harmless.uses <| uses_then (by simp) fun _ => Prog.Uses.when <|
    uses_then (by simp) fun _ => uses_then (by simp) fun _ => uses_call (by simp)

/-- `canSend` writes nothing. -/
theorem harmless_canSend : Harmless cfg canSend := by
  refine Harmless.uses <| uses_then (by simp) fun _ => ?_
  split
  · exact uses_then (by simp) fun _ => trivial
  · trivial

/-- **`handle_write`** may go on to what waits in the queue, which is no bind request. -/
theorem harmless_goOn : Harmless cfg (do
    let e ← call .txEmpty
    Prog.when (!e) (writePdu cfg)) := by
  have hask : (bindingOnce cfg).contract.Triple .io (fun _ => True) (call .txEmpty)
      fun e s => e = false → s.PopsMayWrite := by
    refine triple_unbinding_op kept_true rfl (fun _ => ?_) ?_
    · exact fun s s' hi hs hr hi' he => stable_popsMayWrite s s' hi (hs he) hr hi'
    · intro s x _ hg _ _ hx he
      have ho : s.owner .writeMutex = some .io := (known_known hg).1
      cases hx
      have hself : Function.update s.phase .io (.found s.txQ.empty) .io = .found s.txQ.empty :=
        Function.update_self ..
      have he : s.txQ.empty = false := he
      exact ⟨ho, .inl (hself.trans (by rw [he]))⟩
  refine hask.bind fun e => ?_
  cases e with
  | true => exact (Harmless.ret ()).pre fun _ _ _ => trivial
  | false => exact triple_writePdu_once.pre fun s _ hs => hs rfl

/-- `handle_write` goes on with the queue, from which it pops no bind request. -/
theorem harmless_handleWrite (e : ErrorCode) : Harmless cfg (handleWrite cfg e) := by
  have hwritten : ∀ o, Harmless cfg (handleWritten cfg o) := by
    intro o
    cases o with
    | none => exact Harmless.call (by simp)
    | some lastPop =>
        exact (harmless_w4rQPut lastPop).bind fun _ => (Harmless.call (by simp)).bind fun _ =>
          harmless_canSend.bind fun _ => Harmless.when harmless_goOn
  unfold handleWrite
  split
  · exact (Harmless.call (by simp)).bind fun _ => (Harmless.call (by simp)).bind fun o =>
      (hwritten o).bind fun _ => Harmless.call (by simp)
  · exact (Harmless.call (by simp)).bind fun _ => (Harmless.call (by simp)).bind fun _ =>
      Harmless.when <| (Harmless.call (by simp)).bind fun _ => (Harmless.call (by simp)).bind fun _ =>
        Harmless.call (by simp)

/-- **The ageing sweep** puts no bind request back, which the guard says. -/
theorem harmless_ageSweep (keys : List Nat) : Harmless cfg (ageSweep cfg keys) := by
  induction keys with
  | nil => exact Harmless.ret ()
  | cons k ks ih =>
      -- every PDU the sweep comes to is on record
      have hat : (bindingOnce cfg).contract.Triple .io (fun _ => True) (call (.w4rAt k))
          fun o s => ∀ i, o = some i → i.obj < s.heap.length := by
        have hkept : ∀ o : Option TimeStampedPdu,
            KeptUnbinding fun s => ∀ i, o = some i → i.obj < s.heap.length :=
          fun o s s' h hs i hi => Nat.lt_of_lt_of_le (hs i hi) h.heap
        refine triple_unbinding_op kept_true rfl (fun o => (hkept o).stable) ?_
        intro s x hi _ _ _ hx i hget
        cases hx
        exact hi.queued i.obj (.awaiting ⟨k, i, hget, rfl⟩)
      refine hat.bind fun o => ?_
      cases o with
      | none => exact ih.pre fun _ _ _ => trivial
      | some i =>
          have hkept : KeptUnbinding fun s => i.obj < s.heap.length :=
            fun s s' h hs => Nat.lt_of_lt_of_le hs h.heap
          refine Contract.Triple.bind (Q := fun _ s => i.obj < s.heap.length)
            (Contract.Triple.pre (P := fun s => i.obj < s.heap.length) ?_ fun s _ hs => hs i rfl)
            fun now => ?_
          · exact triple_unbinding hkept (uses_call rfl)
          refine Contract.Triple.bind (Q := fun _ _ => True) ?_ fun _ => ih
          unfold Prog.when
          split
          · -- what it hands over goes on the message level
            have hwrite : (bindingOnce cfg).contract.Triple .io (fun s => i.obj < s.heap.length)
                (doWrite cfg i.obj .MESSAGE) fun _ _ => True :=
              triple_doWrite_once.pre fun s _ hs => ⟨hs, fun hl => absurd rfl hl⟩
            refine hwrite.bind fun _ => Harmless.uses <| uses_then (by simp) fun o => ?_
            cases o with
            | none => exact uses_call (by simp)
            | some k' => exact (uses_call (by simp)).when
          · exact (Harmless.ret ()).pre fun _ _ _ => trivial

/-- `w4rQ_age_cleanup` puts no bind request back on the message level. -/
theorem harmless_w4rQAgeCleanup (e : ErrorCode) : Harmless cfg (w4rQAgeCleanup cfg e) :=
  Harmless.when <| (Harmless.call (by simp)).bind fun _ => Harmless.when <|
    (Harmless.call (by simp)).bind fun _ => (Harmless.call (by simp)).bind fun keys =>
      (harmless_ageSweep keys).bind fun _ => (Harmless.call (by simp)).bind fun _ =>
        Harmless.call (by simp)

/-- **`handle_connect`**, taken up with success, writes the bind request that is due. -/
theorem triple_handleConnect_once (e : ErrorCode) : (bindingOnce cfg).contract.Triple .io
    (fun s => e = .success → bindDue s.hist = true) (handleConnect cfg e) fun _ _ => True := by
  unfold handleConnect
  split
  · next he =>
      have hkept : KeptUnbinding fun s => e = .success → bindDue s.hist = true :=
        fun s s' h hs he => h.due (hs he)
      refine Contract.Triple.bind (Q := fun _ s => s.MayBind) ?_ fun _ =>
        triple_doBindRequest_once.bind fun _ => Harmless.call (by simp)
      refine Focus.Steps.triple_op steps_bindingOnce hkept.stable (fun _ => kept_mayBind.stable) ?_
      rintro s x - hs - hx
      obtain ⟨-, hx⟩ := perform_of_exec hx
      have hwrite : ¬(Op.setState .OPEN).WritesBind := by
        rintro ⟨q, tbuf, h, -⟩
        cases h
      -- connecting makes a bind due, and the state is open
      have hdue : bindDue x.2.hist = true := by
        rw [perform_hist hx]
        exact bindDue_append (isBindWrite_logs hwrite) (hs he)
      refine ⟨fun hw => absurd hw hwrite, hdue, ?_⟩
      cases hx
      rfl
  · refine Contract.Triple.pre (P := fun _ => True) ?_ fun _ _ _ => trivial
    refine Harmless.uses <| uses_then (by simp) fun _ => Prog.Uses.when ?_
    exact uses_then (by simp) fun _ => uses_then (by simp) fun _ => uses_call (by simp)

/-- What a PDU received in the state `st` is to find: an `outbind` in `OPEN` is answered with a bind
request that is due. -/
def Session.Outbinding (s : Session) (raw : RawPdu) (st : State) : Prop :=
  st = .OPEN → CommandId.ofValue raw.cmdId = .Outbind → s.MayBind

/-- What an `outbind` is to find is kept. -/
theorem kept_outbinding {raw : RawPdu} {st : State} : KeptUnbinding fun s => s.Outbinding raw st :=
  fun _ _ h hs hst hcmd => h.mayBind (hs hst hcmd)

/-- Code for a received PDU. -/
theorem triple_dispatch_once {raw : RawPdu} {st : State} {p : Code Completion}
    (h : Dispatch cfg raw st p) : (bindingOnce cfg).contract.Triple .io
      (fun s => s.Outbinding raw st) p fun _ _ => True := by
  have hwrite : ∀ c : CommandId, c.isBind = false → Harmless cfg
      (call (.newPdu (responsePdu raw c)) >>= fun r => doWrite cfg r .RESPONSE) :=
    fun c hc => Harmless.write hc
  cases h with
  | outbind hcmd =>
      apply Contract.Triple.pre (P := Session.MayBind) _ fun _ _ hs => hs rfl hcmd
      exact triple_doBindRequest_once.bind fun _ => Harmless.ret _
  | ignored => exact (Harmless.ret _).pre fun _ _ _ => trivial
  | submitSmResp => exact (Harmless.ret _).pre fun _ _ _ => trivial
  | bindResp _ st' =>
      apply Contract.Triple.pre (P := fun _ => True) _ fun _ _ _ => trivial
      exact (Harmless.when (Harmless.call (by simp))).bind fun _ => Harmless.ret _
  | enquireLink =>
      apply Contract.Triple.pre (P := fun _ => True) _ fun _ _ _ => trivial
      unfold procpduEnquireLink
      split
      · rw [← Prog.bind_assoc]
        exact (hwrite .EnquireLinkResp rfl).bind fun _ => Harmless.ret _
      · exact Harmless.ret _
  | enquireLinkResp =>
      apply Contract.Triple.pre (P := fun _ => True) _ fun _ _ _ => trivial
      exact (Harmless.call (by simp)).bind fun _ => Harmless.ret _
  | deliverSm =>
      apply Contract.Triple.pre (P := fun _ => True) _ fun _ _ _ => trivial
      unfold procpduDeliverSm
      split
      · refine (Harmless.call (by simp)).bind fun _ => (Harmless.call (by simp)).bind fun _ => ?_
        rw [← Prog.bind_assoc]
        exact (hwrite .DeliverSmResp rfl).bind fun _ => Harmless.ret _
      · exact Harmless.ret _
  | unbind =>
      apply Contract.Triple.pre (P := fun _ => True) _ fun _ _ _ => trivial
      unfold procpduUnbind
      split
      · refine (triple_newPdu_once rfl).bind fun r => ?_
        -- a change of the state is nothing to a PDU that is no bind request
        have hset : (bindingOnce cfg).contract.Triple .io (fun s => s.NoBind r) (setCurrentState .UNBOUND)
            fun _ s => s.NoBind r := by
          apply Focus.Steps.triple_op steps_bindingOnce kept_noBind.stable
            fun _ => kept_noBind.stable
          rintro s x - hs - hx
          refine ⟨?_, ?_⟩
          · rintro ⟨q, tbuf, h, -⟩
            cases h
          · cases (perform_of_exec hx).2
            exact hs
        exact hset.bind fun _ => triple_noBind.bind fun _ => (Harmless.call (by simp)).bind fun _ =>
          (Harmless.call (by simp)).bind fun _ => (Harmless.call (by simp)).bind fun _ => Harmless.ret _
      · exact Harmless.ret _
  | unbindResp =>
      apply Contract.Triple.pre (P := fun _ => True) _ fun _ _ _ => trivial
      exact (Harmless.call (by simp)).bind fun _ => (harmless_closeSession false).bind fun _ =>
        Harmless.ret _

/-- `process4state` writes a bind request for an `outbind` only, and then one is due. -/
theorem harmless_process4state (raw : RawPdu) : Harmless cfg (process4state cfg raw) := by
  have hstate : ∀ st, KeptUnbinding fun s => s.currentState = st :=
    fun st s s' h hs => h.state.trans hs
  -- only the note of an `outbind` in `OPEN` calls for a bind
  have hreschedule : Harmless cfg rescheduleEnquireLink :=
    (Harmless.call (by simp)).bind fun _ => (Harmless.call (by simp)).bind fun _ =>
      Harmless.call (by simp)
  have hget : (bindingOnce cfg).contract.Triple .io (fun _ => True) (call .getState)
      fun st s => s.currentState = st := by
    have hstable : ∀ st, (bindingOnce cfg).contract.Stable .io fun s => s.currentState = st :=
      fun st => (hstate st).stable
    refine triple_unbinding_op kept_true rfl hstable ?_
    intro s x _ _ _ _ hx
    cases hx
    rfl
  have hnote : ∀ st, (bindingOnce cfg).contract.Triple .io (fun s => s.currentState = st)
      (call (.note (.received raw st))) fun _ s => s.Outbinding raw st := by
    intro st
    apply triple_unbinding_op (hstate st) rfl fun _ => kept_outbinding.stable
    intro s x _ _ _ hs hx hst hcmd
    refine ⟨?_, hs.trans hst⟩
    rw [perform_hist hx]
    subst hst
    have hcall : (Event.mark (.received raw .OPEN)).callsForBind = true := decide_eq_true hcmd
    show (_ || _) = true
    rw [hcall, Bool.true_or]
  unfold process4state
  refine hreschedule.bind fun _ => hget.bind fun st => (hnote st).bind fun _ => ?_
  refine (triple_dispatch_once (dispatch_process4stateSwitch cfg raw st)).bind fun completion => ?_
  cases completion with
  | returned => exact Harmless.ret _
  | threw => exact harmless_closeSession true

/-- `handle_read_body` writes no other bind request than `process4state` does. -/
theorem harmless_handleReadBody (raw : RawPdu) (e : ErrorCode) : Harmless cfg (handleReadBody cfg raw e) := by
  have hpop : Harmless cfg (w4rQPop raw) :=
    Harmless.uses <| Prog.Uses.when <| uses_then (by simp) fun _ => uses_then (by simp) fun _ =>
      uses_call (by simp)
  unfold handleReadBody
  split
  · exact hpop.bind fun _ => (harmless_process4state raw).bind fun _ => Harmless.call (by simp)
  · exact harmless_handleReadError e

/-- **A handler writes a bind request only if it is due.** -/
theorem triple_handler_once (q : Handler) : (bindingOnce cfg).contract.Triple .io
    (fun s => q = .handleConnect .success → bindDue s.hist = true) (q.body cfg) fun _ _ => True := by
  have hharmless : Harmless cfg (q.body cfg) → (bindingOnce cfg).contract.Triple .io
      (fun s => q = .handleConnect .success → bindDue s.hist = true) (q.body cfg) fun _ _ => True :=
    fun h => h.pre fun _ _ _ => trivial
  cases q with
  | handleConnect e => exact (triple_handleConnect_once e).pre fun s _ hs he => hs (by rw [he])
  | handleReadHeader raw e => exact hharmless (harmless_handleReadHeader raw e)
  | handleReadBody raw e => exact hharmless (harmless_handleReadBody raw e)
  | handleWrite r e => exact hharmless (harmless_handleWrite e)
  | closeConnection =>
      exact hharmless (Harmless.of_uses ofCloseConnection_closeConnection fun _ _ => rfl)
  | doEnquireLink e => exact hharmless (harmless_doEnquireLink e)
  | doEnquireLinkFailure e => exact hharmless (harmless_doEnquireLinkFailure e)
  | w4rQAgeCleanup e => exact hharmless (harmless_w4rQAgeCleanup e)

/-! ## Soundness -/

variable {p : Persisted} {now : Nat} {c : Machine}

/-- **The focus on bind requests is sound**: whatever the io thread runs finds what it relies on. -/
theorem bindingOnce_sound (cfg : Params) (p : Persisted) (now : Nat) :
    (bindingOnce cfg).contract.Sound (Machine.init p now) := by
  refine sound_of_handlers steps_bindingOnce rfl ⟨inv_init p now, fun u _ r hr => ?_⟩ trivial
    kept_true.stable ?_
  · cases hr
  · intro q s s' _ hi' _ _ hx
    apply triple_handler_once q s' hi'
    rintro rfl
    rw [take_hist hx]
    rfl

/-- No bind request was handed to `async_write` in a bound state. -/
def Session.BindsUnbound (s : Session) : Prop :=
  ∀ r tbuf st conn, .wrote r tbuf st conn ∈ s.hist → tbuf.commandId.isBind = true → st.isBound = false

/-- No bind request is put on record in a bound state by events that record no such write. -/
theorem bindsUnbound_append {logs : List Event} (hhist : s'.hist = logs ++ s.hist)
    (hlogs : ∀ ev ∈ logs, ev.isBindWrite = false) (h : s.BindsUnbound) : s'.BindsUnbound := by
  intro r tbuf st conn hev hb
  rw [hhist] at hev
  rcases List.mem_append.mp hev with hev | hev
  · have hnone : tbuf.commandId.isBind = false := hlogs _ hev
    rw [hb] at hnone
    cases hnone
  · exact h r tbuf st conn hev hb

/-- **Every bind request written was due, and was written in no bound state.** -/
theorem binds_due (h : Runs cfg bindsAtOnce p now c) :
    BindsDue c.shared.hist ∧ c.shared.BindsUnbound := by
  suffices hK : (BindsDue c.shared.hist ∧ c.shared.BindsUnbound) ∧ c.shared.BindsOnIo from hK.1
  apply Runs.dataKnown (K := fun s => (BindsDue s.hist ∧ s.BindsUnbound) ∧ s.BindsOnIo)
    (bindingOnce_sound cfg p now) rfl h
  · refine ⟨⟨⟨(by simp [Event.isBindWrite]), trivial⟩, fun r tbuf st conn hev => ?_⟩, fun u _ r hr => ?_⟩
    · cases List.mem_singleton.mp hev
    · cases hr
  · rintro t op s r hi ⟨⟨hdue, hunbound⟩, hB⟩ hg hf hx
    refine ⟨?_, bindsOnIo_perform hx hi (known_guard hg) hB⟩
    by_cases hw : op.WritesBind
    · -- only the io thread writes a bind request, and only one that is due
      have ht : t = .io := by
        by_contra ht
        exact not_writesBind (known_known hg) hB ht hw
      have hmay : s.MayBind := hf ht hw
      obtain ⟨q, tbuf, rfl, hb⟩ := hw
      have hhist := perform_hist hx
      refine ⟨?_, fun r' tbuf' st conn hev hb' => ?_⟩
      · rw [hhist]
        exact ⟨fun _ => hmay.due, hdue⟩
      · rw [hhist] at hev
        rcases List.mem_cons.mp hev with hev | hev
        · cases hev
          rw [hmay.state]
          rfl
        · exact hunbound r' tbuf' st conn hev hb'
    · have hhist := perform_hist hx
      refine ⟨?_, bindsUnbound_append hhist (isBindWrite_logs hw) hunbound⟩
      rw [hhist]
      exact bindsDue_append (isBindWrite_logs hw) hdue
  · rintro e s s' hi ⟨⟨hdue, hunbound⟩, hB⟩ hx
    -- the environment and the taking up of a job write nothing
    have hlogs := isBindWrite_envLogs (s := s) e
    refine ⟨⟨?_, bindsUnbound_append (env_hist hx) hlogs hunbound⟩,
      bindsOnIo_same hi (unbinding_env hx) (env_same (f := .pdu2send) hx (by simp)) hB⟩
    rw [env_hist hx]
    exact bindsDue_append hlogs hdue
  · rintro j s s' hi - ⟨⟨hdue, hunbound⟩, hB⟩ - hx
    have hlogs := isBindWrite_jobLogs j
    refine ⟨⟨?_, bindsUnbound_append (take_hist hx) hlogs hunbound⟩,
      bindsOnIo_same hi (unbinding_take hx) (take_same (f := .pdu2send) hx (by simp)) hB⟩
    rw [take_hist hx]
    exact bindsDue_append hlogs hdue

/-- **One bind request for each call for one**: since a successful `handle_connect` the session has
written no more bind requests than one for it and one for each later call, and none in a bound state. -/
theorem one_bind_for_each_call (h : Runs cfg bindsAtOnce p now c) :
    (∀ newer older, c.shared.hist = newer ++ .started (.handleConnect .success) :: older →
      newer.countP Event.isBindWrite ≤ 1 + newer.countP Event.callsForBind) ∧
    ∀ r tbuf st conn, .wrote r tbuf st conn ∈ c.shared.hist → tbuf.commandId.isBind = true →
      st.isBound = false := by
  obtain ⟨hdue, hunbound⟩ := binds_due h
  refine ⟨fun newer older hhist => ?_, hunbound⟩
  rw [hhist] at hdue
  have hcount := countP_isBindWrite_le newer _ hdue
  have hone : (bindDue (.started (.handleConnect .success) :: older)).toNat ≤ 1 := Bool.toNat_le _
  omega

/-- The peer asks for a bind of its own: an `outbind` is received right after the connection is up. -/
def outbound : List Step :=
  Schedule.connect ++ .env (.elapse 1000000) :: Schedule.receive (Schedule.response .Outbind 0)

/-- One call for `handle_connect`, one for the `outbind`. -/
theorem one_bind_for_each_call_outbound :
    let hist := (Machine.after sampleParams .none outbound).shared.hist
    (∀ newer older, hist = newer ++ .started (.handleConnect .success) :: older →
      newer.countP Event.isBindWrite ≤ 1 + newer.countP Event.callsForBind) ∧
    ∀ r tbuf st conn, .wrote r tbuf st conn ∈ hist → tbuf.commandId.isBind = true →
      st.isBound = false :=
  one_bind_for_each_call (runs_under (g := bindsAtOnce) (by decide +kernel))

/-- **Two bind requests on one connection**, if the peer sends an `outbind`. -/
theorem outbound_binds_twice : ¬∀ (cfg : Params) (p : Persisted) (now : Nat) (c : Machine),
    Runs cfg Guard.free p now c →
      (∀ newer older, c.shared.hist = newer ++ .started (.handleConnect .success) :: older →
        .started .closeConnection ∉ newer → newer.countP Event.isBindWrite ≤ 1) ∧
      ∀ r tbuf st conn, .wrote r tbuf st conn ∈ c.shared.hist → tbuf.commandId.isBind = true →
        st.isBound = false := by
  intro h
  have hsplit : (Machine.after sampleParams .none outbound).shared.hist =
      (Machine.after sampleParams .none outbound).shared.hist.take 9 ++
        .started (.handleConnect .success) ::
          (Machine.after sampleParams .none outbound).shared.hist.drop 10 := by decide +kernel
  have hopen : .started .closeConnection ∉
      (Machine.after sampleParams .none outbound).shared.hist.take 9 := by decide +kernel
  have htwo : ((Machine.after sampleParams .none outbound).shared.hist.take 9).countP
      Event.isBindWrite = 2 := by decide +kernel
  have hone := (h _ _ _ _ (runs_after sampleParams .none outbound)).1 _ _ hsplit hopen
  omega

end KissSmpp
