import KissSmpp.Properties.NonEmptyPop
import KissSmpp.Properties.Wire
import KissSmpp.Session.Lanes

/-! # Undefined behaviour

The code dereferences the PDUs it gets from its queues without asking whether it got one: `write_pdu` what it
pops from `txQ`, `handle_write` the PDU popped last, `recieveProcessor` what it pops from the receive queue.
And the ageing sweep, once it has found an entry that is thirty seconds old, erases from `w4rQ` what it finds under
the number of its PDU without asking whether it has found anything, and goes on to increment an iterator that this
erases. `well_defined` says when nothing of the kind happens: when no level of `txQ` is cleared to emptiness between
a thread's push and its pop, and no sweep finds an entry that old. The other two dereferences need no condition. -/

namespace KissSmpp

open Interleave Queue

variable {cfg : Params} {t : Tid} {s s' : Session} {p : Persisted} {now : Nat} {c : Machine}

/-! ## The condition -/

/-- The ageing sweep erases an entry, having found it thirty seconds old and sent its PDU again. -/
def Op.erases : Op → Bool
  | .w4rEraseFound _ => true
  | _ => false

/-- The operation stands for what C++ leaves undefined: a fault, or the increment of an iterator that has been
erased. -/
def Op.undefined : Op → Bool
  | .fail _ | .note .staleIterator => true
  | _ => false

/-- **The two things that must not happen**: that the queue is cleared to emptiness between a push and the pop
after it, and that a sweep finds an entry that is thirty seconds old. -/
def wellDefined : Guard Op Tid Session Job where
  op t op s := leavesPushed.op t op s ∧ op.erases = false
  job _ _ := True

/-- The first of the two. -/
theorem Runs.leavesPushed (h : Runs cfg wellDefined p now c) : Runs cfg leavesPushed p now c :=
  h.weaken (fun _ _ _ hg => hg.1) fun _ _ _ => trivial

/-! ## What threads come away with -/

/-- **What a thread knows** of the queues: that there is something to pop for `recieveProcessor`, that it has come
away empty-handed, and that it has erased an entry of `w4rQ`, after which anything may happen. -/
structure Luck where
  stocked : Bool
  missing : Bool
  erased : Bool
  deriving DecidableEq

/-- The code of the process asks before it pops a received PDU, and runs into undefined behaviour only when it has
come away empty-handed or erased an entry. -/
def fetching : Protocol Op Op.Res Luck where
  allows x op :=
    x.erased = true ∨
      match op with
      | .fail _ => x.missing = true
      | .note .staleIterator => False
      | .rxPop => x.missing = false ∧ x.stocked = true
      | _ => x.missing = false
  next x op b :=
    match op, b with
    | .rxEmpty, e => { x with stocked := !e }
    | .rxPop, o => { x with stocked := false, missing := o.isNone }
    | .txPop, o | .txLastPop, o => { x with missing := o.isNone }
    | .w4rEraseFound _, _ => { x with erased := true }
    | .fail _, _ => { x with missing := false }
    | _, _ => x

/-- A thread that has not come away empty-handed, or need not care. -/
def Lucky (x : Luck) : Prop := x.erased = true ∨ x.missing = false

/-- The operations that neither come away empty-handed nor stand for undefined behaviour. -/
@[simp] def Op.certain : Op → Bool
  | .txPop | .txLastPop | .rxPop | .w4rEraseFound _ | .fail _ | .note .staleIterator => false
  | _ => true

/-- Operations that fetch nothing are always in order, and leave a thread lucky. -/
theorem fetching_certain {op : Op} {x : Luck} (hop : op.certain = true) (hx : Lucky x) :
    fetching.allows x op ∧ ∀ b, Lucky (fetching.next x op b) := by
  cases op with
  | note m => cases m <;> first | exact ⟨hx, fun _ => hx⟩ | cases hop
  | _ => first | exact ⟨hx, fun _ => hx⟩ | cases hop

/-- A single operation that fetches nothing keeps to the protocol. -/
theorem abides_certain {op : Op} (hop : op.certain = true) : Abides fetching Lucky (call op) :=
  fun _ hx => fetching_certain hop hx

/-- Code that comes away empty-handed may run into undefined behaviour. -/
theorem fetching_fail {x : Luck} (hx : x.missing = true) (e : Fault) :
    (call (.fail e)).Follows fetching (fun _ => Lucky) x := ⟨.inr hx, fun _ => .inr rfl⟩

/-- What a thread has erased stays erased. -/
theorem erased_next {op : Op} {x : Luck} (hx : x.erased = true) (b : op.Res) :
    (fetching.next x op b).erased = true := by
  cases op <;> first | exact hx | rfl

/-- After an entry has been erased, any code follows the protocol. -/
theorem fetching_erased {α : Type} (q : Code α) {x : Luck} (hx : x.erased = true) :
    q.Follows fetching (fun _ => Lucky) x := by
  have hany : q.Follows fetching (fun _ y => y.erased = true) x :=
    (Prog.uses_any q).follows (fun _ _ _ hy => ⟨Or.inl hy, erased_next hy⟩) hx
  exact hany.mono fun _ _ hy => .inl hy

/-- The generator asks for nothing. -/
theorem fetching_seqNumGenNext : Abides fetching Lucky seqNumGenNext := by
  refine (abides_certain rfl).bind fun _ => (abides_certain rfl).bind fun v => ?_
  split
  · exact (abides_certain rfl).bind fun _ => (abides_certain rfl).bind fun _ => Abides.ret _
  · exact (abides_certain rfl).bind fun _ => (abides_certain rfl).bind fun _ => Abides.ret _

/-- The throttle fetches nothing. -/
theorem fetching_throttleCheck : Abides fetching Lucky (throttleCheck cfg) :=
  (abides_certain rfl).bind fun _ => (abides_certain rfl).bind fun _ =>
    (abides_certain rfl).when.bind fun _ => abides_certain rfl

/-- `write_pdu` pops without asking. -/
theorem fetching_writePdu : Abides fetching Lucky (writePdu cfg) := by
  intro x hx
  refine follows_call hx fun o => ?_
  cases o with
  | none => exact fetching_fail rfl _
  | some q =>
      have hnumber : Abides fetching Lucky (do
          let n ← seqNumGenNext
          call (.setSeq q n)) := fetching_seqNumGenNext.bind fun _ => abides_certain rfl
      refine Abides.bind (abides_certain rfl) (fun _ => hnumber.when.bind fun _ => ?_) _ (.inr rfl)
      exact (abides_certain rfl).bind fun _ => fetching_throttleCheck.bind fun _ => abides_certain rfl

/-- `do_write` pops through `write_pdu` only. -/
theorem fetching_doWrite (r : Ref) (l : Level) : Abides fetching Lucky (doWrite cfg r l) := by
  unfold doWrite writing
  refine (abides_certain rfl).bind fun _ => Abides.bind ?_ fun _ => ?_
  · exact (abides_certain rfl).bind fun _ => Abides.ret _
  · exact (abides_certain rfl).bind fun _ => fetching_writePdu.when.bind fun _ => abides_certain rfl

/-- `recieveProcessor` asks before it pops. -/
theorem fetching_recieveProcessor : Abides fetching Lucky recieveProcessor := by
  intro x hx
  refine follows_call hx fun empty => ?_
  cases empty with
  | true =>
      have hsleep : Abides fetching Lucky (sleep 1) := (abides_certain rfl).bind fun _ => abides_certain rfl
      exact hsleep _ hx
  | false =>
      refine follows_call (hx.imp id fun h => ⟨h, rfl⟩) fun o => ?_
      cases o with
      | none => exact fetching_fail rfl _
      | some r =>
          refine Abides.bind (abides_certain rfl) (fun a => ?_) _ (.inr rfl)
          cases a <;> exact (abides_certain rfl).bind fun _ => abides_certain rfl

/-- `canSend` pops nothing. -/
theorem fetching_canSend : Abides fetching Lucky canSend := by
  refine (abides_certain rfl).bind fun size => ?_
  split
  · exact (abides_certain rfl).bind fun _ => Abides.ret _
  · exact Abides.ret _

/-- With a PDU to record, `handle_write` goes on to `write_pdu`. -/
theorem fetching_handleWritten (r : Ref) : Abides fetching Lucky (handleWritten cfg (some r)) := by
  have hput : Abides fetching Lucky (w4rQPut r) := (abides_certain rfl).bind fun _ => Abides.when <|
    (abides_certain rfl).bind fun _ => (abides_certain rfl).bind fun _ => abides_certain rfl
  refine hput.bind fun _ => (abides_certain rfl).bind fun _ => fetching_canSend.bind fun mayWrite => ?_
  exact Abides.when <| (abides_certain rfl).bind fun e => fetching_writePdu.when

/-- `handle_write` takes the PDU popped last without asking. -/
theorem fetching_handleWrite : Abides fetching Lucky (handleWrite cfg .success) := by
  refine (abides_certain rfl).bind fun _ x hx => follows_call hx fun o => ?_
  cases o with
  | none => exact (fetching_fail rfl _).bind fun _ y hy => abides_certain rfl y hy
  | some r =>
      have hrest : Abides fetching Lucky (do
          handleWritten cfg (some r)
          call (.unlock .writeMutex)) := (fetching_handleWritten r).bind fun _ => abides_certain rfl
      exact hrest _ (.inr rfl)

/-- What the ageing sweep does before it erases an entry is in order. -/
theorem fetching_ageSweep (keys : List Nat) : Abides fetching Lucky (ageSweep cfg keys) := by
  induction keys with
  | nil => exact Abides.ret _
  | cons k ks ih =>
      refine (abides_certain rfl).bind fun o => ?_
      cases o with
      | none => exact ih
      | some i =>
          refine (abides_certain rfl).bind fun now => Abides.bind (Abides.when ?_) fun _ => ih
          refine (fetching_doWrite i.obj .MESSAGE).bind fun _ x hx => follows_call hx fun k' => ?_
          exact fetching_erased _ rfl

/-- What is calm is certain. -/
theorem certain_of_calm {op : Op} (h : op.calm = true) : op.certain = true := by
  cases op with
  | note m => cases m <;> first | rfl | cases h
  | _ => first | rfl | cases h

/-- The routine code of the session. -/
theorem fetching_regular : Regular cfg fetching Lucky where
  plain _ _ hop hx := fetching_certain (certain_of_calm hop) hx
  own _ _ := abides_certain rfl
  number := fetching_seqNumGenNext
  write := fetching_doWrite

/-- The code that passes messages on. -/
theorem fetching_traffic : Traffic cfg fetching Lucky where
  send := abides_sendingProcessor
    (fun _ hop => abides_certain (certain_of_calm hop)) (fun _ => abides_certain rfl)
    fetching_doWrite
  receive := fetching_recieveProcessor
  process := fetching_regular.process4state (fun _ _ => abides_certain rfl) fun _ =>
    (abides_certain rfl).bind fun _ => abides_certain rfl

/-- `handle_write`, `w4rQ_pop` and the ageing sweep. -/
theorem fetching_upkeep : Upkeep cfg fetching Lucky where
  written := fetching_handleWrite
  answer _ := Abides.when <| (abides_certain rfl).bind fun _ => (abides_certain rfl).bind fun _ =>
    abides_certain rfl
  cleanup _ := Abides.when <| (abides_certain rfl).bind fun _ => Abides.when <|
    (abides_certain rfl).bind fun _ => (abides_certain rfl).bind fun keys =>
      (fetching_ageSweep keys).bind fun _ => (abides_certain rfl).bind fun _ => abides_certain rfl

/-! ## What is there to be fetched -/

/-- **There is a PDU popped last while a `handle_write` runs.** -/
def Session.PoppedLast (s : Session) : Prop := ∀ r e, s.running = some (.handleWrite r e) → s.slot ≠ none

/-- The `handle_write` that starts is that of a PDU in flight. -/
theorem poppedLast_take {j : Job} (hi : Inv s) (hP : s.PoppedLast) (h : j.take s = some s') : s'.PoppedLast := by
  intro r er hrun
  rw [slot_take h]
  by_cases hj : j.thread = .io
  · obtain ⟨q, rfl⟩ := Job.handler_of_io hj
    obtain ⟨hready, rfl⟩ := Job.take_handler h
    obtain rfl : q = .handleWrite r er := Option.some.inj hrun
    refine hi.popped r (Session.mem_inFlight.mpr (.inr (.inl ?_)))
    exact List.mem_append_right _ (List.mem_filterMap.mpr ⟨_, hready, rfl⟩)
  · rw [take_running h hj] at hrun
    exact hP r er hrun

/-- In every run there is a PDU popped last while a `handle_write` runs. -/
theorem Runs.poppedLast {g : Guard Op Tid Session Job} (h : Runs cfg g p now c) : c.shared.PoppedLast := by
  refine h.data (fun r e hrun => (by cases hrun)) ?_ ?_ ?_
  · intro t op s x hi hP _ _ _ hx r e hrun
    rw [perform_running hx] at hrun
    exact slot_ne_none_perform hx (.inl (hP r e hrun))
  · intro e s s' hi hP hx r er hrun
    have hr : s'.running = s.running := env_same (f := .running) hx (by simp)
    rw [slot_env hx]
    exact hP r er (hr ▸ hrun)
  · exact fun j s s' hi _ hP _ hx => poppedLast_take hi hP hx

/-- What is known of the moves of such a run: all that is known of any, and that what is popped is there. -/
def stocked (cfg : Params) : Guard Op Tid Session Job where
  op t op s := (known cfg wellDefined).op t op s ∧ (op = .txPop → s.txQ.empty = false)
  job := (known cfg wellDefined).job

/-- A run whose moves are known to be in order is a run under the guard itself. -/
theorem runs_of_knowing {g : Guard Op Tid Session Job}
    (h : Reach (system cfg) (known cfg g).Allows (Machine.init p now) c) : Runs cfg g p now c :=
  h.mono fun _ _ hm => Guard.also_allows (Guard.also_allows hm)

/-- In a run in which nothing is undefined a thread pops from a queue that is not empty. -/
theorem Runs.stocked (h : Runs cfg wellDefined p now c) :
    Reach (system cfg) (stocked cfg).Allows (Machine.init p now) c := by
  refine h.knowing.strengthen fun c m c' hc hm hstep => ?_
  cases m with
  | env e => trivial
  | start j => exact hm
  | run t =>
      obtain ⟨op, k, r, hcode, -, -⟩ := Config.of_move_run hstep
      have hknown := (Guard.allows_run hcode).mp hm
      refine (Guard.allows_run hcode).mpr ⟨hknown, ?_⟩
      rintro rfl
      obtain ⟨x, hS, hfol⟩ := (runs_of_knowing hc).leavesPushed.sure
      have ht := hfol t
      rw [hcode] at ht
      refine (hS t ht.1).queue ?_
      rcases (known_known hknown).2.2 with hph | ⟨hio, -⟩
      · exact .inr hph
      · exact .inl hio

/-- A run whose pops are from such queues is a run under the guard itself. -/
theorem runs_of_stocked (h : Reach (system cfg) (stocked cfg).Allows (Machine.init p now) c) :
    Runs cfg wellDefined p now c :=
  runs_of_knowing (h.mono fun _ _ hm =>
    hm.mono (fun _ _ _ (hg : (stocked cfg).op _ _ _) => hg.1) fun _ _ hg => hg)

/-! ## Nobody comes away empty-handed -/

/-- **What the threads know is true**, none of them has come away empty-handed, and nothing has been erased. -/
structure Session.Served (s : Session) (x : Tid → Luck) : Prop where
  lucky : ∀ u, (x u).missing = false ∧ (x u).erased = false
  stocked : (x .receiver).stocked = true → s.recieveBuffer ≠ []
  fault : s.fault = none
  hist : .mark .staleIterator ∉ s.hist

/-- Nothing undefined is allowed to a thread that has not come away empty-handed and has erased nothing. -/
theorem defined_of_allows {op : Op} {x : Luck} (hx : x.missing = false ∧ x.erased = false)
    (ha : fetching.allows x op) : op.undefined = false := by
  have hallowed := ha.resolve_left (by rw [hx.2]; nofun)
  cases op with
  | fail f => exact absurd (hallowed.symm.trans hx.1) (by simp)
  | note m => cases m <;> first | rfl | cases hallowed
  | _ => rfl

/-- An operation that asks for something gets it. -/
theorem lucky_perform {op : Op} {r : op.Res × Session} {x : Tid → Luck} (hP : s.PoppedLast)
    (hS : s.Served x) (hg : (stocked cfg).op t op s) (ha : fetching.allows (x t) op)
    (h : perform cfg t op s = some r) :
    (fetching.next (x t) op r.1).missing = false ∧ (fetching.next (x t) op r.1).erased = false := by
  obtain ⟨hknown, hpop⟩ := hg
  have hlucky := hS.lucky t
  cases op with
  -- the queue is not empty, by the guard
  | txPop =>
      cases h
      refine ⟨?_, hlucky.2⟩
      rw [fetching, Option.isNone_eq_false_iff, Option.isSome_iff_ne_none]
      intro hnone
      rw [(PrioQ.pop_none (Prod.ext hnone rfl)).1] at hpop
      cases hpop rfl
  -- a `handle_write` runs, so there is a PDU popped last
  | txLastPop =>
      cases h
      obtain rfl : t = .io := Op.io_of_mayRun (known_mayRun hknown) rfl
      obtain ⟨q, hrun, huse⟩ := (known_inJob hknown).handler
      cases q with
      | handleWrite r e =>
          exact ⟨Option.isNone_eq_false_iff.mpr (Option.isSome_iff_ne_none.mpr (hP r e hrun)), hlucky.2⟩
      | _ => cases huse
  -- the receiving thread has asked before
  | rxPop =>
      cases h
      obtain rfl : t = .receiver := Op.receiver_of_mayRun (known_mayRun hknown) rfl
      refine ⟨?_, hlucky.2⟩
      have hstocked : (x .receiver).stocked = true := (ha.resolve_left (by rw [hlucky.2]; nofun)).2
      rw [fetching, Option.isNone_eq_false_iff, Option.isSome_iff_ne_none]
      exact fun hnone => hS.stocked hstocked (List.head?_eq_none_iff.mp hnone)
  -- the guard keeps the sweep from finding an old entry
  | w4rEraseFound q => cases (known_guard hknown).2
  | fail f => cases defined_of_allows hlucky ha
  | _ => exact hlucky

/-- A thread only learns that there is something to pop by asking. -/
theorem stocked_next {op : Op} {b : op.Res} {x : Luck} (hop : op ≠ .rxEmpty)
    (h : (fetching.next x op b).stocked = true) : op ≠ .rxPop ∧ x.stocked = true := by
  cases op with
  | rxEmpty => exact absurd rfl hop
  | rxPop => cases h
  | _ => exact ⟨by simp, h⟩

/-- Only `recieveProcessor` takes something from the receive queue. -/
theorem recieveBuffer_perform {op : Op} {r : op.Res × Session} (h : perform cfg t op s = some r)
    (hop : op ≠ .rxPop) (hs : s.recieveBuffer ≠ []) : r.2.recieveBuffer ≠ [] := by
  by_cases hw : Field.recieveBuffer ∈ op.writes
  · cases op with
    | rxPush q =>
        cases h
        simp
    | rxPop => exact absurd rfl hop
    | _ => simp at hw
  · have hsame : r.2.recieveBuffer = s.recieveBuffer := perform_same (f := .recieveBuffer) h hw
    rwa [hsame]

/-- **Every operation leaves the threads served.** -/
theorem served_perform {op : Op} {r : op.Res × Session} {x : Tid → Luck} (hP : s.PoppedLast)
    (hS : s.Served x) (hg : (stocked cfg).op t op s) (ha : fetching.allows (x t) op)
    (h : perform cfg t op s = some r) : r.2.Served (Function.update x t (fetching.next (x t) op r.1)) where
  lucky u := by
    by_cases hu : u = t
    · subst hu
      rw [Function.update_self]
      exact lucky_perform hP hS hg ha h
    · rw [Function.update_of_ne hu]
      exact hS.lucky u
  stocked hst := by
    -- the receive queue is emptied by its own thread only
    by_cases hr : Tid.receiver = t
    · subst hr
      rw [Function.update_self] at hst
      by_cases he : op = .rxEmpty
      · subst he
        cases h
        simpa [fetching] using hst
      · obtain ⟨hp, hold⟩ := stocked_next he hst
        exact recieveBuffer_perform h hp (hS.stocked hold)
    · rw [Function.update_of_ne hr] at hst
      refine recieveBuffer_perform h ?_ (hS.stocked hst)
      rintro rfl
      exact hr (Op.receiver_of_mayRun (known_mayRun hg.1) rfl).symm
  fault := by
    by_cases hf : Field.fault ∈ op.writes
    · cases op with
      | fail f => cases defined_of_allows (hS.lucky t) ha
      | _ => simp at hf
    · have hsame : r.2.fault = s.fault := perform_same (f := .fault) h hf
      exact hsame.trans hS.fault
  hist hmark := by
    rw [perform_hist h, List.mem_append] at hmark
    rcases hmark with hmark | hmark
    · have hdefined := defined_of_allows (hS.lucky t) ha
      cases op with
      | note m =>
          obtain rfl : Mark.staleIterator = m := Event.mark.inj (List.mem_singleton.mp hmark)
          cases hdefined
      | _ => simp at hmark
    · exact hS.hist hmark

/-- **In every such run the threads are served.** -/
theorem Runs.served (h : Runs cfg wellDefined p now c) :
    ∃ x : Tid → Luck, c.shared.Served x ∧ ∀ t, (c.code t).Follows fetching (fun _ => Lucky) (x t) := by
  have hidle : ∀ t, ((Machine.init p now).code t).Follows fetching (fun _ => Lucky) ⟨false, false, false⟩ :=
    fun _ => .inr rfl
  refine Reach.protocolWith (I := fun _ => Lucky) (J := Session.PoppedLast) (K := Session.Served)
    (fun c hc => (runs_of_stocked hc).poppedLast) hidle
    (fun j x hx => fetching_regular.body (fun _ => fetching_upkeep) fetching_traffic x hx) ?_ ?_ ?_ ?_ h.stocked
  · exact ⟨fun _ => ⟨rfl, rfl⟩, fun hst => (by cases hst), rfl,
      fun hmark => by cases List.mem_singleton.mp hmark⟩
  · exact fun t op s x r hP hS hg ha hx => served_perform hP hS hg ha (perform_of_exec hx).2
  · intro e s s' x _ hS hx
    have hrx : s'.recieveBuffer = s.recieveBuffer := env_same (f := .recieveBuffer) hx (by simp)
    have hf : s'.fault = s.fault := env_same (f := .fault) hx (by simp)
    exact ⟨hS.lucky, hrx ▸ hS.stocked, hf ▸ hS.fault,
      fun hmark => hS.hist (mem_hist_of_env hx hmark nofun nofun)⟩
  · rintro j s s' x - hS - hx
    have hrx : s'.recieveBuffer = s.recieveBuffer := take_same (f := .recieveBuffer) hx (by simp)
    have hf : s'.fault = s.fault := take_same (f := .fault) hx (by simp)
    exact ⟨hS.lucky, hrx ▸ hS.stocked, hf ▸ hS.fault,
      fun hmark => hS.hist (mem_hist_of_take hx hmark nofun nofun)⟩

/-- **Nothing of the kind happens**: in every run in which the queue is not cleared to emptiness between a
push and the pop after it, and no ageing sweep finds an entry that is thirty seconds old, no thread has
dereferenced a PDU that it did not get, erased an entry that it did not find or incremented an iterator that it
had erased, and none is about to. -/
theorem well_defined (h : Runs cfg wellDefined p now c) :
    c.shared.fault = none ∧ .mark .staleIterator ∉ c.shared.hist ∧
      ∀ t op, c.next? t = some op → op.undefined = false := by
  obtain ⟨x, hS, hfol⟩ := h.served
  refine ⟨hS.fault, hS.hist, fun t op hnext => ?_⟩
  obtain ⟨k, hcode⟩ := Machine.code_of_next? hnext
  have ht := hfol t
  rw [hcode] at ht
  exact defined_of_allows (hS.lucky t) ht.1

/-- The guard can be evaluated. -/
instance : wellDefined.Checkable where
  op t op s :=
    haveI := Guard.Checkable.op (g := leavesPushed) t op s
    inferInstanceAs (Decidable (leavesPushed.op t op s ∧ op.erases = false))
  job _ _ := inferInstanceAs (Decidable True)

/-- A message is sent and awaits its response; ten seconds later the ageing sweep looks at it. -/
def Schedule.sweptEarly : List Step :=
  bind ++ sendWritten 1 ++ [.env (.elapse 10000000), .env (.expire .w4rQAgeing)] ++
    handle (.w4rQAgeCleanup .success)

/-- The sweep leaves the message alone, and nothing of the kind happens. -/
theorem well_defined_sweptEarly :
    (Machine.after sampleParams .none Schedule.sweptEarly).shared.fault = none ∧
      .mark .staleIterator ∉ (Machine.after sampleParams .none Schedule.sweptEarly).shared.hist ∧
      ∀ t op, (Machine.after sampleParams .none Schedule.sweptEarly).next? t = some op → op.undefined = false :=
  well_defined (runs_under (g := wellDefined) (by decide +kernel))

end KissSmpp
