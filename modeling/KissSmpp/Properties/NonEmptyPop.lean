import KissSmpp.Session.Handlers
import KissSmpp.Session.Routine

/-! # Pops of a non-empty queue

`write_pdu` dereferences what it pops. `do_write` calls it after its own push, `handle_write` after it has
found the queue non-empty, both under `writeMutex`, and nobody pops without it; but `close_connection`
clears two levels of the queue without asking for the mutex. It runs on the io thread, so only what
another thread has pushed can be taken away before its pop: the unbind request of `stop()`. -/

namespace KissSmpp

open Interleave Queue

variable {cfg : Params} {t : Tid} {s : Session} {x : Tid → Bool}

/-! ## The protocol -/

/-- **How a thread knows that there is something to pop**: it has pushed something, or has found the
queue non-empty, since it entered the critical section, and has not popped since. -/
def popping : Protocol Op Op.Res Bool where
  allows x op :=
    match op with
    | .txPop => x = true
    | .txClear _ | .newPdu _ | .sendPop | .lock .writeMutex => x = false
    | _ => True
  next x op b :=
    match op, b with
    | .txEmpty, e => !e
    | .txPush _ _, _ => true
    | .txPop, _ => false
    | .unlock .writeMutex, _ => false
    | _, _ => x

/-- A thread that knows nothing of the queue. -/
def Unsure (x : Bool) : Prop := x = false

/-- The operations that neither need this knowledge nor change it. -/
@[simp] def Op.besidePop : Op → Bool
  | .lock m | .unlock m => m != .writeMutex
  | .txPop | .txEmpty | .txPush _ _ | .txClear _ | .newPdu _ | .sendPop => false
  | _ => true

/-- Operations beside the queue are allowed anywhere, and change nothing of what the thread knows.
-/
theorem popping_beside (op : Op) (x : Bool) (hop : op.besidePop = true) :
    popping.allows x op ∧ ∀ b, popping.next x op b = x := by
  cases op with
  | lock m => cases m <;> first | exact ⟨trivial, fun _ => rfl⟩ | cases hop
  | unlock m => cases m <;> first | exact ⟨trivial, fun _ => rfl⟩ | cases hop
  | _ => first | exact ⟨trivial, fun _ => rfl⟩ | cases hop

/-- A single operation beside the queue keeps to the protocol. -/
theorem abides_beside {Q : Bool → Prop} {op : Op} (hop : op.besidePop = true) :
    Abides popping Q (call op) := fun x hx =>
  ⟨(popping_beside op x hop).1, fun b => ((popping_beside op x hop).2 b).symm ▸ hx⟩

section

variable {Q : Bool → Prop}

/-- `seqNumGen.next()` is beside the queue. -/
theorem popping_seqNumGenNext : Abides popping Q seqNumGenNext := by
  refine (abides_beside rfl).bind fun _ => (abides_beside rfl).bind fun v => ?_
  split
  · exact (abides_beside rfl).bind fun _ => (abides_beside rfl).bind fun _ => Abides.ret _
  · exact (abides_beside rfl).bind fun _ => (abides_beside rfl).bind fun _ => Abides.ret _

/-- `throttle_check` is beside the queue. -/
theorem popping_throttleCheck : Abides popping Q (throttleCheck cfg) :=
  (abides_beside rfl).bind fun _ => (abides_beside rfl).bind fun _ =>
    (abides_beside rfl).when.bind fun _ => abides_beside rfl

/-- `write_pdu` pops once, where the queue is known to be non-empty. -/
theorem popping_writePdu : (writePdu cfg).Follows popping (fun _ => Unsure) true := by
  refine ⟨rfl, fun o => ?_⟩
  cases o with
  | none => exact abides_beside rfl false rfl
  | some q =>
      have hnumber : Abides popping Unsure (do
          let n ← seqNumGenNext
          call (.setSeq q n)) := popping_seqNumGenNext.bind fun _ => abides_beside rfl
      refine Abides.bind (abides_beside rfl) (fun _ => hnumber.when.bind fun _ => ?_) false rfl
      exact (abides_beside rfl).bind fun _ => popping_throttleCheck.bind fun _ => abides_beside rfl

/-- The critical section is left with no such knowledge. -/
theorem popping_unlock (x : Bool) : (call (.unlock .writeMutex)).Follows popping (fun _ => Unsure) x :=
  ⟨trivial, fun _ => rfl⟩

/-- **`do_write`** pops after its push. -/
theorem popping_doWrite (r : Ref) (l : Level) : Abides popping Unsure (doWrite cfg r l) := by
  intro x hx
  unfold doWrite writing
  refine follows_call hx fun _ => ?_
  rw [Prog.bind_assoc]
  refine follows_call trivial fun e => follows_call trivial fun _ => ?_
  refine Prog.Follows.bind (Q := fun _ _ => True) (.when (fun _ => ?_) fun _ => trivial)
    fun _ y _ => popping_unlock y
  exact popping_writePdu.mono fun _ _ _ => trivial

/-- `canSend` is beside the queue. -/
theorem popping_canSend : Abides popping Q canSend := by
  refine (abides_beside rfl).bind fun size => ?_
  split
  · exact (abides_beside rfl).bind fun _ => Abides.ret _
  · exact Abides.ret _

/-- `handle_write` pops only after it has found the queue non-empty. -/
theorem popping_handleWritten (o : Option Ref) :
    (handleWritten cfg o).Follows popping (fun _ _ => True) false := by
  cases o with
  | none => exact ⟨trivial, fun _ => trivial⟩
  | some r =>
      have hput : Abides popping Unsure (w4rQPut r) := (abides_beside rfl).bind fun _ => Abides.when <|
        (abides_beside rfl).bind fun _ => (abides_beside rfl).bind fun _ => abides_beside rfl
      refine (hput false rfl).bind fun _ y hy => follows_call trivial fun _ => ?_
      refine (popping_canSend y hy).bind fun mayWrite z _ => .when (fun _ => ?_) fun _ => trivial
      refine follows_call trivial fun e => .when (fun he => ?_) fun _ => trivial
      show (writePdu cfg).Follows popping (fun _ _ => True) (!e)
      rw [he]
      exact popping_writePdu.mono fun _ _ _ => trivial

/-- **`handle_write`** pops after it has asked. -/
theorem popping_handleWrite : Abides popping Unsure (handleWrite cfg .success) := by
  rintro x rfl
  refine follows_call rfl fun _ => follows_call trivial fun o => ?_
  exact (popping_handleWritten o).bind fun _ y _ => popping_unlock y

/-- The sweep pops only what it has pushed. -/
theorem popping_ageSweep (keys : List Nat) : Abides popping Unsure (ageSweep cfg keys) := by
  induction keys with
  | nil => exact Abides.ret _
  | cons k ks ih =>
      refine (abides_beside rfl).bind fun o => ?_
      cases o with
      | none => exact ih
      | some i =>
          refine (abides_beside rfl).bind fun now => Abides.bind (Abides.when ?_) fun _ => ih
          refine (popping_doWrite i.obj .MESSAGE).bind fun _ => (abides_beside rfl).bind fun k' => ?_
          cases k' with
          | none => exact abides_beside rfl
          | some k' => exact (abides_beside rfl).when

end

/-- Everything that a thread runs without a mutex pops only from a queue it knows to be non-empty.
-/
theorem popping_routine : Routine cfg popping Unsure where
  plain op x hop hx := by
    cases op <;> first | exact ⟨trivial, fun _ => hx⟩ | exact ⟨hx, fun _ => hx⟩ | cases hop
  number := popping_seqNumGenNext
  write := popping_doWrite

/-- What the io thread does under the mutexes pops only from a queue it knows to be non-empty. -/
theorem popping_upkeep : Upkeep cfg popping Unsure where
  written := popping_handleWrite
  answer _ := Abides.when <| (abides_beside rfl).bind fun _ => (abides_beside rfl).bind fun _ =>
    abides_beside rfl
  cleanup _ := Abides.when <| (abides_beside rfl).bind fun _ => Abides.when <|
    (abides_beside rfl).bind fun _ => (abides_beside rfl).bind fun keys =>
      (popping_ageSweep keys).bind fun _ => (abides_beside rfl).bind fun _ => abides_beside rfl

/-! ## The queue -/

/-- A thread is inside `do_write`, between its push and its pop. -/
def Session.BetweenPushAndPop (s : Session) (u : Tid) : Prop :=
  s.phase u = .found true ∧ s.inHand u = none

/-- Whether a thread is between its push and its pop is decidable. -/
instance (u : Tid) : Decidable (s.BetweenPushAndPop u) := inferInstanceAs (Decidable (_ ∧ _))

/-- **No level is cleared to emptiness** while a thread is between its push and its pop. -/
def leavesPushed : Guard Op Tid Session Job where
  op _ op s := ∀ u, s.BetweenPushAndPop u → ∀ l, op = .txClear l → (s.txQ.clear l).empty = false
  job _ _ := True

/-- **What a thread's knowledge comes to**: it has `writeMutex`, and what it is going to pop is still
there. -/
structure Session.Sure (s : Session) (u : Tid) : Prop where
  owner : s.owner .writeMutex = some u
  queue : u = .io ∨ s.phase u = .found true → s.txQ.empty = false
  inHand : u ≠ .io → s.phase u = .found true → s.inHand u = none

/-- A queue that is not empty stays so, unless something is popped or cleared. -/
theorem empty_perform {op : Op} {r : op.Res × Session} (h : perform cfg t op s = some r)
    (hpop : op ≠ .txPop) (hclear : ∀ l, op ≠ .txClear l) (he : s.txQ.empty = false) :
    r.2.txQ.empty = false := by
  obtain ⟨a, ha⟩ := PrioQ.empty_eq_false_iff.mp he
  refine PrioQ.empty_eq_false_iff.mpr ⟨a, ?_⟩
  by_cases hw : Field.txQ ∈ op.writes
  · cases op with
    | txPush q l =>
        cases h
        exact PrioQ.mem_push.mpr (.inl ha)
    | txPop => exact absurd rfl hpop
    | txClear l => exact absurd rfl (hclear l)
    | txPushBackLastPop =>
        cases h
        exact PrioQ.mem_pushBackLastPop.mpr (.inl ha)
    | _ => simp at hw
  · have hq : r.2.txQ = s.txQ := perform_same (f := .txQ) h hw
    rwa [hq]

/-- **What the others do** leaves a thread's knowledge true. -/
theorem sure_other {op : Op} {r : op.Res × Session} {u : Tid} (hS : s.Sure u) (hu : u ≠ t)
    (hm : op.mayRun t = true) (hk : Known t op s) (hg : leavesPushed.op t op s)
    (h : perform cfg t op s = some r) : r.2.Sure u := by
  have hrel := relies_perform h hk hm hu
  refine ⟨hrel.owner hS.owner, fun hq => ?_, fun hio hph => ?_⟩
  · rw [hrel.phase] at hq
    by_cases hpop : op = .txPop
    · subst hpop
      have hown : s.owner .writeMutex = some t := hk.1
      rw [hS.owner, Option.some.injEq] at hown
      exact absurd hown hu
    · by_cases hclear : ∃ l, op = .txClear l
      · obtain ⟨l, rfl⟩ := hclear
        have hio : u ≠ .io := fun huio => hu (huio.trans (Op.io_of_mayRun hm rfl).symm)
        have hph : s.phase u = .found true := hq.resolve_left hio
        have hempty := hg u ⟨hph, hS.inHand hio hph⟩ l rfl
        cases h
        exact hempty
      · exact empty_perform h hpop (fun l hl => hclear ⟨l, hl⟩) (hS.queue hq)
  · rw [hrel.phase] at hph
    rw [hrel.inHand]
    exact hS.inHand hio hph

/-- A thread's own operations beside the queue leave what it knows of the queue true. -/
theorem sure_beside {op : Op} {r : op.Res × Session} (hS : s.Sure t) (hop : op.besidePop = true)
    (h : perform cfg t op s = some r) : r.2.Sure t := by
  -- the operations beside the pop leave `writeMutex` and the phase alone
  have hplace : r.2.owner .writeMutex = s.owner .writeMutex ∧ r.2.phase = s.phase := by
    cases op with
    | lock m =>
        obtain ⟨-, rfl⟩ := perform_lock h
        cases m <;> first | exact ⟨rfl, rfl⟩ | cases hop
    | unlock m =>
        cases h
        cases m <;> first | exact ⟨rfl, rfl⟩ | cases hop
    | _ =>
        exact ⟨congrFun (perform_same (f := .owner) h (by simp)) _,
          perform_same (f := .phase) h (by first | simp; done | cases hop)⟩
  -- and put nothing into the hand
  have hhand : s.inHand t = none → r.2.inHand t = none := by
    intro hin
    by_cases hw : Field.inHand ∈ op.writes
    · cases op with
      | sendDone =>
          cases h
          exact Function.update_self ..
      | _ => first | (simp at hw; done) | cases hop
    · have hsame : r.2.inHand = s.inHand := perform_same (f := .inHand) h hw
      rwa [hsame]
  refine ⟨hplace.1.trans hS.owner, fun hq => ?_, fun hio hph => ?_⟩
  · rw [hplace.2] at hq
    refine empty_perform h ?_ ?_ (hS.queue hq)
    · rintro rfl
      cases hop
    · rintro l rfl
      cases hop
  · rw [hplace.2] at hph
    exact hhand (hS.inHand hio hph)

/-- **What a thread knows after its own operation** is true. -/
theorem sure_self {op : Op} {r : op.Res × Session} (hS : x t = true → s.Sure t)
    (ha : popping.allows (x t) op) (hk : Known t op s) (h : perform cfg t op s = some r)
    (hnext : popping.next (x t) op r.1 = true) : r.2.Sure t := by
  by_cases hop : op.besidePop = true
  · rw [(popping_beside op (x t) hop).2] at hnext
    exact sure_beside (hS hnext) hop h
  · cases op with
    | txEmpty =>
        cases h
        have he : s.txQ.empty = false := by simpa [popping] using hnext
        have hph : (s.setPhase t (.found s.txQ.empty)).phase t = .found false := by
          rw [he]
          exact Function.update_self ..
        refine ⟨hk.1, fun _ => he, fun _ hfound => ?_⟩
        rw [hph] at hfound
        cases hfound
    | txPush q l =>
        cases h
        refine ⟨hk.1, fun _ => ?_, fun _ _ => Function.update_self ..⟩
        exact PrioQ.empty_eq_false_iff.mpr ⟨q, PrioQ.mem_push.mpr (.inr rfl)⟩
    | txPop => cases hnext
    -- what is allowed only without that knowledge does not bring it
    | txClear l => exact absurd (ha.symm.trans hnext) nofun
    | newPdu p => exact absurd (ha.symm.trans hnext) nofun
    | sendPop => exact absurd (ha.symm.trans hnext) nofun
    | lock m => cases m <;> first | exact absurd (ha.symm.trans hnext) nofun | exact absurd rfl hop
    | unlock m => cases m <;> first | cases hnext | exact absurd rfl hop
    | _ => exact absurd rfl hop

variable {p : Persisted} {now : Nat} {c c' : Machine}

/-- **What the threads know** in a run whose clears leave what is pushed. -/
theorem Runs.sure (h : Runs cfg leavesPushed p now c) :
    ∃ x : Tid → Bool, (∀ u, x u = true → c.shared.Sure u) ∧
      ∀ t, (c.code t).Follows popping (fun _ => Unsure) (x t) := by
  have hidle : ∀ t, ((Machine.init p now).code t).Follows popping (fun _ => Unsure) false :=
    fun _ => rfl
  refine Reach.protocol (I := fun _ => Unsure) (K := fun s x => ∀ u, x u = true → s.Sure u) hidle
    (fun j x hx => popping_routine.body (fun _ => popping_upkeep) x hx) nofun ?_ ?_ ?_ h.disciplined
  · rintro t op s x r hS ⟨hg, -, hm, hk⟩ ha hx u hu
    obtain ⟨-, hx⟩ := perform_of_exec hx
    by_cases hut : u = t
    · subst hut
      rw [Function.update_self] at hu
      exact sure_self (hS u) ha hk hx hu
    · rw [Function.update_of_ne hut] at hu
      exact sure_other (hS u hu) hut hm hk hg hx
  · intro e s s' x hS hx u hu
    have hq : s'.txQ = s.txQ := env_same (f := .txQ) hx (by simp)
    have hown : s'.owner = s.owner := env_same (f := .owner) hx (by simp)
    have hph : s'.phase = s.phase := env_same (f := .phase) hx (by simp)
    have hin : s'.inHand = s.inHand := env_same (f := .inHand) hx (by simp)
    obtain ⟨ho, hqueue, hhand⟩ := hS u hu
    exact ⟨by rw [hown]; exact ho, by rw [hq, hph]; exact hqueue, by rw [hph, hin]; exact hhand⟩
  · rintro j s s' x hS ⟨-, -, -⟩ hx u hu
    have hq : s'.txQ = s.txQ := take_same (f := .txQ) hx (by simp)
    have hown : s'.owner = s.owner := take_same (f := .owner) hx (by simp)
    have hph : s'.phase = s.phase := take_same (f := .phase) hx (by simp)
    have hin : s'.inHand = s.inHand := take_same (f := .inHand) hx (by simp)
    obtain ⟨ho, hqueue, hhand⟩ := hS u hu
    exact ⟨by rw [hown]; exact ho, by rw [hq, hph]; exact hqueue, by rw [hph, hin]; exact hhand⟩

/-- **No pop of an empty queue**: in every run in which no level is cleared to emptiness between a
thread's push and its pop, whoever pops finds the queue non-empty. -/
theorem non_empty_pop (h : Runs cfg leavesPushed p now c) (hnext : c.next? t = some .txPop)
    (hstep : c.move (system cfg) (.run t) = some c') : c.shared.txQ.empty = false := by
  obtain ⟨x, hS, hfol⟩ := h.sure
  obtain ⟨k, hcode⟩ := Machine.code_of_next? hnext
  have ht := hfol t
  rw [hcode] at ht
  simp only [Config.move, hcode, Option.map_eq_some_iff] at hstep
  obtain ⟨r, hr, -⟩ := hstep
  refine (hS t ht.1).queue ?_
  rcases (h.known_next hcode hr).2.2.2 with hph | ⟨hio, -⟩
  · exact .inr hph
  · exact .inl hio

local instance {P : Tid → Prop} [DecidablePred P] : Decidable (∀ u, P u) :=
  decidable_of_iff (∀ u ∈ [Tid.io, .sender, .receiver, .stopper], P u)
    ⟨fun h u => h u (by cases u <;> simp), fun h u _ => h u⟩

local instance {P : Level → Prop} [DecidablePred P] : Decidable (∀ l, P l) :=
  decidable_of_iff (∀ l ∈ Levels.order, P l) ⟨fun h l => h l (Levels.mem_order l), fun h l _ => h l⟩

/-- The guard can be evaluated. -/
instance : leavesPushed.Checkable where
  op _ op s := inferInstanceAs (Decidable (∀ u, s.BetweenPushAndPop u → ∀ l, op = .txClear l →
    (s.txQ.clear l).empty = false))
  job _ _ := inferInstanceAs (Decidable True)

/-- A bound session is stopped; the thread that calls `stop()` is about to pop its unbind request. -/
def stopPops : List Step := Schedule.bind ++ [.start .stop] ++ Schedule.turn .stopper 7

/-- The thread that calls `stop()` finds its unbind request in the queue. -/
theorem non_empty_pop_stopPops : (Machine.after sampleParams .none stopPops).shared.txQ.empty = false :=
  have hstep : ((Machine.after sampleParams .none stopPops).move (system sampleParams)
      (.run .stopper)).isSome = true := by decide +kernel
  non_empty_pop (runs_under (g := leavesPushed) (by decide +kernel)) (t := .stopper)
    (by decide +kernel) (Option.some_get hstep).symm

/-- The connection of a bound session fails, and its close is on its way when `stop()` is called. The
thread that calls it has pushed its unbind request when `close_connection` clears the level. -/
def clearedPush : List Step :=
  Schedule.bind ++ [.env (.elapse 1000000)] ++ Schedule.complete .readHeader .none .other ++
    [.start .stop] ++ Schedule.turn .stopper 7 ++ [.start (.handler .closeConnection)] ++
    Schedule.turn .io 5

/-- Without the condition a thread can pop the empty queue. -/
theorem empty_pop : ¬∀ (cfg : Params) (p : Persisted) (now : Nat) (c c' : Machine) (t : Tid),
    Runs cfg Guard.free p now c → c.next? t = some .txPop →
      c.move (system cfg) (.run t) = some c' → c.shared.txQ.empty = false := by
  intro h
  have hstep : ((Machine.after sampleParams .none clearedPush).move (system sampleParams)
      (.run .stopper)).isSome = true := by decide +kernel
  have hfalse := h _ _ _ _ _ .stopper (runs_after sampleParams .none clearedPush)
    (by decide +kernel) (Option.some_get hstep).symm
  have htrue : (Machine.after sampleParams .none clearedPush).shared.txQ.empty = true := by
    decide +kernel
  rw [hfalse] at htrue
  cases htrue

end KissSmpp
