import KissSmpp.Session.Routine

/-! # The pace of writing

Whether a PDU that waits is going to be written depends on where the threads stand: in `do_write` on
whether the queue was found empty, in `handle_write` on how many PDUs await a response, on the session's
state, and on whether anything waits. A `Place` says so much of a thread, `pacing` how its operations
take it from one place to the next, and `Session.Placed` what the state has on record for each. -/

namespace KissSmpp

open Interleave Queue

variable {cfg : Params} {t : Tid} {s s' : Session}

/-! ## Places -/

/-- **Where a thread stands** in the critical section of `writeMutex`, with what it has learnt there: in
`do_write` whether the queue is empty, in `handle_write` whether it may go on. -/
inductive Place
  | away
  | locked
  | asked (empty : Bool)
  /-- `handle_write` deals with the PDU written. -/
  | dealing
  /-- `handle_write` has found that fewer than ten PDUs await a response. -/
  | room
  /-- `handle_write` has found room in `w4rQ`, and the session bound. -/
  | free
  /-- `handle_write` may write, and has found that something waits in the queue. -/
  | toPop
  | holding
  | popped
  /-- `handle_write` has found that it may not write, or that nothing is left to write. -/
  | done
  /-- `handle_write` has found no PDU popped last, and has run into a fault. -/
  | dead
  deriving DecidableEq

namespace Place

/-- The phase the state has on record for a thread. -/
def Agrees : Place → Phase → Prop
  | .away, ph => ph = .outside
  | .locked, ph | .dealing, ph | .room, ph | .free, ph => ph = .locked
  | .asked e, ph => ph = .found e
  | .toPop, ph => ph = .found false
  | .holding, ph | .popped, ph => ph = .popped
  | .done, ph => ph ≠ .outside
  | .dead, _ => True

/-- The places of `handle_write`. -/
@[simp] def onIo : Place → Bool
  | .dealing | .room | .free | .toPop | .done | .dead => true
  | _ => false

/-- The thread has still to decide on a write, or to begin one. -/
@[simp] def attends : Place → Bool
  | .asked true | .dealing | .room | .free | .toPop | .dead => true
  | _ => false

end Place

/-- **How a thread goes through the critical section**. -/
def pacing : Protocol Op Op.Res Place where
  allows x op :=
    match op with
    | .lock .writeMutex => x = .away
    | .unlock .writeMutex => x = .asked false ∨ x = .popped ∨ x = .done ∨ x = .dead
    | .txEmpty => x = .locked ∨ x = .free
    | .txPush _ _ => ∃ e, x = .asked e
    | .txPop => x = .asked true ∨ x = .toPop
    | .txLastPop => x = .locked
    | .asyncWrite _ _ => x = .holding
    | .w4rInsert _ | .retire => x = .dealing
    | .setState _ | .w4rAnswer _ _ | .w4rEraseFound _ | .txPushBackLastPop => x = .away
    | _ => True
  next x op b :=
    match op, b with
    | .lock .writeMutex, _ => .locked
    | .unlock .writeMutex, _ => .away
    | .txEmpty, e => if x = .free then if e then .done else .toPop else .asked e
    | .txPop, o => if o = none then .popped else .holding
    | .txLastPop, _ => .dealing
    | .asyncWrite _ _, _ => .popped
    | .w4rSize, size => if x = .dealing then if size < 10 then .room else .done else x
    | .getState, st => if x = .room then if st.isBound then .free else .done else x
    | .fail _, _ => if x = .dealing then .dead else x
    | _, _ => x

/-- The operations the protocol takes no notice of. -/
@[simp] def Op.unpaced : Op → Bool
  | .lock m | .unlock m => m != .writeMutex
  | .txEmpty | .txPush _ _ | .txPop | .txLastPop | .asyncWrite _ _ | .w4rInsert _ | .retire | .setState _
  | .w4rAnswer _ _ | .w4rEraseFound _ | .txPushBackLastPop | .w4rSize | .getState | .fail _ => false
  | _ => true

/-- Unpaced operations are allowed anywhere, and leave the thread in its place. -/
theorem pacing_unpaced (op : Op) (x : Place) (hop : op.unpaced = true) :
    pacing.allows x op ∧ ∀ b, pacing.next x op b = x := by
  cases op with
  | lock m => cases m <;> first | exact ⟨trivial, fun _ => rfl⟩ | cases hop
  | unlock m => cases m <;> first | exact ⟨trivial, fun _ => rfl⟩ | cases hop
  | _ => first | exact ⟨trivial, fun _ => rfl⟩ | cases hop

/-- A single unpaced operation keeps to the protocol. -/
theorem abides_unpaced {Q : Place → Prop} {op : Op} (hop : op.unpaced = true) :
    Abides pacing Q (call op) := fun x hx =>
  ⟨(pacing_unpaced op x hop).1, fun b => ((pacing_unpaced op x hop).2 b).symm ▸ hx⟩

/-- A thread outside the critical section. -/
def Away (x : Place) : Prop := x = .away

section

variable {Q : Place → Prop}

/-- `seqNumGen.next()` is unpaced. -/
theorem pacing_seqNumGenNext : Abides pacing Q seqNumGenNext := by
  refine (abides_unpaced rfl).bind fun _ => (abides_unpaced rfl).bind fun v => ?_
  split
  · exact (abides_unpaced rfl).bind fun _ => (abides_unpaced rfl).bind fun _ => Abides.ret _
  · exact (abides_unpaced rfl).bind fun _ => (abides_unpaced rfl).bind fun _ => Abides.ret _

/-- `throttle_check` is unpaced. -/
theorem pacing_throttleCheck : Abides pacing Q (throttleCheck cfg) :=
  (abides_unpaced rfl).bind fun _ => (abides_unpaced rfl).bind fun _ =>
    (abides_unpaced rfl).when.bind fun _ => abides_unpaced rfl

/-- `write_pdu` leaves nothing in its hands. -/
theorem pacing_writePdu {x : Place} (hx : x = .asked true ∨ x = .toPop) :
    (writePdu cfg).Follows pacing (fun _ y => y = .popped) x := by
  refine ⟨hx, fun o => ?_⟩
  cases o with
  | none => exact ⟨trivial, fun _ => rfl⟩
  | some q =>
      have hheld : ∀ {α : Type} {p : Code α}, (∀ Q, Abides pacing Q p) →
          p.Follows pacing (fun _ y => y = .holding) .holding := fun hp => hp _ _ rfl
      have hnumber : ∀ Q, Abides pacing Q (do
          let n ← seqNumGenNext
          call (.setSeq q n)) := fun Q => pacing_seqNumGenNext.bind fun _ => abides_unpaced rfl
      refine (hheld fun Q => abides_unpaced rfl).bind fun p y hy => ?_
      subst hy
      refine (hheld fun Q => (hnumber Q).when).bind fun _ y hy => ?_
      subst hy
      refine (hheld fun Q => abides_unpaced rfl).bind fun tbuf y hy => ?_
      subst hy
      refine (hheld fun Q => pacing_throttleCheck).bind fun _ y hy => ?_
      exact ⟨hy, fun _ => rfl⟩

/-- The critical section is left. -/
theorem pacing_unlock {x : Place} (hx : x = .asked false ∨ x = .popped ∨ x = .done ∨ x = .dead) :
    (call (.unlock .writeMutex)).Follows pacing (fun _ => Away) x :=
  ⟨hx, fun _ => rfl⟩

/-- **`do_write`** pops if it has found the queue empty. -/
theorem pacing_doWrite (r : Ref) (l : Level) : Abides pacing Away (doWrite cfg r l) := by
  rintro x hx
  unfold doWrite writing
  refine follows_call hx fun _ => ?_
  rw [Prog.bind_assoc]
  refine follows_call (.inl rfl) fun e => follows_call ⟨e, rfl⟩ fun _ => ?_
  refine Prog.Follows.bind (Q := fun _ y => y = .asked false ∨ y = .popped) ?_ fun _ y hy =>
    pacing_unlock (hy.imp_right .inl)
  cases e with
  | true => exact (pacing_writePdu (.inl rfl)).mono fun _ _ hy => .inr hy
  | false => exact .inl rfl

/-- `handle_write`, once it has the PDU written. -/
theorem pacing_handleWritten (o : Option Ref) : (handleWritten cfg o).Follows pacing
    (fun _ y => y = .popped ∨ y = .done ∨ y = .dead) .dealing := by
  cases o with
  | none => exact ⟨trivial, fun _ => .inr (.inr rfl)⟩
  | some r =>
      have hput : (w4rQPut r).Follows pacing (fun _ y => y = .dealing) .dealing := by
        refine follows_call trivial fun p => .when (fun _ => ?_) fun _ => rfl
        exact follows_call trivial fun _ => follows_call rfl fun _ => ⟨trivial, fun _ => rfl⟩
      have hask : canSend.Follows pacing
          (fun b y => y = if b = true then .free else .done) .dealing := by
        refine follows_call trivial fun size => ?_
        show (ite _ _ _ : Code Bool).Follows pacing _ (if size < 10 then .room else .done)
        split
        · refine follows_call trivial fun st => ?_
          exact rfl
        · exact rfl
      refine hput.bind fun _ y hy => ?_
      subst hy
      refine follows_call rfl fun _ => hask.bind fun mayWrite y hy => ?_
      subst hy
      cases mayWrite with
      | false => exact .inr (.inl rfl)
      | true =>
          refine follows_call (.inr rfl) fun e => ?_
          cases e with
          | true => exact .inr (.inl rfl)
          | false => exact (pacing_writePdu (.inr rfl)).mono fun _ _ hy => .inl hy

/-- `handle_write` goes through the critical section, and ends outside. -/
theorem pacing_handleWrite : Abides pacing Away (handleWrite cfg .success) := by
  rintro x hx
  refine follows_call hx fun _ => follows_call rfl fun o => ?_
  exact (pacing_handleWritten o).bind fun _ y hy => pacing_unlock (.inr hy)

/-- The loop of the sweep goes through the critical section once for every PDU it writes. -/
theorem pacing_ageSweep (keys : List Nat) : Abides pacing Away (ageSweep cfg keys) := by
  induction keys with
  | nil => exact Abides.ret _
  | cons k ks ih =>
      refine (abides_unpaced rfl).bind fun o => ?_
      cases o with
      | none => exact ih
      | some i =>
          refine (abides_unpaced rfl).bind fun now => Abides.bind (Abides.when ?_) fun _ => ih
          refine (pacing_doWrite i.obj .MESSAGE).bind fun _ x hx => follows_call hx fun k' => ?_
          cases k' with
          | none =>
              cases hx
              exact ⟨trivial, fun _ => rfl⟩
          | some k' => exact (abides_unpaced rfl).when x hx

end

/-- Everything that a thread runs without a mutex goes through the critical section as `do_write`
does. -/
theorem pacing_routine : Routine cfg pacing Away where
  plain op x hop hx := by
    cases hx
    cases op <;> first | exact ⟨trivial, fun _ => rfl⟩ | exact ⟨rfl, fun _ => rfl⟩ | cases hop
  number := pacing_seqNumGenNext
  write := pacing_doWrite

/-- What the io thread does under the mutexes goes through the critical section, and ends outside.
-/
theorem pacing_upkeep : Upkeep cfg pacing Away where
  written := pacing_handleWrite
  answer _ := Abides.when <| (abides_unpaced rfl).bind fun _ x hx => follows_call hx fun _ =>
    abides_unpaced rfl x hx
  cleanup e := by
    have hsweep : Abides pacing Away (do
        call (.lock .w4rQMutex)
        let keys ← call .w4rKeys
        ageSweep cfg keys
        setW4rQAgeingTimer
        call (.unlock .w4rQMutex)) :=
      (abides_unpaced rfl).bind fun _ => (abides_unpaced rfl).bind fun keys =>
        (pacing_ageSweep keys).bind fun _ => (abides_unpaced rfl).bind fun _ => abides_unpaced rfl
    refine Abides.when fun x hx => ?_
    cases hx
    exact follows_call trivial fun size => Prog.Follows.when (fun _ => hsweep _ rfl) fun _ => rfl

/-! ## Places and states -/

variable {x : Tid → Place}

/-- **The threads are where the protocol has them.** -/
structure Session.Placed (s : Session) (x : Tid → Place) : Prop where
  agrees : ∀ u, (x u).Agrees (s.phase u)
  onIo : ∀ u, (x u).onIo = true → u = .io
  holding : ∀ u, s.pdu2send u ≠ none → x u = .holding
  dead : ∀ u, x u = .dead → s.fault ≠ none

/-- What leaves the critical section as it is leaves the threads in their places. -/
theorem Session.Placed.same (hph : s'.phase = s.phase) (hsend : s'.pdu2send = s.pdu2send)
    (hfault : s'.fault = s.fault) (hP : s.Placed x) : s'.Placed x where
  agrees := by
    rw [hph]
    exact hP.agrees
  onIo := hP.onIo
  holding := by
    rw [hsend]
    exact hP.holding
  dead := by
    rw [hfault]
    exact hP.dead

/-- A thread's operation takes it where its result leads. -/
theorem agrees_perform {op : Op} {r : op.Res × Session} {y : Place} (h : perform cfg t op s = some r)
    (hy : y.Agrees (s.phase t)) (ha : pacing.allows y op) :
    (pacing.next y op r.1).Agrees (r.2.phase t) := by
  rw [phase_moved h]
  by_cases hop : op.unpaced = true
  · rw [(pacing_unpaced op y hop).2]
    cases op with
    | lock m => cases m <;> first | exact hy | cases hop
    | unlock m => cases m <;> first | exact hy | cases hop
    | _ => first | exact hy | cases hop
  -- every paced operation moves the place as it moves the phase
  · cases op with
    | lock m => cases m <;> first | rfl | exact absurd rfl hop
    | unlock m => cases m <;> first | rfl | exact absurd rfl hop
    | txEmpty =>
        cases h
        rcases ha with rfl | rfl
        · rfl
        · show (ite _ _ _ : Place).Agrees (.found s.txQ.empty)
          cases s.txQ.empty with
          | true => exact nofun
          | false => rfl
    | txPop =>
        show (ite _ _ _ : Place).Agrees .popped
        split <;> rfl
    | w4rSize =>
        show (ite (y = .dealing) _ _ : Place).Agrees (s.phase t)
        split
        · next hdeal =>
            subst hdeal
            have hph : s.phase t = .locked := hy
            rw [hph]
            split
            · rfl
            · exact nofun
        · exact hy
    | getState =>
        show (ite (y = .room) _ _ : Place).Agrees (s.phase t)
        split
        · next hroom =>
            subst hroom
            have hph : s.phase t = .locked := hy
            rw [hph]
            split
            · rfl
            · exact nofun
        · exact hy
    | fail f =>
        show (ite (y = .dealing) _ _ : Place).Agrees (s.phase t)
        split
        · trivial
        · exact hy
    | txLastPop =>
        cases ha
        exact hy
    | asyncWrite q tbuf =>
        cases ha
        exact hy
    | txPush q l => exact hy
    | w4rInsert q => exact hy
    | retire => exact hy
    | setState st => exact hy
    | w4rAnswer cmd seq => exact hy
    | w4rEraseFound q => exact hy
    | txPushBackLastPop => exact hy
    | _ => exact absurd rfl hop

/-- `handle_write` runs on the io thread. -/
theorem onIo_perform {op : Op} {b : op.Res} {y : Place} (hy : y.onIo = true → t = .io)
    (hm : op.mayRun t = true) (ha : pacing.allows y op) (hb : (pacing.next y op b).onIo = true) :
    t = .io := by
  by_cases hop : op.unpaced = true
  · rw [(pacing_unpaced op y hop).2] at hb
    exact hy hb
  · cases op with
    | lock m => cases m <;> first | cases hb | exact absurd rfl hop
    | unlock m => cases m <;> first | cases hb | exact absurd rfl hop
    | txEmpty =>
        rcases ha with rfl | rfl
        · cases hb
        · exact hy rfl
    | txPop =>
        have hb : (ite (b = none) .popped .holding : Place).onIo = true := hb
        split at hb <;> cases hb
    | getState =>
        have hb : (ite (y = .room) (ite _ _ _) y : Place).onIo = true := hb
        split at hb
        · next hroom =>
            subst hroom
            exact hy rfl
        · exact hy hb
    | fail f =>
        have hb : (ite (y = .dealing) .dead y : Place).onIo = true := hb
        split at hb
        · next hdeal =>
            subst hdeal
            exact hy rfl
        · exact hy hb
    | asyncWrite q tbuf => cases hb
    | txPush q l => exact hy hb
    -- what belongs to `handle_write` and to the sweep is reserved to the io thread
    | txLastPop => exact Op.io_of_mayRun hm rfl
    | w4rSize => exact Op.io_of_mayRun hm rfl
    | w4rInsert q => exact Op.io_of_mayRun hm rfl
    | retire => exact Op.io_of_mayRun hm rfl
    | setState st => exact Op.io_of_mayRun hm rfl
    | w4rAnswer cmd seq => exact Op.io_of_mayRun hm rfl
    | w4rEraseFound q => exact Op.io_of_mayRun hm rfl
    | txPushBackLastPop => exact Op.io_of_mayRun hm rfl
    | _ => exact absurd rfl hop

/-- A thread holds what it has popped until it has handed it to `async_write`. -/
theorem held_perform {op : Op} {r : op.Res × Session} {y : Place} (h : perform cfg t op s = some r)
    (hy : s.pdu2send t ≠ none → y = .holding) (ha : pacing.allows y op)
    (hs : r.2.pdu2send t ≠ none) : pacing.next y op r.1 = .holding := by
  by_cases hw : Field.pdu2send ∈ op.writes
  · cases op with
    -- the thread holds something only if the queue gave something
    | txPop =>
        cases h
        have hself : Function.update s.pdu2send t s.txQ.pop.1 t = s.txQ.pop.1 := Function.update_self ..
        have hpop : s.txQ.pop.1 ≠ none := fun hnone => hs (hself.trans hnone)
        exact if_neg hpop
    -- `async_write` takes the PDU out of its hand
    | asyncWrite q tbuf =>
        cases h
        have hsame : (({ s with pdu2send := Function.update s.pdu2send t none }).startIo
            (.write q)).pdu2send = Function.update s.pdu2send t none :=
          Session.startIo_same (f := .pdu2send) _ (by decide)
        have hself : Function.update s.pdu2send t none t = none := Function.update_self ..
        exact absurd ((congrFun hsame t).trans hself) hs
    | _ => simp at hw
  · have hsame : r.2.pdu2send = s.pdu2send := perform_same (f := .pdu2send) h hw
    rw [hsame] at hs
    have hheld := hy hs
    subst hheld
    by_cases hop : op.unpaced = true
    · exact (pacing_unpaced op _ hop).2 r.1
    · -- nothing else is allowed while the thread holds a PDU
      cases op with
      | lock m => cases m <;> first | exact absurd rfl hop | cases ha
      | unlock m =>
          cases m <;> first
            | exact absurd rfl hop
            | rcases ha with ha | ha | ha | ha <;> cases ha
      | txEmpty => rcases ha with ha | ha <;> cases ha
      | txPush q l =>
          obtain ⟨e, he⟩ := ha
          cases he
      | txPop => simp at hw
      | asyncWrite q tbuf => simp at hw
      | _ => first | rfl | cases ha

/-- A fault stays. -/
theorem fault_perform {op : Op} {r : op.Res × Session} (h : perform cfg t op s = some r)
    (hf : s.fault ≠ none) : r.2.fault ≠ none := by
  by_cases hw : Field.fault ∈ op.writes
  · cases op with
    | fail f =>
        cases h
        exact nofun
    | _ => simp at hw
  · have hsame : r.2.fault = s.fault := perform_same (f := .fault) h hw
    rwa [hsame]

/-- `handle_write` has nothing to deal with only in a fault. -/
theorem dead_perform {op : Op} {r : op.Res × Session} {y : Place} (h : perform cfg t op s = some r)
    (hy : y = .dead → s.fault ≠ none) (hs : pacing.next y op r.1 = .dead) : r.2.fault ≠ none := by
  by_cases hop : op.unpaced = true
  · rw [(pacing_unpaced op y hop).2] at hs
    exact fault_perform h (hy hs)
  · cases op with
    | lock m => cases m <;> first | exact absurd rfl hop | cases hs
    | unlock m => cases m <;> first | exact absurd rfl hop | cases hs
    | txEmpty =>
        have hs : (ite (y = .free) (ite _ _ _) _ : Place) = .dead := hs
        split at hs
        · split at hs <;> cases hs
        · cases hs
    | txPop =>
        have hs : (ite _ _ _ : Place) = .dead := hs
        split at hs <;> cases hs
    | w4rSize =>
        have hs : (ite (y = .dealing) (ite _ _ _) y : Place) = .dead := hs
        split at hs
        · split at hs <;> cases hs
        · exact fault_perform h (hy hs)
    | getState =>
        have hs : (ite (y = .room) (ite _ _ _) y : Place) = .dead := hs
        split at hs
        · split at hs <;> cases hs
        · exact fault_perform h (hy hs)
    -- the only way to the dead place, and it leaves a fault behind
    | fail f =>
        cases h
        exact nofun
    | txLastPop => cases hs
    | asyncWrite q tbuf => cases hs
    | _ => exact fault_perform h (hy hs)

/-- **Every operation leaves the threads where the protocol has them.** -/
theorem placed_perform {op : Op} {r : op.Res × Session} (hP : s.Placed x)
    (h : perform cfg t op s = some r) (hm : op.mayRun t = true) (ha : pacing.allows (x t) op) :
    r.2.Placed (Function.update x t (pacing.next (x t) op r.1)) := by
  -- each field at the thread that steps, and unchanged at any other
  constructor
  · intro u
    by_cases hut : u = t
    · subst hut
      rw [Function.update_self]
      exact agrees_perform h (hP.agrees u) ha
    · rw [Function.update_of_ne hut, (perform_local h hut).2.2]
      exact hP.agrees u
  · intro u hu
    by_cases hut : u = t
    · subst hut
      rw [Function.update_self] at hu
      exact onIo_perform (hP.onIo u) hm ha hu
    · rw [Function.update_of_ne hut] at hu
      exact hP.onIo u hu
  · intro u hu
    by_cases hut : u = t
    · subst hut
      rw [Function.update_self]
      exact held_perform h (hP.holding u) ha hu
    · rw [(perform_local h hut).1] at hu
      rw [Function.update_of_ne hut]
      exact hP.holding u hu
  · intro u hu
    by_cases hut : u = t
    · subst hut
      rw [Function.update_self] at hu
      exact dead_perform h (hP.dead u) hu
    · rw [Function.update_of_ne hut] at hu
      exact fault_perform h (hP.dead u hu)

/-- Nobody is in `do_write` before its pop from an empty queue, unless he attends to it. -/
theorem Session.Placed.found (hP : s.Placed x) (hx : ∀ u, u ≠ .io → (x u).attends = false) :
    ∀ u ∈ Tid.all, u ≠ .io → s.phase u ≠ .found true := by
  intro u _ hio hph
  have hagree := hP.agrees u
  have hon := hP.onIo u
  have hatt := hx u hio
  rw [hph] at hagree
  cases hu : x u with
  | asked e =>
      rw [hu] at hagree hatt
      cases hagree
      cases hatt
  | done => exact hio (hon (by rw [hu]; rfl))
  | dead => exact hio (hon (by rw [hu]; rfl))
  | _ =>
      rw [hu] at hagree
      cases hagree

end KissSmpp
