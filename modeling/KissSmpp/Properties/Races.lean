import KissSmpp.Interleave.Race
import KissSmpp.Properties.Rest
import KissSmpp.Session.Calls
import KissSmpp.Session.Freshness

/-! # Data races

Which members of the session two threads can access at the same time. `races_are_known` says: `currentState`,
the two flags and the socket, none of which has a mutex, `writeCount`, which `close_connection` reads without the
mutex under which it is counted up, and the number of a PDU that the ageing sweep looks up while another thread
replaces it. The generator's value and the throttle's next send time are never accessed without their mutex; the
timers, `w4rQ` and `readCount` belong to the io thread, which is what protects them, since `w4rQ` is also read
without `w4rQMutex`; and the PDU that `sendingProcessor` looks at is nobody else's yet. -/

namespace KissSmpp

open Interleave Queue

variable {cfg : Params} {t : Tid} {s : Session} {p : Persisted} {now : Nat} {c : Machine} {α β : Type}

/-! ## What the operations access -/

/-- The members of a session that its operations access without a lock of their own, and the PDU objects. -/
inductive Member
  | currentState | stopFlag | reconnectFlag | socket | timer (tm : Timer) | w4rQ | mVal
  | throttleNextSendTime | readCount | writeCount | pdu (r : Ref)
  deriving DecidableEq, Repr

/-- What an operation reads. The two counts are read for the line to the log right before the socket is closed. -/
def Op.looksAt : Op → List Member
  | .getState => [.currentState]
  | .getStopFlag => [.stopFlag]
  | .getReconnectFlag => [.reconnectFlag]
  | .w4rSize | .w4rKeys | .w4rAt _ => [.w4rQ]
  | .w4rInsert r | .w4rEraseFound r | .getPdu r => [.pdu r]
  | .getVal => [.mVal]
  | .getNextSend => [.throttleNextSendTime]
  | .socketClose => [.readCount, .writeCount]
  | _ => []

/-- What an operation writes. `writeCount` is counted up right before `async_write`, and `readCount` once for each
PDU that is processed, before the next one is read. -/
def Op.alters : Op → List Member
  | .setState _ => [.currentState]
  | .setStopFlag _ => [.stopFlag]
  | .setReconnectFlag _ => [.reconnectFlag]
  | .w4rInsert _ | .w4rAnswer _ _ | .w4rEraseFound _ => [.w4rQ]
  | .setVal _ => [.mVal]
  | .setNextSend _ => [.throttleNextSendTime]
  | .setSeq r _ => [.pdu r]
  | .asyncConnect | .asyncReadHeader | .asyncReadBody _ | .socketClose => [.socket]
  | .asyncWrite _ _ => [.writeCount, .socket]
  | .note (.received _ _) => [.readCount]
  | .cancel tm | .arm tm => [.timer tm]
  | _ => []

/-- **The accesses of the operations.** -/
def accesses : Accesses Op Member where
  reads op d := d ∈ op.looksAt
  writes op d := d ∈ op.alters

/-! ## What the threads hold -/

/-- **What a thread has to itself**: its mutexes, and the PDU it has taken from the sending buffer. -/
structure Possession where
  holding : Holding
  hand : Option Ref

/-- What a thread must have to itself for an operation. -/
def Op.Minded (x : Possession) : Op → Prop
  | .getVal | .setVal _ => .mMtx ∈ x.holding.held
  | .getNextSend | .setNextSend _ => .writeMutex ∈ x.holding.held
  | .getPdu r => .writeMutex ∈ x.holding.held ∨ x.hand = some r
  | _ => True

/-- **The locking protocol, with what the mutexes are for.** -/
def minding : Protocol Op Op.Res Possession where
  allows x op := locking.allows x.holding op ∧ op.Minded x
  next x op b :=
    { holding := locking.next x.holding op b
      hand :=
        match op, b with
        | .sendPop, o => o
        | .sendDone, _ | .txPush _ _, _ | .newPdu _, _ => none
        | _, _ => x.hand }

/-! ## Rules for the code -/

/-- **From `held` to `held'`**: run with the mutexes `held`, the code minds them, and ends with `held'`. -/
def Minds (t : Tid) (held held' : List Mutex) (p : Code α) : Prop :=
  ∀ x, x.holding = ⟨t, held⟩ → p.Follows minding (fun _ y => y.holding = ⟨t, held'⟩) x

variable {held held₁ held₂ : List Mutex}

/-- Code that minds the mutexes may be followed by such code, from the mutexes the first leaves. -/
theorem Minds.bind {p : Code α} {f : α → Code β} (hp : Minds t held held₁ p)
    (hf : ∀ a, Minds t held₁ held₂ (f a)) : Minds t held held₂ (p >>= f) :=
  fun x hx => (hp x hx).bind fun a y hy => hf a y hy

/-- Code that minds the mutexes may run under a condition. -/
theorem Minds.when {b : Bool} {p : Code Unit} (hp : Minds t held held p) :
    Minds t held held (Prog.when b p) := fun x hx => .when (fun _ => hp x hx) fun _ => hx

/-- Code that does nothing minds the mutexes. -/
theorem Minds.ret (a : α) : Minds t held held (.ret a : Code α) := fun _ hx => hx

/-- An operation for which the thread has what it must have. -/
theorem Minds.call {op : Op} (hop : op.unlocked = true)
    (hminded : ∀ x : Possession, x.holding = ⟨t, held⟩ → op.Minded x) : Minds t held held (call op) := by
  intro x hx
  obtain ⟨hallow, hnext⟩ := locking_unlocked op x.holding hop
  exact ⟨⟨hallow, hminded x hx⟩, fun b => (hnext b).trans hx⟩

/-- The operations for which a thread must have nothing to itself. -/
@[simp] def Op.unminded : Op → Bool
  | .lock _ | .unlock _ | .getVal | .setVal _ | .getNextSend | .setNextSend _ | .getPdu _ => false
  | _ => true

/-- One of these. -/
theorem Minds.free {op : Op} (hop : op.unminded = true) : Minds t held held (KissSmpp.call op) := by
  refine Minds.call ?_ fun x _ => ?_
  · cases op <;> first | rfl | cases hop
  · cases op <;> trivial

/-- Taking a mutex. -/
theorem Minds.lock {m : Mutex} (hm : m ∉ held) (hgen : .mMtx ∉ held) (hio : m = .w4rQMutex → t = .io) :
    Minds t held (m :: held) (KissSmpp.call (.lock m)) := by
  intro x hx
  refine ⟨⟨?_, trivial⟩, fun _ => ?_⟩
  · rw [hx]
    exact ⟨hm, hgen, hio⟩
  · show Holding.mk _ (m :: x.holding.held) = _
    rw [hx]

/-- Giving back the mutex taken last. -/
theorem Minds.unlock {m : Mutex} : Minds t (m :: held) held (KissSmpp.call (.unlock m)) := by
  intro x hx
  refine ⟨⟨?_, trivial⟩, fun _ => ?_⟩
  · rw [hx]
    rfl
  · show Holding.mk _ x.holding.held.tail = _
    rw [hx]
    rfl

/-- Reading or moving the generator, inside it. -/
theorem Minds.generator {op : Op} (hop : op = .getVal ∨ ∃ v, op = .setVal v) :
    Minds t (.mMtx :: held) (.mMtx :: held) (KissSmpp.call op) := by
  refine Minds.call ?_ fun x hx => ?_
  · rcases hop with rfl | ⟨v, rfl⟩ <;> rfl
  · have hheld : .mMtx ∈ x.holding.held := by
      rw [hx]
      exact List.mem_cons_self
    rcases hop with rfl | ⟨v, rfl⟩ <;> exact hheld

/-- What a thread does with the throttle's next send time, in the critical section. -/
theorem Minds.throttle {op : Op} (hmem : .writeMutex ∈ held) (hop : op = .getNextSend ∨ ∃ v, op = .setNextSend v) :
    Minds t held held (KissSmpp.call op) := by
  refine Minds.call ?_ fun x hx => ?_
  · rcases hop with rfl | ⟨v, rfl⟩ <;> rfl
  · have hheld : .writeMutex ∈ x.holding.held := by
      rw [hx]
      exact hmem
    rcases hop with rfl | ⟨v, rfl⟩ <;> exact hheld

/-- Looking at a PDU, in the critical section. -/
theorem Minds.look {r : Ref} (hmem : .writeMutex ∈ held) :
    Minds t held held (KissSmpp.call (.getPdu r)) :=
  Minds.call rfl fun _ hx => .inl (hx ▸ hmem)

/-! ## The code -/

/-- `seqNumGen.next()` touches the generator under its own mutex. -/
theorem minds_seqNumGenNext (h : .mMtx ∉ held) : Minds t held held seqNumGenNext := by
  refine (Minds.lock h h (fun hm => by cases hm)).bind fun _ =>
    (Minds.generator (.inl rfl)).bind fun mVal => ?_
  split
  · exact (Minds.generator (.inr ⟨_, rfl⟩)).bind fun _ => Minds.unlock.bind fun _ => Minds.ret _
  · exact (Minds.generator (.inr ⟨_, rfl⟩)).bind fun _ => Minds.unlock.bind fun _ => Minds.ret _

/-- `throttle_check` touches the next send time under `writeMutex`. -/
theorem minds_throttleCheck (hw : .writeMutex ∈ held) : Minds t held held (throttleCheck cfg) :=
  (Minds.free rfl).bind fun _ => (Minds.throttle hw (.inl rfl)).bind fun _ =>
    (Minds.when (Minds.free rfl)).bind fun _ => Minds.throttle hw (.inr ⟨_, rfl⟩)

/-- `write_pdu` minds the mutexes, if it is called under `writeMutex`. -/
theorem minds_writePdu (hw : .writeMutex ∈ held) (h : .mMtx ∉ held) :
    Minds t held held (writePdu cfg) := by
  refine (Minds.free rfl).bind fun o => ?_
  cases o with
  | none => exact Minds.free rfl
  | some q =>
      have hnumber : Minds t held held (do
          let n ← seqNumGenNext
          call (.setSeq q n)) := (minds_seqNumGenNext h).bind fun _ => Minds.free rfl
      exact (Minds.look hw).bind fun _ => (Minds.when hnumber).bind fun _ => (Minds.look hw).bind fun _ =>
        (minds_throttleCheck hw).bind fun _ => Minds.free rfl

/-- `do_write` takes `writeMutex` for what it does. -/
theorem minds_doWrite {r : Ref} {l : Level} (hw : .writeMutex ∉ held) (h : .mMtx ∉ held) :
    Minds t held held (doWrite cfg r l) := by
  have hwriting : Minds t (.writeMutex :: held) (.writeMutex :: held) writing :=
    (Minds.free rfl).bind fun _ => Minds.ret _
  exact (Minds.lock hw h (fun hm => by cases hm)).bind fun _ => hwriting.bind fun _ =>
    (Minds.free rfl).bind fun _ =>
      (Minds.when (minds_writePdu List.mem_cons_self (by simp [h]))).bind fun _ => Minds.unlock

/-- `w4rQ_put` takes `w4rQMutex` for what it does. -/
theorem minds_w4rQPut {r : Ref} (hw : .writeMutex ∈ held) (hq : .w4rQMutex ∉ held) (h : .mMtx ∉ held) :
    Minds .io held held (w4rQPut r) :=
  (Minds.look hw).bind fun _ => Minds.when <|
    (Minds.lock hq h fun _ => rfl).bind fun _ => (Minds.free rfl).bind fun _ => Minds.unlock

/-- `canSend` touches nothing that a mutex is for. -/
theorem minds_canSend : Minds t held held canSend := by
  refine (Minds.free rfl).bind fun size => ?_
  split
  · exact (Minds.free rfl).bind fun _ => Minds.ret _
  · exact Minds.ret _

/-- `handle_write` looks at the PDU that has been written under `writeMutex`. -/
theorem minds_handleWritten (o : Option Ref) :
    Minds .io [.writeMutex] [.writeMutex] (handleWritten cfg o) := by
  cases o with
  | none => exact Minds.free rfl
  | some r =>
      refine (minds_w4rQPut (by simp) (by simp) (by simp)).bind fun _ => (Minds.free rfl).bind fun _ =>
        minds_canSend.bind fun mayWrite => Minds.when ?_
      exact (Minds.free rfl).bind fun _ => Minds.when (minds_writePdu (by simp) (by simp))

/-- `handle_write` minds the mutexes. -/
theorem minds_handleWrite : Minds .io [] [] (handleWrite cfg .success) :=
  (Minds.lock (by simp) (by simp) (fun hm => by cases hm)).bind fun _ => (Minds.free rfl).bind fun o =>
    (minds_handleWritten o).bind fun _ => Minds.unlock

/-- The sweep keeps `w4rQMutex` through its loop. -/
theorem minds_ageSweep (keys : List Nat) :
    Minds t [.w4rQMutex] [.w4rQMutex] (ageSweep cfg keys) := by
  induction keys with
  | nil => exact Minds.ret _
  | cons k ks ih =>
      refine (Minds.free rfl).bind fun o => ?_
      cases o with
      | none => exact ih
      | some i =>
          refine (Minds.free rfl).bind fun now => (Minds.when ?_).bind fun _ => ih
          refine (minds_doWrite (by simp) (by simp)).bind fun _ => (Minds.free rfl).bind fun k' => ?_
          cases k' with
          | none => exact Minds.free rfl
          | some k' => exact Minds.when (Minds.free rfl)

/-- `w4rQ_age_cleanup` minds the mutexes. -/
theorem minds_w4rQAgeCleanup (e : ErrorCode) : Minds .io [] [] (w4rQAgeCleanup cfg e) :=
  Minds.when <| (Minds.free rfl).bind fun _ => Minds.when <|
    (Minds.lock (by simp) (by simp) fun _ => rfl).bind fun _ => (Minds.free rfl).bind fun keys =>
      (minds_ageSweep keys).bind fun _ => (Minds.free rfl).bind fun _ => Minds.unlock

/-- `recieveProcessor` touches nothing that a mutex is for. -/
theorem minds_recieveProcessor : Minds t held held recieveProcessor := by
  refine (Minds.free rfl).bind fun empty => ?_
  split
  · exact (Minds.free rfl).bind fun _ => Minds.free rfl
  · refine (Minds.free rfl).bind fun o => ?_
    cases o with
    | none => exact Minds.free rfl
    | some r =>
        refine (Minds.free rfl).bind fun a => ?_
        cases a <;> exact (Minds.free rfl).bind fun _ => Minds.free rfl

/-- A PDU is sent by the thread that has it to itself. -/
theorem minds_sendPdu (r : Ref) {x : Possession} (hx : x.holding = ⟨t, []⟩) (hr : x.hand = some r) :
    (sendPdu cfg r).Follows minding (fun _ y => y.holding = ⟨t, []⟩) x := by
  refine ⟨⟨trivial, trivial⟩, fun st => ?_⟩
  have hlook : ∀ {f : Pdu → Code Unit}, (∀ q, Minds t [] [] (f q)) →
      (call (.getPdu r) >>= f).Follows minding (fun _ y => y.holding = ⟨t, []⟩) x :=
    fun hf => ⟨⟨trivial, .inr hr⟩, fun q => hf q _ hx⟩
  have hwrite : Minds t [] [] (doWrite cfg r .MESSAGE) := minds_doWrite (by simp) (by simp)
  cases st <;> first
    | exact hx
    | (refine hlook fun q => ?_
       split <;> first
        | exact hwrite
        | exact Minds.ret _)

/-- `sendingProcessor` looks at the PDU it has taken from the sending buffer, and minds the mutexes.
-/
theorem minds_sendingProcessor : Minds t [] [] (sendingProcessor cfg) := by
  refine (Minds.free rfl).bind fun empty => ?_
  split
  · exact (Minds.free rfl).bind fun _ => Minds.free rfl
  · intro x hx
    refine ⟨⟨trivial, trivial⟩, fun o => ?_⟩
    cases o with
    | none => exact hx
    | some r =>
        have hdone : Minds t [] [] (call .sendDone) := Minds.free rfl
        exact (minds_sendPdu r (x := ⟨x.holding, some r⟩) hx rfl).bind fun _ y hy => hdone y hy

/-- A thread that holds no mutex. -/
def Unburdened (t : Tid) (y : Possession) : Prop := y.holding = ⟨t, []⟩

/-- An operation for which it need not have anything to itself. -/
theorem minds_free_idle {op : Op} (hop : op.unminded = true) : Abides minding (Unburdened t) (call op) :=
  Minds.free hop

/-- What the session does of its own accord minds the mutexes. -/
theorem minding_regular (t : Tid) : Regular cfg minding (Unburdened t) where
  plain op x hop hx := minds_free_idle (by cases op <;> first | rfl | cases hop) x hx
  own _ _ := minds_free_idle rfl
  number := minds_seqNumGenNext (by simp)
  write _ _ := minds_doWrite (by simp) (by simp)

/-- What passes through the process minds the mutexes. -/
theorem minding_traffic (t : Tid) : Traffic cfg minding (Unburdened t) where
  send := minds_sendingProcessor
  receive := minds_recieveProcessor
  process := (minding_regular t).process4state (fun _ _ => minds_free_idle rfl) fun _ =>
    (minds_free_idle rfl).bind fun _ => minds_free_idle rfl

/-- What the io thread does under the mutexes minds them. -/
theorem minding_upkeep : Upkeep cfg minding (Unburdened .io) where
  written := minds_handleWrite
  answer _ := Minds.when <| (Minds.lock (by simp) (by simp) fun _ => rfl).bind fun _ =>
    (Minds.free rfl).bind fun _ => Minds.unlock
  cleanup := minds_w4rQAgeCleanup

/-! ## What the threads hold in a run -/

/-- **The threads have what they take for theirs.** -/
structure Session.Minding (s : Session) (x : Tid → Possession) : Prop where
  owned : Owned s (Possession.holding ∘ x)
  hand : ∀ u r, (x u).hand = some r → s.inHand u = some r

/-- A thread has the PDU it has taken from the sending buffer in hand. -/
theorem hand_perform {op : Op} {y : op.Res × Session} {x : Possession}
    (hx : ∀ r, x.hand = some r → s.inHand t = some r) (h : perform cfg t op s = some y) {r : Ref}
    (hr : (minding.next x op y.1).hand = some r) : y.2.inHand t = some r := by
  by_cases hw : Field.inHand ∈ op.writes
  · cases op with
    | sendPop =>
        cases h
        exact (Function.update_self ..).trans hr
    | sendDone => cases hr
    | txPush q l => cases hr
    | newPdu q => cases hr
    | _ => simp at hw
  · have hsame : y.2.inHand = s.inHand := perform_same (f := .inHand) h hw
    rw [hsame]
    refine hx r ?_
    cases op <;> first | exact hr | simp at hw

/-- **Every operation leaves it so.** -/
theorem minding_perform {op : Op} {y : op.Res × Session} {x : Tid → Possession} (hM : s.Minding x)
    (ha : minding.allows (x t) op) (h : perform cfg t op s = some y) :
    y.2.Minding (Function.update x t (minding.next (x t) op y.1)) where
  owned := by
    rw [Function.comp_update]
    exact owned_perform hM.owned ha.1 h
  hand u r hr := by
    by_cases hu : u = t
    · subst hu
      rw [Function.update_self] at hr
      exact hand_perform (hM.hand u) h hr
    · rw [Function.update_of_ne hu] at hr
      rw [(perform_local h hu).2.1]
      exact hM.hand u r hr

/-- **Every run minds the mutexes**, in positions that agree with who holds what. -/
theorem Runs.mindful (h : Runs cfg Guard.free p now c) :
    ∃ x, c.shared.Minding x ∧ ∀ t, (c.code t).Follows minding (fun _ => Unburdened t) (x t) := by
  have hidle : ∀ t, ((Machine.init p now).code t).Follows minding (fun _ => Unburdened t) ⟨⟨t, []⟩, none⟩ :=
    fun _ => rfl
  refine Reach.protocol (I := Unburdened) (K := Session.Minding) hidle
    (fun j x hx => (minding_regular j.thread).body (fun hio => hio ▸ minding_upkeep) (minding_traffic j.thread) x hx)
    ?_ ?_ ?_ ?_ h
  · exact ⟨⟨fun _ => rfl, fun _ => List.nodup_nil, fun _ _ => iff_of_false (by simp) (fun h => by cases h),
      fun u hu => by cases hu⟩, fun u r hr => by cases hr⟩
  · intro t op s x r hM _ ha hx
    exact minding_perform hM ha (perform_of_exec hx).2
  · intro e s s' x hM hx
    have hin : s'.inHand = s.inHand := env_same (f := .inHand) hx (by simp)
    exact ⟨hM.owned.same (env_same (f := .owner) hx (by simp)), fun u r hr => hin ▸ hM.hand u r hr⟩
  · intro j s s' x hM _ hx
    have hin : s'.inHand = s.inHand := take_same (f := .inHand) hx (by simp)
    exact ⟨hM.owned.same (take_same (f := .owner) hx (by simp)), fun u r hr => hin ▸ hM.hand u r hr⟩

/-! ## The races -/

/-- An operation that accesses anything need not wait. -/
theorem ready_of_touches {op : Op} {d : Member} (h : accesses.touches op d) : op.Ready s := by
  cases op with
  | lock m => rcases h with h | h <;> cases h
  | sleepUntil t' => rcases h with h | h <;> cases h
  | takeReply => rcases h with h | h <;> cases h
  | _ => trivial

/-- All that is known of an operation that is about to access something. -/
theorem Runs.accessing (h : Runs cfg Guard.free p now c) (hf : c.shared.fault = none) {op : Op}
    (hnext : c.IsNext t op) {d : Member} (hd : accesses.touches op d) :
    (known cfg Guard.free).op t op c.shared := by
  obtain ⟨k, hcode⟩ := hnext
  obtain ⟨r, hr⟩ : ∃ r, perform cfg t op c.shared = some r := perform_ready (ready_of_touches hd)
  exact h.knowing_next hcode trivial ((if_pos hf).trans hr)

variable {d : Member}

/-- What is put on record accesses `readCount`, if anything. -/
theorem readCount_of_note {m : Mark} (h : accesses.touches (.note m) d) : d = .readCount := by
  rcases h with h | h
  · cases h
  · cases m with
    | received raw st => exact List.mem_singleton.mp h
    | _ => cases h

/-- A thread that touches the generator's value owns its mutex. -/
theorem owner_of_touches_mVal (h : Runs cfg Guard.free p now c) (ht : c.Touches accesses t .mVal) :
    c.shared.owner .mMtx = some t := by
  obtain ⟨x, hM, hfol⟩ := h.mindful
  obtain ⟨op, ⟨k, hcode⟩, hop⟩ := ht
  have hallow := hfol t
  rw [hcode] at hallow
  refine (hM.owned.owner t .mMtx).mp ?_
  cases op with
  | getVal => exact hallow.1.2
  | setVal v => exact hallow.1.2
  | note m => cases readCount_of_note hop
  | _ => rcases hop with hop | hop <;> simp [accesses, Op.looksAt, Op.alters] at hop

/-- A thread about to touch the next send time of the throttle holds `writeMutex`. -/
theorem owner_of_touches_nextSend (h : Runs cfg Guard.free p now c)
    (ht : c.Touches accesses t .throttleNextSendTime) : c.shared.owner .writeMutex = some t := by
  obtain ⟨x, hM, hfol⟩ := h.mindful
  obtain ⟨op, ⟨k, hcode⟩, hop⟩ := ht
  have hallow := hfol t
  rw [hcode] at hallow
  refine (hM.owned.owner t .writeMutex).mp ?_
  cases op with
  | getNextSend => exact hallow.1.2
  | setNextSend v => exact hallow.1.2
  | note m => cases readCount_of_note hop
  | _ => rcases hop with hop | hop <;> simp [accesses, Op.looksAt, Op.alters] at hop

/-- The members that belong to the io thread: the timers, `w4rQ` and `readCount`. -/
def Member.onIo : Member → Bool
  | .timer _ | .w4rQ | .readCount => true
  | _ => false

/-- An operation that accesses one of them is reserved to the io thread. -/
theorem onIo_of_touches {op : Op} (hd : d.onIo = true) (hop : accesses.touches op d) : op.onIo = true := by
  cases op with
  | note m =>
      cases m with
      | received raw st => rfl
      | _ => rcases hop with hop | hop <;> cases hop
  | asyncWrite q tbuf =>
      rcases hop with hop | hop
      · cases hop
      · rcases List.mem_pair.mp hop with rfl | rfl <;> cases hd
  | _ =>
      first
        | rfl
        | rcases hop with hop | hop <;> simp [accesses, Op.looksAt, Op.alters] at hop <;> subst hop <;> cases hd

/-- The io thread alone accesses them. -/
theorem io_of_touches (h : Runs cfg Guard.free p now c) (hf : c.shared.fault = none) (hd : d.onIo = true)
    (ht : c.Touches accesses t d) : t = .io := by
  obtain ⟨op, hnext, hop⟩ := ht
  exact Op.io_of_mayRun (known_mayRun (h.accessing hf hnext hop)) (onIo_of_touches hd hop)

/-- Outside the critical section, a thread looks at a PDU that is not part of the session yet. -/
theorem looks_alone (h : Runs cfg Guard.free p now c) {r : Ref} (ht : c.IsNext t (.getPdu r))
    (ho : c.shared.owner .writeMutex ≠ some t) : c.shared.Fresh r := by
  obtain ⟨x, hM, hfol⟩ := h.mindful
  obtain ⟨k, hcode⟩ := ht
  have hallow := hfol t
  rw [hcode] at hallow
  rcases hallow.1.2 with hheld | hhand
  · exact absurd ((hM.owned.owner t .writeMutex).mp hheld) ho
  · exact .inl ⟨t, hM.hand t r hhand⟩

/-- **A PDU object** is raced for only while the ageing sweep looks up its number. -/
theorem race_pdu (h : Runs cfg Guard.free p now c) (hf : c.shared.fault = none) {r : Ref}
    (hr : c.Race accesses (.pdu r)) :
    c.shared.Awaits r ∧ (c.shared.pdu r).sequenceNumber ≤ SequenceNumber.Min := by
  obtain ⟨t, u, htu, ⟨op, ht, hop⟩, op', hu, hop'⟩ := hr
  have hkt := h.accessing hf ht hop
  have hku := known_known (h.accessing hf hu (.inr hop'))
  -- the one that writes it sets the number of the PDU it has popped
  have hset : ∃ n, op' = .setSeq r n := by
    cases op' with
    | setSeq q n =>
        obtain rfl : r = q := by simpa [accesses, Op.alters] using hop'
        exact ⟨n, rfl⟩
    | note m => cases readCount_of_note (.inr hop')
    | _ => simp [accesses, Op.alters] at hop'
  obtain ⟨n, rfl⟩ := hset
  obtain ⟨howner, hsend, hnum⟩ := hku
  have hother : c.shared.owner .writeMutex ≠ some t := fun ho => htu (Option.some.inj (ho.symm.trans howner))
  refine ⟨?_, hnum⟩
  cases op with
  | setSeq q n => exact absurd (known_known hkt).1 hother
  | w4rInsert q =>
      have hphase : c.shared.phase t = .locked := (known_known hkt).2.1
      exact absurd ((known_inv hkt).mutex t (hphase ▸ (by decide))) hother
  | getPdu q =>
      obtain rfl : r = q := by simpa [Accesses.touches, accesses, Op.looksAt, Op.alters] using hop
      exact absurd (.flight (Session.mem_inFlight.mpr (.inl ⟨u, hsend⟩)))
        (h.apart.queue r (looks_alone h ht hother))
  | w4rEraseFound q =>
      obtain rfl : r = q := by simpa [Accesses.touches, accesses, Op.looksAt, Op.alters] using hop
      exact (known_known hkt).2
  | note m => cases readCount_of_note hop
  | _ => rcases hop with hop | hop <;> simp [accesses, Op.looksAt, Op.alters] at hop

/-- **What may be raced for**: `currentState`, the two flags and the socket, which no mutex guards, `writeCount`,
and a PDU that awaits its response while its number is too low. -/
def Session.Unguarded (s : Session) : Member → Prop
  | .currentState | .stopFlag | .reconnectFlag | .socket | .writeCount => True
  | .pdu r => s.Awaits r ∧ (s.pdu r).sequenceNumber ≤ SequenceNumber.Min
  | .timer _ | .w4rQ | .mVal | .throttleNextSendTime | .readCount => False

/-- **No other races**: two threads that are about to access the same member, one of them to write it, are about
to access one of these. -/
theorem races_are_known (h : Runs cfg Guard.free p now c) (hf : c.shared.fault = none)
    (hr : c.Race accesses d) : c.shared.Unguarded d := by
  cases d with
  | currentState => trivial
  | stopFlag => trivial
  | reconnectFlag => trivial
  | socket => trivial
  | writeCount => trivial
  | timer tm => exact absurd hr (Config.not_race_of_confined fun t ht => io_of_touches h hf rfl ht)
  | w4rQ => exact absurd hr (Config.not_race_of_confined fun t ht => io_of_touches h hf rfl ht)
  | readCount => exact absurd hr (Config.not_race_of_confined fun t ht => io_of_touches h hf rfl ht)
  | mVal => exact absurd hr (Config.not_race_of_mutex fun t ht => owner_of_touches_mVal h ht)
  | throttleNextSendTime =>
      exact absurd hr (Config.not_race_of_mutex fun t ht => owner_of_touches_nextSend h ht)
  | pdu r => exact race_pdu h hf hr

/-- `sendingProcessor` is about to look at `currentState`, and `handle_read_header`, which has found the
connection closed, is about to set it. -/
def Schedule.sendsAtEof : List Step :=
  Schedule.bind ++ [.env (.submit []), .env (.elapse 1000000), .start .send] ++ Schedule.turn .sender 2 ++
    [.env (.complete .readHeader .none .eof), .start (.handler (.handleReadHeader .none .eof))] ++
    Schedule.turn .io 1

/-- Two threads do race for `currentState`. -/
theorem races_are_known_sendsAtEof :
    (Machine.after sampleParams .none Schedule.sendsAtEof).Race accesses .currentState ∧
      (Machine.after sampleParams .none Schedule.sendsAtEof).shared.Unguarded .currentState := by
  have hsender : (Machine.after sampleParams .none Schedule.sendsAtEof).next? .sender = some .getState := by
    decide +kernel
  have hio : (Machine.after sampleParams .none Schedule.sendsAtEof).next? .io = some (.setState .CLOSED) := by
    decide +kernel
  have hrace : (Machine.after sampleParams .none Schedule.sendsAtEof).Race accesses .currentState :=
    ⟨.sender, .io, by decide, ⟨_, Machine.code_of_next? hsender, .inl List.mem_cons_self⟩, _,
      Machine.code_of_next? hio, List.mem_cons_self⟩
  exact ⟨hrace, races_are_known (runs_after _ _ _) (by decide +kernel) hrace⟩

end KissSmpp
