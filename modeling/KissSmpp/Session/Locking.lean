import KissSmpp.Session.Routine

/-! # The locking protocol

In which order the code takes its mutexes, seen from one thread: the last one taken is given back first,
none is taken twice, nothing is taken inside the sequence generator, and `w4rQMutex` is for the io thread
alone. `locking` is this protocol, with the mutexes a thread holds as its positions. The io thread takes
`writeMutex` and `w4rQMutex` in both orders, `handle_write` the one, the ageing sweep the other. -/

namespace KissSmpp

open Interleave Queue

variable {cfg : Params} {t : Tid} {α β : Type}

/-! ## The protocol -/

/-- **What a thread holds**: the mutexes, the last taken first. -/
structure Holding where
  thread : Tid
  held : List Mutex

/-- **The locking protocol.** -/
def locking : Protocol Op Op.Res Holding where
  allows x op :=
    match op with
    | .lock m => m ∉ x.held ∧ .mMtx ∉ x.held ∧ (m = .w4rQMutex → x.thread = .io)
    | .unlock m => x.held.head? = some m
    | _ => True
  next x op _ :=
    match op with
    | .lock m => { x with held := m :: x.held }
    | .unlock _ => { x with held := x.held.tail }
    | _ => x

/-- The operations that are none of a mutex. -/
@[simp] def Op.unlocked : Op → Bool
  | .lock _ | .unlock _ => false
  | _ => true

/-- Operations that are none of a mutex are allowed anywhere, and leave what is held. -/
theorem locking_unlocked (op : Op) (x : Holding) (hop : op.unlocked = true) :
    locking.allows x op ∧ ∀ b, locking.next x op b = x := by
  cases op with
  | lock m => cases hop
  | unlock m => cases hop
  | _ => exact ⟨trivial, fun _ => rfl⟩

/-! ## Rules for the code -/

/-- **From `held` to `held'`**: run by `t` with the mutexes `held`, the code keeps to the protocol and ends
with `held'`. -/
def Leads (t : Tid) (held held' : List Mutex) (p : Code α) : Prop :=
  p.Follows locking (fun _ y => y = ⟨t, held'⟩) ⟨t, held⟩

/-- The code gives back what it takes. -/
abbrev Balanced (t : Tid) (held : List Mutex) (p : Code α) : Prop := Leads t held held p

variable {held held₁ held₂ : List Mutex}

/-- Code may be followed by code that starts with the mutexes it leaves. -/
theorem Leads.bind {p : Code α} {f : α → Code β} (hp : Leads t held held₁ p)
    (hf : ∀ a, Leads t held₁ held₂ (f a)) : Leads t held held₂ (p >>= f) := by
  refine Prog.Follows.bind hp fun a y hy => ?_
  subst hy
  exact hf a

/-- Balanced code may run under a condition. -/
theorem Leads.when {b : Bool} {p : Code Unit} (hp : Balanced t held p) :
    Balanced t held (Prog.when b p) := Prog.Follows.when (fun _ => hp) fun _ => rfl

/-- Code that does nothing is balanced. -/
theorem Leads.ret (a : α) : Balanced t held (.ret a : Code α) := rfl

/-- One operation that is none of a mutex. -/
theorem Leads.call {op : Op} (hop : op.unlocked = true) : Balanced t held (call op) :=
  ⟨(locking_unlocked op _ hop).1, fun b => (locking_unlocked op _ hop).2 b⟩

/-- Taking a mutex. -/
theorem Leads.lock {m : Mutex} (hm : m ∉ held) (hgen : .mMtx ∉ held) (hio : m = .w4rQMutex → t = .io) :
    Leads t held (m :: held) (KissSmpp.call (.lock m)) := ⟨⟨hm, hgen, hio⟩, fun _ => rfl⟩

/-- Giving back the mutex taken last. -/
theorem Leads.unlock {m : Mutex} : Leads t (m :: held) held (KissSmpp.call (.unlock m)) :=
  ⟨rfl, fun _ => rfl⟩

/-! ## Numbers and writing -/

/-- `throttle_check` takes no mutex. -/
theorem balanced_throttleCheck : Balanced t held (throttleCheck cfg) :=
  (Leads.call rfl).bind fun _ => (Leads.call rfl).bind fun _ =>
    (Leads.when (Leads.call rfl)).bind fun _ => Leads.call rfl

/-- `SequinceNumberGenerator::next`, outside itself. -/
theorem balanced_seqNumGenNext (h : .mMtx ∉ held) : Balanced t held seqNumGenNext := by
  refine (Leads.lock h h (fun hm => by cases hm)).bind fun _ => (Leads.call rfl).bind fun mVal => ?_
  split
  · exact (Leads.call rfl).bind fun _ => Leads.unlock.bind fun _ => Leads.ret _
  · exact (Leads.call rfl).bind fun _ => Leads.unlock.bind fun _ => Leads.ret _

/-- `write_pdu` gives back the generator's mutex, which it takes for a number. -/
theorem balanced_writePdu (h : .mMtx ∉ held) : Balanced t held (writePdu cfg) := by
  refine (Leads.call rfl).bind fun o => ?_
  cases o with
  | none => exact Leads.call rfl
  | some q =>
      have hnumber : Balanced t held (do
          let n ← seqNumGenNext
          call (.setSeq q n)) := (balanced_seqNumGenNext h).bind fun _ => Leads.call rfl
      exact (Leads.call rfl).bind fun _ => (Leads.when hnumber).bind fun _ =>
        (Leads.call rfl).bind fun _ => balanced_throttleCheck.bind fun _ =>
          Leads.call rfl

/-- `do_write` takes `writeMutex`, and under it the generator's mutex. -/
theorem balanced_doWrite {r : Ref} {l : Level} (hw : .writeMutex ∉ held) (h : .mMtx ∉ held) :
    Balanced t held (doWrite cfg r l) := by
  have hwriting : Balanced t (.writeMutex :: held) writing :=
    (Leads.call rfl).bind fun _ => Leads.ret _
  exact (Leads.lock hw h (fun hm => by cases hm)).bind fun _ => hwriting.bind fun _ =>
    (Leads.call rfl).bind fun _ => (Leads.when (balanced_writePdu (by simp [h]))).bind fun _ =>
      Leads.unlock

/-! ## PDUs awaiting a response -/

/-- `w4rQ_put` takes `w4rQMutex`, in `handle_write` under `writeMutex`. -/
theorem balanced_w4rQPut {r : Ref} (hq : .w4rQMutex ∉ held) (h : .mMtx ∉ held) :
    Balanced .io held (w4rQPut r) :=
  (Leads.call rfl).bind fun _ => Leads.when <|
    (Leads.lock hq h fun _ => rfl).bind fun _ => (Leads.call rfl).bind fun _ => Leads.unlock

/-- `w4rQ_pop` gives back `w4rQMutex`. -/
theorem balanced_w4rQPop (raw : RawPdu) : Balanced .io [] (w4rQPop raw) :=
  Leads.when <| (Leads.lock (by simp) (by simp) fun _ => rfl).bind fun _ =>
    (Leads.call rfl).bind fun _ => Leads.unlock

/-- `canSend` takes no mutex. -/
theorem balanced_canSend : Balanced t held canSend := by
  refine (Leads.call rfl).bind fun size => ?_
  split
  · exact (Leads.call rfl).bind fun _ => Leads.ret _
  · exact Leads.ret _

/-- `handle_write` gives back what it takes inside `writeMutex`. -/
theorem balanced_handleWritten (o : Option Ref) :
    Balanced .io [.writeMutex] (handleWritten cfg o) := by
  cases o with
  | none => exact Leads.call rfl
  | some r =>
      refine (balanced_w4rQPut (by simp) (by simp)).bind fun _ => (Leads.call rfl).bind fun _ =>
        balanced_canSend.bind fun mayWrite => Leads.when ?_
      exact (Leads.call rfl).bind fun _ => Leads.when (balanced_writePdu (by simp))

/-- `handle_write` gives back `writeMutex`. -/
theorem balanced_handleWrite : Balanced .io [] (handleWrite cfg .success) :=
  (Leads.lock (by simp) (by simp) (fun hm => by cases hm)).bind fun _ => (Leads.call rfl).bind fun o =>
    (balanced_handleWritten o).bind fun _ => Leads.unlock

/-- The sweep writes under `w4rQMutex`. -/
theorem balanced_ageSweep (keys : List Nat) : Balanced t [.w4rQMutex] (ageSweep cfg keys) := by
  induction keys with
  | nil => exact Leads.ret _
  | cons k ks ih =>
      refine (Leads.call rfl).bind fun o => ?_
      cases o with
      | none => exact ih
      | some i =>
          refine (Leads.call rfl).bind fun now => (Leads.when ?_).bind fun _ => ih
          refine (balanced_doWrite (by simp) (by simp)).bind fun _ => (Leads.call rfl).bind fun k' => ?_
          cases k' with
          | none => exact Leads.call rfl
          | some k' => exact Leads.when (Leads.call rfl)

/-- `w4rQ_age_cleanup` gives back `w4rQMutex`. -/
theorem balanced_w4rQAgeCleanup (e : ErrorCode) : Balanced .io [] (w4rQAgeCleanup cfg e) :=
  Leads.when <| (Leads.call rfl).bind fun _ => Leads.when <|
    (Leads.lock (by simp) (by simp) fun _ => rfl).bind fun _ => (Leads.call rfl).bind fun keys =>
      (balanced_ageSweep keys).bind fun _ => (Leads.call rfl).bind fun _ => Leads.unlock

/-! ## The code of the process -/

/-- A thread that holds nothing. -/
def FreeHanded (t : Tid) (y : Holding) : Prop := y = ⟨t, []⟩

/-- Balanced code, for a thread that holds nothing. -/
theorem Leads.abides {p : Code α} (hp : Balanced t [] p) : Abides locking (FreeHanded t) p := by
  rintro x rfl
  exact hp

/-- Everything that a thread runs without a mutex keeps to the locking protocol. -/
theorem locking_routine (t : Tid) : Routine cfg locking (FreeHanded t) where
  plain op x hop hx := by
    have hunlocked : op.unlocked = true := by
      cases op <;> first | rfl | cases hop
    obtain ⟨hallow, hnext⟩ := locking_unlocked op x hunlocked
    exact ⟨hallow, fun b => (hnext b).symm ▸ hx⟩
  number := (balanced_seqNumGenNext (by simp)).abides
  write _ _ := (balanced_doWrite (by simp) (by simp)).abides

/-- What the io thread does under the mutexes keeps to the locking protocol. -/
theorem locking_upkeep : Upkeep cfg locking (FreeHanded .io) where
  written := balanced_handleWrite.abides
  answer raw := (balanced_w4rQPop raw).abides
  cleanup e := (balanced_w4rQAgeCleanup e).abides

/-- **The code of every job** takes its mutexes in order, and gives them all back. -/
theorem locking_body (j : Job) : Abides locking (FreeHanded j.thread) (j.body cfg) :=
  (locking_routine j.thread).body fun hio => hio ▸ locking_upkeep

end KissSmpp
