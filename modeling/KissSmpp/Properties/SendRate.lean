import KissSmpp.Queue.Gate
import KissSmpp.Session.Lanes

/-! # How many PDUs are sent in a given time

`throttle_check` is a gate in front of `async_write`: all threads go through it, in the critical section of
`writeMutex`, however often they draw numbers, sleep or are interrupted on the way. `ticking` follows a
thread through it, `Session.gate` is the gate that a state shows, and what `Gate.Steps.spaced` says of gates
becomes `sends_limited`: of the PDUs written in any stretch of any run, at most two fall into one time
between sends. -/

namespace KissSmpp

open Interleave Queue

variable {cfg : Params} {t : Tid} {s s' : Session} {α : Type} {interval : Nat}

/-! ## The protocol -/

/-- **How a thread goes through the gate**: the position is where it stands there, if it has popped a PDU
that it has not handed over yet. -/
def ticking (interval : Nat) : Protocol Op Op.Res (Option Gate.Stage) where
  allows x
    | .txPop | .unlock .writeMutex => x = none
    | .clock => x = none ∨ x = some .idle
    | .getNextSend => ∃ a, x = some (.read a)
    | .sleepUntil n => x = none ∨ ∃ a, x = some (.told a n)
    | .setNextSend v => ∃ a, v = a + interval ∧
        (x = some (.rested a) ∨ ∃ n, n ≤ a ∧ x = some (.told a n))
    | .asyncWrite _ _ => x = some .ready
    | _ => True
  next x
    | .txPop, o => if o = none then none else some .idle
    | .clock, a => if x = none then none else some (.read a)
    | .getNextSend, n =>
      match x with
      | some (.read a) => some (.told a n)
      | _ => x
    | .sleepUntil _, _ =>
      match x with
      | some (.told a _) => some (.rested a)
      | _ => x
    | .setNextSend _, _ => some .ready
    | .asyncWrite _ _, _ => none
    | _, _ => x

/-- The operations the protocol takes no notice of. -/
@[simp] def Op.untimed : Op → Bool
  | .unlock m => m != .writeMutex
  | .txPop | .clock | .getNextSend | .sleepUntil _ | .setNextSend _ | .asyncWrite _ _ => false
  | _ => true

/-- Untimed operations are allowed anywhere, and leave the thread at its stage. -/
theorem ticking_untimed (op : Op) (x : Option Gate.Stage) (hop : op.untimed = true) :
    (ticking interval).allows x op ∧ ∀ b, (ticking interval).next x op b = x := by
  cases op with
  | unlock m => cases m <;> first | exact ⟨trivial, fun _ => rfl⟩ | cases hop
  | _ => first | exact ⟨trivial, fun _ => rfl⟩ | cases hop

/-- A single untimed operation keeps to the gate. -/
theorem abides_untimed {Q : Option Gate.Stage → Prop} {op : Op} (hop : op.untimed = true) :
    Abides (ticking interval) Q (call op) := fun x hx =>
  ⟨(ticking_untimed op x hop).1, fun b => ((ticking_untimed op x hop).2 b).symm ▸ hx⟩

/-- A thread that has nothing to send in its hands. -/
def Unladen (x : Option Gate.Stage) : Prop := x = none

/-- `seqNumGen.next()` is untimed. -/
theorem ticking_seqNumGenNext {Q : Option Gate.Stage → Prop} :
    Abides (ticking interval) Q seqNumGenNext := by
  refine (abides_untimed rfl).bind fun _ => (abides_untimed rfl).bind fun v => ?_
  split
  · exact (abides_untimed rfl).bind fun _ => (abides_untimed rfl).bind fun _ => Abides.ret _
  · exact (abides_untimed rfl).bind fun _ => (abides_untimed rfl).bind fun _ => Abides.ret _

/-- **`throttle_check` goes through the gate.** -/
theorem ticking_throttleCheck : (throttleCheck cfg).Follows (ticking cfg.timeBetweenSends)
    (fun _ y => y = some .ready) (some .idle) := by
  refine follows_call (.inr rfl) fun a => follows_call ⟨a, rfl⟩ fun n => ?_
  refine Prog.Follows.bind
    (Q := fun _ y => y = some (.rested a) ∨ ∃ m, m ≤ a ∧ y = some (.told a m)) ?_ fun _ y hy => ?_
  · refine .when (fun _ => ?_) fun hlate => ?_
    · exact ⟨.inr ⟨a, rfl⟩, fun _ => .inl rfl⟩
    · exact .inr ⟨n, Nat.le_of_not_lt (of_decide_eq_false hlate), rfl⟩
  · exact ⟨⟨a, rfl, hy⟩, fun _ => rfl⟩

/-- **`write_pdu` hands over what it has popped.** -/
theorem ticking_writePdu : Abides (ticking cfg.timeBetweenSends) Unladen (writePdu cfg) := by
  rintro x hx
  refine follows_call hx fun o => ?_
  cases o with
  | none => exact ⟨trivial, fun _ => rfl⟩
  | some q =>
      have hheld : ∀ {α : Type} {p : Code α}, (∀ Q, Abides (ticking cfg.timeBetweenSends) Q p) →
          p.Follows (ticking cfg.timeBetweenSends) (fun _ y => y = some .idle) (some .idle) :=
        fun hp => hp _ _ rfl
      have hnumber : ∀ Q, Abides (ticking cfg.timeBetweenSends) Q (do
          let n ← seqNumGenNext
          call (.setSeq q n)) := fun Q => ticking_seqNumGenNext.bind fun _ => abides_untimed rfl
      refine (hheld fun Q => abides_untimed rfl).bind fun p y hy => ?_
      subst hy
      refine (hheld fun Q => (hnumber Q).when).bind fun _ y hy => ?_
      subst hy
      refine (hheld fun Q => abides_untimed rfl).bind fun tbuf y hy => ?_
      subst hy
      refine ticking_throttleCheck.bind fun _ y hy => ?_
      exact ⟨hy, fun _ => rfl⟩

/-- The critical section is left with empty hands. -/
theorem ticking_unlock : Abides (ticking interval) Unladen (call (.unlock .writeMutex)) :=
  fun _ hx => ⟨hx, fun _ => hx⟩

/-- `do_write` writes through `throttle_check`. -/
theorem ticking_doWrite (r : Ref) (l : Level) :
    Abides (ticking cfg.timeBetweenSends) Unladen (doWrite cfg r l) :=
  (abides_untimed rfl).bind fun _ => ((abides_untimed rfl).bind fun _ => Abides.ret _).bind fun _ =>
    (abides_untimed rfl).bind fun _ => ticking_writePdu.when.bind fun _ => ticking_unlock

/-- Reading the clock, or waiting for it, is nothing to a thread with empty hands. -/
theorem ticking_clock : Abides (ticking interval) Unladen (call .clock) :=
  fun _ hx => ⟨.inl hx, fun _ => if_pos hx⟩

/-- Everything that a thread runs without a mutex keeps to the gate. -/
theorem ticking_routine : Routine cfg (ticking cfg.timeBetweenSends) Unladen where
  plain op x hop hx := by
    cases hx
    cases op <;> first
      | exact ⟨trivial, fun _ => rfl⟩
      | exact ⟨rfl, fun _ => rfl⟩
      | exact ⟨.inl rfl, fun _ => rfl⟩
      | cases hop
  number := ticking_seqNumGenNext
  write := ticking_doWrite

/-- `handle_write` writes through `throttle_check`. -/
theorem ticking_handleWrite : Abides (ticking cfg.timeBetweenSends) Unladen (handleWrite cfg .success) := by
  refine (abides_untimed rfl).bind fun _ => (abides_untimed rfl).bind fun o =>
    Abides.bind ?_ fun _ => ticking_unlock
  cases o with
  | none => exact abides_untimed rfl
  | some r =>
      have hput : Abides (ticking cfg.timeBetweenSends) Unladen (w4rQPut r) :=
        (abides_untimed rfl).bind fun p => Abides.when <| (abides_untimed rfl).bind fun _ =>
          (abides_untimed rfl).bind fun _ => abides_untimed rfl
      have hask : Abides (ticking cfg.timeBetweenSends) Unladen canSend := by
        refine (abides_untimed rfl).bind fun size => ?_
        split
        · exact (abides_untimed rfl).bind fun st => Abides.ret _
        · exact Abides.ret _
      exact hput.bind fun _ => (abides_untimed rfl).bind fun _ => hask.bind fun mayWrite =>
        Abides.when <| (abides_untimed rfl).bind fun e => ticking_writePdu.when

/-- The sweep writes through `throttle_check`. -/
theorem ticking_ageSweep (keys : List Nat) :
    Abides (ticking cfg.timeBetweenSends) Unladen (ageSweep cfg keys) := by
  induction keys with
  | nil => exact Abides.ret _
  | cons k ks ih =>
      refine (abides_untimed rfl).bind fun o => ?_
      cases o with
      | none => exact ih
      | some i =>
          refine ticking_clock.bind fun now => Abides.bind (Abides.when ?_) fun _ => ih
          refine (ticking_doWrite i.obj .MESSAGE).bind fun _ => (abides_untimed rfl).bind fun k' => ?_
          cases k' with
          | none => exact abides_untimed rfl
          | some k' => exact (abides_untimed rfl).when

/-- What the io thread does under the mutexes keeps to the gate. -/
theorem ticking_upkeep : Upkeep cfg (ticking cfg.timeBetweenSends) Unladen where
  written := ticking_handleWrite
  answer _ := Abides.when <| (abides_untimed rfl).bind fun _ => (abides_untimed rfl).bind fun _ =>
    abides_untimed rfl
  cleanup _ := Abides.when <| (abides_untimed rfl).bind fun _ => Abides.when <|
    (abides_untimed rfl).bind fun _ => (abides_untimed rfl).bind fun keys =>
      (ticking_ageSweep keys).bind fun _ => (abides_untimed rfl).bind fun _ => abides_untimed rfl

/-! ## The gate that a state shows -/

variable {x : Tid → Option Gate.Stage}

namespace Session

/-- **A thread that goes through the gate** holds `writeMutex`, and has read the clock before now. -/
structure Gated (s : Session) (x : Tid → Option Gate.Stage) : Prop where
  owner : ∀ u, x u ≠ none → s.owner .writeMutex = some u
  read : ∀ u a, (x u = some (.read a) ∨ ∃ n, x u = some (.told a n)) → a ≤ s.now

/-- **The gate**, with the thread that goes through it. -/
def gate (s : Session) (x : Tid → Option Gate.Stage) : Gate where
  now := s.now
  next := s.throttleNextSendTime
  passed := s.written.length
  stage := (Tid.all.findSome? x).getD .idle

end Session

open Session

/-- There is one thread in the gate at most. -/
theorem Session.Gated.others (hG : s.Gated x) (ho : s.owner .writeMutex = some t) {u : Tid}
    (hu : u ≠ t) : x u = none := by
  by_contra hne
  have howner := hG.owner u hne
  rw [ho, Option.some.injEq] at howner
  exact hu howner.symm

/-- The caller at the gate is the thread that is there. -/
theorem stage_eq {st : Option Gate.Stage} (ht : x t = st) (hx : ∀ u, u ≠ t → x u = none) :
    (Tid.all.findSome? x).getD .idle = st.getD .idle := by
  have hlist : Tid.all.findSome? x = st := by
    cases t <;> cases st <;> simp [Tid.all, ht, hx .io, hx .sender, hx .receiver, hx .stopper]
  rw [hlist]

/-- What the gate shows after an operation of the only thread that can be there. -/
theorem gate_update {st : Option Gate.Stage} (hx : ∀ u, u ≠ t → x u = none) :
    s.gate (Function.update x t st) =
      ⟨s.now, s.throttleNextSendTime, s.written.length, st.getD .idle⟩ := by
  unfold Session.gate
  rw [stage_eq (Function.update_self t st x) fun u hu => (Function.update_of_ne hu _ _).trans (hx u hu)]

@[inherit_doc gate_update]
theorem gate_of {st : Option Gate.Stage} (ht : x t = st) (hx : ∀ u, u ≠ t → x u = none) :
    s.gate x = ⟨s.now, s.throttleNextSendTime, s.written.length, st.getD .idle⟩ := by
  unfold Session.gate
  rw [stage_eq ht hx]

/-- Most operations do not touch the gate. -/
theorem gate_same {op : Op} {r : op.Res × Session} (h : perform cfg t op s = some r)
    (hset : ∀ v, op ≠ .setNextSend v) (hwrite : ∀ q tbuf, op ≠ .asyncWrite q tbuf) :
    r.2.gate x = s.gate x := by
  have hnow : r.2.now = s.now := perform_same (f := .now) h (by cases op <;> simp)
  have hnext : r.2.throttleNextSendTime = s.throttleNextSendTime :=
    perform_same (f := .throttleNextSendTime) h (by
      cases op with
      | setNextSend v => exact absurd rfl (hset v)
      | _ => simp)
  unfold Session.gate
  rw [hnow, hnext, written_same h hwrite]

/-- **An operation of a thread in the gate** is a step of it. -/
theorem gate_inside {op : Op} {r : op.Res × Session} {st : Gate.Stage} (hG : s.Gated x)
    (ht : x t = some st) (ha : (ticking interval).allows (x t) op) (h : perform cfg t op s = some r) :
    Gate.Steps interval (s.gate x)
      (r.2.gate (Function.update x t ((ticking interval).next (x t) op r.1))) := by
  have hx : ∀ u, u ≠ t → x u = none := fun u hu => hG.others (hG.owner t (by rw [ht]; simp)) hu
  rw [gate_of ht hx, gate_update hx, ht]
  rw [ht] at ha
  by_cases hop : op.untimed = true
  · have hsame := gate_same (x := x) h (by rintro v rfl; cases hop) (by rintro q tbuf rfl; cases hop)
    rw [gate_of ht hx, gate_of ht hx] at hsame
    rw [(ticking_untimed op _ hop).2, hsame]
  -- each timed operation is one step of the gate
  · cases op with
    | clock =>
        cases h
        obtain rfl := Option.some.inj (ha.resolve_left (by simp))
        exact .single (.read _ _ _)
    | getNextSend =>
        cases h
        obtain ⟨a, ha⟩ := ha
        cases ha
        exact .single (.ask _ _ _ _)
    | sleepUntil n =>
        obtain ⟨hlate, rfl⟩ := perform_sleepUntil h
        obtain ⟨a, ha⟩ := ha.resolve_left (by simp)
        cases ha
        exact .single (.rest _ _ _ _ _ hlate)
    | setNextSend v =>
        cases h
        obtain ⟨a, rfl, ha | ⟨n, hn, ha⟩⟩ := ha
        · cases ha
          exact .single (.set _ _ _ _)
        · -- there was nothing to wait for
          cases ha
          have hlate : n ≤ s.now := Nat.le_trans hn (hG.read t a (.inr ⟨n, ht⟩))
          exact .tail (.single (.rest _ _ _ _ _ hlate)) (.set _ _ _ _)
    | asyncWrite q tbuf =>
        have hnow : r.2.now = s.now := perform_same (f := .now) h (by simp)
        have hnext : r.2.throttleNextSendTime = s.throttleNextSendTime :=
          perform_same (f := .throttleNextSendTime) h (by simp)
        have hw : r.2.written = q :: s.written := written_perform h
        have hst : some st = some Gate.Stage.ready := ha
        cases hst
        rw [hnow, hnext, hw, List.length_cons]
        exact .single (.pass _ _ _)
    | txPop => cases ha
    | unlock m => cases m <;> first | exact absurd rfl hop | cases ha
    | _ => exact absurd rfl hop

/-- **An operation of another thread** leaves the gate as it is; by a pop the thread gets there. -/
theorem gate_outside {op : Op} {r : op.Res × Session} (hG : s.Gated x) (hk : Known t op s)
    (ht : x t = none) (ha : (ticking interval).allows (x t) op) (h : perform cfg t op s = some r) :
    r.2.gate (Function.update x t ((ticking interval).next (x t) op r.1)) = s.gate x := by
  rw [ht] at ha ⊢
  have hset : ∀ v, op ≠ .setNextSend v := by
    rintro v rfl
    obtain ⟨a, -, ha | ⟨n, -, ha⟩⟩ := ha <;> cases ha
  have hwrite : ∀ q tbuf, op ≠ .asyncWrite q tbuf := by
    rintro q tbuf rfl
    cases ha
  -- a pop under `writeMutex` takes the thread to the gate, which is empty then
  by_cases hpop : op = .txPop
  · subst hpop
    have hx : ∀ u, u ≠ t → x u = none := fun u hu => hG.others hk.1 hu
    have hsame := gate_same (x := x) h hset hwrite
    rw [gate_of ht hx, gate_of ht hx] at hsame
    rw [gate_update hx, gate_of ht hx, ← hsame]
    show Gate.mk _ _ _ ((if r.1 = none then none else some Gate.Stage.idle).getD .idle) = _
    split <;> rfl
  · have hnext : (ticking interval).next none op r.1 = none := by
      cases op with
      | txPop => exact absurd rfl hpop
      | setNextSend v => exact absurd rfl (hset v)
      | _ => rfl
    rw [hnext, ← ht, Function.update_eq_self]
    exact gate_same h hset hwrite

/-- A thread in the gate keeps its mutex, and only a pop takes one there. -/
theorem gated_owner {op : Op} {r : op.Res × Session} (hG : s.Gated x) (hk : Known t op s)
    (ha : (ticking interval).allows (x t) op) (h : perform cfg t op s = some r)
    (hin : (ticking interval).next (x t) op r.1 ≠ none) : r.2.owner .writeMutex = some t := by
  by_cases hx : x t = none
  · rw [hx] at hin ha
    cases op with
    | txPop =>
        have hown : r.2.owner = s.owner := perform_same (f := .owner) h (by simp)
        rw [hown]
        exact hk.1
    | setNextSend v => obtain ⟨a, -, ha | ⟨n, -, ha⟩⟩ := ha <;> cases ha
    | _ => exact absurd rfl hin
  -- a thread in the gate neither takes nor gives back `writeMutex`
  · have hown := hG.owner t hx
    by_cases hw : Field.owner ∈ op.writes
    · cases op with
      | lock m =>
          obtain ⟨hfree, rfl⟩ := perform_lock h
          cases m with
          | writeMutex =>
              rw [hown] at hfree
              cases hfree
          | w4rQMutex => exact hown
          | mMtx => exact hown
      | unlock m =>
          cases h
          cases m with
          | writeMutex => exact absurd ha hx
          | w4rQMutex => exact hown
          | mMtx => exact hown
      | _ => simp at hw
    · have hsame : r.2.owner = s.owner := perform_same (f := .owner) h hw
      rw [hsame]
      exact hown

/-- What a thread has read from the clock is not in the future. -/
theorem gated_read {op : Op} {r : op.Res × Session} (hG : s.Gated x) (ha : (ticking interval).allows (x t) op)
    (h : perform cfg t op s = some r) {a : Nat}
    (hread : (ticking interval).next (x t) op r.1 = some (.read a) ∨
      ∃ n, (ticking interval).next (x t) op r.1 = some (.told a n)) : a ≤ s.now := by
  by_cases hop : op.untimed = true
  · rw [(ticking_untimed op (x t) hop).2] at hread
    exact hG.read t a hread
  · cases op with
    -- what is read is the time itself
    | clock =>
        cases h
        by_cases hx : x t = none
        · rw [hx] at hread
          rcases hread with hread | ⟨n, hread⟩ <;> cases hread
        · have hnext : (ticking interval).next (x t) .clock s.now = some (.read s.now) := if_neg hx
          rw [hnext] at hread
          rcases hread with hread | ⟨n, hread⟩
          · cases hread
            exact Nat.le_refl _
          · cases hread
    | getNextSend =>
        obtain ⟨a', ha⟩ := ha
        rw [ha] at hread
        rcases hread with hread | ⟨n, hread⟩
        · cases hread
        · cases hread
          exact hG.read t a (.inl ha)
    | sleepUntil n =>
        rcases ha with ha | ⟨a', ha⟩ <;> rw [ha] at hread <;> rcases hread with hread | ⟨n, hread⟩ <;>
          cases hread
    | txPop =>
        have hnext : (ticking interval).next (x t) .txPop r.1 = if r.1 = none then none else some .idle := rfl
        rw [hnext] at hread
        split at hread <;> rcases hread with hread | ⟨n, hread⟩ <;> cases hread
    | setNextSend v => rcases hread with hread | ⟨n, hread⟩ <;> cases hread
    | asyncWrite q tbuf => rcases hread with hread | ⟨n, hread⟩ <;> cases hread
    | unlock m =>
        cases m <;> first
          | exact absurd rfl hop
          | exact hG.read t a hread
    | _ => exact absurd rfl hop

/-- The gate lets a thread keep its mutex. -/
theorem gated_perform {op : Op} {r : op.Res × Session} (hG : s.Gated x) (hk : Known t op s)
    (ha : (ticking interval).allows (x t) op) (h : perform cfg t op s = some r) :
    r.2.Gated (Function.update x t ((ticking interval).next (x t) op r.1)) where
  owner u hu := by
    by_cases hut : u = t
    · subst hut
      rw [Function.update_self] at hu
      exact gated_owner hG hk ha h hu
    · rw [Function.update_of_ne hut] at hu
      exact owner_perform h hk hut (hG.owner u hu)
  read u a hu := by
    have hnow : r.2.now = s.now := perform_same (f := .now) h (by cases op <;> simp)
    rw [hnow]
    by_cases hut : u = t
    · subst hut
      rw [Function.update_self] at hu
      exact gated_read hG ha h hu
    · rw [Function.update_of_ne hut] at hu
      exact hG.read u a hu

/-- **What an operation does to the gate.** -/
theorem gate_perform {op : Op} {r : op.Res × Session} (hG : s.Gated x) (hk : Known t op s)
    (ha : (ticking interval).allows (x t) op) (h : perform cfg t op s = some r) :
    Gate.Steps interval (s.gate x)
      (r.2.gate (Function.update x t ((ticking interval).next (x t) op r.1))) := by
  cases ht : x t with
  | none =>
      have hsame := gate_outside hG hk ht ha h
      rw [ht] at hsame
      rw [hsame]
  | some st =>
      have hstep := gate_inside hG ht ha h
      rw [ht] at hstep
      exact hstep

/-- In the environment time passes. -/
theorem gate_env {e : Env} (hG : s.Gated x) (h : e.perform cfg s = some s') :
    Gate.Steps interval (s.gate x) (s'.gate x) ∧ s'.Gated x := by
  have hown : s'.owner = s.owner := env_same (f := .owner) h (by simp)
  have hnext : s'.throttleNextSendTime = s.throttleNextSendTime :=
    env_same (f := .throttleNextSendTime) h (by simp)
  obtain ⟨d, hd⟩ := now_env h
  constructor
  · unfold Session.gate
    rw [hnext, written_env h, hd]
    exact .single (.elapse _ _ _ _ _)
  · refine ⟨fun u hu => hown ▸ hG.owner u hu, fun u a hu => ?_⟩
    rw [hd]
    exact Nat.le_trans (hG.read u a hu) (Nat.le_add_right _ _)

/-- The start of a job does not touch the gate. -/
theorem gate_take {j : Job} (hG : s.Gated x) (h : j.take s = some s') :
    s'.gate x = s.gate x ∧ s'.Gated x := by
  have hown : s'.owner = s.owner := take_same (f := .owner) h (by simp)
  have hnow : s'.now = s.now := take_same (f := .now) h (by simp)
  have hnext : s'.throttleNextSendTime = s.throttleNextSendTime :=
    take_same (f := .throttleNextSendTime) h (by simp)
  constructor
  · unfold Session.gate
    rw [hnext, written_take h, hnow]
  · refine ⟨fun u hu => hown ▸ hG.owner u hu, fun u a hu => ?_⟩
    rw [hnow]
    exact hG.read u a hu

/-! ## The rate -/

variable {p : Persisted} {now : Nat} {c c' : Machine}

/-- **Threads that go through the gate go on with it**: from any configuration in which they stand where
`ticking` has them, the run is a run of the gate. -/
theorem gate_reach {g : Guard Op Tid Session Job}
    (hx : ∀ t, (c.code t).Follows (ticking cfg.timeBetweenSends) (fun _ => Unladen) (x t))
    (hG : c.shared.Gated x) (h : Reach (system cfg) (known cfg g).Allows c c') :
    ∃ y : Tid → Option Gate.Stage, (c'.shared.Gated y ∧
      Gate.Steps cfg.timeBetweenSends (c.shared.gate x) (c'.shared.gate y)) ∧
      ∀ t, (c'.code t).Follows (ticking cfg.timeBetweenSends) (fun _ => Unladen) (y t) := by
  refine Reach.protocol (I := fun _ => Unladen)
    (K := fun s y => s.Gated y ∧ Gate.Steps cfg.timeBetweenSends (c.shared.gate x) (s.gate y)) hx
    (fun j y hy => ticking_routine.body (fun _ => ticking_upkeep) y hy) ⟨hG, .refl⟩ ?_ ?_ ?_ h
  · rintro t op s y r ⟨hG, hsteps⟩ hg ha hop
    obtain ⟨-, hop⟩ := perform_of_exec hop
    have hk := known_known hg
    exact ⟨gated_perform hG hk ha hop, hsteps.trans (gate_perform hG hk ha hop)⟩
  · rintro e s s' y ⟨hG, hsteps⟩ he
    obtain ⟨hstep, hG'⟩ := gate_env hG he
    exact ⟨hG', hsteps.trans hstep⟩
  · rintro j s s' y ⟨hG, hsteps⟩ - hj
    obtain ⟨hsame, hG'⟩ := gate_take hG hj
    exact ⟨hG', hsame ▸ hsteps⟩

/-- **At most two PDUs are sent in each time between sends**: of the PDUs written between two moments of a
run, one may be written at once, and every two more take one time between sends. -/
theorem sends_limited (h : Runs cfg Guard.free p now c) (h' : Reach (system cfg) Guard.free.Allows c c') :
    c.shared.now + (c'.shared.written.length - c.shared.written.length - 1) / 2 * cfg.timeBetweenSends ≤
      c'.shared.now := by
  -- where the threads stand at the first of the two moments
  have hidle : ∀ t, ((Machine.init p now).code t).Follows (ticking cfg.timeBetweenSends)
      (fun _ => Unladen) none := fun _ => rfl
  have hstart : (Machine.init p now).shared.Gated fun _ => none :=
    ⟨fun _ hu => absurd rfl hu, fun _ _ hu => by rcases hu with hu | ⟨n, hu⟩ <;> cases hu⟩
  obtain ⟨x, ⟨hG, -⟩, hx⟩ := gate_reach hidle hstart h.knowing
  obtain ⟨y, ⟨-, hsteps⟩, -⟩ := gate_reach hx hG (h.knowing_from h')
  exact Gate.Steps.spaced hsteps

namespace Schedule

/-- On a bound session three messages are submitted, and one time between sends passes. -/
def threeSubmitted : List Step :=
  bind ++ [.env (.submit []), .env (.submit []), .env (.submit []), .env (.elapse 50000)]

/-- `sendingProcessor` takes three turns; in the second it has to wait for as long again. -/
def threeTurns : List Step :=
  .start .send :: turn .sender 40 ++ .start .send :: turn .sender 40 ++
    [.env (.elapse 50000)] ++ turn .sender 40 ++ .start .send :: turn .sender 40

end Schedule

/-- Three messages take one time between sends, and no more: the third one need not wait. -/
theorem sends_limited_three :
    ((Machine.after sampleParams .none Schedule.threeSubmitted).shared.now = 50000 ∧
      (((Machine.after sampleParams .none Schedule.threeSubmitted).play (system sampleParams)
        Schedule.threeTurns).shared.written.length -
          (Machine.after sampleParams .none Schedule.threeSubmitted).shared.written.length = 3) ∧
      ((Machine.after sampleParams .none Schedule.threeSubmitted).play (system sampleParams)
        Schedule.threeTurns).shared.now = 50000 + sampleParams.timeBetweenSends) ∧
    (Machine.after sampleParams .none Schedule.threeSubmitted).shared.now +
        (((Machine.after sampleParams .none Schedule.threeSubmitted).play (system sampleParams)
          Schedule.threeTurns).shared.written.length -
            (Machine.after sampleParams .none Schedule.threeSubmitted).shared.written.length - 1) / 2 *
          sampleParams.timeBetweenSends ≤
      ((Machine.after sampleParams .none Schedule.threeSubmitted).play (system sampleParams)
        Schedule.threeTurns).shared.now :=
  ⟨by decide +kernel, sends_limited (runs_after _ _ _) (reach_play _ _ _)⟩

end KissSmpp
