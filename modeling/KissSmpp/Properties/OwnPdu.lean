import KissSmpp.Session.Freshness

/-! # The PDU `handle_write` deals with

`handle_write` is not told which PDU has been written: it asks the transmit queue for the one popped
last. With two writes outstanding that is not always the one whose write has completed. Where it is
(`handlesOwn`), what `handle_write` records, or puts back, is the PDU it is about. -/

namespace KissSmpp

open Interleave Queue

variable {cfg : Params} {t : Tid} {s s' : Session}

namespace Session

/-- **`last_pop_object()` is the PDU whose `handle_write` is running**, if one is. -/
def LastPopOwn (s : Session) : Prop := ∀ h ∈ s.handling, s.slot = some h

/-- Whether `last_pop_object()` is the PDU that `handle_write` deals with can be read off the
session. -/
instance (s : Session) : Decidable s.LastPopOwn :=
  inferInstanceAs (Decidable (∀ h ∈ s.handling, s.slot = some h))

end Session

open Session

/-- The io thread enters the critical section in which it asks for that PDU, or puts it back. -/
def AsksLastPop (t : Tid) (op : Op) : Prop :=
  (t = .io ∧ op = .lock .writeMutex) ∨ op = .txPushBackLastPop

/-- Whether an operation asks for the PDU popped last is decidable. -/
instance (t : Tid) (op : Op) : Decidable (AsksLastPop t op) :=
  inferInstanceAs (Decidable ((t = .io ∧ op = .lock .writeMutex) ∨ op = .txPushBackLastPop))

/-- **`handle_write` deals with its own PDU**: no other has been popped since, when it enters its
critical section or puts the PDU back. -/
def handlesOwn : Guard Op Tid Session Job where
  op t op s := AsksLastPop t op → s.LastPopOwn
  job _ _ := True

/-- What a run keeps: inside the critical section of `handle_write` no other PDU is popped before it has
dealt with its own. -/
def Session.HoldsOwn (s : Session) : Prop := s.phase .io = .locked → s.LastPopOwn

/-- A thread has only just entered the critical section by locking the mutex. -/
theorem locked_perform {op : Op} {x : op.Res × Session} (h : perform cfg t op s = some x) {u : Tid}
    (hu : x.2.phase u = .locked) : s.phase u = .locked ∨ (u = t ∧ op = .lock .writeMutex) := by
  refine (phase_eq_perform h hu).imp_right fun ⟨hut, hph⟩ => ⟨hut, ?_⟩
  unfold Op.phase? at hph
  split at hph
  · rfl
  · cases hph
  · cases hph
  · cases hph
  · cases hph

/-- A PDU whose `handle_write` runs after an operation was being dealt with before it. -/
theorem handling_perform {op : Op} {x : op.Res × Session} (h : perform cfg t op s = some x) {r : Ref}
    (hr : r ∈ x.2.handling) : r ∈ s.handling := by
  by_cases hw : Field.handling ∈ op.writes
  · have hdeals : op.deals = true := by
      cases op <;> first | rfl | simp at hw
    rw [(inFlight_deals h hdeals).2] at hr
    cases hr
  · have hh : x.2.handling = s.handling := perform_same (f := .handling) h hw
    exact hh ▸ hr

/-- Operations other than a pop leave the PDU popped last. -/
theorem lastPopOwn_perform {op : Op} {x : op.Res × Session} (h : perform cfg t op s = some x)
    (hop : op ≠ .txPop) (hL : s.LastPopOwn) : x.2.LastPopOwn := by
  intro r hr
  rw [slot_same h hop]
  exact hL r (handling_perform h hr)

/-- **Every operation keeps the PDU popped last** while `handle_write` deals with it. -/
theorem holdsOwn_perform {op : Op} {x : op.Res × Session} (hi : Inv s) (hH : s.HoldsOwn)
    (hg : handlesOwn.op t op s) (hk : Known t op s) (h : perform cfg t op s = some x) :
    x.2.HoldsOwn := by
  intro hlocked
  by_cases hop : op = .txPop
  · subst hop
    have hio : s.phase .io = .locked := (locked_perform h hlocked).resolve_right fun hl => by cases hl.2
    -- the popping thread is the one in the critical section, and it has moved on
    have hown := hi.mutex .io (by rw [hio]; simp)
    have hown' : s.owner .writeMutex = some t := hk.1
    rw [hown, Option.some.injEq] at hown'
    subst hown'
    cases h
    have hpopped : Function.update s.phase .io Phase.popped .io = .popped := Function.update_self ..
    cases hpopped.symm.trans hlocked
  · rcases locked_perform h hlocked with hio | ⟨hio, hl⟩
    · exact lastPopOwn_perform h hop (hH hio)
    · exact lastPopOwn_perform h hop (hg (.inl ⟨hio.symm, hl⟩))

variable {p : Persisted} {now : Nat} {c : Machine}

/-- In a run in which `handle_write` deals with its own PDU it finds that PDU in `last_pop_object()`
throughout. -/
theorem Runs.holdsOwn (h : Runs cfg handlesOwn p now c) : c.shared.HoldsOwn := by
  refine h.data (fun hio => by cases hio)
    (fun _ _ _ _ hi hH hg _ hk hx => holdsOwn_perform hi hH hg hk hx) ?_ ?_
  · intro e s s' _ hH hx hio r hr
    have hph : s'.phase = s.phase := env_same (f := .phase) hx (by simp)
    have hh : s'.handling = s.handling := env_same (f := .handling) hx (by simp)
    rw [slot_env hx]
    exact hH (hph ▸ hio) r (hh ▸ hr)
  · intro j s s' _ hq hH _ hx hio r hr
    have hph : s'.phase = s.phase := take_same (f := .phase) hx (by simp)
    rw [hph] at hio
    cases j with
    | handler h' =>
        have hout : s.phase .io = .outside := hq.phase
        rw [hout] at hio
        cases hio
    | send => cases hx; exact hH hio r hr
    | receive => cases hx; exact hH hio r hr
    | stop => cases hx; exact hH hio r hr

/-- What the moves of such a run may use: fresh PDUs are apart, and `handle_write` holds its own. -/
structure Session.Grounds (s : Session) : Prop where
  apart : Apart s
  own : s.HoldsOwn

/-- A run that meets a condition at least as strong as `handlesOwn` has these grounds. -/
theorem Runs.grounds {g : Guard Op Tid Session Job} (h : Runs cfg g p now c)
    (hg : ∀ t op s, g.op t op s → handlesOwn.op t op s) : c.shared.Grounds :=
  ⟨h.apart, (h.weaken hg fun _ _ _ => trivial).holdsOwn⟩

/-! ## What `handle_write` deals with -/

/-- **What `handle_write` deals with is its own PDU**: it puts it back, or puts it on record, or has
nothing to do because it is a response. -/
theorem deals_own {op : Op} (hH : s.HoldsOwn) (hg : handlesOwn.op t op s) (hm : op.mayRun t = true)
    (hk : Known t op s) (hop : op.deals = true) {r : Ref} (hr : s.handling = some r) :
    (op = .txPushBackLastPop ∧ s.slot = some r) ∨ op = .w4rInsert r ∨
      (op = .retire ∧ ¬(s.pdu r).IsRequest) := by
  cases op with
  | txPushBackLastPop => exact .inl ⟨rfl, hg (.inr rfl) r hr⟩
  | w4rInsert q =>
      have hio : t = .io := Op.io_of_mayRun hm rfl
      subst hio
      have hslot := hH hk.2.1 r hr
      rw [hk.2.2.2, Option.some.injEq] at hslot
      exact .inr (.inl (by rw [hslot]))
  | retire =>
      have hio : t = .io := Op.io_of_mayRun hm rfl
      subst hio
      have hslot := hH hk.2.1 r hr
      obtain ⟨-, -, hnone | ⟨q, hq, hresp⟩⟩ := hk
      · rw [hr] at hnone
        cases hnone
      · rw [hslot, Option.some.injEq] at hq
        exact .inr (.inr ⟨rfl, hq ▸ hresp⟩)
  | _ => simp at hop

/-- The PDU that is put on record as awaiting its response is the one `handle_write` is about. -/
theorem handling_of_w4rInsert {r : Ref} (hH : s.HoldsOwn) (hg : handlesOwn.op t (.w4rInsert r) s)
    (hm : (Op.w4rInsert r).mayRun t = true) (hk : Known t (.w4rInsert r) s) :
    s.handling = some r := by
  obtain ⟨q, hq⟩ := Option.ne_none_iff_exists'.mp hk.2.2.1
  rcases deals_own hH hg hm hk rfl hq with ⟨hop, -⟩ | hop | ⟨hop, -⟩
  · cases hop
  · cases hop
    exact hq
  · cases hop

/-- The PDU that `handle_write` puts back is the one whose write has failed. -/
theorem handling_of_txPushBackLastPop (hg : handlesOwn.op t .txPushBackLastPop s)
    (hk : Known t .txPushBackLastPop s) : s.handling = s.slot := by
  obtain ⟨q, hq⟩ := Option.ne_none_iff_exists'.mp hk.2
  rw [hq]
  exact (hg (.inr rfl) q hq).symm

end KissSmpp
