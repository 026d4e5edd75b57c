import KissSmpp.Properties.Wire
import KissSmpp.Session.Observed
import KissSmpp.Session.Routine

/-! # When requests are sent again

`handle_write` has `w4rQ_put` record the request popped last as one that awaits its response, and the ageing sweep
hands it to the transmit queue again once it has been there for thirty seconds. The sweep works on the numbers of
PDUs, and while it runs other threads write; `resent_late` says that nevertheless each record leads to one
retransmission at the most, and to none before thirty seconds are over. (The request recorded is the one popped last,
which need not be the one whose write has completed.) It is about PDUs that have not been recorded with the smallest
number, which passes for unassigned: such a PDU gets another one, and its entry stays behind. -/

namespace KissSmpp

open Interleave Session

variable {cfg : Params} {t : Tid} {s s' : Session} {p : Persisted} {now : Nat} {α : Type}

/-! ## What is observed -/

/-- What happens to requests: `w4rQ_put` records one, with this number, or it is handed to the transmit queue again;
and at which second. -/
inductive Resending
  | recorded (r : Ref) (number : Nat) (second : Nat)
  | again (r : Ref) (second : Nat)
  deriving DecidableEq, Repr

/-- The request it is about. -/
def Resending.pdu : Resending → Ref
  | .recorded r _ _ | .again r _ => r

/-- The last that happened to a request. -/
def lastOf (r : Ref) (l : List Resending) : Option Resending := l.find? fun x => x.pdu == r

/-- The request has always been recorded with a number. -/
def EverNumbered (r : Ref) (l : List Resending) : Prop :=
  ∀ n second, .recorded r n second ∈ l → SequenceNumber.Min < n

/-- **No request is sent again too early, or without having been recorded**: the last that has happened to a request
that is handed over again is that it was recorded, thirty seconds ago or more. -/
def Late (l : List Resending) : Prop :=
  ∀ r second l', (.again r second :: l') <:+ l → EverNumbered r l' →
    ∃ n since, lastOf r l' = some (.recorded r n since) ∧ since + 30 ≤ second

/-- What comes to the record without handing a request over. -/
theorem Late.recorded {r : Ref} {n second : Nat} {l : List Resending} (h : Late l) :
    Late (.recorded r n second :: l) := by
  intro q second' l' hsuffix hnum
  rcases List.suffix_cons_iff.mp hsuffix with heq | hsuffix
  · cases heq
  · exact h q second' l' hsuffix hnum

/-- A request that is handed over in time. -/
theorem Late.again {r : Ref} {second : Nat} {l : List Resending} (h : Late l)
    (hr : EverNumbered r l → ∃ n since, lastOf r l = some (.recorded r n since) ∧ since + 30 ≤ second) :
    Late (.again r second :: l) := by
  intro q second' l' hsuffix hnum
  rcases List.suffix_cons_iff.mp hsuffix with heq | hsuffix
  · cases heq
    exact hr hnum
  · exact h q second' l' hsuffix hnum

/-! ## The protocol of the sweep -/

/-- **Where a thread stands with `w4rQ`**: it does not hold the mutex, or it holds it and has found an entry, seen
that it is due, and handed its PDU over. -/
inductive Sweeping
  | idle
  | locked
  | saw (e : TimeStampedPdu)
  | due (e : TimeStampedPdu)
  | pushed (r : Ref)
  deriving DecidableEq

/-- **The protocol of the sweep**: `w4rQ` is changed only under its mutex, and under it a PDU is pushed only if its
entry is due, and then its number is erased. -/
def sweeping : Protocol Op Op.Res Sweeping where
  allows x
    | .lock .w4rQMutex => x = .idle
    | .unlock .w4rQMutex | .w4rAt _ | .w4rInsert _ | .w4rAnswer _ _ => x = .locked
    | .txPush r _ => x = .idle ∨ ∃ e, x = .due e ∧ e.obj = r
    | .w4rEraseFound r => x = .pushed r
    | _ => True
  next x
    | .lock .w4rQMutex, _ => .locked
    | .unlock .w4rQMutex, _ => .idle
    | .w4rAt _, o => o.elim .locked .saw
    | .clock, n =>
        match x with
        | .saw e => if e.expired (n / 1000000) 30 then .due e else .locked
        | x => x
    | .txPush r _, _ => if x = .idle then .idle else .pushed r
    | .w4rEraseFound _, _ => .locked
    | _, _ => x

/-- The operations that have nothing to do with `w4rQ`, and push nothing. -/
@[simp] def Op.elsewhere : Op → Bool
  | .lock m | .unlock m => m != .w4rQMutex
  | .w4rAt _ | .w4rInsert _ | .w4rAnswer _ _ | .w4rEraseFound _ | .txPush _ _ => false
  | _ => true

/-- Unless the clock is read for an entry that has been found, they leave a thread where it is. -/
theorem sweeping_elsewhere {op : Op} {x : Sweeping} (hop : op.elsewhere = true) (hx : ∀ e, x ≠ .saw e) :
    sweeping.allows x op ∧ ∀ b, sweeping.next x op b = x := by
  cases op with
  | lock m => cases m <;> first | exact ⟨trivial, fun _ => rfl⟩ | cases hop
  | unlock m => cases m <;> first | exact ⟨trivial, fun _ => rfl⟩ | cases hop
  | clock =>
      refine ⟨trivial, fun n => ?_⟩
      cases x <;> first | rfl | exact absurd rfl (hx _)
  | _ => first | exact ⟨trivial, fun _ => rfl⟩ | cases hop

/-! ## The code follows it -/

/-- Code that stays where it is, unless that is at an entry that has been found. -/
abbrev Elsewhere (p : Code α) : Prop := p.Uses fun op => op.elsewhere = true

/-- The code stays where it is. -/
theorem Elsewhere.abides {x : Sweeping} {p : Code α} (hp : Elsewhere p) (hx : ∀ e, x ≠ .saw e) :
    Abides sweeping (· = x) p := by
  rintro y rfl
  exact hp.follows (Q := (· = y)) (fun op z hop hz => by
    subst hz
    exact ⟨(sweeping_elsewhere hop hx).1, (sweeping_elsewhere hop hx).2⟩) rfl

/-- **The entries and the record agree**: whoever is in the sweep holds the mutex; an entry of a request that has
always had a number stands under this number and tells when the request was last recorded, unless it has just been
handed over again. -/
structure Session.Timely (s : Session) (l : List Resending) (x : Tid → Sweeping) : Prop where
  owner : ∀ u, x u ≠ .idle ↔ s.owner .w4rQMutex = some u
  entries : ∀ (k : Nat) (e : TimeStampedPdu), s.w4rQ[k]? = some e → EverNumbered e.obj l →
    (s.pdu e.obj).sequenceNumber = k ∧ SequenceNumber.Min < k ∧
      ((∃ u, x u = .pushed e.obj) ∨ lastOf e.obj l = some (.recorded e.obj k e.timestamp))
  found : ∀ u e, x u = .saw e ∨ x u = .due e → ∃ k : Nat, s.w4rQ[k]? = some e
  due : ∀ u e, x u = .due e → e.timestamp + 30 ≤ s.time
  late : Late l

variable {l l' : List Resending} {x : Tid → Sweeping}

/-- Only one thread is in the sweep. -/
theorem Session.Timely.others (hT : s.Timely l x) (ht : x t ≠ .idle) {u : Tid} (hu : u ≠ t) : x u = .idle := by
  by_contra hne
  have howner := (hT.owner t).mp ht
  rw [(hT.owner u).mp hne, Option.some.injEq] at howner
  exact hu howner

/-- **What waits for a response stays as it is** while a thread goes from one place to another. -/
theorem Session.Timely.moves (hT : s.Timely l x) {z : Sweeping} (hw : s'.w4rQ = s.w4rQ)
    (hown : s'.owner .w4rQMutex = s.owner .w4rQMutex) (htime : s.time ≤ s'.time)
    (hnumber : ∀ (k : Nat) (e : TimeStampedPdu), s.w4rQ[k]? = some e → EverNumbered e.obj l →
      (s'.pdu e.obj).sequenceNumber = (s.pdu e.obj).sequenceNumber)
    (hidle : z = .idle ↔ x t = .idle) (hpushed : ∀ r, x t = .pushed r → z = .pushed r)
    (hfound : ∀ e, z = .saw e ∨ z = .due e → ∃ k : Nat, s.w4rQ[k]? = some e)
    (hdue : ∀ e, z = .due e → e.timestamp + 30 ≤ s.time) : s'.Timely l (Function.update x t z) where
  owner u := by
    rw [hown]
    by_cases hut : u = t
    · subst hut
      rw [Function.update_self]
      exact (not_congr hidle).trans (hT.owner u)
    · rw [Function.update_of_ne hut]
      exact hT.owner u
  entries k e he hnum := by
    rw [hw] at he
    -- the entries are the old ones, and the thread at work keeps what it has pushed
    obtain ⟨hk, hmin, hlast⟩ := hT.entries k e he hnum
    refine ⟨(hnumber k e he hnum).trans hk, hmin, hlast.imp_left ?_⟩
    rintro ⟨u, hu⟩
    refine ⟨u, ?_⟩
    by_cases hut : u = t
    · subst hut
      rw [Function.update_self]
      exact hpushed _ hu
    · rwa [Function.update_of_ne hut]
  found u e he := by
    rw [hw]
    by_cases hut : u = t
    · subst hut
      rw [Function.update_self] at he
      exact hfound e he
    · rw [Function.update_of_ne hut] at he
      exact hT.found u e he
  due u e he := by
    refine Nat.le_trans ?_ htime
    by_cases hut : u = t
    · subst hut
      rw [Function.update_self] at he
      exact hdue e he
    · rw [Function.update_of_ne hut] at he
      exact hT.due u e he
  late := hT.late

/-- A thread in the sweep keeps the mutex. -/
theorem Session.Timely.holds (hT : s.Timely l x) (ht : x t ≠ .idle) {z : Sweeping} (hz : z ≠ .idle) (u : Tid) :
    s.owner .w4rQMutex = some u ↔ u = t ∧ z ≠ .idle := by
  rw [(hT.owner t).mp ht, Option.some.injEq, eq_comm]
  exact (and_iff_left hz).symm

/-- What is known of the entries where nothing has been handed over. -/
theorem Session.Timely.entry (hT : s.Timely l x) (ht : ∀ r, x t ≠ .pushed r) (hne : x t ≠ .idle) {k : Nat}
    {e : TimeStampedPdu} (he : s.w4rQ[k]? = some e) (hnum : EverNumbered e.obj l) :
    (s.pdu e.obj).sequenceNumber = k ∧ SequenceNumber.Min < k ∧
      lastOf e.obj l = some (.recorded e.obj k e.timestamp) := by
  obtain ⟨hk, hmin, hlast⟩ := hT.entries k e he hnum
  refine ⟨hk, hmin, hlast.resolve_left ?_⟩
  rintro ⟨u, hu⟩
  by_cases hut : u = t
  · subst hut
    exact ht _ hu
  · rw [hT.others hne hut] at hu
    cases hu

end KissSmpp
