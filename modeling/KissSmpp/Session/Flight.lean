import Mathlib.Data.List.Perm.Basic
import KissSmpp.Session.Footprint

/-! # Where a PDU is

A PDU that has been popped from the transmit queue is *in flight* until its `handle_write` has dealt
with it: in the hands of the thread that runs `write_pdu`, in an outstanding `async_write`, in a queued
`handle_write`, or in the one that runs. This file says how each operation moves PDUs in and out of
flight; a list of PDUs in flight only matters up to its order. -/

namespace KissSmpp

open Interleave Queue

/-! ## Outstanding writes -/

/-- The PDU a socket operation writes, if it is a write. -/
def Io.written? : Io → Option Ref
  | .write r => some r
  | _ => none

/-- A socket operation and its handler are about the same PDU. -/
@[simp] theorem Io.written?_handler (raw : RawPdu) (e : ErrorCode) (io : Io) :
    (io.handler raw e).written? = io.written? := by
  cases io <;> rfl

/-- The handler of a timer is about no PDU. -/
@[simp] theorem Timer.written?_handler (tm : Timer) (e : ErrorCode) :
    (tm.handler e).written? = none := by
  cases tm <;> rfl

/-- The threads. -/
def Tid.all : List Tid := [.io, .sender, .receiver, .stopper]

/-- Every thread is one of the four. -/
theorem Tid.mem_all (t : Tid) : t ∈ Tid.all := by cases t <;> decide

namespace Session

/-- The PDUs handed to `async_write` whose `handle_write` has not begun. -/
def writes (s : Session) : List Ref :=
  s.pending.filterMap Io.written? ++ s.ready.filterMap Handler.written?

/-- The PDUs that threads have popped in `write_pdu` and not yet handed to `async_write`. -/
def popped (s : Session) : List Ref := Tid.all.filterMap s.pdu2send

/-- **The PDUs in flight**: popped, with their `handle_write` still to deal with them. -/
def inFlight (s : Session) : List Ref := s.popped ++ (s.writes ++ s.handling.toList)

/-- The object `last_pop_object` returns. -/
def slot (s : Session) : Option Ref := s.txQ.lastPop.map Prod.snd

/-- The PDU is an entry of `w4rQ`. -/
def Awaits (s : Session) (r : Ref) : Prop := ∃ (k : Nat) (e : TimeStampedPdu), s.w4rQ[k]? = some e ∧ e.obj = r

/-- The PDUs that await a response. -/
def awaiting (s : Session) : List Ref := s.w4rQ.toList.map fun e => e.2.obj

variable {s s' : Session}

/-- What awaits a response is an entry of `w4rQ`. -/
theorem mem_awaiting {r : Ref} : r ∈ s.awaiting ↔ s.Awaits r := by
  unfold awaiting Awaits
  rw [List.mem_map]
  constructor
  · rintro ⟨⟨k, e⟩, he, hr⟩
    exact ⟨k, e, Std.TreeMap.mem_toList_iff_getElem?_eq_some.mp he, hr⟩
  · rintro ⟨k, e, he, hr⟩
    exact ⟨(k, e), Std.TreeMap.mem_toList_iff_getElem?_eq_some.mpr he, hr⟩

/-- Where the PDUs in flight are. -/
theorem mem_inFlight {r : Ref} :
    r ∈ s.inFlight ↔ (∃ t, s.pdu2send t = some r) ∨ r ∈ s.writes ∨ s.handling = some r := by
  simp only [inFlight, popped, List.mem_append, List.mem_filterMap, Option.mem_toList]
  constructor
  · rintro (⟨t, -, h⟩ | h)
    · exact .inl ⟨t, h⟩
    · exact .inr h
  · rintro (⟨t, h⟩ | h)
    · exact .inl ⟨t, Tid.mem_all t, h⟩
    · exact .inr h

/-- A queued handler that completes no write leaves the outstanding writes as they are. -/
theorem writes_enqueue {h : Handler} (hh : h.written? = none) : (s.enqueue h).writes = s.writes := by
  simp [writes, enqueue, hh]

/-- Starting a socket operation adds the PDU it writes. -/
theorem writes_startIo (io : Io) : (s.startIo io).writes.Perm (io.written?.toList ++ s.writes) := by
  unfold startIo
  split
  · simp only [writes, List.filterMap_append, List.filterMap_cons, List.filterMap_nil]
    cases io.written? with
    | none => simp
    | some r => simp
  · simp only [writes, enqueue, List.filterMap_append, List.filterMap_cons, List.filterMap_nil,
      Io.written?_handler]
    cases io.written? with
    | none => simp
    | some r =>
        show (_ ++ (_ ++ [r])).Perm (r :: (_ ++ _))
        rw [← List.append_assoc]
        exact List.perm_append_singleton r _

/-- Cancelling a timer leaves the outstanding writes as they are. -/
theorem writes_cancelTimer (tm : Timer) : (s.cancelTimer tm).writes = s.writes := by
  unfold cancelTimer
  split
  · simp [writes]
  · rfl

/-- Closing the socket makes every write complete with an error. -/
theorem writes_closeSocket : s.closeSocket.writes.Perm s.writes := by
  have h : (s.pending.map (Io.handler .none .operationAborted)).filterMap Handler.written? =
      s.pending.filterMap Io.written? := by
    rw [List.filterMap_map]
    exact List.filterMap_congr fun io _ => Io.written?_handler _ _ io
  simp only [writes, closeSocket, List.filterMap_nil, List.nil_append, List.filterMap_append, h]
  exact List.perm_append_comm

/-- States that agree on where popped PDUs are have the same PDUs in flight. -/
theorem inFlight_perm (hp : s'.pdu2send = s.pdu2send) (hw : s'.writes.Perm s.writes)
    (hh : s'.handling = s.handling) : s'.inFlight.Perm s.inFlight := by
  unfold inFlight popped
  rw [hp, hh]
  exact (hw.append_right _).append_left _

end Session

/-! ## Entries of `w4rQ` -/

/-- An insertion changes the entry at its own key only. -/
theorem getElem?_insert (m : AwaitingResponseMap) (k j : Nat) (e : TimeStampedPdu) :
    (m.insert k e)[j]? = if k = j then some e else m[j]? := by
  simp only [Std.TreeMap.getElem?_insert, Nat.compare_eq_eq]

/-- An erasure removes the entry at its own key only. -/
theorem getElem?_erase (m : AwaitingResponseMap) (k j : Nat) :
    (m.erase k)[j]? = if k = j then none else m[j]? := by
  simp only [Std.TreeMap.getElem?_erase, Nat.compare_eq_eq]

/-- Giving a value to one argument of a function adds that value to what a list of arguments yields. -/
theorem filterMap_update_perm {α β : Type} [DecidableEq α] {l : List α} (hl : l.Nodup) {a : α}
    (ha : a ∈ l) {f : α → Option β} (hf : f a = none) (v : Option β) :
    (l.filterMap (Function.update f a v)).Perm (v.toList ++ l.filterMap f) := by
  induction l with
  | nil => cases ha
  | cons b l ih =>
      rw [List.nodup_cons] at hl
      by_cases hab : a = b
      · subst hab
        -- the rest of the list is not affected
        have hrest : l.filterMap (Function.update f a v) = l.filterMap f := by
          refine List.filterMap_congr fun c hc => ?_
          have hca : c ≠ a := fun h => hl.1 (h ▸ hc)
          rw [Function.update_of_ne hca]
        rw [List.filterMap_cons, List.filterMap_cons, Function.update_self, hf, hrest]
        cases v with
        | none => exact List.Perm.refl _
        | some x => exact List.Perm.refl _
      · have hmem : a ∈ l := (List.mem_cons.mp ha).resolve_left hab
        have hba : b ≠ a := fun h => hab h.symm
        rw [List.filterMap_cons, List.filterMap_cons, Function.update_of_ne hba]
        cases f b with
        | none => exact ih hl.2 hmem
        | some x => exact ((ih hl.2 hmem).cons x).trans List.perm_middle.symm

/-! ## How operations move PDUs -/

variable {cfg : Params} {t : Tid} {s : Session}

/-- The operations that neither take a PDU into flight nor out of it, nor hand it on. -/
@[simp] def Op.still : Op → Bool
  | .txPop | .asyncWrite _ _ | .txPushBackLastPop | .w4rInsert _ | .retire => false
  | _ => true

/-- The PDU an operation pushes on the transmit queue. -/
@[simp] def Op.pushed? : Op → Option Ref
  | .txPush r _ => some r
  | _ => none

/-- Most operations leave the PDUs in flight as they are. -/
theorem inFlight_still {op : Op} {r : op.Res × Session} (h : perform cfg t op s = some r)
    (hop : op.still = true) : r.2.inFlight.Perm s.inFlight := by
  have hp : r.2.pdu2send = s.pdu2send := perform_same (f := .pdu2send) h (by
    cases op <;> first | simp; done | simp at hop)
  have hh : r.2.handling = s.handling := perform_same (f := .handling) h (by
    cases op <;> first | simp; done | simp at hop)
  refine Session.inFlight_perm hp ?_ hh
  -- what starts another kind of operation, or queues another handler, adds no write
  by_cases hw : Field.pending ∉ op.writes ∧ Field.ready ∉ op.writes
  · have h₁ : r.2.pending = s.pending := perform_same (f := .pending) h hw.1
    have h₂ : r.2.ready = s.ready := perform_same (f := .ready) h hw.2
    unfold Session.writes
    rw [h₁, h₂]
  · cases op with
    | asyncConnect =>
        cases h
        have hconn : [Io.connect].filterMap Io.written? = [] := rfl
        simp [Session.writes, Session.record, hconn]
    | asyncReadHeader =>
        cases h
        exact Session.writes_startIo _
    | asyncReadBody raw =>
        cases h
        exact Session.writes_startIo _
    | socketClose =>
        cases h
        exact Session.writes_closeSocket
    | postClose =>
        cases h
        rw [Session.writes_enqueue rfl]
    | cancel tm =>
        cases h
        show (s.cancelTimer tm).writes.Perm _
        rw [Session.writes_cancelTimer]
    | arm tm =>
        cases h
        show (s.cancelTimer tm).writes.Perm _
        rw [Session.writes_cancelTimer]
    | asyncWrite => simp at hop
    | _ => simp at hw

/-- `pop` takes a PDU into flight. -/
theorem inFlight_txPop {r : Option Ref × Session} (h : perform cfg t .txPop s = some r)
    (ht : s.pdu2send t = none) : r.2.inFlight.Perm (s.txQ.pop.1.toList ++ s.inFlight) := by
  cases h
  show (Tid.all.filterMap (Function.update s.pdu2send t s.txQ.pop.1) ++
    (s.writes ++ s.handling.toList)).Perm _
  refine ((filterMap_update_perm (by decide) (Tid.mem_all t) ht _).append_right _).trans ?_
  rw [List.append_assoc]
  exact List.Perm.refl _

/-- `async_write` hands a popped PDU to the socket. -/
theorem inFlight_asyncWrite {p : Ref} {tbuf : Pdu} {r : Unit × Session}
    (h : perform cfg t (.asyncWrite p tbuf) s = some r) (ht : s.pdu2send t = some p) :
    r.2.inFlight.Perm s.inFlight := by
  cases h
  -- the thread gives up the PDU
  have hp : (Tid.all.filterMap s.pdu2send).Perm
      (p :: Tid.all.filterMap (Function.update s.pdu2send t none)) := by
    have := filterMap_update_perm (l := Tid.all) (by decide) (Tid.mem_all t)
      (f := Function.update s.pdu2send t none) (Function.update_self ..) (some p)
    rwa [Function.update_idem, ← ht, Function.update_eq_self, ht] at this
  -- the socket takes it over
  have hw := Session.writes_startIo (s := { s with pdu2send := Function.update s.pdu2send t none })
    (.write p)
  unfold Session.inFlight Session.popped
  refine List.Perm.trans ?_ (hp.append_right _).symm
  have h₁ : (({ s with pdu2send := Function.update s.pdu2send t none }).startIo
      (.write p)).pdu2send = Function.update s.pdu2send t none :=
    Session.startIo_same (f := .pdu2send) _ (by decide)
  have h₂ : (({ s with pdu2send := Function.update s.pdu2send t none }).startIo
      (.write p)).handling = s.handling :=
    Session.startIo_same (s := { s with pdu2send := Function.update s.pdu2send t none })
      (f := .handling) _ (by decide)
  show (Tid.all.filterMap (({ s with pdu2send := Function.update s.pdu2send t none }).startIo
    (.write p)).pdu2send ++ ((({ s with pdu2send := Function.update s.pdu2send t none }).startIo
    (.write p)).writes ++ (({ s with pdu2send := Function.update s.pdu2send t none }).startIo
    (.write p)).handling.toList)).Perm _
  rw [h₁, h₂]
  exact ((hw.append_right _).append_left _).trans List.perm_middle

/-- The operations by which `handle_write` deals with its PDU. -/
@[simp] def Op.deals : Op → Bool
  | .txPushBackLastPop | .w4rInsert _ | .retire => true
  | _ => false

/-- `handle_write` takes its PDU out of flight. -/
theorem inFlight_deals {op : Op} {r : op.Res × Session} (h : perform cfg t op s = some r)
    (hop : op.deals = true) :
    s.inFlight.Perm (s.handling.toList ++ r.2.inFlight) ∧ r.2.handling = none := by
  have hp : r.2.pdu2send = s.pdu2send := perform_same (f := .pdu2send) h (by
    cases op <;> first | simp; done | simp at hop)
  have h₁ : r.2.pending = s.pending := perform_same (f := .pending) h (by
    cases op <;> first | simp; done | simp at hop)
  have h₂ : r.2.ready = s.ready := perform_same (f := .ready) h (by
    cases op <;> first | simp; done | simp at hop)
  have hh : r.2.handling = none := by
    cases op <;> first
      | (cases h; rfl)
      | simp at hop
  refine ⟨?_, hh⟩
  unfold Session.inFlight Session.popped Session.writes
  rw [hp, h₁, h₂, hh, Option.toList_none, List.append_nil, ← List.append_assoc]
  exact List.perm_append_comm

/-! ## Where a PDU can have come from -/

/-- A PDU in the queue was there before, was pushed, or was put back. -/
theorem mem_txQ_perform {op : Op} {r : op.Res × Session} (h : perform cfg t op s = some r) {x : Ref}
    (hx : x ∈ r.2.txQ) :
    x ∈ s.txQ ∨ (∃ l, op = .txPush x l) ∨
      (op = .txPushBackLastPop ∧ s.slot = some x) := by
  by_cases hw : Field.txQ ∈ op.writes
  · cases op with
    | txPush q l =>
        cases h
        rcases PrioQ.mem_push.mp hx with hx | rfl
        · exact .inl hx
        · exact .inr (.inl ⟨l, rfl⟩)
    | txPop =>
        cases h
        exact .inl (PrioQ.mem_iff_pop.mpr (.inr hx))
    | txClear l =>
        cases h
        exact .inl (PrioQ.mem_of_mem_clear hx)
    | txPushBackLastPop =>
        cases h
        rcases PrioQ.mem_pushBackLastPop.mp hx with hx | hx
        · exact .inl hx
        · exact .inr (.inr ⟨rfl, hx⟩)
    | _ => simp at hw
  · have hq : r.2.txQ = s.txQ := perform_same (f := .txQ) h hw
    rw [hq] at hx
    exact .inl hx

/-- Only a pop changes which PDU was popped last. -/
theorem slot_same {op : Op} {r : op.Res × Session} (h : perform cfg t op s = some r)
    (hop : op ≠ .txPop) : r.2.slot = s.slot := by
  unfold Session.slot
  by_cases hw : Field.txQ ∈ op.writes
  · cases op with
    | txPush q l => cases h; rfl
    | txPop => exact absurd rfl hop
    | txClear l => cases h; rfl
    | txPushBackLastPop =>
        cases h
        exact congrArg (Option.map Prod.snd) (PrioQ.pushBackLastPop_lastPop _ _)
    | _ => simp at hw
  · have hq : r.2.txQ = s.txQ := perform_same (f := .txQ) h hw
    rw [hq]

/-- A pop leaves the PDU it takes in the slot. -/
theorem slot_txPop {r : Option Ref × Session} (h : perform cfg t .txPop s = some r) {x : Ref}
    (hx : s.txQ.pop.1 = some x) : r.2.slot = some x := by
  cases h
  obtain ⟨_, -, -, hl⟩ := PrioQ.pop_some (q := s.txQ) (a := x) (Prod.ext hx rfl)
  exact congrArg (Option.map Prod.snd) hl

/-- A PDU in the slot was there before, or has just been popped. -/
theorem slot_perform {op : Op} {r : op.Res × Session} (h : perform cfg t op s = some r) {x : Ref}
    (hx : r.2.slot = some x) : s.slot = some x ∨ (op = .txPop ∧ s.txQ.pop.1 = some x) := by
  by_cases hop : op = .txPop
  · subst hop
    cases h
    obtain ⟨⟨i, _⟩, hl, rfl⟩ := Option.map_eq_some_iff.mp hx
    rcases PrioQ.lastPop_pop hl with ⟨hpop, -⟩ | ⟨-, hl⟩
    · exact .inr ⟨rfl, hpop⟩
    · exact .inl (Option.map_eq_some_iff.mpr ⟨_, hl, rfl⟩)
  · rw [slot_same h hop] at hx
    exact .inl hx

/-- An entry of `w4rQ` was there before, or has just been recorded under the number of its PDU. -/
theorem entry_perform {op : Op} {r : op.Res × Session} (h : perform cfg t op s = some r) {k : Nat}
    {e : TimeStampedPdu} (he : r.2.w4rQ[k]? = some e) :
    s.w4rQ[k]? = some e ∨ (op = .w4rInsert e.obj ∧ (s.pdu e.obj).sequenceNumber = k) := by
  -- an insertion makes an entry; the others erase at most
  by_cases hw : Field.w4rQ ∈ op.writes
  · cases op with
    | w4rInsert q =>
        cases h
        have he : (s.w4rQ.insert (s.pdu q).sequenceNumber ⟨s.time, q⟩)[k]? = some e := he
        rw [getElem?_insert] at he
        split at he
        · next hkey =>
            cases he
            exact .inr ⟨rfl, hkey⟩
        · exact .inl he
    | w4rAnswer cmd seq =>
        cases h
        have he : (s.w4rQ.erase seq)[k]? = some e := he
        rw [getElem?_erase] at he
        split at he
        · cases he
        · exact .inl he
    | w4rEraseFound q =>
        rcases perform_w4rEraseFound h with rfl | rfl
        · have he : (s.w4rQ.erase (s.pdu q).sequenceNumber)[k]? = some e := he
          rw [getElem?_erase] at he
          split at he
          · cases he
          · exact .inl he
        · exact .inl he
    | _ => simp at hw
  · have hq : r.2.w4rQ = s.w4rQ := perform_same (f := .w4rQ) h hw
    rw [hq] at he
    exact .inl he

/-- A PDU that awaits its response did so before, or has just been recorded. -/
theorem awaits_perform {op : Op} {r : op.Res × Session} (h : perform cfg t op s = some r) {x : Ref}
    (hx : r.2.Awaits x) : s.Awaits x ∨ op = .w4rInsert x := by
  obtain ⟨k, e, he, rfl⟩ := hx
  rcases entry_perform h he with he | ⟨hop, -⟩
  · exact .inl ⟨k, e, he, rfl⟩
  · exact .inr hop

/-- The environment pops no PDU. -/
theorem slot_env {e : Env} {s' : Session} (h : e.perform cfg s = some s') : s'.slot = s.slot := by
  have hq : s'.txQ = s.txQ := env_same (f := .txQ) h (by simp)
  unfold Session.slot
  rw [hq]

/-- The start of a job pops no PDU. -/
theorem slot_take {j : Job} {s' : Session} (h : j.take s = some s') : s'.slot = s.slot := by
  have hq : s'.txQ = s.txQ := take_same (f := .txQ) h (by simp)
  unfold Session.slot
  rw [hq]

/-- Socket operations that complete take their PDU along. -/
theorem inFlight_env {e : Env} {s' : Session} (h : e.perform cfg s = some s') :
    s'.inFlight.Perm s.inFlight := by
  cases e with
  | complete io raw er =>
      obtain ⟨hio, rfl⟩ := Env.perform_complete h
      have hwrites : (({ s with pending := s.pending.erase io }.connectDone io er).enqueue
          (io.handler raw er)).writes.Perm s.writes := by
        have hpend : (({ s with pending := s.pending.erase io } : Session).connectDone io er).pending =
            s.pending.erase io := by
          unfold Session.connectDone; split <;> rfl
        have hready : (({ s with pending := s.pending.erase io } : Session).connectDone io er).ready =
            s.ready := by
          unfold Session.connectDone; split <;> rfl
        -- a completed write moves from `pending` to `ready`
        have herase := (List.perm_cons_erase hio).filterMap Io.written?
        simp only [Session.writes, Session.enqueue, hpend, hready, List.filterMap_append,
          List.filterMap_cons, List.filterMap_nil, Io.written?_handler]
        rw [List.filterMap_cons] at herase
        cases hw : io.written? with
        | none =>
            rw [hw] at herase
            simpa using (herase.append_right _).symm
        | some p =>
            rw [hw] at herase
            refine List.Perm.trans ?_ (herase.append_right _).symm
            rw [← List.append_assoc]
            exact List.perm_append_singleton p _
      refine Session.inFlight_perm ?_ hwrites ?_
      · unfold Session.connectDone; split <;> rfl
      · unfold Session.connectDone; split <;> rfl
  | expire tm =>
      obtain ⟨-, rfl⟩ := Env.perform_expire h
      refine Session.inFlight_perm rfl ?_ rfl
      rw [Session.writes_enqueue (Timer.written?_handler tm _)]
      exact List.Perm.refl _
  | elapse us => cases h; exact List.Perm.refl _
  | submit body => cases h; exact List.Perm.refl _
  | reply a => cases h; exact List.Perm.refl _

/-- A handler that is taken up takes its PDU along. -/
theorem inFlight_take {j : Job} {s' : Session} (h : j.take s = some s')
    (hh : s.handling = none) : s'.inFlight.Perm s.inFlight := by
  cases j with
  | handler h' =>
      obtain ⟨hmem, rfl⟩ := Job.take_handler h
      have herase := (List.perm_cons_erase hmem).filterMap Handler.written?
      unfold Session.inFlight
      refine List.Perm.append_left _ ?_
      rw [hh, Option.toList_none, List.append_nil]
      simp only [Session.writes, Session.record, List.append_assoc]
      refine List.Perm.append_left _ ?_
      rw [List.filterMap_cons] at herase
      cases hw : h'.written? with
      | none => rw [hw] at herase; simpa using herase.symm
      | some p =>
          rw [hw] at herase
          exact (List.perm_append_singleton p _).trans herase.symm
  | send => cases h; exact List.Perm.refl _
  | receive => cases h; exact List.Perm.refl _
  | stop => cases h; exact List.Perm.refl _

end KissSmpp
