import KissSmpp.Properties.OwnPdu

/-! # No message is lost inside the session

A request moves from the transmit queue into flight, from there into `w4rQ`, and back into the queue
when its write fails or its entry has aged. Two slips can make it fall out: `handle_write` deals with
another PDU than its own, and `w4rQ`, which is keyed by sequence number, holds another PDU under the
number of this one. Where neither happens (`keepsTrack`) every message stays accounted for. -/

namespace KissSmpp

open Interleave Queue

variable {cfg : Params} {t : Tid} {s s' : Session}

/-- The PDU by whose number an operation finds an entry of `w4rQ`, to replace or to erase it. -/
def Op.seeks? : Op → Option Ref
  | .w4rInsert r | .w4rEraseFound r => some r
  | _ => none

/-- **The session keeps track of its PDUs**: `handle_write` deals with its own, and the entry of `w4rQ`
found under the number of a PDU, if there is one, is that PDU. -/
def keepsTrack : Guard Op Tid Session Job where
  op t op s :=
    handlesOwn.op t op s ∧
      ∀ r ∈ op.seeks?, ∀ e ∈ s.w4rQ[(s.pdu r).sequenceNumber]?, e.obj = r
  job _ _ := True

/-- The guard can be evaluated. -/
instance : keepsTrack.Checkable where
  op t op s := inferInstanceAs (Decidable
    ((AsksLastPop t op → s.LastPopOwn) ∧
      ∀ r ∈ op.seeks?, ∀ e ∈ s.w4rQ[(s.pdu r).sequenceNumber]?, e.obj = r))
  job _ _ := inferInstanceAs (Decidable True)

/-- The number of a response that has been processed. -/
def Event.answered? : Event → Option Nat
  | .response _ seq => some seq
  | _ => none

namespace Session

/-- The numbers of the responses that have been processed. -/
def answered (s : Session) : List Nat := s.hist.filterMap Event.answered?

/-- **The request `r` is accounted for**: it is in the transmit queue, or being written, or awaits its
response, or a response with its number has been processed. -/
def Accounted (s : Session) (r : Ref) : Prop :=
  r ∈ s.txQ ∨ r ∈ s.inFlight ∨ s.Awaits r ∨ (s.pdu r).sequenceNumber ∈ s.answered

/-- The entry of `w4rQ` under the PDU's number is that PDU. -/
def OnRecord (s : Session) (r : Ref) : Prop :=
  ∃ e, s.w4rQ[(s.pdu r).sequenceNumber]? = some e ∧ e.obj = r

/-- The PDU is accounted for, and found in `w4rQ` under its number. -/
def Tracked (s : Session) (r : Ref) : Prop :=
  r ∈ s.txQ ∨ r ∈ s.inFlight ∨ s.OnRecord r ∨ (s.pdu r).sequenceNumber ∈ s.answered

/-- A PDU that is tracked is accounted for. -/
theorem Tracked.accounted {r : Ref} (h : s.Tracked r) : s.Accounted r :=
  h.imp_right (.imp_right (.imp_left fun ⟨e, he, hobj⟩ => ⟨_, e, he, hobj⟩))

/-- What has been answered stays so. -/
theorem answered_mono (h : ∀ e, e ∈ s.hist → e ∈ s'.hist) {n : Nat} (hn : n ∈ s.answered) :
    n ∈ s'.answered := by
  obtain ⟨e, he, hn⟩ := List.mem_filterMap.mp hn
  exact List.mem_filterMap.mpr ⟨e, h e he, hn⟩

/-- The PDUs on their way to the peer, with how often each is. -/
def copies (s : Session) : List Ref := s.txQ.toList ++ s.inFlight

/-- The copies of a PDU are queued, or in flight. -/
theorem mem_copies {r : Ref} : r ∈ s.copies ↔ r ∈ s.txQ ∨ r ∈ s.inFlight := by
  unfold copies
  rw [List.mem_append, PrioQ.mem_toList]

/-- **`close_connection` does not reach the PDU**: it waits at the message level only, and would be put
back there. -/
structure AsMessage (s : Session) (r : Ref) : Prop where
  level : ∀ l, r ∈ s.txQ.level l → l = .MESSAGE
  back : r ∈ s.inFlight → ∀ l, s.txQ.lastPop = some (l, r) → l = .MESSAGE

/-- A PDU that is not on its way cannot be reached. -/
theorem AsMessage.of_not_mem {r : Ref} (h : r ∉ s.copies) : s.AsMessage r := by
  rw [mem_copies, not_or] at h
  exact ⟨fun l hl => absurd ⟨l, hl⟩ h.1, fun hr => absurd hr h.2⟩

/-- **What a run keeps** of the requests: each is on its way at most once before it is pushed as a
message, stays out of the reach of `close_connection` from then on, and is tracked. -/
structure Conserved (s : Session) : Prop where
  once : ∀ r, .pushed r .MESSAGE ∉ s.hist → s.copies.count r ≤ 1 ∧ (s.Awaits r → r ∉ s.copies)
  message : ∀ r, .pushed r .MESSAGE ∈ s.hist ∨ s.Awaits r → s.AsMessage r
  tracked : ∀ r, .pushed r .MESSAGE ∈ s.hist → (s.pdu r).IsRequest → s.Tracked r

end Session

open Session

/-! ## How often a PDU is on its way -/

/-- A PDU that a thread has in hand is not on its way, and does not await a response. -/
theorem Apart.not_mem_copies (hA : Apart s) {r : Ref} (hr : s.inHand t = some r) : r ∉ s.copies := by
  intro hmem
  refine hA.queue r (.inl ⟨t, hr⟩) ?_
  rcases mem_copies.mp hmem with hmem | hmem
  · exact .waiting hmem
  · exact .flight hmem

/-- **Only a push makes a PDU one more time on its way**, and being put on record makes it so one time
less. -/
theorem count_perform {op : Op} {x : op.Res × Session} (hH : s.HoldsOwn)
    (hg : handlesOwn.op t op s) (hm : op.mayRun t = true) (hk : Known t op s)
    (h : perform cfg t op s = some x) (r : Ref) :
    x.2.copies.count r + (if op = .w4rInsert r then 1 else 0) ≤
      s.copies.count r + (if op.pushed? = some r then 1 else 0) := by
  unfold Session.copies
  rw [List.count_append, List.count_append]
  -- the copies are in the queue and in flight: what leaves one of them comes to the other
  cases op with
  | txPush q l =>
      have hfl := (inFlight_still h rfl).count_eq r
      have hq : x.2.txQ = s.txQ.push q l := by cases h; rfl
      have hcount := (PrioQ.toList_push s.txQ q l).count_eq r
      rw [List.count_cons] at hcount
      rw [hq, hcount]
      simp only [reduceCtorEq, if_false, Op.pushed?, Option.some.injEq, beq_iff_eq]
      omega
  | txPop =>
      have hfl := (inFlight_txPop h hk.2.1).count_eq r
      have hq : x.2.txQ = s.txQ.pop.2 := by cases h; rfl
      have hcount := (PrioQ.toList_pop s.txQ).count_eq r
      rw [List.count_append] at hfl hcount
      rw [hq]
      simp only [reduceCtorEq, if_false, Op.pushed?]
      omega
  | txClear l =>
      have hfl := (inFlight_still h rfl).count_eq r
      have hq : x.2.txQ = s.txQ.clear l := by cases h; rfl
      have hcount := (PrioQ.toList_clear s.txQ l).count_eq r
      rw [List.count_append] at hcount
      rw [hq]
      simp only [reduceCtorEq, if_false, Op.pushed?]
      omega
  -- the slot goes back into the queue out of the hands of `handle_write`
  | txPushBackLastPop =>
      have hfl := (inFlight_deals h rfl).1.count_eq r
      have hq : x.2.txQ = s.txQ.pushBackLastPop cfg.pushBackFront := by cases h; rfl
      have hcount := (PrioQ.toList_pushBackLastPop cfg.pushBackFront s.txQ).count_eq r
      rw [List.count_append] at hcount
      rw [handling_of_txPushBackLastPop hg hk, List.count_append] at hfl
      unfold Session.slot at hfl
      rw [hq]
      simp only [reduceCtorEq, if_false, Op.pushed?]
      omega
  -- what is put on record was in the hands of `handle_write`
  | w4rInsert q =>
      have hfl := (inFlight_deals h rfl).1.count_eq r
      rw [handling_of_w4rInsert hH hg hm hk, Option.toList_some, List.count_append,
        List.count_singleton] at hfl
      have hq : x.2.txQ = s.txQ := perform_same (f := .txQ) h (by simp)
      rw [hq]
      simp only [reduceCtorEq, if_false, Op.pushed?, Op.w4rInsert.injEq]
      simp only [beq_iff_eq] at hfl
      omega
  | retire =>
      have hfl := (inFlight_deals h rfl).1.count_eq r
      rw [List.count_append] at hfl
      have hq : x.2.txQ = s.txQ := perform_same (f := .txQ) h (by simp)
      rw [hq]
      simp only [reduceCtorEq, if_false, Op.pushed?]
      omega
  | asyncWrite q tbuf =>
      have hfl := (inFlight_asyncWrite h hk.2.1).count_eq r
      have hq : x.2.txQ = s.txQ := perform_same (f := .txQ) h (by simp)
      rw [hq]
      simp only [reduceCtorEq, if_false, Op.pushed?]
      omega
  | _ =>
      have hfl := (inFlight_still h rfl).count_eq r
      have hq : x.2.txQ = s.txQ := perform_same (f := .txQ) h (by simp)
      rw [hq]
      simp only [reduceCtorEq, if_false, Op.pushed?]
      omega

/-! ## A message stays out of reach -/

/-- **Every operation keeps a message out of the reach of `close_connection`**: it is pushed again only
at the same level. -/
theorem asMessage_perform {op : Op} {x : op.Res × Session} (hA : Apart s)
    (hg : handlesOwn.op t op s) (hk : Known t op s) (h : perform cfg t op s = some x) {r : Ref}
    (hr : .pushed r .MESSAGE ∈ s.hist ∨ s.Awaits r) (hM : s.AsMessage r) : x.2.AsMessage r := by
  -- the PDU is not in anyone's hands
  have hhand : s.inHand t ≠ some r := by
    intro hin
    refine hA.queue r (.inl ⟨t, hin⟩) ?_
    rcases hr with hr | hr
    · exact .pushed _ hr
    · exact .awaiting hr
  have hfl : op ≠ .txPop → r ∈ x.2.inFlight → r ∈ s.inFlight := fun hop hmem =>
    (mem_inFlight_perform h hk hmem).resolve_right fun hpop => hop hpop.1
  by_cases hw : Field.txQ ∈ op.writes
  · cases op with
    -- a push after the first one is on the message level
    | txPush q l =>
        have hq : x.2.txQ = s.txQ.push q l := by cases h; rfl
        refine ⟨fun l' hl => ?_, fun hmem l' hl => ?_⟩
        · rw [hq, PrioQ.mem_level_push] at hl
          rcases hl with hl | ⟨rfl, rfl⟩
          · exact hM.level l' hl
          · rcases hk.2 with hin | ⟨-, hl, -⟩
            · exact absurd hin hhand
            · exact hl
        · rw [hq, PrioQ.push_lastPop] at hl
          exact hM.back (hfl (by simp) hmem) l' hl
    | txPop =>
        have hq : x.2.txQ = s.txQ.pop.2 := by cases h; rfl
        refine ⟨fun l' hl => ?_, fun hmem l' hl => ?_⟩
        · rw [hq] at hl
          exact hM.level l' (PrioQ.mem_level_of_pop hl)
        · rw [hq] at hl
          -- what is popped was waiting, on the message level if it was the one
          rcases PrioQ.lastPop_pop hl with ⟨-, hl⟩ | ⟨hnone, hl⟩
          · exact hM.level l' hl
          · rcases mem_inFlight_perform h hk hmem with hmem | ⟨-, hpop⟩
            · exact hM.back hmem l' hl
            · rw [hnone] at hpop
              cases hpop
    | txClear l =>
        have hq : x.2.txQ = s.txQ.clear l := by cases h; rfl
        refine ⟨fun l' hl => ?_, fun hmem l' hl => ?_⟩
        · rw [hq, PrioQ.mem_level_clear] at hl
          exact hM.level l' hl.1
        · rw [hq, PrioQ.clear_lastPop] at hl
          exact hM.back (hfl (by simp) hmem) l' hl
    | txPushBackLastPop =>
        have hq : x.2.txQ = s.txQ.pushBackLastPop cfg.pushBackFront := by cases h; rfl
        refine ⟨fun l' hl => ?_, fun hmem l' hl => ?_⟩
        · rw [hq, PrioQ.mem_level_pushBackLastPop] at hl
          rcases hl with hl | hl
          · exact hM.level l' hl
          · -- it is the PDU that `handle_write` is about
            have hown : s.handling = some r := by
              rw [handling_of_txPushBackLastPop hg hk, Session.slot, hl]
              rfl
            exact hM.back (mem_inFlight.mpr (.inr (.inr hown))) l' hl
        · rw [hq, PrioQ.pushBackLastPop_lastPop] at hl
          exact hM.back (hfl (by simp) hmem) l' hl
    | _ => simp at hw
  · have hq : x.2.txQ = s.txQ := perform_same (f := .txQ) h hw
    refine ⟨fun l' hl => hM.level l' (hq ▸ hl), fun hmem l' hl => ?_⟩
    refine hM.back (hfl (fun hop => ?_) hmem) l' (hq ▸ hl)
    subst hop
    simp at hw

/-- A message that is pushed for the first time is out of reach as well. -/
theorem asMessage_push {r : Ref} {x : Unit × Session}
    (h : perform cfg t (.txPush r .MESSAGE) s = some x) (hr : r ∉ s.copies) : x.2.AsMessage r := by
  rw [mem_copies, not_or] at hr
  have hq : x.2.txQ = s.txQ.push r .MESSAGE := by cases h; rfl
  refine ⟨fun l hl => ?_, fun hmem => ?_⟩
  · rw [hq, PrioQ.mem_level_push] at hl
    rcases hl with hl | ⟨hl, -⟩
    · exact absurd ⟨l, hl⟩ hr.1
    · exact hl
  · exact absurd ((inFlight_still h rfl).mem_iff.mp hmem) hr.2

/-! ## A message stays on record -/

/-- The PDU that is put on record is found there. -/
theorem onRecord_insert {r : Ref} {x : Unit × Session}
    (h : perform cfg t (.w4rInsert r) s = some x) : x.2.OnRecord r := by
  cases h
  refine ⟨⟨s.time, r⟩, ?_, rfl⟩
  show (s.w4rQ.insert (s.pdu r).sequenceNumber ⟨s.time, r⟩)[(s.pdu r).sequenceNumber]? = _
  rw [getElem?_insert, if_pos rfl]

/-- **A request on its way stays tracked**: it leaves the way only where `handle_write` deals with it,
and that puts it back or on record. Clearing the other levels does not reach it. -/
theorem tracked_of_onWay {op : Op} {x : op.Res × Session} (hH : s.HoldsOwn)
    (hg : handlesOwn.op t op s) (hm : op.mayRun t = true) (hk : Known t op s)
    (h : perform cfg t op s = some x) {r : Ref} (hM : s.AsMessage r) (hreq : (s.pdu r).IsRequest)
    (hr : s.OnWay r) : x.2.Tracked r := by
  have hway : x.2.OnWay r → x.2.Tracked r := fun hw => hw.imp_right .inl
  rcases hr with ⟨l, hl⟩ | hr
  · refine hway (mem_txQ_stays h hk hl fun hop => ?_)
    subst hop
    exact hk (hM.level l hl)
  cases hdeals : op.deals with
  | false => exact hway (.inr (mem_inFlight_stays h hk hdeals hr))
  | true =>
      rw [(inFlight_deals h hdeals).1.mem_iff, List.mem_append, Option.mem_toList] at hr
      rcases hr with hown | hr
      · rcases deals_own hH hg hm hk hdeals hown with ⟨rfl, hslot⟩ | rfl | ⟨-, hresp⟩
        · have hq : x.2.txQ = s.txQ.pushBackLastPop cfg.pushBackFront := by cases h; rfl
          exact .inl (hq ▸ PrioQ.mem_pushBackLastPop.mpr (.inr hslot))
        · exact .inr (.inr (.inl (onRecord_insert h)))
        · exact absurd hreq hresp
      · exact hway (.inr hr)

/-- **A PDU stays on record** until a response with its number is processed, unless it is on its way
again: then the ageing sweep may erase it, and `write_pdu` may give it a number. -/
theorem onRecord_perform {op : Op} {x : op.Res × Session} (hg : keepsTrack.op t op s)
    (hk : Known t op s) (h : perform cfg t op s = some x) {r : Ref} (hlt : r < s.heap.length)
    (hr : s.OnRecord r) :
    x.2.OnRecord r ∨ s.OnWay r ∨ ∃ cmd, op = .w4rAnswer cmd (s.pdu r).sequenceNumber := by
  -- renumbered on its way to `async_write`: the key under which it is found changes
  by_cases hseq : ∃ n, op = .setSeq r n
  · obtain ⟨n, rfl⟩ := hseq
    exact .inr (.inl (.inr (mem_inFlight.mpr (.inl ⟨t, hk.2.1⟩))))
  have hpdu : x.2.pdu r = s.pdu r := pdu_perform h hlt fun n hn => hseq ⟨n, hn⟩
  obtain ⟨e, he, hobj⟩ := hr
  by_cases hw : Field.w4rQ ∈ op.writes
  · cases op with
    | w4rInsert q =>
        left
        by_cases hkey : (s.pdu q).sequenceNumber = (s.pdu r).sequenceNumber
        · -- what is found there is replaced by itself
          rw [← hkey] at he
          have hqr : q = r := (hg.2 q rfl e he).symm.trans hobj
          subst hqr
          exact onRecord_insert h
        · refine ⟨e, ?_, hobj⟩
          rw [hpdu]
          cases h
          exact (getElem?_insert _ _ _ _).trans ((if_neg hkey).trans he)
    | w4rAnswer cmd seq =>
        -- its own entry goes only by an answer
        by_cases hkey : seq = (s.pdu r).sequenceNumber
        · exact .inr (.inr ⟨cmd, by rw [hkey]⟩)
        · refine .inl ⟨e, ?_, hobj⟩
          rw [hpdu]
          cases h
          exact (getElem?_erase _ _ _).trans ((if_neg hkey).trans he)
    | w4rEraseFound q =>
        -- the sweep erases the entry of the PDU it has handed over
        by_cases hkey : (s.pdu q).sequenceNumber = (s.pdu r).sequenceNumber
        · rw [← hkey] at he
          have hqr : q = r := (hg.2 q rfl e he).symm.trans hobj
          exact .inr (.inl (hqr ▸ hk.1))
        · refine .inl ⟨e, ?_, hobj⟩
          rw [hpdu]
          rcases perform_w4rEraseFound h with rfl | rfl
          · exact (getElem?_erase _ _ _).trans ((if_neg hkey).trans he)
          · exact he
    | _ => simp at hw
  · have hq : x.2.w4rQ = s.w4rQ := perform_same (f := .w4rQ) h hw
    refine .inl ⟨e, ?_, hobj⟩
    rw [hpdu, hq]
    exact he

/-- **Every operation keeps track of a message.** -/
theorem tracked_perform {op : Op} {x : op.Res × Session} (hH : s.HoldsOwn)
    (hg : keepsTrack.op t op s) (hm : op.mayRun t = true) (hk : Known t op s)
    (h : perform cfg t op s = some x) {r : Ref} (hlt : r < s.heap.length) (hM : s.AsMessage r)
    (hreq : (s.pdu r).IsRequest) (hr : s.Tracked r) : x.2.Tracked r := by
  have hway : s.OnWay r → x.2.Tracked r := tracked_of_onWay hH hg.1 hm hk h hM hreq
  rcases hr with hr | hr | hr | hr
  · exact hway (.inl hr)
  · exact hway (.inr hr)
  · rcases onRecord_perform hg hk h hlt hr with hr | hr | ⟨cmd, rfl⟩
    · exact .inr (.inr (.inl hr))
    · exact hway hr
    · refine .inr (.inr (.inr ?_))
      cases h
      exact List.mem_cons_self
  · by_cases hseq : ∃ n, op = .setSeq r n
    · obtain ⟨n, rfl⟩ := hseq
      exact hway (.inr (mem_inFlight.mpr (.inl ⟨t, hk.2.1⟩)))
    · refine .inr (.inr (.inr ?_))
      rw [pdu_perform h hlt fun n hn => hseq ⟨n, hn⟩]
      exact answered_mono (fun _ he => mem_hist_perform h he) hr

/-! ## Runs -/

/-- **Every operation keeps the requests conserved.** -/
theorem conserved_perform {op : Op} {x : op.Res × Session} (hi : Inv s) (hG : s.Grounds)
    (hC : s.Conserved) (hg : keepsTrack.op t op s) (hm : op.mayRun t = true)
    (hk : Known t op s) (h : perform cfg t op s = some x) : x.2.Conserved := by
  obtain ⟨hA, hH⟩ := hG
  have hcount := count_perform hH hg.1 hm hk h
  refine ⟨fun r hr => ?_, fun r hr => ?_, fun r hr hreq => ?_⟩
  · -- no copy before the first push as a message, and at most one after it
    have hold : .pushed r .MESSAGE ∉ s.hist := fun hr' => hr (mem_hist_perform h hr')
    obtain ⟨hone, haw⟩ := hC.once r hold
    have hcount := hcount r
    by_cases hpush : op.pushed? = some r
    · -- the first push of a PDU in hand
      obtain ⟨l, rfl⟩ : ∃ l, op = .txPush r l := by
        cases op <;> simp at hpush
        subst hpush
        exact ⟨_, rfl⟩
      rcases hk.2 with hin | ⟨-, rfl, -⟩
      · rw [if_neg (by simp), if_pos hpush, List.count_eq_zero.mpr (hA.not_mem_copies hin)] at hcount
        refine ⟨by omega, fun haw' => ?_⟩
        rcases awaits_perform h haw' with haw' | hop
        · exact absurd (.awaiting haw') (hA.queue r (.inl ⟨t, hin⟩))
        · cases hop
      · cases h
        exact absurd List.mem_cons_self hr
    · rw [if_neg hpush] at hcount
      refine ⟨by omega, fun haw' => ?_⟩
      rw [← List.count_eq_zero]
      rcases awaits_perform h haw' with haw' | rfl
      · have := List.count_eq_zero.mpr (haw haw')
        omega
      · rw [if_pos rfl] at hcount
        omega
  · by_cases hold : .pushed r .MESSAGE ∈ s.hist ∨ s.Awaits r
    · exact asMessage_perform hA hg.1 hk h hold (hC.message r hold)
    rw [not_or] at hold
    have hcount := hcount r
    rcases hr with hr | hr
    · -- its first push as a message
      have hop := (pushed_perform h hr).resolve_left hold.1
      subst hop
      rcases hk.2 with hin | ⟨-, -, haw⟩
      · exact asMessage_push h (hA.not_mem_copies hin)
      · exact absurd haw hold.2
    · -- it has just been put on record
      have hop := (awaits_perform h hr).resolve_left hold.2
      subst hop
      have hone := (hC.once r hold.1).1
      rw [if_pos rfl, if_neg (by simp)] at hcount
      exact .of_not_mem (List.count_eq_zero.mp (by omega))
  · -- the push puts it on the queue; from there it is followed step by step
    rcases pushed_perform h hr with hold | rfl
    · have hlt := hi.queued r (.pushed _ hold)
      have hreq : (s.pdu r).IsRequest := by
        unfold Pdu.IsRequest at hreq ⊢
        rwa [commandId_perform h hlt] at hreq
      exact tracked_perform hH hg hm hk h hlt (hC.message r (.inl hold)) hreq (hC.tracked r hold hreq)
    · have hq : x.2.txQ = s.txQ.push r .MESSAGE := by cases h; rfl
      exact .inl (hq ▸ PrioQ.mem_push.mpr (.inr rfl))

/-- Moves that neither push a PDU nor take one off its way keep the requests conserved. -/
theorem Session.Conserved.mono (hC : s.Conserved) (hi : Inv s) (hq : s'.txQ = s.txQ)
    (hw : s'.w4rQ = s.w4rQ) (hfl : s'.inFlight.Perm s.inFlight)
    (hpdu : ∀ r, r < s.heap.length → s'.pdu r = s.pdu r) (hlog : ∀ e, e ∈ s.hist → e ∈ s'.hist)
    (hpush : ∀ r l, .pushed r l ∈ s'.hist → .pushed r l ∈ s.hist) : s'.Conserved := by
  have haw : ∀ r, s'.Awaits r → s.Awaits r := fun r ⟨k, e, he, hobj⟩ => ⟨k, e, hw ▸ he, hobj⟩
  have hcopies : s'.copies.Perm s.copies := by
    unfold copies
    rw [hq]
    exact hfl.append_left _
  refine ⟨fun r hr => ?_, fun r hr => ?_, fun r hr hreq => ?_⟩
  · obtain ⟨hone, hnot⟩ := hC.once r fun h => hr (hlog _ h)
    rw [hcopies.count_eq]
    exact ⟨hone, fun h hmem => hnot (haw r h) (hcopies.mem_iff.mp hmem)⟩
  · obtain ⟨hlevel, hback⟩ := hC.message r (hr.imp (hpush r _) (haw r))
    rw [← hq] at hlevel hback
    exact ⟨hlevel, fun hmem => hback (hfl.mem_iff.mp hmem)⟩
  · have hr := hpush r _ hr
    have hsame := hpdu r (hi.queued r (.pushed _ hr))
    rw [hsame] at hreq
    unfold Tracked OnRecord
    rw [hq, hw, hsame, hfl.mem_iff]
    exact (hC.tracked r hr hreq).imp_right (.imp_right (.imp_right (answered_mono hlog)))

/-- At the start nothing is pushed yet, and what was left by an earlier process waits once. -/
theorem conserved_init (p : Persisted) (now : Nat) : (Session.init p now).Conserved := by
  have hpush : ∀ r l, .pushed r l ∉ (Session.init p now).hist := fun r l hr => by
    simp [Session.init] at hr
  have haw : ∀ r, ¬(Session.init p now).Awaits r := by
    rintro r ⟨k, e, hk, -⟩
    have hempty : (∅ : AwaitingResponseMap)[k]? = some e := hk
    rw [Std.TreeMap.getElem?_emptyc] at hempty
    cases hempty
  have hcopies : (Session.init p now).copies = Persisted.refs 0 p.message := by
    show (Persisted.refs 0 p.message ++ []) ++ [] = _
    rw [List.append_nil, List.append_nil]
  refine ⟨fun r _ => ⟨?_, fun h => absurd h (haw r)⟩, fun r hr => ?_,
    fun r hr => absurd hr (hpush r _)⟩
  · rw [hcopies]
    exact List.nodup_iff_count.mp List.nodup_range' r
  · exact hr.elim (fun hr => absurd hr (hpush r _)) fun hr => absurd hr (haw r)

variable {p : Persisted} {now : Nat} {c : Machine}

/-- The requests are conserved in every run in which the session keeps track of its PDUs. -/
theorem Runs.conserved (h : Runs cfg keepsTrack p now c) : c.shared.Conserved := by
  have hground : ∀ c, Runs cfg keepsTrack p now c → c.shared.Grounds :=
    fun _ hc => hc.grounds fun _ _ _ hg => hg.1
  refine Runs.dataWith hground h (conserved_init p now) ?_ ?_ ?_
  · intro t op s x hi hG hC hg hm hk hx
    exact conserved_perform hi hG hC hg hm hk hx
  · intro e s s' hi _ hC hx
    exact hC.mono hi (env_same (f := .txQ) hx (by simp)) (env_same (f := .w4rQ) hx (by simp))
      (inFlight_env hx) (pdu_env hx).2 (fun e he => mem_hist_env hx he)
      fun r l hr => mem_hist_of_env hx hr nofun nofun
  · intro j s s' hi _ hquiet hC _ hx
    exact hC.mono hi (take_same (f := .txQ) hx (by simp)) (take_same (f := .w4rQ) hx (by simp))
      (inFlight_start hx hquiet) (fun r _ => (pdu_take hx).2 r) (fun e he => mem_hist_take hx he)
      fun r l hr => mem_hist_of_take hx hr nofun nofun

/-- **No message is lost inside the session**: in every run in which `handle_write` deals with its own
PDU and `w4rQ` finds under the number of a PDU that PDU only, every request that has been pushed as a
message is in the transmit queue, being written, awaiting its response, or a response with its number
has been processed. -/
theorem no_message_lost (h : Runs cfg keepsTrack p now c) {r : Ref}
    (hr : .pushed r .MESSAGE ∈ c.shared.hist) (hreq : (c.shared.pdu r).IsRequest) :
    c.shared.Accounted r :=
  (h.conserved.tracked r hr hreq).accounted

/-- A message that has been sent awaits its response. -/
theorem no_message_lost_first_send :
    (Machine.after sampleParams .none (Schedule.bind ++ Schedule.sendWritten 1)).shared.Accounted 1 :=
  no_message_lost (runs_under (g := keepsTrack) (by decide +kernel))
    (by decide +kernel) (by decide +kernel)

/-- Two messages are sent to a bound session, and then the write of the first one completes. -/
def firstOfTwoWritten : List Step :=
  Schedule.bind ++ Schedule.send ++ Schedule.send ++ Schedule.complete (.write 1) .none .success

/-- Without the condition a message is lost: it is the second PDU that `handle_write` puts on record,
and nothing is left of the first. -/
theorem first_of_two_lost : ¬∀ (cfg : Params) (p : Persisted) (now : Nat) (c : Machine),
    Runs cfg Guard.free p now c → ∀ r, .pushed r .MESSAGE ∈ c.shared.hist →
      (c.shared.pdu r).IsRequest → c.shared.Accounted r := by
  intro h
  have hacc := h _ _ _ _ (runs_after sampleParams .none firstOfTwoWritten) 1 (by decide +kernel)
    (by decide +kernel)
  rcases hacc with hq | hfl | haw | hr
  · exact absurd (PrioQ.mem_toList.mpr hq) (by decide +kernel)
  · exact absurd hfl (by decide +kernel)
  · exact absurd (mem_awaiting.mpr haw) (by decide +kernel)
  · exact absurd hr (by decide +kernel)

end KissSmpp
