import KissSmpp.Session.Lanes
import KissSmpp.Session.Observed
import KissSmpp.Properties.Wire

/-! # What is sent more than once

A PDU is handed to `async_write` once, unless it is given to the transmit queue again: `handle_write` puts one back
after a failed write, and the ageing sweep pushes those that have waited too long for a response. `sent_for_a_cause`
counts: there is no transmission beyond the first without one of the two, whichever threads push and pop. -/

namespace KissSmpp

open Interleave Session

variable {cfg : Params} {t : Tid} {s s' : Session} {p : Persisted} {now : Nat} {l : List Ref}

/-! ## What is observed -/

/-- The io thread runs the ageing sweep. -/
def Session.inSweep (s : Session) : Bool :=
  match s.running with
  | some (.w4rQAgeCleanup _) => true
  | _ => false

/-- What is observed: the PDU that `push_back_last_pop` puts back, or that the ageing sweep pushes. -/
def requeued? (t : Tid) : (op : Op) → Session → op.Res → Option Ref
  | .txPushBackLastPop, s, _ => s.slot
  | .txPush r _, s, _ => if t = .io ∧ s.inSweep then some r else none
  | _, _, _ => none

/-! ## How often a PDU is there -/

/-- The PDUs that the threads have in hand. -/
def Session.inHands (s : Session) : List Ref := Tid.all.filterMap s.inHand

/-- **How often a PDU has been handed to `async_write`, or still may be**: it is in the sending buffer, in the hands
of a thread, in the transmit queue, or popped. -/
def Session.occurrences (s : Session) (r : Ref) : Nat :=
  s.written.count r + s.popped.count r + s.txQ.toList.count r + s.sendingBuffer.count r + s.inHands.count r

/-- A PDU of which there are copies is an object. -/
theorem lt_of_occurrences (hi : Inv s) {r : Ref} (h : s.occurrences r ≠ 0) : r < s.heap.length := by
  have hmem : r ∈ s.written ∨ r ∈ s.popped ∨ r ∈ s.txQ.toList ∨ r ∈ s.sendingBuffer ∨ r ∈ s.inHands := by
    by_contra hnot
    simp only [not_or, ← List.count_eq_zero] at hnot
    exact h (by unfold Session.occurrences; omega)
  rcases hmem with hr | hr | hr | hr | hr
  · obtain ⟨tbuf, st, conn, hev⟩ := mem_written.mp hr
    exact hi.queued r (.wrote tbuf st conn hev)
  · exact hi.queued r (.flight (List.mem_append_left _ hr))
  · exact hi.queued r (.waiting (Queue.PrioQ.mem_toList.mp hr))
  · exact hi.fresh r (.inr hr)
  · obtain ⟨u, -, hu⟩ := List.mem_filterMap.mp hr
    exact hi.fresh r (.inl ⟨u, hu⟩)

/-- A PDU about to be constructed is nowhere. -/
theorem occurrences_heap (hi : Inv s) : s.occurrences s.heap.length = 0 := by
  by_contra h
  exact Nat.lt_irrefl _ (lt_of_occurrences hi h)

/-- What a thread has in hand is among what the threads have in hand. -/
theorem inHands_split (t : Tid) (s : Session) :
    s.inHands.Perm ((s.inHand t).toList ++ Tid.all.filterMap (Function.update s.inHand t none)) := by
  have hperm := filterMap_update_perm (l := Tid.all) (by decide) (Tid.mem_all t)
    (f := Function.update s.inHand t none) (Function.update_self ..) (s.inHand t)
  rwa [Function.update_idem, Function.update_eq_self] at hperm

/-- A thread takes something else in hand. -/
theorem inHands_update {v : Option Ref} (h : s'.inHand = Function.update s.inHand t v) :
    s'.inHands.Perm (v.toList ++ Tid.all.filterMap (Function.update s.inHand t none)) := by
  have hperm := filterMap_update_perm (l := Tid.all) (by decide) (Tid.mem_all t)
    (f := Function.update s.inHand t none) (Function.update_self ..) v
  rw [Function.update_idem, ← h] at hperm
  exact hperm

/-! ## What operations do -/

/-- What the ageing sweep pushes is pushed while it runs. -/
theorem inSweep_of_push {r : Ref} (h : s.InJob .io (.txPush r .MESSAGE)) : s.inSweep = true := by
  obtain ⟨q, hrun, huses⟩ := h.handler
  unfold Session.inSweep
  rw [hrun]
  cases q with
  | w4rQAgeCleanup e => rfl
  | _ => cases huses

/-- **A PDU is pushed**: a thread has it in hand, or it is one that is given to the queue again. -/
theorem occurrences_txPush {q : Ref} {i : Level} {y : Unit × Session} (hk : Known t (.txPush q i) s)
    (hjob : s.InJob t (.txPush q i)) (h : perform cfg t (.txPush q i) s = some y) (r : Ref) :
    y.2.occurrences r ≤ s.occurrences r + (requeued? t (.txPush q i) s y.1).toList.count r := by
  have hwritten := written_same h fun _ _ heq => by cases heq
  have hpopped : y.2.popped = s.popped := by cases h; rfl
  have htxQ : y.2.txQ.toList.Perm (q :: s.txQ.toList) := by cases h; exact s.txQ.toList_push q i
  have hsending : y.2.sendingBuffer = s.sendingBuffer := by cases h; rfl
  have hhand : y.2.inHand = Function.update s.inHand t none := by cases h; rfl
  have hleft := (inHands_update hhand).count_eq r
  have hheld := (inHands_split t s).count_eq r
  have hpush : (s.inHand t).toList.count r + (requeued? t (.txPush q i) s y.1).toList.count r ≥ [q].count r := by
    rcases hk.2 with hq | ⟨rfl, rfl, -⟩
    · rw [hq]
      exact Nat.le_add_right _ _
    · have hnote : requeued? .io (.txPush q .MESSAGE) s y.1 = some q := if_pos ⟨rfl, inSweep_of_push hjob⟩
      rw [hnote]
      exact Nat.le_add_left _ _
  unfold Session.occurrences
  rw [hwritten, hpopped, hsending, htxQ.count_eq, hleft, hheld]
  simp only [List.count_append, List.count_cons, List.count_nil, Option.toList_none] at hpush ⊢
  omega

/-- **A PDU is popped.** -/
theorem occurrences_txPop {y : Option Ref × Session} (hk : Known t .txPop s) (h : perform cfg t .txPop s = some y)
    (r : Ref) : y.2.occurrences r = s.occurrences r := by
  have hwritten := written_same h fun _ _ heq => by cases heq
  have hpopped : y.2.popped.Perm (s.txQ.pop.1.toList ++ s.popped) := by
    cases h
    exact filterMap_update_perm (by decide) (Tid.mem_all t) hk.2.1 _
  have htxQ := s.txQ.toList_pop.count_eq r
  have hrest : y.2.txQ = s.txQ.pop.2 := by cases h; rfl
  have hsending : y.2.sendingBuffer = s.sendingBuffer := by cases h; rfl
  have hhands : y.2.inHands = s.inHands := by cases h; rfl
  unfold Session.occurrences
  rw [hwritten, hpopped.count_eq, htxQ, hrest, hsending, hhands]
  simp only [List.count_append]
  omega

/-- **A PDU handed to `async_write`** is where it was: in flight. -/
theorem occurrences_asyncWrite {q : Ref} {tbuf : Pdu} {y : Unit × Session} (hk : Known t (.asyncWrite q tbuf) s)
    (h : perform cfg t (.asyncWrite q tbuf) s = some y) (r : Ref) : y.2.occurrences r = s.occurrences r := by
  have hwritten : y.2.written = q :: s.written := written_perform h
  have hpopped : s.popped.Perm (q :: y.2.popped) := by
    have hperm := filterMap_update_perm (l := Tid.all) (by decide) (Tid.mem_all t)
      (f := Function.update s.pdu2send t none) (Function.update_self ..) (some q)
    have hq : s.pdu2send t = some q := hk.2.1
    rw [Function.update_idem, ← hq, Function.update_eq_self, hq] at hperm
    have hrest : y.2.pdu2send = Function.update s.pdu2send t none := by
      cases h
      exact Session.startIo_same (f := .pdu2send) _ (by decide)
    unfold Session.popped
    rw [hrest]
    exact hperm
  have htxQ : y.2.txQ = s.txQ := perform_same (f := .txQ) h (by simp)
  have hsending : y.2.sendingBuffer = s.sendingBuffer := perform_same (f := .sendingBuffer) h (by simp)
  have hhand : y.2.inHand = s.inHand := perform_same (f := .inHand) h (by simp)
  unfold Session.occurrences Session.inHands
  rw [hwritten, hpopped.count_eq, htxQ, hsending, hhand]
  simp only [List.count_cons]
  omega

/-- **A level is cleared, or a PDU is put back.** -/
theorem occurrences_txQ {op : Op} {y : op.Res × Session} (added : List Ref) (h : perform cfg t op s = some y)
    (hwrites : Field.pdu2send ∉ op.writes ∧ Field.sendingBuffer ∉ op.writes ∧ Field.inHand ∉ op.writes)
    (hop : ∀ q tbuf, op ≠ .asyncWrite q tbuf) (r : Ref)
    (htxQ : y.2.txQ.toList.count r ≤ s.txQ.toList.count r + added.count r) :
    y.2.occurrences r ≤ s.occurrences r + added.count r := by
  have hpdu2send : y.2.pdu2send = s.pdu2send := perform_same (f := .pdu2send) h hwrites.1
  have hsending : y.2.sendingBuffer = s.sendingBuffer := perform_same (f := .sendingBuffer) h hwrites.2.1
  have hhand : y.2.inHand = s.inHand := perform_same (f := .inHand) h hwrites.2.2
  unfold Session.occurrences Session.inHands Session.popped
  rw [written_same h hop, hpdu2send, hsending, hhand]
  omega

/-- **A thread takes something in hand**, what it has not had before is new or comes from the sending buffer. -/
theorem occurrences_hand {op : Op} {y : op.Res × Session} {v : Option Ref} (added : List Ref)
    (h : perform cfg t op s = some y) (hwrites : Field.pdu2send ∉ op.writes ∧ Field.txQ ∉ op.writes)
    (hop : ∀ q tbuf, op ≠ .asyncWrite q tbuf) (hhand : y.2.inHand = Function.update s.inHand t v) (r : Ref)
    (hsending : y.2.sendingBuffer.count r + v.toList.count r ≤ s.sendingBuffer.count r + added.count r) :
    y.2.occurrences r ≤ s.occurrences r + added.count r := by
  have hpdu2send : y.2.pdu2send = s.pdu2send := perform_same (f := .pdu2send) h hwrites.1
  have htxQ : y.2.txQ = s.txQ := perform_same (f := .txQ) h hwrites.2
  have hleft := (inHands_update hhand).count_eq r
  have hheld := (inHands_split t s).count_eq r
  unfold Session.occurrences Session.popped
  rw [written_same h hop, hpdu2send, htxQ, hleft, hheld]
  simp only [List.count_append]
  omega

/-- **Every operation accounts for the copies it makes**: of a PDU that is not new there is one more at the most if
it is given to the queue again. -/
theorem occurrences_perform {op : Op} {y : op.Res × Session} (hi : Inv s) (hg : (known cfg Guard.free).op t op s)
    (h : perform cfg t op s = some y) (r : Ref) (hr : l.count r + 1 ≥ s.occurrences r) :
    y.2.occurrences r ≤ 1 + ((requeued? t op s y.1).toList ++ l).count r := by
  have hk := known_known hg
  rw [List.count_append]
  -- only a push by the sweep and `push_back_last_pop` add a copy; the rest moves copies about
  cases op with
  | txPush q i =>
      have hstep := occurrences_txPush hk (known_inJob hg) h r
      omega
  | txPop =>
      have hstep := occurrences_txPop hk h r
      omega
  | asyncWrite q tbuf =>
      have hstep := occurrences_asyncWrite hk h r
      omega
  | txClear i =>
      have htxQ := (s.txQ.toList_clear i).count_eq r
      rw [List.count_append] at htxQ
      have hrest : y.2.txQ = s.txQ.clear i := by cases h; rfl
      have hstep := occurrences_txQ [] h (by simp) (fun _ _ heq => by cases heq) r (by rw [hrest]; simp; omega)
      simp at hstep
      omega
  | txPushBackLastPop =>
      have htxQ := (s.txQ.toList_pushBackLastPop cfg.pushBackFront).count_eq r
      rw [List.count_append] at htxQ
      have hrest : y.2.txQ = s.txQ.pushBackLastPop cfg.pushBackFront := by cases h; rfl
      have hstep := occurrences_txQ s.slot.toList h (by simp) (fun _ _ heq => by cases heq) r
        (by rw [hrest, htxQ, Nat.add_comm]; exact Nat.le_refl _)
      have hnote : requeued? t .txPushBackLastPop s y.1 = s.slot := rfl
      rw [hnote]
      omega
  | newPdu q =>
      have hstep := occurrences_hand (v := some s.heap.length) [s.heap.length] h (by simp)
        (fun _ _ heq => by cases heq) (by cases h; rfl) r (by cases h; exact Nat.le_refl _)
      -- the new object has had no copy before
      by_cases hnew : r = s.heap.length
      · subst hnew
        have hnone := occurrences_heap hi
        simp at hstep
        omega
      · have hold : [s.heap.length].count r = 0 := List.count_eq_zero.mpr (by simpa using hnew)
        omega
  | sendPop =>
      have hbuf : y.2.sendingBuffer = s.sendingBuffer.tail := by cases h; rfl
      have hsplit : s.sendingBuffer.head?.toList ++ s.sendingBuffer.tail = s.sendingBuffer := by
        cases s.sendingBuffer <;> rfl
      have hstep := occurrences_hand [] h (by simp) (fun _ _ heq => by cases heq) (by cases h; rfl) r
        (by rw [hbuf]; conv_rhs => rw [← hsplit]
            simp only [List.count_append, List.count_nil]; omega)
      simp at hstep
      omega
  | sendDone =>
      have hstep := occurrences_hand [] h (by simp) (fun _ _ heq => by cases heq) (by cases h; rfl) r
        (by cases h; exact Nat.le_refl _)
      simp at hstep
      omega
  | _ =>
      have hstep := occurrences_txQ [] h (by simp) (fun _ _ heq => by cases heq) r
        (by rw [perform_same (f := .txQ) h (by simp)]; exact Nat.le_refl _)
      simp at hstep
      omega

/-- Where nothing is performed there are as many copies as before, except of a new submission. -/
theorem occurrences_env {e : Env} (hi : Inv s) (h : e.perform cfg s = some s') (r : Ref) :
    s'.occurrences r ≤ max 1 (s.occurrences r) := by
  have hpdu2send : s'.pdu2send = s.pdu2send := env_same (f := .pdu2send) h (by simp)
  have htxQ : s'.txQ = s.txQ := env_same (f := .txQ) h (by simp)
  have hhand : s'.inHand = s.inHand := env_same (f := .inHand) h (by simp)
  have hcount : s'.occurrences r + s.sendingBuffer.count r = s.occurrences r + s'.sendingBuffer.count r := by
    unfold Session.occurrences Session.inHands Session.popped
    rw [written_env h, hpdu2send, htxQ, hhand]
    omega
  cases e with
  | submit body =>
      have hbuf : s'.sendingBuffer = s.sendingBuffer ++ [s.heap.length] := by cases h; rfl
      rw [hbuf, List.count_append] at hcount
      -- only the submitted PDU gets a copy, its first
      by_cases hnew : r = s.heap.length
      · subst hnew
        have hnone := occurrences_heap hi
        simp at hcount
        omega
      · have hold : [s.heap.length].count r = 0 := List.count_eq_zero.mpr (by simpa using hnew)
        omega
  | complete io raw er =>
      obtain ⟨-, rfl⟩ := Env.perform_complete h
      have hbuf : (({ s with pending := s.pending.erase io }.connectDone io er).enqueue
          (io.handler raw er)).sendingBuffer = s.sendingBuffer := by
        unfold Session.connectDone
        split <;> rfl
      rw [hbuf] at hcount
      omega
  | expire tm =>
      obtain ⟨-, rfl⟩ := Env.perform_expire h
      have hbuf : ({ s with armed := Function.update s.armed tm false }.enqueue
          (tm.handler .success)).sendingBuffer = s.sendingBuffer := rfl
      rw [hbuf] at hcount
      omega
  | elapse us => cases h; exact Nat.le_max_right _ _
  | reply a => cases h; exact Nat.le_max_right _ _

/-- A job that starts makes no copies. -/
theorem occurrences_take {j : Job} (h : j.take s = some s') (r : Ref) : s'.occurrences r = s.occurrences r := by
  have hpdu2send : s'.pdu2send = s.pdu2send := take_same (f := .pdu2send) h (by simp)
  have htxQ : s'.txQ = s.txQ := take_same (f := .txQ) h (by simp)
  have hsending : s'.sendingBuffer = s.sendingBuffer := take_same (f := .sendingBuffer) h (by simp)
  have hhand : s'.inHand = s.inHand := take_same (f := .inHand) h (by simp)
  unfold Session.occurrences Session.inHands Session.popped
  rw [written_take h, hpdu2send, htxQ, hsending, hhand]

/-- What an earlier process has left is there once. -/
theorem occurrences_init (p : Persisted) (now : Nat) (r : Ref) : (Session.init p now).occurrences r ≤ 1 := by
  have htxQ : (Session.init p now).txQ.toList = Persisted.refs 0 p.message := by
    show [] ++ ([] ++ (Persisted.refs 0 p.message ++ [])) = _
    simp
  have hall : (Session.init p now).occurrences r =
      (List.range' 0 p.message.length ++ List.range' p.message.length p.sending.length).count r := by
    unfold Session.occurrences
    rw [htxQ, List.count_append]
    show 0 + 0 + _ + _ + 0 = _
    rw [Nat.add_zero, Nat.add_zero, Nat.zero_add]
    rfl
  have hrange : List.range' 0 p.message.length ++ List.range' p.message.length p.sending.length =
      List.range' 0 (p.message.length + p.sending.length) := by
    have happend := List.range'_append_1 (s := 0) (m := p.message.length) (n := p.sending.length)
    rwa [Nat.zero_add] at happend
  rw [hall, hrange]
  exact List.nodup_iff_count_le_one.mp List.nodup_range' r

/-! ## The result -/

/-- **Nothing is sent twice without a cause**: in every run a PDU is handed to `async_write` once, and once more for
each time that it has been put back after a failed write or pushed by the ageing sweep, at the most. -/
theorem sent_for_a_cause {c : Machine} (h : ObservedRuns requeued? cfg p now c l) (r : Ref) :
    c.shared.written.count r ≤ 1 + l.count r := by
  have hoccurrences : c.shared.occurrences r ≤ 1 + l.count r := by
    refine h.data (J := Inv) (K := fun s l => s.occurrences r ≤ 1 + l.count r) (fun c hc => hc.inv)
      (occurrences_init p now r) ?_ ?_ ?_
    · intro t op s l y hi hK hg hx
      exact occurrences_perform hi hg hx r (Nat.add_comm 1 _ ▸ hK)
    · intro e s s' l hi hK hx
      have hstep := occurrences_env hi hx r
      omega
    · intro j s s' l hi hK hx
      exact (occurrences_take hx r).symm ▸ hK
  refine Nat.le_trans ?_ hoccurrences
  unfold Session.occurrences
  omega

/-- The message that is sent again after half a minute is sent twice for one cause. -/
theorem sent_for_a_cause_sentAgain :
    (Machine.record requeued? sampleParams .none Schedule.sentAgain).shared.2 = [1] ∧
      (Machine.record requeued? sampleParams .none Schedule.sentAgain).forget.shared.written.count 1 = 2 ∧
      (Machine.record requeued? sampleParams .none Schedule.sentAgain).forget.shared.written.count 1 ≤
        1 + (Machine.record requeued? sampleParams .none Schedule.sentAgain).shared.2.count 1 :=
  ⟨by decide +kernel, by decide +kernel, sent_for_a_cause (observedRuns_record Schedule.sentAgain) 1⟩

end KissSmpp
