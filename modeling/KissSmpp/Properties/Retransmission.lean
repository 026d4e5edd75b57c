import KissSmpp.Properties.OwnPdu

/-! # No retransmission after an answer

A request is put on record in its `handle_write`, and taken off it when its response has been read;
nothing orders the two handlers, and a request that has been queued again is not taken out of the queue
by its response. Where every response finds its request settled on record (`answersFindRecord`), a
request that has been answered is gone for good. -/

namespace KissSmpp

open Interleave Queue

variable {cfg : Params} {t : Tid} {s s' : Session} {r : Ref}

/-! ## Answers on record -/

/-- A response with this command id and number answers the request. -/
def Pdu.AnsweredBy (p : Pdu) (cmd seq : Nat) : Prop :=
  p.IsRequest ∧ cmd = p.commandId.value + 0x80000000 ∧ seq = p.sequenceNumber

/-- Whether a response answers a PDU is decidable. -/
instance (p : Pdu) (cmd seq : Nat) : Decidable (p.AnsweredBy cmd seq) :=
  inferInstanceAs (Decidable
    (p.IsRequest ∧ cmd = p.commandId.value + 0x80000000 ∧ seq = p.sequenceNumber))

/-- The PDU whose transmission the event records. -/
def Event.transmitted? : Event → Option Ref
  | .wrote r _ _ _ => some r
  | _ => none

/-- The PDU whose transmission the event records, if a response with this command id and number answers
what was transmitted. -/
def Event.answeredBy? (cmd seq : Nat) : Event → Option Ref
  | .wrote r tbuf _ _ => if tbuf.AnsweredBy cmd seq then some r else none
  | _ => none

/-- The transmitted requests that a response with this command id and number answers. -/
def answeredBy (cmd seq : Nat) (hist : List Event) : List Ref :=
  hist.filterMap (Event.answeredBy? cmd seq)

/-- **The requests that have been answered**: transmitted, and after that a response that answers what
was transmitted has been processed. -/
def answeredRequests : List Event → List Ref
  | [] => []
  | .response cmd seq :: hist => answeredBy cmd seq hist ++ answeredRequests hist
  | _ :: hist => answeredRequests hist

/-- **The request has been transmitted again** after it had been answered. -/
def Retransmitted (r : Ref) : List Event → Prop
  | [] => False
  | e :: hist => (e.transmitted? = some r ∧ r ∈ answeredRequests hist) ∨ Retransmitted r hist

/-- Other events answer nothing. -/
theorem answeredRequests_append {l hist : List Event} (hl : ∀ cmd seq, .response cmd seq ∉ l) :
    answeredRequests (l ++ hist) = answeredRequests hist := by
  induction l with
  | nil => rfl
  | cons e l ih =>
      have ih := ih fun cmd seq h => hl cmd seq (List.mem_cons_of_mem _ h)
      cases e with
      | response cmd seq => exact absurd List.mem_cons_self (hl cmd seq)
      | _ => exact ih

/-- Other events transmit nothing. -/
theorem retransmitted_append {l hist : List Event} (hl : ∀ e ∈ l, e.transmitted? ≠ some r)
    (h : Retransmitted r (l ++ hist)) : Retransmitted r hist := by
  induction l with
  | nil => exact h
  | cons e l ih =>
      rcases h with ⟨he, -⟩ | h
      · exact absurd he (hl e List.mem_cons_self)
      · exact ih (fun e he => hl e (List.mem_cons_of_mem _ he)) h

/-- What has been answered has been transmitted. -/
theorem wrote_of_answered {hist : List Event} (h : r ∈ answeredRequests hist) :
    ∃ tbuf st conn, .wrote r tbuf st conn ∈ hist := by
  induction hist with
  | nil => cases h
  | cons e hist ih =>
      have hold : r ∈ answeredRequests hist → ∃ tbuf st conn, .wrote r tbuf st conn ∈ e :: hist :=
        fun h => by
          obtain ⟨tbuf, st, conn, hw⟩ := ih h
          exact ⟨tbuf, st, conn, List.mem_cons_of_mem _ hw⟩
      cases e with
      | response cmd seq =>
          rcases List.mem_append.mp h with h | h
          · obtain ⟨e, he, hr⟩ := List.mem_filterMap.mp h
            cases e with
            | wrote q tbuf st conn =>
                have hr : (if tbuf.AnsweredBy cmd seq then some q else none) = some r := hr
                rw [Option.ite_none_right_eq_some, Option.some.injEq] at hr
                exact ⟨tbuf, st, conn, hr.2 ▸ List.mem_cons_of_mem _ he⟩
            | _ => cases hr
          · exact hold h
      | _ => exact hold h

/-! ## The condition -/

namespace Session

/-- **The request is settled under the number**: it is not on its way, and is found in `w4rQ`, if at
all, under this number. -/
def SettledUnder (s : Session) (seq : Nat) (r : Ref) : Prop :=
  (r ∉ s.txQ.toList ∧ r ∉ s.inFlight) ∧ ∀ e ∈ s.w4rQ.toList, e.2.obj = r → e.1 = seq

/-- Whether a request is settled under a number can be read off the queues. -/
instance (s : Session) (seq : Nat) (r : Ref) : Decidable (s.SettledUnder seq r) :=
  inferInstanceAs (Decidable
    ((r ∉ s.txQ.toList ∧ r ∉ s.inFlight) ∧ ∀ e ∈ s.w4rQ.toList, e.2.obj = r → e.1 = seq))

/-- **What has been answered is gone**: it is not on its way and does not await a response, and has not
been transmitted again. -/
structure Answered (s : Session) : Prop where
  gone : ∀ r, r ∈ answeredRequests s.hist → ¬s.OnWay r ∧ ¬s.Awaits r
  log : ∀ r, ¬Retransmitted r s.hist

end Session

open Session

/-- The response an operation processes. -/
def Op.answer? : Op → Option (Nat × Nat)
  | .w4rAnswer cmd seq => some (cmd, seq)
  | _ => none

/-- **Answers find their requests on record**: `handle_write` deals with its own PDU, and when a response
is processed the requests it answers have been dealt with by theirs, and have not been queued again. -/
def answersFindRecord : Guard Op Tid Session Job where
  op t op s :=
    handlesOwn.op t op s ∧
      ∀ a ∈ op.answer?, ∀ r ∈ answeredBy a.1 a.2 s.hist, s.SettledUnder a.2 r
  job _ _ := True

/-- The guard can be evaluated. -/
instance : answersFindRecord.Checkable where
  op t op s := inferInstanceAs (Decidable
    ((AsksLastPop t op → s.LastPopOwn) ∧
      ∀ a ∈ op.answer?, ∀ r ∈ answeredBy a.1 a.2 s.hist, s.SettledUnder a.2 r))
  job _ _ := inferInstanceAs (Decidable True)

/-! ## Runs -/

/-- A request has been answered before, or is answered by the response that is processed now. -/
theorem answered_perform {op : Op} {x : op.Res × Session} (h : perform cfg t op s = some x)
    (hr : r ∈ answeredRequests x.2.hist) :
    r ∈ answeredRequests s.hist ∨ ∃ cmd seq, op = .w4rAnswer cmd seq ∧ r ∈ answeredBy cmd seq s.hist := by
  rw [perform_hist h] at hr
  by_cases hop : ∃ cmd seq, op = .w4rAnswer cmd seq
  · obtain ⟨cmd, seq, rfl⟩ := hop
    rcases List.mem_append.mp hr with hr | hr
    · exact .inr ⟨cmd, seq, rfl, hr⟩
    · exact .inl hr
  · rw [answeredRequests_append] at hr
    · exact .inl hr
    · intro cmd seq hmem
      cases op <;> simp at hmem
      exact hop ⟨_, _, rfl⟩

/-- **What has been answered does not come back.** -/
theorem gone_perform {op : Op} {x : op.Res × Session} (hI : s.Grounds)
    (hg : handlesOwn.op t op s) (hm : op.mayRun t = true) (hk : Known t op s)
    (h : perform cfg t op s = some x) (hr : r ∈ answeredRequests s.hist)
    (hgone : ¬s.OnWay r ∧ ¬s.Awaits r) : ¬x.2.OnWay r ∧ ¬x.2.Awaits r := by
  obtain ⟨hway, haw⟩ := hgone
  have hhandling : s.handling ≠ some r := fun hh => hway (.inr (mem_inFlight.mpr (.inr (.inr hh))))
  refine ⟨fun hway' => ?_, fun haw' => ?_⟩
  · rcases hway' with hq | hfl
    · rcases mem_txQ_perform h hq with hq | ⟨l, rfl⟩ | ⟨rfl, hslot⟩
      · exact hway (.inl hq)
      · -- only a PDU in hand is pushed that does not await a response, and this one has been written
        rcases hk.2 with hin | ⟨-, -, haw'⟩
        · obtain ⟨tbuf, st, conn, hw⟩ := wrote_of_answered hr
          exact hI.apart.queue r (.inl ⟨t, hin⟩) (.wrote tbuf st conn hw)
        · exact haw haw'
      · exact hhandling ((handling_of_txPushBackLastPop hg hk).trans hslot)
    · rcases mem_inFlight_perform h hk hfl with hfl | ⟨-, hpop⟩
      · exact hway (.inr hfl)
      · exact hway (.inl (PrioQ.mem_iff_pop.mpr (.inl hpop)))
  · rcases awaits_perform h haw' with haw' | rfl
    · exact haw haw'
    · exact hhandling (handling_of_w4rInsert hI.own hg hm hk)

/-- **A response that finds its request settled takes it off the record.** -/
theorem gone_of_answer {cmd seq : Nat} {x : Unit × Session}
    (h : perform cfg t (.w4rAnswer cmd seq) s = some x) (hs : s.SettledUnder seq r) :
    ¬x.2.OnWay r ∧ ¬x.2.Awaits r := by
  obtain ⟨⟨hq, hfl⟩, hkey⟩ := hs
  cases h
  refine ⟨fun hway => ?_, fun haw => ?_⟩
  · rcases hway with hmem | hmem
    · exact hq (PrioQ.mem_toList.mpr hmem)
    · exact hfl hmem
  · obtain ⟨k, e, he, hobj⟩ := haw
    have he : (s.w4rQ.erase seq)[k]? = some e := he
    rw [getElem?_erase] at he
    split at he
    · cases he
    · next hne =>
        exact hne (hkey (k, e) (Std.TreeMap.mem_toList_iff_getElem?_eq_some.mpr he) hobj).symm

/-- **Every operation keeps what has been answered gone.** -/
theorem answeredGone_perform {op : Op} {x : op.Res × Session} (hI : s.Grounds)
    (hG : s.Answered) (hg : answersFindRecord.op t op s) (hm : op.mayRun t = true)
    (hk : Known t op s) (h : perform cfg t op s = some x) : x.2.Answered := by
  refine ⟨fun r hr => ?_, fun r hr => ?_⟩
  · rcases answered_perform h hr with hr | ⟨cmd, seq, rfl, hans⟩
    · exact gone_perform hI hg.1 hm hk h hr (hG.gone r hr)
    · exact gone_of_answer h (hg.2 _ rfl r hans)
  · rw [perform_hist h] at hr
    by_cases hop : ∃ tbuf, op = .asyncWrite r tbuf
    · obtain ⟨tbuf, rfl⟩ := hop
      rcases hr with ⟨-, hr⟩ | hr
      · exact (hG.gone r hr).1 (.inr (mem_inFlight.mpr (.inl ⟨t, hk.2.1⟩)))
      · exact hG.log r hr
    · refine hG.log r (retransmitted_append (fun e he htr => ?_) hr)
      cases op <;> simp at he
      all_goals first
        | (subst he; cases htr; exact hop ⟨_, rfl⟩)
        | (subst he; cases htr)

/-- Moves that leave the PDUs where they are, and neither transmit nor answer, keep it so. -/
theorem Session.Answered.mono (hG : s.Answered) (hq : s'.txQ = s.txQ) (hw : s'.w4rQ = s.w4rQ)
    (hfl : s'.inFlight.Perm s.inFlight) {l : List Event} (hlog : s'.hist = l ++ s.hist)
    (hl : ∀ e ∈ l, e.transmitted? = none ∧ ∀ cmd seq, e ≠ .response cmd seq) : s'.Answered := by
  refine ⟨fun r hr => ?_, fun r hr => ?_⟩
  · rw [hlog, answeredRequests_append fun cmd seq h => (hl _ h).2 cmd seq rfl] at hr
    obtain ⟨hway, haw⟩ := hG.gone r hr
    refine ⟨fun hway' => hway ?_, fun ⟨k, e, he, hobj⟩ => haw ⟨k, e, hw ▸ he, hobj⟩⟩
    exact hway'.imp (fun h => hq ▸ h) hfl.mem_iff.mp
  · rw [hlog] at hr
    refine hG.log r (retransmitted_append (fun e he htr => ?_) hr)
    rw [(hl e he).1] at htr
    cases htr

variable {p : Persisted} {now : Nat} {c : Machine}

/-- What has been answered is gone in every such run. -/
theorem Runs.answered (h : Runs cfg answersFindRecord p now c) : c.shared.Answered := by
  have hground : ∀ c, Runs cfg answersFindRecord p now c → c.shared.Grounds :=
    fun _ hc => hc.grounds fun _ _ _ hg => hg.1
  -- the start, then an operation, a move of the environment, and the start of a job
  refine Runs.dataWith hground h ?_ ?_ ?_ ?_
  · refine ⟨fun r hr => absurd hr List.not_mem_nil, fun r hr => ?_⟩
    rcases hr with ⟨hr, -⟩ | hr
    · cases hr
    · exact hr
  · intro t op s x _ hI hG hg hm hk hx
    exact answeredGone_perform hI hG hg hm hk hx
  · intro e s s' _ _ hG hx
    refine hG.mono (env_same (f := .txQ) hx (by simp)) (env_same (f := .w4rQ) hx (by simp))
      (inFlight_env hx) (env_hist hx) fun ev hev => ?_
    rcases mem_env_logs hev with rfl | rfl
    · exact ⟨rfl, nofun⟩
    · exact ⟨rfl, nofun⟩
  · intro j s s' _ _ hquiet hG _ hx
    refine hG.mono (take_same (f := .txQ) hx (by simp)) (take_same (f := .w4rQ) hx (by simp))
      (inFlight_start hx hquiet) (take_hist hx) fun ev hev => ?_
    rcases mem_job_logs hev with ⟨q, -, rfl⟩ | ⟨-, rfl⟩
    · exact ⟨rfl, nofun⟩
    · exact ⟨rfl, nofun⟩

/-- **No retransmission after an answer**: in every run in which responses find their requests settled
on record, a request that has been answered does not await a response, and has not been transmitted
again. -/
theorem answered_for_good (h : Runs cfg answersFindRecord p now c) :
    (∀ r ∈ answeredRequests c.shared.hist, ¬c.shared.Awaits r) ∧
      ∀ r, ¬Retransmitted r c.shared.hist :=
  ⟨fun r hr => (h.answered.gone r hr).2, h.answered.log⟩

/-- The response to a message: PDU `1` goes out with the number `3`. -/
def submitSmResp : List Step := Schedule.receive (Schedule.response .SubmitSmResp 3)

/-- A message is sent, its write completes, and then its response is read. -/
def answeredInOrder : List Step := Schedule.bind ++ Schedule.sendWritten 1 ++ submitSmResp

/-- A message that is answered after its `handle_write`. -/
theorem answered_for_good_in_order :
    1 ∈ answeredRequests (Machine.after sampleParams .none answeredInOrder).shared.hist ∧
      (∀ r ∈ answeredRequests (Machine.after sampleParams .none answeredInOrder).shared.hist,
        ¬(Machine.after sampleParams .none answeredInOrder).shared.Awaits r) ∧
      ∀ r, ¬Retransmitted r (Machine.after sampleParams .none answeredInOrder).shared.hist :=
  ⟨by decide +kernel,
    answered_for_good (runs_under (g := answersFindRecord) (by decide +kernel))⟩

/-- The response to a message is read before the `handle_write` of the message runs. -/
def answeredEarly : List Step :=
  Schedule.bind ++ Schedule.send ++ submitSmResp ++ Schedule.complete (.write 1) .none .success

/-- Without the condition the answered message is put on record, to be sent again when it has aged. -/
theorem answered_still_awaits : ¬∀ (cfg : Params) (p : Persisted) (now : Nat) (c : Machine),
    Runs cfg Guard.free p now c → (∀ r ∈ answeredRequests c.shared.hist, ¬c.shared.Awaits r) ∧
      ∀ r, ¬Retransmitted r c.shared.hist := by
  intro h
  have hgone := (h _ _ _ _ (runs_after sampleParams .none answeredEarly)).1 1 (by decide +kernel)
  exact hgone (mem_awaiting.mp (by decide +kernel))

end KissSmpp
