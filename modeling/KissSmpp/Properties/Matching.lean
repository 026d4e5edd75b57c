import KissSmpp.Session.Alone
import KissSmpp.Session.Flight

/-! # Which entry of `w4rQ` a PDU from the peer removes

`w4rQ_pop` goes by the sequence number alone. Whether the PDU answers the kind of request that is stored
under that number is not looked at. -/

namespace KissSmpp

open Interleave

variable {cfg : Params} {s : Session} {raw : RawPdu}

/-- The top bit of a command id, which tells the responses from the requests. -/
def CommandId.respBit : Nat := 0x80000000

/-- The PDU is a `generic_nack`, or it is of the response type of the request stored under its number. -/
def Session.Answers (s : Session) (raw : RawPdu) : Prop :=
  ∃ e, s.w4rQ[raw.seqNum]? = some e ∧
    (raw.cmdId = CommandId.GenericNack.value ∨
      raw.cmdId = (s.pdu e.obj).commandId.value + CommandId.respBit)

variable (cfg) in
/-- `w4rQ_pop` of a PDU whose command id is above that of `generic_nack`. -/
theorem ends_w4rQPop (hf : s.fault = none) (hfree : s.owner .w4rQMutex = none)
    (hresp : CommandId.GenericNack.value < raw.cmdId) :
    (w4rQPop raw).Ends (exec cfg .io)
      (fun _ s' => s'.w4rQ = s.w4rQ.erase raw.seqNum ∧ s'.heap = s.heap) s := by
  unfold w4rQPop
  rw [decide_eq_true hresp, Prog.when_true]
  exact ends_call hf (if_pos hfree) (ends_call hf rfl (ends_call hf rfl (.ret ⟨rfl, rfl⟩)))

variable (cfg) in
/-- `w4rQ_pop` of any other PDU. -/
theorem ends_w4rQPop_request (hreq : ¬CommandId.GenericNack.value < raw.cmdId) :
    (w4rQPop raw).Ends (exec cfg .io) (fun _ s' => s' = s) s := by
  unfold w4rQPop
  rw [decide_eq_false hreq, Prog.when_false]
  exact .ret rfl

/-- **A response removes the entry under its number, whatever request is stored there, and only that
entry; a request removes none.** -/
theorem responses_match_by_number (hf : s.fault = none) (hfree : s.owner .w4rQMutex = none) :
    (w4rQPop raw).Ends (exec cfg .io) (fun _ s' =>
      (CommandId.GenericNack.value < raw.cmdId → ∀ k : Nat, s'.w4rQ[k]? =
        if raw.seqNum = k then none else s.w4rQ[k]?) ∧
      (raw.cmdId < CommandId.GenericNack.value → s'.w4rQ = s.w4rQ)) s := by
  by_cases hresp : CommandId.GenericNack.value < raw.cmdId
  · obtain ⟨u, s', hrun, hw, -⟩ := ends_w4rQPop cfg hf hfree hresp
    refine ⟨u, s', hrun, fun _ k => ?_, fun hreq => absurd hresp (by omega)⟩
    rw [hw, getElem?_erase]
  · obtain ⟨u, s', hrun, rfl⟩ := ends_w4rQPop_request cfg (s := s) hresp
    exact ⟨u, s', hrun, fun h => absurd h hresp, fun _ => rfl⟩

/-- A `submit_sm` with the number `7` awaits its response. -/
def awaitingSeven : Session :=
  { Session.opened .none 0 with
    heap := [⟨.SubmitSm, ESME_ROK, 7, .octets [], none⟩]
    w4rQ := Std.TreeMap.empty.insert 7 ⟨0, 0⟩ }

/-- A `submit_sm_resp` with that number. -/
theorem responses_match_by_number_seven :
    (w4rQPop (Schedule.response .SubmitSmResp 7)).Ends (exec sampleParams .io) (fun _ s' =>
      (CommandId.GenericNack.value < (Schedule.response .SubmitSmResp 7).cmdId → ∀ k : Nat,
        s'.w4rQ[k]? = if 7 = k then none else awaitingSeven.w4rQ[k]?) ∧
      ((Schedule.response .SubmitSmResp 7).cmdId < CommandId.GenericNack.value →
        s'.w4rQ = awaitingSeven.w4rQ)) awaitingSeven :=
  responses_match_by_number rfl rfl

/-- An `enquire_link_resp` with that number removes it as well. -/
theorem response_of_another_kind_removes : ¬∀ (cfg : Params) (s : Session) (raw : RawPdu),
    s.fault = none → s.owner .w4rQMutex = none →
      (w4rQPop raw).Ends (exec cfg .io) (fun _ s' => ∀ k : Nat,
        (s.Answers raw ∧ raw.seqNum = k → s'.w4rQ[k]? = none) ∧
        (¬(s.Answers raw ∧ raw.seqNum = k) → s'.w4rQ[k]? = s.w4rQ[k]?)) s := by
  intro hevery
  let raw : RawPdu := Schedule.response .EnquireLinkResp 7
  have hseven : awaitingSeven.w4rQ[7]? = some ⟨0, 0⟩ := by decide
  have hnot : ¬awaitingSeven.Answers raw := by
    rintro ⟨e, he, hanswers⟩
    have he' : e = ⟨0, 0⟩ := Option.some.inj (he.symm.trans hseven)
    subst he'
    revert hanswers
    decide
  obtain ⟨u, s', hrun, hall⟩ := hevery sampleParams awaitingSeven raw rfl rfl
  have hpop : (w4rQPop raw).Ends (exec sampleParams .io)
      (fun _ s' => s'.w4rQ = awaitingSeven.w4rQ.erase 7 ∧ s'.heap = awaitingSeven.heap)
      awaitingSeven := ends_w4rQPop sampleParams rfl rfl (by decide)
  obtain ⟨u', s'', hrun', hw, -⟩ := hpop
  have hsame : s' = s'' := congrArg Prod.snd (Option.some.inj (hrun.symm.trans hrun'))
  have hkept := (hall 7).2 fun h => hnot h.1
  rw [hsame, hw, getElem?_erase, if_pos rfl, hseven] at hkept
  cases hkept

end KissSmpp
