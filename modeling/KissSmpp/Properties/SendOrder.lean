import KissSmpp.Session.Freshness
import KissSmpp.Session.Lanes

/-! # Messages are sent in the order in which they were submitted

On its way from `SendHandler::run` to `async_write` a message passes through the sending buffer, the hands
of `sendingProcessor` and the message level of the transmit queue, where an earlier process may have left
messages as well. It can be lost on this way, and after it has been written it can be put back or pushed
again; but no message is written for the first time before one that was submitted earlier and is still to
be written. Seen as a whole, the way is a pipeline (`outbound`), whatever the threads do. -/

namespace KissSmpp

open Interleave Queue

variable {cfg : Params} {t : Tid} {s s' : Session} {p : Persisted}

/-- The PDU that an event submits. -/
def Event.submitted? : Event → Option Ref
  | .submitted r => some r
  | _ => none

namespace Session

/-- **The messages to be sent**, in this order: what an earlier process has left in the transmit queue,
what it has left in the sending buffer, and what has been submitted since. -/
def submissions (p : Persisted) (s : Session) : List Ref :=
  Persisted.refs 0 p.message ++ Persisted.refs p.message.length p.sending ++
    (s.hist.filterMap Event.submitted?).reverse

/-- The PDU, if it is one of these messages. -/
def message? (p : Persisted) (s : Session) (r : Ref) : Option Ref :=
  if r ∈ s.submissions p then some r else none

/-- **The way of the messages**: from the lane of their level back through the hands of
`sendingProcessor` to the sending buffer. -/
def outbound (p : Persisted) (s : Session) : Pipeline Ref :=
  s.pipeline (s.submissions p) (s.message? p) .MESSAGE ((s.inHand .sender).toList ++ s.sendingBuffer)

/-- **Messages keep to their way**: they are objects, only `sendingProcessor` has them in hand, and on the
other levels of the transmit queue there is none that has not been popped before. -/
structure OnTheirWay (p : Persisted) (s : Session) : Prop where
  bound : ∀ r ∈ s.submissions p, r < s.heap.length
  hands : ∀ u, u ≠ .sender → ∀ r, s.inHand u = some r → r ∉ s.submissions p
  levels : ∀ i, i ≠ .MESSAGE → ∀ r ∈ s.txQ.level i, r ∈ s.submissions p → r ∈ s.touched

end Session

open Session

/-! ## Messages keep to their way -/

/-- Operations submit nothing. -/
theorem submissions_perform {op : Op} {x : op.Res × Session} (h : perform cfg t op s = some x) :
    x.2.submissions p = s.submissions p := by
  have hlogs : (op.logs s).filterMap Event.submitted? = [] := by cases op <;> rfl
  unfold Session.submissions
  rw [perform_hist h, List.filterMap_append, hlogs, List.nil_append]

/-- `sendingProcessor` pushes on the level of messages. -/
theorem level_of_sender {r : Ref} {l : Level} (h : s.InJob .sender (.txPush r l)) : l = .MESSAGE := by
  obtain ⟨j, hj, huses, -⟩ := h
  cases j with
  | send => exact eq_of_beq huses
  | handler q => cases hj
  | receive => cases hj
  | stop => cases hj

/-- **Every operation leaves the messages on their way.** -/
theorem onTheirWay_perform {g : Guard Op Tid Session Job} {op : Op} {x : op.Res × Session}
    (hS : s.Spent) (hO : s.OnTheirWay p) (hg : (known cfg g).op t op s)
    (h : perform cfg t op s = some x) : x.2.OnTheirWay p := by
  have hk := known_known hg
  constructor
  · intro r hr
    rw [submissions_perform h] at hr
    exact Nat.lt_of_lt_of_le (hO.bound r hr) (heap_perform h)
  · intro u hu r hr
    rw [submissions_perform h]
    rcases inHand_perform h hr with hr | ⟨-, rfl, -⟩ | ⟨rfl, -, rfl⟩
    · exact hO.hands u hu r hr
    · exact fun hmem => Nat.lt_irrefl _ (hO.bound _ hmem)
    · exact absurd (Op.sender_of_mayRun (known_mayRun hg) rfl) hu
  · intro i hi r hr hmem
    rw [submissions_perform h] at hmem
    refine touched_perform h hk ?_
    rcases mem_level_perform h hr with hr | rfl | hr
    · exact hO.levels i hi r hr hmem
    · rcases hk.2 with hin | ⟨-, hmsg, -⟩
      · by_cases ht : t = .sender
        · subst ht
          exact absurd (level_of_sender (known_inJob hg)) hi
        · exact absurd hmem (hO.hands t ht r hin)
      · exact absurd hmsg hi
    · exact hS.slot r hr

/-! ## The pipeline -/

/-- What is between the sending buffer and the transmit queue moves on, or is lost. -/
theorem upstream_perform {op : Op} {x : op.Res × Session} (h : perform cfg t op s = some x)
    (hm : op.mayRun t = true) : ((x.2.inHand .sender).toList ++ x.2.sendingBuffer).Sublist
      ((s.inHand .sender).toList ++ s.sendingBuffer) := by
  rcases sendingBuffer_perform h with ⟨hbuf, hpop⟩ | ⟨hbuf, rfl⟩
  · rw [hbuf]
    refine List.Sublist.append_right ?_ _
    cases hin : x.2.inHand .sender with
    | none => exact List.nil_sublist _
    | some r =>
        rcases inHand_perform h hin with hr | ⟨rfl, -, q, rfl⟩ | ⟨-, -, hop⟩
        · rw [hr]
        · rcases Op.closer_of_mayRun hm rfl with ht | ht <;> cases ht
        · exact absurd hop hpop
  · -- the head of the buffer changes hands
    have ht : t = .sender := Op.sender_of_mayRun hm rfl
    subst ht
    have hin : x.2.inHand .sender = s.sendingBuffer.head? := by
      cases h
      exact Function.update_self Tid.sender s.sendingBuffer.head? s.inHand
    have hall : s.sendingBuffer.head?.toList ++ s.sendingBuffer.tail = s.sendingBuffer := by
      cases s.sendingBuffer <;> rfl
    rw [hin, hbuf, hall]
    exact List.sublist_append_right _ _

/-- `do_write` moves a message from the hands of `sendingProcessor` to the end of the lane. -/
theorem upstream_txPush {r : Ref} {l : Level} {x : Unit × Session} (hS : s.Spent)
    (hO : s.OnTheirWay p) (hk : Known t (.txPush r l) s) (h : perform cfg t (.txPush r l) s = some x) :
    ((if l = .MESSAGE ∧ r ∉ s.touched then (s.message? p r).toList else []) ++
      ((x.2.inHand .sender).toList ++ x.2.sendingBuffer)).Sublist
        ((s.inHand .sender).toList ++ s.sendingBuffer) := by
  have hbuf : x.2.sendingBuffer = s.sendingBuffer := perform_same (f := .sendingBuffer) h (by simp)
  have hin : x.2.inHand = Function.update s.inHand t none := by cases h; rfl
  rw [hbuf, hin, ← List.append_assoc]
  refine List.Sublist.append_right ?_ _
  by_cases ht : t = .sender
  · -- what was in hand is on the lane now
    subst ht
    have hr : s.inHand .sender = some r := hk.2.resolve_right fun hio => by cases hio.1
    rw [Function.update_self, hr, Option.toList_none, List.append_nil]
    unfold Session.message?
    split
    · split
      · exact List.Sublist.refl _
      · exact List.nil_sublist _
    · exact List.nil_sublist _
  · -- the other threads push no message that has not been popped before
    have hnil : (if l = .MESSAGE ∧ r ∉ s.touched then (s.message? p r).toList else []) = [] := by
      refine ite_eq_right_iff.mpr fun hr => ?_
      have hmem : r ∉ s.submissions p := by
        rcases hk.2 with hr' | ⟨-, -, haw⟩
        · exact hO.hands t ht r hr'
        · exact absurd (hS.awaits r haw) hr.2
      unfold Session.message?
      rw [if_neg hmem]
      rfl
    rw [hnil, Function.update_of_ne (Ne.symm ht)]
    exact List.Sublist.refl _

/-- **What an operation does to the pipeline.** -/
theorem outbound_step {g : Guard Op Tid Session Job} {op : Op} {x : op.Res × Session} (hi : Inv s)
    (hH : s.Holds) (hS : s.Spent) (hO : s.OnTheirWay p) (hg : (known cfg g).op t op s)
    (h : perform cfg t op s = some x) : Pipeline.Steps (s.outbound p) (x.2.outbound p) := by
  have harr : x.2.submissions p = s.submissions p := submissions_perform h
  have htag : x.2.message? p = s.message? p := by
    unfold Session.message?
    rw [harr]
  unfold Session.outbound
  rw [harr, htag]
  by_cases hpush : ∃ r l, op = .txPush r l
  · obtain ⟨r, l, rfl⟩ := hpush
    exact pipeline_txPush h (upstream_txPush hS hO (known_known hg) h)
  · refine pipeline_perform h hi (known_known hg) hH hS (fun i hne r hr htag => ?_)
      (fun r l hop => hpush ⟨r, l, hop⟩) (upstream_perform h (known_mayRun hg))
    refine hO.levels i hne r hr ?_
    by_contra hmem
    unfold Session.message? at htag
    exact htag (if_neg hmem)

/-- **A submission arrives** at the end of the pipeline. -/
theorem outbound_submit {body : List UInt8} (hi : Inv s) (hO : s.OnTheirWay p)
    (h : (Env.submit body).perform cfg s = some s') :
    Pipeline.Steps (s.outbound p) (s'.outbound p) ∧ s'.OnTheirWay p := by
  have hp : s'.pdu2send = s.pdu2send := env_same (f := .pdu2send) h (by simp)
  have hq : s'.txQ = s.txQ := env_same (f := .txQ) h (by simp)
  have hin : s'.inHand = s.inHand := env_same (f := .inHand) h (by simp)
  have hw : s'.written = s.written := by cases h; rfl
  have hbuf : s'.sendingBuffer = s.sendingBuffer ++ [s.heap.length] := by cases h; rfl
  have harr : s'.submissions p = s.submissions p ++ [s.heap.length] := by
    cases h
    show Persisted.refs 0 p.message ++ Persisted.refs p.message.length p.sending ++
      (s.heap.length :: s.hist.filterMap Event.submitted?).reverse = _
    rw [List.reverse_cons, ← List.append_assoc]
    rfl
  constructor
  · -- what has been near the queue is an older object
    have htag : ∀ r, s.Queued r → s'.message? p r = s.message? p r := by
      intro r hr
      have hlt := hi.queued r hr
      unfold Session.message?
      rw [harr]
      simp [Nat.ne_of_lt hlt]
    have hx : s'.outbound p = ⟨s.submissions p ++ [s.heap.length], s.departures (s.message? p),
        (s.lane (s.message? p) .MESSAGE ++ ((s.inHand .sender).toList ++ s.sendingBuffer)) ++
          [s.heap.length]⟩ := by
      unfold Session.outbound
      rw [pipeline_same hw hp hq, pipeline_tag htag, harr, hbuf, hin]
      unfold Session.pipeline
      rw [List.append_assoc, List.append_assoc]
    rw [hx]
    exact .single (.arrive _ _ _ _)
  -- the new submission is neither in a hand nor in the queue yet
  · refine ⟨fun r hr => ?_, fun u hu r hr => ?_, fun i hne r hr hmem => ?_⟩
    · have hlen : s'.heap.length = s.heap.length + 1 := by
        cases h
        exact List.length_append
      rw [harr, List.mem_append, List.mem_singleton] at hr
      rw [hlen]
      rcases hr with hr | rfl
      · exact Nat.lt_succ_of_lt (hO.bound r hr)
      · exact Nat.lt_succ_self _
    · rw [hin] at hr
      rw [harr, List.mem_append, List.mem_singleton]
      rintro (hmem | rfl)
      · exact hO.hands u hu r hr hmem
      · exact Nat.lt_irrefl _ (hi.fresh _ (.inl ⟨u, hr⟩))
    · rw [hq] at hr
      rw [harr, List.mem_append, List.mem_singleton] at hmem
      rcases hmem with hmem | rfl
      · exact touched_grows (fun _ => mem_hist_env h) hp (hO.levels i hne r hr hmem)
      · exact absurd (hi.queued _ (.waiting ⟨i, hr⟩)) (Nat.lt_irrefl _)

/-- Where nothing is submitted, and nothing moves, the pipeline stays as it is. -/
theorem outbound_same (hw : s'.written = s.written) (hp : s'.pdu2send = s.pdu2send)
    (hq : s'.txQ = s.txQ) (hin : s'.inHand = s.inHand) (hbuf : s'.sendingBuffer = s.sendingBuffer)
    (hheap : s.heap.length ≤ s'.heap.length) (harr : s'.submissions p = s.submissions p)
    (hO : s.OnTheirWay p) : s'.outbound p = s.outbound p ∧ s'.OnTheirWay p := by
  have htag : s'.message? p = s.message? p := by
    unfold Session.message?
    rw [harr]
  constructor
  · unfold Session.outbound
    rw [htag, harr, hbuf, hin, pipeline_same hw hp hq]
  · refine ⟨fun r hr => ?_, fun u hu r hr => ?_, fun i hne r hr hmem => ?_⟩
    · rw [harr] at hr
      exact Nat.lt_of_lt_of_le (hO.bound r hr) hheap
    · rw [hin] at hr
      rw [harr]
      exact hO.hands u hu r hr
    · rw [hq] at hr
      rw [harr] at hmem
      unfold Session.touched Session.popped
      rw [hw, hp]
      exact hO.levels i hne r hr hmem

/-- The sending buffer stays, unless something is submitted. -/
theorem sendingBuffer_still {e : Env} (h : e.perform cfg s = some s') (hsub : ∀ body, e ≠ .submit body) :
    s'.sendingBuffer = s.sendingBuffer := by
  cases e with
  | submit body => exact absurd rfl (hsub body)
  | complete io raw er =>
      obtain ⟨-, rfl⟩ := Env.perform_complete h
      unfold Session.connectDone
      split <;> rfl
  | expire tm =>
      obtain ⟨-, rfl⟩ := Env.perform_expire h
      rfl
  | elapse us => cases h; rfl
  | reply a => cases h; rfl

/-- **What happens in the environment** is a submission, or leaves the pipeline as it is. -/
theorem outbound_env {e : Env} (hi : Inv s) (hO : s.OnTheirWay p) (h : e.perform cfg s = some s') :
    Pipeline.Steps (s.outbound p) (s'.outbound p) ∧ s'.OnTheirWay p := by
  by_cases hsub : ∃ body, e = .submit body
  · obtain ⟨body, rfl⟩ := hsub
    exact outbound_submit hi hO h
  have hlogs : (e.logs s).filterMap Event.submitted? = [] := by
    cases e with
    | submit body => exact absurd ⟨body, rfl⟩ hsub
    | complete io raw er => cases io <;> cases er <;> rfl
    | _ => rfl
  have harr : s'.submissions p = s.submissions p := by
    unfold Session.submissions
    rw [env_hist h, List.filterMap_append, hlogs, List.nil_append]
  have hbuf : s'.sendingBuffer = s.sendingBuffer :=
    sendingBuffer_still h fun body heq => hsub ⟨body, heq⟩
  obtain ⟨hsame, hO'⟩ := outbound_same (written_env h) (env_same (f := .pdu2send) h (by simp))
    (env_same (f := .txQ) h (by simp)) (env_same (f := .inHand) h (by simp)) hbuf (pdu_env h).1 harr hO
  rw [hsame]
  exact ⟨.refl, hO'⟩

/-- The start of a job changes nothing on the way. -/
theorem outbound_take {j : Job} (hO : s.OnTheirWay p) (h : j.take s = some s') :
    s'.outbound p = s.outbound p ∧ s'.OnTheirWay p := by
  have hlogs : j.logs.filterMap Event.submitted? = [] := by cases j <;> rfl
  have harr : s'.submissions p = s.submissions p := by
    unfold Session.submissions
    rw [take_hist h, List.filterMap_append, hlogs, List.nil_append]
  exact outbound_same (written_take h) (take_same (f := .pdu2send) h (by simp))
    (take_same (f := .txQ) h (by simp)) (take_same (f := .inHand) h (by simp))
    (take_same (f := .sendingBuffer) h (by simp)) (pdu_take h).1 harr hO

/-! ## The order -/

/-- At the start the messages left by an earlier process are on their way, in their order. -/
theorem onTheirWay_init (p : Persisted) (now : Nat) : (Session.init p now).OnTheirWay p := by
  have hsub : (Session.init p now).submissions p =
      Persisted.refs 0 p.message ++ Persisted.refs p.message.length p.sending := List.append_nil _
  refine ⟨fun r hr => ?_, fun u _ r hr => (by cases hr), fun i hi r hr => ?_⟩
  · have hlen : (Session.init p now).heap.length = p.message.length + p.sending.length +
        p.recieve.length + p.rcvErr.length + p.session.length + p.response.length := by
      simp only [Session.init, Session.opened, Persisted.heap, List.length_map, List.length_append]
    rw [hsub, List.mem_append, Persisted.refs, Persisted.refs, List.mem_range'_1, List.mem_range'_1] at hr
    rw [hlen]
    rcases hr with ⟨-, hr⟩ | ⟨-, hr⟩ <;> exact Nat.lt_of_lt_of_le hr (by omega)
  · cases i with
    | MESSAGE => exact absurd rfl hi
    | SESSION => cases hr
    | RESPONSE => cases hr

/-- What an earlier process has left is in the pipeline. -/
theorem outbound_init (p : Persisted) (now : Nat) : ((Session.init p now).outbound p).InOrder := by
  have hsub : (Session.init p now).submissions p =
      Persisted.refs 0 p.message ++ Persisted.refs p.message.length p.sending := List.append_nil _
  have hlane : (Session.init p now).lane ((Session.init p now).message? p) .MESSAGE =
      (Persisted.refs 0 p.message).filterMap ((Session.init p now).message? p) := by
    rw [lane_of_popped_nil rfl]
    congr 1
    exact List.filter_eq_self.mpr fun r _ => rfl
  show List.Sublist ([] ++ ((Session.init p now).lane ((Session.init p now).message? p) .MESSAGE ++
    Persisted.refs p.message.length p.sending)) ((Session.init p now).submissions p)
  rw [List.nil_append, hlane, hsub]
  refine List.Sublist.append ?_ (List.Sublist.refl _)
  -- a filter
  have htag : (Session.init p now).message? p =
      Option.guard fun r => decide (r ∈ (Session.init p now).submissions p) := by
    funext r
    simp [Session.message?, Option.guard]
  rw [htag, List.filterMap_eq_filter]
  exact List.filter_sublist

variable {g : Guard Op Tid Session Job} {now : Nat} {c : Machine}

/-- **The way of the messages is a pipeline** in every run. -/
theorem Runs.outbound (h : Runs cfg g p now c) :
    c.shared.OnTheirWay p ∧ Pipeline.Steps ((Session.init p now).outbound p) (c.shared.outbound p) := by
  refine Runs.dataKnowing (I := fun s => Inv s ∧ s.Holds ∧ s.Spent)
    (K := fun s => s.OnTheirWay p ∧ Pipeline.Steps ((Session.init p now).outbound p) (s.outbound p))
    (fun c hc => ⟨hc.inv, hc.holds, hc.spent⟩) h ⟨onTheirWay_init p now, .refl⟩ ?_ ?_ ?_
  · rintro t op s x ⟨hi, hH, hS⟩ ⟨hO, hsteps⟩ hg hx
    exact ⟨onTheirWay_perform hS hO hg hx, hsteps.trans (outbound_step hi hH hS hO hg hx)⟩
  · rintro e s s' ⟨hi, -, -⟩ ⟨hO, hsteps⟩ hx
    obtain ⟨hstep, hO'⟩ := outbound_env hi hO hx
    exact ⟨hO', hsteps.trans hstep⟩
  · rintro j s s' - - ⟨hO, hsteps⟩ hx
    obtain ⟨hsame, hO'⟩ := outbound_take hO hx
    exact ⟨hO', hsame ▸ hsteps⟩

/-- **Messages are sent in the order in which they were submitted**: in every run, those that have been
handed to `async_write` are among the messages to be sent, in the same order. -/
theorem sent_in_order (h : Runs cfg Guard.free p now c) :
    (c.shared.transmitted.filter (· ∈ c.shared.submissions p)).Sublist (c.shared.submissions p) := by
  have hsent := (Pipeline.Steps.inOrder h.outbound.2 (outbound_init p now)).departed
  have htag : c.shared.message? p = Option.guard fun r => decide (r ∈ c.shared.submissions p) := by
    funext r
    simp [Session.message?, Option.guard]
  have hdep : (c.shared.outbound p).departed =
      c.shared.transmitted.filter (· ∈ c.shared.submissions p) := by
    show c.shared.transmitted.filterMap _ = _
    rw [htag, List.filterMap_eq_filter]
  exact hdep ▸ hsent

/-- Two messages on a bound session: both are written, the earlier one first. -/
theorem sent_in_order_two :
    (Machine.after sampleParams .none (Schedule.bind ++ Schedule.sendWritten 1 ++
        Schedule.sendWritten 2)).shared.transmitted = [0, 1, 2] ∧
      ((Machine.after sampleParams .none (Schedule.bind ++ Schedule.sendWritten 1 ++
        Schedule.sendWritten 2)).shared.transmitted.filter (· ∈ (Machine.after sampleParams .none
          (Schedule.bind ++ Schedule.sendWritten 1 ++
            Schedule.sendWritten 2)).shared.submissions .none)).Sublist
        ((Machine.after sampleParams .none (Schedule.bind ++ Schedule.sendWritten 1 ++
          Schedule.sendWritten 2)).shared.submissions .none) :=
  ⟨by decide +kernel, sent_in_order (runs_after _ _ _)⟩

end KissSmpp
