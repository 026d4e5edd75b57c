import KissSmpp.Session.Handlers
import KissSmpp.Session.Numbering

/-! # The numbers in use

What the numbering protocol comes to over a whole run in which the generator does not start over:
`Generated` says that each number is drawn once, `Grasped` what the threads know of the PDUs they have
got hold of, and `Assigned` that a number in use belongs to one request, however PDUs are renumbered, put
back or queued again. `Runs.counted` is the result. -/

namespace KissSmpp

open Interleave Queue

variable {cfg : Params} {t : Tid} {s : Session} {x : Tid → Tally}

/-- The runs in which the sequence generator does not start over. -/
def neverWraps : Guard Op Tid Session Job := ⟨fun _ op _ => op ≠ .setVal SequenceNumber.Min, fun _ _ => True⟩

/-- The guard can be evaluated. -/
instance : neverWraps.Checkable where
  op _ op _ := inferInstanceAs (Decidable (op ≠ _))
  job _ _ := inferInstanceAs (Decidable True)

/-! ## The generator -/

/-- **The generator**: a thread inside it holds its mutex, and the numbers drawn are below its value,
each by one thread. -/
structure Generated (s : Session) (x : Tid → Tally) : Prop where
  low : SequenceNumber.Min ≤ s.mVal
  owner : ∀ u, (x u).drawing ≠ .outside → s.owner .mMtx = some u
  read : ∀ u v, (x u).drawing = .read v → s.mVal = v
  drawn : ∀ u n, (x u).drawn = some n → SequenceNumber.Min ≤ n ∧ n < s.mVal
  apart : ∀ u u' n, (x u).drawn = some n → (x u').drawn = some n → u = u'

/-- The operations of `SequinceNumberGenerator::next`. -/
@[simp] def Op.inNext : Op → Bool
  | .lock .mMtx | .unlock .mMtx | .getVal | .setVal _ => true
  | _ => false

/-- Only they move a thread in the generator. -/
theorem drawing_next {op : Op} {y : Tally} (b : op.Res) (hop : op.inNext = false) :
    (numbering.next y op b).drawing = y.drawing := by
  cases op with
  | lock m => cases m <;> first | rfl | cases hop
  | unlock m => cases m <;> first | rfl | cases hop
  | getVal => cases hop
  | setVal v => cases hop
  | w4rAt k => cases b <;> rfl
  | _ => rfl

/-- A number a thread has drawn it had drawn before, unless it has just left it in the generator. -/
theorem drawn_next {op : Op} {y : Tally} {b : op.Res} {n : Nat} (hop : ∀ v, op ≠ .setVal v)
    (hn : (numbering.next y op b).drawn = some n) : y.drawn = some n := by
  cases op with
  | lock m => cases m <;> exact hn
  | unlock m => cases m <;> exact hn
  | setVal v => exact absurd rfl (hop v)
  | w4rAt k => cases b <;> exact hn
  | newPdu p =>
      have hn : (none : Option Nat) = some n := hn
      cases hn
  | setSeq r m =>
      have hn : (none : Option Nat) = some n := hn
      cases hn
  | _ => exact hn

/-- A step of the generator: the value read is drawn, and the next one is left. -/
theorem setVal_drawn {v : Nat} (hG : Generated s x) (hg : neverWraps.op t (.setVal v) s)
    (ha : numbering.allows (x t) (.setVal v)) :
    v = s.mVal + 1 ∧ (x t).draw = { x t with drawing := .written, drawn := some s.mVal } := by
  obtain ⟨v', hread, hv⟩ := ha
  have hval : s.mVal = v' := hG.read t v' hread
  have hlt : v' < SequenceNumber.Max := by
    by_contra hge
    rw [if_neg hge] at hv
    exact hg (congrArg Op.setVal hv)
  rw [if_pos hlt] at hv
  refine ⟨by omega, ?_⟩
  unfold Tally.draw
  rw [hread, hval]
  exact congrArg (fun n => { x t with drawing := .written, drawn := some n }) (if_pos hlt)

/-- The value of the generator only grows. -/
theorem mVal_perform {op : Op} {r : op.Res × Session} (hG : Generated s x)
    (hg : neverWraps.op t op s) (ha : numbering.allows (x t) op) (h : perform cfg t op s = some r) :
    s.mVal ≤ r.2.mVal := by
  by_cases hw : Field.mVal ∈ op.writes
  · cases op with
    | setVal v =>
        cases h
        show s.mVal ≤ v
        have := (setVal_drawn hG hg ha).1
        omega
    | _ => simp at hw
  · have hm : r.2.mVal = s.mVal := perform_same (f := .mVal) h hw
    exact Nat.le_of_eq hm.symm

/-- A number drawn was drawn before, or is the value the generator had. -/
theorem drawn_perform {op : Op} {r : op.Res × Session} (hG : Generated s x)
    (hg : neverWraps.op t op s) (ha : numbering.allows (x t) op) (h : perform cfg t op s = some r)
    {u : Tid} {n : Nat} (hu : (Function.update x t (numbering.next (x t) op r.1) u).drawn = some n) :
    (x u).drawn = some n ∨ (u = t ∧ n = s.mVal ∧ r.2.mVal = s.mVal + 1) := by
  by_cases hut : u = t
  · subst hut
    rw [Function.update_self] at hu
    by_cases hop : ∃ v, op = .setVal v
    · obtain ⟨v, rfl⟩ := hop
      obtain ⟨hv, hdraw⟩ := setVal_drawn hG hg ha
      have hn : (x u).draw.drawn = some n := hu
      rw [hdraw] at hn
      cases h
      exact .inr ⟨rfl, (Option.some.inj hn).symm, hv⟩
    · exact .inl (drawn_next (fun v hv => hop ⟨v, hv⟩) hu)
  · rw [Function.update_of_ne hut] at hu
    exact .inl hu

/-- An operation outside `seqNumGen.next()` leaves the owner of the generator's mutex as it is. -/
theorem mMtx_same {op : Op} {r : op.Res × Session} (h : perform cfg t op s = some r)
    (hop : op.inNext = false) : r.2.owner .mMtx = s.owner .mMtx := by
  cases op with
  | lock m =>
      obtain ⟨-, rfl⟩ := perform_lock h
      cases m <;> first | rfl | cases hop
  | unlock m =>
      cases h
      cases m <;> first | rfl | cases hop
  | _ => exact congrFun (perform_same (f := .owner) h (by simp)) _

/-- While a thread takes a step of `next` no other is inside, unless the step reads only. -/
theorem next_alone {op : Op} {r : op.Res × Session} (hG : Generated s x) (hop : op.inNext = true)
    (ha : numbering.allows (x t) op) (h : perform cfg t op s = some r) {u : Tid} (hut : u ≠ t)
    (hin : (x u).drawing ≠ .outside) : op = .getVal := by
  have hown := hG.owner u hin
  have hne : (x t).drawing = .outside := by
    by_contra hin'
    exact hut (Option.some.inj (hown.symm.trans (hG.owner t hin')))
  cases op with
  | lock m =>
      cases m <;> try cases hop
      rw [(perform_lock h).1] at hown
      cases hown
  | unlock m =>
      cases m <;> try cases hop
      have ha : (x t).drawing = .written := ha
      rw [hne] at ha
      cases ha
  | getVal => rfl
  | setVal v =>
      obtain ⟨v', hread, -⟩ := ha
      rw [hne] at hread
      cases hread
  | _ => cases hop

/-- A thread that takes a step of `next` holds the mutex while it is inside, and has read the value
there is. -/
theorem next_inside {op : Op} {r : op.Res × Session} (hG : Generated s x) (hop : op.inNext = true)
    (hg : neverWraps.op t op s) (ha : numbering.allows (x t) op) (h : perform cfg t op s = some r) :
    ((numbering.next (x t) op r.1).drawing ≠ .outside → r.2.owner .mMtx = some t) ∧
      ∀ v, (numbering.next (x t) op r.1).drawing = .read v → r.2.mVal = v := by
  cases op with
  | lock m =>
      cases m <;> try cases hop
      obtain ⟨-, rfl⟩ := perform_lock h
      have hown : Function.update s.owner .mMtx (some t) .mMtx = some t := Function.update_self ..
      exact ⟨fun _ => hown, nofun⟩
  | unlock m =>
      cases m <;> try cases hop
      exact ⟨fun hne => absurd rfl hne, nofun⟩
  | getVal =>
      cases h
      have hlocked : (x t).drawing = .locked := ha
      exact ⟨fun _ => hG.owner t (by rw [hlocked]; decide), fun v hv => Drawing.read.inj hv⟩
  | setVal v =>
      obtain ⟨v', hread, -⟩ := id ha
      have hdr : (numbering.next (x t) (.setVal v) r.1).drawing = .written := by
        show (x t).draw.drawing = _
        rw [(setVal_drawn hG hg ha).2]
      rw [hdr]
      cases h
      exact ⟨fun _ => hG.owner t (by rw [hread]; exact nofun), nofun⟩
  | _ => cases hop

/-- **What threads know inside the generator is true after every operation.** -/
theorem inside_perform {op : Op} {r : op.Res × Session} (hG : Generated s x)
    (hg : neverWraps.op t op s) (ha : numbering.allows (x t) op) (h : perform cfg t op s = some r)
    (u : Tid) :
    ((Function.update x t (numbering.next (x t) op r.1) u).drawing ≠ .outside →
        r.2.owner .mMtx = some u) ∧
      ∀ v, (Function.update x t (numbering.next (x t) op r.1) u).drawing = .read v →
        r.2.mVal = v := by
  -- inside `next` the thread holds the mutex, so another one cannot be there
  cases hop : op.inNext with
  | false =>
      have hval : r.2.mVal = s.mVal := perform_same (f := .mVal) h (by
        cases op <;> first | simp; done | cases hop)
      have hdr : (Function.update x t (numbering.next (x t) op r.1) u).drawing = (x u).drawing := by
        by_cases hut : u = t
        · subst hut
          rw [Function.update_self, drawing_next r.1 hop]
        · rw [Function.update_of_ne hut]
      rw [hdr, hval, mMtx_same h hop]
      exact ⟨hG.owner u, hG.read u⟩
  | true =>
      by_cases hut : u = t
      · subst hut
        rw [Function.update_self]
        exact next_inside hG hop hg ha h
      · -- the generator has been left as it was, if another thread is inside
        rw [Function.update_of_ne hut]
        have hsame : (x u).drawing ≠ .outside → r.2 = s := by
          intro hin
          have hget := next_alone hG hop ha h hut hin
          subst hget
          cases h
          rfl
        refine ⟨fun hin => ?_, fun v hv => ?_⟩
        · rw [hsame hin]
          exact hG.owner u hin
        · rw [hsame (by rw [hv]; exact nofun)]
          exact hG.read u v hv

/-- **Every operation keeps the generator's invariant.** -/
theorem generated_perform {op : Op} {r : op.Res × Session} (hG : Generated s x)
    (hg : neverWraps.op t op s) (ha : numbering.allows (x t) op) (h : perform cfg t op s = some r) :
    Generated r.2 (Function.update x t (numbering.next (x t) op r.1)) where
  low := Nat.le_trans hG.low (mVal_perform hG hg ha h)
  owner u := (inside_perform hG hg ha h u).1
  read u := (inside_perform hG hg ha h u).2
  drawn u n hu := by
    have hmono := mVal_perform hG hg ha h
    have hlow := hG.low
    rcases drawn_perform hG hg ha h hu with hu | ⟨-, rfl, hval⟩
    · have := hG.drawn u n hu
      omega
    · omega
  apart u u' n hu hu' := by
    -- a number that has just been drawn is larger than all that were drawn before
    rcases drawn_perform hG hg ha h hu with hu | ⟨ht, hn, -⟩ <;>
      rcases drawn_perform hG hg ha h hu' with hu' | ⟨ht', hn', -⟩
    · exact hG.apart u u' n hu hu'
    · have := (hG.drawn u n hu).2
      omega
    · have := (hG.drawn u' n hu').2
      omega
    · exact ht.trans ht'.symm

/-! ## What threads know of PDUs -/

/-- **What the threads know** of the PDUs they have got hold of. -/
structure Grasped (s : Session) (x : Tid → Tally) : Prop where
  holding : ∀ u, (x u).holding = false → s.pdu2send u = none
  popped : ∀ u, s.pdu2send u ≠ none → s.phase u = .popped
  subject : ∀ u r, (x u).subject = some r → r < s.heap.length
  outbound : ∀ u r, (x u).outbound = some r → r < s.heap.length ∧ ¬(s.pdu r).IsInbound
  request : ∀ u r, (x u).request = some r → r < s.heap.length ∧ (s.pdu r).IsRequest
  queued : ∀ r, s.Queued r → ¬(s.pdu r).IsInbound

/-- A PDU stays of its kind. -/
theorem kind_perform {op : Op} {r : op.Res × Session} (h : perform cfg t op s = some r) {q : Ref}
    (hq : q < s.heap.length) :
    q < r.2.heap.length ∧ ((r.2.pdu q).IsInbound ↔ (s.pdu q).IsInbound) ∧
      ((r.2.pdu q).IsRequest ↔ (s.pdu q).IsRequest) := by
  have hlen := heap_perform h
  have hkind := commandId_perform h hq
  unfold Pdu.IsInbound Pdu.IsRequest
  rw [hkind]
  exact ⟨Nat.lt_of_lt_of_le hq hlen, Iff.rfl, Iff.rfl⟩

/-- Drawing a number changes nothing else. -/
theorem Tally.draw_same (y : Tally) :
    y.draw.first = y.first ∧ y.draw.holding = y.holding ∧ y.draw.subject = y.subject ∧
      y.draw.numbered = y.numbered ∧ y.draw.outbound = y.outbound ∧ y.draw.request = y.request := by
  unfold Tally.draw
  split <;> exact ⟨rfl, rfl, rfl, rfl, rfl, rfl⟩

/-- A thread that holds no popped PDU has none. -/
theorem holding_perform {op : Op} {r : op.Res × Session} (hK : Grasped s x)
    (h : perform cfg t op s = some r) (hold : (numbering.next (x t) op r.1).holding = false) :
    r.2.pdu2send t = none := by
  -- a pop that finds nothing and a write leave the thread's hands empty; nothing else fills them
  by_cases hw : Field.pdu2send ∈ op.writes
  · cases op with
    | txPop =>
        cases h
        have hpop : s.txQ.pop.1 = none := Option.isSome_eq_false_iff.mp hold |> Option.isNone_iff_eq_none.mp
        have hp : Function.update s.pdu2send t s.txQ.pop.1 t = s.txQ.pop.1 := Function.update_self ..
        exact hp.trans hpop
    | asyncWrite q tbuf =>
        cases h
        have hp : (({ s with pdu2send := Function.update s.pdu2send t none }).startIo
            (.write q)).pdu2send = Function.update s.pdu2send t none :=
          Session.startIo_same (f := .pdu2send) _ (by decide)
        exact (congrFun hp t).trans (Function.update_self ..)
    | _ => simp at hw
  · have hp : r.2.pdu2send = s.pdu2send := perform_same (f := .pdu2send) h hw
    rw [hp]
    refine hK.holding t ?_
    cases op with
    | lock m => cases m <;> exact hold
    | unlock m => cases m <;> exact hold
    | w4rAt k =>
        obtain ⟨b, s'⟩ := r
        cases b <;> exact hold
    | txPop => simp at hw
    | asyncWrite q tbuf => simp at hw
    | setVal v => exact (x t).draw_same.2.1.symm.trans hold
    | _ => exact hold

/-- A thread with a popped PDU stays where it has popped it until it has handed it over. -/
theorem popped_perform {op : Op} {r : op.Res × Session} (hi : Inv s) (hK : Grasped s x)
    (hk : Known t op s) (ha : numbering.allows (x t) op) (h : perform cfg t op s = some r) {u : Tid}
    (hu : r.2.pdu2send u ≠ none) : r.2.phase u = .popped := by
  obtain ⟨q, hq⟩ := Option.ne_none_iff_exists'.mp hu
  rcases pdu2send_perform h hq with hold | ⟨rfl, rfl, -⟩
  · have hph := hK.popped u (by rw [hold]; simp)
    by_cases hut : u = t
    · subst hut
      -- with a popped PDU the thread neither enters, leaves nor asks whether the queue is empty
      have hmove : op.phase? s = none ∨ op.phase? s = some .popped := by
        cases op with
        | lock m =>
            cases m <;> first
              | exact .inl rfl
              | (have hown := hi.mutex u (by rw [hph]; decide)
                 rw [(perform_lock h).1] at hown
                 cases hown)
        | unlock m =>
            cases m <;> first
              | exact .inl rfl
              | (rw [hK.holding u ha] at hold
                 cases hold)
        | txEmpty =>
            rw [hk.2.1] at hph
            cases hph
        | txPop => exact .inr rfl
        | _ => exact .inl rfl
      rw [phase_moved h]
      rcases hmove with hmove | hmove
      · rw [hmove]
        exact hph
      · rw [hmove]
        rfl
    · rw [(perform_local h hut).2.2]
      exact hph
  · rw [phase_moved h]
    rfl

/-- A thread gets hold of PDUs that are there. -/
theorem subject_perform {op : Op} {r : op.Res × Session} (hi : Inv s) (hK : Grasped s x)
    (h : perform cfg t op s = some r) {q : Ref}
    (hq : (numbering.next (x t) op r.1).subject = some q) : q < s.heap.length := by
  cases op with
  | lock m => cases m <;> exact hK.subject t q hq
  | unlock m => cases m <;> exact hK.subject t q hq
  | w4rAt k =>
      obtain ⟨b, s'⟩ := r
      cases b <;> exact hK.subject t q hq
  | setVal v => exact hK.subject t q ((x t).draw_same.2.2.1.symm.trans hq)
  | txPop =>
      cases h
      exact hi.queued q (.waiting (PrioQ.mem_iff_pop.mpr (.inl hq)))
  | txLastPop =>
      cases h
      exact hi.queued q (.slot hq)
  | sendPop =>
      cases h
      exact hi.fresh q (.inr (List.mem_of_mem_head? hq))
  | _ => exact hK.subject t q hq

/-- A thread knows a PDU to be outbound by its kind, or because it has been sent before. -/
theorem outbound_perform {op : Op} {r : op.Res × Session} (hi : Inv s) (hK : Grasped s x)
    (ha : numbering.allows (x t) op) (h : perform cfg t op s = some r) {q : Ref}
    (hq : (numbering.next (x t) op r.1).outbound = some q) :
    q < r.2.heap.length ∧ ¬(r.2.pdu q).IsInbound := by
  have hkept : ∀ q, q < s.heap.length → ¬(s.pdu q).IsInbound →
      q < r.2.heap.length ∧ ¬(r.2.pdu q).IsInbound := by
    intro q hlt hin
    have hkind := kind_perform h hlt
    exact ⟨hkind.1, fun hin' => hin (hkind.2.1.mp hin')⟩
  -- what the thread knew stays true; it learns something from `w4rAt`, `newPdu` and `getPdu`
  have hold : (x t).outbound = some q → q < r.2.heap.length ∧ ¬(r.2.pdu q).IsInbound :=
    fun hq => hkept q (hK.outbound t q hq).1 (hK.outbound t q hq).2
  cases op with
  | lock m => cases m <;> exact hold hq
  | unlock m => cases m <;> exact hold hq
  | setVal v => exact hold ((x t).draw_same.2.2.2.2.1.symm.trans hq)
  | w4rAt k =>
      cases h
      cases he : s.w4rQ[k]? with
      | none =>
          have hq : (numbering.next (x t) (.w4rAt k) s.w4rQ[k]?).outbound = some q := hq
          rw [he] at hq
          exact hold hq
      | some e =>
          have hq : (numbering.next (x t) (.w4rAt k) s.w4rQ[k]?).outbound = some q := hq
          rw [he] at hq
          obtain rfl : e.obj = q := Option.some.inj hq
          have hsent : s.Queued e.obj := .awaiting ⟨k, e, he, rfl⟩
          exact hkept _ (hi.queued _ hsent) (hK.queued _ hsent)
  | newPdu p =>
      have hnew : (if p.IsInbound then (x t).outbound else some r.1) = some q := hq
      split at hnew
      · exact hold hnew
      · next hp =>
          cases h
          obtain rfl : s.heap.length = q := Option.some.inj hnew
          refine ⟨by simp [Session.record], ?_⟩
          simpa [Session.pdu, Session.record] using hp
  | getPdu q' =>
      have hread : (if r.1.IsInbound then (x t).outbound else some q') = some q := hq
      split at hread
      · exact hold hread
      · next hp =>
          obtain rfl : q' = q := Option.some.inj hread
          cases h
          exact hkept q' (hK.subject t q' ha) hp
  | _ => exact hold hq

/-- What a thread knows to be a request is one, because the thread has read its command id. -/
theorem request_perform {op : Op} {r : op.Res × Session} (hK : Grasped s x)
    (ha : numbering.allows (x t) op) (h : perform cfg t op s = some r) {q : Ref}
    (hq : (numbering.next (x t) op r.1).request = some q) :
    q < r.2.heap.length ∧ (r.2.pdu q).IsRequest := by
  have hkept : ∀ q, q < s.heap.length → (s.pdu q).IsRequest →
      q < r.2.heap.length ∧ (r.2.pdu q).IsRequest := by
    intro q hlt hreq
    have hkind := kind_perform h hlt
    exact ⟨hkind.1, hkind.2.2.mpr hreq⟩
  have hold : (x t).request = some q → q < r.2.heap.length ∧ (r.2.pdu q).IsRequest :=
    fun hq => hkept q (hK.request t q hq).1 (hK.request t q hq).2
  cases op with
  | lock m => cases m <;> exact hold hq
  | unlock m => cases m <;> exact hold hq
  | setVal v => exact hold ((x t).draw_same.2.2.2.2.2.symm.trans hq)
  | w4rAt k =>
      obtain ⟨b, s'⟩ := r
      cases b <;> exact hold hq
  | getPdu q' =>
      have hread : (if r.1.IsRequest then some q' else (x t).request) = some q := hq
      split at hread
      · next hp =>
          obtain rfl : q' = q := Option.some.inj hread
          cases h
          exact hkept q' (hK.subject t q' ha) hp
      · exact hold hread
  | _ => exact hold hq

/-- **Every operation keeps what the threads know.** -/
theorem grasped_perform {op : Op} {r : op.Res × Session} (hi : Inv s) (hK : Grasped s x)
    (hk : Known t op s) (ha : numbering.allows (x t) op) (h : perform cfg t op s = some r) :
    Grasped r.2 (Function.update x t (numbering.next (x t) op r.1)) := by
  have hlen := heap_perform h
  have hkept : ∀ q, q < s.heap.length → ¬(s.pdu q).IsInbound → ¬(r.2.pdu q).IsInbound :=
    fun q hlt hin hin' => hin ((kind_perform h hlt).2.1.mp hin')
  -- field by field: at the thread that steps by the protocol, at the others as before
  constructor
  · refine Function.forall_update_iff x (p := fun u y => y.holding = false → r.2.pdu2send u = none)
      |>.mpr ⟨holding_perform hK h, fun u hut hold => ?_⟩
    rw [(perform_local h hut).1]
    exact hK.holding u hold
  · exact fun u hu => popped_perform hi hK hk ha h hu
  · refine Function.forall_update_iff x
      (p := fun _ y => ∀ q, y.subject = some q → q < r.2.heap.length)
      |>.mpr ⟨fun q hq => ?_, fun u _ q hq => ?_⟩
    · exact Nat.lt_of_lt_of_le (subject_perform hi hK h hq) hlen
    · exact Nat.lt_of_lt_of_le (hK.subject u q hq) hlen
  · refine Function.forall_update_iff x (p := fun _ y => ∀ q, y.outbound = some q →
      q < r.2.heap.length ∧ ¬(r.2.pdu q).IsInbound)
      |>.mpr ⟨fun q hq => outbound_perform hi hK ha h hq, fun u _ q hq => ?_⟩
    obtain ⟨hlt, hin⟩ := hK.outbound u q hq
    exact ⟨Nat.lt_of_lt_of_le hlt hlen, hkept q hlt hin⟩
  · refine Function.forall_update_iff x (p := fun _ y => ∀ q, y.request = some q →
      q < r.2.heap.length ∧ (r.2.pdu q).IsRequest)
      |>.mpr ⟨fun q hq => request_perform hK ha h hq, fun u _ q hq => ?_⟩
    obtain ⟨hlt, hreq⟩ := hK.request u q hq
    exact ⟨Nat.lt_of_lt_of_le hlt hlen, (kind_perform h hlt).2.2.mpr hreq⟩
  · intro q hq
    rcases queued_perform h hk hq with hq | ⟨l, rfl⟩
    · exact hkept q (hi.queued q hq) (hK.queued q hq)
    · exact hkept q (hK.outbound t q ha).1 (hK.outbound t q ha).2

/-! ## The numbers in use -/

/-- The PDU has been given a number. The smallest one cannot be told from none by looking at the PDU. -/
def HasNumber (s : Session) (x : Tid → Tally) (r : Ref) : Prop :=
  SequenceNumber.Min < (s.pdu r).sequenceNumber ∨ ∃ u, (x u).first = some r

/-- A request that is on its way out of the session, or has been. -/
def Session.Outgoing (s : Session) (r : Ref) : Prop :=
  (s.Queued r ∨ s.Fresh r) ∧ (s.pdu r).IsRequest ∧ ¬(s.pdu r).IsInbound

/-- **The numbers in use**: each has been drawn, and belongs to one request; what has been written has
one, and an entry of `w4rQ` stands under the number of its request, or, for the request that was given
the smallest number, under that. -/
structure Assigned (s : Session) (x : Tid → Tally) : Prop where
  first : ∀ u r, (x u).first = some r → ∀ u', (x u').drawn ≠ some SequenceNumber.Min
  passed : ∀ u r, (x u).first = some r → SequenceNumber.Min < s.mVal
  firstOnly : ∀ u u' r r', (x u).first = some r → (x u').first = some r' → r = r'
  numbered : ∀ u r, (x u).numbered = some r → r < s.heap.length ∧ HasNumber s x r
  below : ∀ r, s.Outgoing r → SequenceNumber.Min < (s.pdu r).sequenceNumber →
    (s.pdu r).sequenceNumber < s.mVal ∧ ∀ u, (x u).drawn ≠ some (s.pdu r).sequenceNumber
  unique : ∀ r r', s.Outgoing r → s.Outgoing r' → SequenceNumber.Min < (s.pdu r).sequenceNumber →
    (s.pdu r).sequenceNumber = (s.pdu r').sequenceNumber → r = r'
  slot : ∀ r, s.slot = some r → HasNumber s x r ∨ ∃ u, s.pdu2send u = some r
  entry : ∀ (k : Nat) (e : TimeStampedPdu), s.w4rQ[k]? = some e → (s.pdu e.obj).IsRequest ∧
    ((s.pdu e.obj).sequenceNumber = k ∧ HasNumber s x e.obj ∨
      k ≤ SequenceNumber.Min ∧ ∃ u, (x u).first = some e.obj)

section

variable {op : Op} {r : op.Res × Session}

/-- Only `setSeq` gives the smallest number to a PDU. -/
theorem first_next {y : Tally} (b : op.Res) :
    (numbering.next y op b).first = y.first ∨
      ∃ q n, op = .setSeq q n ∧ n ≤ SequenceNumber.Min ∧ (numbering.next y op b).first = some q := by
  cases op with
  | lock m => cases m <;> exact .inl rfl
  | unlock m => cases m <;> exact .inl rfl
  | w4rAt k => cases b <;> exact .inl rfl
  | setVal v => exact .inl y.draw_same.1
  | setSeq q n =>
      by_cases hn : n ≤ SequenceNumber.Min
      · exact .inr ⟨q, n, rfl, hn, if_pos (decide_eq_true hn)⟩
      · refine .inl (if_neg ?_)
        rw [Tally.unassigned, decide_eq_true_eq]
        exact hn
  | _ => exact .inl rfl

/-- The smallest number goes to a PDU when the thread has drawn it. -/
theorem first_perform (hG : Generated s x) (ha : numbering.allows (x t) op) (b : op.Res) (u : Tid) :
    (Function.update x t (numbering.next (x t) op b) u).first = (x u).first ∨
      (u = t ∧ (x t).drawn = some SequenceNumber.Min ∧ ∃ q, op = .setSeq q SequenceNumber.Min ∧
        (Function.update x t (numbering.next (x t) op b) u).first = some q) := by
  by_cases hut : u = t
  · subst hut
    rw [Function.update_self]
    rcases first_next (y := x u) b with hsame | ⟨q, n, rfl, hn, hq⟩
    · exact .inl hsame
    · have hdrawn : (x u).drawn = some n := ha
      obtain rfl : n = SequenceNumber.Min := Nat.le_antisymm hn (hG.drawn u n hdrawn).1
      exact .inr ⟨rfl, hdrawn, q, rfl, hq⟩
  · rw [Function.update_of_ne hut]
    exact .inl rfl

/-- Which PDU has the smallest number does not change. -/
theorem first_stays (hG : Generated s x) (hA : Assigned s x) (ha : numbering.allows (x t) op)
    (b : op.Res) {u : Tid} {q : Ref} (hq : (x u).first = some q) :
    (Function.update x t (numbering.next (x t) op b) u).first = some q := by
  rcases first_perform hG ha b u with hsame | ⟨-, hdrawn, -⟩
  · exact hsame.trans hq
  · exact absurd hdrawn (hA.first u q hq t)

/-- A number above the smallest stays with its PDU. -/
theorem number_stays (hk : Known t op s) (h : perform cfg t op s = some r) {q : Ref}
    (hq : q < s.heap.length) (hn : SequenceNumber.Min < (s.pdu q).sequenceNumber) :
    (r.2.pdu q).sequenceNumber = (s.pdu q).sequenceNumber := by
  rw [pdu_perform h hq]
  rintro n rfl
  exact absurd hk.2.2 (Nat.not_le.mpr hn)

/-- A PDU with a number keeps it. -/
theorem hasNumber_perform (hG : Generated s x) (hA : Assigned s x) (hk : Known t op s)
    (ha : numbering.allows (x t) op) (h : perform cfg t op s = some r) {q : Ref}
    (hq : q < s.heap.length) (hnum : HasNumber s x q) :
    HasNumber r.2 (Function.update x t (numbering.next (x t) op r.1)) q := by
  rcases hnum with hnum | ⟨u, hu⟩
  · left
    rw [number_stays hk h hq hnum]
    exact hnum
  · exact .inr ⟨u, first_stays hG hA ha r.1 hu⟩

/-- A request is outgoing because it was so before, or because it has just been constructed. -/
theorem outgoing_perform (hi : Inv s) (hk : Known t op s) (h : perform cfg t op s = some r) {q : Ref}
    (hq : r.2.Outgoing q) : (q < s.heap.length ∧ s.Outgoing q) ∨ (q = s.heap.length ∧ ∃ p, op = .newPdu p) := by
  obtain ⟨hq, hreq, hin⟩ := hq
  have hold : s.Queued q ∨ s.Fresh q ∨ (q = s.heap.length ∧ ∃ p, op = .newPdu p) := by
    rcases hq with hq | hq
    · rcases queued_perform h hk hq with hq | ⟨l, rfl⟩
      · exact .inl hq
      · rcases hk.2 with hq | ⟨-, -, hq⟩
        · exact .inr (.inl (.inl ⟨t, hq⟩))
        · exact .inl (.awaiting hq)
    · exact .inr (fresh_perform h hq)
  rcases or_assoc.mpr hold with hold | hnew
  · have hlt : q < s.heap.length := hold.elim (hi.queued q) (hi.fresh q)
    have hkind := kind_perform h hlt
    exact .inl ⟨hlt, hold, hkind.2.2.mp hreq, fun hin' => hin (hkind.2.1.mpr hin')⟩
  · exact .inr hnew

/-- **Where the number of a request comes from**: the request had it before, or the thread had drawn it,
gives it away with this operation, and all other requests keep theirs. -/
theorem number_perform (hi : Inv s) (hk : Known t op s) (ha : numbering.allows (x t) op)
    (h : perform cfg t op s = some r) {q : Ref} (hq : r.2.Outgoing q)
    (hn : SequenceNumber.Min < (r.2.pdu q).sequenceNumber) :
    (s.Outgoing q ∧ (r.2.pdu q).sequenceNumber = (s.pdu q).sequenceNumber) ∨
      ((x t).drawn = some (r.2.pdu q).sequenceNumber ∧ (numbering.next (x t) op r.1).drawn = none ∧
        r.2.mVal = s.mVal ∧ ∀ q', r.2.Outgoing q' → q' ≠ q →
          s.Outgoing q' ∧ (r.2.pdu q').sequenceNumber = (s.pdu q').sequenceNumber) := by
  rcases outgoing_perform hi hk h hq with ⟨hlt, hout⟩ | ⟨rfl, p, rfl⟩
  · -- a PDU that exists: its number is set, or it is left as it was
    by_cases hop : ∃ n, op = .setSeq q n
    · obtain ⟨n, rfl⟩ := hop
      right
      refine ⟨?_, rfl, by cases h; rfl, fun q' hq' hne => ?_⟩
      · cases h
        have hnum : (Session.pdu { s with
            heap := s.heap.modify q fun p => { p with sequenceNumber := n } } q).sequenceNumber = n := by
          simp [Session.pdu, hlt]
        rw [hnum]
        exact ha
      · rcases outgoing_perform hi hk h hq' with ⟨hlt', hout'⟩ | ⟨-, p, hp⟩
        · refine ⟨hout', ?_⟩
          rw [pdu_perform h hlt' fun m hm => hne (by cases hm; rfl)]
        · cases hp
    · left
      refine ⟨hout, ?_⟩
      rw [pdu_perform h hlt fun n hn => hop ⟨n, hn⟩]
  · right
    -- a PDU that has just been constructed: only a drawn number can be above `Min`
    have hp : r.2.pdu s.heap.length = p := by
      cases h
      simp [Session.pdu, Session.record]
    refine ⟨?_, rfl, perform_same (f := .mVal) h (by simp), fun q' hq' hne => ?_⟩
    · rw [hp] at hn ⊢
      obtain ⟨-, hreq, hin⟩ := hq
      rw [hp] at hreq hin
      rcases ha with ha | ha | ha | ha
      · exact absurd ha hin
      · exact absurd hreq ha
      · exact absurd ha (Nat.not_le.mpr hn)
      · exact ha
    · rcases outgoing_perform hi hk h hq' with ⟨hlt', hout'⟩ | ⟨rfl, -⟩
      · refine ⟨hout', ?_⟩
        rw [pdu_perform h hlt' fun m hm => by cases hm]
      · exact absurd rfl hne

/-- A thread knows that a PDU has a number because it has read or given it. -/
theorem numbered_next (hi : Inv s) (hG : Generated s x) (hK : Grasped s x) (hA : Assigned s x)
    (hk : Known t op s) (ha : numbering.allows (x t) op) (h : perform cfg t op s = some r) {q : Ref}
    (hq : (numbering.next (x t) op r.1).numbered = some q) :
    q < s.heap.length ∧ HasNumber r.2 (Function.update x t (numbering.next (x t) op r.1)) q := by
  have hold : (x t).numbered = some q →
      q < s.heap.length ∧ HasNumber r.2 (Function.update x t (numbering.next (x t) op r.1)) q := by
    intro hq
    obtain ⟨hlt, hnum⟩ := hA.numbered t q hq
    exact ⟨hlt, hasNumber_perform hG hA hk ha h hlt hnum⟩
  cases op with
  | lock m => cases m <;> exact hold hq
  | unlock m => cases m <;> exact hold hq
  | setVal v => exact hold ((x t).draw_same.2.2.2.1.symm.trans hq)
  | w4rAt k =>
      obtain ⟨b, s'⟩ := r
      cases b <;> exact hold hq
  | getPdu q' =>
      have hread : (if Tally.unassigned r.1.sequenceNumber then (x t).numbered else some q') = some q := hq
      split at hread
      · exact hold hread
      · next hn =>
          obtain rfl : q' = q := Option.some.inj hread
          cases h
          rw [Tally.unassigned, decide_eq_true_eq, Nat.not_le] at hn
          exact ⟨hK.subject t q' ha, .inl hn⟩
  | setSeq q' n =>
      obtain rfl : q' = q := Option.some.inj hq
      have hlt : q' < s.heap.length :=
        hi.queued q' (.flight (Session.mem_inFlight.mpr (.inl ⟨t, hk.2.1⟩)))
      refine ⟨hlt, ?_⟩
      -- a number above the smallest shows in the PDU; the smallest one is on the thread's account
      by_cases hn : SequenceNumber.Min < n
      · left
        cases h
        simpa [Session.pdu, hlt] using hn
      · right
        refine ⟨t, ?_⟩
        rw [Function.update_self]
        exact if_pos (decide_eq_true (Nat.not_lt.mp hn))
  | _ => exact hold hq

/-- What was popped last has a number, or is still in the hands of the thread that popped it. -/
theorem slot_numbered (hi : Inv s) (hG : Generated s x) (hA : Assigned s x) (hk : Known t op s)
    (ha : numbering.allows (x t) op) (h : perform cfg t op s = some r) {q : Ref}
    (hq : r.2.slot = some q) :
    HasNumber r.2 (Function.update x t (numbering.next (x t) op r.1)) q ∨
      ∃ u, r.2.pdu2send u = some q := by
  rcases slot_perform h hq with hold | ⟨rfl, hpop⟩
  · -- what was popped last has a number, or is on its way to the socket
    rcases hA.slot q hold with hnum | ⟨u, hu⟩
    · exact .inl (hasNumber_perform hG hA hk ha h (hi.queued q (.slot hold)) hnum)
    -- once it is handed to `async_write` its number is known to be assigned
    · by_cases hop : ∃ tbuf, op = .asyncWrite q tbuf
      · obtain ⟨tbuf, rfl⟩ := hop
        obtain ⟨hlt, hnum⟩ := hA.numbered t q ha
        exact .inl (hasNumber_perform hG hA hk ha h hlt hnum)
      · refine .inr ⟨u, ?_⟩
        by_cases hut : u = t
        · subst hut
          by_cases hw : Field.pdu2send ∈ op.writes
          · cases op with
            | txPop =>
                rw [hk.2.1] at hu
                cases hu
            | asyncWrite q' tbuf =>
                have hq' : s.pdu2send u = some q' := hk.2.1
                rw [hu, Option.some.injEq] at hq'
                exact absurd ⟨tbuf, by rw [hq']⟩ hop
            | _ => simp at hw
          · have hp : r.2.pdu2send = s.pdu2send := perform_same (f := .pdu2send) h hw
            rw [hp]
            exact hu
        · rw [(perform_local h hut).1]
          exact hu
  · -- it has just been popped, and is in the thread's hands
    cases h
    have hp : Function.update s.pdu2send t s.txQ.pop.1 t = s.txQ.pop.1 := Function.update_self ..
    exact .inr ⟨t, hp.trans hpop⟩

/-- **The PDU that `w4rQ_put` records has a number**: no thread has it in its hands any more. -/
theorem hasNumber_w4rInsert (hi : Inv s) (hK : Grasped s x) (hA : Assigned s x) {q : Ref}
    (hk : Known t (.w4rInsert q) s) : HasNumber s x q := by
  obtain ⟨-, hphase, -, hslot⟩ := hk
  refine (hA.slot q hslot).resolve_right fun hu => ?_
  obtain ⟨u, hu⟩ := hu
  have hpopped := hK.popped u (by rw [hu]; simp)
  have howner := hi.mutex t (by rw [hphase]; decide)
  obtain rfl : u = t :=
    Option.some.inj ((hi.mutex u (by rw [hpopped]; decide)).symm.trans howner)
  rw [hphase] at hpopped
  cases hpopped

/-- A number that was drawn before, and is given away by this operation, is drawn by nobody now. -/
theorem drawn_gone (hG : Generated s x) {b : op.Res} {n : Nat} (hn : (x t).drawn = some n)
    (hnone : (numbering.next (x t) op b).drawn = none) (u : Tid) :
    (Function.update x t (numbering.next (x t) op b) u).drawn ≠ some n := by
  intro hu
  by_cases hut : u = t
  · subst hut
    rw [Function.update_self, hnone] at hu
    cases hu
  · rw [Function.update_of_ne hut] at hu
    exact hut (hG.apart u t n hu hn)

/-- The smallest number was given before, or is given by this operation. -/
theorem first_drawn (hG : Generated s x) (ha : numbering.allows (x t) op) {b : op.Res} {u : Tid}
    {q : Ref} (hq : (Function.update x t (numbering.next (x t) op b) u).first = some q) :
    (x u).first = some q ∨ (u = t ∧ (x t).drawn = some SequenceNumber.Min ∧
      (numbering.next (x t) op b).drawn = none) := by
  rcases first_perform hG ha b u with hsame | ⟨hut, hdrawn, q', rfl, -⟩
  · exact .inl (hsame.symm.trans hq)
  · exact .inr ⟨hut, hdrawn, rfl⟩

/-- A number in use is below the generator's value, and nobody has it drawn. -/
theorem below_perform (hi : Inv s) (hG : Generated s x) (hA : Assigned s x) (hk : Known t op s)
    (hg : neverWraps.op t op s) (ha : numbering.allows (x t) op) (h : perform cfg t op s = some r)
    {q : Ref} (hq : r.2.Outgoing q) (hn : SequenceNumber.Min < (r.2.pdu q).sequenceNumber) :
    (r.2.pdu q).sequenceNumber < r.2.mVal ∧ ∀ u,
      (Function.update x t (numbering.next (x t) op r.1) u).drawn ≠
        some (r.2.pdu q).sequenceNumber := by
  rcases number_perform hi hk ha h hq hn with ⟨hout, hsame⟩ | ⟨hdrawn, hnone, hval, -⟩
  · rw [hsame] at hn ⊢
    obtain ⟨hlt, hfree⟩ := hA.below q hout hn
    have hmono := mVal_perform hG hg ha h
    refine ⟨by omega, fun u hu => ?_⟩
    rcases drawn_perform hG hg ha h hu with hu | ⟨-, hval, -⟩
    · exact hfree u hu
    · omega
  · refine ⟨?_, drawn_gone hG hdrawn hnone⟩
    rw [hval]
    exact (hG.drawn t _ hdrawn).2

/-- A number in use belongs to one request. -/
theorem unique_perform (hi : Inv s) (hA : Assigned s x) (hk : Known t op s)
    (ha : numbering.allows (x t) op) (h : perform cfg t op s = some r) {q q' : Ref}
    (hq : r.2.Outgoing q) (hq' : r.2.Outgoing q')
    (hn : SequenceNumber.Min < (r.2.pdu q).sequenceNumber)
    (heq : (r.2.pdu q).sequenceNumber = (r.2.pdu q').sequenceNumber) : q = q' := by
  -- a number just given away was in use by no other request
  have hnew : ∀ q q', r.2.Outgoing q' → SequenceNumber.Min < (r.2.pdu q).sequenceNumber →
      (r.2.pdu q).sequenceNumber = (r.2.pdu q').sequenceNumber →
      (x t).drawn = some (r.2.pdu q).sequenceNumber →
      (q' ≠ q → s.Outgoing q' ∧ (r.2.pdu q').sequenceNumber = (s.pdu q').sequenceNumber) →
      q = q' := by
    intro q q' hq' hn heq hdrawn hothers
    by_contra hne
    obtain ⟨hout, hsame⟩ := hothers (Ne.symm hne)
    rw [heq, hsame] at hdrawn
    exact (hA.below q' hout (by rw [← hsame, ← heq]; exact hn)).2 t hdrawn
  rcases number_perform hi hk ha h hq hn with ⟨hout, hsame⟩ | ⟨hdrawn, -, -, hothers⟩
  · rcases number_perform hi hk ha h hq' (heq ▸ hn) with ⟨hout', hsame'⟩ | ⟨hdrawn', -, -, hothers⟩
    · rw [hsame, hsame'] at heq
      rw [hsame] at hn
      exact hA.unique q q' hout hout' hn heq
    · exact (hnew q' q hq (heq ▸ hn) heq.symm hdrawn' (hothers q hq)).symm
  · exact hnew q q' hq' hn heq hdrawn (hothers q' hq')

/-- An entry stands under the number of its request. -/
theorem entry_assigned (hi : Inv s) (hG : Generated s x) (hK : Grasped s x) (hA : Assigned s x)
    (hk : Known t op s) (ha : numbering.allows (x t) op) (h : perform cfg t op s = some r) {k : Nat}
    {e : TimeStampedPdu} (he : r.2.w4rQ[k]? = some e) :
    (r.2.pdu e.obj).IsRequest ∧
      ((r.2.pdu e.obj).sequenceNumber = k ∧
          HasNumber r.2 (Function.update x t (numbering.next (x t) op r.1)) e.obj ∨
        k ≤ SequenceNumber.Min ∧
          ∃ u, (Function.update x t (numbering.next (x t) op r.1) u).first = some e.obj) := by
  rcases entry_perform h he with hold | ⟨rfl, hkey⟩
  · obtain ⟨hreq, hnum⟩ := hA.entry k e hold
    have hlt : e.obj < s.heap.length := hi.queued e.obj (.awaiting ⟨k, e, hold, rfl⟩)
    refine ⟨(kind_perform h hlt).2.2.mpr hreq, ?_⟩
    -- a number above the smallest is kept, and so is the choice of who has the smallest
    have habove : (s.pdu e.obj).sequenceNumber = k → SequenceNumber.Min < (s.pdu e.obj).sequenceNumber →
        (r.2.pdu e.obj).sequenceNumber = k ∧
          HasNumber r.2 (Function.update x t (numbering.next (x t) op r.1)) e.obj := by
      intro hkey hn
      rw [number_stays hk h hlt hn]
      exact ⟨hkey, hasNumber_perform hG hA hk ha h hlt (.inl hn)⟩
    rcases hnum with ⟨hkey, hnum | ⟨u, hu⟩⟩ | ⟨hlow, u, hu⟩
    · exact .inl (habove hkey hnum)
    · by_cases hlow : k ≤ SequenceNumber.Min
      · exact .inr ⟨hlow, u, first_stays hG hA ha r.1 hu⟩
      · exact .inl (habove hkey (by omega))
    · exact .inr ⟨hlow, u, first_stays hG hA ha r.1 hu⟩
  · -- the entry has just been made
    obtain ⟨hlt, hreq⟩ := hK.request t e.obj ha
    have hnum := hasNumber_w4rInsert hi hK hA hk
    refine ⟨(kind_perform h hlt).2.2.mpr hreq, .inl ⟨?_, hasNumber_perform hG hA hk ha h hlt hnum⟩⟩
    rw [pdu_perform h hlt fun n hn => by cases hn]
    exact hkey

/-- **Every operation keeps the numbers in use distinct.** -/
theorem assigned_perform (hi : Inv s) (hG : Generated s x) (hK : Grasped s x) (hA : Assigned s x)
    (hk : Known t op s) (hg : neverWraps.op t op s) (ha : numbering.allows (x t) op)
    (h : perform cfg t op s = some r) :
    Assigned r.2 (Function.update x t (numbering.next (x t) op r.1)) where
  first u q hq u' hu' := by
    rcases first_drawn hG ha hq with hq | ⟨-, hdrawn, hnone⟩
    · rcases drawn_perform hG hg ha h hu' with hu' | ⟨-, hn, -⟩
      · exact hA.first u q hq u' hu'
      · have := hA.passed u q hq
        omega
    · exact drawn_gone hG hdrawn hnone u' hu'
  passed u q hq := by
    have hmono := mVal_perform hG hg ha h
    rcases first_drawn hG ha hq with hq | ⟨-, hdrawn, -⟩
    · have := hA.passed u q hq
      omega
    · have := (hG.drawn t _ hdrawn).2
      omega
  -- a number that has just been drawn is nobody's first
  firstOnly u u' q q' hq hq' := by
    rcases first_drawn hG ha hq with hold | ⟨hut, hdrawn, -⟩ <;>
      rcases first_drawn hG ha hq' with hold' | ⟨hut', hdrawn', -⟩
    · exact hA.firstOnly u u' q q' hold hold'
    · exact absurd hdrawn' (hA.first u q hold t)
    · exact absurd hdrawn (hA.first u' q' hold' t)
    · rw [hut] at hq
      rw [hut'] at hq'
      exact Option.some.inj (hq.symm.trans hq')
  numbered := by
    refine Function.forall_update_iff x (p := fun _ y => ∀ q, y.numbered = some q →
      q < r.2.heap.length ∧ HasNumber r.2 (Function.update x t (numbering.next (x t) op r.1)) q)
      |>.mpr ⟨fun q hq => ?_, fun u _ q hq => ?_⟩
    · obtain ⟨hlt, hnum⟩ := numbered_next hi hG hK hA hk ha h hq
      exact ⟨(kind_perform h hlt).1, hnum⟩
    · obtain ⟨hlt, hnum⟩ := hA.numbered u q hq
      exact ⟨(kind_perform h hlt).1, hasNumber_perform hG hA hk ha h hlt hnum⟩
  below _ hq hn := below_perform hi hG hA hk hg ha h hq hn
  unique _ _ hq hq' hn heq := unique_perform hi hA hk ha h hq hq' hn heq
  slot _ hq := slot_numbered hi hG hA hk ha h hq
  entry _ _ he := entry_assigned hi hG hK hA hk ha h he

end

/-! ## The environment, the start of jobs, and the start of the process -/

/-- **The numbering of a session**: generator, knowledge of the threads, and numbers in use. -/
structure Counted (s : Session) (x : Tid → Tally) : Prop where
  generated : Generated s x
  grasped : Grasped s x
  assigned : Assigned s x

/-- Nothing is added to a session but objects; requests among them have no number yet. -/
structure Extends (s s' : Session) : Prop where
  mVal : s'.mVal = s.mVal
  owner : s'.owner = s.owner
  pdu2send : s'.pdu2send = s.pdu2send
  phase : s'.phase = s.phase
  w4rQ : s'.w4rQ = s.w4rQ
  slot : s'.slot = s.slot
  heap : s.heap.length ≤ s'.heap.length
  pdu : ∀ r, r < s.heap.length → s'.pdu r = s.pdu r
  queued : ∀ r, s'.Queued r → s.Queued r
  fresh : ∀ r, s'.Fresh r →
    s.Fresh r ∨ (s'.pdu r).sequenceNumber ≤ SequenceNumber.Min

section

variable {s' : Session}

/-- A change that only extends the session leaves the generator's numbers as they are. -/
theorem Generated.extend (hG : Generated s x) (h : Extends s s') : Generated s' x := by
  refine ⟨?_, ?_, ?_, ?_, hG.apart⟩
  · rw [h.mVal]
    exact hG.low
  · rw [h.owner]
    exact hG.owner
  · rw [h.mVal]
    exact hG.read
  · rw [h.mVal]
    exact hG.drawn

/-- What the threads know of the PDUs outlasts a change that only extends the session. -/
theorem Grasped.extend (hi : Inv s) (hK : Grasped s x) (h : Extends s s') : Grasped s' x := by
  refine ⟨?_, ?_, fun u r hr => ?_, fun u r hr => ?_, fun u r hr => ?_, fun r hr => ?_⟩
  · rw [h.pdu2send]
    exact hK.holding
  · rw [h.pdu2send, h.phase]
    exact hK.popped
  · exact Nat.lt_of_lt_of_le (hK.subject u r hr) h.heap
  · obtain ⟨hlt, hin⟩ := hK.outbound u r hr
    rw [h.pdu r hlt]
    exact ⟨Nat.lt_of_lt_of_le hlt h.heap, hin⟩
  · obtain ⟨hlt, hreq⟩ := hK.request u r hr
    rw [h.pdu r hlt]
    exact ⟨Nat.lt_of_lt_of_le hlt h.heap, hreq⟩
  · have hold := h.queued r hr
    rw [h.pdu r (hi.queued r hold)]
    exact hK.queued r hold

/-- A change that only extends the session gives no number away. -/
theorem Assigned.extend (hi : Inv s) (hA : Assigned s x) (h : Extends s s') : Assigned s' x := by
  -- what is asked of objects is asked of old ones, which are unchanged
  have hnum : ∀ r, r < s.heap.length → HasNumber s x r → HasNumber s' x r := by
    intro r hr hn
    unfold HasNumber
    rw [h.pdu r hr]
    exact hn
  have hout : ∀ r, s'.Outgoing r → SequenceNumber.Min < (s'.pdu r).sequenceNumber →
      s.Outgoing r ∧ s'.pdu r = s.pdu r := by
    rintro r ⟨hr, hreq, hin⟩ hn
    have hold : s.Queued r ∨ s.Fresh r := by
      rcases hr with hr | hr
      · exact .inl (h.queued r hr)
      · exact .inr ((h.fresh r hr).resolve_right (Nat.not_le.mpr hn))
    have hsame := h.pdu r (hold.elim (hi.queued r) (hi.fresh r))
    rw [hsame] at hreq hin
    exact ⟨⟨hold, hreq, hin⟩, hsame⟩
  refine ⟨hA.first, ?_, hA.firstOnly, fun u r hr => ?_, fun r hr hn => ?_, fun r r' hr hr' hn heq => ?_,
    fun r hr => ?_, fun k e he => ?_⟩
  · rw [h.mVal]
    exact hA.passed
  · obtain ⟨hlt, hn⟩ := hA.numbered u r hr
    exact ⟨Nat.lt_of_lt_of_le hlt h.heap, hnum r hlt hn⟩
  · obtain ⟨hold, hsame⟩ := hout r hr hn
    rw [hsame] at hn ⊢
    rw [h.mVal]
    exact hA.below r hold hn
  · obtain ⟨hold, hsame⟩ := hout r hr hn
    obtain ⟨hold', hsame'⟩ := hout r' hr' (heq ▸ hn)
    rw [hsame, hsame'] at heq
    rw [hsame] at hn
    exact hA.unique r r' hold hold' hn heq
  · rw [h.slot] at hr
    rw [h.pdu2send]
    exact (hA.slot r hr).imp_left (hnum r (hi.queued r (.slot hr)))
  · rw [h.w4rQ] at he
    have hlt : e.obj < s.heap.length := hi.queued e.obj (.awaiting ⟨k, e, he, rfl⟩)
    obtain ⟨hreq, hn⟩ := hA.entry k e he
    rw [h.pdu _ hlt]
    exact ⟨hreq, hn.imp_left fun hn => ⟨hn.1, hnum _ hlt hn.2⟩⟩

/-- **A change that only extends the session keeps the numbering.** -/
theorem Counted.extend (hi : Inv s) (hC : Counted s x) (h : Extends s s') : Counted s' x :=
  ⟨hC.generated.extend h, hC.grasped.extend hi h, hC.assigned.extend hi h⟩

end

/-- The environment adds PDUs without a number at most. -/
theorem extends_env (hnew : cfg.newSeq ≤ SequenceNumber.Min) {e : Env} {s' : Session}
    (h : e.perform cfg s = some s') : Extends s s' where
  mVal := env_same (f := .mVal) h (by simp)
  owner := env_same (f := .owner) h (by simp)
  pdu2send := env_same (f := .pdu2send) h (by simp)
  phase := env_same (f := .phase) h (by simp)
  w4rQ := env_same (f := .w4rQ) h (by simp)
  slot := slot_env h
  heap := (pdu_env h).1
  pdu := (pdu_env h).2
  queued _ hr := queued_env h hr
  fresh r hr := by
    refine (fresh_env h hr).imp_right fun hr => ?_
    obtain ⟨rfl, hlt⟩ := hr
    cases e with
    | submit body =>
        cases h
        simpa [Session.pdu, Session.record] using hnew
    | complete io raw er =>
        obtain ⟨-, rfl⟩ := Env.perform_complete h
        unfold Session.connectDone at hlt
        split at hlt <;> exact absurd hlt (Nat.lt_irrefl _)
    | expire tm =>
        obtain ⟨-, rfl⟩ := Env.perform_expire h
        exact absurd hlt (Nat.lt_irrefl _)
    | elapse us => cases h; exact absurd hlt (Nat.lt_irrefl _)
    | reply a => cases h; exact absurd hlt (Nat.lt_irrefl _)

/-- The start of a job adds nothing. -/
theorem extends_take {j : Job} {s' : Session} (hidle : Quiet j.thread s) (h : j.take s = some s') :
    Extends s s' := by
  have hin : s'.inHand = s.inHand := take_same (f := .inHand) h (by simp)
  have hbuf : s'.sendingBuffer = s.sendingBuffer := take_same (f := .sendingBuffer) h (by simp)
  refine ⟨take_same (f := .mVal) h (by simp), take_same (f := .owner) h (by simp),
    take_same (f := .pdu2send) h (by simp), take_same (f := .phase) h (by simp),
    take_same (f := .w4rQ) h (by simp), slot_take h, (pdu_take h).1, fun r _ => (pdu_take h).2 r,
    fun r hr => queued_take h hidle hr, fun r hr => .inl ?_⟩
  unfold Session.Fresh at hr
  rw [hin, hbuf] at hr
  exact hr

/-- A thread that has done nothing yet. -/
def Tally.start : Tally := ⟨.outside, none, none, false, none, none, none, none⟩

/-- The PDUs of the sending buffer have the numbers an earlier process has left them with. -/
theorem number_init {p : Persisted} {now : Nat} {r : Ref} (h : (Session.init p now).Fresh r) :
    ∃ q ∈ p.sending, ((Session.init p now).pdu r).sequenceNumber = q.sequenceNumber := by
  obtain ⟨hlow, hlt⟩ := fresh_init h
  have hi : r - p.message.length < p.sending.length := Nat.sub_lt_left_of_lt_add hlow hlt
  refine ⟨_, List.get_mem p.sending ⟨_, hi⟩, ?_⟩
  have hheap : (Session.init p now).heap = p.heap := rfl
  unfold Session.pdu
  rw [hheap, Persisted.heap, List.getD_eq_getElem?_getD, List.getElem?_map]
  simp only [List.append_assoc]
  rw [List.getElem?_append_right hlow, List.getElem?_append_left hi, List.getElem?_eq_getElem hi]
  rfl

/-- At the start nothing is numbered: on the message level is nothing, and in the sending buffer are PDUs
without a number. -/
theorem counted_init {p : Persisted} {now : Nat} (hmsg : p.message = [])
    (hsend : ∀ q ∈ p.sending, q.sequenceNumber ≤ SequenceNumber.Min) :
    Counted (Session.init p now) fun _ => Tally.start := by
  have hqueued : ∀ r, ¬(Session.init p now).Queued r := by
    intro r hr
    have := queued_init hr
    rw [hmsg] at this
    exact absurd this (Nat.not_lt_zero r)
  have hout : ∀ r, (Session.init p now).Outgoing r →
      ¬SequenceNumber.Min < ((Session.init p now).pdu r).sequenceNumber := by
    rintro r ⟨hr, -⟩ hn
    obtain ⟨q, hq, heq⟩ := number_init (hr.resolve_left (hqueued r))
    rw [heq] at hn
    exact absurd (hsend q hq) (Nat.not_le.mpr hn)
  have hnone : ∀ {α : Type} {a : α} {q : Prop}, (none : Option α) = some a → q := fun h => nomatch h
  constructor
  · exact ⟨Nat.le_refl _, fun _ hu => absurd rfl hu, fun _ _ h => (nomatch (h : Drawing.outside = .read _)),
      fun _ _ h => hnone h, fun _ _ _ h => hnone h⟩
  · exact ⟨fun _ _ => rfl, fun _ hu => absurd rfl hu, fun _ _ h => hnone h,
      fun _ _ h => hnone h, fun _ _ h => hnone h, fun r hr => absurd hr (hqueued r)⟩
  · exact ⟨fun _ _ h => hnone h, fun _ _ h => hnone h, fun _ _ _ _ h => hnone h,
      fun _ _ h => hnone h, fun r hr hn => absurd hn (hout r hr),
      fun r _ hr _ hn => absurd hn (hout r hr), fun r hr => absurd (.slot hr) (hqueued r),
      fun k e he => absurd (.awaiting ⟨k, e, he, rfl⟩) (hqueued e.obj)⟩

/-- **The numbering of a run** in which the generator does not start over. -/
theorem Runs.counted {p : Persisted} {now : Nat} {c : Machine}
    (hnew : cfg.newSeq ≤ SequenceNumber.Min) (hmsg : p.message = [])
    (hsend : ∀ q ∈ p.sending, q.sequenceNumber ≤ SequenceNumber.Min)
    (h : Runs cfg neverWraps p now c) :
    ∃ x, Counted c.shared x ∧ ∀ t, (c.code t).Follows numbering (fun _ => Tally.Ready) (x t) := by
  have hidle : ∀ t, ((Machine.init p now).code t).Follows numbering (fun _ => Tally.Ready) Tally.start :=
    fun _ => ⟨rfl, rfl⟩
  have hrun := Reach.protocol (I := fun _ => Tally.Ready) (K := fun s x => Inv s ∧ Counted s x) hidle
    (fun j x hx => numbering_body hnew j x hx) ⟨inv_init p now, counted_init hmsg hsend⟩ ?_ ?_ ?_
    h.disciplined
  · obtain ⟨x, ⟨-, hC⟩, hfol⟩ := hrun
    exact ⟨x, hC, hfol⟩
  · rintro t op s x r ⟨hi, hG, hK, hA⟩ ⟨hg, -, -, hk⟩ ha hx
    obtain ⟨-, hx⟩ := perform_of_exec hx
    exact ⟨inv_perform hx hk hi, generated_perform hG hg ha hx, grasped_perform hi hK hk ha hx,
      assigned_perform hi hG hK hA hk hg ha hx⟩
  · rintro e s s' x ⟨hi, hC⟩ hx
    exact ⟨inv_env hx hi, hC.extend hi (extends_env hnew hx)⟩
  · rintro j s s' x ⟨hi, hC⟩ ⟨-, -, hidle⟩ hx
    exact ⟨inv_take hx hidle hi, hC.extend hi (extends_take hidle hx)⟩

end KissSmpp
