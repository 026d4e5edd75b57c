import KissSmpp.Properties.Numbers
import KissSmpp.Session.Lanes

/-! # What the peer gets to see of numbers

A PDU can be handed to `async_write` more than once: after a failed write, or because the ageing sweep has
queued it again. `resent_unchanged` says that it is encoded the same way each time, number and all, so that
the peer can tell a repeated request from a new one; the exception is a PDU that went out with the smallest
number, which passes for unassigned.

`legal_numbers` says that no PDU leaves without a number, and that the session's own requests have numbers in
the range of the protocol, also after the generator has started over; `numbers_identify` that until then a number
stands for one request. -/

namespace KissSmpp

open Interleave Queue

variable {cfg : Params} {t : Tid} {s s' : Session} {p : Persisted} {now : Nat} {c : Machine}

namespace Session

/-- The encodings handed to `async_write`, each with its PDU, the latest first. -/
def encodings (s : Session) : List (Ref × Pdu) := s.hist.filterMap Event.wrote?

/-- An encoding has been handed over if a write of it is on record. -/
theorem mem_encodings {w : Ref × Pdu} :
    w ∈ s.encodings ↔ ∃ st conn, .wrote w.1 w.2 st conn ∈ s.hist := by
  simp only [encodings, List.mem_filterMap]
  constructor
  · rintro ⟨ev, hev, hw⟩
    cases ev with
    | wrote r tbuf st conn =>
        cases hw
        exact ⟨st, conn, hev⟩
    | _ => cases hw
  · rintro ⟨st, conn, hev⟩
    exact ⟨_, hev, rfl⟩

/-- **What has been written with a number is what would be written now.** -/
def Settles (s : Session) : Prop :=
  ∀ w ∈ s.encodings, SequenceNumber.Min < w.2.sequenceNumber → w.1 < s.heap.length ∧ s.pdu w.1 = w.2

/-- **What is written again is written unchanged**, if it had a number. -/
def Resends (s : Session) : Prop :=
  s.encodings.Pairwise fun later earlier =>
    later.1 = earlier.1 → SequenceNumber.Min < earlier.2.sequenceNumber → later.2 = earlier.2

end Session

open Session

/-! ## Writing again -/

/-- What an operation records of encodings. -/
theorem encodings_perform {op : Op} {x : op.Res × Session} (h : perform cfg t op s = some x) :
    x.2.encodings = (op.logs s).filterMap Event.wrote? ++ s.encodings := by
  unfold Session.encodings
  rw [perform_hist h, List.filterMap_append]

/-- **Numbers are only set in place of numbers that pass for unassigned.** -/
theorem pdu_perform_numbered {op : Op} {x : op.Res × Session} (h : perform cfg t op s = some x)
    (hk : Known t op s) {r : Ref} (hr : r < s.heap.length)
    (hn : SequenceNumber.Min < (s.pdu r).sequenceNumber) : x.2.pdu r = s.pdu r := by
  refine pdu_perform h hr ?_
  rintro n rfl
  exact absurd hk.2.2 (Nat.not_le.mpr hn)

/-- **Every operation leaves what has been written as it would be written now.** -/
theorem settles_perform {op : Op} {x : op.Res × Session} (hi : Inv s) (hS : s.Settles)
    (hk : Known t op s) (h : perform cfg t op s = some x) : x.2.Settles := by
  intro w hw hn
  rw [encodings_perform h, List.mem_append] at hw
  rcases hw with hw | hw
  · -- it has just been written
    cases op with
    | asyncWrite r tbuf =>
        obtain ⟨-, hsend, rfl⟩ := hk
        obtain rfl : w = (r, s.pdu r) := List.mem_singleton.mp hw
        have hr : r < s.heap.length :=
          hi.queued r (.flight (Session.mem_inFlight.mpr (.inl ⟨t, hsend⟩)))
        exact ⟨Nat.lt_of_lt_of_le hr (heap_perform h), pdu_perform h hr fun n hop => by cases hop⟩
    | _ => cases hw
  · obtain ⟨hr, hpdu⟩ := hS w hw hn
    refine ⟨Nat.lt_of_lt_of_le hr (heap_perform h), ?_⟩
    rw [pdu_perform_numbered h hk hr (hpdu ▸ hn), hpdu]

/-- **What is written again is what was written before.** -/
theorem resends_perform {op : Op} {x : op.Res × Session} (hS : s.Settles) (hR : s.Resends)
    (hk : Known t op s) (h : perform cfg t op s = some x) : x.2.Resends := by
  unfold Session.Resends
  rw [encodings_perform h]
  cases op with
  | asyncWrite r tbuf =>
      refine List.Pairwise.cons ?_ hR
      rintro w hw rfl hn
      obtain ⟨-, -, rfl⟩ := hk
      exact (hS w hw hn).2
  | _ => exact hR

/-- Where nothing is written, and the objects stay, so do the encodings. -/
theorem settles_same (hw : s'.encodings = s.encodings) (hlen : s.heap.length ≤ s'.heap.length)
    (hpdu : ∀ r, r < s.heap.length → s'.pdu r = s.pdu r) (hS : s.Settles) (hR : s.Resends) :
    s'.Settles ∧ s'.Resends := by
  constructor
  · intro w hmem hn
    rw [hw] at hmem
    obtain ⟨hr, hsame⟩ := hS w hmem hn
    exact ⟨Nat.lt_of_lt_of_le hr hlen, (hpdu w.1 hr).trans hsame⟩
  · unfold Session.Resends
    rw [hw]
    exact hR

/-- The environment hands no encoding to `async_write`. -/
theorem encodings_env {e : Env} (h : e.perform cfg s = some s') : s'.encodings = s.encodings := by
  have hlogs : (e.logs s).filterMap Event.wrote? = [] := by
    unfold Env.logs
    split <;> rfl
  unfold Session.encodings
  rw [env_hist h, List.filterMap_append, hlogs, List.nil_append]

/-- The start of a job hands no encoding to `async_write`. -/
theorem encodings_take {j : Job} (h : j.take s = some s') : s'.encodings = s.encodings := by
  have hlogs : j.logs.filterMap Event.wrote? = [] := by cases j <;> rfl
  unfold Session.encodings
  rw [take_hist h, List.filterMap_append, hlogs, List.nil_append]

/-- In every run, what has been written with a number stays as it is. -/
theorem Runs.settled {g : Guard Op Tid Session Job} (h : Runs cfg g p now c) :
    c.shared.Settles ∧ c.shared.Resends := by
  refine h.data (K := fun s => s.Settles ∧ s.Resends) ⟨fun w hw => (by cases hw), .nil⟩ ?_ ?_ ?_
  · rintro t op s x hi ⟨hS, hR⟩ - - hk hx
    exact ⟨settles_perform hi hS hk hx, resends_perform hS hR hk hx⟩
  · rintro e s s' - ⟨hS, hR⟩ hx
    exact settles_same (encodings_env hx) (pdu_env hx).1 (pdu_env hx).2 hS hR
  · rintro j s s' - - ⟨hS, hR⟩ - hx
    exact settles_same (encodings_take hx) (pdu_take hx).1 (fun r _ => (pdu_take hx).2 r) hS hR

/-- **A PDU is encoded the same way each time it is handed to `async_write`**, once it has been handed over
with a number above the smallest. -/
theorem resent_unchanged (h : Runs cfg Guard.free p now c) : c.shared.Resends := h.settled.2

/-- A message is sent and awaits its response; after half a minute the ageing sweep sends it again, up to the call of
`async_write`. -/
def Schedule.sentAgain : List Step :=
  bind ++ sendWritten 1 ++ [.env (.elapse 31000000), .env (.expire .w4rQAgeing)] ++
    .start (.handler (.w4rQAgeCleanup .success)) :: turn .io 15

/-- Both times it has the number `3`. -/
theorem resent_unchanged_sentAgain :
    (Machine.after sampleParams .none Schedule.sentAgain).shared.encodings.map
        (fun w => (w.1, w.2.sequenceNumber)) = [(1, 3), (1, 3), (0, 2)] ∧
      (Machine.after sampleParams .none Schedule.sentAgain).shared.Resends :=
  ⟨by decide +kernel, resent_unchanged (runs_after _ _ _)⟩

/-! ## Numbers in the range of the protocol -/

/-- **The range of numbers** that the protocol has for requests. -/
def SequenceNumber.Legal (n : Nat) : Prop := SequenceNumber.Min ≤ n ∧ n ≤ SequenceNumber.Max

/-- The PDU is a request of the session or of the application, and not one of the peer's. -/
def Pdu.IsOwn (q : Pdu) : Prop := q.IsRequest ∧ ¬q.IsInbound

variable {x : Tid → Tally}

namespace Session

/-- **The numbers are legal**: those in the generator, those that threads have drawn, those of PDUs that
threads know to have one, and those of the requests made since the start, which begins with the objects of
`p`. -/
structure Ranged (p : Persisted) (s : Session) (x : Tid → Tally) : Prop where
  val : SequenceNumber.Legal s.mVal
  read : ∀ u v, (x u).drawing = .read v → SequenceNumber.Legal v
  drawn : ∀ u n, (x u).drawn = some n → SequenceNumber.Legal n
  numbered : ∀ u r, (x u).numbered = some r →
    r < s.heap.length ∧ SequenceNumber.Min ≤ (s.pdu r).sequenceNumber
  own : ∀ r, p.heap.length ≤ r → r < s.heap.length → (s.pdu r).IsOwn →
    (s.pdu r).sequenceNumber ≤ SequenceNumber.Max

/-- **What has been written has a legal number**, if it is a request made since the start, and a number
anyway. -/
def Legal (p : Persisted) (s : Session) : Prop :=
  ∀ w ∈ s.encodings, SequenceNumber.Min ≤ w.2.sequenceNumber ∧
    (p.heap.length ≤ w.1 → w.2.IsOwn → w.2.sequenceNumber ≤ SequenceNumber.Max)

end Session

/-- `seqNumGen.next()` leaves the generator at a legal number. -/
theorem legal_next {v : Nat} (hv : SequenceNumber.Legal v) :
    SequenceNumber.Legal (if v < SequenceNumber.Max then v + 1 else SequenceNumber.Min) := by
  obtain ⟨hmin, hmax⟩ := hv
  split
  · exact ⟨Nat.le_succ_of_le hmin, by omega⟩
  · exact ⟨Nat.le_refl _, by decide⟩

/-- What `seqNumGen.next()` returns is a legal number. -/
theorem legal_draw {v : Nat} (hv : SequenceNumber.Legal v) :
    SequenceNumber.Legal (if v < SequenceNumber.Max then v else SequenceNumber.Max) := by
  split
  · exact hv
  · exact ⟨by decide, Nat.le_refl _⟩

/-- A number that is set is one the thread has drawn; other numbers stay. -/
theorem ranged_number {op : Op} {r : op.Res × Session} (hR : s.Ranged p x)
    (ha : numbering.allows (x t) op) (h : perform cfg t op s = some r) {q : Ref}
    (hq : q < s.heap.length) :
    (r.2.pdu q).sequenceNumber = (s.pdu q).sequenceNumber ∨
      SequenceNumber.Legal (r.2.pdu q).sequenceNumber := by
  by_cases hop : ∃ n, op = .setSeq q n
  · obtain ⟨n, rfl⟩ := hop
    have hn : (r.2.pdu q).sequenceNumber = n := by
      cases h
      simp [Session.pdu, hq]
    rw [hn]
    exact .inr (hR.drawn t n ha)
  · exact .inl (by rw [pdu_perform h hq fun n hn => hop ⟨n, hn⟩])

/-- A PDU that a thread knows to have a number it knew before, or it has just seen or set it. -/
theorem numbered_or_seen {op : Op} {y : Tally} {b : op.Res} {q : Ref}
    (hq : (numbering.next y op b).numbered = some q) :
    y.numbered = some q ∨ (∃ n, op = .setSeq q n) ∨ op = .getPdu q := by
  cases op with
  | lock m => cases m <;> exact .inl hq
  | unlock m => cases m <;> exact .inl hq
  | setVal v => exact .inl (y.draw_same.2.2.2.1 ▸ hq)
  | w4rAt k => cases b <;> exact .inl hq
  | setSeq r n => exact .inr (.inl ⟨n, by rw [Option.some.inj hq]⟩)
  | getPdu r =>
      have hq : (if Tally.unassigned b.sequenceNumber then y.numbered else some r) = some q := hq
      split at hq
      · exact .inl hq
      · exact .inr (.inr (by rw [Option.some.inj hq]))
  | _ => exact .inl hq

/-- What is beyond the heap has no number. -/
theorem lt_of_number {q : Ref} (h : SequenceNumber.Min < (s.pdu q).sequenceNumber) :
    q < s.heap.length := by
  by_contra hge
  have hnone : s.heap[q]? = none := List.getElem?_eq_none (Nat.le_of_not_lt hge)
  unfold Session.pdu at h
  rw [List.getD_eq_getElem?_getD, hnone] at h
  exact absurd h (by decide)

/-- The generator is set to what comes after the value read. -/
theorem legal_mVal {op : Op} {r : op.Res × Session} (hR : s.Ranged p x) (ha : numbering.allows (x t) op)
    (h : perform cfg t op s = some r) : SequenceNumber.Legal r.2.mVal := by
  by_cases hop : ∃ v, op = .setVal v
  · obtain ⟨v, rfl⟩ := hop
    obtain ⟨v', hread, rfl⟩ := ha
    cases h
    exact legal_next (hR.read t v' hread)
  · have hval : r.2.mVal = s.mVal := perform_same (f := .mVal) h (by
      cases op with
      | setVal v => exact absurd ⟨v, rfl⟩ hop
      | _ => simp)
    rw [hval]
    exact hR.val

/-- What a thread has read from the generator is legal. -/
theorem legal_read {op : Op} {r : op.Res × Session} (hR : s.Ranged p x) (ha : numbering.allows (x t) op)
    (h : perform cfg t op s = some r) {v : Nat} (hv : (numbering.next (x t) op r.1).drawing = .read v) :
    SequenceNumber.Legal v := by
  cases hop : op.inNext with
  | false =>
      rw [drawing_next r.1 hop] at hv
      exact hR.read t v hv
  | true =>
      cases op with
      | lock m => cases m <;> first | cases hv | cases hop
      | unlock m => cases m <;> first | cases hv | cases hop
      | getVal =>
          cases h
          cases hv
          exact hR.val
      | setVal v' =>
          obtain ⟨v'', hread, -⟩ := ha
          have hv : (x t).draw.drawing = .read v := hv
          unfold Tally.draw at hv
          rw [hread] at hv
          cases hv
      | _ => cases hop

/-- The number that a thread has drawn is legal. -/
theorem legal_drawn {op : Op} {b : op.Res} (hR : s.Ranged p x) (ha : numbering.allows (x t) op) {n : Nat}
    (hn : (numbering.next (x t) op b).drawn = some n) : SequenceNumber.Legal n := by
  by_cases hop : ∃ v, op = .setVal v
  · obtain ⟨v', rfl⟩ := hop
    obtain ⟨v'', hread, -⟩ := ha
    have hn : (x t).draw.drawn = some n := hn
    unfold Tally.draw at hn
    rw [hread] at hn
    rw [← Option.some.inj hn]
    exact legal_draw (hR.read t v'' hread)
  · exact hR.drawn t n (drawn_next (fun v hv => hop ⟨v, hv⟩) hn)

/-- A PDU that a thread knows to be numbered keeps a number of at least `SequenceNumber::Min`. -/
theorem numbered_stays {op : Op} {r : op.Res × Session} (hR : s.Ranged p x) (ha : numbering.allows (x t) op)
    (h : perform cfg t op s = some r) {u : Tid} {q : Ref} (hq : (x u).numbered = some q) :
    q < r.2.heap.length ∧ SequenceNumber.Min ≤ (r.2.pdu q).sequenceNumber := by
  obtain ⟨hlt, hmin⟩ := hR.numbered u q hq
  refine ⟨Nat.lt_of_lt_of_le hlt (heap_perform h), ?_⟩
  rcases ranged_number hR ha h hlt with hsame | hlegal
  · rw [hsame]
    exact hmin
  · exact hlegal.1

/-- A PDU whose number a thread has just read as assigned, or has just set, is numbered. -/
theorem numbered_seen {op : Op} {r : op.Res × Session} (hi : Inv s) (hR : s.Ranged p x)
    (hk : Known t op s) (ha : numbering.allows (x t) op) (h : perform cfg t op s = some r) {q : Ref}
    (hq : (numbering.next (x t) op r.1).numbered = some q) :
    q < r.2.heap.length ∧ SequenceNumber.Min ≤ (r.2.pdu q).sequenceNumber := by
  rcases numbered_or_seen hq with hold | ⟨n, rfl⟩ | rfl
  · exact numbered_stays hR ha h hold
  · have hlt : q < s.heap.length :=
      hi.queued q (.flight (Session.mem_inFlight.mpr (.inl ⟨t, hk.2.1⟩)))
    refine ⟨Nat.lt_of_lt_of_le hlt (heap_perform h), ?_⟩
    have hset : (r.2.pdu q).sequenceNumber = n := by
      cases h
      simp [Session.pdu, hlt]
    rw [hset]
    exact (hR.drawn t n ha).1
  · cases h
    have hq : (if Tally.unassigned (s.pdu q).sequenceNumber then (x t).numbered else some q) = some q := hq
    split at hq
    · exact hR.numbered t q hq
    · next hn =>
        have hlt : SequenceNumber.Min < (s.pdu q).sequenceNumber := by
          simpa [Tally.unassigned] using hn
        exact ⟨lt_of_number hlt, Nat.le_of_lt hlt⟩

/-- A request is constructed without a number, or with one just drawn. -/
theorem own_constructed {op : Op} {r : op.Res × Session} (hR : s.Ranged p x) (ha : numbering.allows (x t) op)
    (h : perform cfg t op s = some r) {q : Ref} (hlt : ¬q < s.heap.length) (hq : q < r.2.heap.length)
    (hown : (r.2.pdu q).IsOwn) : (r.2.pdu q).sequenceNumber ≤ SequenceNumber.Max := by
  cases op with
  | newPdu q' =>
      cases h
      have hlen : q < (s.heap ++ [q']).length := hq
      have hqs : q = s.heap.length := by
        rw [List.length_append, List.length_singleton] at hlen
        exact Nat.le_antisymm (Nat.le_of_lt_succ hlen) (Nat.le_of_not_lt hlt)
      subst hqs
      have hnew : perform cfg t (.newPdu q') s = some _ := rfl
      have hpdu : Session.pdu _ s.heap.length = q' := (perform_newPdu hnew).2
      rw [hpdu] at hown ⊢
      rcases ha with hin | hreq | hmin | hdrawn
      · exact absurd hin hown.2
      · exact absurd hown.1 hreq
      · exact Nat.le_trans hmin (by decide)
      · exact (hR.drawn t _ hdrawn).2
  | setSeq r' n =>
      cases h
      have hlen : q < (s.heap.modify r' _).length := hq
      rw [List.length_modify] at hlen
      exact absurd hlen hlt
  | _ =>
      have hheap : r.2.heap = s.heap := perform_same (f := .heap) h (by simp)
      exact absurd (hheap ▸ hq) hlt

/-- **Every operation keeps the numbers legal.** -/
theorem ranged_perform {op : Op} {r : op.Res × Session} (hi : Inv s) (hR : s.Ranged p x)
    (hk : Known t op s) (ha : numbering.allows (x t) op) (h : perform cfg t op s = some r) :
    r.2.Ranged p (Function.update x t (numbering.next (x t) op r.1)) where
  val := legal_mVal hR ha h
  read u v hv := by
    by_cases hut : u = t
    · subst hut
      rw [Function.update_self] at hv
      exact legal_read hR ha h hv
    · rw [Function.update_of_ne hut] at hv
      exact hR.read u v hv
  drawn u n hn := by
    by_cases hut : u = t
    · subst hut
      rw [Function.update_self] at hn
      exact legal_drawn hR ha hn
    · rw [Function.update_of_ne hut] at hn
      exact hR.drawn u n hn
  numbered u q hq := by
    by_cases hut : u = t
    · subst hut
      rw [Function.update_self] at hq
      exact numbered_seen hi hR hk ha h hq
    · rw [Function.update_of_ne hut] at hq
      exact numbered_stays hR ha h hq
  own q hnew hq hown := by
    -- an object that was there, perhaps renumbered, or one constructed now
    by_cases hlt : q < s.heap.length
    · have hkind := kind_perform h hlt
      rcases ranged_number hR ha h hlt with hsame | hlegal
      · rw [hsame]
        exact hR.own q hnew hlt ⟨hkind.2.2.mp hown.1, fun hin => hown.2 (hkind.2.1.mpr hin)⟩
      · exact hlegal.2
    · exact own_constructed hR ha h hlt hq hown

/-- **What is written has a legal number.** -/
theorem legal_perform {op : Op} {r : op.Res × Session} (hi : Inv s) (hR : s.Ranged p x) (hL : s.Legal p)
    (hk : Known t op s) (ha : numbering.allows (x t) op) (h : perform cfg t op s = some r) :
    r.2.Legal p := by
  intro w hw
  rw [encodings_perform h, List.mem_append] at hw
  rcases hw with hw | hw
  · cases op with
    | asyncWrite q tbuf =>
        obtain ⟨-, hsend, rfl⟩ := hk
        obtain rfl : w = (q, s.pdu q) := List.mem_singleton.mp hw
        have hq : q < s.heap.length :=
          hi.queued q (.flight (Session.mem_inFlight.mpr (.inl ⟨t, hsend⟩)))
        exact ⟨(hR.numbered t q ha).2, fun hnew hown => hR.own q hnew hq hown⟩
    | _ => cases hw
  · exact hL w hw

/-- Where the generator and the objects stay, the numbers stay legal. -/
theorem ranged_same (hval : s'.mVal = s.mVal) (hlen : s.heap.length ≤ s'.heap.length)
    (hpdu : ∀ r, r < s.heap.length → s'.pdu r = s.pdu r)
    (hnew : ∀ r, s.heap.length ≤ r → r < s'.heap.length →
      (s'.pdu r).sequenceNumber ≤ SequenceNumber.Max) (hR : s.Ranged p x) : s'.Ranged p x where
  val := hval ▸ hR.val
  read := hR.read
  drawn := hR.drawn
  numbered u r hr := by
    obtain ⟨hlt, hmin⟩ := hR.numbered u r hr
    refine ⟨Nat.lt_of_lt_of_le hlt hlen, ?_⟩
    rw [hpdu r hlt]
    exact hmin
  own r hp hr hown := by
    by_cases hlt : r < s.heap.length
    · rw [hpdu r hlt] at hown ⊢
      exact hR.own r hp hlt hown
    · exact hnew r (Nat.le_of_not_lt hlt) hr

/-- A message is submitted without a number. -/
theorem ranged_env (hnew : cfg.newSeq ≤ SequenceNumber.Min) {e : Env} (hR : s.Ranged p x)
    (h : e.perform cfg s = some s') : s'.Ranged p x := by
  refine ranged_same (env_same (f := .mVal) h (by simp)) (pdu_env h).1 (pdu_env h).2 ?_ hR
  intro r hr hlt
  -- the application's new PDU has the library's number; nothing else makes an object
  by_cases hsub : ∃ body, e = .submit body
  · obtain ⟨body, rfl⟩ := hsub
    cases h
    have hlen : r < (s.heap ++ [(⟨.SubmitSm, ESME_ROK, cfg.newSeq, .octets body, none⟩ : Pdu)]).length :=
      hlt
    rw [List.length_append, List.length_singleton] at hlen
    obtain rfl : r = s.heap.length := Nat.le_antisymm (Nat.le_of_lt_succ hlen) hr
    have hseq : (s.heap ++ [(⟨.SubmitSm, ESME_ROK, cfg.newSeq, .octets body, none⟩ : Pdu)]).getD
        s.heap.length ⟨.unknown 0, 0, 0, .empty, none⟩ =
          ⟨.SubmitSm, ESME_ROK, cfg.newSeq, .octets body, none⟩ := by simp
    show ((s.heap ++ [(⟨.SubmitSm, ESME_ROK, cfg.newSeq, .octets body, none⟩ : Pdu)]).getD
      s.heap.length _).sequenceNumber ≤ _
    rw [hseq]
    exact Nat.le_trans hnew (by decide)
  · have hheap : s'.heap = s.heap := by
      cases e with
      | submit body => exact absurd ⟨body, rfl⟩ hsub
      | complete io raw er =>
          obtain ⟨-, rfl⟩ := Env.perform_complete h
          unfold Session.connectDone
          split <;> rfl
      | expire tm =>
          obtain ⟨-, rfl⟩ := Env.perform_expire h
          rfl
      | elapse us => cases h; rfl
      | reply a => cases h; rfl
    rw [hheap] at hlt
    exact absurd hr (Nat.not_le_of_lt hlt)

/-- At the start only the generator's first number is about, and it is in range. -/
theorem ranged_init (p : Persisted) (now : Nat) :
    (Session.init p now).Ranged p fun _ => Tally.start where
  val := ⟨Nat.le_refl _, (by decide : SequenceNumber.Min ≤ SequenceNumber.Max)⟩
  read u v hu := by cases hu
  drawn u n hu := by cases hu
  numbered u r hu := by cases hu
  own r hr hlt := absurd hlt (Nat.not_lt_of_le hr)

/-- **Numbers are legal**: in every run, also after the sequence generator has started over, what is handed
to `async_write` has a number, and the requests made in the run have one in the range of the protocol. A new
PDU object must come without a number. -/
theorem legal_numbers (hnew : cfg.newSeq ≤ SequenceNumber.Min) (h : Runs cfg Guard.free p now c) :
    c.shared.Legal p := by
  have hidle : ∀ t, ((Machine.init p now).code t).Follows numbering (fun _ => Tally.Ready) Tally.start :=
    fun _ => ⟨rfl, rfl⟩
  have hrun := Reach.protocolWith (I := fun _ => Tally.Ready) (J := Inv)
    (K := fun s x => s.Ranged p x ∧ s.Legal p) ?_ hidle (fun j x hx => numbering_body hnew j x hx)
    ⟨ranged_init p now, fun w hw => (by cases hw)⟩ ?_ ?_ ?_ h.disciplined
  · obtain ⟨x, ⟨-, hL⟩, -⟩ := hrun
    exact hL
  · exact fun c hc => Runs.inv (hc.mono fun _ _ hm => Guard.also_allows hm)
  · rintro t op s x r hi ⟨hR, hL⟩ ⟨-, -, -, hk⟩ ha hx
    obtain ⟨-, hx⟩ := perform_of_exec hx
    exact ⟨ranged_perform hi hR hk ha hx, legal_perform hi hR hL hk ha hx⟩
  · rintro e s s' x - ⟨hR, hL⟩ hx
    refine ⟨ranged_env hnew hR hx, ?_⟩
    unfold Session.Legal
    rw [encodings_env hx]
    exact hL
  · rintro j s s' x - ⟨hR, hL⟩ - hx
    have hheap : s'.heap = s.heap := take_same (f := .heap) hx (by simp)
    refine ⟨ranged_same (take_same (f := .mVal) hx (by simp)) (pdu_take hx).1
      (fun r _ => (pdu_take hx).2 r) (fun r hr hlt => ?_) hR, ?_⟩
    · rw [hheap] at hlt
      exact absurd hr (Nat.not_le_of_lt hlt)
    · unfold Session.Legal
      rw [encodings_take hx]
      exact hL

/-- A message that is sent twice: its number and that of the bind request are legal. -/
theorem legal_numbers_sentAgain : sampleParams.newSeq ≤ SequenceNumber.Min ∧
    (Machine.after sampleParams .none Schedule.sentAgain).shared.encodings ≠ [] ∧
    (Machine.after sampleParams .none Schedule.sentAgain).shared.Legal .none :=
  ⟨by decide, by decide +kernel, legal_numbers (by decide) (runs_after _ _ _)⟩

/-! ## One number, one request -/

/-- **A number stands for one request**: two requests written with the same number are transmissions of the same
PDU, encoded the same way. -/
def Session.Identifies (s : Session) : Prop :=
  ∀ w ∈ s.encodings, ∀ w' ∈ s.encodings, w.2.IsRequest → w'.2.IsRequest →
    SequenceNumber.Min < w.2.sequenceNumber → w.2.sequenceNumber = w'.2.sequenceNumber → w = w'

/-- With a backlog nothing is ever written. -/
theorem Runs.silent {g : Guard Op Tid Session Job} (hmsg : p.message ≠ []) (h : Runs cfg g p now c) :
    c.shared.encodings = [] := by
  refine h.dataKnowing (I := Backlogged) (K := fun s => s.encodings = []) (fun c hc => hc.backlogged hmsg) rfl
    ?_ ?_ ?_
  · intro t op s r hB hK hg hx
    rw [encodings_perform hx, hK]
    cases op with
    | asyncWrite q tbuf =>
        have hq : s.pdu2send t = some q := (known_known hg).2.1
        exact absurd (mem_popped.mpr ⟨t, hq⟩) fun hmem => hB.flight q (List.mem_append_left _ hmem)
    | _ => rfl
  · rintro e s s' - hK hx
    rw [encodings_env hx, hK]
  · rintro j s s' - - hK hx
    rw [encodings_take hx, hK]

/-- **Numbers identify requests** in every run in which the generator does not start over. -/
theorem numbers_identify (hnew : cfg.newSeq ≤ SequenceNumber.Min)
    (hsend : ∀ q ∈ p.sending, q.sequenceNumber ≤ SequenceNumber.Min) (h : Runs cfg neverWraps p now c) :
    c.shared.Identifies := by
  intro w hw w' hw' hreq hreq' hmin heq
  by_cases hmsg : p.message = []
  · obtain ⟨x, ⟨-, hG, hA⟩, -⟩ := h.counted hnew hmsg hsend
    have hout : ∀ w ∈ c.shared.encodings, w.2.IsRequest → SequenceNumber.Min < w.2.sequenceNumber →
        c.shared.pdu w.1 = w.2 ∧ c.shared.Outgoing w.1 := by
      intro w hw hreq hmin
      obtain ⟨-, hpdu⟩ := h.settled.1 w hw hmin
      obtain ⟨st, conn, hev⟩ := mem_encodings.mp hw
      have hqueued : c.shared.Queued w.1 := .wrote w.2 st conn hev
      exact ⟨hpdu, .inl hqueued, hpdu ▸ hreq, hG.queued _ hqueued⟩
    obtain ⟨hpdu, hw⟩ := hout w hw hreq hmin
    obtain ⟨hpdu', hw'⟩ := hout w' hw' hreq' (heq ▸ hmin)
    have hsame : w.1 = w'.1 := hA.unique w.1 w'.1 hw hw' (hpdu ▸ hmin) (by rw [hpdu, hpdu', heq])
    exact Prod.ext hsame (by rw [← hpdu, ← hpdu', hsame])
  · rw [h.silent hmsg] at hw
    cases hw

/-- The number `3` stands for the message that is sent twice. -/
theorem numbers_identify_sentAgain :
    (Machine.after sampleParams .none Schedule.sentAgain).shared.encodings.map
        (fun w => (w.1, w.2.sequenceNumber)) = [(1, 3), (1, 3), (0, 2)] ∧
      (Machine.after sampleParams .none Schedule.sentAgain).shared.Identifies :=
  ⟨by decide +kernel, numbers_identify (Nat.le_refl _) (by simp [Persisted.none])
    (runs_under (g := neverWraps) (by decide +kernel))⟩

end KissSmpp
