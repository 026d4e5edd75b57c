import Mathlib.Data.List.Dedup
import KissSmpp.Properties.Unaltered
import KissSmpp.Session.Observed

/-! # The order in which inbound messages are offered

`recieveProcessor` takes the messages of the peer out of `recieveBuffer`, one at a time, and offers them to the
application; one that the application cannot take at the moment goes back to the end of the buffer. What it takes
out is not on record in the state, so the process is observed. `offered_in_order` says that messages are offered
for the first time in the order in which they were received, and that none is passed over. -/

namespace KissSmpp

open Interleave Session

variable {cfg : Params} {t : Tid} {s s' : Session} {p : Persisted} {now : Nat} {l : List Ref}

/-! ## What is observed -/

/-- What `recieveProcessor` takes out of the receive buffer. -/
def offered? (_ : Tid) : (op : Op) → Session → op.Res → Option Ref
  | .rxPop, _, o => o
  | _, _, _ => none

/-- **The messages of the peer in the order in which they were received**: those that an earlier process has left
in the receive buffer, and those taken in since. -/
def Session.arrivals (p : Persisted) (s : Session) : List Content :=
  p.recieve.map Pdu.content ++ (s.hist.filterMap Event.inbound?).reverse

/-! ## The order -/

/-- The messages in the receive buffer that have not been offered. -/
def Session.unoffered (l : List Ref) (s : Session) : List Ref := s.recieveBuffer.filter (· ∉ l)

/-- What a thread has received and not stored yet. -/
def Session.unstored (s : Session) : Handing → List Content
  | .owes raw => [raw.message.content]
  | .made r => [s.content r]
  | _ => []

/-- **What has been received was offered, waits for it, or is about to be stored**, in this order. -/
structure Session.InTurn (p : Persisted) (s : Session) (l : List Ref) (x : Tid → Handing) : Prop where
  order : s.arrivals p = (l.dedup.reverse ++ s.unoffered l).map s.content ++ s.unstored (x .io)
  others : ∀ u, u ≠ .io → s.unstored (x u) = []
  made : ∀ r, x .io = .made r → r ∉ l ∧ r ∉ s.recieveBuffer ∧ r < s.heap.length
  took : ∀ u r, x u = .took r → r ∈ l
  objects : ∀ r, r ∈ l ∨ r ∈ s.recieveBuffer → r < s.heap.length

/-- A thread other than the io thread has made no message. -/
theorem Session.InTurn.io {x : Tid → Handing} (hT : s.InTurn p l x) (h : s.unstored (x t) ≠ []) : t = .io := by
  by_contra ht
  exact h (hT.others t ht)

/-- What has been received is not stored by waiting. -/
theorem unstored_same {x : Handing} (h : ∀ r, x = .made r → s'.content r = s.content r) :
    s'.unstored x = s.unstored x := by
  cases x with
  | made r => exact congrArg (fun m => [m]) (h r rfl)
  | _ => rfl

/-- What has been received is on record. -/
theorem arrivals_received {y : Unit × Session} {raw : RawPdu} {st : State}
    (h : perform cfg t (.note (.received raw st)) s = some y) :
    y.2.arrivals p = s.arrivals p ++ y.2.unstored (if raw.Admitted st then .owes raw else .idle) := by
  unfold Session.arrivals
  rw [perform_hist h]
  show _ ++ ((Event.mark (.received raw st) :: s.hist).filterMap Event.inbound?).reverse = _
  by_cases hadm : raw.Admitted st
  · have hev : Event.inbound? (.mark (.received raw st)) = some raw.message.content := if_pos hadm
    rw [if_pos hadm, List.filterMap_cons_some hev, List.reverse_cons, ← List.append_assoc]
    rfl
  · have hev : Event.inbound? (.mark (.received raw st)) = none := if_neg hadm
    rw [if_neg hadm, List.filterMap_cons_none hev]
    exact (List.append_nil _).symm

/-- Where nothing is received the record says what it said. -/
theorem arrivals_same (h : s'.inbound p = s.inbound p) : s'.arrivals p = s.arrivals p := by
  unfold Session.inbound at h
  unfold Session.arrivals
  rw [List.append_cancel_right h]

/-- What has been offered and what waits, when the first message of the buffer is taken out. -/
theorem offers_taken {r : Ref} {rest : List Ref} (hb : s.recieveBuffer = r :: rest) (hbuf : s'.recieveBuffer = rest)
    (hr : r ∉ rest) :
    (r :: l).dedup.reverse ++ s'.unoffered (r :: l) = l.dedup.reverse ++ s.unoffered l := by
  have hrest : rest.filter (· ∉ r :: l) = rest.filter (· ∉ l) :=
    List.filter_congr fun q hq => by
      have hne : q ≠ r := fun heq => hr (heq ▸ hq)
      simp [hne]
  unfold Session.unoffered
  rw [hb, hbuf, hrest]
  by_cases hl : r ∈ l
  · rw [List.dedup_cons_of_mem hl]
    simp [hl]
  · rw [List.dedup_cons_of_notMem hl, List.reverse_cons, List.append_assoc]
    simp [hl]

/-- What has been offered or waits says what it said. -/
theorem Session.InTurn.map_content {x : Tid → Handing} (hT : s.InTurn p l x)
    (hsay : ∀ r, r < s.heap.length → s'.content r = s.content r) :
    (l.dedup.reverse ++ s.unoffered l).map s'.content = (l.dedup.reverse ++ s.unoffered l).map s.content := by
  refine List.map_congr_left fun r hr => hsay r (hT.objects r ?_)
  rcases List.mem_append.mp hr with hr | hr
  · exact .inl (List.mem_dedup.mp (List.mem_reverse.mp hr))
  · exact .inr (List.mem_filter.mp hr).1

/-- **When one thread moves on**, it remains to look at that thread, at what waits, and at the message the io
thread has made. -/
theorem Session.InTurn.moves {x : Tid → Handing} {z : Handing} {l' : List Ref} (hT : s.InTurn p l x)
    (hl : ∀ r ∈ l, r ∈ l')
    (horder : s'.arrivals p =
      (l'.dedup.reverse ++ s'.unoffered l').map s'.content ++ s'.unstored (Function.update x t z .io))
    (hother : t ≠ .io → s'.unstored z = [])
    (hmade : ∀ r, Function.update x t z .io = .made r → r ∉ l' ∧ r ∉ s'.recieveBuffer ∧ r < s'.heap.length)
    (htook : ∀ r, z = .took r → r ∈ l')
    (hobjects : ∀ r, r ∈ l' ∨ r ∈ s'.recieveBuffer → r < s'.heap.length) :
    s'.InTurn p l' (Function.update x t z) where
  order := horder
  others u hu := by
    by_cases hut : u = t
    · subst hut
      rw [Function.update_self]
      exact hother hu
    · have hnil := hT.others u hu
      rw [Function.update_of_ne hut, unstored_same (s := s) fun r hr => ?_]
      · exact hnil
      · rw [hr] at hnil
        cases hnil
  made := hmade
  took u r hr := by
    by_cases hut : u = t
    · subst hut
      rw [Function.update_self] at hr
      exact htook r hr
    · rw [Function.update_of_ne hut] at hr
      exact hl r (hT.took u r hr)
  objects := hobjects

/-- A message the io thread has made stays, unless the thread moves on from it. -/
theorem Session.InTurn.made_of_update {x : Tid → Handing} {z : Handing} (hT : s.InTurn p l x) {r : Ref}
    (hz : z = x t ∨ ∀ q, z ≠ .made q) (hr : Function.update x t z .io = .made r) :
    x .io = .made r ∧ r ∉ l ∧ r ∉ s.recieveBuffer ∧ r < s.heap.length := by
  have hold : x .io = .made r := by
    by_cases ht : t = .io
    · subst ht
      rw [Function.update_self] at hr
      rcases hz with hz | hz
      · exact hz ▸ hr
      · exact absurd hr (hz r)
    · rwa [Function.update_of_ne (Ne.symm ht)] at hr
  exact ⟨hold, hT.made r hold⟩

/-- What the io thread has received and not stored, when another thread moves on or the io thread lets go of
nothing. -/
theorem Session.InTurn.unstored_update {x : Tid → Handing} {z : Handing} (hT : s.InTurn p l x)
    (hsay : ∀ r, r < s.heap.length → s'.content r = s.content r)
    (hz : z = x t ∨ s'.unstored z = [] ∧ s.unstored (x t) = []) :
    s'.unstored (Function.update x t z .io) = s.unstored (x .io) := by
  have hsame : s'.unstored (x .io) = s.unstored (x .io) := unstored_same fun r hr => hsay r (hT.made r hr).2.2
  by_cases ht : t = .io
  · subst ht
    rw [Function.update_self]
    rcases hz with rfl | ⟨hz, hnil⟩
    · exact hsame
    · rw [hz, hnil]
  · rw [Function.update_of_ne (Ne.symm ht)]
    exact hsame

/-- **What waits stays in turn** while nothing is received, stored or taken out, and a thread lets go of no message
it has received. -/
theorem inTurn_same {x : Tid → Handing} {z : Handing} (hT : s.InTurn p l x)
    (hbuf : s'.recieveBuffer = s.recieveBuffer) (harr : s'.arrivals p = s.arrivals p)
    (hlen : s.heap.length ≤ s'.heap.length)
    (hsay : ∀ r, r < s.heap.length → s'.content r = s.content r)
    (hz : z = x t ∨ z = .idle ∧ s.unstored (x t) = []) : s'.InTurn p l (Function.update x t z) := by
  have hunoffered : s'.unoffered l = s.unoffered l := congrArg (List.filter (· ∉ l)) hbuf
  refine hT.moves (fun _ => id) ?_ (fun ht => ?_) (fun r hr => ?_) (fun r hr => ?_) fun r hr => ?_
  · rw [harr, hT.order, hT.unstored_update hsay (hz.imp_right fun hz => ⟨congrArg s'.unstored hz.1, hz.2⟩),
      hunoffered, hT.map_content hsay]
  · rcases hz with rfl | ⟨rfl, -⟩
    · have hnil := hT.others t ht
      rw [unstored_same (s := s) fun r hr => ?_]
      · exact hnil
      · rw [hr] at hnil
        cases hnil
    · rfl
  · obtain ⟨-, hl, hb, hlt⟩ := hT.made_of_update (hz.imp_right fun hz q hq => by rw [hz.1] at hq; cases hq) hr
    exact ⟨hl, hbuf ▸ hb, Nat.lt_of_lt_of_le hlt hlen⟩
  · rcases hz with hz | ⟨hz, -⟩
    · exact hT.took t r (hz ▸ hr)
    · rw [hz] at hr
      cases hr
  · rw [hbuf] at hr
    exact Nat.lt_of_lt_of_le (hT.objects r hr) hlen

/-- A thread that has no message in hand has none to store. -/
theorem unstored_free {x : Handing} (h : x.Free) : s.unstored x = [] := by
  cases x <;> first | rfl | exact h.elim

/-- **A message is received**: it is the last one. -/
theorem inTurn_received {x : Tid → Handing} {raw : RawPdu} {st : State} {y : Unit × Session} (hT : s.InTurn p l x)
    (ht : t = .io) (hfree : (x t).Free) (h : perform cfg t (.note (.received raw st)) s = some y) :
    y.2.InTurn p l (Function.update x t (if raw.Admitted st then .owes raw else .idle)) := by
  subst ht
  have harr := arrivals_received (p := p) h
  have hbuf : y.2.recieveBuffer = s.recieveBuffer := perform_same (f := .recieveBuffer) h (by simp)
  have hsay : y.2.content = s.content := by cases h; rfl
  have hlen : y.2.heap.length = s.heap.length := by cases h; rfl
  refine hT.moves (fun _ => id) ?_ (fun hio => absurd rfl hio) (fun r hr => ?_)
    (fun r hr => ?_) fun r hr => ?_
  · rw [harr, hT.order, unstored_free hfree, List.append_nil, Function.update_self, hsay]
    unfold Session.unoffered
    rw [hbuf]
  · rw [Function.update_self] at hr
    split at hr <;> cases hr
  · split at hr <;> cases hr
  · rw [hbuf] at hr
    exact hlen ▸ hT.objects r hr

/-- **A message received is made an object**: what is to be stored says what has been received. -/
theorem inTurn_newPdu {x : Tid → Handing} {raw : RawPdu} {y : Ref × Session} (hT : s.InTurn p l x)
    (hx : x t = .owes raw) (h : perform cfg t (.newPdu raw.message) s = some y) :
    y.2.InTurn p l (Function.update x t (.made y.1)) := by
  have ht : t = .io := hT.io (by rw [hx]; exact List.cons_ne_nil _ _)
  subst ht
  have hsay : ∀ r, r < s.heap.length → y.2.content r = s.content r := fun _ hr => content_perform h hr
  have hbuf : y.2.recieveBuffer = s.recieveBuffer := perform_same (f := .recieveBuffer) h (by simp)
  have harr : y.2.arrivals p = s.arrivals p :=
    arrivals_same (inbound_perform h fun raw st heq => by cases heq)
  have hnew : y.1 = s.heap.length := by cases h; rfl
  obtain ⟨hlt, hpdu⟩ := perform_newPdu h
  have hfresh : ¬(y.1 ∈ l ∨ y.1 ∈ s.recieveBuffer) := fun hr => Nat.lt_irrefl _ (hnew ▸ hT.objects y.1 hr)
  refine hT.moves (fun _ => id) ?_ (fun hio => absurd rfl hio) (fun r hr => ?_) (fun r hr => (by cases hr))
    fun r hr => ?_
  · have hcontent : s.unstored (x .io) = [y.2.content y.1] := by
      rw [hx]
      exact congrArg (fun q => [Pdu.content q]) hpdu.symm
    have hunoffered : y.2.unoffered l = s.unoffered l := congrArg (List.filter (· ∉ l)) hbuf
    rw [harr, hT.order, hcontent, Function.update_self, hunoffered, hT.map_content hsay]
    rfl
  · rw [Function.update_self] at hr
    cases hr
    rw [hbuf]
    exact ⟨fun hr => hfresh (.inl hr), fun hr => hfresh (.inr hr), hlt⟩
  · rw [hbuf] at hr
    exact Nat.lt_of_lt_of_le (hT.objects r hr) (heap_perform h)

/-- What a message does that is put into the receive buffer. -/
theorem rxPush_effect {r : Ref} {y : Unit × Session} (h : perform cfg t (.rxPush r) s = some y) :
    y.2.recieveBuffer = s.recieveBuffer ++ [r] ∧ y.2.content = s.content ∧ y.2.heap = s.heap ∧
      y.2.arrivals p = s.arrivals p := by
  cases h
  exact ⟨rfl, rfl, rfl, rfl⟩

/-- **A message is stored**: it is the last one that waits. -/
theorem inTurn_stored {x : Tid → Handing} {r : Ref} {y : Unit × Session} (hT : s.InTurn p l x) (hx : x t = .made r)
    (h : perform cfg t (.rxPush r) s = some y) : y.2.InTurn p l (Function.update x t (.gave r)) := by
  have ht : t = .io := hT.io (by rw [hx]; exact List.cons_ne_nil _ _)
  subst ht
  obtain ⟨hl, hb, hlt⟩ := hT.made r hx
  obtain ⟨hbuf, hsay, hheap, harr⟩ := rxPush_effect (p := p) h
  refine hT.moves (fun _ => id) ?_ (fun hio => absurd rfl hio) (fun q hq => ?_)
    (fun q hq => (by cases hq)) fun q hq => ?_
  · have hunoffered : y.2.unoffered l = s.unoffered l ++ [r] := by
      unfold Session.unoffered
      rw [hbuf, List.filter_append]
      simp [hl]
    have hstored : s.unstored (x .io) = [r].map s.content := by rw [hx]; rfl
    rw [harr, hT.order, hstored, Function.update_self, hunoffered, hsay, ← List.map_append, List.append_assoc]
    exact (List.append_nil _).symm
  · rw [Function.update_self] at hq
    cases hq
  · rw [hbuf, List.mem_append, List.mem_singleton] at hq
    rw [hheap]
    rcases hq with hq | hq | rfl
    · exact hT.objects q (.inl hq)
    · exact hT.objects q (.inr hq)
    · exact hlt

/-- **A message that goes back** has been offered before. -/
theorem inTurn_back {x : Tid → Handing} {r : Ref} {y : Unit × Session} (hT : s.InTurn p l x) (hx : x t = .took r)
    (h : perform cfg t (.rxPush r) s = some y) : y.2.InTurn p l (Function.update x t .idle) := by
  have hr := hT.took t r hx
  obtain ⟨hbuf, hsay, hheap, harr⟩ := rxPush_effect (p := p) h
  have hnil : s.unstored (x t) = [] := by rw [hx]; rfl
  refine hT.moves (fun _ => id) ?_ (fun _ => rfl) (fun q hq => ?_)
    (fun q hq => (by cases hq)) fun q hq => ?_
  · have hunoffered : y.2.unoffered l = s.unoffered l := by
      unfold Session.unoffered
      rw [hbuf, List.filter_append]
      simp [hr]
    rw [harr, hT.order, hT.unstored_update (fun r _ => congrFun hsay r) (.inr ⟨rfl, hnil⟩), hunoffered, hsay]
  · obtain ⟨-, hl, hb, hlt⟩ := hT.made_of_update (.inr fun q hq => by cases hq) hq
    rw [hbuf, List.mem_append, List.mem_singleton, hheap]
    refine ⟨hl, ?_, hlt⟩
    rintro (hq | rfl)
    · exact hb hq
    · exact hl hr
  · rw [hbuf, List.mem_append, List.mem_singleton] at hq
    rw [hheap]
    rcases hq with hq | hq | rfl
    · exact hT.objects q (.inl hq)
    · exact hT.objects q (.inr hq)
    · exact hT.objects q (.inl hr)

/-- **A message is taken out**: it is the first of those that have not been offered, or it has been offered
before. -/
theorem inTurn_taken {x : Tid → Handing} {y : Option Ref × Session} (hT : s.InTurn p l x)
    (hnodup : s.recieveBuffer.Nodup) (hfree : (x t).Free) (h : perform cfg t .rxPop s = some y) :
    y.2.InTurn p (y.1.toList ++ l) (Function.update x t (y.1.elim .idle .took)) := by
  have hnil := unstored_free (s := s) hfree
  -- an empty buffer gives nothing, any other its first message
  cases hb : s.recieveBuffer with
  | nil =>
      have hres : y.1 = none := by cases h; exact congrArg List.head? hb
      have hbuf : y.2.recieveBuffer = s.recieveBuffer := by
        cases h
        show s.recieveBuffer.tail = _
        rw [hb]
        rfl
      rw [hres]
      exact inTurn_same hT hbuf (arrivals_same (inbound_perform h fun raw st heq => by cases heq)) (heap_perform h)
        (fun _ hr => content_perform h hr) (.inr ⟨rfl, hnil⟩)
  | cons r rest =>
      rw [hb, List.nodup_cons] at hnodup
      have hres : y.1 = some r := by cases h; exact congrArg List.head? hb
      have hbuf : y.2.recieveBuffer = rest := by cases h; exact congrArg List.tail hb
      have hsay : y.2.content = s.content := by cases h; rfl
      have hheap : y.2.heap = s.heap := by cases h; rfl
      have harr : y.2.arrivals p = s.arrivals p := by cases h; rfl
      rw [hres]
      refine hT.moves (fun _ => List.mem_cons_of_mem r) ?_ (fun _ => rfl)
        (fun q hq => ?_) (fun q hq => ?_) fun q hq => ?_
      · have hturn : (r :: l).dedup.reverse ++ y.2.unoffered (r :: l) = l.dedup.reverse ++ s.unoffered l :=
          offers_taken hb hbuf hnodup.1
        show _ = ((r :: l).dedup.reverse ++ y.2.unoffered (r :: l)).map _ ++ _
        rw [harr, hT.order, hT.unstored_update (fun r _ => congrFun hsay r) (.inr ⟨rfl, hnil⟩), hturn, hsay]
      · obtain ⟨-, hl, hnot, hlt⟩ := hT.made_of_update (.inr fun q hq => by cases hq) hq
        rw [hb, List.mem_cons, not_or] at hnot
        rw [hbuf, hheap]
        exact ⟨fun hq => (List.mem_cons.mp hq).elim hnot.1 hl, hnot.2, hlt⟩
      · cases hq
        exact List.mem_cons_self
      · rw [hheap]
        rw [hbuf] at hq
        refine hT.objects q ?_
        rw [hb, List.mem_cons]
        rcases hq with hq | hq
        · exact (List.mem_cons.mp hq).elim (fun hq => .inr (.inl hq)) .inl
        · exact .inr (.inr hq)

/-! ## The runs -/

/-- **Every operation keeps the turn.** -/
theorem inTurn_perform {op : Op} {x : Tid → Handing} {y : op.Res × Session} (hT : s.InTurn p l x)
    (hnodup : s.recieveBuffer.Nodup) (hm : op.mayRun t = true) (ha : (handing cfg).allows (x t) op)
    (h : perform cfg t op s = some y) :
    y.2.InTurn p ((offered? t op s y.1).toList ++ l) (Function.update x t ((handing cfg).next (x t) op y.1)) := by
  have hsay : ∀ r, r < s.heap.length → y.2.content r = s.content r := fun _ hr => content_perform h hr
  have hlen := heap_perform h
  cases op with
  | newPdu q =>
      -- the object of a message received, or a PDU of the session's own
      rcases ha with ⟨raw, hx, rfl⟩ | ⟨hx, hmakes⟩
      · exact inTurn_newPdu hT hx h
      · have hnext : (handing cfg).next (x t) (.newPdu q) y.1 = .idle := by
          show (if q.commandId = .DeliverSm then Handing.made y.1 else (x t).release) = .idle
          rw [if_neg hmakes.ne_deliverSm]
          rcases hx with hx | ⟨r, hx⟩
          · cases hxt : x t <;> rw [hxt] at hx <;> first | rfl | exact hx.elim
          · rw [hx]
            rfl
        have hnil : s.unstored (x t) = [] := by
          rcases hx with hx | ⟨r, hx⟩
          · exact unstored_free hx
          · rw [hx]
            rfl
        rw [hnext]
        exact inTurn_same hT (perform_same (f := .recieveBuffer) h (by simp))
          (arrivals_same (inbound_perform h fun raw st heq => by cases heq)) hlen hsay (.inr ⟨rfl, hnil⟩)
  | rxPush r =>
      -- stored for the first time, or put back by `recieveProcessor`
      rcases ha with hx | hx
      · have hnext : (handing cfg).next (x t) (.rxPush r) y.1 = .gave r := if_pos hx
        rw [hnext]
        exact inTurn_stored hT hx h
      · have hnext : (handing cfg).next (x t) (.rxPush r) y.1 = .idle := if_neg (by rw [hx]; simp)
        rw [hnext]
        exact inTurn_back hT hx h
  | errPush r =>
      have hx : x t = .took r := ha
      exact inTurn_same hT (perform_same (f := .recieveBuffer) h (by simp))
        (arrivals_same (inbound_perform h fun raw st heq => by cases heq)) hlen hsay
        (.inr ⟨rfl, by rw [hx]; rfl⟩)
  | rxPop => exact inTurn_taken hT hnodup ha h
  | note m =>
      cases m with
      | received raw st => exact inTurn_received hT (Op.io_of_mayRun hm rfl) ha h
      | delivered r =>
          have hx : x t = .took r := ha
          exact inTurn_same hT (perform_same (f := .recieveBuffer) h (by simp))
            (arrivals_same (inbound_perform h fun raw st heq => by cases heq)) hlen hsay
            (.inr ⟨rfl, by rw [hx]; rfl⟩)
      | _ =>
          exact inTurn_same hT (perform_same (f := .recieveBuffer) h (by simp))
            (arrivals_same (inbound_perform h fun raw st heq => by cases heq)) hlen hsay (.inl rfl)
  | _ =>
      exact inTurn_same hT (perform_same (f := .recieveBuffer) h (by simp))
        (arrivals_same (inbound_perform h fun raw st heq => by cases heq)) hlen hsay (.inl rfl)

/-- Where nothing is performed every thread stays where it is. -/
theorem inTurn_still {x : Tid → Handing} (hT : s.InTurn p l x) (hbuf : s'.recieveBuffer = s.recieveBuffer)
    (hin : s'.hist.filterMap Event.inbound? = s.hist.filterMap Event.inbound?)
    (hlen : s.heap.length ≤ s'.heap.length) (hsay : ∀ r, r < s.heap.length → s'.content r = s.content r) :
    s'.InTurn p l x := by
  have harr : s'.arrivals p = s.arrivals p := by
    unfold Session.arrivals
    rw [hin]
  have hstill := inTurn_same (t := .io) hT hbuf harr hlen hsay (.inl rfl)
  rwa [Function.update_eq_self] at hstill

/-- The environment leaves the messages in their order. -/
theorem inTurn_env {e : Env} {x : Tid → Handing} (hT : s.InTurn p l x) (h : e.perform cfg s = some s') :
    s'.InTurn p l x := by
  have hlogs : (e.logs s).filterMap Event.inbound? = [] := by
    unfold Env.logs
    split <;> rfl
  refine inTurn_still hT (env_same (f := .recieveBuffer) h (by simp)) ?_ (pdu_env h).1 (fun r hr => content_env h hr)
  rw [env_hist h, List.filterMap_append, hlogs, List.nil_append]

/-- The start of a job leaves the messages in their order. -/
theorem inTurn_take {j : Job} {x : Tid → Handing} (hT : s.InTurn p l x) (h : j.take s = some s') :
    s'.InTurn p l x := by
  have hlogs : j.logs.filterMap Event.inbound? = [] := by cases j <;> rfl
  refine inTurn_still hT (take_same (f := .recieveBuffer) h (by simp)) ?_ (pdu_take h).1 (fun r _ => content_take h r)
  rw [take_hist h, List.filterMap_append, hlogs, List.nil_append]

/-- What an earlier process has left in the receive buffer waits. -/
theorem inTurn_init (p : Persisted) (now : Nat) : (Session.init p now).InTurn p [] fun _ => .idle := by
  have hbuf : (Session.init p now).recieveBuffer =
      Persisted.refs (p.message.length + p.sending.length) p.recieve := rfl
  constructor
  · have hall : (Session.init p now).unoffered [] = (Session.init p now).recieveBuffer :=
      List.filter_eq_self.mpr fun r _ => rfl
    have hcontent : (Persisted.refs (p.message.length + p.sending.length) p.recieve).map
        (Session.init p now).content = p.recieve.map Pdu.content :=
      contents_refs (p.message ++ p.sending) (p.rcvErr ++ p.session ++ p.response)
        (by simp [Persisted.heap]) (by simp)
    rw [hall, hbuf]
    show p.recieve.map Pdu.content ++ [] = List.map _ ([] ++ _) ++ []
    rw [List.append_nil, List.append_nil, List.nil_append, hcontent]
  · exact fun _ _ => rfl
  · intro r hr
    cases hr
  · intro u r hr
    cases hr
  · intro r hr
    rcases hr with hr | hr
    · cases hr
    · exact (sourced_init p now).objects r (List.mem_append_left _ (List.mem_append_left _ hr))

/-- No message is twice in the receive buffer. -/
theorem Runs.nodup_recieveBuffer {c : Machine} (h : Runs cfg Guard.free p now c) : c.shared.recieveBuffer.Nodup :=
  ((delivery_sound cfg p now).reach_inv h.knowing).nodup.of_append_left.of_append_left

/-- **Messages are offered in the order in which they were received**: in every run, the messages offered to the
application so far, each where it was offered first, are the first ones of those the peer has sent, as they were
received. None is passed over, and none is taken for another. -/
theorem offered_in_order {c : Machine} (h : ObservedRuns offered? cfg p now c l) :
    l.dedup.reverse.map c.shared.content <+: c.shared.arrivals p := by
  have hrun : ∃ x, c.shared.InTurn p l x := by
    refine h.protocol (Q := Handing.Free) (J := fun s => s.recieveBuffer.Nodup) (K := fun s l x => s.InTurn p l x)
      .idle (fun c hc => hc.nodup_recieveBuffer) trivial
      (fun j x hx => handing_regular.body (fun _ => handing_upkeep) handing_traffic x hx) (inTurn_init p now)
      ?_ ?_ ?_
    · intro t op s l x r hnodup hT hg ha hr
      exact inTurn_perform hT hnodup (known_mayRun hg) ha hr
    · rintro e s s' l x - hT he
      exact inTurn_env hT he
    · rintro j s s' l x - hT hj
      exact inTurn_take hT hj
  obtain ⟨x, hT⟩ := hrun
  rw [hT.order, List.map_append, List.append_assoc]
  exact List.prefix_append _ _

/-- The application gives an answer, and `recieveProcessor` offers it a message. -/
def Schedule.offer (a : AppReply) : List Step := .env (.reply a) :: .start .receive :: turn .receiver 8

/-- Two messages arrive; the application cannot take the first one when it is offered, and gets it again after the
second. -/
def Schedule.offeredAgain : List Step :=
  bind ++ .env (.elapse 1000000) :: receive ⟨17, CommandId.DeliverSm.value, 0, 7, [1], true⟩ ++
    complete (.write 2) .none .success ++ .env (.elapse 1000000) ::
    receive ⟨17, CommandId.DeliverSm.value, 0, 8, [2], true⟩ ++
    offer .retryable ++ offer .success ++ offer .success

/-- The first message is offered twice, and counts where it was offered first. -/
theorem offered_in_order_again :
    (Machine.record offered? sampleParams .none Schedule.offeredAgain).shared.2 = [1, 3, 1] ∧
      ([1, 3, 1] : List Ref).dedup.reverse = [1, 3] ∧
      (Machine.record offered? sampleParams .none Schedule.offeredAgain).shared.2.dedup.reverse.map
          (Machine.record offered? sampleParams .none Schedule.offeredAgain).forget.shared.content <+:
        (Machine.record offered? sampleParams .none Schedule.offeredAgain).forget.shared.arrivals .none :=
  ⟨by decide +kernel, by decide, offered_in_order (observedRuns_record Schedule.offeredAgain)⟩

end KissSmpp
