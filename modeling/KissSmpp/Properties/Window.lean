import Mathlib.Data.List.Dedup
import KissSmpp.Properties.SingleWriter

/-! # The window

`canSend` holds the session to ten PDUs awaiting a response, but only `handle_write` asks it. What
`do_write` writes directly, because it finds the transmit queue empty, is not counted. Where that path
respects the limit as well (`belowLimit`), at most ten message requests are awaiting a response or
being written. -/

namespace KissSmpp

open Interleave Queue

variable {cfg : Params} {t : Tid} {s s' : Session}

/-- **`do_write` respects the limit**: whenever it finds the queue empty no PDU is in flight, and if
what it then pushes, and goes on to write, is a message request, fewer than ten PDUs await a
response. -/
def belowLimit : Guard Op Tid Session Job where
  op t op s :=
    (op = .txEmpty → s.txQ.empty = true → s.inFlight = []) ∧
      ∀ r ∈ op.pushed?, s.phase t = .found true → (s.pdu r).commandId.isMessage = true →
        s.w4rQ.size < 10
  job _ _ := True

/-- The guard can be evaluated. -/
instance : belowLimit.Checkable where
  op t op s := inferInstanceAs (Decidable
    ((op = .txEmpty → s.txQ.empty = true → s.inFlight = []) ∧
      ∀ r ∈ op.pushed?, s.phase t = .found true → (s.pdu r).commandId.isMessage = true →
        s.w4rQ.size < 10))
  job _ _ := inferInstanceAs (Decidable True)

namespace Session

/-- **The window**: the message requests that await a response or are being written. -/
def window (s : Session) : List Ref :=
  ((s.awaiting ++ s.inFlight).filter fun r => (s.pdu r).commandId.isMessage).dedup

/-- The window holds the messages that await a response or are in flight. -/
theorem mem_window {r : Ref} :
    r ∈ s.window ↔ (s.Awaits r ∨ r ∈ s.inFlight) ∧ (s.pdu r).commandId.isMessage = true := by
  unfold window
  rw [List.mem_dedup, List.mem_filter, List.mem_append, mem_awaiting]

/-- The window is no larger than a list that covers it. -/
theorem window_length_le {l : List Ref} (h : ∀ r, r ∈ s.window → r ∈ l) :
    s.window.length ≤ l.length :=
  (List.nodup_dedup _).length_le_of_subset h

/-- As many PDUs await a response as `w4rQ` has entries. -/
theorem length_awaiting : s.awaiting.length = s.w4rQ.size := by
  unfold awaiting
  rw [List.length_map, Std.TreeMap.length_toList]

/-- The window holds PDUs that have been through the queue. -/
theorem Queued.of_window {r : Ref} (h : r ∈ s.window) : s.Queued r := by
  rcases (mem_window.mp h).1 with h | h
  · exact .awaiting h
  · exact .flight h

/-- **Room where `do_write` is about to write**: the queue holds a message request only if fewer than
ten PDUs await a response. -/
def Room (s : Session) : Prop :=
  ∀ t, s.phase t = .found true → ∀ r, r ∈ s.txQ → (s.pdu r).commandId.isMessage = true →
    s.w4rQ.size < 10

/-- What is known of runs with a single writer. -/
structure Single (s : Session) : Prop where
  one : OneInFlight s
  slot : ∀ r, r ∈ s.inFlight → s.slot = some r

end Session

open Session

/-! ## Room -/

/-- There is still room if nothing has been added. -/
theorem Session.Room.mono (hR : s.Room) (hi : Inv s)
    (hph : ∀ u, s'.phase u = .found true → s.phase u = .found true)
    (hq : ∀ r, r ∈ s'.txQ → r ∈ s.txQ) (hsize : s'.w4rQ.size ≤ s.w4rQ.size)
    (hmsg : ∀ r, r < s.heap.length → (s'.pdu r).commandId = (s.pdu r).commandId) : s'.Room := by
  intro u hu r hr hm
  have hr := hq r hr
  rw [hmsg r (hi.queued r (.waiting hr))] at hm
  exact Nat.lt_of_le_of_lt hsize (hR u (hph u hu) r hr hm)

/-- A thread is about to write only because it has asked the queue. -/
theorem found_perform {op : Op} {x : op.Res × Session} (h : perform cfg t op s = some x)
    (hop : op ≠ .txEmpty) {u : Tid} {b : Bool} (hu : x.2.phase u = .found b) :
    s.phase u = .found b :=
  (found_or_empty h hu).resolve_right fun hasked => hop hasked.1

/-- The queue gets nothing new except by a push. -/
theorem mem_txQ_of_perform {op : Op} {x : op.Res × Session} (h : perform cfg t op s = some x)
    (hpush : op.pushed? = none) (hback : op ≠ .txPushBackLastPop) {r : Ref} (hr : r ∈ x.2.txQ) :
    r ∈ s.txQ := by
  rcases mem_txQ_perform h hr with hr | ⟨l, rfl⟩ | ⟨hop, -⟩
  · exact hr
  · cases hpush
  · exact absurd hop hback

/-- The map gets nothing new except by `w4rQ_put`. -/
theorem size_perform {op : Op} {x : op.Res × Session} (h : perform cfg t op s = some x)
    (hop : ∀ r, op ≠ .w4rInsert r) : x.2.w4rQ.size ≤ s.w4rQ.size := by
  by_cases hw : Field.w4rQ ∈ op.writes
  · cases op with
    | w4rInsert r => exact absurd rfl (hop r)
    | w4rAnswer cmd seq => cases h; exact Std.TreeMap.size_erase_le
    | w4rEraseFound r =>
        rcases perform_w4rEraseFound h with rfl | rfl
        · exact Std.TreeMap.size_erase_le
        · exact Nat.le_refl _
    | _ => simp at hw
  · have hq : x.2.w4rQ = s.w4rQ := perform_same (f := .w4rQ) h hw
    exact Nat.le_of_eq (congrArg _ hq)

/-- **Every operation leaves room.** -/
theorem room_perform {op : Op} {x : op.Res × Session} (hi : Inv s) (hS : Single s) (hR : s.Room)
    (hg : belowLimit.op t op s) (hk : Known t op s) (h : perform cfg t op s = some x) :
    x.2.Room := by
  have hmsg : ∀ r, r < s.heap.length → (x.2.pdu r).commandId = (s.pdu r).commandId :=
    fun r hr => commandId_perform h hr
  -- only the thread that holds the mutex can be about to write
  have howner : s.owner .writeMutex = some t → ∀ u, s.phase u = .found true → u = t := by
    intro ho u hu
    have hou := hi.mutex u (by rw [hu]; simp)
    rw [ho, Option.some.injEq] at hou
    exact hou.symm
  cases op with
  | txEmpty =>
      cases h
      intro u hu r hr
      have hu : Function.update s.phase t (.found s.txQ.empty) u = .found true := hu
      by_cases hut : u = t
      · subst hut
        rw [Function.update_self, Phase.found.injEq] at hu
        exact absurd hr (PrioQ.empty_iff_forall_not_mem.mp hu r)
      · rw [Function.update_of_ne hut] at hu
        exact hR u hu r hr
  | txPush q l =>
      intro u hu r hr hmr
      have hu := found_perform h (by simp) hu
      cases h
      have hut := howner hk.1 u hu
      subst hut
      rcases PrioQ.mem_push.mp hr with hr | rfl
      · exact hR u hu r hr hmr
      · exact hg.2 r rfl hu hmr
  | txPushBackLastPop =>
      -- a PDU is in flight, so nobody is about to write
      intro u hu
      have hu := found_perform h (by simp) hu
      obtain ⟨q, hq⟩ := Option.ne_none_iff_exists'.mp hk.2
      have hmem : q ∈ s.inFlight := mem_inFlight.mpr (.inr (.inr hq))
      rw [hS.one.clear u (.inl hu)] at hmem
      cases hmem
  | w4rInsert q =>
      -- the io thread is in the critical section, at another place
      intro u hu
      have hu := found_perform h (by simp) hu
      have hut := howner (hi.mutex t (by rw [hk.2.1]; simp)) u hu
      rw [hut, hk.2.1] at hu
      cases hu
  -- nothing else fills the queue or the window
  | _ =>
      exact hR.mono hi (fun u hu => found_perform h (by simp) hu)
        (fun r hr => mem_txQ_of_perform h rfl (by simp) hr) (size_perform h (by simp)) hmsg

/-! ## The bound -/

/-- The window gets nothing new except by a pop. -/
theorem mem_window_perform {op : Op} {x : op.Res × Session} (hi : Inv s) (hS : Single s)
    (hk : Known t op s) (h : perform cfg t op s = some x) {r : Ref} (hr : r ∈ x.2.window) :
    r ∈ s.window ∨
      (op = .txPop ∧ s.txQ.pop.1 = some r ∧ (s.pdu r).commandId.isMessage = true) := by
  obtain ⟨hplace, hm⟩ := mem_window.mp hr
  -- it is an object already, so it has kept its kind
  have hlt : r < s.heap.length := by
    rcases queued_perform h hk (.of_window hr) with hq | ⟨l, rfl⟩
    · exact hi.queued r hq
    · rcases hk.2 with hin | ⟨-, -, haw⟩
      · exact hi.fresh r (.inl ⟨t, hin⟩)
      · exact hi.queued r (.awaiting haw)
  rw [commandId_perform h hlt] at hm
  rcases hplace with haw | hfl
  · rcases awaits_perform h haw with haw | rfl
    · exact .inl (mem_window.mpr ⟨.inl haw, hm⟩)
    · -- `handle_write` records the PDU in flight
      obtain ⟨q, hq⟩ := Option.ne_none_iff_exists'.mp hk.2.2.1
      have hmem : q ∈ s.inFlight := mem_inFlight.mpr (.inr (.inr hq))
      have hslot := hS.slot q hmem
      rw [hk.2.2.2, Option.some.injEq] at hslot
      exact .inl (mem_window.mpr ⟨.inr (hslot ▸ hmem), hm⟩)
  · rcases mem_inFlight_perform h hk hfl with hfl | ⟨hop, hpop⟩
    · exact .inl (mem_window.mpr ⟨.inr hfl, hm⟩)
    · exact .inr ⟨hop, hpop, hm⟩

/-- A message request is popped only while fewer than ten PDUs await a response. -/
theorem size_lt_of_txPop (hR : s.Room) (hk : Known t .txPop s) {r : Ref}
    (hpop : s.txQ.pop.1 = some r) (hm : (s.pdu r).commandId.isMessage = true) :
    s.w4rQ.size < 10 := by
  rcases hk.2.2 with hph | ⟨-, -, -, -, hsize⟩
  · exact hR t hph r (PrioQ.mem_iff_pop.mpr (.inl hpop)) hm
  · exact hsize

/-- **Every operation keeps the bound.** -/
theorem window_perform {op : Op} {x : op.Res × Session} (hi : Inv s) (hS : Single s) (hR : s.Room)
    (hb : s.window.length ≤ 10) (hk : Known t op s) (h : perform cfg t op s = some x) :
    x.2.window.length ≤ 10 := by
  by_cases hpop : op = .txPop ∧ ∃ r, s.txQ.pop.1 = some r ∧ (s.pdu r).commandId.isMessage = true
  · obtain ⟨rfl, a, ha, hm⟩ := hpop
    -- the window was what awaits a response, and the popped request comes on top
    have hcover : x.2.window.length ≤ (a :: s.awaiting).length := by
      refine window_length_le fun r hr => ?_
      rcases mem_window_perform hi hS hk h hr with hr | ⟨-, hr, -⟩
      · rcases (mem_window.mp hr).1 with haw | hfl
        · exact List.mem_cons_of_mem _ (mem_awaiting.mpr haw)
        · rw [hS.one.of_txPop hk] at hfl
          cases hfl
      · rw [ha, Option.some.injEq] at hr
        rw [hr]
        exact List.mem_cons_self
    have hsize := size_lt_of_txPop hR hk ha hm
    rw [List.length_cons, length_awaiting] at hcover
    exact Nat.le_trans hcover hsize
  · refine Nat.le_trans (window_length_le fun r hr => ?_) hb
    rcases mem_window_perform hi hS hk h hr with hr | ⟨hop, hr⟩
    · exact hr
    · exact absurd ⟨hop, r, hr⟩ hpop

namespace Session

/-- What a run keeps: there is room where a PDU is about to be written, and the bound. -/
structure Windowed (s : Session) : Prop where
  room : s.Room
  bound : s.window.length ≤ 10

/-- Moves that neither write nor record anything keep both. -/
theorem Windowed.mono (hW : s.Windowed) (hi : Inv s) (hph : s'.phase = s.phase)
    (hq : s'.txQ = s.txQ) (hw : s'.w4rQ = s.w4rQ) (hfl : ∀ r, r ∈ s'.inFlight → r ∈ s.inFlight)
    (hpdu : ∀ r, r < s.heap.length → s'.pdu r = s.pdu r) : s'.Windowed := by
  refine ⟨hW.room.mono hi (fun u hu => hph ▸ hu) (fun r hr => hq ▸ hr)
    (Nat.le_of_eq (congrArg _ hw)) fun r hr => congrArg _ (hpdu r hr), ?_⟩
  refine Nat.le_trans (window_length_le fun r hr => ?_) hW.bound
  obtain ⟨hplace, hm⟩ := mem_window.mp hr
  have hplace : s.Awaits r ∨ r ∈ s.inFlight := by
    refine hplace.imp (fun haw => ?_) (hfl r)
    obtain ⟨k, e, he, hobj⟩ := haw
    exact ⟨k, e, hw ▸ he, hobj⟩
  have hlt : r < s.heap.length :=
    hplace.elim (fun haw => hi.queued r (.awaiting haw)) fun hr => hi.queued r (.flight hr)
  rw [hpdu r hlt] at hm
  exact mem_window.mpr ⟨hplace, hm⟩

end Session

variable {p : Persisted} {now : Nat} {c : Machine}

/-- Where `do_write` respects the limit there is a single writer. -/
theorem Runs.single (h : Runs cfg belowLimit p now c) : Single c.shared := by
  have hr : Runs cfg idleWhenEmpty p now c := h.weaken (fun _ _ _ hg => hg.1) fun _ _ hg => hg
  exact ⟨hr.oneInFlight, hr.slot_of_inFlight⟩

/-- The window stays within its bound in every run in which `do_write` respects the limit. -/
theorem Runs.windowed (h : Runs cfg belowLimit p now c) : c.shared.Windowed := by
  refine Runs.dataWith (I := Single) (fun c hc => hc.single) h ?_ ?_ ?_ ?_
  · refine ⟨fun t ht => ?_, Nat.zero_le 10⟩
    cases ht
  · intro t op s x hi hS hW hg _ hk hx
    exact ⟨room_perform hi hS hW.room hg hk hx, window_perform hi hS hW.room hW.bound hk hx⟩
  · intro e s s' hi _ hW hx
    exact hW.mono hi (env_same (f := .phase) hx (by simp)) (env_same (f := .txQ) hx (by simp))
      (env_same (f := .w4rQ) hx (by simp)) (fun r hr => (inFlight_env hx).mem_iff.mp hr)
      (pdu_env hx).2
  · intro j s s' hi _ hq hW _ hx
    exact hW.mono hi (take_same (f := .phase) hx (by simp)) (take_same (f := .txQ) hx (by simp))
      (take_same (f := .w4rQ) hx (by simp)) (fun r hr => mem_inFlight_take hx hq hr)
      fun r _ => (pdu_take hx).2 r

/-- **Window bound**: in every run in which `do_write` respects the limit of `canSend`, at most ten
message requests await a response or are being written. -/
theorem window_bound (h : Runs cfg belowLimit p now c) : c.shared.window.length ≤ 10 :=
  h.windowed.bound

/-- A message sent and waiting for its response. -/
theorem window_bound_first_send :
    (Machine.after sampleParams .none (Schedule.bind ++ Schedule.sendWritten 1)).shared.window.length
      ≤ 10 :=
  window_bound (runs_under (g := belowLimit) (by decide +kernel))

/-- Eleven messages, each sent when the one before has been written, to a peer that does not answer. -/
def elevenUnanswered : List Step :=
  Schedule.bind ++ (List.range' 1 11).flatMap Schedule.sendWritten

/-- Without the condition the window grows: `do_write` finds the queue empty each time. -/
theorem eleven_outstanding : ¬∀ (cfg : Params) (p : Persisted) (now : Nat) (c : Machine),
    Runs cfg Guard.free p now c → c.shared.window.length ≤ 10 := by
  intro h
  have hle := h _ _ _ _ (runs_after sampleParams .none elevenUnanswered)
  have heleven :
      (Machine.after sampleParams .none elevenUnanswered).shared.window.length = 11 := by
    decide +kernel
  omega

end KissSmpp
