import Mathlib.Data.List.Dedup
import KissSmpp.Queue.Pipeline
import KissSmpp.Session.Calls
import KissSmpp.Session.Pacing

/-! # Lanes through the transmit queue

What becomes of the PDUs that are pushed on one level of the transmit queue, up to the first time each of
them is handed to `async_write`. A `lane` holds those of them that have not been handed on yet, the one to
be handed on next first; a PDU that has been popped before (it has been put back after a failed write, or
pushed again by the ageing sweep) takes no place in it. `lane_perform` says what single operations do to a
lane: it is a stage of a pipeline that keeps the order. -/

namespace KissSmpp

open Interleave Queue

variable {cfg : Params} {t : Tid} {s s' : Session} {β : Type}

/-! ## Transmissions -/

/-- The PDU that an event hands to `async_write`, and what it is encoded as. -/
def Event.wrote? : Event → Option (Ref × Pdu)
  | .wrote r tbuf _ _ => some (r, tbuf)
  | _ => none

namespace Session

/-- The PDUs handed to `async_write`, the latest first. -/
def written (s : Session) : List Ref := (s.hist.filterMap Event.wrote?).map Prod.fst

/-- **The PDUs transmitted**, in the order in which each was handed to `async_write` for the first time. -/
def transmitted (s : Session) : List Ref := s.written.dedup.reverse

/-- The PDUs that have been popped: they have been written, or a thread holds them. -/
def touched (s : Session) : List Ref := s.written ++ s.popped

/-- **The lane of a level**: the PDUs on their way from there to their first transmission, each by what
`tag` makes of it; those without a tag are passed over. -/
def lane (tag : Ref → Option β) (l : Level) (s : Session) : List β :=
  (s.popped.filter (· ∉ s.written) ++ (s.txQ.level l).filter (· ∉ s.touched)).filterMap tag

/-- What has left the lane. -/
def departures (tag : Ref → Option β) (s : Session) : List β := s.transmitted.filterMap tag

/-- **A lane as the last stage of a pipeline**: `upstream` is what has arrived and is not in the lane
yet. -/
def pipeline (arrived : List β) (tag : Ref → Option β) (l : Level) (upstream : List β) (s : Session) :
    Pipeline β :=
  ⟨arrived, s.departures tag, s.lane tag l ++ upstream⟩

/-- **A PDU that has been popped is held until it is written**, inside the critical section. -/
def Holds (s : Session) : Prop := ∀ u, s.pdu2send u ≠ none → s.phase u = .popped

/-- **Nothing is put back or pushed again that has not been popped before.** -/
structure Spent (s : Session) : Prop where
  slot : ∀ r, s.slot = some r → r ∈ s.touched
  awaits : ∀ r, s.Awaits r → r ∈ s.touched

/-- A PDU has been written if a write of it is on record. -/
theorem mem_written {r : Ref} : r ∈ s.written ↔ ∃ tbuf st conn, .wrote r tbuf st conn ∈ s.hist := by
  simp only [written, List.mem_map, List.mem_filterMap]
  constructor
  · rintro ⟨⟨q, tbuf⟩, ⟨ev, hev, hw⟩, rfl⟩
    cases ev with
    | wrote q' tbuf' st conn =>
        cases hw
        exact ⟨tbuf, st, conn, hev⟩
    | _ => cases hw
  · rintro ⟨tbuf, st, conn, hev⟩
    exact ⟨(r, tbuf), ⟨_, hev, rfl⟩, rfl⟩

/-- A PDU has been popped if some thread holds it. -/
theorem mem_popped {r : Ref} : r ∈ s.popped ↔ ∃ u, s.pdu2send u = some r := by
  simp only [popped, List.mem_filterMap]
  constructor
  · rintro ⟨u, -, hu⟩
    exact ⟨u, hu⟩
  · rintro ⟨u, hu⟩
    exact ⟨u, Tid.mem_all u, hu⟩

/-- A PDU has been touched if it has been written or popped. -/
theorem mem_touched {r : Ref} : r ∈ s.touched ↔ r ∈ s.written ∨ r ∈ s.popped := List.mem_append

/-- No thread holds a PDU. -/
theorem popped_eq_nil (h : ∀ u, s.pdu2send u = none) : s.popped = [] :=
  List.filterMap_eq_nil_iff.mpr fun u _ => h u

end Session

open Session

/-! ## What is held and what is spent -/

/-- The mutex keeps the others from holding a PDU. -/
theorem Session.Holds.others (hH : s.Holds) (hi : Inv s) (ho : s.owner .writeMutex = some t) {u : Tid}
    (hu : u ≠ t) : s.pdu2send u = none := by
  by_contra hne
  have hphase := hH u hne
  have howner := hi.mutex u (by rw [hphase]; simp)
  rw [ho, Option.some.injEq] at howner
  exact hu howner.symm

/-- What is recorded of transmissions. -/
theorem written_perform {op : Op} {x : op.Res × Session} (h : perform cfg t op s = some x) :
    x.2.written = ((op.logs s).filterMap Event.wrote?).map Prod.fst ++ s.written := by
  unfold Session.written
  rw [perform_hist h, List.filterMap_append, List.map_append]

/-- Most operations record none. -/
theorem written_same {op : Op} {x : op.Res × Session} (h : perform cfg t op s = some x)
    (hop : ∀ r tbuf, op ≠ .asyncWrite r tbuf) : x.2.written = s.written := by
  rw [written_perform h]
  cases op with
  | asyncWrite r tbuf => exact absurd rfl (hop r tbuf)
  | _ => rfl

/-- The environment hands no PDU to `async_write`. -/
theorem written_env {e : Env} (h : e.perform cfg s = some s') : s'.written = s.written := by
  have hlogs : (e.logs s).filterMap Event.wrote? = [] := by
    unfold Env.logs
    split <;> rfl
  unfold Session.written
  rw [env_hist h, List.filterMap_append, hlogs, List.nil_append]

/-- The start of a job hands no PDU to `async_write`. -/
theorem written_take {j : Job} (h : j.take s = some s') : s'.written = s.written := by
  have hlogs : j.logs.filterMap Event.wrote? = [] := by cases j <;> rfl
  unfold Session.written
  rw [take_hist h, List.filterMap_append, hlogs, List.nil_append]

/-- A PDU that has been popped stays so. -/
theorem touched_perform {op : Op} {x : op.Res × Session} (h : perform cfg t op s = some x)
    (hk : Known t op s) {r : Ref} (hr : r ∈ s.touched) : r ∈ x.2.touched := by
  rw [mem_touched] at hr ⊢
  rcases hr with hr | hr
  · left
    rw [written_perform h]
    exact List.mem_append_right _ hr
  · obtain ⟨u, hu⟩ := mem_popped.mp hr
    by_cases hut : u = t
    · subst hut
      by_cases hw : Field.pdu2send ∈ op.writes
      · cases op with
        | txPop =>
            have hnone : s.pdu2send u = none := hk.2.1
            rw [hnone] at hu
            cases hu
        | asyncWrite q tbuf =>
            -- it is on record now
            have hq : s.pdu2send u = some q := hk.2.1
            rw [hq, Option.some.injEq] at hu
            left
            rw [written_perform h, hu]
            exact List.mem_cons_self
        | _ => simp at hw
      · have hsame : x.2.pdu2send = s.pdu2send := perform_same (f := .pdu2send) h hw
        exact .inr (mem_popped.mpr ⟨u, (congrFun hsame u).trans hu⟩)
    · exact .inr (mem_popped.mpr ⟨u, (perform_local h hut).1.trans hu⟩)

/-- A PDU that has been popped or written stays so in a change that keeps the record and what is
popped. -/
theorem touched_grows (hhist : ∀ ev ∈ s.hist, ev ∈ s'.hist) (hp : s'.pdu2send = s.pdu2send) {r : Ref}
    (hr : r ∈ s.touched) : r ∈ s'.touched := by
  rw [mem_touched] at hr ⊢
  refine hr.imp (fun hr => ?_) fun hr => ?_
  · obtain ⟨tbuf, st, conn, hev⟩ := mem_written.mp hr
    exact mem_written.mpr ⟨tbuf, st, conn, hhist _ hev⟩
  · unfold Session.popped
    rw [hp]
    exact hr

/-- **Every operation leaves what is put back or pushed again spent.** -/
theorem spent_perform {op : Op} {x : op.Res × Session} (hS : s.Spent)
    (h : perform cfg t op s = some x) (hk : Known t op s) : x.2.Spent := by
  constructor
  · intro r hr
    rcases slot_perform h hr with hr | ⟨rfl, hpop⟩
    · exact touched_perform h hk (hS.slot r hr)
    · -- it has just been popped
      cases h
      exact mem_touched.mpr (.inr (mem_popped.mpr ⟨t, (Function.update_self ..).trans hpop⟩))
  · intro r hr
    rcases awaits_perform h hr with hr | rfl
    · exact touched_perform h hk (hS.awaits r hr)
    · exact touched_perform h hk (hS.slot r hk.2.2.2)

section

variable {g : Guard Op Tid Session Job} {p : Persisted} {now : Nat} {c : Machine}

/-- **Induction over the operations of a run**, with all that is known of them and what every run keeps. -/
theorem Runs.dataKnowing {I K : Session → Prop} (hI : ∀ c, Runs cfg g p now c → I c.shared)
    (h : Runs cfg g p now c) (h0 : K (Session.init p now))
    (hop : ∀ t op s r, I s → K s → (known cfg g).op t op s → perform cfg t op s = some r → K r.2)
    (henv : ∀ (e : Env) s s', I s → K s → e.perform cfg s = some s' → K s')
    (htake : ∀ (j : Job) s s', I s → Quiet j.thread s → K s → j.take s = some s' → K s') :
    K c.shared := by
  refine Reach.data (I := I) (K := K) ?_ h0 ?_ henv ?_ h.knowing
  · exact fun c hc => hI c (hc.mono fun _ _ hm => Guard.also_allows (Guard.also_allows hm))
  · exact fun t op s r hI hK hg hx => hop t op s r hI hK hg (perform_of_exec hx).2
  · exact fun j s s' hI hK hg hx => htake j s s' hI (known_quiet hg) hK hx

/-- **In every run the threads go through the critical section as the protocol has it.** -/
theorem Runs.placed (h : Runs cfg g p now c) :
    ∃ x : Tid → Place, c.shared.Placed x ∧ ∀ t, (c.code t).Follows pacing (fun _ => Away) (x t) := by
  have hidle : ∀ t, ((Machine.init p now).code t).Follows pacing (fun _ => Away) .away := fun _ => rfl
  refine Reach.protocol (I := fun _ => Away) (K := Session.Placed) hidle
    (fun j x hx => pacing_routine.body (fun _ => pacing_upkeep) x hx) ?_ ?_ ?_ ?_ h.knowing
  · exact ⟨fun _ => rfl, fun u hu => (by cases hu), fun u hu => absurd rfl hu, fun u hu => (by cases hu)⟩
  · intro t op s x r hP hg ha hx
    exact placed_perform hP (perform_of_exec hx).2 (known_mayRun hg) ha
  · intro e s s' x hP hx
    exact hP.same (env_same (f := .phase) hx (by simp)) (env_same (f := .pdu2send) hx (by simp))
      (env_same (f := .fault) hx (by simp))
  · intro j s s' x hP _ hx
    exact hP.same (take_same (f := .phase) hx (by simp)) (take_same (f := .pdu2send) hx (by simp))
      (take_same (f := .fault) hx (by simp))

/-- A thread that holds a PDU is in `write_pdu`. -/
theorem Runs.holds (h : Runs cfg g p now c) : c.shared.Holds := by
  obtain ⟨x, hP, -⟩ := h.placed
  intro u hu
  have hagree := hP.agrees u
  rw [hP.holding u hu] at hagree
  exact hagree

/-- In every run, what is put back or pushed again has been popped before. -/
theorem Runs.spent (h : Runs cfg g p now c) : c.shared.Spent := by
  refine h.data ⟨fun r hr => (by cases hr), fun r hr => ?_⟩ (fun _ _ _ _ _ hS _ _ hk hx => spent_perform hS hx hk)
    ?_ ?_
  · obtain ⟨k, e, hk, -⟩ := hr
    have hempty : (∅ : AwaitingResponseMap)[k]? = some e := hk
    rw [Std.TreeMap.getElem?_emptyc] at hempty
    cases hempty
  · intro e s s' _ hS hx
    have hp : s'.pdu2send = s.pdu2send := env_same (f := .pdu2send) hx (by simp)
    have hw : s'.w4rQ = s.w4rQ := env_same (f := .w4rQ) hx (by simp)
    have htouch : ∀ r, r ∈ s.touched → r ∈ s'.touched := fun r hr => touched_grows
      (fun _ => mem_hist_env hx) hp hr
    refine ⟨fun r hr => htouch r (hS.slot r (slot_env hx ▸ hr)), fun r hr => htouch r (hS.awaits r ?_)⟩
    unfold Session.Awaits at hr
    rwa [hw] at hr
  · intro j s s' _ _ hS _ hx
    have hp : s'.pdu2send = s.pdu2send := take_same (f := .pdu2send) hx (by simp)
    have hw : s'.w4rQ = s.w4rQ := take_same (f := .w4rQ) hx (by simp)
    have htouch : ∀ r, r ∈ s.touched → r ∈ s'.touched := fun r hr => touched_grows
      (fun _ => mem_hist_take hx) hp hr
    refine ⟨fun r hr => htouch r (hS.slot r (slot_take hx ▸ hr)), fun r hr => htouch r (hS.awaits r ?_)⟩
    unfold Session.Awaits at hr
    rwa [hw] at hr

end

/-- A PDU on a level was there before, has been pushed there, or has been put back there. -/
theorem mem_level_perform {op : Op} {x : op.Res × Session} (h : perform cfg t op s = some x) {r : Ref}
    {i : Level} (hr : r ∈ x.2.txQ.level i) :
    r ∈ s.txQ.level i ∨ op = .txPush r i ∨ s.slot = some r := by
  by_cases hw : Field.txQ ∈ op.writes
  · cases op with
    | txPush q l =>
        cases h
        rcases PrioQ.mem_level_push.mp hr with hr | ⟨rfl, rfl⟩
        · exact .inl hr
        · exact .inr (.inl rfl)
    | txPop =>
        cases h
        exact .inl (PrioQ.mem_level_of_pop hr)
    | txClear l =>
        cases h
        exact .inl (PrioQ.mem_level_clear.mp hr).1
    | txPushBackLastPop =>
        cases h
        rcases PrioQ.mem_level_pushBackLastPop.mp hr with hr | hr
        · exact .inl hr
        · exact .inr (.inr (Option.map_eq_some_iff.mpr ⟨_, hr, rfl⟩))
    | _ => simp at hw
  · have hq : x.2.txQ = s.txQ := perform_same (f := .txQ) h hw
    exact .inl (hq ▸ hr)

/-! ## What operations do to a lane -/

section

variable {tag : Ref → Option β} {l : Level}

/-- A lane is where the PDUs on it are. -/
theorem lane_same (hw : s'.written = s.written) (hp : s'.popped = s.popped)
    (hl : s'.txQ.level l = s.txQ.level l) : s'.lane tag l = s.lane tag l := by
  unfold Session.lane Session.touched
  rw [hw, hp, hl]

/-- The tags of PDUs that have not been near the queue do not matter. -/
theorem lane_tag {tag' : Ref → Option β} (h : ∀ r, s.Queued r → tag' r = tag r) :
    s.lane tag' l = s.lane tag l ∧ s.departures tag' = s.departures tag := by
  refine ⟨List.filterMap_congr fun r hr => h r ?_, List.filterMap_congr fun r hr => h r ?_⟩
  · rcases List.mem_append.mp hr with hr | hr
    · exact .flight (mem_inFlight.mpr (.inl (mem_popped.mp (List.mem_filter.mp hr).1)))
    · exact .waiting ⟨l, (List.mem_filter.mp hr).1⟩
  · obtain ⟨tbuf, st, conn, hev⟩ := mem_written.mp (List.mem_dedup.mp (List.mem_reverse.mp hr))
    exact .wrote tbuf st conn hev

/-- What is handed to `async_write` leaves the lane. -/
theorem departures_same (hw : s'.written = s.written) : s'.departures tag = s.departures tag := by
  unfold Session.departures Session.transmitted
  rw [hw]

/-- What no thread holds and has not been written takes a place in the lane. -/
theorem lane_of_popped_nil (hp : s.popped = []) :
    s.lane tag l = ((s.txQ.level l).filter (· ∉ s.written)).filterMap tag := by
  unfold Session.lane Session.touched
  rw [hp, List.filter_nil, List.nil_append, List.append_nil]

/-- **The PDU popped next is the first on the lane**, if it has a place there. -/
theorem lane_txPop {x : Option Ref × Session} (h : perform cfg t .txPop s = some x)
    (hnone : ∀ u, s.pdu2send u = none)
    (hlane : ∀ i, i ≠ l → ∀ r ∈ s.txQ.level i, tag r ≠ none → r ∈ s.touched) :
    (x.2.lane tag l).Sublist (s.lane tag l) := by
  have hw : x.2.written = s.written := written_same h (by simp)
  have hpopped : s.popped = [] := popped_eq_nil hnone
  have hq : x.2.txQ = s.txQ.pop.2 := by cases h; rfl
  have hsend : x.2.pdu2send = Function.update (fun _ => none) t s.txQ.pop.1 := by
    cases h
    exact congrArg (Function.update · t _) (funext hnone)
  rcases hp : s.txQ.pop with ⟨_ | a, q⟩
  · -- nothing waited
    have hsame : x.2.lane tag l = s.lane tag l := by
      refine lane_same hw ?_ ?_
      · rw [hpopped]
        refine popped_eq_nil fun u => ?_
        rw [hsend, hp, Function.update_eq_self]
      · rw [hq, hp, (PrioQ.pop_none hp).2]
    exact hsame ▸ List.Sublist.refl _
  · obtain ⟨i, hi, hother, -⟩ := PrioQ.pop_some hp
    have hpopped' : x.2.popped = [a] := by
      unfold Session.popped
      rw [hsend, hp]
      cases t <;> rfl
    -- the popped PDU comes before what is left of the level
    have hlane' : x.2.lane tag l = ([a].filter (· ∉ s.written)).filterMap tag ++
        ((q.level l).filter (· ∉ x.2.touched)).filterMap tag := by
      unfold Session.lane
      rw [hpopped', hw, hq, hp, List.filterMap_append]
    have hrest : (((q.level l).filter (· ∉ x.2.touched)).filterMap tag).Sublist
        (((q.level l).filter (· ∉ s.written)).filterMap tag) := by
      refine (List.monotone_filter_right _ fun r hr => ?_).filterMap tag
      simp only [decide_eq_true_eq, mem_touched, hw, not_or] at hr ⊢
      exact hr.1
    rw [hlane', lane_of_popped_nil hpopped]
    by_cases hil : i = l
    · -- the head of the level itself
      subst hil
      have hsplit : s.txQ.level i = [a] ++ q.level i := hi
      rw [hsplit, List.filter_append, List.filterMap_append]
      exact hrest.append_left _
    · -- the head of another level takes no place in the lane
      have hnil : ([a].filter (· ∉ s.written)).filterMap tag = [] := by
        rw [List.filterMap_eq_nil_iff]
        intro r hr
        obtain ⟨hra, hunwritten⟩ := List.mem_filter.mp hr
        rw [List.mem_singleton.mp hra] at hunwritten ⊢
        by_contra htag
        have htouched := hlane i hil a (by rw [hi]; exact List.mem_cons_self) htag
        rw [mem_touched, hpopped] at htouched
        exact of_decide_eq_true hunwritten (htouched.resolve_right List.not_mem_nil)
      rw [hnil, List.nil_append, ← hother l (Ne.symm hil)]
      exact hrest

/-- **What is handed to `async_write` was the first on the lane**, if it had a place there. -/
theorem lane_asyncWrite {r : Ref} {tbuf : Pdu} {x : Unit × Session}
    (h : perform cfg t (.asyncWrite r tbuf) s = some x) (ht : s.pdu2send t = some r)
    (hnone : ∀ u, u ≠ t → s.pdu2send u = none) :
    ∃ d, x.2.departures tag = s.departures tag ++ d ∧ s.lane tag l = d ++ x.2.lane tag l := by
  have hw : x.2.written = r :: s.written := written_perform h
  have hq : x.2.txQ = s.txQ := perform_same (f := .txQ) h (by simp)
  have hs : s.pdu2send = Function.update (fun _ => none) t (some r) := by
    rw [Function.eq_update_iff]
    exact ⟨ht, hnone⟩
  have hsend : x.2.pdu2send = fun _ => none := by
    have hsame : x.2.pdu2send = Function.update s.pdu2send t none := by
      cases h
      exact Session.startIo_same (f := .pdu2send) _ (by decide)
    rw [hsame, hs, Function.update_idem, Function.update_eq_self_iff]
  have hpopped : s.popped = [r] := by
    unfold Session.popped
    rw [hs]
    cases t <;> rfl
  have hpopped' : x.2.popped = [] := popped_eq_nil fun u => congrFun hsend u
  have hlane : s.lane tag l = ([r].filter (· ∉ s.written)).filterMap tag ++ x.2.lane tag l := by
    rw [lane_of_popped_nil hpopped', hw, hq]
    unfold Session.lane Session.touched
    rw [hpopped, List.filterMap_append]
    congr 3
    funext q
    have hperm : q ∈ s.written ++ [r] ↔ q ∈ r :: s.written := (List.perm_append_singleton r _).mem_iff
    exact decide_eq_decide.mpr (not_congr hperm)
  -- a PDU that has been written before departs no second time
  refine ⟨([r].filter (· ∉ s.written)).filterMap tag, ?_, hlane⟩
  unfold Session.departures Session.transmitted
  rw [hw]
  by_cases hr : r ∈ s.written
  · rw [List.dedup_cons_of_mem hr, List.filter_singleton]
    simp [hr]
  · rw [List.dedup_cons_of_notMem hr, List.reverse_cons, List.filterMap_append, List.filter_singleton]
    simp [hr]

/-- A push, a clear and a PDU put back leave the threads with what they hold. -/
theorem popped_same {op : Op} {x : op.Res × Session} (h : perform cfg t op s = some x)
    (hop : Field.pdu2send ∉ op.writes) : x.2.popped = s.popped := by
  have hsame : x.2.pdu2send = s.pdu2send := perform_same (f := .pdu2send) h hop
  unfold Session.popped
  rw [hsame]

/-- **A push adds to the lane** what has not been popped before. -/
theorem lane_txPush {r : Ref} {k : Level} {x : Unit × Session}
    (h : perform cfg t (.txPush r k) s = some x) :
    x.2.lane tag l =
      s.lane tag l ++ if k = l ∧ r ∉ s.touched then (tag r).toList else [] := by
  have hw : x.2.written = s.written := written_same h (by simp)
  have hp : x.2.popped = s.popped := popped_same h (by simp)
  by_cases hkl : k = l
  · subst hkl
    have hlevel : x.2.txQ.level k = s.txQ.level k ++ [r] := by
      cases h
      exact Function.update_self ..
    have htouched : x.2.touched = s.touched := by
      unfold Session.touched
      rw [hw, hp]
    unfold Session.lane
    rw [htouched, hw, hp, hlevel, List.filter_append, ← List.append_assoc, List.filterMap_append]
    congr 1
    by_cases hr : r ∈ s.touched
    · simp [hr]
    · cases htag : tag r <;> simp [hr, htag]
  · rw [if_neg fun hk => hkl hk.1, List.append_nil]
    refine lane_same hw hp ?_
    cases h
    exact Function.update_of_ne (Ne.symm hkl) _ _

/-- What is put back takes no place in the lane. -/
theorem lane_txPushBackLastPop {x : Unit × Session} (hS : s.Spent)
    (h : perform cfg t .txPushBackLastPop s = some x) : x.2.lane tag l = s.lane tag l := by
  have hw : x.2.written = s.written := written_same h (by simp)
  have hp : x.2.popped = s.popped := popped_same h (by simp)
  have hq : x.2.txQ = s.txQ.pushBackLastPop cfg.pushBackFront := by cases h; rfl
  have htouched : x.2.touched = s.touched := by
    unfold Session.touched
    rw [hw, hp]
  unfold Session.lane
  rw [hw, hp, htouched, hq]
  congr 2
  unfold PrioQ.pushBackLastPop
  split
  · rfl
  · next i a hlast =>
      -- the PDU that is put back has been popped before
      have ha : a ∈ s.touched := hS.slot a (by unfold Session.slot; rw [hlast]; rfl)
      by_cases hil : l = i
      · subst hil
        show (Function.update s.txQ.level l _ l).filter _ = _
        rw [Function.update_self]
        split <;> simp [ha]
      · show (Function.update s.txQ.level i _ l).filter _ = _
        rw [Function.update_of_ne hil]

/-- Clearing a level empties its lane at most. -/
theorem lane_txClear {k : Level} {x : Unit × Session} (h : perform cfg t (.txClear k) s = some x) :
    (x.2.lane tag l).Sublist (s.lane tag l) := by
  have hw : x.2.written = s.written := written_same h (by simp)
  have hp : x.2.popped = s.popped := popped_same h (by simp)
  by_cases hkl : k = l
  · subst hkl
    have hlevel : x.2.txQ.level k = [] := by
      cases h
      exact Function.update_self ..
    unfold Session.lane
    rw [hw, hp, hlevel, List.filter_nil, List.append_nil]
    exact (List.sublist_append_left _ _).filterMap tag
  · have hsame : x.2.lane tag l = s.lane tag l := by
      refine lane_same hw hp ?_
      cases h
      exact Function.update_of_ne (Ne.symm hkl) _ _
    exact hsame ▸ List.Sublist.refl _

/-- **What an operation other than a push does to a lane**: PDUs at its head leave it, or some are
lost. -/
theorem lane_perform {op : Op} {x : op.Res × Session} (h : perform cfg t op s = some x) (hi : Inv s)
    (hk : Known t op s) (hH : s.Holds) (hS : s.Spent)
    (hlane : ∀ i, i ≠ l → ∀ r ∈ s.txQ.level i, tag r ≠ none → r ∈ s.touched)
    (hop : ∀ r k, op ≠ .txPush r k) :
    ∃ d rest, x.2.departures tag = s.departures tag ++ d ∧ s.lane tag l = d ++ rest ∧
      (x.2.lane tag l).Sublist rest := by
  -- a write takes the head of the lane; the queue's other changes move or drop what is behind it
  by_cases hwrite : ∃ r tbuf, op = .asyncWrite r tbuf
  · obtain ⟨r, tbuf, rfl⟩ := hwrite
    obtain ⟨d, hdep, hrest⟩ :=
      lane_asyncWrite (l := l) h hk.2.1 fun u hu => hH.others hi hk.1 hu
    exact ⟨d, _, hdep, hrest, List.Sublist.refl _⟩
  · have hw : x.2.written = s.written := written_same h fun r tbuf hr => hwrite ⟨r, tbuf, hr⟩
    refine ⟨[], s.lane tag l, ?_, rfl, ?_⟩
    · rw [departures_same hw, List.append_nil]
    by_cases hf : Field.txQ ∈ op.writes
    · cases op with
      | txPush r k => exact absurd rfl (hop r k)
      | txPop =>
          refine lane_txPop h (fun u => ?_) hlane
          by_cases hut : u = t
          · exact hut ▸ hk.2.1
          · exact hH.others hi hk.1 hut
      | txClear k => exact lane_txClear h
      | txPushBackLastPop => exact lane_txPushBackLastPop hS h ▸ List.Sublist.refl _
      | _ => simp at hf
    · have hq : x.2.txQ = s.txQ := perform_same (f := .txQ) h hf
      have hsame : x.2.lane tag l = s.lane tag l := by
        refine lane_same hw (popped_same h ?_) (by rw [hq])
        cases op <;> first | simp; done | exact absurd ⟨_, _, rfl⟩ hwrite | simp at hf
      exact hsame ▸ List.Sublist.refl _

/-! ## What operations do to the pipeline -/

variable {arrived upstream upstream' : List β}

/-- Where the queue and what is held and written stay, the pipeline does. -/
theorem pipeline_same (hw : s'.written = s.written) (hp : s'.pdu2send = s.pdu2send)
    (hq : s'.txQ = s.txQ) : s'.pipeline arrived tag l upstream = s.pipeline arrived tag l upstream := by
  have hpopped : s'.popped = s.popped := by
    unfold Session.popped
    rw [hp]
  unfold Session.pipeline
  rw [departures_same hw, lane_same hw hpopped (by rw [hq])]

/-- The tags of PDUs that have not been near the queue do not matter to it. -/
theorem pipeline_tag {tag' : Ref → Option β} (h : ∀ r, s.Queued r → tag' r = tag r) :
    s.pipeline arrived tag' l upstream = s.pipeline arrived tag l upstream := by
  obtain ⟨hlane, hdep⟩ := lane_tag (l := l) h
  unfold Session.pipeline
  rw [hlane, hdep]

/-- **A push**: what is added to the lane comes from upstream. -/
theorem pipeline_txPush {r : Ref} {k : Level} {x : Unit × Session}
    (h : perform cfg t (.txPush r k) s = some x)
    (hup : ((if k = l ∧ r ∉ s.touched then (tag r).toList else []) ++ upstream').Sublist upstream) :
    Pipeline.Steps (s.pipeline arrived tag l upstream) (x.2.pipeline arrived tag l upstream') := by
  unfold Session.pipeline
  rw [departures_same (written_same h (by simp)), lane_txPush h, List.append_assoc]
  exact .single (.lose _ _ (hup.append_left _))

/-- **The other operations**: PDUs at the head of the lane leave it, and some may be lost. -/
theorem pipeline_perform {op : Op} {x : op.Res × Session} (h : perform cfg t op s = some x)
    (hi : Inv s) (hk : Known t op s) (hH : s.Holds) (hS : s.Spent)
    (hlane : ∀ i, i ≠ l → ∀ r ∈ s.txQ.level i, tag r ≠ none → r ∈ s.touched)
    (hop : ∀ r k, op ≠ .txPush r k) (hup : upstream'.Sublist upstream) :
    Pipeline.Steps (s.pipeline arrived tag l upstream) (x.2.pipeline arrived tag l upstream') := by
  obtain ⟨d, rest, hdep, hsplit, hrest⟩ := lane_perform h hi hk hH hS hlane hop
  unfold Session.pipeline
  rw [hdep, hsplit, List.append_assoc]
  exact Pipeline.steps_advance (hrest.append hup)

end

end KissSmpp
