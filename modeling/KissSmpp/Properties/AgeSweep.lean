import KissSmpp.Interleave.Trace
import KissSmpp.Session.Alone
import KissSmpp.Session.Calls

/-! # One ageing sweep

`w4rQ_age_cleanup` erases from the map it iterates over, and finds what to erase through the sequence
number of the PDU, read after `do_write` may have changed it. Whatever that number is, something is wrong:
if it is still the entry's key, the loop advances an iterator it has erased; if it is the key of another
entry, the wrong one is removed; if it is none, `end()` is erased. -/

namespace KissSmpp

open Interleave

variable {cfg : Params} {t : Tid} {s s' : Session} {e : ErrorCode}

/-! ## What a sweep is to do -/

/-- Time passes only while a thread sleeps. -/
def onTime : Op → Nat := fun _ => 0

/-- The entry the iterator has come to. -/
def visited? : Op × Session → Option Nat
  | (.w4rAt k, s) => if k ∈ s.w4rQ then some k else none
  | _ => none

/-- The PDU handed to `do_write`. -/
def handedOver? : Op × Session → Option Ref
  | (.txPush r _, _) => some r
  | _ => none

/-- The iterator that is advanced, or erased, is not valid any more. -/
def Op.invalidIterator : Op → Bool
  | .note .staleIterator | .fail _ => true
  | _ => false

/-- What a sweep does, operation by operation. -/
def sweepTrace (cfg : Params) (e : ErrorCode) (s : Session) : List (Op × Session) :=
  (w4rQAgeCleanup cfg e).trace (execTimed onTime cfg .io) s

/-- **A correct sweep**: it ends, uses no iterator that is not valid, visits every entry once, removes
those that are thirty seconds old, hands each of their PDUs over once, and leaves the other entries. -/
structure Swept (cfg : Params) (e : ErrorCode) (s s' : Session) : Prop where
  ends : (w4rQAgeCleanup cfg e).run (execTimed onTime cfg .io) s = some ((), s')
  iterators : ∀ x ∈ sweepTrace cfg e s, x.1.invalidIterator = false
  visits : ((sweepTrace cfg e s).filterMap visited?).Perm s.w4rQ.keys
  removes : ∀ (k : Nat) i, s.w4rQ[k]? = some i → i.expired s.time 30 = true → s'.w4rQ[k]? = none
  keeps : ∀ (k : Nat) i, s.w4rQ[k]? = some i → i.expired s.time 30 = false → s'.w4rQ[k]? = some i
  handsOver : ((sweepTrace cfg e s).filterMap handedOver?).Perm
    ((s.w4rQ.toList.filter fun i => i.2.expired s.time 30).map fun i => i.2.obj)

/-! ## Single operations -/

/-- An operation that waits for nothing. -/
theorem execTimed_onTime {op : Op} (hop : op.wakes = 0) :
    execTimed onTime cfg t op s = exec cfg t op s := by
  have hnow : max s.now op.wakes + onTime op = s.now := by
    rw [hop]
    exact Nat.max_zero s.now
  unfold execTimed
  rw [hnow]

/-- What a timed operation does, is done to the session at some moment. -/
theorem perform_of_timed {late : Op → Nat} {op : Op} {r : op.Res × Session}
    (h : execTimed late cfg t op s = some r) :
    perform cfg t op { s with now := max s.now op.wakes + late op } = some r :=
  (perform_of_exec h).2

/-- The first operation of a run, and the rest. -/
theorem run_call {α : Type} {late : Op → Nat} {op : Op} {f : op.Res → Code α} {b : α}
    (h : (call op >>= f).run (execTimed late cfg t) s = some (b, s')) :
    ∃ r, execTimed late cfg t op s = some r ∧ (f r.1).run (execTimed late cfg t) r.2 = some (b, s') ∧
      (call op >>= f).trace (execTimed late cfg t) s =
        (op, s) :: (f r.1).trace (execTimed late cfg t) r.2 := by
  obtain ⟨r, hx, hrest⟩ := Option.bind_eq_some_iff.mp h
  exact ⟨r, hx, hrest, Prog.trace_step hx⟩

/-- An operation that does not write `w4rQ`. -/
theorem w4rQ_timed {late : Op → Nat} {op : Op} {r : op.Res × Session}
    (h : execTimed late cfg t op s = some r) (hop : .w4rQ ∉ op.writes) : r.2.w4rQ = s.w4rQ :=
  perform_same (f := .w4rQ) (perform_of_timed h) hop

/-- An entry that is not there does not come back during a sweep. -/
theorem absent_timed {late : Op → Nat} {op : Op} {r : op.Res × Session} {k : Nat}
    (hop : op.ofAgeCleanup = true) (hk : k ∉ s.w4rQ) (h : execTimed late cfg t op s = some r) :
    k ∉ r.2.w4rQ := by
  by_cases hw : Field.w4rQ ∈ op.writes
  · cases op with
    | w4rEraseFound q =>
        rcases perform_w4rEraseFound (perform_of_timed h) with hr | hr
        · rw [← hr]
          intro hmem
          exact hk (Std.TreeMap.mem_of_mem_erase hmem)
        · rw [← hr]
          exact hk
    | w4rInsert r => cases hop
    | w4rAnswer cmd seq => cases hop
    | _ => simp at hw
  · rw [w4rQ_timed h hw]
    exact hk

/-- Erasing the entry found under the number of a PDU: there is none, or it is there no longer. -/
theorem erase_timed {q : Ref} {r : Option Nat × Session}
    (h : execTimed onTime cfg t (.w4rEraseFound q) s = some r) :
    r.1 = none ∨ ∃ k, r.1 = some k ∧ k ∈ s.w4rQ ∧ k ∉ r.2.w4rQ := by
  rw [execTimed_onTime rfl] at h
  have hx := (perform_of_exec h).2
  by_cases hmem : (s.pdu q).sequenceNumber ∈ s.w4rQ
  · have hr := Option.some.inj ((if_pos hmem).symm.trans hx)
    refine .inr ⟨(s.pdu q).sequenceNumber, ?_, hmem, ?_⟩
    · rw [← hr]
    · rw [← hr]
      intro h
      exact (Std.TreeMap.mem_erase.mp h).1 (Nat.compare_eq_eq.mpr rfl)
  · have hr := Option.some.inj ((if_neg hmem).symm.trans hx)
    refine .inl ?_
    rw [← hr]

/-! ## Parts of a sweep -/

/-- `do_write` leaves `w4rQ` as it is, and visits nothing. -/
theorem doWrite_timed (cfg : Params) (t : Tid) (s : Session) (late : Op → Nat) (q : Ref) (l : Level) :
    (((doWrite cfg q l).trace (execTimed late cfg t) s).filterMap visited? = []) ∧
      ∀ u s', (doWrite cfg q l).run (execTimed late cfg t) s = some (u, s') → s'.w4rQ = s.w4rQ := by
  have hkeep : ∀ op s₁ r, op.ofRequest = true → s₁.w4rQ = s.w4rQ →
      execTimed late cfg t op s₁ = some r → r.2.w4rQ = s.w4rQ := by
    intro op s₁ r hop hs₁ hx
    have hw : Field.w4rQ ∉ op.writes := by cases op <;> first | cases hop; done | simp
    exact (w4rQ_timed hx hw).trans hs₁
  have huses : OfRequest (doWrite cfg q l) := ofRequest_doWrite
  obtain ⟨htrace, hrun⟩ := huses.keeps (execTimed late cfg t) hkeep rfl
  refine ⟨List.filterMap_eq_nil_iff.mpr ?_, hrun⟩
  rintro ⟨op, s₁⟩ hx
  have hop := (htrace _ hx).1
  cases op <;> first | rfl | cases hop

variable (cfg) in
/-- What the loop does with the entry it has come to. -/
def ageEntry (k : Nat) (i : TimeStampedPdu) : Code Unit := do
  let now ← call .clock
  Prog.when (i.expired (now / 1000000) 30) do
    doWrite cfg i.obj .MESSAGE
    match ← call (.w4rEraseFound i.obj) with
    | none => call (.fail .eraseEnd)
    | some k' => Prog.when (k' == k) (call (.note .staleIterator))

/-- One turn of the loop, and those after it. -/
theorem ageSweep_cons (k : Nat) (ks : List Nat) :
    ageSweep cfg (k :: ks) = call (.w4rAt k) >>= fun o => (match o with
      | none => return
      | some i => ageEntry cfg k i) >>= fun _ => ageSweep cfg ks := by
  refine congrArg (Prog.step (Op.w4rAt k)) (funext fun o => ?_)
  cases o with
  | none => rfl
  | some i => rfl

variable (cfg t) in
/-- An entry that is not old is left alone. -/
theorem ageEntry_fresh (k : Nat) {i : TimeStampedPdu} (hf : s.fault = none)
    (hi : i.expired s.time 30 = false) :
    (ageEntry cfg k i).run (execTimed onTime cfg t) s = some ((), s) ∧
      (ageEntry cfg k i).trace (execTimed onTime cfg t) s = [(.clock, s)] := by
  have hclock : execTimed onTime cfg t .clock s = some (s.now, s) := by
    rw [execTimed_onTime rfl]
    exact if_pos hf
  have hi : i.expired (s.now / 1000000) 30 = false := hi
  constructor
  · show (execTimed onTime cfg t .clock s).bind _ = _
    rw [hclock]
    show (Prog.when (i.expired (s.now / 1000000) 30) _).run _ s = _
    rw [hi]
    rfl
  · refine (Prog.trace_step hclock).trans (congrArg _ ?_)
    show (Prog.when (i.expired (s.now / 1000000) 30) _).trace _ s = _
    rw [hi]
    rfl

/-- **An entry that is old makes another one go**, if no invalid iterator is used. -/
theorem ageEntry_old {k : Nat} {i : TimeStampedPdu} (hi : i.expired s.time 30 = true)
    (hrun : (ageEntry cfg k i).run (execTimed onTime cfg t) s = some ((), s'))
    (hiter : ∀ x ∈ (ageEntry cfg k i).trace (execTimed onTime cfg t) s, x.1.invalidIterator = false) :
    ((ageEntry cfg k i).trace (execTimed onTime cfg t) s).filterMap visited? = [] ∧
      ∃ k' ≠ k, k' ∈ s.w4rQ ∧ k' ∉ s'.w4rQ := by
  obtain ⟨⟨now, s₁⟩, hclock, hrun, htrace⟩ := run_call hrun
  rw [execTimed_onTime rfl] at hclock
  obtain ⟨rfl, rfl⟩ := Prod.mk.inj (Option.some.inj (perform_of_exec hclock).2)
  have hi : i.expired (s.now / 1000000) 30 = true := hi
  simp only [hi, Prog.when_true] at hrun htrace
  -- the PDU is handed to `do_write`
  obtain ⟨u, s₂, hwrite, hrun⟩ := Prog.run_bind_eq_some hrun
  rw [Prog.trace_bind hwrite] at htrace
  obtain ⟨hvisits, hkept⟩ := doWrite_timed cfg t s onTime i.obj .MESSAGE
  have hw : s₂.w4rQ = s.w4rQ := hkept u s₂ hwrite
  -- and an entry is erased, under the number the PDU has now
  obtain ⟨⟨o, s₃⟩, herase, hrun, htrace'⟩ := run_call hrun
  rw [htrace'] at htrace
  change (ageEntry cfg k i).trace (execTimed onTime cfg t) s = _ at htrace
  rw [htrace] at hiter ⊢
  have hlast : ∀ x, x ∈ Prog.trace (execTimed onTime cfg t) _ s₃ → x.1.invalidIterator = false :=
    fun x hx => hiter x
      (List.mem_cons_of_mem _ (List.mem_append_right _ (List.mem_cons_of_mem _ hx)))
  rcases erase_timed herase with rfl | ⟨k', rfl, hthere, hgone⟩
  · -- there is none
    cases hlast (.fail .eraseEnd, s₃) Prog.mem_trace_step
  · by_cases hk : k' = k
    · -- its own one, so that the iterator is not valid any more
      have hstale : (.note .staleIterator, s₃) ∈ Prog.trace (execTimed onTime cfg t)
          (Prog.when (k' == k) (call (.note .staleIterator))) s₃ := by
        rw [beq_iff_eq.mpr hk]
        exact Prog.mem_trace_step
      cases hlast _ hstale
    · have hrun : (Prog.when (k' == k) (call (.note .staleIterator)) : Code Unit).run
          (execTimed onTime cfg t) s₃ = some ((), s') := hrun
      rw [beq_false_of_ne hk] at hrun
      cases hrun
      refine ⟨?_, k', hk, hw ▸ hthere, hgone⟩
      rw [List.filterMap_cons_none rfl, List.filterMap_append, hvisits,
        List.filterMap_cons_none rfl]
      show (Prog.trace (execTimed onTime cfg t)
        (Prog.when (k' == k) (call (.note .staleIterator))) s').filterMap visited? = []
      rw [beq_false_of_ne hk]
      rfl

/-- An entry that is not there is not visited any more. -/
theorem ageSweep_absent {late : Op → Nat} {k : Nat} (ks : List Nat) (hk : k ∉ s.w4rQ) :
    k ∉ ((ageSweep cfg ks).trace (execTimed late cfg t) s).filterMap visited? ∧
      ∀ u s', (ageSweep cfg ks).run (execTimed late cfg t) s = some (u, s') → k ∉ s'.w4rQ := by
  have hkeep : ∀ op s₁ r, op.ofAgeCleanup = true → k ∉ s₁.w4rQ →
      execTimed late cfg t op s₁ = some r → k ∉ r.2.w4rQ := fun op s₁ r => absent_timed
  have huses : (ageSweep cfg ks).Uses fun op => op.ofAgeCleanup = true := ofAgeCleanup_ageSweep ks
  obtain ⟨htrace, hrun⟩ := huses.keeps (execTimed late cfg t) hkeep hk
  refine ⟨fun hmem => ?_, hrun⟩
  obtain ⟨⟨op, s₁⟩, hx, hvisit⟩ := List.mem_filterMap.mp hmem
  have habsent := (htrace _ hx).2
  cases op with
  | w4rAt k' =>
      have hvisit : (if k' ∈ s₁.w4rQ then some k' else none) = some k := hvisit
      obtain ⟨hthere, heq⟩ := Option.ite_none_right_eq_some.mp hvisit
      rw [Option.some.inj heq] at hthere
      exact habsent hthere
  | _ => cases hvisit

variable (cfg t) in
/-- **A part of a sweep in which no entry is old** does nothing but visit the entries. -/
theorem ageSweep_fresh (ks : List Nat) (hf : s.fault = none)
    (hfresh : ∀ k ∈ ks, ∃ i, s.w4rQ[k]? = some i ∧ i.expired s.time 30 = false) :
    (ageSweep cfg ks).run (execTimed onTime cfg t) s = some ((), s) ∧
      ((ageSweep cfg ks).trace (execTimed onTime cfg t) s).filterMap visited? = ks ∧
      ((ageSweep cfg ks).trace (execTimed onTime cfg t) s).filterMap handedOver? = [] ∧
      ∀ x ∈ (ageSweep cfg ks).trace (execTimed onTime cfg t) s, x.1.invalidIterator = false := by
  induction ks with
  | nil => exact ⟨rfl, rfl, rfl, fun x hx => absurd hx List.not_mem_nil⟩
  | cons k ks ih =>
      obtain ⟨i, hi, hage⟩ := hfresh k List.mem_cons_self
      obtain ⟨hrun, hvisits, hhands, hiter⟩ := ih fun k' hk' => hfresh k' (List.mem_cons_of_mem k hk')
      obtain ⟨hentry, htrace⟩ := ageEntry_fresh cfg t k hf hage
      -- the iterator comes to an entry that is there
      have hat : execTimed onTime cfg t (.w4rAt k) s = some (some i, s) := by
        rw [execTimed_onTime rfl]
        exact (if_pos hf).trans (congrArg (fun o => some (o, s)) hi)
      have hvisit : visited? (.w4rAt k, s) = some k :=
        if_pos (Std.TreeMap.mem_iff_isSome_getElem?.mpr (hi ▸ rfl))
      -- so a turn logs two operations and leaves the session as it is
      have hsweep : (ageSweep cfg (k :: ks)).trace (execTimed onTime cfg t) s =
          (.w4rAt k, s) :: (.clock, s) :: (ageSweep cfg ks).trace (execTimed onTime cfg t) s := by
        rw [ageSweep_cons]
        refine (Prog.trace_step hat).trans (congrArg _ ?_)
        refine (Prog.trace_bind hentry).trans ?_
        rw [htrace]
        rfl
      refine ⟨?_, ?_, ?_, ?_⟩
      · rw [ageSweep_cons]
        show (execTimed onTime cfg t (.w4rAt k) s).bind _ = _
        rw [hat]
        refine (Prog.run_bind (ageEntry cfg k i) _ s).trans ?_
        rw [hentry]
        exact hrun
      · rw [hsweep, List.filterMap_cons_some hvisit, List.filterMap_cons_none rfl, hvisits]
      · rw [hsweep, List.filterMap_cons_none rfl, List.filterMap_cons_none rfl, hhands]
      · intro x hx
        rw [hsweep] at hx
        rcases List.mem_cons.mp hx with rfl | hx
        · rfl
        · rcases List.mem_cons.mp hx with rfl | hx
          · rfl
          · exact hiter x hx

/-- **A part of a sweep in which an entry is old goes wrong**, even if it ends and uses no invalid
iterator: it removes an entry that is not old, or one that it never visits. -/
theorem ageSweep_old (ks : List Nat)
    (hrun : (ageSweep cfg ks).run (execTimed onTime cfg t) s = some ((), s'))
    (hiter : ∀ x ∈ (ageSweep cfg ks).trace (execTimed onTime cfg t) s, x.1.invalidIterator = false)
    (hold : ∃ k ∈ ks, ∃ i, s.w4rQ[k]? = some i ∧ i.expired s.time 30 = true) :
    ∃ (k : Nat) (i : TimeStampedPdu), s.w4rQ[k]? = some i ∧ k ∉ s'.w4rQ ∧
      (i.expired s.time 30 = false ∨
        k ∉ ((ageSweep cfg ks).trace (execTimed onTime cfg t) s).filterMap visited?) := by
  induction ks with
  | nil =>
      obtain ⟨k, hk, -⟩ := hold
      exact absurd hk List.not_mem_nil
  | cons k ks ih =>
      -- the turn for `k`, and the turns after it
      rw [ageSweep_cons] at hrun hiter ⊢
      obtain ⟨⟨o, s₁⟩, hat, hrun, htrace⟩ := run_call hrun
      rw [execTimed_onTime rfl] at hat
      obtain ⟨hf, hat⟩ := perform_of_exec hat
      obtain ⟨ho, rfl⟩ := Prod.mk.inj (Option.some.inj hat)
      rw [htrace] at hiter ⊢
      obtain ⟨⟨⟩, s₁, hentry, hrest⟩ := Prog.run_bind_eq_some hrun
      rw [Prog.trace_bind hentry] at hiter ⊢
      have hiterEntry := fun x hx => hiter x (List.mem_cons_of_mem _ (List.mem_append_left _ hx))
      have hiterRest := fun x hx => hiter x (List.mem_cons_of_mem _ (List.mem_append_right _ hx))
      obtain ⟨k', hk', i', hi', hage'⟩ := hold
      cases o with
      | none =>
          -- the entry has been removed before
          cases hentry
          have hne : k' ≠ k := by
            rintro rfl
            rw [hi'] at ho
            cases ho
          have hin : k' ∈ ks := (List.mem_cons.mp hk').resolve_left hne
          obtain ⟨j, i, hi, hgone, hwrong⟩ := ih hrest hiterRest ⟨k', hin, i', hi', hage'⟩
          refine ⟨j, i, hi, hgone, hwrong.imp_right fun hnot => ?_⟩
          have hvisit : visited? (.w4rAt k, s) = none := by
            refine if_neg fun hmem => ?_
            rw [Std.TreeMap.mem_iff_isSome_getElem?, ho] at hmem
            cases hmem
          rw [List.filterMap_cons_none hvisit]
          exact hnot
      | some i =>
          have hvisit : visited? (.w4rAt k, s) = some k :=
            if_pos (Std.TreeMap.mem_iff_isSome_getElem?.mpr (ho ▸ rfl))
          rw [List.filterMap_cons_some hvisit, List.filterMap_append]
          cases hage : i.expired s.time 30 with
          | false =>
              -- the turn does nothing, and the old entry comes later
              obtain ⟨hfresh, htrace⟩ := ageEntry_fresh cfg t k hf hage
              obtain ⟨-, rfl⟩ := Prod.mk.inj (Option.some.inj (hfresh.symm.trans hentry))
              have hne : k' ≠ k := by
                rintro rfl
                rw [Option.some.inj (hi'.symm.trans ho), hage] at hage'
                cases hage'
              have hin : k' ∈ ks := (List.mem_cons.mp hk').resolve_left hne
              obtain ⟨j, i₁, hi₁, hgone, hwrong⟩ := ih hrest hiterRest ⟨k', hin, i', hi', hage'⟩
              refine ⟨j, i₁, hi₁, hgone, ?_⟩
              rw [htrace]
              by_cases hj : j = k
              · subst hj
                exact .inl (Option.some.inj (hi₁.symm.trans ho) ▸ hage)
              · refine hwrong.imp_right fun hnot hmem => ?_
                exact (List.mem_cons.mp hmem).elim hj hnot
          | true =>
              -- another entry goes, and is not visited from now on
              obtain ⟨hvisits, j, hj, hthere, hgone⟩ := ageEntry_old hage hentry hiterEntry
              obtain ⟨hnot, hgone'⟩ := ageSweep_absent ks hgone
              obtain ⟨i₁, hi₁⟩ := Option.isSome_iff_exists.mp
                (Std.TreeMap.mem_iff_isSome_getElem?.mp hthere)
              refine ⟨j, i₁, hi₁, hgone' _ _ hrest, .inr fun hmem => ?_⟩
              rw [hvisits] at hmem
              exact (List.mem_cons.mp hmem).elim hj hnot

/-! ## A whole sweep -/

/-- What `w4rQ_age_cleanup` does after its loop. -/
def ageClosing : Code Unit := do
  setW4rQAgeingTimer
  call (.unlock .w4rQMutex)

/-- The session once the sweep has its mutex. -/
def Session.sweeping (s : Session) : Session :=
  { s with owner := Function.update s.owner .w4rQMutex (some .io) }

variable (cfg) in
/-- The closing leaves `w4rQ` as it is. -/
theorem ageClosing_timed (hf : s.fault = none) :
    ∃ s₁ s₂, ageClosing.run (execTimed onTime cfg .io) s = some ((), s₂) ∧ s₂.w4rQ = s.w4rQ ∧
      ageClosing.trace (execTimed onTime cfg .io) s =
        [(.arm .w4rQAgeing, s), (.unlock .w4rQMutex, s₁)] := by
  let s₁ : Session := { s.cancelTimer .w4rQAgeing with
    armed := Function.update s.armed .w4rQAgeing true }
  let s₂ : Session := { s₁ with owner := Function.update s₁.owner .w4rQMutex none }
  have hx : perform cfg .io (.arm .w4rQAgeing) s = some ((), s₁) := rfl
  have hf₁ : s₁.fault = none := (perform_same (f := .fault) hx (by simp)).trans hf
  have hw₁ : s₁.w4rQ = s.w4rQ := perform_same (f := .w4rQ) hx (by simp)
  have harm : execTimed onTime cfg .io (.arm .w4rQAgeing) s = some ((), s₁) := by
    rw [execTimed_onTime rfl]
    exact if_pos hf
  have hunlock : execTimed onTime cfg .io (.unlock .w4rQMutex) s₁ = some ((), s₂) := by
    rw [execTimed_onTime rfl]
    exact if_pos hf₁
  refine ⟨s₁, s₂, ?_, hw₁, ?_⟩
  · show (execTimed onTime cfg .io (.arm .w4rQAgeing) s).bind _ = _
    rw [harm]
    show (execTimed onTime cfg .io (.unlock .w4rQMutex) s₁).bind _ = _
    rw [hunlock]
    rfl
  · exact (Prog.trace_step harm).trans (congrArg _ (Prog.trace_step hunlock))

variable (cfg) in
/-- **`w4rQ_age_cleanup` on a map that is not empty** is the loop over its keys. -/
theorem ageCleanup_eq (hf : s.fault = none) (hfree : s.owner .w4rQMutex = none)
    (he : e ≠ .operationAborted) (hsize : 0 < s.w4rQ.size) :
    (w4rQAgeCleanup cfg e).run (execTimed onTime cfg .io) s =
        (ageSweep cfg s.w4rQ.keys >>= fun _ => ageClosing).run (execTimed onTime cfg .io) s.sweeping ∧
      sweepTrace cfg e s = (.w4rSize, s) :: (.lock .w4rQMutex, s) :: (.w4rKeys, s.sweeping) ::
        (ageSweep cfg s.w4rQ.keys >>= fun _ => ageClosing).trace (execTimed onTime cfg .io) s.sweeping := by
  -- what is done before the loop
  have hfirst : execTimed onTime cfg .io .w4rSize s = some (s.w4rQ.size, s) := by
    rw [execTimed_onTime rfl]
    exact if_pos hf
  have hlock : execTimed onTime cfg .io (.lock .w4rQMutex) s = some ((), s.sweeping) := by
    rw [execTimed_onTime rfl]
    exact (if_pos hf).trans (if_pos hfree)
  have hkeys : execTimed onTime cfg .io .w4rKeys s.sweeping = some (s.w4rQ.keys, s.sweeping) := by
    rw [execTimed_onTime rfl]
    exact if_pos hf
  have hcode : w4rQAgeCleanup cfg e = call .w4rSize >>= fun size => Prog.when (0 < size) (do
      call (.lock .w4rQMutex)
      let keys ← call .w4rKeys
      ageSweep cfg keys
      ageClosing) := by
    unfold w4rQAgeCleanup
    rw [bne_iff_ne.mpr he]
    rfl
  unfold sweepTrace
  rw [hcode]
  constructor
  · -- `run` and `trace` go through the same three operations
    show (execTimed onTime cfg .io .w4rSize s).bind _ = _
    rw [hfirst]
    show (Prog.when (decide (0 < s.w4rQ.size)) _).run _ s = _
    rw [decide_eq_true hsize]
    show (execTimed onTime cfg .io (.lock .w4rQMutex) s).bind _ = _
    rw [hlock]
    show (execTimed onTime cfg .io .w4rKeys s.sweeping).bind _ = _
    rw [hkeys]
    rfl
  · refine (Prog.trace_step hfirst).trans (congrArg _ ?_)
    show (Prog.when (decide (0 < s.w4rQ.size)) _).trace _ s = _
    rw [decide_eq_true hsize]
    exact (Prog.trace_step hlock).trans (congrArg _ (Prog.trace_step hkeys))

/-- Nothing is old in a map without an entry. -/
theorem size_pos_of_entry {k : Nat} {i : TimeStampedPdu} (hi : s.w4rQ[k]? = some i) :
    0 < s.w4rQ.size := by
  have hk : k ∈ s.w4rQ.keys :=
    Std.TreeMap.mem_keys.mpr (Std.TreeMap.mem_iff_isSome_getElem?.mpr (hi ▸ rfl))
  rw [← Std.TreeMap.length_keys]
  exact List.length_pos_of_mem hk

/-- **The operations of a sweep** are those of its loop, and five that visit nothing and hand nothing
over. -/
theorem sweepTrace_eq (hf : s.fault = none) (hfree : s.owner .w4rQMutex = none)
    (he : e ≠ .operationAborted) (hsize : 0 < s.w4rQ.size)
    (hsweep : (ageSweep cfg s.w4rQ.keys).run (execTimed onTime cfg .io) s.sweeping = some ((), s'))
    (hf' : s'.fault = none) :
    ∃ s₁ s₂, (w4rQAgeCleanup cfg e).run (execTimed onTime cfg .io) s = some ((), s₂) ∧
      s₂.w4rQ = s'.w4rQ ∧
      sweepTrace cfg e s = (.w4rSize, s) :: (.lock .w4rQMutex, s) :: (.w4rKeys, s.sweeping) ::
        ((ageSweep cfg s.w4rQ.keys).trace (execTimed onTime cfg .io) s.sweeping ++
          [(.arm .w4rQAgeing, s'), (.unlock .w4rQMutex, s₁)]) := by
  obtain ⟨hrun, htrace⟩ := ageCleanup_eq cfg hf hfree he hsize
  obtain ⟨s₁, s₂, hclosing, hw, hlast⟩ := ageClosing_timed cfg hf'
  refine ⟨s₁, s₂, ?_, hw, ?_⟩
  · rw [hrun, Prog.run_bind, hsweep]
    exact hclosing
  · rw [htrace, Prog.trace_bind hsweep, hlast]

/-- **A correct sweep has nothing to remove.** -/
theorem Swept.fresh (hf : s.fault = none) (hfree : ∀ m, s.owner m = none)
    (he : e ≠ .operationAborted) (h : Swept cfg e s s') {k : Nat} {i : TimeStampedPdu}
    (hi : s.w4rQ[k]? = some i) : i.expired s.time 30 = false := by
  by_contra hage
  rw [Bool.not_eq_false] at hage
  obtain ⟨hends, hiter, hvisits, -, hkeeps, -⟩ := h
  have hsize := size_pos_of_entry hi
  -- the loop has run through
  obtain ⟨hrun, -⟩ := ageCleanup_eq cfg hf (hfree .w4rQMutex) he hsize
  rw [hrun] at hends
  obtain ⟨⟨⟩, s₁, hsweep, hclosing⟩ := Prog.run_bind_eq_some hends
  obtain ⟨r, harm, -, -⟩ := run_call hclosing
  have hf₁ : s₁.fault = none := (perform_of_exec harm).1
  obtain ⟨s₂, s₃, hends', hw, htrace⟩ := sweepTrace_eq hf (hfree .w4rQMutex) he hsize hsweep hf₁
  obtain ⟨-, rfl⟩ := Prod.mk.inj (Option.some.inj ((hrun.symm.trans hends').symm.trans hends))
  -- the loop's operations are among those of the whole sweep
  have hloop : ∀ x ∈ (ageSweep cfg s.w4rQ.keys).trace (execTimed onTime cfg .io) s.sweeping,
      x ∈ sweepTrace cfg e s := by
    intro x hx
    rw [htrace]
    exact List.mem_cons_of_mem _ (List.mem_cons_of_mem _ (List.mem_cons_of_mem _
      (List.mem_append_left _ hx)))
  have hkeys : ∀ (k : Nat) i, s.w4rQ[k]? = some i → k ∈ s.w4rQ.keys := fun k i hi =>
    Std.TreeMap.mem_keys.mpr (Std.TreeMap.mem_iff_isSome_getElem?.mpr (hi ▸ rfl))
  obtain ⟨j, i₁, hi₁, hgone, hwrong⟩ := ageSweep_old s.w4rQ.keys hsweep
    (fun x hx => hiter x (hloop x hx)) ⟨k, hkeys k i hi, i, hi, hage⟩
  rcases hwrong with hfresh | hnot
  · -- an entry that is not old has gone
    have hkept := hkeeps j i₁ hi₁ hfresh
    rw [← hw, Std.TreeMap.mem_iff_isSome_getElem?, hkept] at hgone
    exact hgone rfl
  · -- an entry has not been visited
    have hvisited := hvisits.mem_iff.mpr (hkeys j i₁ hi₁)
    rw [htrace, List.filterMap_cons_none rfl, List.filterMap_cons_none rfl,
      List.filterMap_cons_none rfl, List.filterMap_append, List.mem_append] at hvisited
    exact hvisited.elim hnot List.not_mem_nil

/-- **A sweep over entries that are not old is correct.** -/
theorem swept_of_fresh (hf : s.fault = none) (hfree : ∀ m, s.owner m = none)
    (he : e ≠ .operationAborted) (hsize : 0 < s.w4rQ.size)
    (hfresh : ∀ (k : Nat) i, s.w4rQ[k]? = some i → i.expired s.time 30 = false) :
    ∃ s', Swept cfg e s s' := by
  have hkeys : ∀ k ∈ s.w4rQ.keys, ∃ i, s.sweeping.w4rQ[k]? = some i ∧
      i.expired s.sweeping.time 30 = false := by
    intro k hk
    obtain ⟨i, hi⟩ := Option.isSome_iff_exists.mp
      (Std.TreeMap.mem_iff_isSome_getElem?.mp (Std.TreeMap.mem_keys.mp hk))
    exact ⟨i, hi, hfresh k i hi⟩
  have hnone : s.w4rQ.toList.filter (fun i => i.2.expired s.time 30) = [] := by
    refine List.filter_eq_nil_iff.mpr ?_
    rintro ⟨k, i⟩ hmem
    rw [hfresh k i (Std.TreeMap.mem_toList_iff_getElem?_eq_some.mp hmem)]
    exact Bool.false_ne_true
  -- each turn of the loop only visits its entry
  have hf' : s.sweeping.fault = none := hf
  obtain ⟨hsweep, hvisits, hhands, hiter⟩ := ageSweep_fresh cfg .io s.w4rQ.keys hf' hkeys
  obtain ⟨s₁, s₂, hends, hw, htrace⟩ := sweepTrace_eq hf (hfree .w4rQMutex) he hsize hsweep hf
  have hw : s₂.w4rQ = s.w4rQ := hw
  refine ⟨s₂, hends, ?_, ?_, ?_, fun k i hi _ => hw ▸ hi, ?_⟩
  · -- no iterator is used before the loop, and none after it
    intro x hx
    rw [htrace] at hx
    rcases List.mem_append.mp (show x ∈ [_, _, _] ++ (_ ++ _) from hx) with hx | hx
    · simp only [List.mem_cons, List.not_mem_nil, or_false] at hx
      rcases hx with rfl | rfl | rfl <;> rfl
    · rcases List.mem_append.mp hx with hx | hx
      · exact hiter x hx
      · simp only [List.mem_cons, List.not_mem_nil, or_false] at hx
        rcases hx with rfl | rfl <;> rfl
  · rw [htrace, List.filterMap_cons_none rfl, List.filterMap_cons_none rfl,
      List.filterMap_cons_none rfl, List.filterMap_append, hvisits]
    exact List.Perm.of_eq (List.append_nil _)
  · intro k i hi hage
    rw [hfresh k i hi] at hage
    cases hage
  · rw [htrace, List.filterMap_cons_none rfl, List.filterMap_cons_none rfl,
      List.filterMap_cons_none rfl, List.filterMap_append, hhands, hnone]
    exact .nil

/-- A sweep over an empty map ends at once. -/
theorem swept_of_empty (hf : s.fault = none) (he : e ≠ .operationAborted) (hsize : ¬0 < s.w4rQ.size) :
    Swept cfg e s s := by
  -- the sweep asks for the size first, and with nothing in `w4rQ` that is all it does
  have hfirst : execTimed onTime cfg .io .w4rSize s = some (s.w4rQ.size, s) := by
    rw [execTimed_onTime rfl]
    exact if_pos hf
  have hempty : ∀ (k : Nat) i, s.w4rQ[k]? ≠ some i := fun k i hi => hsize (size_pos_of_entry hi)
  have hzero : s.w4rQ.size = 0 := by omega
  have hkeys : s.w4rQ.keys = [] := List.length_eq_zero_iff.mp (Std.TreeMap.length_keys.trans hzero)
  have hlist : s.w4rQ.toList = [] := List.length_eq_zero_iff.mp (Std.TreeMap.length_toList.trans hzero)
  have htrace : sweepTrace cfg e s = [(.w4rSize, s)] := by
    unfold sweepTrace w4rQAgeCleanup
    rw [bne_iff_ne.mpr he]
    refine (Prog.trace_step hfirst).trans (congrArg _ ?_)
    show (Prog.when (decide (0 < s.w4rQ.size)) _).trace _ s = _
    rw [decide_eq_false hsize]
    rfl
  refine ⟨?_, ?_, ?_, fun k i hi => absurd hi (hempty k i), fun k i hi => absurd hi (hempty k i), ?_⟩
  · unfold w4rQAgeCleanup
    rw [bne_iff_ne.mpr he]
    show (execTimed onTime cfg .io .w4rSize s).bind _ = _
    rw [hfirst]
    show (Prog.when (decide (0 < s.w4rQ.size)) _).run _ s = _
    rw [decide_eq_false hsize]
    rfl
  · intro x hx
    rw [htrace] at hx
    rw [List.mem_singleton.mp hx]
    rfl
  · rw [htrace, hkeys]
    exact .nil
  · rw [htrace, hlist]
    exact .nil

/-- **A sweep is correct if and only if there is nothing to remove.** -/
theorem swept_iff (hf : s.fault = none) (hfree : ∀ m, s.owner m = none) (he : e ≠ .operationAborted) :
    (∃ s', Swept cfg e s s') ↔
      ∀ (k : Nat) i, s.w4rQ[k]? = some i → i.expired s.time 30 = false := by
  constructor
  · rintro ⟨s', h⟩ k i hi
    exact h.fresh hf hfree he hi
  · intro hfresh
    by_cases hsize : 0 < s.w4rQ.size
    · exact swept_of_fresh hf hfree he hsize hfresh
    · exact ⟨s, swept_of_empty hf he hsize⟩

/-- A `submit_sm` that was recorded at second `0`, and the clock at this second. -/
def recordedAtZero (seconds : Nat) : Session :=
  { Session.opened .none (seconds * 1000000) with
    heap := [⟨.SubmitSm, ESME_ROK, 7, .octets [], none⟩]
    w4rQ := Std.TreeMap.empty.insert 7 ⟨0, 0⟩ }

/-- A sweep after twenty-nine seconds. -/
theorem swept_iff_twentyNine : (∃ s', Swept sampleParams .success (recordedAtZero 29) s') ↔
    ∀ (k : Nat) i, (recordedAtZero 29).w4rQ[k]? = some i →
      i.expired (recordedAtZero 29).time 30 = false :=
  swept_iff rfl (fun _ => rfl) (by decide)

/-- A sweep after thirty seconds: the entry is erased, and then its iterator is advanced. -/
theorem sweep_of_old_entry : ¬∀ (cfg : Params) (e : ErrorCode) (s : Session), s.fault = none →
    (∀ m, s.owner m = none) → e ≠ .operationAborted → ∃ s', Swept cfg e s s' := by
  intro hevery
  have hfree : ∀ m, (recordedAtZero 30).owner m = none := fun _ => rfl
  have he : ErrorCode.success ≠ .operationAborted := by decide
  obtain ⟨s', h⟩ := hevery sampleParams .success (recordedAtZero 30) rfl hfree he
  have hi : (recordedAtZero 30).w4rQ[7]? = some ⟨0, 0⟩ := by decide
  exact absurd (h.fresh rfl hfree he hi) (by decide)

end KissSmpp
