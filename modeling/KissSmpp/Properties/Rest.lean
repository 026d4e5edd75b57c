import KissSmpp.Interleave.Rest
import KissSmpp.Properties.NoDeadlock

/-! # No thread gets stuck

That no set of threads is deadlocked on the mutexes does not say yet that anything is ever finished: the
threads also wait for the clock and for the application, inside critical sections too. `comes_to_rest` says it:
whatever the process has got into, all its threads can finish what they are at, with nothing else happening
than that time passes and the application answers, unless the process runs into undefined behaviour. -/

namespace KissSmpp

open Interleave Queue

variable {cfg : Params} {t : Tid} {s : Session} {p : Persisted} {now : Nat} {c c' : Machine}

/-- There are four threads. -/
instance : Finite Tid :=
  Set.finite_univ_iff.mp (Tid.all.finite_toSet.subset fun t _ => Tid.mem_all t)

/-! ## What an operation waits for -/

/-- The operation need not wait. -/
def Op.Ready (s : Session) : Op → Prop
  | .lock m => s.owner m = none
  | .sleepUntil t' => t' ≤ s.now
  | .takeReply => s.appReply ≠ none
  | _ => True

/-- An operation that need not wait is performed. -/
theorem perform_ready {op : Op} (h : op.Ready s) : ∃ r, perform cfg t op s = some r := by
  cases op with
  | lock m => exact ⟨_, if_pos h⟩
  | sleepUntil t' => exact ⟨_, if_pos h⟩
  | takeReply =>
      obtain ⟨a, ha⟩ := Option.ne_none_iff_exists'.mp h
      exact ⟨_, Option.map_eq_some_iff.mpr ⟨a, ha, rfl⟩⟩
  | w4rEraseFound r =>
      by_cases hr : (s.pdu r).sequenceNumber ∈ s.w4rQ
      · exact ⟨_, if_pos hr⟩
      · exact ⟨_, if_neg hr⟩
  | _ => exact ⟨_, rfl⟩

/-! ## Settling -/

/-- The process settles: the threads perform their operations, time passes, and the application answers. -/
def settling (_ : Machine) : Step → Prop
  | .run _ | .env (.elapse _) | .env (.reply _) => True
  | _ => False

/-- A settling run is a run. -/
theorem settling_free (h : Reach (system cfg) settling c c') :
    Reach (system cfg) (Guard.free : Guard Op Tid Session Job).Allows c c' :=
  h.mono fun c m _ => Guard.free_allows c m

/-- **A thread that waits for no mutex goes on**, once the clock shows the time or the application has
answered. -/
theorem goes_on (hf : c.shared.fault = none) {op : Op} {k : op.Res → Code Unit}
    (hcode : c.code t = .step op k) (hfree : ∀ m, op = .lock m → c.shared.owner m = none) :
    ∃ c', Reach (system cfg) settling c c' ∧ c'.WentOn c := by
  -- what the thread waits for can be brought about
  have hready : ∃ s, Reach (system cfg) settling c ⟨s, c.code⟩ ∧ op.Ready s ∧ s.fault = none := by
    cases op with
    | lock m => exact ⟨c.shared, .refl, hfree m rfl, hf⟩
    | sleepUntil t' =>
        exact ⟨_, Reach.refl.next (.env (.elapse t')) trivial rfl, Nat.le_add_left _ _, hf⟩
    | takeReply =>
        exact ⟨_, Reach.refl.next (.env (.reply .success)) trivial rfl, Option.some_ne_none _, hf⟩
    | _ => exact ⟨c.shared, .refl, trivial, hf⟩
  obtain ⟨s, hreach, hs, hfs⟩ := hready
  obtain ⟨r, hr⟩ : ∃ r, perform cfg t op s = some r := perform_ready hs
  have hmove : (⟨s, c.code⟩ : Machine).move (system cfg) (.run t) =
      some ⟨r.2, Function.update c.code t (k r.1)⟩ := by
    have hexec : (system cfg).exec t op s = some r := (if_pos hfs).trans hr
    simp only [Config.move, hcode, hexec, Option.map_some]
  have hwent : Config.WentOn _ (⟨s, c.code⟩ : Machine) := Config.wentOn_of_run hmove
  exact ⟨_, hreach.next (.run t) trivial hmove, hwent⟩

/-- The owner of a requested mutex requests only mutexes above it. -/
theorem above_of_requests {x : Tid → Holding} (hO : Owned c.shared x)
    (hfol : ∀ t, (c.code t).Follows locking (fun _ => FreeHanded t) (x t)) {u : Tid} {m m' : Mutex}
    (ht : c.Requests t m) (hown : c.shared.owner m = some u) (hu : c.Requests u m') : m'.rank < m.rank := by
  have hrequest : ∀ t m, c.Requests t m →
      m ∉ (x t).held ∧ .mMtx ∉ (x t).held ∧ (m = .w4rQMutex → t = .io) := by
    intro t m hm
    obtain ⟨k, hk⟩ := Machine.code_of_next? hm
    have hallow := hfol t
    rw [hk] at hallow
    exact ⟨hallow.1.1, hallow.1.2.1, fun hq => (hO.thread t).symm.trans (hallow.1.2.2 hq)⟩
  have hheld : m ∈ (x u).held := (hO.owner u m).mpr hown
  obtain ⟨hnew, hgen, -⟩ := hrequest u m' hu
  cases m with
  | mMtx => exact absurd hheld hgen
  | w4rQMutex =>
      -- it is the io thread that requests it, and the io thread that owns it
      obtain rfl : t = .io := (hrequest t _ ht).2.2 rfl
      obtain rfl : u = .io := hO.io u hown
      exact absurd hheld (hrequest .io _ ht).1
  | writeMutex => cases m' <;> first | decide | exact absurd hheld hnew

/-- **Somebody can always go on.** -/
theorem somebody_goes_on (h : Runs cfg Guard.free p now c) (hf : c.shared.fault = none)
    (hbusy : ¬c.AtRest) : ∃ c', Reach (system cfg) settling c c' ∧ c'.WentOn c := by
  obtain ⟨x, hO, hfol⟩ := h.owned
  by_cases hwait : ∃ t m u, c.Requests t m ∧ c.shared.owner m = some u
  · -- the waiting leads to a thread that owns a mutex, and so has not finished
    obtain ⟨t, m, u, ht, hown⟩ := hwait
    obtain ⟨v, ⟨m', hv⟩, hfree⟩ := exists_unblocked (measure Mutex.rank).wf
      (fun t m u m' ht hown hu => above_of_requests hO hfol ht hown hu) ht hown
    have hcode := hfol v
    cases hc : c.code v with
    | ret a =>
        rw [hc] at hcode
        have hfreehanded : x v = ⟨v, []⟩ := hcode
        have hheld := (hO.owner v m').mpr hv
        rw [hfreehanded] at hheld
        cases hheld
    | step op k =>
        refine goes_on hf hc fun m hm => hfree m ?_
        subst hm
        exact Machine.next?_of_code hc
  · obtain ⟨t, hbusy⟩ := not_forall.mp hbusy
    cases hc : c.code t with
    | ret a => exact absurd ⟨a, hc⟩ hbusy
    | step op k =>
        refine goes_on hf hc fun m hm => ?_
        subst hm
        refine Option.eq_none_iff_forall_not_mem.mpr fun u hu => hwait ⟨t, m, u, ?_, hu⟩
        exact Machine.next?_of_code hc

/-- **The process can always come to rest**: from every state of every run all its threads can finish what they
are at, without taking up anything new, unless the process runs into undefined behaviour; nothing has to happen
but that time passes and the application answers. -/
theorem comes_to_rest (h : Runs cfg Guard.free p now c) :
    ∃ c' : Machine, Reach (system cfg) settling c c' ∧ (c'.shared.fault ≠ none ∨ ∀ t, c'.Idle t) := by
  obtain ⟨c', hreach, hend⟩ := Reach.rest (M := system cfg) (I := Runs cfg Guard.free p now)
    (fun c c' hc hreach => hc.trans (settling_free hreach))
    (fun c hc hf hbusy => somebody_goes_on hc (not_not.mp hf) hbusy) h
  exact ⟨c', hreach, hend.imp_right fun hrest t => (hrest t).choose_spec⟩

/-- While `stop()` waits for `writeMutex`, which the io thread holds in `do_enquire_link`. -/
theorem comes_to_rest_stopWaits :
    ∃ c' : Machine, Reach (system sampleParams) settling (Machine.after sampleParams .none stopWaits) c' ∧
      (c'.shared.fault ≠ none ∨ ∀ t, c'.Idle t) :=
  comes_to_rest (runs_after sampleParams .none stopWaits)

end KissSmpp
