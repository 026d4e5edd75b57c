import KissSmpp.Interleave.Deadlock
import KissSmpp.Session.Locking

/-! # No deadlock

The nestings of the mutexes have no common order: `handle_write` takes `w4rQMutex` under `writeMutex`,
the ageing sweep takes `writeMutex` under `w4rQMutex`. Both run on the io thread, and no other thread
takes `w4rQMutex` at all, so whoever waits for `writeMutex` waits for a thread that waits for nothing
below it. -/

namespace KissSmpp

open Interleave Queue

variable {cfg : Params} {t : Tid} {s : Session} {x : Tid → Holding}

/-- The thread's next step is to acquire the mutex. -/
def Machine.Requests (c : Machine) (t : Tid) (m : Mutex) : Prop := c.next? t = some (.lock m)

/-- Whether a thread requests a mutex can be read off its code. -/
instance (c : Machine) (t : Tid) (m : Mutex) : Decidable (c.Requests t m) :=
  inferInstanceAs (Decidable (_ = _))

/-- **The mutexes are held as the threads have it.** -/
structure Owned (s : Session) (x : Tid → Holding) : Prop where
  thread : ∀ u, (x u).thread = u
  nodup : ∀ u, (x u).held.Nodup
  owner : ∀ u m, m ∈ (x u).held ↔ s.owner m = some u
  io : ∀ u, s.owner .w4rQMutex = some u → u = .io

/-- What touches no mutex keeps it. -/
theorem Owned.same {s' : Session} (hO : Owned s x) (h : s'.owner = s.owner) : Owned s' x := by
  refine ⟨hO.thread, hO.nodup, fun u m => ?_, fun u hu => ?_⟩
  · rw [h]
    exact hO.owner u m
  · rw [h] at hu
    exact hO.io u hu

/-- Acquiring a mutex that nobody holds. -/
theorem owned_lock {m : Mutex} {r : Unit × Session} (hO : Owned s x)
    (ha : locking.allows (x t) (.lock m)) (h : perform cfg t (.lock m) s = some r) :
    Owned r.2 (Function.update x t (locking.next (x t) (.lock m) ())) := by
  obtain ⟨hm, -, hio⟩ := ha
  obtain ⟨hfree, hr⟩ := perform_lock h
  have hown : r.2.owner = Function.update s.owner m (some t) := by
    rw [← hr]
    unfold Session.onWriteMutex
    split <;> rfl
  -- nobody holds the mutex, by what is recorded of its owner
  have hnone : ∀ u, m ∉ (x u).held := by
    intro u hu
    rw [hO.owner, hfree] at hu
    cases hu
  constructor
  · exact (Function.forall_update_iff x fun u y => y.thread = u).mpr ⟨hO.thread t, fun u _ => hO.thread u⟩
  · exact (Function.forall_update_iff x fun _ y => y.held.Nodup).mpr
      ⟨List.nodup_cons.mpr ⟨hm, hO.nodup t⟩, fun u _ => hO.nodup u⟩
  · refine (Function.forall_update_iff x fun u y => ∀ m', m' ∈ y.held ↔ r.2.owner m' = some u).mpr
      ⟨fun m' => ?_, fun u hut m' => ?_⟩
    · show m' ∈ m :: (x t).held ↔ _
      rw [hown, List.mem_cons, hO.owner]
      by_cases hmm : m' = m
      · subst hmm
        rw [Function.update_self]
        exact iff_of_true (.inl rfl) rfl
      · rw [Function.update_of_ne hmm]
        exact or_iff_right hmm
    · rw [hown]
      by_cases hmm : m' = m
      · subst hmm
        rw [Function.update_self]
        exact iff_of_false (hnone u) fun h => hut (Option.some.inj h).symm
      · rw [Function.update_of_ne hmm]
        exact hO.owner u m'
  · intro u hu
    rw [hown] at hu
    by_cases hmq : m = .w4rQMutex
    · subst hmq
      rw [Function.update_self] at hu
      cases hu
      exact (hO.thread t).symm.trans (hio rfl)
    · rw [Function.update_of_ne (Ne.symm hmq)] at hu
      exact hO.io u hu

/-- Releasing the mutex taken last. -/
theorem owned_unlock {m : Mutex} {r : Unit × Session} (hO : Owned s x)
    (ha : locking.allows (x t) (.unlock m)) (h : perform cfg t (.unlock m) s = some r) :
    Owned r.2 (Function.update x t (locking.next (x t) (.unlock m) ())) := by
  obtain ⟨rest, hrest⟩ := List.head?_eq_some_iff.mp ha
  have hown : r.2.owner = Function.update s.owner m none := by
    cases h
    unfold Session.onWriteMutex
    split <;> rfl
  -- what the thread held was this mutex and the rest
  have hmine : ∀ m', m' = m ∨ m' ∈ rest ↔ s.owner m' = some t := by
    intro m'
    rw [← hO.owner, hrest, List.mem_cons]
  have hnodup : m ∉ rest ∧ rest.Nodup := by
    have := hO.nodup t
    rw [hrest] at this
    exact List.nodup_cons.mp this
  have hnext : locking.next (x t) (.unlock m) () = ⟨(x t).thread, rest⟩ := by
    show Holding.mk _ (x t).held.tail = _
    rw [hrest]
    rfl
  rw [hnext]
  constructor
  · exact (Function.forall_update_iff x fun u y => y.thread = u).mpr ⟨hO.thread t, fun u _ => hO.thread u⟩
  · exact (Function.forall_update_iff x fun _ y => y.held.Nodup).mpr ⟨hnodup.2, fun u _ => hO.nodup u⟩
  · refine (Function.forall_update_iff x fun u y => ∀ m', m' ∈ y.held ↔ r.2.owner m' = some u).mpr
      ⟨fun m' => ?_, fun u hut m' => ?_⟩
    · rw [hown]
      by_cases hmm : m' = m
      · subst hmm
        rw [Function.update_self]
        exact iff_of_false hnodup.1 nofun
      · rw [Function.update_of_ne hmm, ← hmine]
        exact (or_iff_right hmm).symm
    · rw [hown, hO.owner]
      by_cases hmm : m' = m
      · subst hmm
        rw [Function.update_self, (hmine m').mp (.inl rfl)]
        exact iff_of_false (fun h => hut (Option.some.inj h).symm) nofun
      · rw [Function.update_of_ne hmm]
  · intro u hu
    rw [hown] at hu
    by_cases hmq : m = .w4rQMutex
    · subst hmq
      rw [Function.update_self] at hu
      cases hu
    · rw [Function.update_of_ne (Ne.symm hmq)] at hu
      exact hO.io u hu

/-- **Every operation keeps it.** -/
theorem owned_perform {op : Op} {r : op.Res × Session} (hO : Owned s x)
    (ha : locking.allows (x t) op) (h : perform cfg t op s = some r) :
    Owned r.2 (Function.update x t (locking.next (x t) op r.1)) := by
  by_cases hop : op.unlocked = true
  · rw [(locking_unlocked op (x t) hop).2, Function.update_eq_self]
    refine hO.same (perform_same (f := .owner) h ?_)
    cases op <;> first | simp; done | cases hop
  · cases op with
    | lock m => exact owned_lock hO ha h
    | unlock m => exact owned_unlock hO ha h
    | _ => exact absurd rfl hop

/-- **The locking of a run.** -/
theorem Runs.owned {p : Persisted} {now : Nat} {c : Machine} (h : Runs cfg Guard.free p now c) :
    ∃ x, Owned c.shared x ∧ ∀ t, (c.code t).Follows locking (fun _ => FreeHanded t) (x t) := by
  have hidle : ∀ t, ((Machine.init p now).code t).Follows locking (fun _ => FreeHanded t) ⟨t, []⟩ :=
    fun _ => rfl
  refine Reach.protocol (I := FreeHanded) (K := Owned) hidle (fun j x hx => locking_body j x hx) ?_
    ?_ ?_ ?_ h
  · exact ⟨fun _ => rfl, fun _ => List.nodup_nil, fun _ _ => iff_of_false (by simp) nofun, nofun⟩
  · intro t op s x r hO _ ha hx
    exact owned_perform hO ha (perform_of_exec hx).2
  · intro e s s' x hO hx
    exact hO.same (env_same (f := .owner) hx (by simp))
  · intro j s s' x hO _ hx
    exact hO.same (take_same (f := .owner) hx (by simp))

/-- How many mutexes are still above one, for a thread that waits. -/
def Mutex.rank : Mutex → Nat
  | .writeMutex => 2
  | .w4rQMutex => 1
  | .mMtx => 0

/-- **No deadlock on the session's mutexes**, in any run: no thread requests a mutex it holds, and no
set of threads is deadlocked. -/
theorem no_deadlock {p : Persisted} {now : Nat} {c : Machine} (h : Runs cfg Guard.free p now c) :
    (∀ t m, c.Requests t m → c.shared.owner m ≠ some t) ∧
      ∀ S, ¬Deadlocked c.Requests c.shared.owner S := by
  obtain ⟨x, hO, hfol⟩ := h.owned
  have hrequest : ∀ t m, c.Requests t m →
      m ∉ (x t).held ∧ .mMtx ∉ (x t).held ∧ (m = .w4rQMutex → t = .io) := by
    intro t m hm
    obtain ⟨k, hk⟩ := Machine.code_of_next? hm
    have ht := hfol t
    rw [hk] at ht
    have hallow : m ∉ (x t).held ∧ .mMtx ∉ (x t).held ∧ (m = .w4rQMutex → (x t).thread = .io) := ht.1
    rwa [hO.thread] at hallow
  have hself : ∀ t m, c.Requests t m → c.shared.owner m ≠ some t :=
    fun t m ht hown => (hrequest t m ht).1 ((hO.owner t m).mpr hown)
  refine ⟨hself, not_deadlocked (measure Mutex.rank).wf ?_⟩
  intro t m u m' ht hown hu
  show m'.rank < m.rank
  have hheld : m ∈ (x u).held := (hO.owner u m).mpr hown
  have hne : m' ≠ m := by
    rintro rfl
    exact (hrequest u m' hu).1 hheld
  cases m with
  | mMtx => exact absurd hheld (hrequest u m' hu).2.1
  | w4rQMutex =>
      -- the io thread would be waiting for itself
      obtain rfl : t = .io := (hrequest t _ ht).2.2 rfl
      obtain rfl : u = .io := hO.io u hown
      exact absurd hown (hself .io _ ht)
  | writeMutex => cases m' <;> first | decide | exact absurd rfl hne

/-- A run in which `stop()` waits for `writeMutex`, which the io thread holds in `do_enquire_link`. -/
def stopWaits : List Step :=
  Schedule.bind ++
    [.env (.expire .enquireLink), .start (.handler (.doEnquireLink .success))] ++
    Schedule.turn .io 8 ++ [.start .stop] ++ Schedule.turn .stopper 5

/-- The thread that calls `stop()` waits for a write to be prepared, and nothing is deadlocked. -/
theorem no_deadlock_stopWaits :
    (Machine.after sampleParams .none stopWaits).Requests .stopper .writeMutex ∧
      (Machine.after sampleParams .none stopWaits).shared.owner .writeMutex = some .io ∧
      ∀ S, ¬Deadlocked (Machine.after sampleParams .none stopWaits).Requests
        (Machine.after sampleParams .none stopWaits).shared.owner S :=
  ⟨by decide +kernel, by decide +kernel, (no_deadlock (runs_after sampleParams .none stopWaits)).2⟩

end KissSmpp
