import KissSmpp.Session.Handlers

/-! # Single writer

`do_write` takes a non-empty transmit queue for the sign that a write is in progress. The PDU being
written has left the queue, though, so the queue can be empty while a write is outstanding, and then a
second one is started. As long as that does not happen (`idleWhenEmpty`) at most one PDU is in flight:
`handle_write`, the other caller of `write_pdu`, only pops after it has dealt with its own PDU. -/

namespace KissSmpp

open Interleave Queue

variable {cfg : Params} {t : Tid} {s s' : Session}

/-- **`writing()` is right**: whenever `txQ->empty()` answers that the queue is empty, no PDU popped
earlier is still in flight. -/
def idleWhenEmpty : Guard Op Tid Session Job where
  op _ op s := op = .txEmpty → s.txQ.empty = true → s.inFlight = []
  job _ _ := True

namespace Session

/-- **Outstanding writes**: started by `async_write`, and not yet dealt with by their `handle_write`. -/
def outstanding (s : Session) : List Ref := s.writes ++ s.handling.toList

/-- Thread `t` has come to where it may pop without asking again: it has found the queue empty, or it
runs a `handle_write` that has dealt with its PDU. -/
def MayPop (s : Session) (t : Tid) : Prop :=
  s.phase t = .found true ∨
    (t = .io ∧ s.InHandleWrite ∧ s.handling = none ∧
      (s.phase t = .locked ∨ s.phase t = .found false))

/-- **At most one PDU is in flight**, and none where one may be popped. -/
structure OneInFlight (s : Session) : Prop where
  single : s.inFlight.length ≤ 1
  clear : ∀ t, s.MayPop t → s.inFlight = []

/-- A thread that may pop is in the critical section. -/
theorem MayPop.phase_ne {u : Tid} (h : s.MayPop u) : s.phase u ≠ .outside := by
  rcases h with h | ⟨-, -, -, h | h⟩
  · rw [h]; simp
  · rw [h]; simp
  · rw [h]; simp

/-- The PDUs in flight may be permuted. -/
theorem OneInFlight.perm (hK : OneInFlight s) (hfl : s'.inFlight.Perm s.inFlight)
    (hclear : ∀ u, s'.MayPop u → s.MayPop u ∨ s.inFlight = []) : OneInFlight s' := by
  refine ⟨?_, fun u hu => ?_⟩
  · rw [hfl.length_eq]
    exact hK.single
  · have hnil : s.inFlight = [] := (hclear u hu).elim (hK.clear u) id
    rw [hnil] at hfl
    exact hfl.eq_nil

end Session

open Session

/-- Another thread may pop after an operation only if it might before. -/
theorem mayPop_other {op : Op} {r : op.Res × Session} (h : perform cfg t op s = some r)
    (hm : op.mayRun t = true) {u : Tid} (hu : u ≠ t) (hp : r.2.MayPop u) : s.MayPop u := by
  have hph := (perform_local h hu).2.2
  rcases hp with hp | ⟨rfl, ⟨q, hq⟩, hh, hp⟩
  · exact .inl (hph ▸ hp)
  · -- the io thread's members are its own
    have hop : op.onIo = false := Op.onIo_of_ne hm hu.symm
    have hrun : r.2.running = s.running := perform_running h
    have hhand : r.2.handling = s.handling := perform_same (f := .handling) h (by
      cases op <;> first | simp; done | simp at hop)
    rw [hph] at hp
    exact .inr ⟨rfl, ⟨q, hrun ▸ hq⟩, hhand ▸ hh, hp⟩

/-- The thread that performs an operation other than those that move it on may pop after it only if it
might before. -/
theorem mayPop_self {op : Op} {r : op.Res × Session} (h : perform cfg t op s = some r)
    (hph : Field.phase ∉ op.writes) (hh : Field.handling ∉ op.writes) (hp : r.2.MayPop t) :
    s.MayPop t := by
  have hphase : r.2.phase = s.phase := perform_same (f := .phase) h hph
  have hhand : r.2.handling = s.handling := perform_same (f := .handling) h hh
  have hrun : r.2.running = s.running := perform_running h
  unfold Session.MayPop Session.InHandleWrite at hp ⊢
  rwa [hphase, hhand, hrun] at hp

/-- Nothing is in flight when a PDU is popped. -/
theorem Session.OneInFlight.of_txPop (hK : OneInFlight s) (hk : Known t .txPop s) :
    s.inFlight = [] := by
  rcases hk.2.2 with hph | ⟨hio, hph, hhw, hh, -⟩
  · exact hK.clear t (.inl hph)
  · exact hK.clear t (.inr ⟨hio, hhw, hh, .inr hph⟩)

/-- Dealing with the one PDU in flight leaves none. -/
theorem oneInFlight_deals {op : Op} {r : op.Res × Session} (hK : OneInFlight s)
    (h : perform cfg t op s = some r) (hop : op.deals = true) (hm : op.mayRun t = true) :
    OneInFlight r.2 := by
  -- `handle_write` is done with its PDU, which was the only one in flight
  have hfl := (inFlight_deals h hop).1
  have hlen := hfl.length_eq
  rw [List.length_append] at hlen
  refine ⟨?_, fun u hu => ?_⟩
  · have := hK.single
    omega
  · have hnil : s.inFlight = [] → r.2.inFlight = [] := by
      intro hnil
      rw [hnil] at hlen
      exact List.length_eq_zero_iff.mp (by simp at hlen; omega)
    have hph : r.2.phase = s.phase := perform_same (f := .phase) h (by
      cases op <;> first | simp; done | simp at hop)
    have hrun : r.2.running = s.running := perform_running h
    cases hh : s.handling with
    | none =>
        refine hnil (hK.clear u ?_)
        rcases hu with hu | ⟨rfl, ⟨q, hq⟩, -, hu⟩
        · exact .inl (hph ▸ hu)
        · exact .inr ⟨rfl, ⟨q, hrun ▸ hq⟩, hh, hph ▸ hu⟩
    | some q =>
        rw [hh] at hlen
        have := hK.single
        exact List.length_eq_zero_iff.mp (by simp at hlen; omega)

/-- An operation that leaves what is in flight alone keeps it so, if the thread that performs it might pop
before, or nothing is in flight. -/
theorem oneInFlight_still {op : Op} {r : op.Res × Session} (hK : OneInFlight s)
    (hm : op.mayRun t = true) (h : perform cfg t op s = some r) (hfl : r.2.inFlight.Perm s.inFlight)
    (hself : r.2.MayPop t → s.MayPop t ∨ s.inFlight = []) : OneInFlight r.2 := by
  refine hK.perm hfl fun u hu => ?_
  by_cases hut : u = t
  · subst hut
    exact hself hu
  · exact .inl (mayPop_other h hm hut hu)

/-- A pop puts one PDU into flight, and no thread may pop again. -/
theorem oneInFlight_txPop {r : Op.txPop.Res × Session} (hi : Inv s) (hK : OneInFlight s)
    (hm : Op.txPop.mayRun t = true) (hk : Known t .txPop s) (h : perform cfg t .txPop s = some r) :
    OneInFlight r.2 := by
  have hnil := hK.of_txPop hk
  have hfl := inFlight_txPop h hk.2.1
  rw [hnil, List.append_nil] at hfl
  refine ⟨?_, fun u hu => ?_⟩
  · rw [hfl.length_eq]
    cases s.txQ.pop.1 with
    | none => simp
    | some a => simp
  · by_cases hut : u = t
    · subst hut
      have hph : r.2.phase u = .popped := by
        cases h
        exact Function.update_self ..
      rcases hu with hu | ⟨-, -, -, hu | hu⟩
      · rw [hph] at hu; cases hu
      · rw [hph] at hu; cases hu
      · rw [hph] at hu; cases hu
    · -- two threads in the critical section
      have hown := hi.mutex u (mayPop_other h hm hut hu).phase_ne
      have hown' : s.owner .writeMutex = some t := hk.1
      rw [hown, Option.some.injEq] at hown'
      exact absurd hown' hut

/-- A thread that has just entered may not pop: a `handle_write` still has its PDU to deal with. -/
theorem mayPop_lock {m : Mutex} {r : (Op.lock m).Res × Session} (hk : Known t (.lock m) s)
    (h : perform cfg t (.lock m) s = some r) (hp : r.2.MayPop t) : s.MayPop t := by
  obtain ⟨-, rfl⟩ := perform_lock h
  by_cases hmw : m = .writeMutex
  · subst hmw
    rw [Session.onWriteMutex, if_pos rfl] at hp
    have hphase : Function.update s.phase t Phase.locked t = .locked := Function.update_self ..
    rcases hp with hp | ⟨hio, hhw, hh, -⟩
    · cases hphase.symm.trans hp
    · exact absurd hh (hk hio hhw)
  · rw [Session.onWriteMutex, if_neg hmw] at hp
    exact hp

/-- A thread that leaves the critical section may pop nothing by it. -/
theorem mayPop_unlock {m : Mutex} {r : (Op.unlock m).Res × Session}
    (h : perform cfg t (.unlock m) s = some r) (hp : r.2.MayPop t) : s.MayPop t := by
  cases h
  by_cases hmw : m = .writeMutex
  · subst hmw
    rw [Session.onWriteMutex, if_pos rfl] at hp
    have hphase : Function.update s.phase t Phase.outside t = .outside := Function.update_self ..
    exact absurd hphase hp.phase_ne
  · rw [Session.onWriteMutex, if_neg hmw] at hp
    exact hp

/-- **Every operation keeps at most one PDU in flight.** -/
theorem oneInFlight_perform {op : Op} {r : op.Res × Session} (hi : Inv s) (hK : OneInFlight s)
    (hg : idleWhenEmpty.op t op s) (hm : op.mayRun t = true) (hk : Known t op s)
    (h : perform cfg t op s = some r) : OneInFlight r.2 := by
  -- the pop, what may allow one, and what deals with a completed write; the rest moves nothing
  cases op with
  | txPop => exact oneInFlight_txPop hi hK hm hk h
  | txEmpty =>
      refine oneInFlight_still hK hm h (inFlight_still h rfl) fun hu => ?_
      obtain ⟨-, hph, hh⟩ := hk
      cases h
      have hphase : Function.update s.phase t (.found s.txQ.empty) t = .found s.txQ.empty :=
        Function.update_self ..
      rcases hu with hu | ⟨hio, hhw, -, -⟩
      · -- the queue has been found empty: by the guard nothing is in flight
        have hempty := hphase.symm.trans hu
        rw [Phase.found.injEq] at hempty
        exact .inr (hg rfl hempty)
      · have hhw : s.InHandleWrite := hhw
        exact .inl (.inr ⟨hio, hhw, hh hio hhw, .inl hph⟩)
  | lock m =>
      exact oneInFlight_still hK hm h (inFlight_still h rfl) fun hu => .inl (mayPop_lock hk h hu)
  | unlock m =>
      exact oneInFlight_still hK hm h (inFlight_still h rfl) fun hu => .inl (mayPop_unlock h hu)
  | asyncWrite q tbuf =>
      exact oneInFlight_still hK hm h (inFlight_asyncWrite h hk.2.1) fun hu =>
        .inl (mayPop_self h (by simp) (by simp) hu)
  | txPushBackLastPop => exact oneInFlight_deals hK h rfl hm
  | w4rInsert q => exact oneInFlight_deals hK h rfl hm
  | retire => exact oneInFlight_deals hK h rfl hm
  | _ =>
      exact oneInFlight_still hK hm h (inFlight_still h rfl) fun hu =>
        .inl (mayPop_self h (by simp) (by simp) hu)

/-- The environment takes nothing into flight. -/
theorem oneInFlight_env {e : Env} (hK : OneInFlight s) (h : e.perform cfg s = some s') :
    OneInFlight s' := by
  have hph : s'.phase = s.phase := env_same (f := .phase) h (by simp)
  have hh : s'.handling = s.handling := env_same (f := .handling) h (by simp)
  have hrun : s'.running = s.running := env_same (f := .running) h (by simp)
  refine hK.perm (inFlight_env h) fun u hu => .inl ?_
  unfold Session.MayPop Session.InHandleWrite at hu ⊢
  rwa [hph, hh, hrun] at hu

/-- The start of a job takes nothing into flight, and the io thread starts outside. -/
theorem oneInFlight_take {j : Job} (hK : OneInFlight s) (hq : Quiet j.thread s)
    (h : j.take s = some s') : OneInFlight s' := by
  have hph : s'.phase = s.phase := take_same (f := .phase) h (by simp)
  cases j with
  | handler h' =>
      refine hK.perm (inFlight_take h (hq.handling rfl)) fun u hu => .inl ?_
      rcases hu with hu | ⟨rfl, hhw, hh, hu⟩
      · exact .inl (hph ▸ hu)
      · have hout : s.phase .io = .outside := hq.phase
        rw [hph, hout] at hu
        rcases hu with hu | hu
        · cases hu
        · cases hu
  | send => cases h; exact hK
  | receive => cases h; exact hK
  | stop => cases h; exact ⟨hK.single, hK.clear⟩

variable {p : Persisted} {now : Nat} {c : Machine}

/-- At most one PDU is in flight in every run in which `writing()` is right. -/
theorem Runs.oneInFlight (h : Runs cfg idleWhenEmpty p now c) : OneInFlight c.shared :=
  h.data ⟨Nat.zero_le 1, fun _ _ => rfl⟩
    (fun _ _ _ _ hi hK hg hm hk hx => oneInFlight_perform hi hK hg hm hk hx)
    (fun _ _ _ _ hK hx => oneInFlight_env hK hx) fun _ _ _ _ hq hK _ hx => oneInFlight_take hK hq hx

/-- In every such run the PDU in flight is the one that `last_pop_object()` returns to
`handle_write`. -/
theorem Runs.slot_of_inFlight (h : Runs cfg idleWhenEmpty p now c) :
    ∀ r, r ∈ c.shared.inFlight → c.shared.slot = some r := by
  refine Runs.dataWith (I := OneInFlight) (K := fun s => ∀ r, r ∈ s.inFlight → s.slot = some r)
    (fun c hc => hc.oneInFlight) h ?_ ?_ ?_ ?_
  · intro r hr
    have hnil : (Session.init p now).inFlight = [] := rfl
    rw [hnil] at hr
    cases hr
  · intro t op s x _ hone hK _ _ hk hx r hr
    -- only a pop puts something into flight, or changes what was popped last
    by_cases hop : op = .txPop
    · subst hop
      rcases mem_inFlight_perform hx hk hr with hr | ⟨-, hr⟩
      · rw [hone.of_txPop hk] at hr
        cases hr
      · exact slot_txPop hx hr
    · rw [slot_same hx hop]
      rcases mem_inFlight_perform hx hk hr with hr | ⟨hpop, -⟩
      · exact hK r hr
      · exact absurd hpop hop
  · intro e s s' _ _ hK hx r hr
    rw [slot_env hx]
    exact hK r ((inFlight_env hx).mem_iff.mp hr)
  · intro j s s' _ _ hq hK _ hx r hr
    rw [slot_take hx]
    exact hK r (mem_inFlight_take hx hq hr)

/-- **Single writer**: in every run in which `txQ->empty()` never finds the queue empty while a PDU is
in flight, at most one write is outstanding. -/
theorem single_writer (h : Runs cfg idleWhenEmpty p now c) : c.shared.outstanding.length ≤ 1 := by
  have hlen := h.oneInFlight.single
  unfold Session.inFlight at hlen
  rw [List.length_append] at hlen
  unfold Session.outstanding
  omega

/-- The guard can be evaluated. -/
instance : idleWhenEmpty.Checkable where
  op _ op s := inferInstanceAs (Decidable (op = .txEmpty → s.txQ.empty = true → s.inFlight = []))
  job _ _ := inferInstanceAs (Decidable True)

/-- A session that is bound and writes its first message. -/
theorem single_writer_first_send :
    (Machine.after sampleParams .none (Schedule.bind ++ Schedule.send)).shared.outstanding.length ≤ 1 :=
  single_writer (runs_under (g := idleWhenEmpty) (by decide +kernel))

/-- Two messages sent to a bound session, the second before the first has been written. -/
def overlappingSends : List Step := Schedule.bind ++ Schedule.send ++ Schedule.send

/-- Without the condition two writes can be outstanding: the first `submit_sm` has left the queue when
the second is sent. -/
theorem two_writes_outstanding : ¬∀ (cfg : Params) (p : Persisted) (now : Nat) (c : Machine),
    Runs cfg Guard.free p now c → c.shared.outstanding.length ≤ 1 := by
  intro h
  have hle := h _ _ _ _ (runs_after sampleParams .none overlappingSends)
  have htwo : (Machine.after sampleParams .none overlappingSends).shared.outstanding.length = 2 := by
    decide +kernel
  omega

end KissSmpp
