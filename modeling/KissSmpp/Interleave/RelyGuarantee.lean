import KissSmpp.Interleave.Program

/-! # Rely–guarantee reasoning about interleaved programs

A `Contract` fixes, for every thread, what the others may do to the shared state between two of its
operations (`rely`), a global invariant, what is known whenever an operation is performed (`fact`),
what holds of the state while the thread is idle, and the guard on the runs considered.
`Contract.Safe` is the weakest precondition of a program under that interference, `Contract.Triple`
the triple built from it, with the rules for operations and sequencing.

`Contract.Sound.reach_safe` is the soundness theorem: if every job meets its contract, the invariant
holds in every configuration reachable under the guard, and the idle assertion of a thread whenever
that thread has nothing left to run. By `Contract.Sound.reach_also` the facts of a sound contract may
be assumed of every operation from then on, in another contract or in the induction rule `Reach.data`,
which no longer mentions programs: to show that an assertion on the shared state holds throughout the
runs, it is enough to look at single operations in states where their facts hold. -/

namespace Interleave

variable {Op : Type} {Res : Op → Type} {τ σ Env Job : Type}
variable {α β : Type}

/-- **A rely–guarantee contract** for the threads of `M`. A thread guarantees what the other threads
rely on, so no separate guarantee is given. -/
structure Contract (M : System Op Res τ σ Env Job) where
  /-- The guard on the moves of the runs considered. -/
  guard : Guard Op τ σ Job
  /-- The global invariant of the shared state. -/
  inv : σ → Prop
  /-- What is known of the state in which thread `t` performs `op`. -/
  fact : τ → Op → σ → Prop
  /-- What may happen to the state between two operations of thread `t`. -/
  rely : τ → σ → σ → Prop
  /-- What holds of the state whenever thread `t` is idle. -/
  idle : τ → σ → Prop
  rely_refl : ∀ t s, rely t s s
  rely_trans : ∀ t s₁ s₂ s₃, rely t s₁ s₂ → rely t s₂ s₃ → rely t s₁ s₃

namespace Contract

variable {M : System Op Res τ σ Env Job} (L : Contract M)

/-- **Keeping the contract.** The operation `op` of thread `t`, leading from `s` to `s'`, finds its
facts, keeps the invariant, and stays within what every other thread relies on. -/
structure Keeps (t : τ) (op : Op) (s s' : σ) : Prop where
  fact : L.fact t op s
  inv : L.inv s'
  rely : ∀ u, u ≠ t → L.rely u s s'

/-- **Safety of a program under interference.** Whenever thread `t` gets to perform its next
operation, however the others have changed the state meanwhile, the operation keeps the contract and
leaves a safe rest; a finished program leaves `Q`. -/
def Safe (t : τ) (Q : α → σ → Prop) : Prog Op Res α → σ → Prop
  | .ret a, s => ∀ s', L.rely t s s' → L.inv s' → Q a s'
  | .step op k, s => ∀ s', L.rely t s s' → L.inv s' → L.guard.op t op s' →
      ∀ r, M.exec t op s' = some r → L.Keeps t op s' r.2 ∧ Safe t Q (k r.1) r.2

/-- An assertion is stable for thread `t` if the others cannot falsify it. -/
def Stable (t : τ) (P : σ → Prop) : Prop :=
  ∀ s s', L.inv s → P s → L.rely t s s' → L.inv s' → P s'

/-- **Triples**: from every state with the invariant and `P`, the program is safe and ends in `Q`. -/
def Triple (t : τ) (P : σ → Prop) (p : Prog Op Res α) (Q : α → σ → Prop) : Prop :=
  ∀ s, L.inv s → P s → L.Safe t Q p s

variable {L} {t : τ} {P P' : σ → Prop} {Q Q' : α → σ → Prop}

/-! ## Structural rules -/

/-- Interference before a program starts does not matter. -/
theorem Safe.rely {p : Prog Op Res α} {s s' : σ} (h : L.Safe t Q p s) (hr : L.rely t s s') :
    L.Safe t Q p s' := by
  cases p with
  | ret a => exact fun s'' hs'' hi => h s'' (L.rely_trans t _ _ _ hr hs'') hi
  | step op k => exact fun s'' hs'' hi => h s'' (L.rely_trans t _ _ _ hr hs'') hi

/-- Weakening the final assertion. -/
theorem Safe.mono {p : Prog Op Res α} {s : σ} (hQ : ∀ a s, L.inv s → Q a s → Q' a s)
    (h : L.Safe t Q p s) : L.Safe t Q' p s := by
  induction p generalizing s with
  | ret a => exact fun s' hr hi => hQ a s' hi (h s' hr hi)
  | step op k ih =>
      intro s' hr hi hg r hx
      obtain ⟨hkeeps, hk⟩ := h s' hr hi hg r hx
      exact ⟨hkeeps, ih r.1 hk⟩

/-- Sequencing. -/
theorem Safe.bind {p : Prog Op Res α} {f : α → Prog Op Res β} {R : β → σ → Prop} {s : σ}
    (hi : L.inv s) (h : L.Safe t Q p s) (hf : ∀ a s, L.inv s → Q a s → L.Safe t R (f a) s) :
    L.Safe t R (p >>= f) s := by
  induction p generalizing s with
  | ret a => exact hf a s hi (h s (L.rely_refl t s) hi)
  | step op k ih =>
      intro s' hr hi' hg r hx
      obtain ⟨hkeeps, hk⟩ := h s' hr hi' hg r hx
      exact ⟨hkeeps, ih r.1 hkeeps.inv hk⟩

/-- **Sequencing**: what the first part establishes is what the second starts from. -/
theorem Triple.bind {p : Prog Op Res α} {f : α → Prog Op Res β} {R : β → σ → Prop}
    (h : L.Triple t P p Q) (hf : ∀ a, L.Triple t (Q a) (f a) R) : L.Triple t P (p >>= f) R :=
  fun s hi hP => Safe.bind hi (h s hi hP) fun a s' hi' hQ => hf a s' hi' hQ

/-- Strengthening the initial assertion and weakening the final one. -/
theorem Triple.conseq {p : Prog Op Res α} (h : L.Triple t P p Q)
    (hP : ∀ s, L.inv s → P' s → P s) (hQ : ∀ a s, L.inv s → Q a s → Q' a s) :
    L.Triple t P' p Q' :=
  fun s hi hP' => (h s hi (hP s hi hP')).mono hQ

/-- A stronger precondition. -/
theorem Triple.pre {p : Prog Op Res α} (h : L.Triple t P p Q) (hP : ∀ s, L.inv s → P' s → P s) :
    L.Triple t P' p Q :=
  h.conseq hP fun _ _ _ hQ => hQ

/-- A weaker postcondition. -/
theorem Triple.post {p : Prog Op Res α} (h : L.Triple t P p Q)
    (hQ : ∀ a s, L.inv s → Q a s → Q' a s) : L.Triple t P p Q' :=
  h.conseq (fun _ _ hP => hP) hQ

/-- A program that does nothing keeps a stable assertion. -/
theorem Triple.ret {a : α} (hQ : L.Stable t (Q a)) : L.Triple t (Q a) (.ret a) Q :=
  fun s hi hQs s' hr hi' => hQ s s' hi hQs hr hi'

/-- A program that returns keeps what is stable. -/
theorem Triple.skip {a : α} (hP : L.Stable t P) : L.Triple t P (.ret a) fun _ => P :=
  Triple.ret (Q := fun _ => P) hP

/-- A single operation: its initial assertion must be stable, and in a state with the invariant it
must keep the contract and establish a stable final assertion. -/
theorem Triple.op {op : Op} {Q : Res op → σ → Prop} (hP : L.Stable t P)
    (hQ : ∀ b, L.Stable t (Q b))
    (h : ∀ s r, L.inv s → P s → L.guard.op t op s → M.exec t op s = some r →
      L.Keeps t op s r.2 ∧ Q r.1 r.2) :
    L.Triple t P (.step op .ret) Q := by
  intro s hi hPs s' hr hi' hg r hx
  obtain ⟨hkeeps, hQr⟩ := h s' r hi' (hP s s' hi hPs hr hi') hg hx
  exact ⟨hkeeps, fun s'' hr' hi'' => hQ r.1 r.2 s'' hkeeps.inv hQr hr' hi''⟩

/-- Optional code that keeps an assertion. -/
theorem Triple.when {b : Bool} {p : Prog Op Res Unit} (hP : L.Stable t P)
    (h : b = true → L.Triple t P p fun _ => P) : L.Triple t P (Prog.when b p) fun _ => P := by
  cases b with
  | true => exact h rfl
  | false => exact Triple.ret (Q := fun _ => P) hP

/-- **Code that keeps an assertion operation by operation** keeps it as a whole. -/
theorem Triple.uses {S : Op → Prop} {p : Prog Op Res α} (hp : p.Uses S) (hP : L.Stable t P)
    (h : ∀ op s r, S op → L.inv s → P s → L.guard.op t op s → M.exec t op s = some r →
      L.Keeps t op s r.2 ∧ P r.2) :
    L.Triple t P p fun _ => P := by
  induction p with
  | ret a => exact Triple.ret (Q := fun _ => P) hP
  | step op k ih =>
      intro s hi hPs s' hr hi' hg r hx
      obtain ⟨hkeeps, hPr⟩ := h op s' r hp.1 hi' (hP s s' hi hPs hr hi') hg hx
      exact ⟨hkeeps, ih r.1 (hp.2 r.1) r.2 hkeeps.inv hPr⟩

/-- **A thread each of whose operations keeps the contract** is safe whatever it runs. -/
theorem Safe.any (h : ∀ op s r, L.inv s → L.guard.op t op s → M.exec t op s = some r →
    L.Keeps t op s r.2) (hQ : ∀ a s, Q a s) (p : Prog Op Res α) (s : σ) : L.Safe t Q p s := by
  induction p generalizing s with
  | ret a => exact fun s' _ _ => hQ a s'
  | step op k ih =>
      intro s' _ hi hg r hx
      exact ⟨h op s' r hi hg hx, ih r.1 r.2⟩

/-! ## Stable assertions -/

/-- Two stable assertions are stable together. -/
theorem Stable.and {P P' : σ → Prop} (h : L.Stable t P) (h' : L.Stable t P') :
    L.Stable t fun s => P s ∧ P' s :=
  fun s s' hi hP hr hi' => ⟨h s s' hi hP.1 hr hi', h' s s' hi hP.2 hr hi'⟩

/-- What does not depend on the state is stable. -/
theorem Stable.const {p : Prop} : L.Stable t fun _ => p := fun _ _ _ hp _ _ => hp

end Contract

/-! ## Facts in the guard -/

/-- A guard to which the facts of a contract have been added. -/
def Guard.also {M : System Op Res τ σ Env Job} (g : Guard Op τ σ Job) (L : Contract M) :
    Guard Op τ σ Job where
  op t op s := g.op t op s ∧ L.inv s ∧ L.fact t op s
  job j s := g.job j s ∧ L.inv s ∧ L.idle (M.thread j) s

/-- The facts only strengthen the guard. -/
theorem Guard.also_allows {M : System Op Res τ σ Env Job} {g : Guard Op τ σ Job} {L : Contract M}
    {c : Config Op Res τ σ} {m : Move τ Env Job} (h : (g.also L).Allows c m) : g.Allows c m := by
  cases m with
  | run t =>
      simp only [Guard.Allows] at h ⊢
      cases hcode : c.code t with
      | ret a => trivial
      | step op k =>
          rw [hcode] at h
          exact h.1
  | env e => trivial
  | start j => exact h.1

/-! ## Soundness -/

variable [DecidableEq τ] {M : System Op Res τ σ Env Job}

/-- The obligations of a contract on the system started in `c₀`: on the start, on every move of the
environment, and on every job. -/
structure Contract.Sound (L : Contract M) (c₀ : Config Op Res τ σ) : Prop where
  inv_init : L.inv c₀.shared
  safe_init : ∀ t, L.Safe t (fun _ => L.idle t) (c₀.code t) c₀.shared
  env : ∀ e s s', L.inv s → M.env e s = some s' → L.inv s' ∧ ∀ t, L.rely t s s'
  take : ∀ j s s', L.inv s → L.idle (M.thread j) s → L.guard.job j s → M.take j s = some s' →
    L.inv s' ∧ (∀ u, u ≠ M.thread j → L.rely u s s') ∧
      L.Safe (M.thread j) (fun _ => L.idle (M.thread j)) (M.body j) s'

/-- **Soundness.** In every configuration reachable under the guard the invariant holds, and every
thread's remaining code is safe. -/
theorem Contract.Sound.reach_safe {L : Contract M} {c₀ c : Config Op Res τ σ} (hL : L.Sound c₀)
    (h : Reach M L.guard.Allows c₀ c) :
    L.inv c.shared ∧ ∀ t, L.Safe t (fun _ => L.idle t) (c.code t) c.shared := by
  induction h with
  | refl => exact ⟨hL.inv_init, hL.safe_init⟩
  | @next c c' m _ hm hstep ih =>
      obtain ⟨hi, hsafe⟩ := ih
      cases m with
      | run t =>
          obtain ⟨op, k, r, hcode, hx, rfl⟩ := Config.of_move_run hstep
          have ht := hsafe t
          rw [hcode] at ht
          obtain ⟨hkeeps, hk⟩ := ht _ (L.rely_refl t _) hi ((Guard.allows_run hcode).mp hm) r hx
          -- the thread's own code goes on, the others' has relied on what it guarantees
          refine ⟨hkeeps.inv, fun u => ?_⟩
          by_cases hut : u = t
          · subst hut; simpa using hk
          · simpa [hut] using (hsafe u).rely (hkeeps.rely u hut)
      | env e =>
          obtain ⟨s', he, rfl⟩ := Config.of_move_env hstep
          obtain ⟨hi', hr⟩ := hL.env e _ s' hi he
          exact ⟨hi', fun u => (hsafe u).rely (hr u)⟩
      | start j =>
          obtain ⟨⟨a, hcode⟩, s', htake, rfl⟩ := Config.of_move_start hstep
          -- a thread that takes up a job was idle
          have hidle := hsafe (M.thread j)
          rw [hcode] at hidle
          obtain ⟨hi', hu, hk⟩ := hL.take j _ s' hi (hidle _ (L.rely_refl _ _) hi) hm htake
          refine ⟨hi', fun u => ?_⟩
          by_cases hut : u = M.thread j
          · subst hut; simpa using hk
          · simpa [hut] using (hsafe u).rely (hu u hut)

/-- The invariant holds in every configuration reachable under the guard. -/
theorem Contract.Sound.reach_inv {L : Contract M} {c₀ c : Config Op Res τ σ} (hL : L.Sound c₀)
    (h : Reach M L.guard.Allows c₀ c) : L.inv c.shared :=
  (hL.reach_safe h).1

/-- A thread with nothing left to run satisfies its idle assertion. -/
theorem Contract.Sound.reach_idle {L : Contract M} {c₀ c : Config Op Res τ σ} (hL : L.Sound c₀)
    (h : Reach M L.guard.Allows c₀ c) {t : τ} {a : Unit} (ht : c.code t = .ret a) :
    L.idle t c.shared := by
  obtain ⟨hi, hsafe⟩ := hL.reach_safe h
  have := hsafe t
  rw [ht] at this
  exact this _ (L.rely_refl t _) hi

/-- Whenever a thread performs an operation, its facts hold. -/
theorem Contract.Sound.reach_fact {L : Contract M} {c₀ c : Config Op Res τ σ} (hL : L.Sound c₀)
    (h : Reach M L.guard.Allows c₀ c) {t : τ} {op : Op} {k : Res op → Prog Op Res Unit}
    (hcode : c.code t = .step op k) (hg : L.guard.op t op c.shared) {r : Res op × σ}
    (hx : M.exec t op c.shared = some r) : L.fact t op c.shared := by
  obtain ⟨hi, hsafe⟩ := hL.reach_safe h
  have ht := hsafe t
  rw [hcode] at ht
  exact (ht _ (L.rely_refl t _) hi hg r hx).1.fact

/-- **What a sound contract knows may be assumed**: the rest of a run under a guard at least as strong as
the contract's is a run under the guard with the facts added. -/
theorem Contract.Sound.reach_also_from {L : Contract M} {c₀ c₁ c : Config Op Res τ σ} (hL : L.Sound c₀)
    {g : Guard Op τ σ Job} (hg : ∀ (c : Config Op Res τ σ) (m : Move τ Env Job),
      g.Allows c m → L.guard.Allows c m) (h₁ : Reach M g.Allows c₀ c₁) (h : Reach M g.Allows c₁ c) :
    Reach M (g.also L).Allows c₁ c := by
  induction h with
  | refl => exact .refl
  | @next c c' m hc hm hstep ih =>
      refine ih.next m ?_ hstep
      have hr := (h₁.trans hc).mono hg
      have hi := hL.reach_inv hr
      cases m with
      | run t =>
          obtain ⟨op, k, r, hcode, hx, -⟩ := Config.of_move_run hstep
          have hgop : L.guard.op t op c.shared := (Guard.allows_run hcode).mp (hg c (.run t) hm)
          refine (Guard.allows_run hcode).mpr ⟨(Guard.allows_run hcode).mp hm, hi, ?_⟩
          exact hL.reach_fact hr hcode hgop hx
      | env e => trivial
      | start j =>
          obtain ⟨⟨a, hcode⟩, -⟩ := Config.of_move_start hstep
          exact ⟨hm, hi, hL.reach_idle hr hcode⟩

/-- The facts of a sound contract may be assumed of every move of a run. -/
theorem Contract.Sound.reach_also {L : Contract M} {c₀ c : Config Op Res τ σ} (hL : L.Sound c₀)
    {g : Guard Op τ σ Job} (hg : ∀ (c : Config Op Res τ σ) (m : Move τ Env Job),
      g.Allows c m → L.guard.Allows c m) (h : Reach M g.Allows c₀ c) :
    Reach M (g.also L).Allows c₀ c :=
  hL.reach_also_from hg .refl h

/-- **Induction over the operations of a run.** An assertion `K` on the shared state that holds at
the start and is kept by every operation, every move of the environment and the start of every job,
whenever these meet the guard and another assertion `I` is known of the states reached, holds
throughout the runs. -/
theorem Reach.data {g : Guard Op τ σ Job} {c₀ c : Config Op Res τ σ} {I K : σ → Prop}
    (hI : ∀ c, Reach M g.Allows c₀ c → I c.shared) (h0 : K c₀.shared)
    (hop : ∀ t op s r, I s → K s → g.op t op s → M.exec t op s = some r → K r.2)
    (henv : ∀ e s s', I s → K s → M.env e s = some s' → K s')
    (htake : ∀ j s s', I s → K s → g.job j s → M.take j s = some s' → K s')
    (h : Reach M g.Allows c₀ c) : K c.shared := by
  refine h.keeps h0 ?_ ?_ ?_
  · intro c t op k r hc hm hcode hx hK
    simp only [Guard.Allows, hcode] at hm
    exact hop t op _ r (hI c hc) hK hm hx
  · intro c e s hc _ hx hK
    exact henv e _ s (hI c hc) hK hx
  · intro c j s hc hm hx hK
    exact htake j _ s (hI c hc) hK hm hx

end Interleave
