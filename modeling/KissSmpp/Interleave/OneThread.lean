import KissSmpp.Interleave.RelyGuarantee

/-! # Contracts about one thread

Often a property needs the code of one thread only: of the others it is enough to know what a single
operation of theirs can do. A `Focus` is a contract of that kind. Its obligations on the steps of the
system (`Focus.Steps`) look at one operation at a time, and make every program of the other threads
safe; what remains is one triple for the jobs of the thread in focus. -/

namespace Interleave

variable {Op : Type} {Res : Op → Type} {τ σ Env Job : Type}
variable {α : Type}

/-- **A contract about one thread.** -/
structure Focus (M : System Op Res τ σ Env Job) where
  /-- The thread in focus. -/
  thread : τ
  /-- The guard on the moves of the runs considered. -/
  guard : Guard Op τ σ Job
  /-- The global invariant. -/
  inv : σ → Prop
  /-- What is known of the state in which the thread performs `op`. -/
  fact : Op → σ → Prop
  /-- What may happen to the state between two operations of the thread. -/
  rely : σ → σ → Prop
  /-- What holds whenever the thread is idle. -/
  idle : σ → Prop
  rely_refl : ∀ s, rely s s
  rely_trans : ∀ s₁ s₂ s₃, rely s₁ s₂ → rely s₂ s₃ → rely s₁ s₃

namespace Focus

variable {M : System Op Res τ σ Env Job} (F : Focus M)

/-- The contract that asks nothing of the other threads. -/
def contract : Contract M where
  guard := F.guard
  inv := F.inv
  fact t op s := t = F.thread → F.fact op s
  rely t s s' := t = F.thread → F.rely s s'
  idle t s := t = F.thread → F.idle s
  rely_refl _ s _ := F.rely_refl s
  rely_trans _ s₁ s₂ s₃ h h' ht := F.rely_trans s₁ s₂ s₃ (h ht) (h' ht)

/-- **The obligations on single steps**: every operation that meets the guard keeps the invariant, and
one of another thread stays within what the thread in focus relies on; likewise for the environment
and the start of jobs. -/
structure Steps : Prop where
  op : ∀ t op s r, F.inv s → F.guard.op t op s → M.exec t op s = some r →
    F.inv r.2 ∧ (t ≠ F.thread → F.rely s r.2)
  env : ∀ e s s', F.inv s → M.env e s = some s' → F.inv s' ∧ F.rely s s'
  take : ∀ j s s', F.inv s → F.guard.job j s → M.take j s = some s' →
    F.inv s' ∧ (M.thread j ≠ F.thread → F.rely s s')

variable {F}

/-- An assertion is stable if what the thread relies on keeps it. -/
theorem stable {P : σ → Prop} (h : ∀ s s', F.inv s → F.inv s' → F.rely s s' → P s → P s') :
    F.contract.Stable F.thread P :=
  fun s s' hi hP hr hi' => h s s' hi hi' (hr rfl) hP

/-- Whatever another thread runs is safe. -/
theorem Steps.safe_other (hF : F.Steps) {t : τ} (ht : t ≠ F.thread) (p : Prog Op Res Unit) (s : σ) :
    F.contract.Safe t (fun _ => F.contract.idle t) p s := by
  apply Contract.Safe.any _ (fun _ _ hft => absurd hft ht) p s
  intro op s' r hi hg hx
  obtain ⟨hi', hr⟩ := hF.op t op s' r hi hg hx
  exact ⟨fun hft => absurd hft ht, hi', fun _ _ _ => hr ht⟩

/-- A single operation of the thread in focus. -/
theorem Steps.triple_op (hF : F.Steps) {op : Op} {P : σ → Prop} {Q : Res op → σ → Prop}
    (hP : F.contract.Stable F.thread P) (hQ : ∀ b, F.contract.Stable F.thread (Q b))
    (h : ∀ s r, F.inv s → P s → F.guard.op F.thread op s → M.exec F.thread op s = some r →
      F.fact op s ∧ Q r.1 r.2) :
    F.contract.Triple F.thread P (.step op .ret) Q := by
  refine Contract.Triple.op hP hQ fun s r hi hPs hg hx => ?_
  obtain ⟨hf, hQr⟩ := h s r hi hPs hg hx
  exact ⟨⟨fun _ => hf, (hF.op _ op s r hi hg hx).1, fun u hu hft => absurd hft hu⟩, hQr⟩

/-- Code of the thread in focus that keeps an assertion operation by operation. -/
theorem Steps.triple_uses (hF : F.Steps) {S : Op → Prop} {p : Prog Op Res α} {P : σ → Prop}
    (hp : p.Uses S) (hP : F.contract.Stable F.thread P)
    (h : ∀ op s r, S op → F.inv s → P s → F.guard.op F.thread op s →
      M.exec F.thread op s = some r → F.fact op s ∧ P r.2) :
    F.contract.Triple F.thread P p fun _ => P := by
  refine Contract.Triple.uses hp hP fun op s r hS hi hPs hg hx => ?_
  obtain ⟨hf, hPr⟩ := h op s r hS hi hPs hg hx
  exact ⟨⟨fun _ => hf, (hF.op _ op s r hi hg hx).1, fun u hu hft => absurd hft hu⟩, hPr⟩

/-- What every operation of the thread in focus keeps, all its code keeps. -/
theorem Steps.triple_any (hF : F.Steps) {P : σ → Prop} (hP : F.contract.Stable F.thread P)
    (h : ∀ op s r, F.inv s → P s → F.guard.op F.thread op s → M.exec F.thread op s = some r →
      F.fact op s ∧ P r.2) (p : Prog Op Res α) :
    F.contract.Triple F.thread P p fun _ => P :=
  hF.triple_uses p.uses_any hP fun op s r _ => h op s r

variable [DecidableEq τ]

/-- **Soundness of a contract about one thread**: besides the obligations on single steps, the thread
must be idle at the start, and its jobs must lead from idle to idle. -/
theorem Steps.sound (hF : F.Steps) {c₀ : Config Op Res τ σ} (hi : F.inv c₀.shared)
    (hcode : ∃ a, c₀.code F.thread = .ret a) (hidle : F.idle c₀.shared)
    (hstable : F.contract.Stable F.thread F.idle)
    (hjob : ∀ j s s', M.thread j = F.thread → F.inv s → F.idle s → F.guard.job j s →
      M.take j s = some s' →
      F.contract.Safe F.thread (fun _ => F.idle) (M.body j) s') :
    F.contract.Sound c₀ where
  inv_init := hi
  safe_init t := by
    by_cases ht : t = F.thread
    · subst ht
      obtain ⟨a, ha⟩ := hcode
      rw [ha]
      exact fun s hr hi' _ => hstable c₀.shared s hi hidle hr hi'
    · exact hF.safe_other ht _ _
  env e s s' his h := ⟨(hF.env e s s' his h).1, fun _ _ => (hF.env e s s' his h).2⟩
  take j s s' his hid hg h := by
    obtain ⟨hi', hr⟩ := hF.take j s s' his hg h
    refine ⟨hi', fun u hu hft => hr fun hj => hu (hft.trans hj.symm), ?_⟩
    by_cases hj : M.thread j = F.thread
    · have hsafe := hjob j s s' hj his (hid hj) hg h
      rw [← hj] at hsafe
      exact hsafe.mono fun _ _ _ hQ _ => hQ
    · exact hF.safe_other hj _ _

/-- Whenever the thread in focus has nothing left to run, it is idle. -/
theorem reach_idle {c₀ c : Config Op Res τ σ} (hF : F.contract.Sound c₀)
    (h : Reach M F.guard.Allows c₀ c) {a : Unit} (hc : c.code F.thread = .ret a) : F.idle c.shared :=
  hF.reach_idle h hc rfl

end Focus

end Interleave
