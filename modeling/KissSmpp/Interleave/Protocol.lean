import KissSmpp.Interleave.RelyGuarantee

/-! # Protocols

What a thread has done before, and its local variables, cannot be read off the shared state. A
`Protocol` makes up for it: it follows a thread through its own operations and their results, and says
which operation may come next. That a program follows a protocol is a fact about the program alone, with
no interference to consider.

`Reach.protocol` carries it over to runs. Where the threads stand in the protocol is a ghost beside the
shared state, and an invariant may speak of both: it is enough that it is kept by the operations that
the protocol allows. -/

namespace Interleave

variable {Op : Type} {Res : Op → Type} {τ σ Env Job : Type}

/-- **A protocol for the operations of one thread**: which operation is allowed in which position, and
where its result leads. -/
structure Protocol (Op : Type) (Res : Op → Type) (A : Type) where
  /-- The operation is allowed in this position. -/
  allows : A → Op → Prop
  /-- The position after an operation with this result. -/
  next : A → (op : Op) → Res op → A

namespace Prog

variable {A α β : Type} {P : Protocol Op Res A}

/-- **The program follows the protocol** from the position `x`, and leaves a position with `Q`. -/
def Follows (P : Protocol Op Res A) (Q : α → A → Prop) : Prog Op Res α → A → Prop
  | .ret a, x => Q a x
  | .step op k, x => P.allows x op ∧ ∀ b, (k b).Follows P Q (P.next x op b)

/-- Weakening what is known of the last position. -/
theorem Follows.mono {Q Q' : α → A → Prop} (hQ : ∀ a x, Q a x → Q' a x) {p : Prog Op Res α} {x : A}
    (h : p.Follows P Q x) : p.Follows P Q' x := by
  induction p generalizing x with
  | ret a => exact hQ a x h
  | step op k ih => exact ⟨h.1, fun b => ih b (h.2 b)⟩

/-- Sequencing. -/
theorem Follows.bind {Q : α → A → Prop} {R : β → A → Prop} {p : Prog Op Res α}
    {f : α → Prog Op Res β} {x : A} (h : p.Follows P Q x)
    (hf : ∀ a y, Q a y → (f a).Follows P R y) : (p >>= f).Follows P R x := by
  induction p generalizing x with
  | ret a => exact hf a x h
  | step op k ih => exact ⟨h.1, fun b => ih b (h.2 b)⟩

/-- Optional code. -/
theorem Follows.when {Q : Unit → A → Prop} {b : Bool} {p : Prog Op Res Unit} {x : A}
    (h : b = true → p.Follows P Q x) (hskip : b = false → Q () x) : (Prog.when b p).Follows P Q x := by
  cases b with
  | true => exact h rfl
  | false => exact hskip rfl

/-- Code that only uses operations the protocol has nothing to say about leaves the position. -/
theorem Follows.aside {S : Op → Prop} {p : Prog Op Res α} (hp : p.Uses S)
    (hS : ∀ op x, S op → P.allows x op ∧ ∀ b, P.next x op b = x) {Q : A → Prop} {x : A} (hx : Q x) :
    p.Follows P (fun _ => Q) x := by
  induction p with
  | ret a => exact hx
  | step op k ih =>
      obtain ⟨hallow, hnext⟩ := hS op x hp.1
      refine ⟨hallow, fun b => ?_⟩
      rw [hnext b]
      exact ih b (hp.2 b)

/-- Code that only uses operations allowed in the positions with `Q`, and leading from there to such
positions, follows the protocol. -/
theorem Uses.follows {S : Op → Prop} {Q : A → Prop} {p : Prog Op Res α} (hp : p.Uses S)
    (hS : ∀ op x, S op → Q x → P.allows x op ∧ ∀ b, Q (P.next x op b)) {x : A} (hx : Q x) :
    p.Follows P (fun _ => Q) x := by
  induction p generalizing x with
  | ret a => exact hx
  | step op k ih =>
      obtain ⟨hallow, hnext⟩ := hS op x hp.1 hx
      exact ⟨hallow, fun b => ih b (hp.2 b) (hnext b)⟩

end Prog

/-- **Induction along a protocol.** If the code of every job follows the protocol, so does what each
thread still has to run, from some position of its own; and an assertion `K` on the shared state and the
positions that holds at the start and is kept by every operation the protocol allows, by the environment
and by the start of every job, holds then. `I t` is what is known of the position of the thread `t` when
it is idle, `J` what is known of every state reached, and `starts` where a job begins. -/
theorem Reach.protocolFrom [DecidableEq τ] {M : System Op Res τ σ Env Job} {A : Type}
    {P : Protocol Op Res A} {I : τ → A → Prop} {J : σ → Prop} {K : σ → (τ → A) → Prop}
    {g : Guard Op τ σ Job} {c₀ c : Config Op Res τ σ} {x₀ : τ → A} (starts : Job → A → A)
    (hJ : ∀ c, Reach M g.Allows c₀ c → J c.shared)
    (hcode : ∀ t, (c₀.code t).Follows P (fun _ => I t) (x₀ t))
    (hbody : ∀ j x, I (M.thread j) x → (M.body j).Follows P (fun _ => I (M.thread j)) (starts j x))
    (h0 : K c₀.shared x₀)
    (hop : ∀ t op s x r, J s → K s x → g.op t op s → P.allows (x t) op → M.exec t op s = some r →
      K r.2 (Function.update x t (P.next (x t) op r.1)))
    (henv : ∀ e s s' x, J s → K s x → M.env e s = some s' → K s' x)
    (htake : ∀ j s s' x, J s → K s x → g.job j s → M.take j s = some s' →
      K s' (Function.update x (M.thread j) (starts j (x (M.thread j)))))
    (h : Reach M g.Allows c₀ c) :
    ∃ x, K c.shared x ∧ ∀ t, (c.code t).Follows P (fun _ => I t) (x t) := by
  induction h with
  | refl => exact ⟨x₀, h0, hcode⟩
  | @next c c' m hc hm hstep ih =>
      obtain ⟨x, hK, hfol⟩ := ih
      cases m with
      | run t =>
          obtain ⟨op, k, r, hct, hr, rfl⟩ := Config.of_move_run hstep
          have ht := hfol t
          rw [hct] at ht
          -- the thread's position moves along with it, the others stay where they are
          refine ⟨_, hop t op _ x r (hJ c hc) hK ((Guard.allows_run hct).mp hm) ht.1 hr, fun u => ?_⟩
          show (Function.update c.code t (k r.1) u).Follows P _
            (Function.update x t (P.next (x t) op r.1) u)
          by_cases hut : u = t
          · subst hut
            rw [Function.update_self, Function.update_self]
            exact ht.2 r.1
          · rw [Function.update_of_ne hut, Function.update_of_ne hut]
            exact hfol u
      | env e =>
          obtain ⟨s, hs, rfl⟩ := Config.of_move_env hstep
          exact ⟨x, henv e _ s x (hJ c hc) hK hs, hfol⟩
      | start j =>
          obtain ⟨⟨a, hct⟩, s, hs, rfl⟩ := Config.of_move_start hstep
          have hidle := hfol (M.thread j)
          rw [hct] at hidle
          refine ⟨_, htake j _ s x (hJ c hc) hK hm hs, fun u => ?_⟩
          show (Function.update c.code (M.thread j) (M.body j) u).Follows P _
            (Function.update x (M.thread j) (starts j (x (M.thread j))) u)
          by_cases hu : u = M.thread j
          · subst hu
            rw [Function.update_self, Function.update_self]
            exact hbody j _ hidle
          · rw [Function.update_of_ne hu, Function.update_of_ne hu]
            exact hfol u

/-- **Positions over a run, with an invariant to use**: a job begins in the position in which its
thread was left. -/
theorem Reach.protocolWith [DecidableEq τ] {M : System Op Res τ σ Env Job} {A : Type}
    {P : Protocol Op Res A} {I : τ → A → Prop} {J : σ → Prop} {K : σ → (τ → A) → Prop}
    {g : Guard Op τ σ Job} {c₀ c : Config Op Res τ σ} {x₀ : τ → A}
    (hJ : ∀ c, Reach M g.Allows c₀ c → J c.shared)
    (hcode : ∀ t, (c₀.code t).Follows P (fun _ => I t) (x₀ t))
    (hbody : ∀ j x, I (M.thread j) x → (M.body j).Follows P (fun _ => I (M.thread j)) x) (h0 : K c₀.shared x₀)
    (hop : ∀ t op s x r, J s → K s x → g.op t op s → P.allows (x t) op → M.exec t op s = some r →
      K r.2 (Function.update x t (P.next (x t) op r.1)))
    (henv : ∀ e s s' x, J s → K s x → M.env e s = some s' → K s' x)
    (htake : ∀ j s s' x, J s → K s x → g.job j s → M.take j s = some s' → K s' x)
    (h : Reach M g.Allows c₀ c) :
    ∃ x, K c.shared x ∧ ∀ t, (c.code t).Follows P (fun _ => I t) (x t) := by
  refine Reach.protocolFrom (fun _ x => x) hJ hcode hbody h0 hop henv (fun j s s' x hs hK hg hx => ?_) h
  rw [Function.update_eq_self]
  exact htake j s s' x hs hK hg hx

/-- **Positions over a run**: what holds of the state and of where the threads stand holds
throughout, if operations, the environment and the start of a job keep it. -/
theorem Reach.protocol [DecidableEq τ] {M : System Op Res τ σ Env Job} {A : Type}
    {P : Protocol Op Res A} {I : τ → A → Prop} {K : σ → (τ → A) → Prop} {g : Guard Op τ σ Job}
    {c₀ c : Config Op Res τ σ} {x₀ : τ → A} (hcode : ∀ t, (c₀.code t).Follows P (fun _ => I t) (x₀ t))
    (hbody : ∀ j x, I (M.thread j) x → (M.body j).Follows P (fun _ => I (M.thread j)) x) (h0 : K c₀.shared x₀)
    (hop : ∀ t op s x r, K s x → g.op t op s → P.allows (x t) op → M.exec t op s = some r →
      K r.2 (Function.update x t (P.next (x t) op r.1)))
    (henv : ∀ e s s' x, K s x → M.env e s = some s' → K s' x)
    (htake : ∀ j s s' x, K s x → g.job j s → M.take j s = some s' → K s' x)
    (h : Reach M g.Allows c₀ c) :
    ∃ x, K c.shared x ∧ ∀ t, (c.code t).Follows P (fun _ => I t) (x t) :=
  Reach.protocolWith (J := fun _ => True) (fun _ _ => trivial) hcode hbody h0
    (fun t op s x r _ => hop t op s x r) (fun e s s' x _ => henv e s s' x)
    (fun j s s' x _ => htake j s s' x) h

end Interleave
