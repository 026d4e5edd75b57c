import Mathlib.Logic.Function.Basic

/-! # Programs of atomic operations and their interleavings

A thread's code is a `Prog`: a tree whose nodes are atomic operations on a shared state and whose
branches are the results those operations can give. A `System` says what each operation does, which
moves the environment can make, and which jobs an idle thread can take up. One `Move` of a `Config`
is one operation of one thread, one environment move, or the start of one job, so a run of moves is
an interleaving of the threads at the grain of single operations.

`Reach M ok c₀ c` is reachability by a run each of whose moves meets the condition `ok`; the
conditions used here are `Guard`s, which look at the operation about to run (or the job about to
start) and at the shared state before it. -/

namespace Interleave

/-! ## Programs -/

/-- **Programs over atomic operations** `Op`, where performing `op` gives a `Res op`. -/
inductive Prog (Op : Type) (Res : Op → Type) (α : Type) : Type
  /-- The program has finished with the value `a`. -/
  | ret (a : α)
  /-- Perform `op`, then continue according to its result. -/
  | step (op : Op) (k : Res op → Prog Op Res α)

namespace Prog

variable {Op : Type} {Res : Op → Type} {α β γ : Type}

/-- Sequencing: run the first program, hand its value to the second. -/
def bind : Prog Op Res α → (α → Prog Op Res β) → Prog Op Res β
  | .ret a, f => f a
  | .step op k, f => .step op fun b => (k b).bind f

/-- Programs are sequenced by putting the second at every end of the first. -/
instance : Monad (Prog Op Res) where
  pure := .ret
  bind := bind

/-- A program that returns at once. -/
@[simp] theorem pure_eq_ret (a : α) : (pure a : Prog Op Res α) = .ret a := rfl

/-- What follows a program that returns is given its result. -/
@[simp] theorem ret_bind (a : α) (f : α → Prog Op Res β) : (Prog.ret a >>= f) = f a := rfl

/-- What follows a program that performs an operation waits until the rest is through. -/
@[simp] theorem step_bind (op : Op) (k : Res op → Prog Op Res α) (f : α → Prog Op Res β) :
    (Prog.step op k >>= f) = Prog.step op fun b => k b >>= f := rfl

/-- Sequencing is associative. -/
theorem bind_assoc (p : Prog Op Res α) (f : α → Prog Op Res β) (g : β → Prog Op Res γ) :
    (p >>= f) >>= g = p >>= fun a => f a >>= g := by
  induction p with
  | ret a => rfl
  | step op k ih => exact congrArg (Prog.step op) (funext ih)

/-- A program that only hands on its value. -/
theorem bind_ret (p : Prog Op Res α) : (p >>= Prog.ret) = p := by
  induction p with
  | ret a => rfl
  | step op k ih => exact congrArg (Prog.step op) (funext ih)

/-- Run `p` if the flag is set, otherwise do nothing: `if (b) { p }`. -/
def when (b : Bool) (p : Prog Op Res Unit) : Prog Op Res Unit :=
  if b then p else .ret ()

/-- A condition that holds lets the program run. -/
@[simp] theorem when_true (p : Prog Op Res Unit) : when true p = p := rfl

/-- A condition that fails leaves nothing to run. -/
@[simp] theorem when_false (p : Prog Op Res Unit) : when false p = .ret () := rfl

/-- Every operation the program can come to perform meets `S`. -/
def Uses (S : Op → Prop) : Prog Op Res α → Prop
  | .ret _ => True
  | .step op k => S op ∧ ∀ b, (k b).Uses S

/-- A program that returns uses nothing. -/
@[simp] theorem uses_ret {S : Op → Prop} {a : α} : (Prog.ret a : Prog Op Res α).Uses S := trivial

/-- A program uses its first operation and what the rest uses. -/
@[simp] theorem uses_step {S : Op → Prop} {op : Op} {k : Res op → Prog Op Res α} :
    (Prog.step op k).Uses S ↔ S op ∧ ∀ b, (k b).Uses S := Iff.rfl

/-- A sequence uses what its parts use. -/
theorem Uses.bind {S : Op → Prop} {p : Prog Op Res α} {f : α → Prog Op Res β} (hp : p.Uses S)
    (hf : ∀ a, (f a).Uses S) : (p >>= f).Uses S := by
  induction p with
  | ret a => exact hf a
  | step op k ih => exact ⟨hp.1, fun b => ih b (hp.2 b)⟩

/-- Optional code uses what the code uses. -/
theorem Uses.when {S : Op → Prop} {b : Bool} {p : Prog Op Res Unit} (hp : p.Uses S) :
    (Prog.when b p).Uses S := by
  cases b with
  | true => exact hp
  | false => trivial

/-- A larger set of operations. -/
theorem Uses.mono {S S' : Op → Prop} (hS : ∀ op, S op → S' op) {p : Prog Op Res α}
    (hp : p.Uses S) : p.Uses S' := by
  induction p with
  | ret a => trivial
  | step op k ih => exact ⟨hS op hp.1, fun b => ih b (hp.2 b)⟩

/-- Every program uses some operations. -/
theorem uses_any (p : Prog Op Res α) : p.Uses fun _ => True := by
  induction p with
  | ret a => trivial
  | step op k ih => exact ⟨trivial, ih⟩

/-- Run a program alone, without interference, in the given meaning of the operations. -/
def run {σ : Type} (exec : (op : Op) → σ → Option (Res op × σ)) : Prog Op Res α → σ → Option (α × σ)
  | .ret a, s => some (a, s)
  | .step op k, s => (exec op s).bind fun r => (k r.1).run exec r.2

end Prog

/-! ## Systems and their moves -/

/-- **A system of threads over a shared state** `σ`: what an operation does when a thread performs
it (`none` when it is blocked), what the environment can do to the shared state, and which jobs an
idle thread can take up. -/
structure System (Op : Type) (Res : Op → Type) (τ σ Env Job : Type) where
  /-- One atomic operation of thread `t`. -/
  exec : τ → (op : Op) → σ → Option (Res op × σ)
  /-- One move of the environment. -/
  env : Env → σ → Option σ
  /-- The thread that takes up a job. -/
  thread : Job → τ
  /-- The code of a job. -/
  body : Job → Prog Op Res Unit
  /-- What taking up the job does to the shared state, `none` if the job is not there. -/
  take : Job → σ → Option σ

/-- A configuration: the shared state, and for each thread the code it still has to run. -/
structure Config (Op : Type) (Res : Op → Type) (τ σ : Type) where
  /-- The shared state. -/
  shared : σ
  /-- The rest of each thread's current job. -/
  code : τ → Prog Op Res Unit

/-- One move of a run. -/
inductive Move (τ Env Job : Type)
  /-- Thread `t` performs its next operation. -/
  | run (t : τ)
  /-- The environment moves. -/
  | env (e : Env)
  /-- An idle thread takes up the job `j`. -/
  | start (j : Job)

variable {Op : Type} {Res : Op → Type} {τ σ Env Job : Type}

/-- **The move relation**, as a partial function: `none` when the move is not possible. -/
def Config.move [DecidableEq τ] (M : System Op Res τ σ Env Job) (c : Config Op Res τ σ) :
    Move τ Env Job → Option (Config Op Res τ σ)
  | .run t =>
      match c.code t with
      | .ret _ => none
      | .step op k =>
          (M.exec t op c.shared).map fun r => ⟨r.2, Function.update c.code t (k r.1)⟩
  | .env e => (M.env e c.shared).map fun s => ⟨s, c.code⟩
  | .start j =>
      match c.code (M.thread j) with
      | .ret _ =>
          (M.take j c.shared).map fun s => ⟨s, Function.update c.code (M.thread j) (M.body j)⟩
      | .step _ _ => none

section

variable [DecidableEq τ] {M : System Op Res τ σ Env Job} {c c' : Config Op Res τ σ}

/-- **What a move of a thread is**: its next operation is performed, and the rest of its code is left. -/
theorem Config.of_move_run {t : τ} (h : c.move M (.run t) = some c') :
    ∃ op k r, c.code t = .step op k ∧ M.exec t op c.shared = some r ∧
      c' = ⟨r.2, Function.update c.code t (k r.1)⟩ := by
  unfold Config.move at h
  cases hcode : c.code t with
  | ret a => simp [hcode] at h
  | step op k =>
      simp only [hcode, Option.map_eq_some_iff] at h
      obtain ⟨r, hr, rfl⟩ := h
      exact ⟨op, k, r, rfl, hr, rfl⟩

/-- A move of the environment leaves all code as it is. -/
theorem Config.of_move_env {e : Env} (h : c.move M (.env e) = some c') :
    ∃ s, M.env e c.shared = some s ∧ c' = ⟨s, c.code⟩ := by
  obtain ⟨s, hs, rfl⟩ := Option.map_eq_some_iff.mp h
  exact ⟨s, hs, rfl⟩

/-- A job is taken up by its thread, which has nothing left to run. -/
theorem Config.of_move_start {j : Job} (h : c.move M (.start j) = some c') :
    (∃ a, c.code (M.thread j) = .ret a) ∧ ∃ s, M.take j c.shared = some s ∧
      c' = ⟨s, Function.update c.code (M.thread j) (M.body j)⟩ := by
  unfold Config.move at h
  cases hcode : c.code (M.thread j) with
  | step op k => simp [hcode] at h
  | ret a =>
      simp only [hcode, Option.map_eq_some_iff] at h
      obtain ⟨s, hs, rfl⟩ := h
      exact ⟨⟨a, rfl⟩, s, hs, rfl⟩

end

/-! ## Runs -/

section

variable [DecidableEq τ]

/-- **Reachability** from `c₀` by moves that all meet `ok`. -/
inductive Reach (M : System Op Res τ σ Env Job) (ok : Config Op Res τ σ → Move τ Env Job → Prop)
    (c₀ : Config Op Res τ σ) : Config Op Res τ σ → Prop
  /-- The empty run. -/
  | refl : Reach M ok c₀ c₀
  /-- One more move. -/
  | next {c c' : Config Op Res τ σ} (m : Move τ Env Job) (hc : Reach M ok c₀ c) (hm : ok c m)
      (hstep : c.move M m = some c') : Reach M ok c₀ c'

/-- Runs compose. -/
theorem Reach.trans {M : System Op Res τ σ Env Job}
    {ok : Config Op Res τ σ → Move τ Env Job → Prop} {c₀ c₁ c₂ : Config Op Res τ σ}
    (h₁ : Reach M ok c₀ c₁) (h₂ : Reach M ok c₁ c₂) : Reach M ok c₀ c₂ := by
  induction h₂ with
  | refl => exact h₁
  | next m _ hm hstep ih => exact ih.next m hm hstep

/-- **Induction over the moves of a run**: an assertion on the shared state that holds at the start, and
is kept by every operation, every move of the environment and the start of every job whenever these meet
the condition, holds in every configuration reached. -/
theorem Reach.keeps {M : System Op Res τ σ Env Job}
    {ok : Config Op Res τ σ → Move τ Env Job → Prop} {K : σ → Prop} {c₀ c : Config Op Res τ σ}
    (h0 : K c₀.shared)
    (hop : ∀ c t op k r, Reach M ok c₀ c → ok c (.run t) → c.code t = .step op k →
      M.exec t op c.shared = some r → K c.shared → K r.2)
    (henv : ∀ c e s', Reach M ok c₀ c → ok c (.env e) → M.env e c.shared = some s' → K c.shared → K s')
    (htake : ∀ c j s', Reach M ok c₀ c → ok c (.start j) → M.take j c.shared = some s' →
      K c.shared → K s')
    (h : Reach M ok c₀ c) : K c.shared := by
  induction h with
  | refl => exact h0
  | @next c c' m hc hm hstep ih =>
      cases m with
      | run t =>
          obtain ⟨op, k, r, hcode, hr, rfl⟩ := Config.of_move_run hstep
          exact hop c t op k r hc hm hcode hr ih
      | env e =>
          obtain ⟨s, hs, rfl⟩ := Config.of_move_env hstep
          exact henv c e s hc hm hs ih
      | start j =>
          obtain ⟨-, s, hs, rfl⟩ := Config.of_move_start hstep
          exact htake c j s hc hm hs ih

/-- What is known of every move of a run may be assumed of the moves of the run. -/
theorem Reach.strengthen {M : System Op Res τ σ Env Job}
    {ok ok' : Config Op Res τ σ → Move τ Env Job → Prop} {c₀ c : Config Op Res τ σ}
    (hok : ∀ c m c', Reach M ok c₀ c → ok c m → c.move M m = some c' → ok' c m)
    (h : Reach M ok c₀ c) : Reach M ok' c₀ c := by
  induction h with
  | refl => exact .refl
  | @next c c' m hc hm hstep ih => exact ih.next m (hok c m c' hc hm hstep) hstep

/-- A run under a stronger condition is a run under a weaker one. -/
theorem Reach.mono {M : System Op Res τ σ Env Job}
    {ok ok' : Config Op Res τ σ → Move τ Env Job → Prop} (hok : ∀ c m, ok c m → ok' c m)
    {c₀ c : Config Op Res τ σ} (h : Reach M ok c₀ c) : Reach M ok' c₀ c := by
  induction h with
  | refl => exact .refl
  | next m _ hm hstep ih => exact ih.next m (hok _ _ hm) hstep

end

/-! ## Conditions on the moves of a run -/

/-- **A condition on the moves of a run**: on each operation and on each job, in the shared state in
which it starts. The environment is never constrained. -/
structure Guard (Op τ σ Job : Type) where
  /-- The condition on thread `t` performing `op`. -/
  op : τ → Op → σ → Prop
  /-- The condition on taking up a job. -/
  job : Job → σ → Prop

/-- The guard that allows every move. -/
def Guard.free : Guard Op τ σ Job := ⟨fun _ _ _ => True, fun _ _ => True⟩

/-- The move `m` of the configuration `c` meets the guard. -/
def Guard.Allows (g : Guard Op τ σ Job) (c : Config Op Res τ σ) : Move τ Env Job → Prop
  | .run t =>
      match c.code t with
      | .ret _ => True
      | .step op _ => g.op t op c.shared
  | .env _ => True
  | .start j => g.job j c.shared

/-- The guard on a thread's move is one on its next operation. -/
theorem Guard.allows_run {g : Guard Op τ σ Job} {c : Config Op Res τ σ} {t : τ} {op : Op}
    {k : Res op → Prog Op Res Unit} (hcode : c.code t = .step op k) :
    g.Allows c (.run t : Move τ Env Job) ↔ g.op t op c.shared := by
  simp only [Guard.Allows, hcode]

/-- The free guard allows every move. -/
theorem Guard.free_allows (c : Config Op Res τ σ) (m : Move τ Env Job) :
    (Guard.free : Guard Op τ σ Job).Allows c m := by
  cases m with
  | run t => simp only [Guard.Allows]; split <;> trivial
  | env e => trivial
  | start j => trivial

/-- What meets a guard meets a weaker one. -/
theorem Guard.Allows.mono {g g' : Guard Op τ σ Job} (hop : ∀ t op s, g.op t op s → g'.op t op s)
    (hjob : ∀ j s, g.job j s → g'.job j s) {c : Config Op Res τ σ} {m : Move τ Env Job}
    (h : g.Allows c m) : g'.Allows c m := by
  cases m with
  | run t =>
      simp only [Guard.Allows] at h ⊢
      cases hcode : c.code t with
      | ret a => trivial
      | step op k =>
          rw [hcode] at h
          exact hop t op c.shared h
  | env e => trivial
  | start j => exact hjob j c.shared h

/-- A guard under which thread `t` performs nothing. -/
def Guard.without (g : Guard Op τ σ Job) (t₀ : τ) : Guard Op τ σ Job where
  op t op s := t ≠ t₀ ∧ g.op t op s
  job := g.job

variable [DecidableEq τ]

/-- **A thread that takes up no job performs nothing.** -/
theorem Reach.without {M : System Op Res τ σ Env Job} {g : Guard Op τ σ Job} {t₀ : τ}
    {c₀ c : Config Op Res τ σ} (hjob : ∀ j s, g.job j s → M.thread j ≠ t₀)
    (hcode : c₀.code t₀ = .ret ()) (h : Reach M g.Allows c₀ c) :
    Reach M (g.without t₀).Allows c₀ c ∧ c.code t₀ = .ret () := by
  induction h with
  | refl => exact ⟨.refl, hcode⟩
  | @next c c' m hc hm hstep ih =>
      obtain ⟨hreach, hret⟩ := ih
      cases m with
      | run t =>
          obtain ⟨op, k, r, hct, -, rfl⟩ := Config.of_move_run hstep
          -- the thread has nothing to run, so another one has moved
          have ht : t ≠ t₀ := by
            rintro rfl
            rw [hret] at hct
            cases hct
          refine ⟨hreach.next (.run t) ?_ hstep, (Function.update_of_ne (Ne.symm ht) _ _).trans hret⟩
          exact (Guard.allows_run hct).mpr ⟨ht, (Guard.allows_run hct).mp hm⟩
      | env e =>
          refine ⟨hreach.next (.env e) hm hstep, ?_⟩
          obtain ⟨s, -, rfl⟩ := Config.of_move_env hstep
          exact hret
      | start j =>
          refine ⟨hreach.next (.start j) hm hstep, ?_⟩
          have hj := hjob j c.shared hm
          obtain ⟨-, s, -, rfl⟩ := Config.of_move_start hstep
          exact (Function.update_of_ne (Ne.symm hj) _ _).trans hret

/-- **What a thread still has to run uses what its jobs use.** -/
theorem Reach.uses {M : System Op Res τ σ Env Job}
    {ok : Config Op Res τ σ → Move τ Env Job → Prop} {S : Op → Prop} {t₀ : τ}
    {c₀ c : Config Op Res τ σ} (hjob : ∀ j, M.thread j = t₀ → (M.body j).Uses S)
    (hcode : (c₀.code t₀).Uses S) (h : Reach M ok c₀ c) : (c.code t₀).Uses S := by
  induction h with
  | refl => exact hcode
  | @next c c' m _ _ hstep ih =>
      cases m with
      | run t =>
          obtain ⟨op, k, r, hct, -, rfl⟩ := Config.of_move_run hstep
          -- a step of the thread itself consumes its code, one of another leaves it
          by_cases ht : t₀ = t
          · subst ht
            rw [hct] at ih
            show (Function.update c.code t₀ (k r.1) t₀).Uses S
            rw [Function.update_self]
            exact ih.2 r.1
          · show (Function.update c.code t (k r.1) t₀).Uses S
            rw [Function.update_of_ne ht]
            exact ih
      | env e =>
          obtain ⟨s, -, rfl⟩ := Config.of_move_env hstep
          exact ih
      | start j =>
          obtain ⟨-, s, -, rfl⟩ := Config.of_move_start hstep
          by_cases ht : t₀ = M.thread j
          · subst ht
            show (Function.update c.code _ (M.body j) _).Uses S
            rw [Function.update_self]
            exact hjob j rfl
          · show (Function.update c.code _ (M.body j) t₀).Uses S
            rw [Function.update_of_ne ht]
            exact ih

/-! ## Running a thread alone -/

/-- An idle thread takes up a job that is there. -/
theorem Config.move_start {M : System Op Res τ σ Env Job} {c : Config Op Res τ σ} {j : Job} {s : σ}
    (hidle : c.code (M.thread j) = .ret ()) (htake : M.take j c.shared = some s) :
    c.move M (.start j) = some ⟨s, Function.update c.code (M.thread j) (M.body j)⟩ := by
  simp only [Config.move, hidle, htake, Option.map_some]

/-- A thread performs its next operation. -/
theorem reach_op {M : System Op Res τ σ Env Job}
    {ok : Config Op Res τ σ → Move τ Env Job → Prop} {t : τ} (op : Op)
    (k : Res op → Prog Op Res Unit) (code : τ → Prog Op Res Unit) {s : σ} {r : Res op × σ}
    (hok : ∀ c, ok c (.run t)) (hx : M.exec t op s = some r) :
    Reach M ok ⟨s, Function.update code t (.step op k)⟩ ⟨r.2, Function.update code t (k r.1)⟩ := by
  refine Reach.refl.next (.run t) (hok _) ?_
  simp only [Config.move, Function.update_self, hx, Option.map_some, Function.update_idem]

/-- **A thread can be left to run alone**: if the first part of its code runs through, and the moves of
the thread meet the condition, then the rest is reached, with the other threads where they were. -/
theorem reach_run {M : System Op Res τ σ Env Job}
    {ok : Config Op Res τ σ → Move τ Env Job → Prop} {t : τ} {p : Prog Op Res α}
    {f : α → Prog Op Res Unit} {c : Config Op Res τ σ} {a : α} {s : σ}
    (hok : ∀ c, ok c (.run t)) (hcode : c.code t = p >>= f)
    (hrun : p.run (M.exec t) c.shared = some (a, s)) :
    Reach M ok c ⟨s, Function.update c.code t (f a)⟩ := by
  obtain ⟨s₀, code⟩ := c
  have hself : code = Function.update code t (p >>= f) := by
    rw [← hcode, Function.update_eq_self]
  rw [hself, Function.update_idem]
  clear hself hcode
  induction p generalizing s₀ with
  | ret b =>
      cases hrun
      exact .refl
  | step op k ih =>
      obtain ⟨r, hx, hrest⟩ := Option.bind_eq_some_iff.mp hrun
      exact (reach_op _ _ _ hok hx).trans (ih r.1 r.2 hrest)

/-- The program runs through alone from `s`, and ends in `Q`. -/
def Prog.Ends (exec : (op : Op) → σ → Option (Res op × σ)) (Q : α → σ → Prop) (p : Prog Op Res α)
    (s : σ) : Prop := ∃ a s', p.run exec s = some (a, s') ∧ Q a s'

section

variable {α : Type} {exec : (op : Op) → σ → Option (Res op × σ)} {s s' : σ}

/-- A program that has finished. -/
theorem Prog.Ends.ret {Q : α → σ → Prop} {a : α} (h : Q a s) :
    (Prog.ret a : Prog Op Res α).Ends exec Q s := ⟨a, s, rfl, h⟩

/-- One operation, and then the rest. -/
theorem Prog.Ends.step {Q : α → σ → Prop} {op : Op} {k : Res op → Prog Op Res α} {b : Res op}
    (hx : exec op s = some (b, s')) (h : (k b).Ends exec Q s') : (Prog.step op k).Ends exec Q s := by
  obtain ⟨a, s'', hrun, hQ⟩ := h
  exact ⟨a, s'', by rw [Prog.run, hx]; exact hrun, hQ⟩

/-- Sequencing. -/
theorem Prog.Ends.bind {β : Type} {Q : α → σ → Prop} {R : β → σ → Prop} {p : Prog Op Res α}
    {f : α → Prog Op Res β} (h : p.Ends exec Q s) (hf : ∀ a s, Q a s → (f a).Ends exec R s) :
    (p >>= f).Ends exec R s := by
  obtain ⟨a, s₁, hrun, hQ⟩ := h
  induction p generalizing s with
  | ret b =>
      cases hrun
      exact hf _ _ hQ
  | step op k ih =>
      obtain ⟨r, hx, hrest⟩ := Option.bind_eq_some_iff.mp hrun
      exact .step hx (ih r.1 hrest)

end

/-- A thread whose code runs through alone comes to its end. -/
theorem reach_ends {M : System Op Res τ σ Env Job}
    {ok : Config Op Res τ σ → Move τ Env Job → Prop} {t : τ} {p : Prog Op Res α}
    {f : α → Prog Op Res Unit} {Q : α → σ → Prop} {c : Config Op Res τ σ}
    (hok : ∀ c, ok c (.run t)) (hcode : c.code t = p >>= f) (h : p.Ends (M.exec t) Q c.shared) :
    ∃ a s, Q a s ∧ Reach M ok c ⟨s, Function.update c.code t (f a)⟩ := by
  obtain ⟨a, s, hrun, hQ⟩ := h
  exact ⟨a, s, hQ, reach_run hok hcode hrun⟩

/-! ## Playing a schedule -/

/-- Play a schedule, passing over the moves that are not possible when their turn comes. -/
def Config.play (M : System Op Res τ σ Env Job) (c : Config Op Res τ σ) :
    List (Move τ Env Job) → Config Op Res τ σ
  | [] => c
  | m :: ms =>
      match c.move M m with
      | none => c.play M ms
      | some c' => c'.play M ms

/-- What a schedule leads to is reachable. -/
theorem reach_play (M : System Op Res τ σ Env Job) (c : Config Op Res τ σ)
    (ms : List (Move τ Env Job)) :
    Reach M (Guard.free : Guard Op τ σ Job).Allows c (c.play M ms) := by
  induction ms generalizing c with
  | nil => exact .refl
  | cons m ms ih =>
      unfold Config.play
      cases hm : c.move M m with
      | none => exact ih c
      | some c' => exact (Reach.refl.next m (Guard.free_allows c m) hm).trans (ih c')

/-- **A schedule under a condition**: every move of it that is possible meets `ok`. -/
def Config.Meets (M : System Op Res τ σ Env Job) (ok : Config Op Res τ σ → Move τ Env Job → Prop)
    (c : Config Op Res τ σ) : List (Move τ Env Job) → Prop
  | [] => True
  | m :: ms =>
      match c.move M m with
      | none => c.Meets M ok ms
      | some c' => ok c m ∧ c'.Meets M ok ms

/-- What such a schedule leads to is reachable under the condition. -/
theorem reach_play_of_meets {M : System Op Res τ σ Env Job}
    {ok : Config Op Res τ σ → Move τ Env Job → Prop} {c : Config Op Res τ σ}
    {ms : List (Move τ Env Job)} (h : c.Meets M ok ms) : Reach M ok c (c.play M ms) := by
  induction ms generalizing c with
  | nil => exact .refl
  | cons m ms ih =>
      unfold Config.Meets at h
      unfold Config.play
      cases hstep : c.move M m with
      | none =>
          rw [hstep] at h
          exact ih h
      | some c' =>
          rw [hstep] at h
          exact (Reach.refl.next m h.1 hstep).trans (ih h.2)

/-! ## Deciding whether a schedule meets a guard -/

/-- The conditions of the guard can be evaluated. -/
class Guard.Checkable (g : Guard Op τ σ Job) where
  op : ∀ t op s, Decidable (g.op t op s)
  job : ∀ j s, Decidable (g.job j s)

/-- Whether a guard allows a move is decidable if it is for operations and jobs. -/
instance (g : Guard Op τ σ Job) [h : g.Checkable] (c : Config Op Res τ σ) :
    (m : Move τ Env Job) → Decidable (g.Allows c m)
  | .run t =>
      match hcode : c.code t with
      | .ret _ => isTrue (by simp only [Guard.Allows, hcode])
      | .step op _ =>
          haveI := h.op t op c.shared
          decidable_of_iff (g.op t op c.shared) (by simp only [Guard.Allows, hcode])
  | .env _ => isTrue trivial
  | .start j => h.job j c.shared

/-- Whether a schedule meets a condition is decidable, by running it. -/
instance Config.decidableMeets (M : System Op Res τ σ Env Job)
    (ok : Config Op Res τ σ → Move τ Env Job → Prop) [∀ c m, Decidable (ok c m)]
    (c : Config Op Res τ σ) : (ms : List (Move τ Env Job)) → Decidable (c.Meets M ok ms)
  | [] => isTrue trivial
  | m :: ms =>
      match hstep : c.move M m with
      | none =>
          haveI := decidableMeets M ok c ms
          decidable_of_iff (c.Meets M ok ms) (by rw [Config.Meets, hstep])
      | some c' =>
          haveI := decidableMeets M ok c' ms
          decidable_of_iff (ok c m ∧ c'.Meets M ok ms) (by rw [Config.Meets, hstep])

end Interleave
