import KissSmpp.Interleave.RelyGuarantee

/-! # Keeping a record of a run

What has happened in a run cannot always be read off its last configuration. `System.observing` is the
system together with a record of what `note` makes of its operations, given the state they find, the latest
first; the record is a part of the shared state, so that assertions on it are proved like any others. It has
no effect: forgetting it leaves a run of the system (`Reach.forget`), and every run of the system has its
record (`Reach.recorded`). -/

namespace Interleave

variable {Op : Type} {Res : Op → Type} {τ σ Env Job β : Type}

/-- **The system, observed.** -/
def System.observing (M : System Op Res τ σ Env Job) (note : τ → (op : Op) → σ → Res op → Option β) :
    System Op Res τ (σ × List β) Env Job where
  exec t op x := (M.exec t op x.1).map fun r => (r.1, r.2, (note t op x.1 r.1).toList ++ x.2)
  env e x := (M.env e x.1).map fun s => (s, x.2)
  thread := M.thread
  body := M.body
  take j x := (M.take j x.1).map fun s => (s, x.2)

/-- The configuration without its record. -/
def Config.forget (c : Config Op Res τ (σ × List β)) : Config Op Res τ σ := ⟨c.shared.1, c.code⟩

/-- The configuration with a record. -/
def Config.recording (c : Config Op Res τ σ) (l : List β) : Config Op Res τ (σ × List β) :=
  ⟨(c.shared, l), c.code⟩

/-- A guard that does not look at the record. -/
def Guard.unrecorded (g : Guard Op τ σ Job) : Guard Op τ (σ × List β) Job where
  op t op x := g.op t op x.1
  job j x := g.job j x.1

variable {M : System Op Res τ σ Env Job} {note : τ → (op : Op) → σ → Res op → Option β}
  {g g' : Guard Op τ σ Job} {c c' : Config Op Res τ (σ × List β)}

/-- An operation that is observed. -/
theorem System.observing_exec {t : τ} {op : Op} {x : σ × List β} {r : Res op × (σ × List β)}
    (h : (M.observing note).exec t op x = some r) :
    M.exec t op x.1 = some (r.1, r.2.1) ∧ r.2.2 = (note t op x.1 r.1).toList ++ x.2 := by
  obtain ⟨r', hr', rfl⟩ := Option.map_eq_some_iff.mp h
  exact ⟨hr', rfl⟩

/-- A move of the environment of an observed system records nothing. -/
theorem System.observing_env {e : Env} {x x' : σ × List β} (h : (M.observing note).env e x = some x') :
    M.env e x.1 = some x'.1 ∧ x'.2 = x.2 := by
  obtain ⟨s, hs, rfl⟩ := Option.map_eq_some_iff.mp h
  exact ⟨hs, rfl⟩

/-- The start of a job of an observed system records nothing. -/
theorem System.observing_take {j : Job} {x x' : σ × List β} (h : (M.observing note).take j x = some x') :
    M.take j x.1 = some x'.1 ∧ x'.2 = x.2 := by
  obtain ⟨s, hs, rfl⟩ := Option.map_eq_some_iff.mp h
  exact ⟨hs, rfl⟩

/-- The guard looks at the rest of the configuration. -/
theorem Guard.unrecorded_allows {m : Move τ Env Job} : g.unrecorded.Allows c m ↔ g.Allows c.forget m := by
  cases m with
  | run t =>
      unfold Guard.Allows Config.forget
      cases c.code t with
      | ret a => exact Iff.rfl
      | step op k => exact Iff.rfl
  | env e => exact Iff.rfl
  | start j => exact Iff.rfl

variable [DecidableEq τ]

/-- **Moves of an observed system are moves of the system**, once what is recorded is left out. -/
theorem Config.move_forget {m : Move τ Env Job} (h : c.move (M.observing note) m = some c') :
    c.forget.move M m = some c'.forget := by
  cases m with
  | run t =>
      obtain ⟨op, k, r, hcode, hr, rfl⟩ := Config.of_move_run h
      have hcode' : c.forget.code t = .step op k := hcode
      have hr' : M.exec t op c.forget.shared = some (r.1, r.2.1) := (System.observing_exec hr).1
      simp only [Config.move, hcode', hr', Option.map_some]
      rfl
  | env e =>
      obtain ⟨x, hx, rfl⟩ := Config.of_move_env h
      have hx' : M.env e c.forget.shared = some x.1 := (System.observing_env hx).1
      simp only [Config.move, hx', Option.map_some]
      rfl
  | start j =>
      obtain ⟨⟨a, hcode⟩, x, hx, rfl⟩ := Config.of_move_start h
      have hcode' : c.forget.code (M.thread j) = .ret a := hcode
      have hx' : M.take j c.forget.shared = some x.1 := (System.observing_take hx).1
      simp only [Config.move, hcode', hx', Option.map_some]
      rfl

variable (note) in
/-- **Every move of a system is a move of the observed one**, which adds to the record what the move
is noted as. -/
theorem Config.move_recording {c c' : Config Op Res τ σ} {m : Move τ Env Job} (h : c.move M m = some c')
    (l : List β) : ∃ l', (c.recording l).move (M.observing note) m = some (c'.recording l') := by
  cases m with
  | run t =>
      obtain ⟨op, k, r, hcode, hr, rfl⟩ := Config.of_move_run h
      have hcode' : (c.recording l).code t = .step op k := hcode
      have hr' : (M.observing note).exec t op (c.recording l).shared =
          some (r.1, r.2, (note t op c.shared r.1).toList ++ l) := Option.map_eq_some_iff.mpr ⟨r, hr, rfl⟩
      refine ⟨(note t op c.shared r.1).toList ++ l, ?_⟩
      simp only [Config.move, hcode', hr', Option.map_some]
      rfl
  | env e =>
      obtain ⟨s, hs, rfl⟩ := Config.of_move_env h
      have hs' : (M.observing note).env e (c.recording l).shared = some (s, l) :=
        Option.map_eq_some_iff.mpr ⟨s, hs, rfl⟩
      refine ⟨l, ?_⟩
      simp only [Config.move, hs', Option.map_some]
      rfl
  | start j =>
      obtain ⟨⟨a, hcode⟩, s, hs, rfl⟩ := Config.of_move_start h
      have hcode' : (c.recording l).code (M.thread j) = .ret a := hcode
      have hs' : (M.observing note).take j (c.recording l).shared = some (s, l) :=
        Option.map_eq_some_iff.mpr ⟨s, hs, rfl⟩
      refine ⟨l, ?_⟩
      have hthread : (M.observing note).thread j = M.thread j := rfl
      simp only [Config.move, hthread, hcode', hs', Option.map_some]
      rfl

/-- **Forgetting the record** of a run leaves a run. -/
theorem Reach.forget {c₀ : Config Op Res τ (σ × List β)}
    (h : Reach (M.observing note) g.unrecorded.Allows c₀ c) : Reach M g.Allows c₀.forget c.forget := by
  induction h with
  | refl => exact .refl
  | next m _ hm hstep ih => exact ih.next m (Guard.unrecorded_allows.mp hm) (Config.move_forget hstep)

/-- **Every run has its record.** -/
theorem Reach.recorded {c₀ c : Config Op Res τ σ} (h : Reach M g.Allows c₀ c) (l : List β) :
    ∃ l', Reach (M.observing note) g.unrecorded.Allows (c₀.recording l) (c.recording l') := by
  induction h with
  | refl => exact ⟨l, .refl⟩
  | next m _ hm hstep ih =>
      obtain ⟨l₁, hreach⟩ := ih
      obtain ⟨l₂, hstep'⟩ := Config.move_recording note hstep l₁
      exact ⟨l₂, hreach.next m (Guard.unrecorded_allows.mpr hm) hstep'⟩

/-- What is known of every move of a run is known of the moves of a run that is observed. -/
theorem Reach.strengthen_unrecorded {c₀ : Config Op Res τ (σ × List β)}
    (hok : ∀ c m c', Reach M g.Allows c₀.forget c → g.Allows c m → c.move M m = some c' → g'.Allows c m)
    (h : Reach (M.observing note) g.unrecorded.Allows c₀ c) :
    Reach (M.observing note) g'.unrecorded.Allows c₀ c :=
  h.strengthen fun c m _ hc hm hstep => Guard.unrecorded_allows.mpr
    (hok c.forget m _ hc.forget (Guard.unrecorded_allows.mp hm) (Config.move_forget hstep))

end Interleave
