import KissSmpp.Interleave.Deadlock
import KissSmpp.Interleave.Program
import Mathlib.Data.DFinsupp.WellFounded
import Mathlib.SetTheory.Cardinal.Order

/-! # Coming to rest

The code of a job is a well-founded tree, so the threads of a system cannot go on forever without taking up new
jobs. `Reach.rest` makes use of it: if, wherever a thread has something left to run, some thread can be made to
perform its next operation while the code of the others stays, then every configuration leads to one in which
all threads are idle. `exists_unblocked` finds a thread that does not wait for a mutex, from the order in which
threads wait for each other. -/

namespace Interleave

variable {Op : Type} {Res : Op → Type} {τ σ Env Job : Type} {α : Type}

/-! ## What is left to run -/

/-- `q` is what is left of `p` after its first operation. -/
inductive Prog.Rest : Prog Op Res α → Prog Op Res α → Prop
  | after (op : Op) (k : Res op → Prog Op Res α) (b : Res op) : Rest (k b) (.step op k)

/-- A program does not go on forever. -/
theorem Prog.wf_rest : WellFounded (Prog.Rest : Prog Op Res α → Prog Op Res α → Prop) := by
  refine ⟨fun p => ?_⟩
  induction p with
  | ret a => exact ⟨_, fun q hq => by cases hq⟩
  | step op k ih =>
      refine ⟨_, fun q hq => ?_⟩
      cases hq with
      | after _ _ b => exact ih b

/-- **One thread has gone on**: its code is what was left after one operation, the code of the others the
same. -/
def Config.WentOn (c' c : Config Op Res τ σ) : Prop :=
  ∃ t, (c'.code t).Rest (c.code t) ∧ ∀ u, u ≠ t → c'.code u = c.code u

/-- The threads of a system do not go on forever. -/
theorem Config.wf_wentOn [Finite τ] :
    WellFounded (Config.WentOn : Config Op Res τ σ → Config Op Res τ σ → Prop) := by
  -- the lexicographic order on the threads' codes, whatever the order of the threads
  have hlex : WellFounded (Pi.Lex WellOrderingRel
      fun {_ : τ} => (Prog.Rest : Prog Op Res Unit → Prog Op Res Unit → Prop)) :=
    Pi.Lex.wellFounded WellOrderingRel fun _ => Prog.wf_rest
  refine Subrelation.wf ?_ (InvImage.wf (fun c : Config Op Res τ σ => c.code) hlex)
  rintro c' c ⟨t, hrest, hother⟩
  exact ⟨t, fun u hu => hother u fun hut => irrefl_of WellOrderingRel t (hut ▸ hu), hrest⟩

/-! ## Rest -/

section

variable [DecidableEq τ]

/-- Nothing is left to run. -/
def Config.AtRest (c : Config Op Res τ σ) : Prop := ∀ t, ∃ a, c.code t = .ret a

/-- **A system comes to rest** if some thread can always be made to go on, unless the system has halted. -/
theorem Reach.rest [Finite τ] {M : System Op Res τ σ Env Job}
    {ok : Config Op Res τ σ → Move τ Env Job → Prop} {halted : Config Op Res τ σ → Prop}
    {I : Config Op Res τ σ → Prop} (hI : ∀ c c', I c → Reach M ok c c' → I c')
    (hgo : ∀ c, I c → ¬halted c → ¬c.AtRest → ∃ c', Reach M ok c c' ∧ c'.WentOn c)
    {c : Config Op Res τ σ} (hc : I c) : ∃ c', Reach M ok c c' ∧ (halted c' ∨ c'.AtRest) := by
  have hwf : WellFounded (Config.WentOn : Config Op Res τ σ → Config Op Res τ σ → Prop) :=
    Config.wf_wentOn
  induction c using hwf.induction with
  | _ c ih =>
      by_cases hhalt : halted c
      · exact ⟨c, .refl, .inl hhalt⟩
      by_cases hrest : c.AtRest
      · exact ⟨c, .refl, .inr hrest⟩
      obtain ⟨c₁, hreach, hwent⟩ := hgo c hc hhalt hrest
      obtain ⟨c', hreach', hend⟩ := ih c₁ hwent (hI c c₁ hc hreach)
      exact ⟨c', hreach.trans hreach', hend⟩

/-- An operation makes its thread go on. -/
theorem Config.wentOn_of_run {M : System Op Res τ σ Env Job} {c c' : Config Op Res τ σ} {t : τ}
    (h : c.move M (.run t) = some c') : c'.WentOn c := by
  obtain ⟨op, k, r, hcode, -, rfl⟩ := Config.of_move_run h
  refine ⟨t, ?_, fun u hu => Function.update_of_ne hu _ _⟩
  rw [hcode]
  show (Function.update c.code t (k r.1) t).Rest _
  rw [Function.update_self]
  exact .after op k r.1

end

/-! ## A thread that does not wait -/

/-- **Somebody does not wait**: if the owner of a requested mutex requests only mutexes above it, the waiting
for a mutex leads to an owner that waits for nobody. -/
theorem exists_unblocked {μ : Type} {requests : τ → μ → Prop} {owner : μ → Option τ} {above : μ → μ → Prop}
    (hwf : WellFounded above)
    (h : ∀ t m u m', requests t m → owner m = some u → requests u m' → above m' m) {t : τ} {m : μ}
    {u : τ} (hm : requests t m) (hown : owner m = some u) :
    ∃ v, (∃ m', owner m' = some v) ∧ ∀ m', requests v m' → owner m' = none := by
  induction m using hwf.induction generalizing t u with
  | _ m ih =>
      by_cases hu : ∀ m', requests u m' → owner m' = none
      · exact ⟨u, ⟨m, hown⟩, hu⟩
      · obtain ⟨m', hu⟩ := not_forall.mp hu
        obtain ⟨hm', hne⟩ := Classical.not_imp.mp hu
        obtain ⟨v, hv⟩ := Option.ne_none_iff_exists'.mp hne
        exact ih m' (h t m u m' hm hown hm') hm' hv

end Interleave
