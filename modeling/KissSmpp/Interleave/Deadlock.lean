import Mathlib.Data.Set.Basic
import Mathlib.Order.WellFounded

/-! # Deadlocks

Threads that request mutexes, and mutexes that have owners: a set of threads is deadlocked if each of
them requests a mutex that another of the set, or the thread itself, owns. None is, if the owner of a
requested mutex only ever requests mutexes above it in a well-founded order. The order need not be the
one in which every thread takes its mutexes: it is asked for only where somebody waits. -/

namespace Interleave

variable {τ μ : Type}

/-- **A deadlocked set of threads**: each requests a mutex owned by one of the set. -/
def Deadlocked (requests : τ → μ → Prop) (owner : μ → Option τ) (S : Set τ) : Prop :=
  S.Nonempty ∧ ∀ t ∈ S, ∃ m, requests t m ∧ ∃ u ∈ S, owner m = some u

/-- **Waiting upwards**: if the owner of a requested mutex requests only mutexes above it, no set of
threads is deadlocked. -/
theorem not_deadlocked {requests : τ → μ → Prop} {owner : μ → Option τ} {above : μ → μ → Prop}
    (hwf : WellFounded above)
    (h : ∀ t m u m', requests t m → owner m = some u → requests u m' → above m' m) (S : Set τ) :
    ¬Deadlocked requests owner S := by
  rintro ⟨⟨t, ht⟩, hS⟩
  obtain ⟨m, hm, u, hu, hown⟩ := hS t ht
  clear ht
  -- from each mutex somebody of the set waits for, the waiting leads to one above it
  induction m using hwf.induction generalizing t u with
  | _ m ih =>
      obtain ⟨m', hm', v, hv, hown'⟩ := hS u hu
      exact ih m' (h t m u m' hm hown hm') u hm' v hv hown'

end Interleave
