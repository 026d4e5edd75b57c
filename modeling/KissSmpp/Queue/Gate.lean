import Mathlib.Logic.Relation

/-! # Gates

A gate lets its callers pass one at a time and keeps a moment before which the next one should not pass.
Who wants to pass reads the clock, is told that moment, waits for it unless it has come, moves it to one
`interval` after the clock *as it was read*, and passes.

Because the clock is read before the wait, a caller who has waited leaves the next one nothing to wait for,
so that two may pass at once. `Steps.spaced` is what the gate does guarantee: from one passage to the next
but one an interval elapses, and so at most two pass in each interval, in whatever window of time. -/

namespace Queue

open Relation

/-- **How far the caller has got** who is about to pass. -/
inductive Gate.Stage
  | idle
  /-- The clock was read as `a`. -/
  | read (a : Nat)
  /-- The next passage was to be at `n`. -/
  | told (a n : Nat)
  /-- That moment has come. -/
  | rested (a : Nat)
  /-- The one after that has been set. -/
  | ready
  deriving DecidableEq

/-- **A gate**: the clock, the moment of the next passage, how many have passed, and where the caller
stands. -/
structure Gate where
  now : Nat
  next : Nat
  passed : Nat
  stage : Gate.Stage

namespace Gate

variable {interval : Nat}

/-- **What can happen at a gate.** -/
inductive Step (interval : Nat) : Gate → Gate → Prop
  /-- Time passes. -/
  | elapse (now n p : Nat) (st : Stage) (d : Nat) : Step interval ⟨now, n, p, st⟩ ⟨now + d, n, p, st⟩
  /-- The clock is read. -/
  | read (now n p : Nat) : Step interval ⟨now, n, p, .idle⟩ ⟨now, n, p, .read now⟩
  /-- The caller asks for the moment of the next passage. -/
  | ask (now n p a : Nat) : Step interval ⟨now, n, p, .read a⟩ ⟨now, n, p, .told a n⟩
  /-- That moment has come, be it after a wait or at once. -/
  | rest (now n p a m : Nat) (h : m ≤ now) : Step interval ⟨now, n, p, .told a m⟩ ⟨now, n, p, .rested a⟩
  /-- The moment of the next passage is set, an interval after the time that was read. -/
  | set (now n p a : Nat) : Step interval ⟨now, n, p, .rested a⟩ ⟨now, a + interval, p, .ready⟩
  /-- The caller passes. -/
  | pass (now n p : Nat) : Step interval ⟨now, n, p, .ready⟩ ⟨now, n, p + 1, .idle⟩

/-- A run of a gate. -/
abbrev Steps (interval : Nat) : Gate → Gate → Prop := ReflTransGen (Step interval)

/-! ## Spacing -/

/-- What is known of the caller, when `goal` is the moment that the passages so far call for; `odd` says
that a passage has been followed by no other, so that the one to come starts a new interval. -/
def Stage.Spaced (goal interval now next : Nat) (odd : Prop) : Stage → Prop
  | .idle => True
  | .read a => odd → goal ≤ a
  | .told a n => (odd → goal ≤ a) ∧ (¬odd → goal ≤ max now n)
  | .rested a => goal ≤ now ∧ (odd → goal ≤ a)
  | .ready => goal ≤ now ∧ (odd → goal + interval ≤ next)

/-- **The invariant**, `k` passages after the moment `start`: half as many intervals have elapsed, or are
to elapse before the next passage; and the caller's clock readings are in keeping with that. -/
structure Spaced (interval start k : Nat) (g : Gate) : Prop where
  late : start + (k - 1) / 2 * interval ≤ g.now
  due : k % 2 = 0 → start + k / 2 * interval ≤ max g.now g.next
  stage : g.stage.Spaced (start + k / 2 * interval) interval g.now g.next (k % 2 = 1)

variable {start k : Nat} {g g' : Gate}

/-- After an odd number of passages the last one was in time. -/
theorem Spaced.odd (h : Spaced interval start k g) (hk : k % 2 = 1) : start + k / 2 * interval ≤ g.now := by
  have hhalf : k / 2 = (k - 1) / 2 := by omega
  rw [hhalf]
  exact h.late

/-- **Every step keeps the invariant**, if the passages are counted. -/
theorem Step.spaced (h : Step interval g g') (hg : Spaced interval start k g) :
    Spaced interval start (k + (g'.passed - g.passed)) g' := by
  obtain ⟨hlate, hdue, hstage⟩ := id hg
  cases h with
  -- time only helps
  | elapse now n p st d =>
      rw [Nat.sub_self, Nat.add_zero]
      refine ⟨Nat.le_trans hlate (Nat.le_add_right _ _), fun hk => ?_, ?_⟩
      · have hdue : start + k / 2 * interval ≤ max now n := hdue hk
        show start + k / 2 * interval ≤ max (now + d) n
        omega
      · cases st with
        | idle => trivial
        | read a => exact hstage
        | told a m =>
            refine ⟨hstage.1, fun hk => ?_⟩
            have hdue : start + k / 2 * interval ≤ max now m := hstage.2 hk
            show start + k / 2 * interval ≤ max (now + d) m
            omega
        | rested a => exact ⟨Nat.le_trans hstage.1 (Nat.le_add_right _ _), hstage.2⟩
        | ready => exact ⟨Nat.le_trans hstage.1 (Nat.le_add_right _ _), hstage.2⟩
  | read now n p =>
      rw [Nat.sub_self, Nat.add_zero]
      exact ⟨hlate, hdue, hg.odd⟩
  | ask now n p a =>
      rw [Nat.sub_self, Nat.add_zero]
      exact ⟨hlate, hdue, hstage, fun hk => hdue (by omega)⟩
  -- after the rest the clock is at the next send time at least
  | rest now n p a m hm =>
      rw [Nat.sub_self, Nat.add_zero]
      refine ⟨hlate, hdue, ?_, hstage.1⟩
      by_cases hk : k % 2 = 1
      · exact hg.odd hk
      · have hrest : start + k / 2 * interval ≤ max now m := hstage.2 hk
        show start + k / 2 * interval ≤ now
        omega
  | set now n p a =>
      rw [Nat.sub_self, Nat.add_zero]
      refine ⟨hlate, fun _ => Nat.le_trans hstage.1 (Nat.le_max_left _ _), hstage.1, fun hk => ?_⟩
      exact Nat.add_le_add_right (hstage.2 hk) interval
  | pass now n p =>
      have hone : p + 1 - p = 1 := by omega
      show Spaced interval start (k + (p + 1 - p)) _
      rw [hone]
      refine ⟨?_, fun hk => ?_, trivial⟩
      · rw [Nat.add_sub_cancel]
        exact hstage.1
      · -- the second passage of a pair: its clock was read after the first
        have hnext : start + k / 2 * interval + interval ≤ n := hstage.2 (by omega)
        have hhalf : (k + 1) / 2 = k / 2 + 1 := by omega
        show start + (k + 1) / 2 * interval ≤ max now n
        rw [hhalf, Nat.succ_mul]
        omega

/-- Passages are only counted up. -/
theorem Step.passed_le (h : Step interval g g') : g.passed ≤ g'.passed := by
  cases h <;> simp

/-- Passages through the gate are not taken back. -/
theorem Steps.passed_le (h : Steps interval g g') : g.passed ≤ g'.passed := by
  induction h with
  | refl => exact Nat.le_refl _
  | tail _ hstep ih => exact Nat.le_trans ih hstep.passed_le

/-- Whatever the caller is about, nothing is owed at the start. -/
theorem spaced_start (g : Gate) : Spaced interval g.now 0 g := by
  have hgoal : g.now + 0 / 2 * interval = g.now := by simp
  refine ⟨by simp, fun _ => by rw [hgoal]; exact Nat.le_max_left _ _, ?_⟩
  rw [hgoal]
  cases g.stage with
  | idle => trivial
  | read a => exact fun h => absurd h (by decide)
  | told a n => exact ⟨fun h => absurd h (by decide), fun _ => Nat.le_max_left _ _⟩
  | rested a => exact ⟨Nat.le_refl _, fun h => absurd h (by decide)⟩
  | ready => exact ⟨Nat.le_refl _, fun h => absurd h (by decide)⟩

/-- **At most two pass in each interval**: in a run in which `k` pass, half of the `k - 1` intervals
between them elapse, rounded down. -/
theorem Steps.spaced (h : Steps interval g g') :
    g.now + (g'.passed - g.passed - 1) / 2 * interval ≤ g'.now := by
  have hrun : Spaced interval g.now (g'.passed - g.passed) g' := by
    induction h with
    | refl =>
        rw [Nat.sub_self]
        exact spaced_start g
    | @tail g₁ g₂ hrun hstep ih =>
        have hcount : g₂.passed - g.passed = g₁.passed - g.passed + (g₂.passed - g₁.passed) := by
          have := Steps.passed_le hrun
          have := hstep.passed_le
          omega
        rw [hcount]
        exact hstep.spaced ih
  exact hrun.late

end Gate

end Queue
