import KissSmpp.Session.Alone
import Mathlib.Data.List.Chain

/-! # How far apart the throttle keeps the sends

`throttle_check` sleeps until the next send time, and computes the one after that from the clock as it
was before the sleep. A call that has slept is therefore not followed by a full interval: one that comes
at once after it need not wait. -/

namespace KissSmpp

open Interleave

variable {cfg : Params} {t : Tid} {s : Session} {timeBetweenSends : Nat}

/-- `throttle_check`, for any time between sends. -/
def throttleCheckBy (timeBetweenSends : Nat) : Code Unit := do
  let now ← call .clock
  let throttleNextSendTime ← call .getNextSend
  Prog.when (now < throttleNextSendTime) (call (.sleepUntil throttleNextSendTime))
  call (.setNextSend (now + timeBetweenSends))

/-- The session's time between sends is the one `start_session` computes. -/
theorem throttleCheck_eq : throttleCheck cfg = throttleCheckBy cfg.timeBetweenSends := rfl

/-- The pace of a call: how long after the return of the call before it the clock is read, and how much
longer than it has to the call takes from then on. -/
structure Pace where
  pause : Nat
  lag : Nat
  deriving DecidableEq, Repr

/-- When the operations of a call of this pace are performed. -/
def Pace.late (p : Pace) : Op → Nat
  | .clock => p.pause
  | .setNextSend _ => p.lag
  | _ => 0

/-- The moments at which calls of `throttle_check` return, one after the other. -/
def returns (timeBetweenSends : Nat) (cfg : Params) (t : Tid) : List Pace → Session → List Nat
  | [], _ => []
  | p :: ps, s =>
    match (throttleCheckBy timeBetweenSends).run (execTimed p.late cfg t) s with
    | none => []
    | some (_, s') => s'.now :: returns timeBetweenSends cfg t ps s'

/-- What a call makes of the session: the clock at its return, and the next send time. -/
def Session.throttled (s : Session) (timeBetweenSends : Nat) (p : Pace) : Session :=
  { s with
    now := max (s.now + p.pause) s.throttleNextSendTime + p.lag
    throttleNextSendTime := s.now + p.pause + timeBetweenSends }

/-- **A call returns once the next send time has come.** -/
theorem run_throttleCheckBy (hf : s.fault = none) (p : Pace) :
    (throttleCheckBy timeBetweenSends).run (execTimed p.late cfg t) s =
      some ((), s.throttled timeBetweenSends p) := by
  let s₁ : Session := { s with now := s.now + p.pause }
  -- each operation takes the time that the pace gives it
  have hclock : execTimed p.late cfg t .clock s = some (s.now + p.pause, s₁) :=
    execTimed_eq hf (by show max s.now 0 + p.pause = _; omega)
  have hnext : execTimed p.late cfg t .getNextSend s₁ = some (s.throttleNextSendTime, s₁) :=
    execTimed_eq (s := s₁) (n := s₁.now) hf (by show max s₁.now 0 + 0 = s₁.now; omega)
  have hset : ∀ s' : Session, s'.fault = none →
      execTimed p.late cfg t (.setNextSend (s.now + p.pause + timeBetweenSends)) s' =
        some ((), { s' with
          now := s'.now + p.lag
          throttleNextSendTime := s.now + p.pause + timeBetweenSends }) := fun s' hf' =>
    execTimed_eq (n := s'.now + p.lag) hf' (by show max s'.now 0 + p.lag = s'.now + p.lag; omega)
  show ((execTimed p.late cfg t .clock s).bind _) = _
  rw [hclock]
  show ((execTimed p.late cfg t .getNextSend s₁).bind _) = _
  rw [hnext]
  show (Prog.when (decide (s.now + p.pause < s.throttleNextSendTime)) _ >>= _ : Code Unit).run _ s₁ = _
  unfold Session.throttled
  by_cases hlate : s.now + p.pause < s.throttleNextSendTime
  · -- the call sleeps
    let s₂ : Session := { s with now := s.throttleNextSendTime }
    have hmax : max (s.now + p.pause) s.throttleNextSendTime = s.throttleNextSendTime := by omega
    have hsleep : execTimed p.late cfg t (.sleepUntil s.throttleNextSendTime) s₁ =
        some ((), s₂) :=
      (execTimed_eq (s := s₁) (n := s.throttleNextSendTime) hf hmax).trans (if_pos (Nat.le_refl _))
    rw [decide_eq_true hlate, Prog.when_true, hmax]
    show ((execTimed p.late cfg t (.sleepUntil s.throttleNextSendTime) s₁).bind _) = _
    rw [hsleep]
    show ((execTimed p.late cfg t (.setNextSend (s.now + p.pause + timeBetweenSends)) s₂).bind _) = _
    rw [hset s₂ hf]
    rfl
  · -- the time has come already
    have hmax : max (s.now + p.pause) s.throttleNextSendTime = s.now + p.pause := by omega
    rw [decide_eq_false hlate, Prog.when_false, hmax]
    show ((execTimed p.late cfg t (.setNextSend (s.now + p.pause + timeBetweenSends)) s₁).bind _) = _
    rw [hset s₁ hf]
    rfl

/-- **No call that follows a sleep comes too early.** Of every two calls in a row, either the second one
is late enough by its own pace, or it overruns by at least what the first one took, its sleep and its
overrun together. `next` and `now` are the next send time and the clock before the calls. -/
def Unhurried (timeBetweenSends : Nat) : List Pace → (next now : Nat) → Prop
  | p :: q :: ps, next, now =>
      (timeBetweenSends ≤ q.pause + q.lag ∨ next - (now + p.pause) + p.lag ≤ q.lag) ∧
        Unhurried timeBetweenSends (q :: ps) (now + p.pause + timeBetweenSends)
          (max (now + p.pause) next + p.lag)
  | _, _, _ => True

/-- The first of some calls returns. -/
theorem returns_cons (hf : s.fault = none) (p : Pace) (ps : List Pace) :
    returns timeBetweenSends cfg t (p :: ps) s = (s.throttled timeBetweenSends p).now ::
      returns timeBetweenSends cfg t ps (s.throttled timeBetweenSends p) := by
  show (match (throttleCheckBy timeBetweenSends).run (execTimed p.late cfg t) s with
    | none => []
    | some (_, s') => s'.now :: returns timeBetweenSends cfg t ps s') = _
  rw [run_throttleCheckBy hf]

/-- **Two calls in a row.** -/
theorem spaced_pair (p q : Pace) :
    (s.throttled timeBetweenSends p).now + timeBetweenSends ≤
        ((s.throttled timeBetweenSends p).throttled timeBetweenSends q).now ↔
      timeBetweenSends ≤ q.pause + q.lag ∨
        s.throttleNextSendTime - (s.now + p.pause) + p.lag ≤ q.lag := by
  show max (s.now + p.pause) s.throttleNextSendTime + p.lag + timeBetweenSends ≤
    max (max (s.now + p.pause) s.throttleNextSendTime + p.lag + q.pause)
      (s.now + p.pause + timeBetweenSends) + q.lag ↔ _
  omega

/-- **Consecutive calls return at least the time between sends apart if and only if no call that follows
a sleep comes too early.** -/
theorem sends_spaced_iff (hf : s.fault = none) (ps : List Pace) :
    (returns timeBetweenSends cfg t ps s).IsChain (fun r r' => r + timeBetweenSends ≤ r') ↔
      Unhurried timeBetweenSends ps s.throttleNextSendTime s.now := by
  induction ps generalizing s with
  | nil => exact iff_of_true .nil trivial
  | cons p ps ih =>
      rw [returns_cons hf]
      cases ps with
      | nil => exact iff_of_true (.singleton _) trivial
      | cons q ps =>
          have hf' : (s.throttled timeBetweenSends p).fault = none := hf
          have hrest := ih hf'
          rw [returns_cons hf'] at hrest ⊢
          rw [List.isChain_cons_cons, spaced_pair, hrest]
          exact Iff.rfl

/-- Three sends, each a tenth of a second after the other. -/
theorem sends_spaced_iff_unhurried :
    (returns 100000 sampleParams .io [⟨0, 0⟩, ⟨100000, 0⟩, ⟨100000, 0⟩]
        (Session.opened .none 0)).IsChain (fun r r' => r + 100000 ≤ r') ↔
      Unhurried 100000 [⟨0, 0⟩, ⟨100000, 0⟩, ⟨100000, 0⟩] 0 0 :=
  sends_spaced_iff rfl _

/-- Three calls at once, a tenth of a second between sends: the last two return together. -/
theorem burst_not_spaced : ¬∀ (timeBetweenSends : Nat) (cfg : Params) (t : Tid) (s : Session)
    (ps : List Pace), 0 < timeBetweenSends → s.fault = none →
      (returns timeBetweenSends cfg t ps s).IsChain fun r r' => r + timeBetweenSends ≤ r' := by
  intro hevery
  have hburst := hevery 100000 sampleParams .io (Session.opened .none 0) [⟨0, 0⟩, ⟨0, 0⟩, ⟨0, 0⟩]
    (by decide) rfl
  rw [returns_cons rfl, returns_cons rfl, returns_cons rfl] at hburst
  -- the second call sleeps, and the third one does not come later than it returns
  have hlast := (List.isChain_cons_cons.mp (List.isChain_cons_cons.mp hburst).2).1
  revert hlast
  decide

end KissSmpp
