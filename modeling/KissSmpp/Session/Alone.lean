import KissSmpp.Session.Machine

/-! # A thread that runs alone

What a method does when no other thread gets in between. Its operations take no time then, except that
time passes while it sleeps; `execTimed` lets the environment's time pass before each operation as well. -/

namespace KissSmpp

open Interleave

variable {cfg : Params} {t : Tid} {s : Session}

/-! ## Methods that do not wait -/

/-- The number `next` gives out at this value, and the value it leaves. -/
def issued (v : Nat) : Nat := if v < SequenceNumber.Max then v else SequenceNumber.Max

@[inherit_doc issued] def following (v : Nat) : Nat :=
  if v < SequenceNumber.Max then v + 1 else SequenceNumber.Min

/-- One operation, and the code after it. -/
theorem ends_call {α : Type} {op : Op} {f : op.Res → Code α} {Q : α → Session → Prop}
    {r : op.Res × Session} (hf : s.fault = none) (hx : KissSmpp.perform cfg t op s = some r)
    (h : (f r.1).Ends (exec cfg t) Q r.2) : (call op >>= f).Ends (exec cfg t) Q s :=
  .step ((if_pos hf).trans hx) h

/-- `next`, by a thread that runs alone. -/
theorem ends_seqNumGenNext (hf : s.fault = none) (hfree : s.owner .mMtx = none) :
    seqNumGenNext.Ends (exec cfg t)
      (fun n s' => n = issued s.mVal ∧ s' = { s with mVal := following s.mVal }) s := by
  have howner : Function.update (Function.update s.owner .mMtx (some t)) .mMtx none = s.owner := by
    rw [Function.update_idem, ← hfree, Function.update_eq_self]
  refine ends_call hf (if_pos hfree) (ends_call hf rfl ?_)
  show (ite (s.mVal < SequenceNumber.Max) _ _ : Code Nat).Ends _ _ _
  unfold issued following
  split
  · refine ends_call hf rfl (ends_call hf rfl (.ret ⟨rfl, ?_⟩))
    exact congrArg (fun o => { s with owner := o, mVal := s.mVal + 1 }) howner
  · refine ends_call hf rfl (ends_call hf rfl (.ret ⟨rfl, ?_⟩))
    exact congrArg (fun o => { s with owner := o, mVal := SequenceNumber.Min }) howner

/-! ## Methods that sleep -/

/-- The moment an operation waits for. -/
def Op.wakes : Op → Nat
  | .sleepUntil t' => t'
  | _ => 0

/-- **An operation of a thread that runs alone, in time**: it comes when what it waits for has come, and
`late op` microseconds later than that. -/
def execTimed (late : Op → Nat) (cfg : Params) (t : Tid) (op : Op) (s : Session) :
    Option (op.Res × Session) :=
  exec cfg t op { s with now := max s.now op.wakes + late op }

/-- The operation is performed at the moment `n`. -/
theorem execTimed_eq {late : Op → Nat} {op : Op} {n : Nat} (hf : s.fault = none)
    (hn : max s.now op.wakes + late op = n) :
    execTimed late cfg t op s = perform cfg t op { s with now := n } := by
  unfold execTimed
  rw [hn]
  exact if_pos hf

/-- A thread that runs alone in time does what it can do in the process, while time passes. -/
theorem reach_timed {α : Type} {late : Op → Nat} {p : Code α} {f : α → Code Unit} {c : Machine} {a : α}
    {s' : Session} (hcode : c.code t = p >>= f)
    (hrun : p.run (execTimed late cfg t) c.shared = some (a, s')) :
    Reach (system cfg) Guard.free.Allows c ⟨s', Function.update c.code t (f a)⟩ := by
  obtain ⟨s, code⟩ := c
  have hself : code = Function.update code t (p >>= f) := by
    rw [← hcode, Function.update_eq_self]
  rw [hself, Function.update_idem]
  clear hself hcode
  induction p generalizing s with
  | ret b =>
      cases hrun
      exact .refl
  | step op k ih =>
      obtain ⟨r, hx, hrest⟩ := Option.bind_eq_some_iff.mp hrun
      -- first the time passes, then the operation is performed
      let us := max s.now op.wakes + late op - s.now
      let s₁ : Session := { s with now := max s.now op.wakes + late op }
      have hnow : s.now + us = max s.now op.wakes + late op := by
        show s.now + (max s.now op.wakes + late op - s.now) = _
        omega
      have helapse : Config.move (system cfg) ⟨s, Function.update code t (.step op k >>= f)⟩
          (.env (.elapse us)) = some ⟨s₁, Function.update code t (.step op k >>= f)⟩ :=
        congrArg (fun n => some (⟨{ s with now := n }, _⟩ : Machine)) hnow
      refine (Reach.refl.next (.env (.elapse us)) (Guard.free_allows _ _) helapse).trans ?_
      have hop := reach_op (M := system cfg) op (fun b => k b >>= f) code (t := t)
        (fun c => Guard.free_allows c _) hx
      exact hop.trans (ih r.1 r.2 hrest)

end KissSmpp
