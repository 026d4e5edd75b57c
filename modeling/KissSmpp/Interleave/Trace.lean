import KissSmpp.Interleave.Program

/-! # The operations of a run

`Prog.trace` lists what a program does when it runs alone: its operations, each with the state it finds.
A property of a run that its last state does not show (what was visited, in which order, how often) is a
property of this list. -/

namespace Interleave

variable {Op : Type} {Res : Op → Type} {α β σ : Type}

/-- **The operations of a run**, each with the state it finds; the last one may be blocked. -/
def Prog.trace (exec : (op : Op) → σ → Option (Res op × σ)) : Prog Op Res α → σ → List (Op × σ)
  | .ret _, _ => []
  | .step op k, s =>
      (op, s) :: match exec op s with
        | none => []
        | some r => (k r.1).trace exec r.2

variable {exec : (op : Op) → σ → Option (Res op × σ)} {s s' : σ}

/-- Running a sequence. -/
theorem Prog.run_bind (p : Prog Op Res α) (f : α → Prog Op Res β) (s : σ) :
    (p >>= f).run exec s = (p.run exec s).bind fun r => (f r.1).run exec r.2 := by
  induction p generalizing s with
  | ret a => rfl
  | step op k ih =>
      show (exec op s).bind (fun r => (k r.1 >>= f).run exec r.2) =
        ((exec op s).bind fun r => (k r.1).run exec r.2).bind _
      rw [Option.bind_assoc]
      exact congrArg _ (funext fun r => ih r.1 r.2)

/-- The first part of a sequence runs through if the sequence does. -/
theorem Prog.run_bind_eq_some {p : Prog Op Res α} {f : α → Prog Op Res β} {b : β}
    (h : (p >>= f).run exec s = some (b, s')) :
    ∃ a s₁, p.run exec s = some (a, s₁) ∧ (f a).run exec s₁ = some (b, s') := by
  rw [run_bind] at h
  obtain ⟨⟨a, s₁⟩, hp, hf⟩ := Option.bind_eq_some_iff.mp h
  exact ⟨a, s₁, hp, hf⟩

/-- One operation, then the rest. -/
theorem Prog.trace_step {op : Op} {k : Res op → Prog Op Res α} {r : Res op × σ}
    (hx : exec op s = some r) :
    (Prog.step op k).trace exec s = (op, s) :: (k r.1).trace exec r.2 := by
  rw [Prog.trace, hx]

/-- The first operation is one of them. -/
theorem Prog.mem_trace_step {op : Op} {k : Res op → Prog Op Res α} :
    (op, s) ∈ (Prog.step op k).trace exec s := by
  rw [Prog.trace]
  exact List.mem_cons_self

/-- **The operations of a sequence** are those of its parts. -/
theorem Prog.trace_bind {p : Prog Op Res α} {f : α → Prog Op Res β} {a : α}
    (h : p.run exec s = some (a, s')) :
    (p >>= f).trace exec s = p.trace exec s ++ (f a).trace exec s' := by
  induction p generalizing s with
  | ret b =>
      cases h
      rfl
  | step op k ih =>
      obtain ⟨r, hx, hrest⟩ := Option.bind_eq_some_iff.mp h
      show (Prog.step op fun b => k b >>= f).trace exec s = _
      rw [trace_step hx, trace_step hx, ih r.1 hrest]
      rfl

variable (exec) in
/-- **What every operation of a program keeps holds at each of them**, and at the end. -/
theorem Prog.Uses.keeps {S : Op → Prop} {I : σ → Prop} {p : Prog Op Res α} (hp : p.Uses S)
    (hI : ∀ op s r, S op → I s → exec op s = some r → I r.2) (hs : I s) :
    (∀ x ∈ p.trace exec s, S x.1 ∧ I x.2) ∧ ∀ a s', p.run exec s = some (a, s') → I s' := by
  induction p generalizing s with
  | ret b =>
      refine ⟨fun x hx => absurd hx List.not_mem_nil, fun a s' h => ?_⟩
      cases h
      exact hs
  | step op k ih =>
      cases hx : exec op s with
      | none =>
          refine ⟨fun x hmem => ?_, fun a s' h => ?_⟩
          · rw [Prog.trace, hx] at hmem
            rw [List.mem_singleton.mp hmem]
            exact ⟨hp.1, hs⟩
          · have h : (exec op s).bind _ = some (a, s') := h
            rw [hx] at h
            cases h
      | some r =>
          obtain ⟨htrace, hrun⟩ := ih r.1 (hp.2 r.1) (hI op s r hp.1 hs hx)
          refine ⟨fun x hmem => ?_, fun a s' h => ?_⟩
          · rw [trace_step hx] at hmem
            rcases List.mem_cons.mp hmem with rfl | hmem
            · exact ⟨hp.1, hs⟩
            · exact htrace x hmem
          · have h : (exec op s).bind (fun r => (k r.1).run exec r.2) = some (a, s') := h
            rw [hx] at h
            exact hrun a s' h

end Interleave
