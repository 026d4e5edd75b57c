import KissSmpp.Interleave.Program

/-! # Data races

Two threads race for a datum if each is about to touch it, one of them to write it. There is no race for a
datum that only one thread at a time can be about to touch: the owner of a mutex, or a thread that has the
datum to itself. -/

namespace Interleave

variable {Op : Type} {Res : Op → Type} {τ σ D μ : Type}

/-- **What the operations access** of the data that threads share. -/
structure Accesses (Op D : Type) where
  reads : Op → D → Prop
  writes : Op → D → Prop

/-- The operation reads or writes the datum. -/
def Accesses.touches (A : Accesses Op D) (op : Op) (d : D) : Prop := A.reads op d ∨ A.writes op d

namespace Config

variable (c : Config Op Res τ σ) (A : Accesses Op D)

/-- The thread is about to perform the operation. -/
def IsNext (t : τ) (op : Op) : Prop := ∃ k, c.code t = .step op k

/-- The thread is about to touch the datum. -/
def Touches (t : τ) (d : D) : Prop := ∃ op, c.IsNext t op ∧ A.touches op d

/-- **A race**: two threads are about to touch the datum, one of them to write it. -/
def Race (d : D) : Prop := ∃ t u, t ≠ u ∧ c.Touches A t d ∧ ∃ op, c.IsNext u op ∧ A.writes op d

variable {c A} {d : D}

/-- A thread that is about to write is about to touch. -/
theorem touches_of_writes {u : τ} {op : Op} (hu : c.IsNext u op) (hw : A.writes op d) : c.Touches A u d :=
  ⟨op, hu, .inr hw⟩

/-- **No race for what one thread at a time can touch.** -/
theorem not_race_of_unique {P : τ → Prop} (hP : ∀ t u, P t → P u → t = u)
    (h : ∀ t, c.Touches A t d → P t) : ¬c.Race A d := by
  rintro ⟨t, u, htu, ht, op, hu, hw⟩
  exact htu (hP t u (h t ht) (h u (touches_of_writes hu hw)))

/-- No race for what only the owner of a mutex touches. -/
theorem not_race_of_mutex {owner : μ → Option τ} {m : μ} (h : ∀ t, c.Touches A t d → owner m = some t) :
    ¬c.Race A d :=
  not_race_of_unique (P := fun t => owner m = some t) (fun _ _ ht hu => Option.some.inj (ht.symm.trans hu)) h

/-- No race for what only one thread ever touches. -/
theorem not_race_of_confined {t₀ : τ} (h : ∀ t, c.Touches A t d → t = t₀) : ¬c.Race A d :=
  not_race_of_unique (P := fun t => t = t₀) (fun _ _ ht hu => ht.trans hu.symm) h

end Config

end Interleave
