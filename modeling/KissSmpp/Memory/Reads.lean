import Mathlib.Data.List.Basic

/-! # Reads through a bare pointer

A pointer without a length leads to more cells than it was made for. `Reading` is a computation that
reads such cells and may throw; what it has read is on record even if it throws, so that a bound on its
reads can be stated of it, and proved part by part. -/

namespace Memory

universe u

variable {β ε : Type*} {α γ : Type u}

/-- **The cells from a pointer on**, however many of them are the ones it was made for. -/
abbrev View (β : Type*) := Nat → β

/-- Some cells, `after` and what lies beyond. -/
def View.of (cells : List β) (after : β) (beyond : View β) : View β := fun i =>
  if i < cells.length then cells.getD i after else if i = cells.length then after else beyond i

/-- Which cells have been read. -/
structure Span where
  start : Nat
  size : Nat
  deriving DecidableEq, Repr

/-- **A computation that reads cells**: what it comes to, and what it has read on the way. -/
structure Reading (ε : Type*) (α : Type u) where
  outcome : Except ε α
  reads : List Span

namespace Reading

/-- The reads of the second part follow those of the first. -/
def andThen (x : Reading ε α) (f : α → Reading ε γ) : Reading ε γ :=
  match x.outcome with
  | .ok a => ⟨(f a).outcome, x.reads ++ (f a).reads⟩
  | .error e => ⟨.error e, x.reads⟩

/-- Computations that read are sequenced, with their reads in order. -/
instance : Monad (Reading ε) where
  pure a := ⟨.ok a, []⟩
  bind := andThen

/-- What reads nothing. -/
def lift (x : Except ε α) : Reading ε α := ⟨x, []⟩

/-- Read `size` cells. -/
def read (v : View β) (start size : Nat) : Reading ε (List β) :=
  ⟨.ok ((List.range size).map fun i => v (start + i)), [⟨start, size⟩]⟩

/-- What is given comes out. -/
@[simp] theorem pure_outcome (a : α) : (pure a : Reading ε α).outcome = .ok a := rfl

/-- What needs no cell comes to what it comes to anyway. -/
@[simp] theorem lift_outcome (x : Except ε α) : (lift x).outcome = x := rfl

/-- A read comes to the cells it reads. -/
@[simp] theorem read_outcome (v : View β) (start size : Nat) :
    (read v start size : Reading ε (List β)).outcome = .ok ((List.range size).map fun i => v (start + i)) :=
  rfl

/-- A computation whose first part returns. -/
theorem bind_of_ok {x : Reading ε α} {f : α → Reading ε γ} {a : α} (h : x.outcome = .ok a) :
    x >>= f = ⟨(f a).outcome, x.reads ++ (f a).reads⟩ := by
  show x.andThen f = _
  unfold andThen
  rw [h]

/-- A computation whose first part throws. -/
theorem bind_of_error {x : Reading ε α} {f : α → Reading ε γ} {e : ε} (h : x.outcome = .error e) :
    x >>= f = ⟨.error e, x.reads⟩ := by
  show x.andThen f = _
  unfold andThen
  rw [h]

/-- What it comes to, if its first part returns. -/
theorem bind_outcome {x : Reading ε α} {f : α → Reading ε γ} {a : α} (h : x.outcome = .ok a) :
    (x >>= f).outcome = (f a).outcome := by
  rw [bind_of_ok h]

/-- If the first part of a reading throws, the whole throws the same. -/
theorem bind_outcome_error {x : Reading ε α} {f : α → Reading ε γ} {e : ε} (h : x.outcome = .error e) :
    (x >>= f).outcome = .error e := by
  rw [bind_of_error h]

/-! ## Bounds -/

/-- **All reads are of the first `n` cells.** -/
def Within (n : Nat) (x : Reading ε α) : Prop := ∀ r ∈ x.reads, r.start + r.size ≤ n

variable {n : Nat}

/-- What is given reads no cell. -/
@[simp] theorem within_pure (a : α) : (pure a : Reading ε α).Within n := nofun

/-- What needs no cell reads none. -/
@[simp] theorem within_lift (x : Except ε α) : (lift x).Within n := nofun

/-- A read is within the cells if its end is. -/
@[simp] theorem within_read (v : View β) (start size : Nat) :
    (read v start size : Reading ε (List β)).Within n ↔ start + size ≤ n := by
  simp [Within, read]

/-- **Two parts, of which the first returns.** -/
theorem within_bind {x : Reading ε α} {f : α → Reading ε γ} {a : α} (h : x.outcome = .ok a) :
    (x >>= f).Within n ↔ x.Within n ∧ (f a).Within n := by
  rw [bind_of_ok h]
  constructor
  · intro hall
    exact ⟨fun r hr => hall r (List.mem_append_left _ hr),
      fun r hr => hall r (List.mem_append_right _ hr)⟩
  · rintro ⟨hx, hf⟩ r hr
    exact (List.mem_append.mp hr).elim (hx r) (hf r)

/-- If it throws, the second does not follow. -/
theorem within_bind_error {x : Reading ε α} {f : α → Reading ε γ} {e : ε} (h : x.outcome = .error e) :
    (x >>= f).Within n ↔ x.Within n := by
  rw [bind_of_error h]
  rfl

end Reading

/-! ## Reads of the cells a pointer was made for -/

variable {cells : List β} {after : β} {beyond : View β}

/-- **Within its bounds a read finds the cells.** -/
theorem View.read_of {start size : Nat} (h : start + size ≤ cells.length) :
    (List.range size).map (fun i => View.of cells after beyond (start + i)) =
      (cells.drop start).take size := by
  refine List.ext_getElem ?_ fun i hi hi' => ?_
  · rw [List.length_map, List.length_range, List.length_take, List.length_drop]
    omega
  · rw [List.length_map, List.length_range] at hi
    have hin : start + i < cells.length := by omega
    rw [List.getElem_map, List.getElem_range, List.getElem_take, List.getElem_drop]
    unfold View.of
    rw [if_pos hin]
    exact (List.getElem_eq_getD after).symm

end Memory
