import Mathlib.Data.List.Basic
import Mathlib.Logic.Function.Basic

/-! # Priority queues with a remembered last element

A `PrioQ ι α` keeps one first-in-first-out list for each level `ι`, and remembers the element that
was popped last together with its level, so that it can be put back where it came from. The levels
come with their order of urgency (`Levels`). -/

namespace Queue

/-- The levels of a priority queue, listed from the most urgent on. -/
class Levels (ι : Type) [DecidableEq ι] where
  /-- Every level, the most urgent first. -/
  order : List ι
  mem_order : ∀ i, i ∈ order
  nodup_order : order.Nodup

/-- **A priority queue** with levels `ι` and elements `α`. -/
structure PrioQ (ι α : Type) where
  /-- The elements waiting at each level, the oldest first. -/
  level : ι → List α
  /-- The element popped last, with the level it was popped from. -/
  lastPop : Option (ι × α)

namespace PrioQ

variable {ι α : Type}

/-- The queue with nothing in it. -/
def nil : PrioQ ι α := ⟨fun _ => [], none⟩

/-- An element is in the queue if it waits at some level. -/
def Mem (q : PrioQ ι α) (a : α) : Prop := ∃ i, a ∈ q.level i

/-- An element is in the queue if it is in one of its levels. -/
instance : Membership α (PrioQ ι α) := ⟨Mem⟩

/-- Membership, level by level. -/
theorem mem_def {q : PrioQ ι α} {a : α} : a ∈ q ↔ ∃ i, a ∈ q.level i := Iff.rfl

section

variable [DecidableEq ι]

/-- Append an element at level `i`. -/
def push (q : PrioQ ι α) (a : α) (i : ι) : PrioQ ι α :=
  { q with level := Function.update q.level i (q.level i ++ [a]) }

/-- Remove everything that waits at level `i`. -/
def clear (q : PrioQ ι α) (i : ι) : PrioQ ι α :=
  { q with level := Function.update q.level i [] }

/-- Put the element popped last back at its level, at the head if `front` is set, else at the
tail. -/
def pushBackLastPop (front : Bool) (q : PrioQ ι α) : PrioQ ι α :=
  match q.lastPop with
  | none => q
  | some (i, a) =>
      { q with
        level := Function.update q.level i (if front then a :: q.level i else q.level i ++ [a]) }

/-! ## What each operation does to the contents -/

/-- Pushing does not change what was popped last. -/
@[simp] theorem push_lastPop (q : PrioQ ι α) (a : α) (i : ι) : (q.push a i).lastPop = q.lastPop :=
  rfl

/-- Clearing a level does not change what was popped last. -/
@[simp] theorem clear_lastPop (q : PrioQ ι α) (i : ι) : (q.clear i).lastPop = q.lastPop := rfl

/-- A push adds one element to one level. -/
theorem mem_level_push {q : PrioQ ι α} {a b : α} {i j : ι} :
    b ∈ (q.push a i).level j ↔ b ∈ q.level j ∨ (j = i ∧ b = a) := by
  by_cases h : j = i
  · subst h; simp [push]
  · simp [push, h]

/-- Clearing a level leaves the others. -/
theorem mem_level_clear {q : PrioQ ι α} {b : α} {i j : ι} :
    b ∈ (q.clear i).level j ↔ b ∈ q.level j ∧ j ≠ i := by
  by_cases h : j = i
  · subst h; simp [clear]
  · simp [clear, h]

/-- Pushing back does not change what was popped last. -/
@[simp] theorem pushBackLastPop_lastPop (front : Bool) (q : PrioQ ι α) :
    (q.pushBackLastPop front).lastPop = q.lastPop := by
  unfold pushBackLastPop; split <;> rfl

/-- Putting the last element back adds it to the level it came from. -/
theorem mem_level_pushBackLastPop {front : Bool} {q : PrioQ ι α} {b : α} {j : ι} :
    b ∈ (q.pushBackLastPop front).level j ↔ b ∈ q.level j ∨ q.lastPop = some (j, b) := by
  unfold pushBackLastPop
  split
  · next h => simp [h]
  · next i a h =>
      rw [h, Option.some.injEq, Prod.mk.injEq]
      by_cases hji : j = i
      · subst hji
        show b ∈ Function.update q.level j _ j ↔ _
        rw [Function.update_self, eq_comm (a := a)]
        split
        · rw [List.mem_cons, or_comm]
          simp
        · rw [List.mem_append, List.mem_singleton]
          simp
      · show b ∈ Function.update q.level i _ j ↔ _
        rw [Function.update_of_ne hji]
        exact ⟨.inl, fun h => h.resolve_right fun h => hji h.1.symm⟩

/-- After a push there is what was there, and the element that was pushed. -/
@[simp] theorem mem_push {q : PrioQ ι α} {a b : α} {i : ι} : b ∈ q.push a i ↔ b ∈ q ∨ b = a := by
  simp only [mem_def, mem_level_push]
  constructor
  · rintro ⟨j, hj | ⟨-, rfl⟩⟩
    · exact .inl ⟨j, hj⟩
    · exact .inr rfl
  · rintro (⟨j, hj⟩ | rfl)
    · exact ⟨j, .inl hj⟩
    · exact ⟨i, .inr ⟨rfl, rfl⟩⟩

/-- Clearing a level only removes elements. -/
theorem mem_of_mem_clear {q : PrioQ ι α} {a : α} {i : ι} (h : a ∈ q.clear i) : a ∈ q := by
  obtain ⟨j, hj⟩ := h
  exact ⟨j, (mem_level_clear.mp hj).1⟩

/-- Putting the last element back adds just that element. -/
theorem mem_pushBackLastPop {front : Bool} {q : PrioQ ι α} {b : α} :
    b ∈ q.pushBackLastPop front ↔ b ∈ q ∨ q.lastPop.map Prod.snd = some b := by
  simp only [mem_def, mem_level_pushBackLastPop, Option.map_eq_some_iff]
  constructor
  · rintro ⟨j, hj | hj⟩
    · exact .inl ⟨j, hj⟩
    · exact .inr ⟨(j, b), hj, rfl⟩
  · rintro (⟨j, hj⟩ | ⟨⟨j, _⟩, hj, rfl⟩)
    · exact ⟨j, .inl hj⟩
    · exact ⟨j, .inr hj⟩

/-- Giving one level other contents changes the contents of the whole by that much. -/
theorem flatMap_update_perm {l : List ι} (hl : l.Nodup) {i : ι} (hi : i ∈ l) {f : ι → List α}
    {v w : List α} (hv : v.Perm (w ++ f i)) :
    (l.flatMap (Function.update f i v)).Perm (w ++ l.flatMap f) := by
  induction l with
  | nil => cases hi
  | cons j l ih =>
      rw [List.nodup_cons] at hl
      rw [List.flatMap_cons, List.flatMap_cons]
      by_cases hij : i = j
      · subst hij
        -- the other levels are not affected
        have hrest : l.flatMap (Function.update f i v) = l.flatMap f := by
          refine List.flatMap_congr fun k hk => ?_
          have hki : k ≠ i := fun h => hl.1 (h ▸ hk)
          rw [Function.update_of_ne hki]
        rw [Function.update_self, hrest, ← List.append_assoc]
        exact hv.append_right _
      · have hmem : i ∈ l := (List.mem_cons.mp hi).resolve_left hij
        rw [Function.update_of_ne (Ne.symm hij)]
        exact ((ih hl.2 hmem).append_left _).trans (List.perm_append_comm_assoc _ _ _)

end

/-! ## The most urgent element -/

variable [DecidableEq ι] [Levels ι]

/-- No level holds an element. -/
def empty (q : PrioQ ι α) : Bool := (Levels.order : List ι).all fun i => (q.level i).isEmpty

/-- The head of the most urgent non-empty level. -/
def head? (q : PrioQ ι α) : Option (ι × α) :=
  (Levels.order : List ι).findSome? fun i => (q.level i).head?.map fun a => (i, a)

/-- Remove the head of the most urgent non-empty level, and remember it. -/
def pop (q : PrioQ ι α) : Option α × PrioQ ι α :=
  match q.head? with
  | none => (none, q)
  | some (i, a) =>
      (some a, ⟨Function.update q.level i (q.level i).tail, some (i, a)⟩)

/-- The queue is empty iff all its levels are. -/
theorem empty_iff {q : PrioQ ι α} : q.empty = true ↔ ∀ i, q.level i = [] := by
  simp only [empty, List.all_eq_true, List.isEmpty_iff]
  exact ⟨fun h i => h i (Levels.mem_order i), fun h i _ => h i⟩

/-- A queue is empty if and only if nothing is in it. -/
theorem empty_iff_forall_not_mem {q : PrioQ ι α} : q.empty = true ↔ ∀ a, a ∉ q := by
  rw [empty_iff]
  constructor
  · rintro h a ⟨i, hi⟩; rw [h i] at hi; exact List.not_mem_nil hi
  · intro h i
    exact List.eq_nil_iff_forall_not_mem.mpr fun a ha => h a ⟨i, ha⟩

/-- The queue is not empty iff something is in it. -/
theorem empty_eq_false_iff {q : PrioQ ι α} : q.empty = false ↔ ∃ a, a ∈ q := by
  rw [← Bool.not_eq_true, empty_iff_forall_not_mem, not_forall_not]

/-- The head of the most urgent non-empty level waits at that level. -/
theorem level_of_head? {q : PrioQ ι α} {i : ι} {a : α} (h : q.head? = some (i, a)) :
    (q.level i).head? = some a := by
  obtain ⟨j, -, hj⟩ := List.exists_of_findSome?_eq_some h
  cases hl : (q.level j).head? with
  | none => simp [hl] at hj
  | some b =>
      simp only [hl, Option.map_some, Option.some.injEq, Prod.mk.injEq] at hj
      obtain ⟨rfl, rfl⟩ := hj
      exact hl

/-- There is a head iff the queue is not empty. -/
theorem head?_eq_none_iff {q : PrioQ ι α} : q.head? = none ↔ q.empty = true := by
  simp only [head?, List.findSome?_eq_none_iff, Option.map_eq_none_iff, List.head?_eq_none_iff,
    empty_iff]
  exact ⟨fun h i => h i (Levels.mem_order i), fun h i _ => h i⟩

/-- **What a successful pop does**: it takes the head `a` of some level `i`, leaves the other levels
as they were, and remembers `a`. -/
theorem pop_some {q q' : PrioQ ι α} {a : α} (h : q.pop = (some a, q')) :
    ∃ i, q.level i = a :: q'.level i ∧ (∀ j, j ≠ i → q'.level j = q.level j) ∧
      q'.lastPop = some (i, a) := by
  unfold pop at h
  split at h
  · simp at h
  · next i b hh =>
      simp only [Prod.mk.injEq, Option.some.injEq] at h
      obtain ⟨rfl, rfl⟩ := h
      refine ⟨i, ?_, fun j hj => by simp [hj], rfl⟩
      show q.level i = b :: Function.update q.level i (q.level i).tail i
      rw [Function.update_self]
      exact (List.cons_head?_tail (level_of_head? hh)).symm

/-- A pop fails only on the empty queue, and then changes nothing. -/
theorem pop_none {q q' : PrioQ ι α} (h : q.pop = (none, q')) : q.empty = true ∧ q' = q := by
  unfold pop at h
  split at h
  · next hh => simp only [Prod.mk.injEq] at h; exact ⟨head?_eq_none_iff.mp hh, h.2.symm⟩
  · simp at h

/-- What was in the queue is what was popped, or is still in it. -/
theorem mem_pop {q q' : PrioQ ι α} {a b : α} (h : q.pop = (some a, q')) :
    b ∈ q ↔ b = a ∨ b ∈ q' := by
  obtain ⟨i, hi, hj, -⟩ := pop_some h
  constructor
  · rintro ⟨j, hb⟩
    by_cases hji : j = i
    · subst hji
      rw [hi, List.mem_cons] at hb
      exact hb.imp_right fun hb => ⟨j, hb⟩
    · exact .inr ⟨j, by rwa [hj j hji]⟩
  · rintro (rfl | ⟨j, hb⟩)
    · exact ⟨i, by rw [hi]; exact List.mem_cons_self⟩
    · by_cases hji : j = i
      · subst hji; exact ⟨j, by rw [hi]; exact List.mem_cons_of_mem _ hb⟩
      · exact ⟨j, by rwa [← hj j hji]⟩

/-- Nothing gets into a level by a pop. -/
theorem mem_level_of_pop {q : PrioQ ι α} {b : α} {j : ι} (h : b ∈ q.pop.2.level j) :
    b ∈ q.level j := by
  rcases hp : q.pop with ⟨_ | a, q'⟩
  · rw [hp, (pop_none hp).2] at h
    exact h
  · obtain ⟨i, hi, hj, -⟩ := pop_some hp
    rw [hp] at h
    by_cases hji : j = i
    · subst hji
      rw [hi]
      exact List.mem_cons_of_mem _ h
    · rw [← hj j hji]
      exact h

/-- A pop splits the contents into what it took and what is left. -/
theorem mem_iff_pop {q : PrioQ ι α} {b : α} : b ∈ q ↔ q.pop.1 = some b ∨ b ∈ q.pop.2 := by
  rcases hp : q.pop with ⟨_ | a, q'⟩
  · rw [(pop_none hp).2]
    simp
  · rw [mem_pop hp, eq_comm]
    simp

/-- The element popped last is the one that this pop took from its level, or, if it took none, the one
remembered already. -/
theorem lastPop_pop {q : PrioQ ι α} {a : α} {i : ι} (h : q.pop.2.lastPop = some (i, a)) :
    (q.pop.1 = some a ∧ a ∈ q.level i) ∨ (q.pop.1 = none ∧ q.lastPop = some (i, a)) := by
  rcases hp : q.pop with ⟨_ | b, q'⟩
  · rw [hp, (pop_none hp).2] at h
    exact .inr ⟨rfl, h⟩
  · obtain ⟨j, hj, -, hl⟩ := pop_some hp
    rw [hp, hl, Option.some.injEq, Prod.mk.injEq] at h
    obtain ⟨rfl, rfl⟩ := h
    exact .inl ⟨rfl, hj ▸ List.mem_cons_self⟩

/-- What is pushed on an empty queue is popped next, and leaves it empty. -/
theorem pop_push_of_empty {q : PrioQ ι α} (h : q.empty = true) (a : α) (i : ι) :
    (q.push a i).pop.1 = some a ∧ (q.push a i).pop.2.empty = true ∧
      (q.push a i).pop.2.lastPop = some (i, a) := by
  rcases hp : (q.push a i).pop with ⟨_ | b, q'⟩
  · exact absurd (mem_push.mpr (.inr rfl)) (empty_iff_forall_not_mem.mp (pop_none hp).1 a)
  · obtain ⟨j, hj, hother, hlast⟩ := pop_some hp
    -- the element stands alone on its level, and the other levels are empty
    have hlevel : ∀ l, (q.push a i).level l = if l = i then [a] else [] := by
      intro l
      by_cases hl : l = i
      · subst hl
        simp [push, empty_iff.mp h l]
      · simp [push, hl, empty_iff.mp h l]
    -- so its own level is the one popped from
    have hji : j = i := by
      by_contra hne
      rw [hlevel j, if_neg hne] at hj
      cases hj
    subst hji
    rw [hlevel j, if_pos rfl] at hj
    obtain ⟨rfl, hrest⟩ := List.cons.inj hj
    refine ⟨rfl, empty_iff.mpr fun l => ?_, hlast⟩
    by_cases hl : l = j
    · subst hl
      exact hrest.symm
    · rw [hother l hl, hlevel l, if_neg hl]

/-! ## All elements, with how often each occurs -/

/-- All elements of the queue, level by level. -/
def toList (q : PrioQ ι α) : List α := (Levels.order : List ι).flatMap q.level

/-- The list of a queue has the elements of its levels. -/
@[simp] theorem mem_toList {q : PrioQ ι α} {a : α} : a ∈ q.toList ↔ a ∈ q := by
  simp only [toList, List.mem_flatMap, mem_def]
  exact ⟨fun ⟨i, _, ha⟩ => ⟨i, ha⟩, fun ⟨i, ha⟩ => ⟨i, Levels.mem_order i, ha⟩⟩

/-- A push adds one element. -/
theorem toList_push (q : PrioQ ι α) (a : α) (i : ι) : (q.push a i).toList.Perm (a :: q.toList) :=
  flatMap_update_perm (w := [a]) Levels.nodup_order (Levels.mem_order i)
    (List.perm_append_singleton a _)

/-- Clearing a level takes away just what waits there. -/
theorem toList_clear (q : PrioQ ι α) (i : ι) : q.toList.Perm (q.level i ++ (q.clear i).toList) := by
  have hlevel : Function.update (q.clear i).level i (q.level i) = q.level := by
    unfold clear
    rw [Function.update_idem, Function.update_eq_self]
  have hnil : (q.clear i).level i = [] := Function.update_self ..
  have hperm := flatMap_update_perm (f := (q.clear i).level) (v := q.level i) (w := q.level i)
    Levels.nodup_order (Levels.mem_order i) (by rw [hnil, List.append_nil])
  rw [hlevel] at hperm
  exact hperm

/-- Putting the last element back adds it. -/
theorem toList_pushBackLastPop (front : Bool) (q : PrioQ ι α) :
    (q.pushBackLastPop front).toList.Perm ((q.lastPop.map Prod.snd).toList ++ q.toList) := by
  unfold pushBackLastPop
  split
  · next h => rw [h]; exact List.Perm.refl _
  · next i a h =>
      rw [h]
      refine flatMap_update_perm (w := [a]) Levels.nodup_order (Levels.mem_order i) ?_
      split
      · exact List.Perm.refl _
      · exact List.perm_append_singleton a _

/-- A pop splits the elements into what it took and what is left. -/
theorem toList_pop (q : PrioQ ι α) : q.toList.Perm (q.pop.1.toList ++ q.pop.2.toList) := by
  rcases hp : q.pop with ⟨_ | a, q'⟩
  · rw [(pop_none hp).2]
    exact List.Perm.refl _
  · obtain ⟨i, hi, hj, -⟩ := pop_some hp
    have hlevel : Function.update q'.level i (q.level i) = q.level := by
      funext j
      by_cases hji : j = i
      · subst hji; exact Function.update_self ..
      · rw [Function.update_of_ne hji]
        exact hj j hji
    have hperm := flatMap_update_perm (f := q'.level) (v := q.level i) (w := [a])
      Levels.nodup_order (Levels.mem_order i) (by rw [hi]; exact List.Perm.refl _)
    rw [hlevel] at hperm
    exact hperm

end PrioQ

end Queue
