import KissSmpp.Memory.Blocks
import Mathlib.Data.Set.Insert

/-! # Who owns a block

A program starts in a memory, and hands out and releases blocks of its own. It **owns** what it has
been handed out and not released, and as long as it writes to and releases nothing else, the rest of
the memory stays as it was. What each operation does to the owned blocks is one rule; that nothing has
leaked is that in the end there are none. -/

namespace Memory

variable {β : Type*} {m₀ m m' : Heap β} {own : Set Nat} {p : Ptr} {d : List β}

/-- **Of the blocks handed out since `m₀`, just those of `own` are live**, and the blocks of `m₀` are
as they were. -/
structure Heap.Owned (m₀ m : Heap β) (own : Set Nat) : Prop where
  grown : m₀.blocks.length ≤ m.blocks.length
  fresh : ∀ b ∈ own, m₀.blocks.length ≤ b
  kept : ∀ b < m₀.blocks.length, m.block? b = m₀.block? b
  live : ∀ b, m₀.blocks.length ≤ b → ((m.block? b).isSome = true ↔ b ∈ own)

namespace Heap

/-- A place beyond all that has been handed out is not a live block. -/
theorem block?_eq_none {b : Nat} (h : m.blocks.length ≤ b) : m.block? b = none := by
  unfold block?
  rw [List.getElem?_eq_none h]
  rfl

/-- What has been written, to a live block. -/
theorem write_some (h : m.write p d = some m') :
    ∃ c, m.block? p.block = some c ∧
      m' = ⟨m.blocks.set p.block (some (overwrite c p.offset d))⟩ := by
  unfold write at h
  rw [Option.bind_eq_some_iff] at h
  obtain ⟨c, hc, h⟩ := h
  split at h
  next =>
    cases h
    exact ⟨c, hc, rfl⟩
  next => cases h

/-- What has been released, a live block. -/
theorem delete_some (h : m.delete p = some m') :
    p.block < m.blocks.length ∧ m' = ⟨m.blocks.set p.block none⟩ := by
  unfold delete at h
  split at h
  next hp =>
    cases h
    obtain ⟨c, hc⟩ := Option.isSome_iff_exists.mp hp.2
    exact ⟨lt_of_block? hc, rfl⟩
  next => cases h

/-- The live blocks after one more has been handed out. -/
theorem block?_new_iff (g : Nat → Nat → β) (n b : Nat) :
    ((m.new g n).2.block? b).isSome = true ↔
      (m.block? b).isSome = true ∨ b = m.blocks.length := by
  unfold block? new
  rcases Nat.lt_trichotomy b m.blocks.length with hb | rfl | hb
  · rw [List.getElem?_append_left hb]
    exact (or_iff_left (Nat.ne_of_lt hb)).symm
  · simp
  · rw [List.getElem?_append_right (Nat.le_of_lt hb), List.getElem?_eq_none (Nat.le_of_lt hb)]
    have hlen : 1 ≤ b - m.blocks.length := by omega
    rw [List.getElem?_eq_none hlen]
    simp only [Option.join_none, Option.isSome_none, Bool.false_eq_true, false_or, false_iff]
    omega

namespace Owned

/-- At first nothing is owned. -/
theorem start (m : Heap β) : Owned m m ∅ where
  grown := Nat.le_refl _
  fresh b hb := absurd hb (Set.notMem_empty b)
  kept _ _ := rfl
  live b hb := by rw [block?_eq_none hb]; simp

/-- **A block handed out is owned.** -/
theorem new (h : Owned m₀ m own) (g : Nat → Nat → β) (n : Nat) :
    Owned m₀ (m.new g n).2 (insert (m.new g n).1.block own) where
  grown := by
    show _ ≤ (m.blocks ++ [_]).length
    rw [List.length_append]
    exact Nat.le_add_right_of_le h.grown
  fresh b hb := by
    rcases hb with rfl | hb
    · exact h.grown
    · exact h.fresh b hb
  kept b hb := by
    rw [← h.kept b hb]
    unfold block? Heap.new
    rw [List.getElem?_append_left (Nat.lt_of_lt_of_le hb h.grown)]
  live b hb := by
    rw [block?_new_iff, h.live b hb, Set.mem_insert_iff, or_comm]
    rfl

/-- **Writing to a block that is owned** changes no other, and releases none. -/
theorem write (h : Owned m₀ m own) (hp : p.block ∈ own) (hw : m.write p d = some m') :
    Owned m₀ m' own := by
  obtain ⟨c, hc, rfl⟩ := write_some hw
  have hlt := lt_of_block? hc
  have hfresh := h.fresh _ hp
  refine ⟨?_, h.fresh, ?_, ?_⟩
  · rw [List.length_set]
    exact h.grown
  · intro b hb
    rw [block?_set hlt, if_neg (by omega)]
    exact h.kept b hb
  · intro b hb
    rw [block?_set hlt]
    split
    next hpb =>
      rw [← hpb]
      exact ⟨fun _ => hp, fun _ => rfl⟩
    next => exact h.live b hb

/-- **A block that is owned and released** is not owned any more; no other changes. -/
theorem delete (h : Owned m₀ m own) (hp : p.block ∈ own) (hd : m.delete p = some m') :
    Owned m₀ m' (own \ {p.block}) := by
  obtain ⟨hlt, rfl⟩ := delete_some hd
  have hfresh := h.fresh _ hp
  refine ⟨?_, fun b hb => h.fresh b hb.1, ?_, ?_⟩
  · rw [List.length_set]
    exact h.grown
  · intro b hb
    rw [block?_set hlt, if_neg (by omega)]
    exact h.kept b hb
  · intro b hb
    rw [block?_set hlt]
    split
    next hpb =>
      rw [← hpb]
      exact ⟨fun hnone => absurd hnone (by simp), fun hb => absurd rfl hb.2⟩
    next hpb =>
      rw [h.live b hb]
      exact ⟨fun hb => ⟨hb, fun he => hpb he.symm⟩, fun hb => hb.1⟩

/-- **Where nothing is owned, nothing has leaked**: the live blocks are those of `m₀`, as they
were. -/
theorem block?_eq (h : Owned m₀ m ∅) (b : Nat) : m.block? b = m₀.block? b := by
  rcases Nat.lt_or_ge b m₀.blocks.length with hb | hb
  · exact h.kept b hb
  · rw [block?_eq_none hb]
    have hdead := (h.live b hb).not.mpr (Set.notMem_empty b)
    rwa [Option.not_isSome_iff_eq_none] at hdead

end Owned

end Heap

end Memory
