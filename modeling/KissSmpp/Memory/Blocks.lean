import Mathlib.Data.List.Basic

/-! # A memory of blocks

What an allocator hands out, as a program sees it: blocks of cells, pointers into them, and the four
things one does with them. An access outside a block, or to a block that has been released, gives
`none`. A block is never handed out twice, so two live blocks never overlap; the lemmas state each
operation through the blocks it leaves as they were. -/

namespace Memory

variable {β : Type*}

/-- A pointer: a block, and how far into it. -/
structure Ptr where
  block : Nat
  offset : Nat
  deriving DecidableEq, Repr

/-- The pointer `n` cells further on. -/
def Ptr.add (p : Ptr) (n : Nat) : Ptr := ⟨p.block, p.offset + n⟩

/-- Pointer arithmetic stays in the block. -/
@[simp] theorem Ptr.add_block (p : Ptr) (n : Nat) : (p.add n).block = p.block := rfl

/-- Pointer arithmetic adds to the offset. -/
@[simp] theorem Ptr.add_offset (p : Ptr) (n : Nat) : (p.add n).offset = p.offset + n := rfl

/-- **A memory**: the blocks handed out so far, each with its cells until it is released. -/
structure Heap (β : Type*) where
  blocks : List (Option (List β))

/-- The cells `c` with `d` written over them from place `n` on. -/
def overwrite (c : List β) (n : Nat) (d : List β) : List β := c.take n ++ d ++ c.drop (n + d.length)

/-- Writing over all the cells of a block. -/
theorem overwrite_all {c d : List β} (h : d.length = c.length) : overwrite c 0 d = d := by
  unfold overwrite
  rw [Nat.zero_add, h, List.drop_length, List.take_zero, List.nil_append, List.append_nil]

/-- Writing over the cells that follow the first `n`. -/
theorem overwrite_rest {c a d : List β} (h : a.length + d.length = (a ++ c).length) :
    overwrite (a ++ c) a.length d = a ++ d := by
  unfold overwrite
  rw [h, List.drop_length, List.append_nil, List.take_left]

namespace Heap

variable (m : Heap β)

/-- The cells of a block that is live. -/
def block? (b : Nat) : Option (List β) := m.blocks[b]?.join

/-- Hand out a block of `n` cells; `g` says what a new block holds. -/
def new (g : Nat → Nat → β) (n : Nat) : Ptr × Heap β :=
  (⟨m.blocks.length, 0⟩, ⟨m.blocks ++ [some ((List.range n).map (g m.blocks.length))]⟩)

/-- Release the block a pointer points to the start of. -/
def delete (p : Ptr) : Option (Heap β) :=
  if p.offset = 0 ∧ (m.block? p.block).isSome = true then some ⟨m.blocks.set p.block none⟩ else none

/-- The cells from a pointer to the end of its block. -/
def extent (p : Ptr) : Option (List β) :=
  (m.block? p.block).bind fun c => if p.offset ≤ c.length then some (c.drop p.offset) else none

/-- Read `n` cells. -/
def read (p : Ptr) (n : Nat) : Option (List β) :=
  (m.extent p).bind fun c => if n ≤ c.length then some (c.take n) else none

/-- Write some cells. -/
def write (p : Ptr) (d : List β) : Option (Heap β) :=
  (m.block? p.block).bind fun c =>
    if p.offset + d.length ≤ c.length then
      some ⟨m.blocks.set p.block (some (overwrite c p.offset d))⟩
    else none

/-! ## What the operations do to the blocks -/

section

variable {m} {m' : Heap β} {g : Nat → Nat → β} {n b : Nat} {p : Ptr} {c d : List β}

/-- A live block is one of those handed out. -/
theorem lt_of_block? (h : m.block? b = some c) : b < m.blocks.length := by
  unfold block? at h
  by_contra hb
  rw [List.getElem?_eq_none (Nat.le_of_not_lt hb)] at h
  cases h

/-- The block at a place that has been set. -/
theorem block?_set (hb : p.block < m.blocks.length) (o : Option (List β)) (b : Nat) :
    (Heap.mk (m.blocks.set p.block o)).block? b = if p.block = b then o else m.block? b := by
  unfold block?
  rw [List.getElem?_set]
  by_cases he : p.block = b
  · subst he
    rw [if_pos rfl, if_pos hb, if_pos rfl]
    rfl
  · rw [if_neg he, if_neg he]

/-- A new block holds `n` cells. -/
theorem block?_new_self :
    (m.new g n).2.block? (m.new g n).1.block = some ((List.range n).map (g m.blocks.length)) := by
  unfold block? new
  simp

/-- Handing out a block leaves the live ones as they are. -/
theorem block?_new (h : m.block? b = some c) : (m.new g n).2.block? b = some c := by
  have hb := lt_of_block? h
  unfold block? new at *
  rwa [List.getElem?_append_left hb]

/-- The new block is none of the live ones. -/
theorem new_ne (h : m.block? b = some c) : (m.new g n).1.block ≠ b :=
  (Nat.ne_of_lt (lt_of_block? h)).symm

/-- Reading within a live block. -/
theorem extent_eq (h : m.block? p.block = some c) (hn : p.offset ≤ c.length) :
    m.extent p = some (c.drop p.offset) := by
  unfold extent
  rw [h]
  exact if_pos hn

/-- Reading within a live block. -/
theorem read_eq (h : m.block? p.block = some c) (hn : p.offset + n ≤ c.length) :
    m.read p n = some ((c.drop p.offset).take n) := by
  unfold read
  rw [extent_eq h (by omega)]
  refine if_pos ?_
  rw [List.length_drop]
  omega

/-- **Writing within a live block**: the block is written over, the others are as they were. -/
theorem write_eq (h : m.block? p.block = some c) (hn : p.offset + d.length ≤ c.length) :
    ∃ m', m.write p d = some m' ∧ m'.block? p.block = some (overwrite c p.offset d) ∧
      ∀ b, b ≠ p.block → m'.block? b = m.block? b := by
  refine ⟨⟨m.blocks.set p.block (some (overwrite c p.offset d))⟩, ?_, ?_, ?_⟩
  · unfold write
    rw [h]
    exact if_pos hn
  · rw [block?_set (lt_of_block? h), if_pos rfl]
  · intro b hb
    rw [block?_set (lt_of_block? h), if_neg hb.symm]

/-- Writing past the end of a live block is undefined. -/
theorem write_eq_none (h : m.block? p.block = some c) (hn : c.length < p.offset + d.length) :
    m.write p d = none := by
  unfold write
  rw [h]
  exact if_neg (Nat.not_le.mpr hn)

/-- **Releasing a live block** leaves the others as they were. -/
theorem delete_eq (h : m.block? p.block = some c) (hp : p.offset = 0) :
    ∃ m', m.delete p = some m' ∧ ∀ b, b ≠ p.block → m'.block? b = m.block? b := by
  refine ⟨⟨m.blocks.set p.block none⟩, ?_, ?_⟩
  · unfold delete
    rw [h]
    exact if_pos ⟨hp, rfl⟩
  · intro b hb
    rw [block?_set (lt_of_block? h), if_neg hb.symm]

/-- A block that has been released is not live any more. -/
theorem delete_released (h : m.block? p.block = some c) (hp : p.offset = 0) :
    ∃ m', m.delete p = some m' ∧ m'.block? p.block = none := by
  refine ⟨⟨m.blocks.set p.block none⟩, ?_, ?_⟩
  · unfold delete
    rw [h]
    exact if_pos ⟨hp, rfl⟩
  · rw [block?_set (lt_of_block? h), if_pos rfl]

end

end Heap

end Memory
