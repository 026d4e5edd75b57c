import KissSmpp.Memory.Ownership
import KissSmpp.Properties.HeaderLength
import Mathlib.Order.BooleanAlgebra.Set

/-! # The memory of the read chain

A `RawPdu` allocates a header, trades it for a buffer of the PDU's size, and is dropped with the last
handler that was bound to it. Between two reads the chain owns the one block that the read under way
fills; the rest of the memory it leaves alone, and when the connection has ended it owns none. All
this is for whatever octets the peer sends, and only one thing they can do is undefined. -/

namespace KissSmpp.Reader

open Memory

namespace Chain

variable {lib : Library} {g : Nat → Nat → UInt8} {m₀ m m' : Heap UInt8} {ch ch' : Chain}

/-- The block the read under way fills. -/
def filled (ch : Chain) : Set Nat := {b | ∃ rd, ch.outstanding = some rd ∧ rd.buffer.block = b}

/-- The read under way fills just one block. -/
theorem filled_some {rd : AsyncRead} (h : ch.outstanding = some rd) :
    ch.filled = {rd.buffer.block} := by
  ext b
  constructor
  · rintro ⟨rd', hrd', hb⟩
    rw [h] at hrd'
    cases hrd'
    exact hb.symm
  · intro hb
    exact ⟨rd, h, Eq.symm hb⟩

/-- Where no read is under way no block is filled. -/
theorem filled_none (h : ch.outstanding = none) : ch.filled = ∅ := by
  ext b
  constructor
  · rintro ⟨rd, hrd, -⟩
    rw [h] at hrd
    cases hrd
  · intro hb
    exact absurd hb (Set.notMem_empty b)

/-- The situations the chain is in between two reads. -/
def Expects (ch : Chain) : Prop :=
  ch.outstanding = none ∨ ch.AwaitsHeader ∨ ∃ header n, ch.AwaitsBody header n

/-- **The peer's next sixteen octets are a header that announces fewer than sixteen.** -/
def Undersized (lib : Library) (ch : Chain) : Prop :=
  ch.AwaitsHeader ∧ 16 ≤ ch.input.length ∧ (lib.getCommandLength (ch.input.take 16)).toNat < 16

/-! ## What is undefined -/

/-- **A read that completes is undefined just where such a header has arrived**; otherwise the chain
is in one of its situations again. -/
theorem step_expects (lib : Library) (g : Nat → Nat → UInt8) (hch : ch.Expects) :
    (ch.Undersized lib ∧ ch.step lib g = none) ∨
      (¬ch.Undersized lib ∧ ∃ ch', ch.step lib g = some ch' ∧ ch'.Expects) := by
  -- no read outstanding, a read of a header, or a read of a body
  rcases hch with hnone | hheader | ⟨header, n, hbody⟩
  · refine .inr ⟨?_, ch, ?_, .inl hnone⟩
    · rintro ⟨⟨b, c, hout, -, -⟩, -, -⟩
      rw [hnone] at hout
      cases hout
    · unfold step
      rw [hnone]
  · by_cases hshort : ch.input.length < 16
    · obtain ⟨ch', hstep, hout, -⟩ := step_short_header lib (g := g) hheader hshort
      exact .inr ⟨fun h => absurd h.2.1 (Nat.not_le.mpr hshort), ch', hstep, .inl hout⟩
    · have hinput : ch.input = ch.input.take 16 ++ ch.input.drop 16 :=
        (List.take_append_drop 16 ch.input).symm
      have hlen : (ch.input.take 16).length = 16 := List.length_take_of_le (by omega)
      -- `command_length` decides: below the header's own length the body is read out of the block
      by_cases hn : 16 ≤ (lib.getCommandLength (ch.input.take 16)).toNat
      · obtain ⟨ch', hstep, hbody, -, -⟩ := step_header (g := g) hheader hinput hlen hn
        have hnot : ¬ch.Undersized lib := fun h => absurd h.2.2 (Nat.not_lt.mpr hn)
        exact .inr ⟨hnot, ch', hstep, .inr (.inr ⟨_, _, hbody⟩)⟩
      · have hundef := step_short_length (g := g) hheader hinput hlen (Nat.not_le.mp hn)
        exact .inl ⟨⟨hheader, Nat.not_lt.mp hshort, Nat.not_le.mp hn⟩, hundef⟩
  · have hnot : ¬ch.Undersized lib := by
      rintro ⟨⟨b, c, hout, -, -⟩, -, -⟩
      obtain ⟨b', c', hout', -, -, -⟩ := hbody
      rw [hout'] at hout
      cases hout
    by_cases hshort : ch.input.length < n
    · obtain ⟨ch', hstep, hout, -⟩ := step_short_body lib (g := g) hbody hshort
      exact .inr ⟨hnot, ch', hstep, .inl hout⟩
    · have hlen : (ch.input.take n).length = n := List.length_take_of_le (by omega)
      rw [← hlen] at hbody
      obtain ⟨ch', hstep, hheader, -, -⟩ := step_body lib (g := g) hbody
        (List.take_append_drop n ch.input).symm
      exact .inr ⟨hnot, ch', hstep, .inr (.inl hheader)⟩

/-! ## What is owned -/

/-- A new header is one more block. -/
theorem owned_readHeader {own : Set Nat} (h : Heap.Owned m₀ ch.heap own) :
    Heap.Owned m₀ (readHeader g ch).heap (insert ch.heap.blocks.length own) := h.new g 16

/-- **`bodyBuf` trades the header for the buffer.** -/
theorem owned_bodyBuf {b : Nat} {o : Buffers} (h : Heap.Owned m₀ m {b}) (hb : b < m.blocks.length)
    (hbuf : Buffers.bodyBuf lib g ⟨some ⟨b, 0⟩, none, none⟩ m = some (o, m')) :
    ∃ b', o.body = some ⟨b', 16⟩ ∧ Heap.Owned m₀ m' {b'} := by
  unfold Buffers.bodyBuf at hbuf
  simp only [Option.bind_eq_bind, Option.bind_eq_some_iff, Option.pure_def, Option.some.injEq,
    Prod.mk.injEq] at hbuf
  obtain ⟨n, -, octets, -, m₁, hwrite, m₂, hdelete, rfl, rfl⟩ := hbuf
  have hne : (m.new g n.toNat).1.block ≠ b := Nat.ne_of_gt hb
  have hnew := h.new g n.toNat
  have hcopied := hnew.write (Set.mem_insert _ _) hwrite
  have hfreed := hcopied.delete (p := ⟨b, 0⟩) (Set.mem_insert_of_mem _ rfl) hdelete
  rw [Set.pair_sdiff_right hne] at hfreed
  exact ⟨_, rfl, hfreed⟩

/-- The one block is released with the PDU. -/
theorem owned_handleReadError {b : Nat} {o : Buffers} (h : Heap.Owned m₀ ch.heap {b})
    (ho : o.destruct ch.heap = ch.heap.delete ⟨b, 0⟩) (herr : handleReadError ch o = some ch') :
    Heap.Owned m₀ ch'.heap ch'.filled := by
  unfold handleReadError at herr
  simp only [Option.bind_eq_bind, Option.bind_eq_some_iff, Option.pure_def, Option.some.injEq,
    ho] at herr
  obtain ⟨m, hdelete, rfl⟩ := herr
  have hfreed := h.delete (p := ⟨b, 0⟩) rfl hdelete
  rw [Set.sdiff_self] at hfreed
  rwa [filled_none rfl]

/-- **After a header has been read** the chain owns the buffer that is filled next. -/
theorem owned_handleReadHeader {b : Nat} (h : Heap.Owned m₀ ch.heap {b})
    (hb : b < ch.heap.blocks.length)
    (hstep : handleReadHeader lib g ch ⟨some ⟨b, 0⟩, none, none⟩ = some ch') :
    Heap.Owned m₀ ch'.heap ch'.filled := by
  unfold handleReadHeader at hstep
  simp only [Option.bind_eq_bind, Option.bind_eq_some_iff, Option.pure_def,
    Option.some.injEq] at hstep
  obtain ⟨⟨o, m⟩, hbuf, size, -, buffer, hbody, rfl⟩ := hstep
  obtain ⟨b', hb', howned⟩ := owned_bodyBuf h hb hbuf
  rw [hb'] at hbody
  cases hbody
  rw [filled_some rfl]
  exact howned

/-- **After the rest of a PDU has been read** the chain owns the header that is filled next: the
PDU's buffer is released. -/
theorem owned_handleReadBody {b : Nat} {body : Option Ptr} (h : Heap.Owned m₀ ch.heap {b})
    (hb : b < ch.heap.blocks.length)
    (hstep : handleReadBody lib g ch ⟨some ⟨b, 0⟩, some ⟨b, 0⟩, body⟩ = some ch') :
    Heap.Owned m₀ ch'.heap ch'.filled := by
  unfold handleReadBody at hstep
  simp only [Option.bind_eq_bind, Option.bind_eq_some_iff, Option.pure_def,
    Option.some.injEq] at hstep
  obtain ⟨data, -, cmdLength, -, m, hdelete, rfl⟩ := hstep
  have hfreed := (owned_readHeader (g := g) h).delete (p := ⟨b, 0⟩)
    (Set.mem_insert_of_mem _ rfl) hdelete
  rw [Set.pair_sdiff_right (Nat.ne_of_gt hb)] at hfreed
  rw [filled_some rfl]
  exact hfreed

/-- What the chain owns once a read has filled its buffer, as far as it has. -/
theorem owned_filled {rd : AsyncRead} {c : List UInt8} (hout : ch.outstanding = some rd)
    (hb : ch.heap.block? rd.buffer.block = some c) (h : Heap.Owned m₀ ch.heap ch.filled)
    (hstep : ch.step lib g = some ch') :
    ∃ ch₁ : Chain, Heap.Owned m₀ ch₁.heap {rd.buffer.block} ∧
      rd.buffer.block < ch₁.heap.blocks.length ∧
      (if rd.size ≤ ch.input.length then
        match rd.stage with
        | .header => handleReadHeader lib g ch₁ rd.rawpdu
        | .body => handleReadBody lib g ch₁ rd.rawpdu
      else handleReadError ch₁ rd.rawpdu) = some ch' := by
  rw [filled_some hout] at h
  unfold step at hstep
  rw [hout] at hstep
  simp only [Option.bind_eq_bind, Option.bind_eq_some_iff] at hstep
  obtain ⟨m, hwrite, hstep⟩ := hstep
  refine ⟨{ ch with heap := m, input := ch.input.drop rd.size }, h.write rfl hwrite, ?_, hstep⟩
  obtain ⟨-, -, rfl⟩ := Heap.write_some hwrite
  show _ < (List.set _ _ _).length
  rw [List.length_set]
  exact Heap.lt_of_block? hb

/-- **One read**: what the chain owns before it is what the read fills, and so it is afterwards. -/
theorem owned_step (hch : ch.Expects) (h : Heap.Owned m₀ ch.heap ch.filled)
    (hstep : ch.step lib g = some ch') : Heap.Owned m₀ ch'.heap ch'.filled := by
  rcases hch with hnone | ⟨b, c, hout, hb, -⟩ | ⟨header, n, b, c, hout, hb, -, -⟩
  · unfold step at hstep
    rw [hnone] at hstep
    cases hstep
    exact h
  · obtain ⟨m, hread, hlt, hstep⟩ := owned_filled hout hb h hstep
    split at hstep
    · exact owned_handleReadHeader hread hlt hstep
    · exact owned_handleReadError hread rfl hstep
  · obtain ⟨m, hread, hlt, hstep⟩ := owned_filled hout hb h hstep
    split at hstep
    · exact owned_handleReadBody hread hlt hstep
    · exact owned_handleReadError hread rfl hstep

/-! ## Whole connections -/

/-- A connection starts with a header. -/
theorem owned_handleConnect (g : Nat → Nat → UInt8) (m₀ : Heap UInt8) (input : List UInt8) :
    Heap.Owned m₀ (handleConnect g m₀ input).heap (handleConnect g m₀ input).filled := by
  have hnew := (Heap.Owned.start m₀).new g 16
  rw [insert_empty_eq] at hnew
  have hread : (handleConnect g m₀ input).outstanding =
      some ⟨.header, ⟨some ⟨m₀.blocks.length, 0⟩, none, none⟩, ⟨m₀.blocks.length, 0⟩, 16⟩ := rfl
  rw [filled_some hread]
  exact hnew

/-- One read more is one more at the end. -/
theorem run_succ (lib : Library) (g : Nat → Nat → UInt8) (n : Nat) (ch : Chain) :
    run lib g (n + 1) ch = (run lib g n ch).bind (step lib g) := by
  induction n generalizing ch with
  | zero =>
      show (ch.step lib g).bind some = _
      rw [Option.bind_fun_some]
      rfl
  | succ n ih =>
      show (ch.step lib g).bind (run lib g (n + 1)) = ((ch.step lib g).bind (run lib g n)).bind _
      rw [Option.bind_assoc]
      exact Option.bind_congr fun ch' _ => ih ch'

/-- Whatever is read, the chain is in one of its situations. -/
theorem run_expects (hch : ch.Expects) {n : Nat} (hrun : run lib g n ch = some ch') :
    ch'.Expects := by
  induction n generalizing ch' with
  | zero =>
      cases hrun
      exact hch
  | succ n ih =>
      rw [run_succ, Option.bind_eq_some_iff] at hrun
      obtain ⟨ch₁, hrun₁, hstep⟩ := hrun
      obtain ⟨-, hnone⟩ | ⟨-, ch₂, hstep₂, hch₂⟩ := step_expects lib g (ih hrun₁)
      · rw [hnone] at hstep
        cases hstep
      · rw [hstep₂] at hstep
        cases hstep
        exact hch₂

/-- **Whatever is read**, the chain owns what the read under way fills. -/
theorem run_owned (hch : ch.Expects) (h : Heap.Owned m₀ ch.heap ch.filled) {n : Nat}
    (hrun : run lib g n ch = some ch') : Heap.Owned m₀ ch'.heap ch'.filled := by
  induction n generalizing ch' with
  | zero =>
      cases hrun
      exact h
  | succ n ih =>
      rw [run_succ, Option.bind_eq_some_iff] at hrun
      obtain ⟨ch₁, hrun₁, hstep⟩ := hrun
      exact owned_step (run_expects hch hrun₁) (ih hrun₁) hstep

/-- **The reads are undefined from the first undersized header on**, and not before. -/
theorem run_eq_none_iff (hch : ch.Expects) (n : Nat) :
    run lib g n ch = none ↔ ∃ k < n, ∃ ch', run lib g k ch = some ch' ∧ ch'.Undersized lib := by
  -- by the last step: a run that is undefined by then stays so
  induction n with
  | zero =>
      constructor
      · intro h
        cases h
      · rintro ⟨k, hk, -⟩
        exact absurd hk (Nat.not_lt_zero k)
  | succ n ih =>
      rw [run_succ]
      cases hrun : run lib g n ch with
      | none =>
          obtain ⟨k, hk, hundersized⟩ := ih.mp hrun
          exact ⟨fun _ => ⟨k, Nat.lt_succ_of_lt hk, hundersized⟩, fun _ => rfl⟩
      | some ch₁ =>
          have hch₁ := run_expects hch hrun
          show ch₁.step lib g = none ↔ _
          constructor
          · intro hnone
            obtain ⟨hundersized, -⟩ | ⟨-, ch₂, hstep₂, -⟩ := step_expects lib g hch₁
            · exact ⟨n, Nat.lt_succ_self n, ch₁, hrun, hundersized⟩
            · rw [hstep₂] at hnone
              cases hnone
          · rintro ⟨k, hk, ch', hrun', hundersized⟩
            -- an undersized length earlier would have ended the run
            rcases Nat.lt_succ_iff_lt_or_eq.mp hk with hk | rfl
            · rw [ih.mpr ⟨k, hk, ch', hrun', hundersized⟩] at hrun
              cases hrun
            · rw [hrun] at hrun'
              cases hrun'
              obtain ⟨-, hnone⟩ | ⟨hnot, -⟩ := step_expects lib g hch₁
              · exact hnone
              · exact absurd hundersized hnot

/-- **The memory of the read chain**: whatever octets the peer sends, and however many reads have
completed, the chain owns just the block that the read under way fills, it has left the memory it
found as it was, and if no read is under way nothing has leaked. Nothing is undefined unless a
complete header has announced fewer than sixteen octets. -/
theorem reads_own_one_block (lib : Library) (g : Nat → Nat → UInt8) (m₀ : Heap UInt8)
    (input : List UInt8) (n : Nat) :
    (∀ ch, run lib g n (handleConnect g m₀ input) = some ch →
      Heap.Owned m₀ ch.heap ch.filled ∧
        (ch.outstanding = none → ∀ b, ch.heap.block? b = m₀.block? b)) ∧
      (run lib g n (handleConnect g m₀ input) = none ↔
        ∃ k < n, ∃ ch, run lib g k (handleConnect g m₀ input) = some ch ∧ ch.Undersized lib) := by
  have hstart : (handleConnect g m₀ input).Expects := .inr (.inl (awaitsHeader_readHeader g _))
  refine ⟨?_, run_eq_none_iff hstart n⟩
  intro ch hrun
  have howned := run_owned hstart (owned_handleConnect g m₀ input) hrun
  refine ⟨howned, ?_⟩
  intro hnone
  rw [filled_none hnone] at howned
  exact howned.block?_eq

end Chain

end KissSmpp.Reader
