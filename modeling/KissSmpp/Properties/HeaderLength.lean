import KissSmpp.Properties.Framing

/-! # What becomes of a header, whatever length it announces

A header can announce any of the `2^32` lengths. From `16` on, `handle_read_header` allocates a buffer
of that length, copies the header into it and reads the rest of the PDU into what remains of it, to the
last octet. Below `16` the copy does not fit in the buffer: nothing rejects such a header. -/

namespace KissSmpp.Reader

open Memory

namespace Chain

variable {lib : Library} {g : Nat → Nat → UInt8} {ch : Chain}

/-- **A header that has been read is dealt with inside the memory allocated for it**: if it announces
a PDU that is long enough, the read that follows fills the buffer of that length exactly, behind the
header; otherwise no read follows. -/
def Contains (lib : Library) (g : Nat → Nat → UInt8) (ch : Chain) (header : List UInt8) : Prop :=
  ∃ ch', ch.step lib g = some ch' ∧
    if 16 ≤ (lib.getCommandLength header).toNat then
      ∃ n, ch'.AwaitsBody header n ∧ n + 16 = (lib.getCommandLength header).toNat
    else ch'.outstanding = none

/-- **`bodyBuf` on a header that announces less than a header**: the copy does not fit. -/
theorem bodyBuf_short {m : Heap UInt8} {b : Nat} {header : List UInt8}
    (hb : m.block? b = some header) (hlen : header.length = 16)
    (hn : (lib.getCommandLength header).toNat < 16) :
    Buffers.bodyBuf lib g ⟨some ⟨b, 0⟩, none, none⟩ m = none := by
  rw [bodyBuf_eq hb hlen]
  generalize (lib.getCommandLength header).toNat = n at hn
  -- sixteen octets, and a block of `n` cells
  have hroom : ((List.range n).map (g m.blocks.length)).length <
      (m.new g n).1.offset + header.length := by
    rw [List.length_map, List.length_range]
    show n < 0 + header.length
    omega
  have hwrite : (m.new g n).2.write (m.new g n).1 header = none :=
    Heap.write_eq_none Heap.block?_new_self hroom
  simp only [hwrite, Option.bind_none]

/-- What `handle_read_header` does with such a header is undefined. -/
theorem step_short_length (hch : ch.AwaitsHeader) {header rest : List UInt8}
    (hinput : ch.input = header ++ rest) (hlen : header.length = 16)
    (hn : (lib.getCommandLength header).toNat < 16) : ch.step lib g = none := by
  obtain ⟨b, c, hout, hb, hc⟩ := hch
  have hroom : 0 + header.length ≤ c.length := by omega
  obtain ⟨m, hwrite, hfilled, -⟩ := Heap.write_eq (p := ⟨b, 0⟩) hb hroom
  rw [overwrite_all (hlen.trans hc.symm)] at hfilled
  rw [step_filled hout hinput hlen hwrite]
  show handleReadHeader lib g _ ⟨some ⟨b, 0⟩, none, none⟩ = none
  unfold handleReadHeader
  rw [bodyBuf_short hfilled hlen hn]
  rfl

/-- **A header is dealt with in bounds if and only if it announces at least its own length.** -/
theorem header_contained (hch : ch.AwaitsHeader) {header rest : List UInt8}
    (hinput : ch.input = header ++ rest) (hlen : header.length = 16) :
    ch.Contains lib g header ↔ 16 ≤ (lib.getCommandLength header).toNat := by
  constructor
  · rintro ⟨ch', hstep, -⟩
    by_contra hn
    rw [step_short_length hch hinput hlen (by omega)] at hstep
    cases hstep
  · intro hn
    obtain ⟨ch', hstep, hbody, -, -⟩ := step_header (g := g) hch hinput hlen hn
    refine ⟨ch', hstep, ?_⟩
    rw [if_pos hn]
    exact ⟨_, hbody, Nat.sub_add_cancel hn⟩

/-- A PDU of seventeen octets, on a new connection. -/
theorem header_contained_seventeen :
    (handleConnect (fun _ _ => 0) ⟨[]⟩ ([0, 0, 0, 17] ++ List.replicate 12 0 ++ [7])).Contains
        sampleLibrary (fun _ _ => 0) ([0, 0, 0, 17] ++ List.replicate 12 0) ↔
      16 ≤ (sampleLibrary.getCommandLength ([0, 0, 0, 17] ++ List.replicate 12 0)).toNat :=
  have hinput : (handleConnect (fun _ _ => 0) ⟨[]⟩
      ([0, 0, 0, 17] ++ List.replicate 12 0 ++ [7])).input =
        [0, 0, 0, 17] ++ List.replicate 12 0 ++ [7] := rfl
  header_contained (awaitsHeader_readHeader _ _) hinput (by decide)

/-- A header of zeros announces a PDU without octets, and the copy of the header overruns it. -/
theorem short_length_overruns : ¬∀ (lib : Library) (g : Nat → Nat → UInt8) (ch : Chain)
    (header rest : List UInt8), lib.ReadsLength → ch.AwaitsHeader → ch.input = header ++ rest →
      header.length = 16 → ch.Contains lib g header := by
  intro hevery
  let ch : Chain := handleConnect (fun _ _ => 0) ⟨[]⟩ (List.replicate 16 0)
  have hch : ch.AwaitsHeader := awaitsHeader_readHeader _ _
  have hinput : ch.input = List.replicate 16 0 ++ [] := rfl
  have hlen : (List.replicate 16 (0 : UInt8)).length = 16 := List.length_replicate
  have hshort : (sampleLibrary.getCommandLength (List.replicate 16 0)).toNat < 16 := by decide
  obtain ⟨ch', hstep, -⟩ := hevery sampleLibrary (fun _ _ => 0) ch _ []
    sampleLibrary_readsLength hch hinput hlen
  rw [step_short_length hch hinput hlen hshort] at hstep
  cases hstep

end Chain

end KissSmpp.Reader
