import KissSmpp.Session.Machine
import KissSmpp.Smpp.Reader

/-! # Inbound framing

Between two reads the chain is in one of two situations: the header of a new PDU is to be filled, or
the rest of a buffer that already begins with one. Each completed read leads from one to the other,
and what the two have put into the buffer by then is the PDU as the peer sent it. -/

namespace KissSmpp.Reader

open Memory

/-- The octets of a PDU as the peer sends it: at least a header, which begins with the length. -/
def Framed (p : List UInt8) : Prop := 16 ≤ p.length ∧ bigEndian (p.take 4) = p.length

namespace Chain

variable {lib : Library} {g : Nat → Nat → UInt8} {ch ch' : Chain}

/-- The read under way fills the header of a new PDU. -/
def AwaitsHeader (ch : Chain) : Prop :=
  ∃ b c, ch.outstanding = some ⟨.header, ⟨some ⟨b, 0⟩, none, none⟩, ⟨b, 0⟩, 16⟩ ∧
    ch.heap.block? b = some c ∧ c.length = 16

/-- The read under way fills the last `n` octets of a buffer that begins with `header`. -/
def AwaitsBody (ch : Chain) (header : List UInt8) (n : Nat) : Prop :=
  ∃ b c, ch.outstanding =
      some ⟨.body, ⟨some ⟨b, 0⟩, some ⟨b, 0⟩, some ⟨b, 16⟩⟩, ⟨b, 16⟩, n⟩ ∧
    ch.heap.block? b = some (header ++ c) ∧ header.length = 16 ∧ c.length = n

/-! ## Starting a read -/

/-- After it the chain awaits a header, in a block of its own. -/
theorem outstanding_readHeader (g : Nat → Nat → UInt8) (ch : Chain) :
    (readHeader g ch).outstanding =
      some ⟨.header, ⟨some (ch.heap.new g 16).1, none, none⟩, (ch.heap.new g 16).1, 16⟩ := rfl

/-- After it the chain awaits a header. -/
theorem awaitsHeader_readHeader (g : Nat → Nat → UInt8) (ch : Chain) :
    (readHeader g ch).AwaitsHeader := by
  refine ⟨_, _, outstanding_readHeader g ch, Heap.block?_new_self, ?_⟩
  rw [List.length_map, List.length_range]

/-! ## The two buffers -/

/-- The length in a header that starts a live block. -/
theorem cmdLength_eq {m : Heap UInt8} {o : Buffers} {b : Nat} {header c : List UInt8}
    (ho : o.header = some ⟨b, 0⟩) (hb : m.block? b = some (header ++ c))
    (hlen : header.length = 16) : o.cmdLength lib m = some (lib.getCommandLength header) := by
  unfold Buffers.cmdLength
  have hread : m.read ⟨b, 0⟩ 16 = some header := by
    have hroom : 0 + 16 ≤ (header ++ c).length := by
      rw [List.length_append]
      omega
    rw [Heap.read_eq hb hroom, List.drop_zero, ← hlen, List.take_left]
  rw [ho]
  show (m.read ⟨b, 0⟩ 16).map lib.getCommandLength = _
  rw [hread]
  rfl

/-- What `bodyBuf` does with a header: it is copied into a new buffer of as many octets as it says,
and its own block is released. -/
theorem bodyBuf_eq {m : Heap UInt8} {b : Nat} {header : List UInt8}
    (hb : m.block? b = some header) (hlen : header.length = 16) :
    Buffers.bodyBuf lib g ⟨some ⟨b, 0⟩, none, none⟩ m =
      let full := m.new g (lib.getCommandLength header).toNat
      (full.2.write full.1 header).bind fun m₁ =>
        (m₁.delete ⟨b, 0⟩).map fun m₂ => (⟨some full.1, some full.1, some (full.1.add 16)⟩, m₂) := by
  have hlength : Buffers.cmdLength lib ⟨some ⟨b, 0⟩, none, none⟩ m =
      some (lib.getCommandLength header) :=
    cmdLength_eq rfl (c := []) (by rwa [List.append_nil]) hlen
  have hold : (m.new g (lib.getCommandLength header).toNat).2.block? b = some header :=
    Heap.block?_new hb
  have hread : (m.new g (lib.getCommandLength header).toNat).2.read ⟨b, 0⟩ 16 = some header := by
    have hroom : 0 + 16 ≤ header.length := by omega
    rw [Heap.read_eq hold hroom, List.drop_zero, List.take_of_length_le (by omega)]
  unfold Buffers.bodyBuf
  simp only [hlength, hread, Option.bind_eq_bind, Option.bind_some, Option.map_eq_bind]
  rfl

/-- **`bodyBuf` on a header**: the header starts a buffer of as many octets as it says. -/
theorem bodyBuf_header {m : Heap UInt8} {b : Nat} {header : List UInt8}
    (hb : m.block? b = some header) (hlen : header.length = 16)
    (hn : 16 ≤ (lib.getCommandLength header).toNat) :
    ∃ b' c m', Buffers.bodyBuf lib g ⟨some ⟨b, 0⟩, none, none⟩ m =
        some (⟨some ⟨b', 0⟩, some ⟨b', 0⟩, some ⟨b', 16⟩⟩, m') ∧
      m'.block? b' = some (header ++ c) ∧
      c.length = (lib.getCommandLength header).toNat - 16 := by
  rw [bodyBuf_eq hb hlen]
  generalize (lib.getCommandLength header).toNat = n at hn
  -- the new buffer, the header copied into it, and the old header released
  have hnew := Heap.block?_new_self (m := m) (g := g) (n := n)
  have hold : (m.new g n).2.block? b = some header := Heap.block?_new hb
  have hroom : (m.new g n).1.offset + header.length ≤
      ((List.range n).map (g m.blocks.length)).length := by
    rw [List.length_map, List.length_range]
    show 0 + header.length ≤ n
    omega
  obtain ⟨m₁, hwrite, hcopied, hothers⟩ := Heap.write_eq hnew hroom
  have hne : (m.new g n).1.block ≠ b := Heap.new_ne hb
  obtain ⟨m₂, hdelete, hkept⟩ := Heap.delete_eq (m := m₁) (p := ⟨b, 0⟩)
    ((hothers b hne.symm).trans hold) rfl
  refine ⟨(m.new g n).1.block, ((List.range n).map (g m.blocks.length)).drop 16, m₂, ?_, ?_, ?_⟩
  · simp only [hwrite, hdelete, Option.bind_some, Option.map_some]
    rfl
  · rw [hkept _ hne, hcopied, overwrite]
    show some (List.take 0 _ ++ header ++ List.drop (0 + header.length) _) = _
    rw [List.take_zero, List.nil_append, Nat.zero_add, hlen]
  · rw [List.length_drop, List.length_map, List.length_range]

/-- **`handle_read_header`** on a header that has been read. -/
theorem handleReadHeader_header {b : Nat} {header : List UInt8}
    (hb : ch.heap.block? b = some header) (hlen : header.length = 16)
    (hn : 16 ≤ (lib.getCommandLength header).toNat) :
    ∃ ch', handleReadHeader lib g ch ⟨some ⟨b, 0⟩, none, none⟩ = some ch' ∧
      ch'.AwaitsBody header ((lib.getCommandLength header).toNat - 16) ∧
      ch'.input = ch.input ∧ ch'.processed = ch.processed := by
  obtain ⟨b', c, m, hbuf, hb', hc⟩ := bodyBuf_header (g := g) hb hlen hn
  have hlength : Buffers.cmdLength lib ⟨some ⟨b', 0⟩, some ⟨b', 0⟩, some ⟨b', 16⟩⟩ m =
      some (lib.getCommandLength header) := cmdLength_eq rfl hb' hlen
  have hsize : (lib.getCommandLength header - 16).toNat =
      (lib.getCommandLength header).toNat - 16 :=
    UInt32.toNat_sub_of_le _ _ (UInt32.le_iff_toNat_le.mpr hn)
  refine ⟨{ ch with
    heap := m
    outstanding := some ⟨.body, ⟨some ⟨b', 0⟩, some ⟨b', 0⟩, some ⟨b', 16⟩⟩, ⟨b', 16⟩,
      (lib.getCommandLength header).toNat - 16⟩ }, ?_, ⟨b', c, rfl, hb', hlen, hc⟩, rfl, rfl⟩
  unfold handleReadHeader Buffers.bodyLength
  simp only [hbuf, hlength, Option.bind_eq_bind, Option.bind_some, Option.map_some, hsize]
  rfl

/-- **`handle_read_body`** on a PDU that has been read: the PDU is processed, a header is awaited in
a block of its own, and the PDU's buffer is released. -/
theorem handleReadBody_pdu {b : Nat} {header body : List UInt8}
    (hb : ch.heap.block? b = some (header ++ body)) (hlen : header.length = 16) :
    ∃ ch', handleReadBody lib g ch ⟨some ⟨b, 0⟩, some ⟨b, 0⟩, some ⟨b, 16⟩⟩ = some ch' ∧
      ch'.AwaitsHeader ∧ ch'.input = ch.input ∧
      ch'.processed = ch.processed ++ [⟨header ++ body, lib.getCommandLength header⟩] := by
  have hdata : Buffers.data ⟨some ⟨b, 0⟩, some ⟨b, 0⟩, some ⟨b, 16⟩⟩ ch.heap =
      some (header ++ body) := Heap.extent_eq (p := ⟨b, 0⟩) hb (Nat.zero_le _)
  have hlength : Buffers.cmdLength lib ⟨some ⟨b, 0⟩, some ⟨b, 0⟩, some ⟨b, 16⟩⟩ ch.heap =
      some (lib.getCommandLength header) := cmdLength_eq rfl hb hlen
  obtain ⟨m, hdelete, hkept⟩ := Heap.delete_eq (m := (ch.heap.new g 16).2) (p := ⟨b, 0⟩)
    (Heap.block?_new hb) rfl
  have hnext := outstanding_readHeader g
    { ch with processed := ch.processed ++ [⟨header ++ body, lib.getCommandLength header⟩] }
  refine ⟨{ readHeader g
      { ch with processed := ch.processed ++ [⟨header ++ body, lib.getCommandLength header⟩] } with
    heap := m }, ?_, ⟨_, (List.range 16).map (g ch.heap.blocks.length), hnext, ?_, ?_⟩, rfl, rfl⟩
  · unfold handleReadBody Buffers.destruct
    simp only [hdata, hlength, Option.bind_eq_bind, Option.bind_some]
    show ((ch.heap.new g 16).2.delete ⟨b, 0⟩).bind _ = _
    rw [hdelete]
    rfl
  · exact (hkept _ (Heap.new_ne hb)).trans Heap.block?_new_self
  · rw [List.length_map, List.length_range]

/-! ## One read -/

/-- A read that fills its buffer. -/
theorem step_filled {rd : AsyncRead} {m : Heap UInt8} {bytes rest : List UInt8}
    (hout : ch.outstanding = some rd) (hinput : ch.input = bytes ++ rest)
    (hsize : bytes.length = rd.size) (hwrite : ch.heap.write rd.buffer bytes = some m) :
    ch.step lib g = match rd.stage with
      | .header => handleReadHeader lib g { ch with heap := m, input := rest } rd.rawpdu
      | .body => handleReadBody lib g { ch with heap := m, input := rest } rd.rawpdu := by
  have htake : ch.input.take rd.size = bytes := by rw [hinput, ← hsize, List.take_left]
  have hdrop : ch.input.drop rd.size = rest := by rw [hinput, ← hsize, List.drop_left]
  have hall : rd.size ≤ ch.input.length := by
    rw [hinput, List.length_append]
    omega
  unfold step
  split
  next hnone =>
    rw [hout] at hnone
    cases hnone
  next rd' hsome =>
    rw [hout] at hsome
    cases hsome
    rw [htake, hdrop, hwrite]
    exact if_pos hall

/-- **A header has been read**: what is under way next is the read of the rest. -/
theorem step_header (hch : ch.AwaitsHeader) {header rest : List UInt8}
    (hinput : ch.input = header ++ rest) (hlen : header.length = 16)
    (hn : 16 ≤ (lib.getCommandLength header).toNat) :
    ∃ ch', ch.step lib g = some ch' ∧
      ch'.AwaitsBody header ((lib.getCommandLength header).toNat - 16) ∧
      ch'.input = rest ∧ ch'.processed = ch.processed := by
  obtain ⟨b, c, hout, hb, hc⟩ := hch
  have hroom : 0 + header.length ≤ c.length := by omega
  obtain ⟨m, hwrite, hfilled, -⟩ := Heap.write_eq (p := ⟨b, 0⟩) hb hroom
  rw [overwrite_all (hlen.trans hc.symm)] at hfilled
  rw [step_filled hout hinput hlen hwrite]
  let ch₁ : Chain := { ch with heap := m, input := rest }
  have hfilled : ch₁.heap.block? b = some header := hfilled
  exact handleReadHeader_header hfilled hlen hn

variable (lib) in
/-- **The rest of a PDU has been read**: it is processed, and what is under way next is the read of
a header. -/
theorem step_body {header body rest : List UInt8} (hch : ch.AwaitsBody header body.length)
    (hinput : ch.input = body ++ rest) :
    ∃ ch', ch.step lib g = some ch' ∧ ch'.AwaitsHeader ∧ ch'.input = rest ∧
      ch'.processed = ch.processed ++ [⟨header ++ body, lib.getCommandLength header⟩] := by
  obtain ⟨b, c, hout, hb, hlen, hc⟩ := hch
  have hroom : 16 + body.length ≤ (header ++ c).length := by
    rw [List.length_append]
    omega
  obtain ⟨m, hwrite, hfilled, -⟩ := Heap.write_eq (p := ⟨b, 16⟩) hb hroom
  have hall : overwrite (header ++ c) 16 body = header ++ body := by
    rw [← hlen]
    exact overwrite_rest (by rw [List.length_append]; omega)
  rw [hall] at hfilled
  rw [step_filled hout hinput rfl hwrite]
  let ch₁ : Chain := { ch with heap := m, input := rest }
  have hfilled : ch₁.heap.block? b = some (header ++ body) := hfilled
  exact handleReadBody_pdu hfilled hlen

/-- **The connection ends within a read**: nothing more is processed. -/
theorem step_short {rd : AsyncRead} {b : Nat} {c : List UInt8} (hout : ch.outstanding = some rd)
    (hbuffer : rd.buffer.block = b) (hb : ch.heap.block? b = some c)
    (hroom : rd.buffer.offset + rd.size ≤ c.length) (hrelease : rd.rawpdu.header = some ⟨b, 0⟩ ∧
      (rd.rawpdu.fullBuffer = none ∨ rd.rawpdu.fullBuffer = some ⟨b, 0⟩))
    (hshort : ch.input.length < rd.size) :
    ∃ ch', ch.step lib g = some ch' ∧ ch'.outstanding = none ∧ ch'.processed = ch.processed := by
  have htake : (ch.input.take rd.size).length ≤ rd.size := List.length_take_le _ _
  obtain ⟨m₁, hwrite, hfilled, -⟩ := Heap.write_eq (p := rd.buffer) (d := ch.input.take rd.size)
    (hbuffer ▸ hb) (by omega)
  rw [hbuffer] at hfilled
  obtain ⟨m₂, hdelete, -⟩ := Heap.delete_eq (p := ⟨b, 0⟩) hfilled rfl
  have hdestruct : rd.rawpdu.destruct m₁ = some m₂ := by
    unfold Buffers.destruct
    obtain ⟨hheader, hfull | hfull⟩ := hrelease
    · rw [hheader, hfull]
      exact hdelete
    · rw [hheader, hfull]
      exact hdelete
  refine ⟨{ ch with heap := m₂, input := ch.input.drop rd.size, outstanding := none }, ?_, rfl, rfl⟩
  unfold step
  rw [hout]
  simp only [hwrite, Option.bind_eq_bind, Option.bind_some, if_neg (Nat.not_le.mpr hshort),
    handleReadError, hdestruct]
  rfl

variable (lib) in
/-- The connection ends within a header. -/
theorem step_short_header (hch : ch.AwaitsHeader) (hshort : ch.input.length < 16) :
    ∃ ch', ch.step lib g = some ch' ∧ ch'.outstanding = none ∧ ch'.processed = ch.processed := by
  obtain ⟨b, c, hout, hb, hc⟩ := hch
  exact step_short hout rfl hb (by show 0 + 16 ≤ c.length; omega) ⟨rfl, .inl rfl⟩ hshort

variable (lib) in
/-- The connection ends within a body. -/
theorem step_short_body {header : List UInt8} {n : Nat} (hch : ch.AwaitsBody header n)
    (hshort : ch.input.length < n) :
    ∃ ch', ch.step lib g = some ch' ∧ ch'.outstanding = none ∧ ch'.processed = ch.processed := by
  obtain ⟨b, c, hout, hb, hlen, hc⟩ := hch
  refine step_short hout rfl hb ?_ ⟨rfl, .inr rfl⟩ hshort
  show 16 + n ≤ (header ++ c).length
  rw [List.length_append]
  omega

/-! ## All reads -/

/-- **What a chain comes to**: however many reads have completed, nothing undefined has happened and
the calls of `process4state` are the first ones of `log`; after `k` reads they are all of `log`, and
no read is under way. -/
def ComesTo (lib : Library) (g : Nat → Nat → UInt8) (ch : Chain) (log : List Received) (k : Nat) :
    Prop :=
  ∀ n, ∃ ch', run lib g n ch = some ch' ∧ ch'.processed <+: log ∧
    (k ≤ n → ch'.outstanding = none ∧ ch'.processed = log)

/-- A chain in which no read is under way stands still. -/
theorem comesTo_of_ended {k : Nat} (h : ch.outstanding = none) :
    ComesTo lib g ch ch.processed k := by
  have hstep : ch.step lib g = some ch := by
    unfold step
    rw [h]
  have hrun : ∀ n, run lib g n ch = some ch := by
    intro n
    induction n with
    | zero => rfl
    | succ n ih =>
        show (ch.step lib g).bind (run lib g n) = _
        rw [hstep]
        exact ih
  intro n
  exact ⟨ch, hrun n, List.prefix_rfl, fun _ => ⟨h, rfl⟩⟩

/-- What a chain comes to after one more read. -/
theorem comesTo_step {log : List Received} {k : Nat} (hstep : ch.step lib g = some ch')
    (hlog : ch.processed <+: ch'.processed) (h : ComesTo lib g ch' log k) :
    ComesTo lib g ch log (k + 1) := by
  intro n
  cases n with
  | zero =>
      obtain ⟨ch₀, hrun, hpre, -⟩ := h 0
      cases hrun
      exact ⟨ch, rfl, hlog.trans hpre, fun hk => absurd hk (Nat.not_succ_le_zero k)⟩
  | succ n =>
      obtain ⟨ch₁, hrun, hpre, hend⟩ := h n
      refine ⟨ch₁, ?_, hpre, fun hk => hend (Nat.le_of_succ_le_succ hk)⟩
      show (ch.step lib g).bind (run lib g n) = _
      rw [hstep]
      exact hrun

/-- A bound on the reads may be raised. -/
theorem ComesTo.mono {log : List Received} {k k' : Nat} (h : ComesTo lib g ch log k) (hk : k ≤ k') :
    ComesTo lib g ch log k' := by
  intro n
  obtain ⟨ch', hrun, hpre, hend⟩ := h n
  exact ⟨ch', hrun, hpre, fun hn => hend (Nat.le_trans hk hn)⟩

/-! ## A sequence of PDUs -/

/-- The call of `process4state` a PDU is to lead to. -/
def received (lib : Library) (p : List UInt8) : Received := ⟨p, lib.getCommandLength (p.take 16)⟩

/-- The length of a framed PDU is what the library reads in its header. -/
theorem getCommandLength_framed (hlib : lib.ReadsLength) {p : List UInt8} (hp : Framed p) :
    (lib.getCommandLength (p.take 16)).toNat = p.length := by
  have hlen : (p.take 16).length = 16 := List.length_take_of_le hp.1
  have htake : (p.take 16).take 4 = p.take 4 := by rw [List.take_take]; rfl
  rw [hlib _ hlen, htake, hp.2]

/-- **A PDU arrives completely**: two reads lead to the next header, and it has been processed. -/
theorem comesTo_pdu (hlib : lib.ReadsLength) {p rest : List UInt8} (hp : Framed p)
    (hch : ch.AwaitsHeader) (hinput : ch.input = p ++ rest) {log : List Received} {k : Nat}
    (h : ∀ ch' : Chain, ch'.AwaitsHeader → ch'.input = rest →
      ch'.processed = ch.processed ++ [received lib p] → ComesTo lib g ch' log k) :
    ComesTo lib g ch log (k + 2) := by
  have hlen : (p.take 16).length = 16 := List.length_take_of_le hp.1
  have hn := getCommandLength_framed hlib hp
  have hbody : (p.drop 16).length = p.length - 16 := List.length_drop
  have hsplit : ch.input = p.take 16 ++ (p.drop 16 ++ rest) := by
    rw [hinput, ← List.append_assoc, List.take_append_drop]
  have hlong : 16 ≤ (lib.getCommandLength (p.take 16)).toNat := hn ▸ hp.1
  obtain ⟨ch₁, hstep₁, hch₁, hinput₁, hlog₁⟩ := step_header (g := g) hch hsplit hlen hlong
  rw [hn, ← hbody] at hch₁
  obtain ⟨ch₂, hstep₂, hch₂, hinput₂, hlog₂⟩ := step_body lib (g := g) hch₁ hinput₁
  rw [List.take_append_drop, hlog₁] at hlog₂
  refine comesTo_step hstep₁ (hlog₁ ▸ List.prefix_rfl) (comesTo_step hstep₂ ?_ ?_)
  · rw [hlog₂, hlog₁]
    exact List.prefix_append _ _
  · exact h ch₂ hch₂ hinput₂ hlog₂

/-- **The connection ends within a PDU**: nothing more is processed. -/
theorem comesTo_cut (hlib : lib.ReadsLength) {p : List UInt8} (hp : Framed p) {cut : Nat}
    (hcut : cut < p.length) (hch : ch.AwaitsHeader) (hinput : ch.input = p.take cut) :
    ComesTo lib g ch ch.processed 2 := by
  have hin : ch.input.length = cut := by rw [hinput, List.length_take_of_le (by omega)]
  by_cases hheader : cut < 16
  · obtain ⟨ch₁, hstep₁, hout₁, hlog₁⟩ := step_short_header lib (g := g) hch (by omega)
    refine comesTo_step hstep₁ (hlog₁ ▸ List.prefix_rfl) ?_
    rw [← hlog₁]
    exact comesTo_of_ended hout₁
  · have hlen : (p.take 16).length = 16 := List.length_take_of_le hp.1
    have hn := getCommandLength_framed hlib hp
    have hsplit : ch.input = p.take 16 ++ (p.take cut).drop 16 := by
      have htake : (p.take cut).take 16 = p.take 16 := by
        rw [List.take_take, Nat.min_eq_left (by omega)]
      rw [hinput, ← htake, List.take_append_drop]
    have hlong : 16 ≤ (lib.getCommandLength (p.take 16)).toNat := hn ▸ hp.1
    obtain ⟨ch₁, hstep₁, hch₁, hinput₁, hlog₁⟩ := step_header (g := g) hch hsplit hlen hlong
    have hshort : ch₁.input.length < (lib.getCommandLength (p.take 16)).toNat - 16 := by
      rw [hinput₁, hn, List.length_drop, ← hinput, hin]
      have := hp.1
      omega
    obtain ⟨ch₂, hstep₂, hout₂, hlog₂⟩ := step_short_body lib (g := g) hch₁ hshort
    refine comesTo_step hstep₁ (hlog₁ ▸ List.prefix_rfl)
      (comesTo_step hstep₂ (hlog₂ ▸ List.prefix_rfl) ?_)
    rw [← hlog₁, ← hlog₂]
    exact comesTo_of_ended hout₂

/-- **A sequence of PDUs of which only the first `cut` octets arrive.** The induction is on the
sequence; `m` counts the PDUs that arrive completely. -/
theorem comesTo_reads (hlib : lib.ReadsLength) (pdus : List (List UInt8)) (cut : Nat)
    (hpdus : ∀ p ∈ pdus, Framed p) :
    ∃ m ≤ pdus.length, (pdus.take m).flatten.length ≤ cut ∧
      (m < pdus.length → cut < (pdus.take (m + 1)).flatten.length) ∧
      ∀ ch : Chain, ch.AwaitsHeader → ch.input = pdus.flatten.take cut →
        ComesTo lib g ch (ch.processed ++ (pdus.take m).map (received lib))
          (2 * pdus.length + 1) := by
  induction pdus generalizing cut with
  | nil =>
      -- nothing arrives, and the read of a header is the last
      refine ⟨0, Nat.le_refl _, Nat.zero_le _, fun h => absurd h (Nat.lt_irrefl _), ?_⟩
      intro ch hch hinput
      have hnil : ch.input.length = 0 := by rw [hinput]; simp
      obtain ⟨ch₁, hstep₁, hout₁, hlog₁⟩ := step_short_header lib (g := g) hch (by omega)
      refine comesTo_step hstep₁ (hlog₁ ▸ List.prefix_rfl) ?_
      rw [List.take_nil, List.map_nil, List.append_nil, ← hlog₁]
      exact comesTo_of_ended hout₁
  | cons p ps ih =>
      have hp : Framed p := hpdus p List.mem_cons_self
      by_cases hall : p.length ≤ cut
      · -- the first PDU arrives completely
        obtain ⟨m, hm, hle, hlt, hcomes⟩ := ih (cut - p.length) fun q hq =>
          hpdus q (List.mem_cons_of_mem p hq)
        refine ⟨m + 1, Nat.succ_le_succ hm, ?_, ?_, ?_⟩
        · rw [List.take_succ_cons, List.flatten_cons, List.length_append]
          omega
        · intro hm'
          have := hlt (Nat.lt_of_succ_lt_succ hm')
          rw [List.take_succ_cons, List.flatten_cons, List.length_append]
          omega
        · intro ch hch hinput
          have hrest : ch.input = p ++ ps.flatten.take (cut - p.length) := by
            rw [hinput, List.flatten_cons, List.take_append, List.take_of_length_le hall]
          refine comesTo_pdu hlib hp hch hrest fun ch' hch' hinput' hlog' => ?_
          have hlog : ch.processed ++ ((p :: ps).take (m + 1)).map (received lib) =
              ch'.processed ++ (ps.take m).map (received lib) := by
            rw [hlog', List.take_succ_cons, List.map_cons, List.append_assoc, List.singleton_append]
          rw [hlog]
          exact hcomes ch' hch' hinput'
      · -- the connection ends within the first PDU
        refine ⟨0, Nat.zero_le _, Nat.zero_le _, fun _ => ?_, ?_⟩
        · rw [List.take_succ_cons, List.take_zero, List.flatten_cons, List.flatten_nil,
            List.append_nil]
          omega
        · intro ch hch hinput
          rw [List.take_zero, List.map_nil, List.append_nil]
          refine (comesTo_cut hlib hp (Nat.lt_of_not_le hall) hch ?_).mono ?_
          · rw [hinput, List.flatten_cons, List.take_append_of_le_length (by omega)]
          · rw [List.length_cons]
            omega

/-! ## The chain of the session -/

/-- The read the session has under way when a chain has: while the rest of a PDU is awaited, `p` is
the PDU its buffer is going to hold. -/
def io (lib : Library) (p : List UInt8) : Stage → Io
  | .header => .readHeader
  | .body => .readBody (lib.rawPdu p)

/-- **The session's handlers follow the chain**: on a header that has been read `handle_read_header`
starts the read of the rest, and on the rest `handle_read_body` processes the PDU and starts the read
of a header. -/
theorem session_follows (cfg : Params) (lib : Library) (p : List UInt8) (raw : RawPdu) :
    ((io lib p .header).handler (lib.rawPdu p) .success).body cfg =
        call (.asyncReadBody (lib.rawPdu p)) ∧
      ((io lib p .body).handler raw .success).body cfg = (do
        w4rQPop (lib.rawPdu p)
        process4state cfg (lib.rawPdu p)
        call .asyncReadHeader) :=
  ⟨rfl, rfl⟩

/-! ## The framing of a connection -/

/-- **Inbound framing**: of a sequence of PDUs of which the first `cut` octets arrive before the
connection ends, the read chain calls `process4state` for those PDUs that arrive completely, once for
each and in order, with just its octets and its length; and then it ends. -/
theorem inbound_framing (lib : Library) (hlib : lib.ReadsLength) (g : Nat → Nat → UInt8)
    (m₀ : Heap UInt8) (pdus : List (List UInt8)) (hpdus : ∀ p ∈ pdus, Framed p) (cut : Nat) :
    ∃ m ≤ pdus.length, (pdus.take m).flatten.length ≤ cut ∧
      (m < pdus.length → cut < (pdus.take (m + 1)).flatten.length) ∧
      ∃ log : List Received,
        log.map (fun x => (x.data, x.cmdLength.toNat)) =
          (pdus.take m).map (fun p => (p, p.length)) ∧
        ComesTo lib g (handleConnect g m₀ (pdus.flatten.take cut)) log (2 * pdus.length + 1) := by
  obtain ⟨m, hm, hle, hlt, hcomes⟩ := comesTo_reads (g := g) hlib pdus cut hpdus
  refine ⟨m, hm, hle, hlt, (pdus.take m).map (received lib), ?_, ?_⟩
  · rw [List.map_map]
    refine List.map_congr_left fun p hp => ?_
    show (p, (lib.getCommandLength (p.take 16)).toNat) = (p, p.length)
    rw [getCommandLength_framed hlib (hpdus p (List.mem_of_mem_take hp))]
  · exact hcomes _ (awaitsHeader_readHeader g _) rfl

/-- An `enquire_link_resp` with the number `1`, and one octet of a body. -/
def samplePdus : List (List UInt8) :=
  [[0, 0, 0, 16, 128, 0, 0, 21, 0, 0, 0, 0, 0, 0, 0, 1],
    [0, 0, 0, 17, 128, 0, 0, 4, 0, 0, 0, 0, 0, 0, 0, 2, 0]]

/-- Two PDUs of which the connection carries the first and the header of the second. -/
theorem inbound_framing_two :
    ∃ m ≤ samplePdus.length, (samplePdus.take m).flatten.length ≤ 32 ∧
      (m < samplePdus.length → 32 < (samplePdus.take (m + 1)).flatten.length) ∧
      ∃ log : List Received,
        log.map (fun x => (x.data, x.cmdLength.toNat)) =
          (samplePdus.take m).map (fun p => (p, p.length)) ∧
        ComesTo sampleLibrary (fun _ _ => 0)
          (handleConnect (fun _ _ => 0) ⟨[]⟩ (samplePdus.flatten.take 32)) log
          (2 * samplePdus.length + 1) :=
  inbound_framing sampleLibrary sampleLibrary_readsLength (fun _ _ => 0) ⟨[]⟩ samplePdus
    (by unfold Framed; decide) 32

end Chain

end KissSmpp.Reader
