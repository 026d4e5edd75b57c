import KissSmpp.Memory.Blocks
import KissSmpp.Smpp.Pdu
import Mathlib.Algebra.Ring.Nat

/-! # Writing PDUs to the socket, piece by piece

What `write_pdu` puts on the socket, at the level of its buffer. `tbuf` is a variable of the function:
its octets are released when the function returns. `async_write` keeps a reference to them, and reads
them whenever it can send some more; whether that happens inside the call or later is not up to the
session. -/

namespace KissSmpp.Writer

open Memory

/-- An `async_write` under way: the buffer it was given, and how many of its octets have been sent. -/
structure AsyncWrite where
  buffer : Ptr
  size : Nat
  sent : Nat
  deriving DecidableEq, Repr

/-- **The sending side of a connection**: the memory, the octets that have been put on the socket, and
the write under way, if there is one. -/
structure Line where
  heap : Heap UInt8
  socket : List UInt8
  outstanding : Option AsyncWrite

namespace Line

/-- **A partial send** of `n` octets: they are read from the buffer now; `none` is undefined behaviour. -/
def send (n : Nat) (l : Line) : Option Line := do
  let w ← l.outstanding
  let octets ← l.heap.read (w.buffer.add w.sent) n
  return { l with socket := l.socket ++ octets, outstanding := some { w with sent := w.sent + n } }

/-- Partial sends, one after the other. -/
def sends : List Nat → Line → Option Line
  | [], l => some l
  | n :: ns, l => (l.send n).bind (sends ns)

variable (encode : Pdu → List UInt8) (g : Nat → Nat → UInt8)

/-- `write_pdu` from the point where the PDU is encoded; the partial sends `during` happen inside the
call of `async_write`. -/
def writePdu (pdu2send : Pdu) (during : List Nat) (l : Line) : Option Line := do
  let tbuf := l.heap.new g (encode pdu2send).length
  let m ← tbuf.2.write tbuf.1 (encode pdu2send)
  let l ← sends during { l with heap := m, outstanding := some ⟨tbuf.1, (encode pdu2send).length, 0⟩ }
  -- the scope of `tbuf` ends
  let m ← l.heap.delete tbuf.1
  return { l with heap := m }

/-- The whole transmission: what is sent inside the call, and what is sent `after` it. -/
def transmit (pdu2send : Pdu) (during after : List Nat) (l : Line) : Option Line :=
  (l.writePdu encode g pdu2send during).bind (sends after)

end Line

/-- **A way to send `size` octets in pieces**, some of them inside the call and the others after it. -/
structure Split (size : Nat) where
  during : List Nat
  after : List Nat
  pos : ∀ n ∈ during ++ after, 0 < n
  total : (during ++ after).sum = size

/-! ## Partial sends -/

namespace Line

variable {encode : Pdu → List UInt8} {g : Nat → Nat → UInt8} {l l' : Line}

/-- The write under way has sent the first `k` of these octets, and their buffer is there. -/
def Sending (l : Line) (b : Nat) (octets : List UInt8) (k : Nat) : Prop :=
  l.outstanding = some ⟨⟨b, 0⟩, octets.length, k⟩ ∧ l.heap.block? b = some octets

/-- A partial send from a buffer that is there. -/
theorem send_sending {b k n : Nat} {octets : List UInt8} (h : l.Sending b octets k)
    (hn : k + n ≤ octets.length) :
    ∃ l', l.send n = some l' ∧ l'.Sending b octets (k + n) ∧
      l'.socket = l.socket ++ (octets.drop k).take n := by
  obtain ⟨hout, hb⟩ := h
  have hroom : (⟨b, 0 + k⟩ : Ptr).offset + n ≤ octets.length := by
    show 0 + k + n ≤ _
    omega
  have hread : l.heap.read ⟨b, 0 + k⟩ n = some ((octets.drop k).take n) := by
    rw [Heap.read_eq hb hroom, Nat.zero_add]
  refine ⟨{ l with
    socket := l.socket ++ (octets.drop k).take n
    outstanding := some ⟨⟨b, 0⟩, octets.length, k + n⟩ }, ?_, ⟨rfl, hb⟩, rfl⟩
  unfold send
  rw [hout]
  show (l.heap.read ⟨b, 0 + k⟩ n).bind _ = _
  rw [hread]
  rfl

/-- **Partial sends from a buffer that is there** put its octets on the socket, in order. -/
theorem sends_sending {b k : Nat} {octets : List UInt8} (ns : List Nat) (h : l.Sending b octets k)
    (hn : k + ns.sum ≤ octets.length) :
    ∃ l', l.sends ns = some l' ∧ l'.Sending b octets (k + ns.sum) ∧
      l'.socket = l.socket ++ (octets.drop k).take ns.sum := by
  induction ns generalizing l k with
  | nil =>
      refine ⟨l, rfl, h, ?_⟩
      show l.socket = l.socket ++ (octets.drop k).take 0
      rw [List.take_zero, List.append_nil]
  | cons n ns ih =>
      rw [List.sum_cons] at hn ⊢
      obtain ⟨l₁, hsend, hl₁, hsocket₁⟩ := send_sending h (n := n) (by omega)
      obtain ⟨l₂, hsends, hl₂, hsocket₂⟩ := ih hl₁ (by omega)
      refine ⟨l₂, ?_, ?_, ?_⟩
      · show (l.send n).bind (sends ns) = _
        rw [hsend]
        exact hsends
      · rwa [← Nat.add_assoc]
      · rw [hsocket₂, hsocket₁, List.append_assoc, List.take_add, List.drop_drop]

/-- A partial send from a buffer that has been released is undefined. -/
theorem send_released {w : AsyncWrite} (hout : l.outstanding = some w)
    (hb : l.heap.block? w.buffer.block = none) (n : Nat) : l.send n = none := by
  unfold send Heap.read Heap.extent
  rw [hout]
  show ((l.heap.block? w.buffer.block).bind _ |>.bind _ |>.bind _) = none
  rw [hb]
  rfl

variable (encode g l) in
/-- **`write_pdu`**: what is sent inside the call is the beginning of the encoded PDU, and the buffer is
gone when it returns. -/
theorem writePdu_eq (pdu2send : Pdu) (during : List Nat)
    (hn : during.sum ≤ (encode pdu2send).length) :
    ∃ l' w, l.writePdu encode g pdu2send during = some l' ∧ l'.outstanding = some w ∧
      l'.heap.block? w.buffer.block = none ∧
      l'.socket = l.socket ++ (encode pdu2send).take during.sum := by
  have hnew := Heap.block?_new_self (m := l.heap) (g := g) (n := (encode pdu2send).length)
  have hroom : (l.heap.new g (encode pdu2send).length).1.offset + (encode pdu2send).length ≤
      ((List.range (encode pdu2send).length).map (g l.heap.blocks.length)).length := by
    rw [List.length_map, List.length_range]
    show 0 + _ ≤ _
    omega
  obtain ⟨m, hwrite, hfilled, -⟩ := Heap.write_eq hnew hroom
  have hall : overwrite ((List.range (encode pdu2send).length).map (g l.heap.blocks.length)) 0
      (encode pdu2send) = encode pdu2send :=
    overwrite_all (by rw [List.length_map, List.length_range])
  rw [show (l.heap.new g (encode pdu2send).length).1.offset = 0 from rfl, hall] at hfilled
  -- the line once `tbuf` is filled and handed to `async_write`
  let l₁ : Line := { l with
    heap := m
    outstanding := some ⟨⟨l.heap.blocks.length, 0⟩, (encode pdu2send).length, 0⟩ }
  have hl₁ : l₁.Sending l.heap.blocks.length (encode pdu2send) 0 := ⟨rfl, hfilled⟩
  -- the socket takes its octets while `tbuf` is still there, then `tbuf` goes
  obtain ⟨l₂, hsends, ⟨hout, hb⟩, hsocket⟩ := sends_sending during hl₁ (by omega)
  obtain ⟨m', hdelete, hgone⟩ := Heap.delete_released (p := ⟨l.heap.blocks.length, 0⟩) hb rfl
  refine ⟨{ l₂ with heap := m' }, _, ?_, hout, hgone, ?_⟩
  · unfold writePdu
    show ((l.heap.new g _).2.write _ _).bind _ = _
    rw [hwrite]
    show (sends during l₁).bind _ = _
    rw [hsends]
    show (l₂.heap.delete ⟨l.heap.blocks.length, 0⟩).bind _ = _
    rw [hdelete]
    rfl
  · show l₂.socket = _
    rw [hsocket, List.drop_zero]

/-- **The octets on the socket are those of the encoded PDU if and only if all of them are sent inside
the call of `write_pdu`.** -/
theorem outbound_octets_iff (pdu2send : Pdu) (p : Split (encode pdu2send).length) :
    (∃ l', l.transmit encode g pdu2send p.during p.after = some l' ∧
        l'.socket = l.socket ++ encode pdu2send) ↔ p.after = [] := by
  have htotal : p.during.sum + p.after.sum = (encode pdu2send).length := by
    rw [← List.sum_append, p.total]
  obtain ⟨l₁, w, hwrite, hout, hgone, hsocket⟩ :=
    writePdu_eq encode g l pdu2send p.during (by omega)
  unfold transmit
  rw [hwrite]
  cases hafter : p.after with
  | nil =>
      rw [hafter, List.sum_nil, Nat.add_zero] at htotal
      refine iff_of_true ⟨l₁, rfl, ?_⟩ rfl
      rw [hsocket, htotal, List.take_length]
  | cons n ns =>
      refine iff_of_false ?_ (List.cons_ne_nil n ns)
      rintro ⟨l', hl', -⟩
      -- the first octets that are sent later are read from a buffer that is gone
      have hnone : l₁.sends (n :: ns) = none := by
        show (l₁.send n).bind (sends ns) = none
        rw [send_released hout hgone]
        rfl
      have hl' : l₁.sends (n :: ns) = some l' := hl'
      rw [hnone] at hl'
      cases hl'

/-- A PDU of sixteen octets, of which the last four are sent after `write_pdu` has returned. -/
theorem late_octets_undefined : ¬∀ (encode : Pdu → List UInt8) (g : Nat → Nat → UInt8) (l : Line)
    (pdu2send : Pdu) (p : Split (encode pdu2send).length),
      ∃ l', l.transmit encode g pdu2send p.during p.after = some l' ∧
        l'.socket = l.socket ++ encode pdu2send := by
  intro hevery
  let p : Split (List.replicate 16 (7 : UInt8)).length := ⟨[12], [4], by decide, by decide⟩
  obtain ⟨l', hl', -⟩ := hevery (fun _ => List.replicate 16 7) (fun _ _ => 0) ⟨⟨[]⟩, [], none⟩
    ⟨.EnquireLink, ESME_ROK, 5, .empty, none⟩ p
  cases hl'

end Line

end KissSmpp.Writer
