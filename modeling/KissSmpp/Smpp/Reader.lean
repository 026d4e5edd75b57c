import KissSmpp.Memory.Blocks
import KissSmpp.Smpp.Pdu
import Mathlib.Algebra.Ring.Nat

/-! # Reading PDUs from the socket, byte by byte

The read chain of the session at the level of its buffers: the `RawPdu` object with the memory it
allocates, and the two handlers that fill it by turns. `KissSmpp.RawPdu` is what the rest of the
session sees of such an object once it is full. -/

namespace KissSmpp.Reader

open Memory

/-- The functions of `smpp_pdu` that read a header, and whether the constructor of the PDU's class
accepts its octets. -/
structure Library where
  getCommandLength : List UInt8 → UInt32
  getCommandId : List UInt8 → UInt32
  getCommandStatus : List UInt8 → UInt32
  getSequenceNumber : List UInt8 → UInt32
  decodes : List UInt8 → Bool

/-- The number four octets encode, the most significant first. -/
def bigEndian (bytes : List UInt8) : Nat := bytes.foldl (fun n b => n * 256 + b.toNat) 0

/-- What the library documents: the first four octets of a header are the length of the PDU. -/
def Library.ReadsLength (lib : Library) : Prop :=
  ∀ header, header.length = 16 → (lib.getCommandLength header).toNat = bigEndian (header.take 4)

/-- Octets encode a number of that many octets. -/
theorem bigEndian_lt (bytes : List UInt8) : bigEndian bytes < 256 ^ bytes.length := by
  have hfrom : ∀ (l : List UInt8) (n : Nat),
      l.foldl (fun n b => n * 256 + b.toNat) n < (n + 1) * 256 ^ l.length := by
    intro l
    induction l with
    | nil =>
        intro n
        show n < (n + 1) * 1
        omega
    | cons b l ih =>
        intro n
        have hb := b.toNat_lt
        calc (b :: l).foldl (fun n b => n * 256 + b.toNat) n
            < (n * 256 + b.toNat + 1) * 256 ^ l.length := ih _
          _ ≤ ((n + 1) * 256) * 256 ^ l.length := Nat.mul_le_mul_right _ (by omega)
          _ = (n + 1) * 256 ^ (b :: l).length := by
              rw [List.length_cons, Nat.pow_succ, Nat.mul_assoc, Nat.mul_comm 256]
  have h := hfrom bytes 0
  rwa [Nat.zero_add, Nat.one_mul] at h

/-- A library that reads the four fields of a header one after the other. -/
def sampleLibrary : Library where
  getCommandLength header := UInt32.ofNat (bigEndian (header.take 4))
  getCommandId header := UInt32.ofNat (bigEndian ((header.drop 4).take 4))
  getCommandStatus header := UInt32.ofNat (bigEndian ((header.drop 8).take 4))
  getSequenceNumber header := UInt32.ofNat (bigEndian ((header.drop 12).take 4))
  decodes _ := true

/-- The sample library reads the length as documented. -/
theorem sampleLibrary_readsLength : sampleLibrary.ReadsLength := by
  intro header hlen
  have hfour : (header.take 4).length = 4 := List.length_take_of_le (by omega)
  have hlt := bigEndian_lt (header.take 4)
  rw [hfour] at hlt
  exact UInt32.toNat_ofNat_of_lt' hlt

/-- The PDU a buffer holds, as the rest of the session sees it. -/
def Library.rawPdu (lib : Library) (bytes : List UInt8) : RawPdu where
  cmdLength := (lib.getCommandLength (bytes.take 16)).toNat
  cmdId := (lib.getCommandId (bytes.take 16)).toNat
  cmdStatus := (lib.getCommandStatus (bytes.take 16)).toNat
  seqNum := (lib.getSequenceNumber (bytes.take 16)).toNat
  body := bytes.drop 16
  decodes := lib.decodes bytes

/-! ## The buffers of a PDU -/

/-- **The members of a `RawPdu` object**: three pointers, `none` for `NULL`. -/
structure Buffers where
  header : Option Ptr
  fullBuffer : Option Ptr
  body : Option Ptr
  deriving DecidableEq, Repr

namespace Buffers

variable (lib : Library) (g : Nat → Nat → UInt8)

/-- The constructor: room for a header. -/
def construct (m : Heap UInt8) : Buffers × Heap UInt8 :=
  (⟨some (m.new g 16).1, none, none⟩, (m.new g 16).2)

/-- The destructor. -/
def destruct (o : Buffers) (m : Heap UInt8) : Option (Heap UInt8) :=
  match o.header, o.fullBuffer with
  | some _, some fullBuffer => m.delete fullBuffer
  | some header, none => m.delete header
  | none, _ => some m

/-- `cmd_length`. -/
def cmdLength (o : Buffers) (m : Heap UInt8) : Option UInt32 :=
  match o.header with
  | some header => (m.read header 16).map lib.getCommandLength
  | none => some 0

/-- `bodyLength`: the difference of two unsigned numbers. -/
def bodyLength (o : Buffers) (m : Heap UInt8) : Option UInt32 :=
  (o.cmdLength lib m).map fun n => n - 16

/-- `bodyBuf`: the header moves to a buffer with room for the whole PDU. -/
def bodyBuf (o : Buffers) (m : Heap UInt8) : Option (Buffers × Heap UInt8) :=
  match o.header with
  | none => some (o, m)
  | some header =>
    match o.fullBuffer with
    -- `delete` of what `new []` handed out is undefined
    | some _ => none
    | none => do
      let n ← o.cmdLength lib m
      let full := m.new g n.toNat
      let octets ← full.2.read header 16
      let m ← full.2.write full.1 octets
      let m ← m.delete header
      return (⟨some full.1, some full.1, some (full.1.add 16)⟩, m)

/-- `data`, with the octets from there to the end of the buffer. -/
def data (o : Buffers) (m : Heap UInt8) : Option (List UInt8) := o.fullBuffer.bind m.extent

end Buffers

/-! ## The read chain -/

/-- What a call of `process4state` is given: what `data()` points to, and `cmd_length()`. -/
structure Received where
  data : List UInt8
  cmdLength : UInt32
  deriving DecidableEq, Repr

/-- The handler an `async_read` was started with. -/
inductive Stage
  | header | body
  deriving DecidableEq, Repr

/-- An `async_read` under way: the buffer it is to fill, and the PDU its handler is bound to. -/
structure AsyncRead where
  stage : Stage
  rawpdu : Buffers
  buffer : Ptr
  size : Nat
  deriving DecidableEq, Repr

/-- **The read chain of a connection**: the memory, the octets the peer has still to deliver before
the connection ends, the calls of `process4state`, and the read under way, if there is one. -/
structure Chain where
  heap : Heap UInt8
  input : List UInt8
  processed : List Received
  outstanding : Option AsyncRead

namespace Chain

variable (lib : Library) (g : Nat → Nat → UInt8)

/-- `async_read` into the header of a new `RawPdu`. -/
def readHeader (ch : Chain) : Chain :=
  let new := Buffers.construct g ch.heap
  { ch with
    heap := new.2
    outstanding := new.1.header.map fun headerBuf => ⟨.header, new.1, headerBuf, 16⟩ }

/-- The read chain as `handle_connect` starts it. -/
def handleConnect (m : Heap UInt8) (input : List UInt8) : Chain :=
  readHeader g ⟨m, input, [], none⟩

/-- `handle_read_header` without an error. The two arguments of `buffer` may be evaluated in either
order: the header `bodyLength` looks at is the same before and after `bodyBuf`. -/
def handleReadHeader (ch : Chain) (rawpdu : Buffers) : Option Chain := do
  let (rawpdu, m) ← rawpdu.bodyBuf lib g ch.heap
  let size ← rawpdu.bodyLength lib m
  let buffer ← rawpdu.body
  return { ch with heap := m, outstanding := some ⟨.body, rawpdu, buffer, size.toNat⟩ }

/-- `handle_read_body` without an error, after which nothing refers to the PDU. -/
def handleReadBody (ch : Chain) (rawpdu : Buffers) : Option Chain := do
  let data ← rawpdu.data ch.heap
  let cmdLength ← rawpdu.cmdLength lib ch.heap
  let ch := readHeader g { ch with processed := ch.processed ++ [⟨data, cmdLength⟩] }
  let m ← rawpdu.destruct ch.heap
  return { ch with heap := m }

/-- Either handler with an error: no read is started, and nothing refers to the PDU any more. -/
def handleReadError (ch : Chain) (rawpdu : Buffers) : Option Chain := do
  let m ← rawpdu.destruct ch.heap
  return { ch with heap := m, outstanding := none }

/-- **The read under way completes**, without an error only if its whole buffer has been filled. A
chain in which no read is under way stands still; `none` is undefined behaviour. -/
def step (ch : Chain) : Option Chain :=
  match ch.outstanding with
  | none => some ch
  | some rd => do
    let m ← ch.heap.write rd.buffer (ch.input.take rd.size)
    let ch' := { ch with heap := m, input := ch.input.drop rd.size }
    if rd.size ≤ ch.input.length then
      match rd.stage with
      | .header => handleReadHeader lib g ch' rd.rawpdu
      | .body => handleReadBody lib g ch' rd.rawpdu
    else handleReadError ch' rd.rawpdu

/-- What `n` completions make of a chain. -/
def run : Nat → Chain → Option Chain
  | 0, ch => some ch
  | n + 1, ch => (ch.step lib g).bind (run n)

end Chain

end KissSmpp.Reader
