import KissSmpp.Coding.Base64
import KissSmpp.Memory.Reads
import KissSmpp.Session.State
import KissSmpp.Smpp.Reader

/-! # PDUs on disk

`SmppPduBase64Bicoder` turns a PDU object into the text that a queue keeps in its pages, and such a text
into an object again. The class of the object is found by a switch over the command id; the octets are
passed on as a bare pointer, and how many of them are looked at is read from themselves. -/

namespace KissSmpp.Bicoder

open Memory Reader

/-! ## PDU classes -/

/-- The classes of `smpp_pdu` for the commands of the protocol. -/
inductive PduClass
  | alertNotification
  | bindReciever | bindRecieverResp
  | bindTransceiver | bindTransceiverResp
  | bindTransmitter | bindTransmitterResp
  | broadcastSm | broadcastSmResp
  | cancelBroadcastSm | cancelBroadcastSmResp
  | cancelSm | cancelSmResp
  | dataSm | dataSmResp
  | deliverSm | deliverSmResp
  | enquireLink | enquireLinkResp
  | genericNack
  | outbind
  | queryBroadcastSm | querybroadcastSmResp
  | querySm | querySmResp
  | replaceSm | replaceSmResp
  | submitMulti | submitMultiResp
  | submitSm | submitSmResp
  | unbind | unbindResp
  deriving DecidableEq, Repr

/-- The command a class is for. -/
def PduClass.commandId : PduClass → CommandId
  | alertNotification => .AlertNotification
  | bindReciever => .BindReceiver
  | bindRecieverResp => .BindReceiverResp
  | bindTransceiver => .BindTransceiver
  | bindTransceiverResp => .BindTransceiverResp
  | bindTransmitter => .BindTransmitter
  | bindTransmitterResp => .BindTransmitterResp
  | broadcastSm => .BroadcastSm
  | broadcastSmResp => .BroadcastSmResp
  | cancelBroadcastSm => .CancelBroadcastSm
  | cancelBroadcastSmResp => .CancelBroadcastSmResp
  | cancelSm => .CancelSm
  | cancelSmResp => .CancelSmResp
  | dataSm => .DataSm
  | dataSmResp => .DataSmResp
  | deliverSm => .DeliverSm
  | deliverSmResp => .DeliverSmResp
  | enquireLink => .EnquireLink
  | enquireLinkResp => .EnquireLinkResp
  | genericNack => .GenericNack
  | outbind => .Outbind
  | queryBroadcastSm => .QueryBroadcastSm
  | querybroadcastSmResp => .QueryBroadcastSmResp
  | querySm => .QuerySm
  | querySmResp => .QuerySmResp
  | replaceSm => .ReplaceSm
  | replaceSmResp => .ReplaceSmResp
  | submitMulti => .SubmitMulti
  | submitMultiResp => .SubmitMultiResp
  | submitSm => .SubmitSm
  | submitSmResp => .SubmitSmResp
  | unbind => .Unbind
  | unbindResp => .UnbindResp

/-- **The switch of `decode`**: the class whose constructor is called, if there is one. -/
def classOf : CommandId → Option PduClass
  | .AlertNotification => some .alertNotification
  | .BindReceiver => some .bindReciever
  | .BindReceiverResp => some .bindRecieverResp
  | .BindTransceiver => some .bindTransceiver
  | .BindTransceiverResp => some .bindTransceiverResp
  | .BindTransmitter => some .bindTransmitter
  | .BindTransmitterResp => some .bindTransmitterResp
  | .BroadcastSm => some .broadcastSm
  | .BroadcastSmResp => some .broadcastSmResp
  | .CancelBroadcastSm => some .cancelBroadcastSm
  | .CancelBroadcastSmResp => some .cancelBroadcastSmResp
  | .CancelSm => some .cancelSm
  | .CancelSmResp => some .cancelSmResp
  | .DataSm => some .dataSm
  | .DataSmResp => some .dataSmResp
  | .DeliverSm => some .deliverSm
  | .DeliverSmResp => some .deliverSmResp
  | .EnquireLink => some .enquireLink
  | .EnquireLinkResp => some .enquireLinkResp
  | .GenericNack => some .genericNack
  | .Outbind => some .outbind
  | .QueryBroadcastSm => some .queryBroadcastSm
  | .QueryBroadcastSmResp => some .querybroadcastSmResp
  | .QuerySm => some .querySm
  | .QuerySmResp => some .querySmResp
  | .ReplaceSm => some .replaceSm
  | .ReplaceSmResp => some .replaceSmResp
  | .SubmitMulti => some .submitMulti
  | .SubmitMultiResp => some .submitMultiResp
  | .SubmitSm => some .submitSm
  | .SubmitSmResp => some .submitSmResp
  | .Unbind => some .unbind
  | .UnbindResp => some .unbindResp
  -- `default`: the pointer stays null
  | .unknown _ => none

/-- **The switch goes by the class's own command**, in every case. -/
theorem classOf_eq_some {c : CommandId} {k : PduClass} : classOf c = some k ↔ k.commandId = c := by
  constructor
  · intro h
    cases c <;> cases h <;> rfl
  · rintro rfl
    cases k <;> rfl

/-- A command has a class if and only if the protocol knows it. -/
theorem classOf_isSome {c : CommandId} : (classOf c).isSome = true ↔ c ∈ CommandId.known := by
  cases c with
  | unknown v => exact iff_of_false Bool.false_ne_true (by simp [CommandId.known])
  | _ => exact iff_of_true rfl (by decide)

/-- The command with the number of a class's command is that command. -/
theorem ofValue_commandId (k : PduClass) : CommandId.ofValue k.commandId.value = k.commandId := by
  cases k <;> rfl

/-! ## Objects -/

/-- What a PDU object holds: the fields of its header, and its body. -/
structure Fields (β : Type) where
  commandId : CommandId
  commandStatus : UInt32
  sequenceNumber : UInt32
  body : β
  deriving DecidableEq, Repr

/-- A PDU object: what it is an instance of, and what it holds. -/
structure Object (β : Type) extends Fields β where
  pduClass : PduClass
  deriving DecidableEq, Repr

/-- **A PDU of one of the commands**: its command id is that of its class. -/
structure SmppPdu (β : Type) extends Object β where
  commandId_eq : commandId = pduClass.commandId

/-- **The libraries**: the coding of octets as text, the functions that read a header (from the four octets
they look at), and of each PDU class `encode` and the constructor from a buffer. -/
structure Library (β : Type) where
  encodeToBase64String : List UInt8 → String
  decodeFromBase64 : String → Except String (List UInt8)
  getCommandLength : List UInt8 → UInt32
  getCommandId : List UInt8 → UInt32
  encode : Object β → List UInt8
  construct : PduClass → View UInt8 → Except String (Fields β)

variable {β : Type} (lib : Library β) (beyond : View UInt8)

/-- `c_str()`: the octets of a string, a terminating zero, and whatever comes after. -/
def cStr (octets : List UInt8) : View UInt8 := View.of octets 0 beyond

/-- `SmppPduBase64Bicoder::encode`. -/
def encode (obj2encode : Object β) : String := lib.encodeToBase64String (lib.encode obj2encode)

/-- What a case of the switch makes `tSmppPduPtr` point to. What the constructor throws is caught, logged
and thrown again. -/
def reset (p : View UInt8) : Option PduClass → Reading String (Option (Object β))
  | none => return none
  | some c => do
    let fields ← Reading.lift (lib.construct c p)
    return some { fields with pduClass := c }

/-- **`SmppPduBase64Bicoder::decode`**, with what it reads of the decoded string itself. -/
def decode (str2decode : String) : Reading String (Option (Object β)) := do
  let pduString ← Reading.lift (lib.decodeFromBase64 str2decode)
  let p := cStr beyond pduString
  let cmdId := CommandId.ofValue (lib.getCommandId (← Reading.read p 4 4)).toNat
  let cmdlen := lib.getCommandLength (← Reading.read p 0 4)
  -- `hex_dump`
  let _ ← Reading.read p 0 cmdlen.toNat
  reset lib p (classOf cmdId)

/-! ## What uses it -/

/-- Why a function does not return. -/
inductive Stop
  | thrown (what : String)
  | undefined (f : Fault)
  deriving DecidableEq, Repr

/-- A pointer is dereferenced. -/
def deref {α : Type} : Option α → Except Stop α
  | some a => .ok a
  | none => .error (.undefined .nullPdu)

/-- `pop`, of a queue whose next entry has been read from a page. -/
def pop (entry : String) : Except Stop (Option (Object β)) :=
  (decode lib beyond entry).outcome.mapError Stop.thrown

/-- The beginning of `write_pdu`: it looks at the sequence number of what it has popped. -/
def writePdu (entry : String) : Except Stop UInt32 := do
  let pdu2send ← pop lib beyond entry
  let pdu ← deref pdu2send
  return pdu.sequenceNumber

/-- The beginning of a turn of `recieveProcessor`: `smpp2ptree` looks at the command id. -/
def recieveProcessor (entry : String) : Except Stop CommandId := do
  let popped ← pop lib beyond entry
  let pdu ← deref popped
  return pdu.commandId

/-! ## Libraries that behave as documented -/

/-- **The libraries invert what they write**: base64, and each class's `encode`, which writes the command
id of the class into the header. -/
structure Library.Inverts (lib : Library β) : Prop where
  base64 : ∀ octets, lib.decodeFromBase64 (lib.encodeToBase64String octets) = .ok octets
  construct : ∀ (pdu : SmppPdu β) (beyond : View UInt8),
    lib.construct pdu.pduClass (cStr beyond (lib.encode pdu.toObject)) = .ok pdu.toFields
  header : ∀ pdu : SmppPdu β, 8 ≤ (lib.encode pdu.toObject).length ∧
    (lib.getCommandId (((lib.encode pdu.toObject).drop 4).take 4)).toNat = pdu.pduClass.commandId.value

/-- The body of a PDU whose length fits into its header. -/
abbrev ShortBody := { octets : List UInt8 // octets.length + 16 < 2 ^ 32 }

/-- The four octets of a number, the most significant first. -/
def octets4 (n : UInt32) : List UInt8 :=
  [UInt8.ofNat (n.toNat / 16777216), UInt8.ofNat (n.toNat / 65536 % 256),
    UInt8.ofNat (n.toNat / 256 % 256), UInt8.ofNat (n.toNat % 256)]

/-- Four octets in network order give the number back. -/
theorem bigEndian_octets4 (n : UInt32) : bigEndian (octets4 n) = n.toNat := by
  have hn := n.toNat_lt
  simp only [bigEndian, octets4, List.foldl_cons, List.foldl_nil, UInt8.toNat_ofNat']
  omega

/-- The number the four octets from the `k`-th on encode. -/
def numberAt (v : View UInt8) (k : Nat) : Nat := bigEndian ((List.range 4).map fun i => v (k + i))

/-- A PDU is encoded as the four fields of its header and its body. -/
def encodePdu (pdu : Object ShortBody) : List UInt8 :=
  octets4 (UInt32.ofNat (pdu.body.1.length + 16)) ++ octets4 (UInt32.ofNat pdu.commandId.value) ++
    octets4 pdu.commandStatus ++ octets4 pdu.sequenceNumber ++ pdu.body.1

/-- The length in the header says where the body ends. -/
def constructPdu (v : View UInt8) : Except String (Fields ShortBody) :=
  let body := (List.range (numberAt v 0 - 16)).map fun i => v (16 + i)
  if h : 16 ≤ numberAt v 0 ∧ body.length + 16 < 2 ^ 32 then
    .ok
      { commandId := CommandId.ofValue (numberAt v 4)
        commandStatus := UInt32.ofNat (numberAt v 8)
        sequenceNumber := UInt32.ofNat (numberAt v 12)
        body := ⟨body, h.2⟩ }
  else .error "invalid command length"

/-- Base64, and PDUs in network byte order. -/
def networkLibrary : Library ShortBody where
  encodeToBase64String := Base64.encode
  decodeFromBase64 s :=
    match Base64.decode s with
    | some octets => .ok octets
    | none => .error "invalid base64"
  getCommandLength four := UInt32.ofNat (bigEndian four)
  getCommandId four := UInt32.ofNat (bigEndian four)
  encode := encodePdu
  construct _ := constructPdu

/-- An encoded PDU has the sixteen octets of the header, and its body. -/
theorem length_encodePdu (pdu : Object ShortBody) :
    (encodePdu pdu).length = pdu.body.1.length + 16 := by
  simp only [encodePdu, List.length_append, octets4, List.length_cons, List.length_nil]
  omega

/-- The command ids fit into the header. -/
theorem commandId_lt (k : PduClass) : k.commandId.value < 2 ^ 32 := by
  cases k <;> decide

/-- The constructor finds the fields where they have been written. -/
theorem constructPdu_encodePdu (pdu : SmppPdu ShortBody) (beyond : View UInt8) :
    constructPdu (cStr beyond (encodePdu pdu.toObject)) = .ok pdu.toFields := by
  have hlen := length_encodePdu pdu.toObject
  -- the four fields of the header are read four octets at a time
  have hfour : ∀ k, k + 4 ≤ 16 → numberAt (cStr beyond (encodePdu pdu.toObject)) k =
      bigEndian (((encodePdu pdu.toObject).drop k).take 4) := by
    intro k hk
    unfold numberAt cStr
    rw [View.read_of (by omega)]
  have hlength : numberAt (cStr beyond (encodePdu pdu.toObject)) 0 = pdu.body.1.length + 16 := by
    rw [hfour 0 (by omega)]
    exact (bigEndian_octets4 _).trans (UInt32.toNat_ofNat_of_lt' pdu.body.2)
  have hid : numberAt (cStr beyond (encodePdu pdu.toObject)) 4 = pdu.commandId.value := by
    rw [hfour 4 (by omega)]
    refine (bigEndian_octets4 _).trans (UInt32.toNat_ofNat_of_lt' ?_)
    rw [pdu.commandId_eq]
    exact commandId_lt pdu.pduClass
  have hstatus : numberAt (cStr beyond (encodePdu pdu.toObject)) 8 = pdu.commandStatus.toNat := by
    rw [hfour 8 (by omega)]
    exact bigEndian_octets4 _
  have hnumber : numberAt (cStr beyond (encodePdu pdu.toObject)) 12 = pdu.sequenceNumber.toNat := by
    rw [hfour 12 (by omega)]
    exact bigEndian_octets4 _
  -- the length is right, so the read of the body stays within the string
  have hbody : (List.range (numberAt (cStr beyond (encodePdu pdu.toObject)) 0 - 16)).map
      (fun i => cStr beyond (encodePdu pdu.toObject) (16 + i)) = pdu.body.1 := by
    rw [hlength, Nat.add_sub_cancel]
    refine (View.read_of (by omega)).trans ?_
    show pdu.body.1.take _ = _
    exact List.take_length
  unfold constructPdu
  rw [dif_pos ⟨by omega, by rw [hbody]; exact pdu.body.2⟩]
  simp only [hbody, hid, hstatus, hnumber, UInt32.ofNat_toNat]
  rw [pdu.commandId_eq, ofValue_commandId, ← pdu.commandId_eq]

/-- **These libraries invert what they write.** -/
theorem networkLibrary_inverts : networkLibrary.Inverts where
  base64 octets := by
    show (match Base64.decode (Base64.encode octets) with
      | some octets => .ok octets
      | none => .error "invalid base64" : Except String (List UInt8)) = _
    rw [Base64.decode_encode]
  construct := constructPdu_encodePdu
  header pdu := by
    have hlen := length_encodePdu pdu.toObject
    refine ⟨by show 8 ≤ (encodePdu pdu.toObject).length; omega, ?_⟩
    have hvalue : pdu.commandId.value < 2 ^ 32 := by
      rw [pdu.commandId_eq]
      exact commandId_lt pdu.pduClass
    have hoctets : bigEndian (((encodePdu pdu.toObject).drop 4).take 4) = pdu.commandId.value :=
      (bigEndian_octets4 _).trans (UInt32.toNat_ofNat_of_lt' hvalue)
    show (UInt32.ofNat (bigEndian (((encodePdu pdu.toObject).drop 4).take 4))).toNat = _
    rw [hoctets, UInt32.toNat_ofNat_of_lt' hvalue, pdu.commandId_eq]

end KissSmpp.Bicoder
