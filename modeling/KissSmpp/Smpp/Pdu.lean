import Mathlib.Data.List.Basic

/-! # SMPP protocol data units as the session sees them

The command ids and sequence-number bounds of the `smpp_pdu` library, the PDU objects the session
creates and queues, and the raw PDUs it reads from the socket. A header field is a `Nat` standing
for its 32-bit unsigned value. -/

namespace KissSmpp

/-! ## Command ids -/

/-- **SMPP command ids** (`smpp_pdu::CommandId`); `unknown v` is a value no command has. -/
inductive CommandId
  | GenericNack
  | BindReceiver | BindReceiverResp
  | BindTransmitter | BindTransmitterResp
  | QuerySm | QuerySmResp
  | SubmitSm | SubmitSmResp
  | DeliverSm | DeliverSmResp
  | Unbind | UnbindResp
  | ReplaceSm | ReplaceSmResp
  | CancelSm | CancelSmResp
  | BindTransceiver | BindTransceiverResp
  | Outbind
  | EnquireLink | EnquireLinkResp
  | SubmitMulti | SubmitMultiResp
  | AlertNotification
  | DataSm | DataSmResp
  | BroadcastSm | BroadcastSmResp
  | QueryBroadcastSm | QueryBroadcastSmResp
  | CancelBroadcastSm | CancelBroadcastSmResp
  | unknown (v : Nat)
  deriving DecidableEq, Repr

namespace CommandId

/-- The number of a command in the PDU header; a response has the number of its request with the top
bit set. -/
def value : CommandId → Nat
  | GenericNack => 0x80000000
  | BindReceiver => 0x00000001 | BindReceiverResp => 0x80000001
  | BindTransmitter => 0x00000002 | BindTransmitterResp => 0x80000002
  | QuerySm => 0x00000003 | QuerySmResp => 0x80000003
  | SubmitSm => 0x00000004 | SubmitSmResp => 0x80000004
  | DeliverSm => 0x00000005 | DeliverSmResp => 0x80000005
  | Unbind => 0x00000006 | UnbindResp => 0x80000006
  | ReplaceSm => 0x00000007 | ReplaceSmResp => 0x80000007
  | CancelSm => 0x00000008 | CancelSmResp => 0x80000008
  | BindTransceiver => 0x00000009 | BindTransceiverResp => 0x80000009
  | Outbind => 0x0000000B
  | EnquireLink => 0x00000015 | EnquireLinkResp => 0x80000015
  | SubmitMulti => 0x00000021 | SubmitMultiResp => 0x80000021
  | AlertNotification => 0x00000102
  | DataSm => 0x00000103 | DataSmResp => 0x80000103
  | BroadcastSm => 0x00000111 | BroadcastSmResp => 0x80000111
  | QueryBroadcastSm => 0x00000112 | QueryBroadcastSmResp => 0x80000112
  | CancelBroadcastSm => 0x00000113 | CancelBroadcastSmResp => 0x80000113
  | unknown v => v

/-- The commands of the protocol. -/
def known : List CommandId :=
  [GenericNack, BindReceiver, BindReceiverResp, BindTransmitter, BindTransmitterResp, QuerySm,
    QuerySmResp, SubmitSm, SubmitSmResp, DeliverSm, DeliverSmResp, Unbind, UnbindResp, ReplaceSm,
    ReplaceSmResp, CancelSm, CancelSmResp, BindTransceiver, BindTransceiverResp, Outbind,
    EnquireLink, EnquireLinkResp, SubmitMulti, SubmitMultiResp, AlertNotification, DataSm,
    DataSmResp, BroadcastSm, BroadcastSmResp, QueryBroadcastSm, QueryBroadcastSmResp,
    CancelBroadcastSm, CancelBroadcastSmResp]

/-- The command with a given number. -/
def ofValue (v : Nat) : CommandId := (known.find? fun c => c.value == v).getD (unknown v)

/-- The requests that carry or manage a message, which `send_pdu` admits in a transmitting state. -/
def isMessage : CommandId → Bool
  | BroadcastSm | CancelBroadcastSm | CancelSm | DataSm | QueryBroadcastSm | QuerySm | ReplaceSm
  | SubmitMulti | SubmitSm => true
  | _ => false

/-- The three bind requests. -/
def isBind : CommandId → Bool
  | BindReceiver | BindTransmitter | BindTransceiver => true
  | _ => false

end CommandId

/-! ## Sequence numbers -/

/-- The bounds of `smpp_pdu::SequenceNumber`. -/
def SequenceNumber.Min : Nat := 1

@[inherit_doc SequenceNumber.Min] def SequenceNumber.Max : Nat := 0x7FFFFFFF

/-- The command status of success. -/
def ESME_ROK : Nat := 0

/-! ## PDU objects -/

/-- The fields `do_bind_request` copies from the session configuration into a bind request. -/
structure BindFields where
  systemId : String
  password : String
  systemType : String
  interfaceVersion : Nat
  ton : Nat
  npi : Nat
  addressRange : String
  deriving DecidableEq, Repr

/-- The body of a PDU: nothing, the fields of a bind request, or octets the session only passes on. -/
inductive Body
  | empty
  | bind (fields : BindFields)
  | octets (bytes : List UInt8)
  deriving DecidableEq, Repr

/-- **A PDU object** (`smpp_pdu::SMPP_PDU`). Its sequence number is the one field the session changes
after the object has been queued. -/
structure Pdu where
  commandId : CommandId
  commandStatus : Nat
  sequenceNumber : Nat
  body : Body
  /-- The number of the request this PDU was built to answer, if any; kept for the record, it is not
  part of what is encoded. -/
  answers : Option Nat
  deriving DecidableEq, Repr

/-- A reference to a PDU object (`SharedSmppPdu`): its place in the heap of objects. -/
abbrev Ref := Nat

/-! ## PDUs from the peer -/

/-- **A PDU read from the socket** (`RawPdu`): the four header fields, the octets of the body, and
whether the constructor of its PDU class accepts it (`smpp_pdu` throws a `std::runtime_error`
otherwise). -/
structure RawPdu where
  cmdLength : Nat
  cmdId : Nat
  cmdStatus : Nat
  seqNum : Nat
  body : List UInt8
  decodes : Bool
  deriving DecidableEq, Repr

end KissSmpp
