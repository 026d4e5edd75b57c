import Mathlib.Logic.Function.Basic

/-! # The `send` command

`SendHandler::run` builds a `submit_sm` from a request, field by field, and pushes it on the sending
queue; any of these steps can throw. What the client is told is the composition of what the `catch`
block and the code after it write to the response. -/

namespace KissSmpp.Application

/-! ## What the handler stands on -/

/-- A property tree as the handler reads it: `get` of a path as a string or as an octet, with or without
a value for the case that there is none. A read that throws gives the exception's `what()`. -/
structure BoostPtree where
  getString : String → Except String String
  getStringOr : String → String → Except String String
  getUInt8 : String → Except String UInt8
  getUInt8Or : String → UInt8 → Except String UInt8

/-- An address of a `submit_sm`. -/
structure Address where
  ton : UInt8
  npi : UInt8
  address : String
  deriving DecidableEq, Repr

/-- `smpp_pdu::PDU_submit_sm`, as far as the handler fills it in. -/
structure SubmitSm where
  serviceType : String
  sourceAddr : Address
  destinationAddr : Address
  esmClass : UInt8
  protocolId : UInt8
  priorityFlag : UInt8
  scheduleDeliveryTime : String
  validityPeriod : String
  registeredDelivery : UInt8
  replaceIfPresentFlag : UInt8
  dataCoding : UInt8
  smDefaultMsgId : UInt8
  shortMessage : String
  deriving DecidableEq, Repr

/-- The fields of a `submit_sm`. -/
inductive Field
  | serviceType | sourceAddrTon | sourceAddrNpi | sourceAddrAddress | destinationAddrTon
  | destinationAddrNpi | destinationAddrAddress | esmClass | protocolId | priorityFlag
  | scheduleDeliveryTime | validityPeriod | registeredDelivery | replaceIfPresentFlag | dataCoding
  | smDefaultMsgId | shortMessage
  deriving DecidableEq, Repr

/-- The libraries the handler calls: assigning to a field of a PDU gives the value the field holds then,
or throws; the push on the sending queue may throw, and leaves the queue as it was if it does. -/
structure Libraries where
  assignString : Field → String → Except String String
  assignUInt8 : Field → UInt8 → Except String UInt8
  push : SubmitSm → Except String Unit

/-- The statuses of `kisscpp` the handler reports. -/
inductive RequestStatus
  | RQST_SUCCESS | RQST_UNKNOWN
  deriving DecidableEq, Repr

/-- A value in a response. -/
inductive Value
  | status (st : RequestStatus)
  | text (s : String)
  deriving DecidableEq, Repr

/-- The response's tree: the value at each key. -/
abbrev Response := String → Option Value

/-- `put`: the value at a key that exists is replaced. -/
def Response.put (response : Response) (key : String) (v : Value) : Response :=
  Function.update response key (some v)

/-- What has been put at a key is found there. -/
@[simp] theorem Response.put_self (response : Response) (key : String) (v : Value) :
    response.put key v key = some v := Function.update_self ..

/-! ## The handler -/

variable (lib : Libraries) (cfg : BoostPtree)

/-- The PDU of the `try` block, from the request and the defaults of the configuration. -/
def submitPDU (request : BoostPtree) : Except String SubmitSm := do
  let serviceType ← lib.assignString .serviceType (← request.getStringOr "service-type" "")
  let sourceTon ← lib.assignUInt8 .sourceAddrTon (← request.getUInt8Or "source-addr-ton"
    (← cfg.getUInt8 "smpp-session.default-type-of-number"))
  let sourceNpi ← lib.assignUInt8 .sourceAddrNpi (← request.getUInt8Or "source-addr-npi"
    (← cfg.getUInt8 "smpp-session.default-number-plan-indicator"))
  let source ← lib.assignString .sourceAddrAddress (← request.getString "source-addr")
  let destinationTon ← lib.assignUInt8 .destinationAddrTon (← request.getUInt8Or
    "destination-addr-ton" (← cfg.getUInt8 "smpp-session.default-type-of-number"))
  let destinationNpi ← lib.assignUInt8 .destinationAddrNpi (← request.getUInt8Or
    "destination-addr-npi" (← cfg.getUInt8 "smpp-session.default-number-plan-indicator"))
  let destination ← lib.assignString .destinationAddrAddress (← request.getString "destination-addr")
  let esmClass ← lib.assignUInt8 .esmClass (← request.getUInt8Or "esm-class" 0)
  let protocolId ← lib.assignUInt8 .protocolId (← request.getUInt8Or "protocol-id" 0)
  let priorityFlag ← lib.assignUInt8 .priorityFlag (← request.getUInt8Or "priority-flag" 0)
  let scheduleDeliveryTime ← lib.assignString .scheduleDeliveryTime
    (← request.getStringOr "schedule-delivery-time" "")
  let validityPeriod ← lib.assignString .validityPeriod (← request.getStringOr "validity-period" "")
  let registeredDelivery ← lib.assignUInt8 .registeredDelivery
    (← request.getUInt8Or "registered-delivery" 3)
  let replaceIfPresentFlag ← lib.assignUInt8 .replaceIfPresentFlag
    (← request.getUInt8Or "replace-if-presentFlag" 0)
  let dataCoding ← lib.assignUInt8 .dataCoding (← request.getUInt8Or "data-coding" 3)
  let smDefaultMsgId ← lib.assignUInt8 .smDefaultMsgId (← request.getUInt8Or "sm-default-msg-id" 0)
  let shortMessage ← lib.assignString .shortMessage (← request.getString "short-message")
  return ⟨serviceType, ⟨sourceTon, sourceNpi, source⟩, ⟨destinationTon, destinationNpi, destination⟩,
    esmClass, protocolId, priorityFlag, scheduleDeliveryTime, validityPeriod, registeredDelivery,
    replaceIfPresentFlag, dataCoding, smDefaultMsgId, shortMessage⟩

/-- The `try` block: the sending queue it leaves, unless it throws. -/
def tryPush (request : BoostPtree) (sendingQ : List SubmitSm) : Except String (List SubmitSm) := do
  let pdu ← submitPDU lib cfg request
  lib.push pdu
  return sendingQ ++ [pdu]

/-- The `try` block with its `catch`: the sending queue and the response they leave. -/
def tryCatch (request : BoostPtree) (response : Response) (sendingQ : List SubmitSm) :
    List SubmitSm × Response :=
  match tryPush lib cfg request sendingQ with
  | .ok sendingQ => (sendingQ, response)
  | .error what =>
      (sendingQ, (response.put "kcm-sts" (.status .RQST_UNKNOWN)).put "kcm-erm" (.text what))

/-- `SendHandler::run`: what follows the `catch` follows it in either case. -/
def run (request : BoostPtree) (response : Response) (sendingQ : List SubmitSm) :
    List SubmitSm × Response :=
  let after := tryCatch lib cfg request response sendingQ
  (after.1, after.2.put "kcm-sts" (.status .RQST_SUCCESS))

/-! ## How the PDU is filled in -/

section

variable {lib cfg} {request : BoostPtree} {pdu : SubmitSm}

/-- A step that may throw and the rest give a value only if both do. -/
theorem bind_eq_ok {α β : Type} {x : Except String α} {f : α → Except String β} {b : β} :
    (x >>= f) = .ok b ↔ ∃ a, x = .ok a ∧ f a = .ok b := by
  cases x with
  | error e => exact iff_of_false nofun fun ⟨a, ha, _⟩ => nomatch ha
  | ok a => exact ⟨fun h => ⟨a, rfl, h⟩, fun ⟨a', ha, h⟩ => by cases ha; exact h⟩

/-- A field holds what it makes of the value that has been read. -/
def Filled {α : Type} (read : Except String α) (assign : α → Except String α) (held : α) : Prop :=
  ∃ v, read = .ok v ∧ assign v = .ok held

/-- A field is read and assigned to, and the rest follows. -/
theorem filled_bind {α β : Type} {read : Except String α} {assign : α → Except String α}
    {f : α → Except String β} {b : β} : (read >>= fun v => assign v >>= f) = .ok b ↔
      ∃ held, Filled read assign held ∧ f held = .ok b := by
  constructor
  · intro h
    obtain ⟨v, hread, h⟩ := bind_eq_ok.mp h
    obtain ⟨held, hassign, h⟩ := bind_eq_ok.mp h
    exact ⟨held, ⟨v, hread, hassign⟩, h⟩
  · rintro ⟨held, ⟨v, hread, hassign⟩, h⟩
    exact bind_eq_ok.mpr ⟨v, hread, bind_eq_ok.mpr ⟨held, hassign, h⟩⟩

section

variable {β : Type} {fld : Field} {key : String} {b : β}

/-- A string is read and assigned to its field, and the rest follows. -/
theorem filled_string {read : Except String String} {f : String → Except String β} :
    (read >>= fun v => lib.assignString fld v >>= f) = .ok b ↔
      ∃ held, Filled read (lib.assignString fld) held ∧ f held = .ok b := filled_bind

/-- An octet is read and assigned to its field, and the rest follows. -/
theorem filled_octet {read : Except String UInt8} {f : UInt8 → Except String β} :
    (read >>= fun v => lib.assignUInt8 fld v >>= f) = .ok b ↔
      ∃ held, Filled read (lib.assignUInt8 fld) held ∧ f held = .ok b := filled_bind

/-- The default is read before. -/
theorem filled_default {default : Except String UInt8} {f : UInt8 → Except String β} :
    (default >>= fun d => request.getUInt8Or key d >>= fun v => lib.assignUInt8 fld v >>= f) = .ok b ↔
      ∃ held, Filled (default >>= request.getUInt8Or key) (lib.assignUInt8 fld) held ∧ f held = .ok b := by
  rw [← filled_bind, bind_assoc]

end

variable (lib cfg request pdu) in
/-- **How a `submit_sm` is filled in**: from which key each of its fields comes, and with which default. -/
structure FilledFrom : Prop where
  serviceType : Filled (request.getStringOr "service-type" "") (lib.assignString .serviceType)
    pdu.serviceType
  sourceTon : Filled (cfg.getUInt8 "smpp-session.default-type-of-number" >>=
    request.getUInt8Or "source-addr-ton") (lib.assignUInt8 .sourceAddrTon) pdu.sourceAddr.ton
  sourceNpi : Filled (cfg.getUInt8 "smpp-session.default-number-plan-indicator" >>=
    request.getUInt8Or "source-addr-npi") (lib.assignUInt8 .sourceAddrNpi) pdu.sourceAddr.npi
  sourceAddress : Filled (request.getString "source-addr") (lib.assignString .sourceAddrAddress)
    pdu.sourceAddr.address
  destinationTon : Filled (cfg.getUInt8 "smpp-session.default-type-of-number" >>=
    request.getUInt8Or "destination-addr-ton") (lib.assignUInt8 .destinationAddrTon)
    pdu.destinationAddr.ton
  destinationNpi : Filled (cfg.getUInt8 "smpp-session.default-number-plan-indicator" >>=
    request.getUInt8Or "destination-addr-npi") (lib.assignUInt8 .destinationAddrNpi)
    pdu.destinationAddr.npi
  destinationAddress : Filled (request.getString "destination-addr")
    (lib.assignString .destinationAddrAddress) pdu.destinationAddr.address
  esmClass : Filled (request.getUInt8Or "esm-class" 0) (lib.assignUInt8 .esmClass) pdu.esmClass
  protocolId : Filled (request.getUInt8Or "protocol-id" 0) (lib.assignUInt8 .protocolId)
    pdu.protocolId
  priorityFlag : Filled (request.getUInt8Or "priority-flag" 0) (lib.assignUInt8 .priorityFlag)
    pdu.priorityFlag
  scheduleDeliveryTime : Filled (request.getStringOr "schedule-delivery-time" "")
    (lib.assignString .scheduleDeliveryTime) pdu.scheduleDeliveryTime
  validityPeriod : Filled (request.getStringOr "validity-period" "")
    (lib.assignString .validityPeriod) pdu.validityPeriod
  registeredDelivery : Filled (request.getUInt8Or "registered-delivery" 3)
    (lib.assignUInt8 .registeredDelivery) pdu.registeredDelivery
  replaceIfPresentFlag : Filled (request.getUInt8Or "replace-if-presentFlag" 0)
    (lib.assignUInt8 .replaceIfPresentFlag) pdu.replaceIfPresentFlag
  dataCoding : Filled (request.getUInt8Or "data-coding" 3) (lib.assignUInt8 .dataCoding)
    pdu.dataCoding
  smDefaultMsgId : Filled (request.getUInt8Or "sm-default-msg-id" 0)
    (lib.assignUInt8 .smDefaultMsgId) pdu.smDefaultMsgId
  shortMessage : Filled (request.getString "short-message") (lib.assignString .shortMessage)
    pdu.shortMessage

/-- **The PDU is built if and only if each of its fields is filled in.** -/
theorem submitPDU_eq_ok : submitPDU lib cfg request = .ok pdu ↔ FilledFrom lib cfg request pdu := by
  unfold submitPDU
  simp only [filled_string, filled_octet, filled_default]
  constructor
  · rintro ⟨_, h₁, _, h₂, _, h₃, _, h₄, _, h₅, _, h₆, _, h₇, _, h₈, _, h₉, _, h₁₀, _, h₁₁, _, h₁₂,
      _, h₁₃, _, h₁₄, _, h₁₅, _, h₁₆, _, h₁₇, hpdu⟩
    cases hpdu
    exact ⟨h₁, h₂, h₃, h₄, h₅, h₆, h₇, h₈, h₉, h₁₀, h₁₁, h₁₂, h₁₃, h₁₄, h₁₅, h₁₆, h₁₇⟩
  · rintro ⟨h₁, h₂, h₃, h₄, h₅, h₆, h₇, h₈, h₉, h₁₀, h₁₁, h₁₂, h₁₃, h₁₄, h₁₅, h₁₆, h₁₇⟩
    exact ⟨_, h₁, _, h₂, _, h₃, _, h₄, _, h₅, _, h₆, _, h₇, _, h₈, _, h₉, _, h₁₀, _, h₁₁, _, h₁₂,
      _, h₁₃, _, h₁₄, _, h₁₅, _, h₁₆, _, h₁₇, rfl⟩

end

/-! ## What is reported -/

/-- Exactly one PDU, built from the request, has been pushed. -/
def Queued (request : BoostPtree) (sendingQ sendingQ' : List SubmitSm) : Prop :=
  ∃ pdu, submitPDU lib cfg request = .ok pdu ∧ sendingQ' = sendingQ ++ [pdu]

/-- **What is reported is what has happened**: success exactly when the message has been queued; if it
has not, the queue is as it was, and an error is reported with its message. -/
structure Truthful (request : BoostPtree) (sendingQ sendingQ' : List SubmitSm)
    (response' : Response) : Prop where
  success : response' "kcm-sts" = some (.status .RQST_SUCCESS) ↔
    Queued lib cfg request sendingQ sendingQ'
  failure : ¬Queued lib cfg request sendingQ sendingQ' → sendingQ' = sendingQ ∧
    (∃ st, response' "kcm-sts" = some (.status st) ∧ st ≠ .RQST_SUCCESS) ∧
      ∃ what, response' "kcm-erm" = some (.text what)

/-- No read of a field or of a default, no assignment and not the push throws. -/
def Unexceptional (request : BoostPtree) : Prop :=
  ∃ pdu, submitPDU lib cfg request = .ok pdu ∧ lib.push pdu = .ok ()

variable {lib cfg} {request : BoostPtree} {response : Response} {sendingQ : List SubmitSm}

/-- Without an exception the PDU is at the end of the queue. -/
theorem tryPush_ok {pdu : SubmitSm} (hpdu : submitPDU lib cfg request = .ok pdu)
    (hpush : lib.push pdu = .ok ()) :
    tryPush lib cfg request sendingQ = .ok (sendingQ ++ [pdu]) := by
  unfold tryPush
  rw [hpdu]
  show (lib.push pdu >>= fun _ => _) = _
  rw [hpush]
  rfl

variable (sendingQ) in
/-- Otherwise the `catch` block runs. -/
theorem tryPush_error (h : ¬Unexceptional lib cfg request) :
    ∃ what, tryPush lib cfg request sendingQ = .error what := by
  unfold tryPush
  cases hpdu : submitPDU lib cfg request with
  | error what => exact ⟨what, rfl⟩
  | ok pdu =>
      cases hpush : lib.push pdu with
      | error what => exact ⟨what, by show (lib.push pdu >>= fun _ => _) = _; rw [hpush]; rfl⟩
      | ok u => exact absurd ⟨pdu, hpdu, hpush⟩ h

/-- **Success is reported in every case.** -/
theorem run_success : (run lib cfg request response sendingQ).2 "kcm-sts" =
    some (.status .RQST_SUCCESS) :=
  Response.put_self (tryCatch lib cfg request response sendingQ).2 "kcm-sts" _

/-- Without an exception the PDU is queued. -/
theorem run_queue {pdu : SubmitSm} (hpdu : submitPDU lib cfg request = .ok pdu)
    (hpush : lib.push pdu = .ok ()) :
    (run lib cfg request response sendingQ).1 = sendingQ ++ [pdu] := by
  unfold run tryCatch
  rw [tryPush_ok hpdu hpush]

/-- With one, the queue stays as it was. -/
theorem run_queue_same (h : ¬Unexceptional lib cfg request) :
    (run lib cfg request response sendingQ).1 = sendingQ := by
  obtain ⟨what, herror⟩ := tryPush_error sendingQ h
  unfold run tryCatch
  rw [herror]

/-- A queue that has grown is not what it was. -/
theorem unexceptional_of_run {pdu : SubmitSm}
    (h : (run lib cfg request response sendingQ).1 = sendingQ ++ [pdu]) :
    Unexceptional lib cfg request := by
  by_contra hthrown
  have hlen := congrArg List.length ((run_queue_same hthrown).symm.trans h)
  rw [List.length_append] at hlen
  exact absurd hlen (by simp)

/-- What has been queued has been built from the request. -/
theorem submitPDU_of_run {pdu : SubmitSm}
    (h : (run lib cfg request response sendingQ).1 = sendingQ ++ [pdu]) :
    submitPDU lib cfg request = .ok pdu := by
  obtain ⟨built, hbuilt, hpush⟩ := unexceptional_of_run h
  have heq : [built] = [pdu] := List.append_cancel_left ((run_queue hbuilt hpush).symm.trans h)
  rw [hbuilt, (List.cons.inj heq).1]

/-- **What is reported is what has happened if and only if nothing has thrown.** -/
theorem truthful_iff : Truthful lib cfg request sendingQ (run lib cfg request response sendingQ).1
    (run lib cfg request response sendingQ).2 ↔ Unexceptional lib cfg request := by
  constructor
  · intro htruthful
    obtain ⟨pdu, -, hqueue⟩ := htruthful.success.mp run_success
    exact unexceptional_of_run hqueue
  · rintro ⟨pdu, hpdu, hpush⟩
    have hqueued : Queued lib cfg request sendingQ (run lib cfg request response sendingQ).1 :=
      ⟨pdu, hpdu, run_queue hpdu hpush⟩
    exact ⟨iff_of_true run_success hqueued, fun hnot => absurd hqueued hnot⟩

/-- A tree with nothing in it. -/
def emptyPtree : BoostPtree where
  getString path := .error ("No such node (" ++ path ++ ")")
  getStringOr _ default := .ok default
  getUInt8 path := .error ("No such node (" ++ path ++ ")")
  getUInt8Or _ default := .ok default

/-- Libraries that accept every value. -/
def acceptingLibraries : Libraries where
  assignString _ v := .ok v
  assignUInt8 _ v := .ok v
  push _ := .ok ()

/-- A request without any field: nothing is queued, and success is reported. -/
theorem empty_request_reported_sent : ¬∀ (lib : Libraries) (cfg request : BoostPtree)
    (response : Response) (sendingQ : List SubmitSm),
      Truthful lib cfg request sendingQ (run lib cfg request response sendingQ).1
        (run lib cfg request response sendingQ).2 := by
  intro hevery
  have htruthful := hevery acceptingLibraries emptyPtree emptyPtree (fun _ => none) []
  obtain ⟨pdu, hpdu, -⟩ := htruthful.success.mp run_success
  cases hpdu

end KissSmpp.Application
