import KissSmpp.Application.SendHandler
import KissSmpp.Session.Manager

/-! # The configuration of the process

What the process takes from its configuration before the first connection: the fields of the bind request, the
type of bind, the throttle limit, the name of the persisted queue, and whether there is a `send` command at all.
A read that fails throws and ends the process; a type of bind that is none of the three, and a throttle limit of
zero, are undefined. -/

namespace KissSmpp.Application

/-! ## What is read -/

/-- The configuration, `CFG`: a property tree that is also read for numbers. -/
structure Configuration extends BoostPtree where
  getUnsigned : String → Except String Nat
  getIntOr : String → Int → Except String Int

/-- The fields of a bind request in `smpp_pdu`, as what they make of an assigned value, and the resolver. -/
structure SessionLibraries where
  systemId : String → Except String String
  password : String → Except String String
  systemType : String → Except String String
  interfaceVersion : UInt8 → Except String UInt8
  ton : UInt8 → Except String UInt8
  npi : UInt8 → Except String UInt8
  addressRange : String → Except String String
  resolve : String → String → Except String Unit

/-- How the construction of the process ends if it does not succeed. -/
inductive Failure
  | threw (what : String)
  | undefined
  deriving DecidableEq, Repr

/-- A step that may throw. -/
def attempt {α : Type} (x : Except String α) : Except Failure α := x.mapError .threw

/-- What `c_str()` shows of a string. -/
def cString (s : String) : String := String.ofList (s.toList.takeWhile (· ≠ '\x00'))

/-- `makeInterfaceVersion`. -/
def makeInterfaceVersion : Int → UInt8
  | 33 => 0x33
  | 34 => 0x34
  | 50 => 0x50
  | _ => 0x34

/-- `makeBindType`: with any other string it does not return a value. -/
def makeBindType (s : String) : Except Failure BindType :=
  if s = "RX" then .ok .RX
  else if s = "TX" then .ok .TX
  else if s = "TRX" then .ok .TRX
  else .error .undefined

variable (lib : SessionLibraries) (cfg : Configuration)

/-- The constructor of `SmppSessionConfiguration`. -/
def smppSessionConfiguration : Except Failure SmppSessionConfiguration := do
  let _enquireLinkTimeout ← attempt (cfg.getUnsigned "smpp-session.enquire-link-period")
  let _enquireLinkRespTimeout ← attempt (cfg.getUnsigned "smpp-session.enquire-link-response-timeout")
  let systemId ← attempt (lib.systemId (cString (← attempt (cfg.getString "smpp-session.system-id"))))
  let password ← attempt (lib.password (cString (← attempt (cfg.getString "smpp-session.password"))))
  let systemType ← attempt (lib.systemType (cString (← attempt (cfg.getString "smpp-session.system-type"))))
  let interfaceVersion ← attempt (lib.interfaceVersion
    (makeInterfaceVersion (← attempt (cfg.getIntOr "smpp-session.interface-version" 34))))
  let addrTon ← attempt (lib.ton (← attempt (cfg.getUInt8 "smpp-session.default-type-of-number")))
  let addrNpi ← attempt (lib.npi (← attempt (cfg.getUInt8 "smpp-session.default-number-plan-indicator")))
  let addressRange ←
    attempt (lib.addressRange (cString (← attempt (cfg.getString "smpp-session.address-range"))))
  let txThrottleLimit ← attempt (cfg.getUnsigned "smpp-session.tx-throttle-limit")
  let typeOfBind ← makeBindType (← attempt (cfg.getString "smpp-session.bind-type"))
  return {
    bindFields :=
      ⟨systemId, password, systemType, interfaceVersion.toNat, addrTon.toNat, addrNpi.toNat, addressRange⟩
    txThrottleLimit
    typeOfBind }

/-- `start_session`: the microseconds between two sends. -/
def startSession (smppcfg : SmppSessionConfiguration) : Except Failure Nat := do
  let host ← attempt (cfg.getString "message-centre.host")
  let port ← attempt (cfg.getString "message-centre.port")
  attempt (lib.resolve host port)
  if smppcfg.txThrottleLimit = 0 then .error .undefined else return 1000000 / smppcfg.txThrottleLimit

/-- `setTxq`: the name of the transmit queue. -/
def txqName : BindType → String
  | .TX => "tx_" ++ "MessageTxq"
  | .RX => "rx_" ++ "MessageTxq"
  | .TRX => "trx" ++ "MessageTxq"

/-- `registerHandlers`: without sending there is no `send` command. -/
def registerHandlers : Except Failure Bool := do
  let bindType ← makeBindType (← attempt (cfg.getString "smpp-session.bind-type"))
  return bindType != .RX

/-- What the constructor of `ksmppc` leaves, as far as it comes from the configuration. -/
structure Process where
  smppcfg : SmppSessionConfiguration
  timeBetweenSends : Nat
  txQ : String
  sendHandler : Bool
  deriving DecidableEq, Repr

/-- The constructor of `ksmppc`: first the session, then the handlers. -/
def ksmppc : Except Failure Process := do
  let smppcfg ← smppSessionConfiguration lib cfg
  let timeBetweenSends ← startSession lib cfg smppcfg
  let sendHandler ← registerHandlers cfg
  return ⟨smppcfg, timeBetweenSends, txqName smppcfg.typeOfBind, sendHandler⟩

/-! ## What has been read -/

section

variable {lib cfg} {α β : Type} {smppcfg : SmppSessionConfiguration} {process : Process}

/-- A step that may fail and the rest succeed together. -/
theorem step_ok {x : Except Failure α} {f : α → Except Failure β} {b : β} :
    (x >>= f) = .ok b ↔ ∃ a, x = .ok a ∧ f a = .ok b := by
  cases x with
  | error e => exact iff_of_false (fun h => by cases h) fun ⟨a, ha, _⟩ => by cases ha
  | ok a => exact ⟨fun h => ⟨a, rfl, h⟩, fun ⟨a', ha, h⟩ => by cases ha; exact h⟩

/-- An attempt succeeds as what is attempted does. -/
theorem attempt_ok {x : Except String α} {a : α} : attempt x = .ok a ↔ x = .ok a := by
  cases x with
  | error e => exact iff_of_false (fun h => by cases h) fun h => by cases h
  | ok a' => exact ⟨fun h => by cases h; rfl, fun h => by cases h; rfl⟩

/-- A value is read and assigned, and the rest follows. -/
theorem filled_ok {read : Except String α} (assign : α → Except String α) {f : α → Except Failure β} {b : β}
    (h : (attempt read >>= fun v => attempt (assign v) >>= f) = .ok b) :
    ∃ held, Filled read assign held ∧ f held = .ok b := by
  obtain ⟨v, hread, h⟩ := step_ok.mp h
  obtain ⟨held, hassign, h⟩ := step_ok.mp h
  exact ⟨held, ⟨v, attempt_ok.mp hread, attempt_ok.mp hassign⟩, h⟩

variable (lib cfg) in
/-- **The fields of a bind request are as configured**: each holds what it makes of the value at its path. -/
structure ConfiguredFrom (fields : BindFields) : Prop where
  systemId : Filled (cfg.getString "smpp-session.system-id") (lib.systemId ∘ cString) fields.systemId
  password : Filled (cfg.getString "smpp-session.password") (lib.password ∘ cString) fields.password
  systemType : Filled (cfg.getString "smpp-session.system-type") (lib.systemType ∘ cString) fields.systemType
  interfaceVersion : ∃ v held, cfg.getIntOr "smpp-session.interface-version" 34 = .ok v ∧
    lib.interfaceVersion (makeInterfaceVersion v) = .ok held ∧ fields.interfaceVersion = held.toNat
  ton : ∃ held, Filled (cfg.getUInt8 "smpp-session.default-type-of-number") lib.ton held ∧
    fields.ton = held.toNat
  npi : ∃ held, Filled (cfg.getUInt8 "smpp-session.default-number-plan-indicator") lib.npi held ∧
    fields.npi = held.toNat
  addressRange :
    Filled (cfg.getString "smpp-session.address-range") (lib.addressRange ∘ cString) fields.addressRange

variable (cfg) in
/-- **The command is the one configured.** -/
def BindsAs (c : CommandId) : Prop :=
  ∃ s, cfg.getString "smpp-session.bind-type" = .ok s ∧
    (s, c) ∈ [("RX", CommandId.BindReceiver), ("TX", .BindTransmitter), ("TRX", .BindTransceiver)]

/-- The three types of bind. -/
theorem makeBindType_ok {s : String} {b : BindType} (h : makeBindType s = .ok b) :
    (s, bindCommandId b) ∈
      [("RX", CommandId.BindReceiver), ("TX", .BindTransmitter), ("TRX", .BindTransceiver)] := by
  unfold makeBindType at h
  split at h
  · next hs => cases h; subst hs; simp [bindCommandId]
  split at h
  · next hs => cases h; subst hs; simp [bindCommandId]
  split at h
  · next hs => cases h; subst hs; simp [bindCommandId]
  · cases h

/-- **The session is configured from what has been read.** -/
theorem configuredFrom_of_ok (h : smppSessionConfiguration lib cfg = .ok smppcfg) :
    ConfiguredFrom lib cfg smppcfg.bindFields ∧ BindsAs cfg (bindCommandId smppcfg.typeOfBind) := by
  unfold smppSessionConfiguration at h
  obtain ⟨-, -, h⟩ := step_ok.mp h
  obtain ⟨-, -, h⟩ := step_ok.mp h
  obtain ⟨systemId, hsystemId, h⟩ := filled_ok (lib.systemId ∘ cString) h
  obtain ⟨password, hpassword, h⟩ := filled_ok (lib.password ∘ cString) h
  obtain ⟨systemType, hsystemType, h⟩ := filled_ok (lib.systemType ∘ cString) h
  obtain ⟨v, hv, h⟩ := step_ok.mp h
  obtain ⟨version, hversion, h⟩ := step_ok.mp h
  obtain ⟨ton, hton, h⟩ := filled_ok lib.ton h
  obtain ⟨npi, hnpi, h⟩ := filled_ok lib.npi h
  obtain ⟨addressRange, haddressRange, h⟩ := filled_ok (lib.addressRange ∘ cString) h
  obtain ⟨limit, -, h⟩ := step_ok.mp h
  obtain ⟨s, hs, h⟩ := step_ok.mp h
  obtain ⟨b, hb, h⟩ := step_ok.mp h
  cases h
  exact ⟨⟨hsystemId, hpassword, hsystemType, ⟨v, version, attempt_ok.mp hv, attempt_ok.mp hversion, rfl⟩,
    ⟨ton, hton, rfl⟩, ⟨npi, hnpi, rfl⟩, haddressRange⟩, s, attempt_ok.mp hs, makeBindType_ok hb⟩

/-- A process that has come up has a session configured so, and a throttle limit other than zero. -/
theorem configured_of_ksmppc (h : ksmppc lib cfg = .ok process) :
    ConfiguredFrom lib cfg process.smppcfg.bindFields ∧ BindsAs cfg (bindCommandId process.smppcfg.typeOfBind) ∧
      0 < process.smppcfg.txThrottleLimit := by
  obtain ⟨smppcfg, hsmppcfg, h⟩ := step_ok.mp h
  obtain ⟨timeBetweenSends, hstart, h⟩ := step_ok.mp h
  obtain ⟨sendHandler, -, h⟩ := step_ok.mp h
  cases h
  obtain ⟨hfields, hbind⟩ := configuredFrom_of_ok hsmppcfg
  refine ⟨hfields, hbind, Nat.pos_of_ne_zero fun hzero => ?_⟩
  obtain ⟨host, -, hstart⟩ := step_ok.mp hstart
  obtain ⟨port, -, hstart⟩ := step_ok.mp hstart
  obtain ⟨-, -, hstart⟩ := step_ok.mp hstart
  rw [if_pos hzero] at hstart
  cases hstart

end

end KissSmpp.Application
