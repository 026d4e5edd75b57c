import KissSmpp.Application.Configuration
import KissSmpp.Properties.Unaltered

/-! # From the configuration to the wire

Whatever the configuration says is what every bind request says that is ever written, on the first connection as
on every later one. -/

namespace KissSmpp.Application

open Interleave

/-! ## What is written -/

/-- A bind request the session makes has the configured type and fields. -/
theorem bind_of_makes {params : Params} {m : Content} (h : params.Makes m) (hbind : m.commandId.isBind = true) :
    m = ⟨bindCommandId params.smppcfg.typeOfBind, ESME_ROK, .bind params.smppcfg.bindFields⟩ := by
  cases h with
  | bind => rfl
  | unbind => cases hbind
  | enquireLink => cases hbind
  | response c hc => rcases hc with rfl | rfl | rfl <;> cases hbind

/-- **Bind requests say what is configured**: in every run of a process that has come up, every bind request
that is written, on whatever connection, is of the type that the configuration names, and has the fields that
the configuration gives; and the sends are throttled. -/
theorem bind_as_configured {lib : SessionLibraries} {cfg : Configuration} {process : Process}
    (hprocess : ksmppc lib cfg = .ok process) {params : Params} (hparams : params.smppcfg = process.smppcfg)
    {p : Persisted} {now : Nat} {c : Machine} (h : Runs params Guard.free p now c) :
    0 < params.smppcfg.txThrottleLimit ∧
      ∀ r tbuf st conn, .wrote r tbuf st conn ∈ c.shared.hist → r ∉ c.shared.submissions p →
        tbuf.commandId.isBind = true →
          BindsAs cfg tbuf.commandId ∧ ∃ fields, tbuf.body = .bind fields ∧ ConfiguredFrom lib cfg fields := by
  obtain ⟨hfields, htype, hlimit⟩ := configured_of_ksmppc hprocess
  rw [← hparams] at hfields htype hlimit
  refine ⟨hlimit, fun r tbuf st conn hw hr hbind => ?_⟩
  obtain ⟨x, hA, -⟩ := h.accounted
  have hmakes : params.Makes tbuf.content := by
    rw [hA.wrote r tbuf st conn hw]
    exact (hA.queued r (.wrote tbuf st conn hw)).resolve_left hr
  have hcontent := bind_of_makes hmakes hbind
  have hcommand : tbuf.commandId = bindCommandId params.smppcfg.typeOfBind := congrArg Content.commandId hcontent
  exact ⟨hcommand ▸ htype, _, congrArg Content.body hcontent, hfields⟩

/-! ## An example -/

/-- The configuration of `doc/example_config.conf`; read as an octet, a digit is a character. -/
def exampleConfiguration : Configuration where
  getString
    | "smpp-session.system-id" => .ok "smppclient1"
    | "smpp-session.password" => .ok "password"
    | "smpp-session.system-type" => .ok "ESME"
    | "smpp-session.address-range" => .ok "^[1234567890]"
    | "smpp-session.bind-type" => .ok "TRX"
    | "message-centre.host" => .ok "localhost"
    | "message-centre.port" => .ok "2775"
    | path => .error path
  getStringOr _ default := .ok default
  getUInt8
    | "smpp-session.default-type-of-number" => .ok 0x30
    | "smpp-session.default-number-plan-indicator" => .ok 0x31
    | path => .error path
  getUInt8Or _ default := .ok default
  getUnsigned
    | "smpp-session.enquire-link-period" => .ok 30
    | "smpp-session.enquire-link-response-timeout" => .ok 30
    | "smpp-session.tx-throttle-limit" => .ok 20
    | path => .error path
  getIntOr
    | "smpp-session.interface-version", _ => .ok 34
    | _, default => .ok default

/-- Libraries that take every value as it is. -/
def plainLibraries : SessionLibraries where
  systemId := .ok
  password := .ok
  systemType := .ok
  interfaceVersion := .ok
  ton := .ok
  npi := .ok
  addressRange := .ok
  resolve _ _ := .ok ()

/-- What it leads to. -/
def exampleProcess : Process where
  smppcfg :=
    { bindFields := ⟨"smppclient1", "password", "ESME", 0x34, 0x30, 0x31, "^[1234567890]"⟩
      txThrottleLimit := 20
      typeOfBind := .TRX }
  timeBetweenSends := 50000
  txQ := "trxMessageTxq"
  sendHandler := true

/-- A session of it. -/
def exampleParams : Params := { sampleParams with smppcfg := exampleProcess.smppcfg }

/-- The bind request it is to write, with its number. -/
def exampleBind : Pdu := ⟨.BindTransceiver, ESME_ROK, 2, .bind exampleProcess.smppcfg.bindFields, none⟩

/-- The process comes up, connects and writes its bind request. -/
theorem bind_as_configured_example :
    .wrote 0 exampleBind .OPEN (some 1) ∈ (Machine.after exampleParams .none Schedule.connect).shared.hist ∧
      BindsAs exampleConfiguration .BindTransceiver ∧ ∃ fields, exampleBind.body = .bind fields ∧
        ConfiguredFrom plainLibraries exampleConfiguration fields := by
  have hprocess : ksmppc plainLibraries exampleConfiguration = .ok exampleProcess := by rfl
  have hparams : exampleParams.smppcfg = exampleProcess.smppcfg := rfl
  have hw : .wrote 0 exampleBind .OPEN (some 1) ∈
      (Machine.after exampleParams .none Schedule.connect).shared.hist := by
    decide +kernel
  have hr : 0 ∉ (Machine.after exampleParams .none Schedule.connect).shared.submissions .none := by
    decide +kernel
  exact ⟨hw, (bind_as_configured hprocess hparams (runs_after _ _ _)).2 0 _ _ _ hw hr rfl⟩

end KissSmpp.Application
