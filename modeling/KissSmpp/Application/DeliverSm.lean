import KissSmpp.Application.SendHandler

/-! # From an inbound message to an outbound one

`deliverSm2Ptree` writes an inbound message to a property tree, and `SendHandler::run` builds an outbound
one from such a tree. The two know each other's keys as strings only, and the reader takes a default for a
key it does not find. A message that goes from the one to the other comes back as it was, but for one
flag, whose key the two spell differently. -/

namespace KissSmpp.Application

/-! ## Writing a tree -/

/-- `smpp_pdu::PDU_deliver_sm`, as far as it is written to a tree. -/
structure DeliverSm where
  serviceType : String
  sourceAddr : Address
  destinationAddr : Address
  esmClass : UInt8
  protocolId : UInt8
  priorityFlag : UInt8
  scheduleDeliveryTime : String
  validityPeriod : String
  registeredDelivery : UInt8
  replaceIfPresentFlag : UInt8
  dataCoding : UInt8
  smDefaultMsgId : UInt8
  shortMessage : String
  deriving DecidableEq, Repr

/-- What `data()` of a field gives. -/
inductive Datum
  | string (s : String)
  | octet (n : UInt8)
  deriving DecidableEq, Repr

/-- The property trees of the library: the one with nothing in it, and `put`. -/
structure PropertyTree where
  empty : BoostPtree
  put : BoostPtree → String → Datum → BoostPtree

variable (tree : PropertyTree)

/-- What `deliverSm2Ptree` puts at which key, in this order. -/
def DeliverSm.entries (tpdu : DeliverSm) : List (String × Datum) :=
  [("service-type", .string tpdu.serviceType),
    ("source-addr", .string tpdu.sourceAddr.address),
    ("destination-addr", .string tpdu.destinationAddr.address),
    ("esm-class", .octet tpdu.esmClass),
    ("protocol-id", .octet tpdu.protocolId),
    ("priority-flag", .octet tpdu.priorityFlag),
    ("schedule-delivery-time", .string tpdu.scheduleDeliveryTime),
    ("validity-period", .string tpdu.validityPeriod),
    ("registered-delivery", .octet tpdu.registeredDelivery),
    ("replace-if-present-flag", .octet tpdu.replaceIfPresentFlag),
    ("data-coding", .octet tpdu.dataCoding),
    ("sm-default-msg-id", .octet tpdu.smDefaultMsgId),
    ("short-message", .string tpdu.shortMessage)]

/-- Entries are put one after the other. -/
def PropertyTree.puts : List (String × Datum) → BoostPtree → BoostPtree
  | [], pt => pt
  | e :: es, pt => PropertyTree.puts es (tree.put pt e.1 e.2)

/-- `deliverSm2Ptree`. -/
def deliverSm2Ptree (tpdu : DeliverSm) (pt : BoostPtree) : BoostPtree := tree.puts tpdu.entries pt

/-! ## What is read from a tree that has been written -/

/-- A read of the key gives this value, with or without a default. -/
def BoostPtree.Holds (pt : BoostPtree) (key : String) : Datum → Prop
  | .string s => pt.getString key = .ok s ∧ ∀ d, pt.getStringOr key d = .ok s
  | .octet n => pt.getUInt8 key = .ok n ∧ ∀ d, pt.getUInt8Or key d = .ok n

/-- There is nothing at the key: a read gives the default, or throws if it has none. -/
structure BoostPtree.Lacks (pt : BoostPtree) (key : String) : Prop where
  string : ∀ d, pt.getStringOr key d = .ok d
  octet : ∀ d, pt.getUInt8Or key d = .ok d
  throws : (∀ s, pt.getString key ≠ .ok s) ∧ ∀ n, pt.getUInt8 key ≠ .ok n

/-- A key: a path of one step. -/
def IsKey (key : String) : Prop := '.' ∉ key.toList

/-- Whether a string is a key can be read off its characters. -/
instance (key : String) : Decidable (IsKey key) := inferInstanceAs (Decidable (_ ∉ _))

/-- **What is put at a key is returned unchanged**, and what is at other keys stays. -/
structure PropertyTree.Returns : Prop where
  empty : ∀ key, tree.empty.Lacks key
  self : ∀ pt key v, IsKey key → (tree.put pt key v).Holds key v
  held : ∀ pt key v key' v', IsKey key → IsKey key' → key' ≠ key → pt.Holds key' v' →
    (tree.put pt key v).Holds key' v'
  lacked : ∀ pt key v key', IsKey key → IsKey key' → key' ≠ key → pt.Lacks key' →
    (tree.put pt key v).Lacks key'

variable {tree} {pt : BoostPtree}

/-- What no entry changes lasts while they are put. -/
theorem PropertyTree.puts_keeps {P : BoostPtree → Prop} {es : List (String × Datum)}
    (hstep : ∀ e ∈ es, ∀ pt, P pt → P (tree.put pt e.1 e.2)) (hpt : P pt) : P (tree.puts es pt) := by
  induction es generalizing pt with
  | nil => exact hpt
  | cons e es ih =>
      have hput : P (tree.put pt e.1 e.2) := hstep e List.mem_cons_self pt hpt
      exact ih (fun e' he' => hstep e' (List.mem_cons_of_mem e he')) hput

/-- Entries at other keys change nothing at this one. -/
theorem PropertyTree.Returns.holds_puts (h : tree.Returns) {es : List (String × Datum)}
    (hkeys : ∀ e ∈ es, IsKey e.1) {key : String} {v : Datum} (hkey : IsKey key)
    (hnot : key ∉ es.map Prod.fst) (hpt : pt.Holds key v) : (tree.puts es pt).Holds key v := by
  refine PropertyTree.puts_keeps (P := fun pt => pt.Holds key v) (fun e he pt hpt => ?_) hpt
  have hne : key ≠ e.1 := fun heq => hnot (heq ▸ List.mem_map_of_mem he)
  exact h.held pt e.1 e.2 key v (hkeys e he) hkey hne hpt

/-- A key that no entry has stays empty. -/
theorem PropertyTree.Returns.lacks_puts (h : tree.Returns) {es : List (String × Datum)}
    (hkeys : ∀ e ∈ es, IsKey e.1) {key : String} (hkey : IsKey key) (hnot : key ∉ es.map Prod.fst)
    (hpt : pt.Lacks key) : (tree.puts es pt).Lacks key := by
  refine PropertyTree.puts_keeps (P := fun pt => pt.Lacks key) (fun e he pt hpt => ?_) hpt
  have hne : key ≠ e.1 := fun heq => hnot (heq ▸ List.mem_map_of_mem he)
  exact h.lacked pt e.1 e.2 key (hkeys e he) hkey hne hpt

/-- **Entries at different keys are all there.** -/
theorem PropertyTree.Returns.holds_of_mem (h : tree.Returns) {es : List (String × Datum)}
    (hkeys : ∀ e ∈ es, IsKey e.1) (hnodup : (es.map Prod.fst).Nodup) {e : String × Datum}
    (he : e ∈ es) : (tree.puts es pt).Holds e.1 e.2 := by
  induction es generalizing pt with
  | nil => cases he
  | cons a es ih =>
      obtain ⟨hnot, hnodup⟩ := List.nodup_cons.mp hnodup
      have hkeys' : ∀ e' ∈ es, IsKey e'.1 := fun e' he' => hkeys e' (List.mem_cons_of_mem a he')
      rcases List.mem_cons.mp he with rfl | he
      · have hkey := hkeys e List.mem_cons_self
        exact h.holds_puts hkeys' hkey hnot (h.self pt e.1 e.2 hkey)
      · exact ih hkeys' hnodup he

/-- The keys of a message. -/
def DeliverSm.keys : List String :=
  ["service-type", "source-addr", "destination-addr", "esm-class", "protocol-id", "priority-flag",
    "schedule-delivery-time", "validity-period", "registered-delivery", "replace-if-present-flag",
    "data-coding", "sm-default-msg-id", "short-message"]

/-- The keys of a message's tree are those the message is put under. -/
theorem DeliverSm.map_entries (tpdu : DeliverSm) : tpdu.entries.map Prod.fst = DeliverSm.keys := rfl

/-- Each of them is a path of one step. -/
theorem DeliverSm.isKey_entries (tpdu : DeliverSm) : ∀ e ∈ tpdu.entries, IsKey e.1 := by
  have hkeys : ∀ key ∈ DeliverSm.keys, IsKey key := by decide
  intro e he
  exact hkeys e.1 (List.mem_map_of_mem he)

/-- What `deliverSm2Ptree` has put can be read. -/
theorem PropertyTree.Returns.holds (h : tree.Returns) (tpdu : DeliverSm) {key : String} {v : Datum}
    (he : (key, v) ∈ tpdu.entries) : (deliverSm2Ptree tree tpdu pt).Holds key v := by
  have hnodup : (tpdu.entries.map Prod.fst).Nodup := by
    rw [tpdu.map_entries]
    decide
  exact h.holds_of_mem tpdu.isKey_entries hnodup he

/-- Of what it has not put, the default is read. -/
theorem PropertyTree.Returns.lacks (h : tree.Returns) (tpdu : DeliverSm) {key : String}
    (hkey : IsKey key) (hnot : key ∉ DeliverSm.keys) :
    (deliverSm2Ptree tree tpdu tree.empty).Lacks key :=
  h.lacks_puts tpdu.isKey_entries hkey hnot (h.empty key)

/-! ## The message that comes back -/

/-- **The outbound message says what the inbound one said.** -/
structure Agrees (tpdu : DeliverSm) (pdu : SubmitSm) : Prop where
  serviceType : pdu.serviceType = tpdu.serviceType
  sourceAddress : pdu.sourceAddr.address = tpdu.sourceAddr.address
  destinationAddress : pdu.destinationAddr.address = tpdu.destinationAddr.address
  esmClass : pdu.esmClass = tpdu.esmClass
  protocolId : pdu.protocolId = tpdu.protocolId
  priorityFlag : pdu.priorityFlag = tpdu.priorityFlag
  scheduleDeliveryTime : pdu.scheduleDeliveryTime = tpdu.scheduleDeliveryTime
  validityPeriod : pdu.validityPeriod = tpdu.validityPeriod
  registeredDelivery : pdu.registeredDelivery = tpdu.registeredDelivery
  replaceIfPresentFlag : pdu.replaceIfPresentFlag = tpdu.replaceIfPresentFlag
  dataCoding : pdu.dataCoding = tpdu.dataCoding
  smDefaultMsgId : pdu.smDefaultMsgId = tpdu.smDefaultMsgId
  shortMessage : pdu.shortMessage = tpdu.shortMessage

/-- **A field gives back what was assigned to it**, if it accepts it. -/
structure Libraries.Keeps (lib : Libraries) : Prop where
  string : ∀ f v held, lib.assignString f v = .ok held → held = v
  octet : ∀ f v held, lib.assignUInt8 f v = .ok held → held = v

variable {lib : Libraries} {cfg : BoostPtree} {tpdu : DeliverSm} {pdu : SubmitSm}

/-- A field that has been filled in holds what was read. -/
theorem Filled.held {α : Type} {read : Except String α} {assign : α → Except String α} {v held : α}
    (h : Filled read assign held) (hread : read = .ok v)
    (hkeeps : ∀ v held, assign v = .ok held → held = v) : held = v := by
  obtain ⟨v', hread', hassign⟩ := h
  rw [hread, Except.ok.injEq] at hread'
  rw [hread']
  exact hkeeps v' held hassign

section

variable {key : String} {f : Field}

/-- A string that has been put is read, and held by the field it is assigned to. -/
theorem held_string {v held : String} (htree : tree.Returns) (hlib : lib.Keeps)
    (he : (key, .string v) ∈ tpdu.entries)
    (h : Filled ((deliverSm2Ptree tree tpdu pt).getString key) (lib.assignString f) held) : held = v :=
  h.held (htree.holds tpdu he).1 (hlib.string f)

/-- A string that has been put is held, whatever default the reading falls back on. -/
theorem held_stringOr {v held d : String} (htree : tree.Returns) (hlib : lib.Keeps)
    (he : (key, .string v) ∈ tpdu.entries)
    (h : Filled ((deliverSm2Ptree tree tpdu pt).getStringOr key d) (lib.assignString f) held) :
    held = v :=
  h.held ((htree.holds tpdu he).2 d) (hlib.string f)

/-- An octet likewise. -/
theorem held_octetOr {v held d : UInt8} (htree : tree.Returns) (hlib : lib.Keeps)
    (he : (key, .octet v) ∈ tpdu.entries)
    (h : Filled ((deliverSm2Ptree tree tpdu pt).getUInt8Or key d) (lib.assignUInt8 f) held) :
    held = v :=
  h.held ((htree.holds tpdu he).2 d) (hlib.octet f)

end

/-- The flag is read at a key at which there is nothing. -/
theorem flag_of_filled (htree : tree.Returns) (hlib : lib.Keeps)
    (h : FilledFrom lib cfg (deliverSm2Ptree tree tpdu tree.empty) pdu) :
    pdu.replaceIfPresentFlag = 0 := by
  have hlacks : (deliverSm2Ptree tree tpdu tree.empty).Lacks "replace-if-presentFlag" :=
    htree.lacks tpdu (by decide) (by decide)
  exact h.replaceIfPresentFlag.held (hlacks.octet 0) (hlib.octet _)

/-- **A message without the flag comes back as it was.** -/
theorem agrees_of_filled (htree : tree.Returns) (hlib : lib.Keeps)
    (h : FilledFrom lib cfg (deliverSm2Ptree tree tpdu tree.empty) pdu)
    (hzero : tpdu.replaceIfPresentFlag = 0) : Agrees tpdu pdu where
  serviceType := held_stringOr htree hlib (by simp [DeliverSm.entries]) h.serviceType
  sourceAddress := held_string htree hlib (by simp [DeliverSm.entries]) h.sourceAddress
  destinationAddress := held_string htree hlib (by simp [DeliverSm.entries]) h.destinationAddress
  esmClass := held_octetOr htree hlib (by simp [DeliverSm.entries]) h.esmClass
  protocolId := held_octetOr htree hlib (by simp [DeliverSm.entries]) h.protocolId
  priorityFlag := held_octetOr htree hlib (by simp [DeliverSm.entries]) h.priorityFlag
  scheduleDeliveryTime := held_stringOr htree hlib (by simp [DeliverSm.entries]) h.scheduleDeliveryTime
  validityPeriod := held_stringOr htree hlib (by simp [DeliverSm.entries]) h.validityPeriod
  registeredDelivery := held_octetOr htree hlib (by simp [DeliverSm.entries]) h.registeredDelivery
  replaceIfPresentFlag := (flag_of_filled htree hlib h).trans hzero.symm
  dataCoding := held_octetOr htree hlib (by simp [DeliverSm.entries]) h.dataCoding
  smDefaultMsgId := held_octetOr htree hlib (by simp [DeliverSm.entries]) h.smDefaultMsgId
  shortMessage := held_string htree hlib (by simp [DeliverSm.entries]) h.shortMessage

variable {response : Response} {sendingQ : List SubmitSm}

/-- **The two mappings agree on a message if and only if it has no `replace_if_present_flag`.** -/
theorem mappings_agree_iff (htree : tree.Returns) (hlib : lib.Keeps)
    (hqueued : (run lib cfg (deliverSm2Ptree tree tpdu tree.empty) response sendingQ).1 =
      sendingQ ++ [pdu]) :
    Agrees tpdu pdu ↔ tpdu.replaceIfPresentFlag = 0 := by
  have hfilled := submitPDU_eq_ok.mp (submitPDU_of_run hqueued)
  constructor
  · intro hagrees
    exact hagrees.replaceIfPresentFlag.symm.trans (flag_of_filled htree hlib hfilled)
  · exact agrees_of_filled htree hlib hfilled

/-! ## A library with a flat tree -/

/-- A tree in which a value is found at the key it has been put at. -/
def flatTree : PropertyTree where
  empty := emptyPtree
  put pt key v :=
    match v with
    | .string s =>
      { getString := fun path => if path = key then .ok s else pt.getString path
        getStringOr := fun path d => if path = key then .ok s else pt.getStringOr path d
        getUInt8 := fun path =>
          if path = key then .error "conversion of data to type failed" else pt.getUInt8 path
        getUInt8Or := fun path d => if path = key then .ok d else pt.getUInt8Or path d }
    | .octet n =>
      { getString := fun path =>
          if path = key then .ok (String.singleton (Char.ofNat n.toNat)) else pt.getString path
        getStringOr := fun path d =>
          if path = key then .ok (String.singleton (Char.ofNat n.toNat)) else pt.getStringOr path d
        getUInt8 := fun path => if path = key then .ok n else pt.getUInt8 path
        getUInt8Or := fun path d => if path = key then .ok n else pt.getUInt8Or path d }

/-- A tree with one level returns what has been put. -/
theorem flatTree_returns : flatTree.Returns where
  empty key := ⟨fun _ => rfl, fun _ => rfl, nofun, nofun⟩
  self pt key v _ := by
    cases v with
    | string s => exact ⟨if_pos rfl, fun _ => if_pos rfl⟩
    | octet n => exact ⟨if_pos rfl, fun _ => if_pos rfl⟩
  held pt key v key' v' _ _ hne hpt := by
    cases v <;> cases v' <;>
      exact ⟨(if_neg hne).trans hpt.1, fun d => (if_neg hne).trans (hpt.2 d)⟩
  lacked pt key v key' _ _ hne hpt := by
    cases v <;>
      exact ⟨fun d => (if_neg hne).trans (hpt.string d), fun d => (if_neg hne).trans (hpt.octet d),
        fun s hs => hpt.throws.1 s ((if_neg hne).symm.trans hs),
        fun n hn => hpt.throws.2 n ((if_neg hne).symm.trans hn)⟩

/-- Libraries that accept every value keep it. -/
theorem acceptingLibraries_keeps : acceptingLibraries.Keeps where
  string _ _ _ h := (Except.ok.inj h).symm
  octet _ _ _ h := (Except.ok.inj h).symm

/-- A configuration with the two defaults. -/
def sampleDefaults : BoostPtree :=
  flatTree.puts [("smpp-session.default-type-of-number", .octet 1),
    ("smpp-session.default-number-plan-indicator", .octet 1)] emptyPtree

/-- A short message between two numbers, with the flag as given. -/
def sampleDeliverSm (replaceIfPresentFlag : UInt8) : DeliverSm where
  serviceType := "CMT"
  sourceAddr := ⟨1, 1, "27110001"⟩
  destinationAddr := ⟨1, 1, "27110002"⟩
  esmClass := 0
  protocolId := 0
  priorityFlag := 1
  scheduleDeliveryTime := ""
  validityPeriod := ""
  registeredDelivery := 1
  replaceIfPresentFlag := replaceIfPresentFlag
  dataCoding := 8
  smDefaultMsgId := 0
  shortMessage := "hello"

/-- What comes back of it. -/
def sampleSubmitSm : SubmitSm where
  serviceType := "CMT"
  sourceAddr := ⟨1, 1, "27110001"⟩
  destinationAddr := ⟨1, 1, "27110002"⟩
  esmClass := 0
  protocolId := 0
  priorityFlag := 1
  scheduleDeliveryTime := ""
  validityPeriod := ""
  registeredDelivery := 1
  replaceIfPresentFlag := 0
  dataCoding := 8
  smDefaultMsgId := 0
  shortMessage := "hello"

/-- A message taken from the tree is queued, whatever its flag. -/
theorem run_sampleDeliverSm (flag : UInt8) :
    (run acceptingLibraries sampleDefaults
      (deliverSm2Ptree flatTree (sampleDeliverSm flag) flatTree.empty) (fun _ => none) []).1 =
        [] ++ [sampleSubmitSm] := rfl

/-- The message without the flag. -/
theorem mappings_agree_iff_plain :
    Agrees (sampleDeliverSm 0) sampleSubmitSm ↔ (sampleDeliverSm 0).replaceIfPresentFlag = 0 :=
  mappings_agree_iff flatTree_returns acceptingLibraries_keeps (run_sampleDeliverSm 0)

/-- The message with the flag: it comes back without. -/
theorem flag_not_carried : ¬∀ (tree : PropertyTree) (lib : Libraries) (cfg : BoostPtree)
    (tpdu : DeliverSm) (response : Response) (sendingQ : List SubmitSm) (pdu : SubmitSm),
      tree.Returns → lib.Keeps →
      (run lib cfg (deliverSm2Ptree tree tpdu tree.empty) response sendingQ).1 = sendingQ ++ [pdu] →
      Agrees tpdu pdu := by
  intro hevery
  have hagrees := hevery flatTree acceptingLibraries sampleDefaults (sampleDeliverSm 1) (fun _ => none)
    [] sampleSubmitSm flatTree_returns acceptingLibraries_keeps (run_sampleDeliverSm 1)
  cases hagrees.replaceIfPresentFlag

end KissSmpp.Application
