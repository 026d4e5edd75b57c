import KissSmpp.Smpp.Bicoder

/-! # Entries of a queue page

What `decode` makes of the text in a page. Of a text that `encode` has written it makes the PDU that was
encoded, for every command. Of any other text it reads the command id and the length whether or not they
are there, dumps as many octets as the length says, and returns a null pointer for a command it does not
know, which `write_pdu` and `recieveProcessor` dereference. -/

namespace KissSmpp.Bicoder

open Memory

variable {β : Type} {lib : Library β} {beyond : View UInt8} {entry : String} {octets : List UInt8}

/-! ## What `decode` does -/

variable (beyond octets) in
/-- The four octets from the `k`-th on, which are there if the string is long enough. -/
def fourAt (k : Nat) : List UInt8 := (List.range 4).map fun i => cStr beyond octets (k + i)

variable (beyond) in
/-- In a string that is long enough they are octets of the string. -/
theorem fourAt_eq {k : Nat} (h : k + 4 ≤ octets.length) :
    fourAt beyond octets k = (octets.drop k).take 4 := View.read_of h

variable (lib) in
/-- The command of which a buffer with these four octets is taken to be. -/
def commandOf (four : List UInt8) : CommandId := CommandId.ofValue (lib.getCommandId four).toNat

variable (beyond) in
/-- A text that is not base64 is not read at all. -/
theorem decode_of_error {what : String} (h : lib.decodeFromBase64 entry = .error what) :
    (decode lib beyond entry).outcome = .error what := Reading.bind_outcome_error h

variable (beyond) in
/-- Of any other it returns what the switch makes of the command. -/
theorem decode_outcome (h : lib.decodeFromBase64 entry = .ok octets) :
    (decode lib beyond entry).outcome =
      (reset lib (cStr beyond octets) (classOf (commandOf lib (fourAt beyond octets 4)))).outcome := by
  unfold decode
  rw [Reading.bind_outcome h, Reading.bind_outcome rfl, Reading.bind_outcome rfl,
    Reading.bind_outcome rfl]
  rfl

/-- **A command that is known gives what the constructor of its class makes of the buffer.** -/
theorem reset_known (p : View UInt8) (c : PduClass) :
    (reset lib p (some c)).outcome =
      (lib.construct c p).map fun fields => some { fields with pduClass := c } := by
  unfold reset
  cases hmake : lib.construct c p with
  | error what => exact Reading.bind_outcome_error hmake
  | ok fields => exact Reading.bind_outcome hmake

/-- The result is a null pointer exactly for a command that is not known. -/
theorem reset_null {p : View UInt8} {c : Option PduClass} :
    (reset lib p c).outcome = .ok none ↔ c = none := by
  cases c with
  | none => exact iff_of_true rfl rfl
  | some c =>
      rw [reset_known]
      refine iff_of_false (fun h => ?_) nofun
      cases hmake : lib.construct c p <;> rw [hmake] at h <;> cases h

variable (lib) in
/-- The switch itself reads nothing. -/
theorem within_reset (n : Nat) (p : View UInt8) (c : Option PduClass) :
    (reset lib p c).Within n := by
  cases c with
  | none => exact Reading.within_pure none
  | some c =>
      unfold reset
      cases hmake : lib.construct c p with
      | error what => exact (Reading.within_bind_error hmake).mpr (Reading.within_lift _)
      | ok fields =>
          exact (Reading.within_bind hmake).mpr ⟨Reading.within_lift _, Reading.within_pure _⟩

/-- **What `decode` reads**: the command id, the length, and as many octets as the length says. -/
theorem within_decode {n : Nat} (h : lib.decodeFromBase64 entry = .ok octets) :
    (decode lib beyond entry).Within n ↔
      8 ≤ n ∧ (lib.getCommandLength (fourAt beyond octets 0)).toNat ≤ n := by
  unfold decode
  rw [Reading.within_bind h, Reading.within_bind rfl, Reading.within_bind rfl,
    Reading.within_bind rfl, Reading.within_read, Reading.within_read, Reading.within_read]
  have hreset := within_reset lib n (cStr beyond octets)
  constructor
  · rintro ⟨-, hid, -, hdump, -⟩
    exact ⟨hid, by rwa [Nat.zero_add] at hdump⟩
  · rintro ⟨hid, hdump⟩
    exact ⟨Reading.within_lift _, hid, by omega, by rwa [Nat.zero_add], hreset _⟩

/-! ## What a null pointer leads to -/

/-- A function that dereferences what it has popped goes wrong exactly if `decode` gives a null pointer. -/
theorem deref_pop {α : Type} (g : Object β → α) :
    (do let popped ← pop lib beyond entry
        let pdu ← deref popped
        return g pdu : Except Stop α) = .error (.undefined .nullPdu) ↔
      (decode lib beyond entry).outcome = .ok none := by
  unfold pop
  cases h : (decode lib beyond entry).outcome with
  | error what => exact iff_of_false nofun nofun
  | ok o =>
      cases o with
      | none => exact iff_of_true rfl rfl
      | some pdu => exact iff_of_false nofun nofun

/-! ## Safety -/

variable (lib beyond entry) in
/-- **A page entry is read safely**: `decode` throws or returns a PDU, it reads the decoded string only, and
nobody who pops the entry dereferences a null pointer. -/
structure ReadSafely : Prop where
  result : (∃ what, (decode lib beyond entry).outcome = .error what) ∨
    ∃ pdu, (decode lib beyond entry).outcome = .ok (some pdu)
  reads : ∀ octets, lib.decodeFromBase64 entry = .ok octets →
    (decode lib beyond entry).Within octets.length
  writePdu : writePdu lib beyond entry ≠ .error (.undefined .nullPdu)
  recieveProcessor : recieveProcessor lib beyond entry ≠ .error (.undefined .nullPdu)

variable (lib entry) in
/-- If the entry is base64, then of at least eight octets, which are no fewer than the length in their
header says, and the command in their header is one of the protocol's. -/
def Readable : Prop := ∀ octets, lib.decodeFromBase64 entry = .ok octets →
  8 ≤ octets.length ∧ (lib.getCommandLength (octets.take 4)).toNat ≤ octets.length ∧
    commandOf lib ((octets.drop 4).take 4) ∈ CommandId.known

/-- Without a null pointer the result is as it should be, and so are those who use it. -/
theorem readSafely_of_result (hreads : ∀ octets, lib.decodeFromBase64 entry = .ok octets →
    (decode lib beyond entry).Within octets.length)
    (hnull : (decode lib beyond entry).outcome ≠ .ok none) : ReadSafely lib beyond entry where
  result := by
    cases h : (decode lib beyond entry).outcome with
    | error what => exact .inl ⟨what, rfl⟩
    | ok o =>
        cases o with
        | none => exact absurd h hnull
        | some pdu => exact .inr ⟨pdu, rfl⟩
  reads := hreads
  writePdu := mt (deref_pop (fun pdu => pdu.sequenceNumber)).mp hnull
  recieveProcessor := mt (deref_pop (fun pdu => pdu.commandId)).mp hnull

/-- **A page entry is read safely if and only if it is readable.** -/
theorem readSafely_iff : ReadSafely lib beyond entry ↔ Readable lib entry := by
  constructor
  · intro hsafe octets hdecoded
    obtain ⟨height, hlength⟩ := (within_decode hdecoded).mp (hsafe.reads octets hdecoded)
    rw [fourAt_eq beyond (by omega)] at hlength
    refine ⟨height, hlength, ?_⟩
    -- a command that is not known would give a null pointer
    rw [← fourAt_eq beyond (by omega), ← classOf_isSome, Option.isSome_iff_ne_none]
    intro hc
    have hnull := (decode_outcome beyond hdecoded).trans (reset_null.mpr hc)
    rcases hsafe.result with ⟨what, hthrown⟩ | ⟨pdu, hpdu⟩
    · cases hnull.symm.trans hthrown
    · cases hnull.symm.trans hpdu
  · intro hreadable
    cases hdecoded : lib.decodeFromBase64 entry with
    | error what =>
        have hthrown := decode_of_error beyond hdecoded
        refine readSafely_of_result (fun octets h => ?_) (by rw [hthrown]; nofun)
        rw [hdecoded] at h
        cases h
    | ok octets =>
        obtain ⟨height, hlength, hknown⟩ := hreadable octets hdecoded
        rw [← fourAt_eq beyond (by omega), ← classOf_isSome,
          Option.isSome_iff_ne_none] at hknown
        have hdump : (lib.getCommandLength (fourAt beyond octets 0)).toNat ≤ octets.length := by
          rwa [fourAt_eq beyond (by omega)]
        refine readSafely_of_result (fun octets' h => ?_) ?_
        · rw [hdecoded, Except.ok.injEq] at h
          subst h
          exact (within_decode hdecoded).mpr ⟨height, hdump⟩
        · rw [decode_outcome beyond hdecoded]
          exact mt reset_null.mp hknown

/-- Sixteen octets with the command id 10, which no command has: the result is a null pointer. -/
theorem unknown_command_null : ¬∀ (lib : Library ShortBody) (beyond : View UInt8) (entry : String),
    ReadSafely lib beyond entry := by
  intro hevery
  have hsafe := hevery networkLibrary (fun _ => 0) "AAAAEAAAAAoAAAAAAAAABw=="
  have hnull : (decode networkLibrary (fun _ => 0) "AAAAEAAAAAoAAAAAAAAABw==").outcome = .ok none := by
    rfl
  rcases hsafe.result with ⟨what, hthrown⟩ | ⟨pdu, hpdu⟩
  · cases hnull.symm.trans hthrown
  · cases hnull.symm.trans hpdu

/-! ## Round trip -/

/-- **What has been encoded is decoded as it was**, whatever its class. -/
theorem persisted_round_trip (hlib : lib.Inverts) (beyond : View UInt8) (pdu : SmppPdu β) :
    (decode lib beyond (encode lib pdu.toObject)).outcome = .ok (some pdu.toObject) := by
  obtain ⟨height, hid⟩ := hlib.header pdu
  have hdecoded : lib.decodeFromBase64 (encode lib pdu.toObject) = .ok (lib.encode pdu.toObject) :=
    hlib.base64 _
  have hclass : classOf (commandOf lib (fourAt beyond (lib.encode pdu.toObject) 4)) =
      some pdu.pduClass := by
    rw [fourAt_eq beyond (by omega), commandOf, hid, ofValue_commandId]
    exact classOf_eq_some.mpr rfl
  rw [decode_outcome beyond hdecoded, hclass, reset_known, hlib.construct pdu beyond]
  rfl

/-- A `submit_sm_resp` with the number 7. -/
def sampleResponse : SmppPdu ShortBody where
  pduClass := .submitSmResp
  commandId := .SubmitSmResp
  commandStatus := 0
  sequenceNumber := 7
  body := ⟨[0x31, 0], by decide⟩
  commandId_eq := rfl

/-- A response comes back from a page. -/
theorem persisted_round_trip_response :
    (decode networkLibrary (fun _ => 0) (encode networkLibrary sampleResponse.toObject)).outcome =
      .ok (some sampleResponse.toObject) :=
  persisted_round_trip networkLibrary_inverts _ sampleResponse

end KissSmpp.Bicoder
