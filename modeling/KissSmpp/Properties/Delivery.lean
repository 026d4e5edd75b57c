import Mathlib.Data.List.Nodup
import KissSmpp.Session.Reception

/-! # Inbound messages are kept until they are delivered

`procpdu_deliver_sm` stores a message before it acknowledges it, and from then on the message is in
exactly one place: in `recieveBuffer`, in the hands of `recieveProcessor`, in `rcv_errBuffer`, or with
the application. The io thread and `recieveProcessor` share the custody of the messages, so the
contract below is about both: what one of them relies on the other guarantees. -/

namespace KissSmpp

open Interleave

variable {cfg : Params} {t : Tid} {s s' : Session}

/-! ## Custody -/

/-- The PDU the application accepted. -/
def Event.delivered? : Event → Option Ref
  | .mark (.delivered r) => some r
  | _ => none

namespace Session

/-- The messages the application accepted. -/
def delivered (s : Session) : List Ref := s.hist.filterMap Event.delivered?

/-- The messages that are stored or delivered. -/
def stored (s : Session) : List Ref := s.recieveBuffer ++ s.rcvErrBuffer ++ s.delivered

/-- A message is stored, delivered, or with `recieveProcessor`. -/
def InCustody (s : Session) (r : Ref) : Prop := r ∈ s.stored ∨ s.hands = some r

/-- The PDU is an inbound message. -/
def IsDeliverSm (s : Session) (r : Ref) : Prop := (s.pdu r).commandId = .DeliverSm

/-- The io thread has no message in hand that it has not stored. -/
def HandStored (s : Session) : Prop := ∀ r, s.inHand .io = some r → s.IsDeliverSm r → s.InCustody r

/-- Whether a PDU is an inbound message can be read off its command id. -/
instance (s : Session) (r : Ref) : Decidable (s.IsDeliverSm r) :=
  inferInstanceAs (Decidable ((s.pdu r).commandId = .DeliverSm))

end Session

open Session

/-- The operations that move messages. -/
@[simp] def Op.moves : Op → Bool
  | .rxPush _ | .rxPop | .rxDone | .errPush _ | .note (.delivered _) => true
  | _ => false

/-- The message with which `recieveProcessor` has done something. -/
@[simp] def Op.disposes? : Op → Option Ref
  | .rxPush r | .errPush r | .note (.delivered r) => some r
  | _ => none

/-- Every other operation leaves the messages where they are. -/
theorem custody_same {op : Op} {x : op.Res × Session} (h : perform cfg t op s = some x)
    (hop : op.moves = false) : x.2.stored = s.stored ∧ x.2.hands = s.hands := by
  have hrx : x.2.recieveBuffer = s.recieveBuffer := by
    apply perform_same (f := .recieveBuffer) h
    cases op <;> first | simp; done | simp at hop
  have herr : x.2.rcvErrBuffer = s.rcvErrBuffer := by
    apply perform_same (f := .rcvErrBuffer) h
    cases op <;> first | simp; done | simp at hop
  have hdel : x.2.delivered = s.delivered := by
    unfold delivered
    rw [perform_hist h, List.filterMap_append]
    cases op <;> first | rfl | skip
    case note m => cases m <;> first | rfl | simp at hop
  constructor
  · unfold stored
    rw [hrx, herr, hdel]
  · apply perform_same (f := .hands) h
    cases op <;> first | simp; done | simp at hop

/-- The environment leaves the messages where they are. -/
theorem custody_env {e : Env} (h : e.perform cfg s = some s') :
    s'.stored = s.stored ∧ s'.hands = s.hands := by
  have hrx : s'.recieveBuffer = s.recieveBuffer := env_same (f := .recieveBuffer) h (by simp)
  have herr : s'.rcvErrBuffer = s.rcvErrBuffer := env_same (f := .rcvErrBuffer) h (by simp)
  have hdel : s'.delivered = s.delivered := by
    unfold delivered
    rw [env_hist h, List.filterMap_append]
    unfold Env.logs
    split <;> rfl
  refine ⟨?_, env_same (f := .hands) h (by simp)⟩
  unfold stored
  rw [hrx, herr, hdel]

/-- The start of a job leaves the messages where they are. -/
theorem custody_take {j : Job} (h : j.take s = some s') :
    s'.stored = s.stored ∧ s'.hands = s.hands := by
  have hrx : s'.recieveBuffer = s.recieveBuffer := take_same (f := .recieveBuffer) h (by simp)
  have herr : s'.rcvErrBuffer = s.rcvErrBuffer := take_same (f := .rcvErrBuffer) h (by simp)
  have hdel : s'.delivered = s.delivered := by
    unfold delivered
    rw [take_hist h, List.filterMap_append]
    cases j <;> rfl
  refine ⟨?_, take_same (f := .hands) h (by simp)⟩
  unfold stored
  rw [hrx, herr, hdel]

/-- Storing or delivering a message adds it once. -/
theorem stored_perform {op : Op} {x : op.Res × Session} (h : perform cfg t op s = some x) {r : Ref}
    (hop : op.disposes? = some r) : x.2.stored.Perm (r :: s.stored) ∧ x.2.hands = s.hands := by
  cases op with
  | rxPush q =>
      cases hop
      cases h
      refine ⟨?_, rfl⟩
      show ((s.recieveBuffer ++ [r]) ++ s.rcvErrBuffer ++ s.delivered).Perm (r :: s.stored)
      simp only [List.append_assoc, List.cons_append, List.nil_append, stored]
      exact List.perm_middle
  | errPush q =>
      cases hop
      cases h
      refine ⟨?_, rfl⟩
      show (s.recieveBuffer ++ (s.rcvErrBuffer ++ [r]) ++ s.delivered).Perm (r :: s.stored)
      simp only [List.append_assoc, List.cons_append, List.nil_append, stored]
      rw [← List.append_assoc, ← List.append_assoc]
      exact List.perm_middle
  | note m =>
      cases m with
      | delivered q =>
          cases hop
          cases h
          exact ⟨List.perm_middle, rfl⟩
      | _ => simp at hop
  | _ => simp at hop

/-- `recieveProcessor` takes the first message into its hands. -/
theorem rxPop_perform {x : Option Ref × Session} (h : perform cfg t .rxPop s = some x) :
    s.stored = x.2.hands.toList ++ x.2.stored ∧ x.1 = x.2.hands := by
  cases h
  refine ⟨?_, rfl⟩
  show s.recieveBuffer ++ s.rcvErrBuffer ++ s.delivered =
    s.recieveBuffer.head?.toList ++ (s.recieveBuffer.tail ++ s.rcvErrBuffer ++ s.delivered)
  cases s.recieveBuffer with
  | nil => rfl
  | cons a l => rfl

/-! ## The contract on the io thread and `recieveProcessor` -/

/-- What the io thread knows: the message it stores is the one it has just constructed, and otherwise
it has stored the one it has in hand. -/
def IoKnows (op : Op) (s : Session) : Prop :=
  match op with
  | .rxPush r => s.inHand .io = some r ∧ s.IsDeliverSm r ∧ ¬s.InCustody r
  | _ => s.HandStored

/-- What `recieveProcessor` knows: until it disposes of the message in its hands, and only of that, the
message is nowhere else; when it lets go of it, it is. -/
structure ReceiverKnows (op : Op) (s : Session) : Prop where
  pop : op = .rxPop → s.hands = none
  dispose : ∀ r, op.disposes? = some r → s.hands = some r
  done : op = .rxDone → ∀ r, s.hands = some r → r ∈ s.stored
  hold : op ≠ .rxDone → ∀ r, s.hands = some r → r ∉ s.stored

/-- **Every message in custody is there once**, and denotes an object. -/
structure Custody (s : Session) : Prop where
  inv : Inv s
  nodup : s.stored.Nodup
  object : ∀ r, s.InCustody r → r < s.heap.length

/-- What the io thread relies on: the message in its hand, and whether it is in custody. -/
structure IoTrusts (s s' : Session) : Prop where
  inHand : s'.inHand .io = s.inHand .io
  kind : ∀ r, r < s.heap.length → (s'.IsDeliverSm r ↔ s.IsDeliverSm r)
  heap : s.heap.length ≤ s'.heap.length
  custody : ∀ r, s'.InCustody r ↔ s.InCustody r

/-- What `recieveProcessor` relies on: nobody else touches the message in its hands. -/
structure ReceiverTrusts (s s' : Session) : Prop where
  hands : s'.hands = s.hands
  stored : ∀ r, s.hands = some r → (r ∈ s'.stored ↔ r ∈ s.stored)

/-- **The contract on the io thread and on `recieveProcessor`.** -/
def delivery (cfg : Params) : Contract (system cfg) where
  guard := known cfg Guard.free
  inv := Custody
  fact t op s := (t = .io → IoKnows op s) ∧ (t = .receiver → ReceiverKnows op s)
  rely t s s' := (t = .io → IoTrusts s s') ∧ (t = .receiver → ReceiverTrusts s s')
  idle t s := (t = .io → s.HandStored) ∧ (t = .receiver → s.hands = none)
  rely_refl _ _ := ⟨fun _ => ⟨rfl, fun _ _ => Iff.rfl, Nat.le_refl _, fun _ => Iff.rfl⟩,
    fun _ => ⟨rfl, fun _ _ => Iff.rfl⟩⟩
  rely_trans _ _ _ _ h h' := by
    refine ⟨fun ht => ?_, fun ht => ?_⟩
    · have h₁ := h.1 ht
      have h₂ := h'.1 ht
      exact ⟨h₂.inHand.trans h₁.inHand,
        fun r hr => (h₂.kind r (Nat.lt_of_lt_of_le hr h₁.heap)).trans (h₁.kind r hr),
        Nat.le_trans h₁.heap h₂.heap, fun r => (h₂.custody r).trans (h₁.custody r)⟩
    · have h₁ := h.2 ht
      have h₂ := h'.2 ht
      exact ⟨h₂.hands.trans h₁.hands,
        fun r hr => (h₂.stored r (h₁.hands.trans hr)).trans (h₁.stored r hr)⟩

/-- A message stays one. -/
theorem isDeliverSm_perform {op : Op} {x : op.Res × Session} (h : perform cfg t op s = some x)
    {r : Ref} (hr : r < s.heap.length) : x.2.IsDeliverSm r ↔ s.IsDeliverSm r := by
  unfold IsDeliverSm
  rw [commandId_perform h hr]

/-- What all relies of the threads come down to for an operation of another thread that leaves custody
as it is. -/
theorem relies_of_custody {op : Op} {x : op.Res × Session} (h : perform cfg t op s = some x)
    (hcustody : ∀ r, x.2.InCustody r ↔ s.InCustody r) {u : Tid} (hu : u ≠ t) (hio : u = .io) :
    IoTrusts s x.2 := by
  subst hio
  exact ⟨(perform_local h hu).2.1, fun r hr => isDeliverSm_perform h hr, heap_perform h, hcustody⟩

/-- **An operation that moves no message** keeps the contract, whoever performs it. -/
theorem keeps_still {op : Op} {x : op.Res × Session} (h : perform cfg t op s = some x)
    (hC : Custody s) (hk : Known t op s) (hop : op.moves = false)
    (hf : (delivery cfg).fact t op s) : (delivery cfg).Keeps t op s x.2 := by
  obtain ⟨hstored, hhands⟩ := custody_same h hop
  have hcustody : ∀ r, x.2.InCustody r ↔ s.InCustody r := by
    intro r
    unfold InCustody
    rw [hstored, hhands]
  refine ⟨hf, ⟨inv_perform h hk hC.inv, ?_, fun r hr => ?_⟩, fun u hu => ⟨fun hio => ?_, fun _ => ?_⟩⟩
  · rw [hstored]
    exact hC.nodup
  · exact Nat.lt_of_lt_of_le (hC.object r ((hcustody r).mp hr)) (heap_perform h)
  · exact relies_of_custody h hcustody hu hio
  · exact ⟨hhands, fun r _ => by rw [hstored]⟩

/-- **The io thread stores the message in its hand.** -/
theorem keeps_store {r : Ref} {x : Unit × Session} (h : perform cfg .io (.rxPush r) s = some x)
    (hC : Custody s) (hk : Known .io (.rxPush r) s) (hf : IoKnows (.rxPush r) s) :
    (delivery cfg).Keeps .io (.rxPush r) s x.2 ∧ x.2.InCustody r := by
  obtain ⟨hstored, hhands⟩ := stored_perform h rfl
  obtain ⟨hin, hkind, hnew⟩ := hf
  have hmem : ∀ q, q ∈ x.2.stored ↔ q = r ∨ q ∈ s.stored := fun q => by
    rw [hstored.mem_iff, List.mem_cons]
  refine ⟨⟨⟨fun _ => ⟨hin, hkind, hnew⟩, fun ht => by cases ht⟩, ⟨inv_perform h hk hC.inv, ?_, ?_⟩, ?_⟩, ?_⟩
  · rw [hstored.nodup_iff, List.nodup_cons]
    exact ⟨fun hmem => hnew (.inl hmem), hC.nodup⟩
  · intro q hq
    refine Nat.lt_of_lt_of_le ?_ (heap_perform h)
    rcases hq with hq | hq
    · rcases (hmem q).mp hq with rfl | hq
      · exact hC.inv.fresh q (.inl ⟨_, hin⟩)
      · exact hC.object q (.inl hq)
    · rw [hhands] at hq
      exact hC.object q (.inr hq)
  · intro u hu
    refine ⟨fun hio => absurd hio hu, fun _ => ⟨hhands, fun q hq => ?_⟩⟩
    rw [hmem]
    exact ⟨fun h => h.resolve_left fun heq => hnew (.inr (by rw [← heq, hq])), .inr⟩
  · exact .inl ((hmem r).mpr (.inl rfl))

/-- **`recieveProcessor` disposes of the message in its hands.** -/
theorem keeps_dispose {op : Op} {x : op.Res × Session} (h : perform cfg .receiver op s = some x)
    (hC : Custody s) (hk : Known .receiver op s) {r : Ref} (hop : op.disposes? = some r)
    (hf : ReceiverKnows op s) (hne : op ≠ .rxDone) :
    (delivery cfg).Keeps .receiver op s x.2 ∧ x.2.hands = s.hands ∧ r ∈ x.2.stored := by
  obtain ⟨hstored, hhands⟩ := stored_perform h hop
  have hr : s.hands = some r := hf.dispose r hop
  have hmem : ∀ q, q ∈ x.2.stored ↔ q = r ∨ q ∈ s.stored := fun q => by
    rw [hstored.mem_iff, List.mem_cons]
  -- what is stored comes out of the receiver's hands
  have hcustody : ∀ q, x.2.InCustody q ↔ s.InCustody q := by
    intro q
    unfold InCustody
    rw [hmem, hhands, hr]
    constructor
    · rintro ((rfl | hq) | hq)
      · exact .inr rfl
      · exact .inl hq
      · exact .inr hq
    · rintro (hq | hq)
      · exact .inl (.inr hq)
      · exact .inr hq
  refine ⟨⟨⟨fun ht => (by cases ht), fun _ => hf⟩, ⟨inv_perform h hk hC.inv, ?_, fun q hq => ?_⟩, ?_⟩,
    hhands, (hmem r).mpr (.inl rfl)⟩
  · rw [hstored.nodup_iff, List.nodup_cons]
    exact ⟨hf.hold hne r hr, hC.nodup⟩
  · exact Nat.lt_of_lt_of_le (hC.object q ((hcustody q).mp hq)) (heap_perform h)
  · exact fun u hu => ⟨fun hio => relies_of_custody h hcustody hu hio, fun ht => absurd ht hu⟩

/-- **`recieveProcessor` takes a message into its hands.** -/
theorem keeps_rxPop {x : Option Ref × Session} (h : perform cfg .receiver .rxPop s = some x)
    (hC : Custody s) (hk : Known .receiver .rxPop s) (hf : ReceiverKnows .rxPop s) :
    (delivery cfg).Keeps .receiver .rxPop s x.2 ∧ x.1 = x.2.hands ∧
      ∀ r, x.2.hands = some r → r ∉ x.2.stored := by
  obtain ⟨hstored, hres⟩ := rxPop_perform h
  have hnone := hf.pop rfl
  have hnodup := hC.nodup
  rw [hstored, List.nodup_append] at hnodup
  have hcustody : ∀ q, x.2.InCustody q ↔ s.InCustody q := by
    intro q
    unfold InCustody
    rw [hstored, hnone, List.mem_append, Option.mem_toList]
    constructor
    · exact fun h => .inl h.symm
    · exact fun h => (h.resolve_right (by simp)).symm
  refine ⟨⟨⟨fun ht => (by cases ht), fun _ => hf⟩, ⟨inv_perform h hk hC.inv, hnodup.2.1, fun q hq => ?_⟩,
    ?_⟩, hres, fun r hr hmem => ?_⟩
  · exact Nat.lt_of_lt_of_le (hC.object q ((hcustody q).mp hq)) (heap_perform h)
  · exact fun u hu => ⟨fun hio => relies_of_custody h hcustody hu hio, fun ht => absurd ht hu⟩
  · exact hnodup.2.2 r (Option.mem_toList.mpr hr) r hmem rfl

/-- **`recieveProcessor` lets go of a message it has disposed of.** -/
theorem keeps_rxDone {x : Unit × Session} (h : perform cfg .receiver .rxDone s = some x)
    (hC : Custody s) (hk : Known .receiver .rxDone s) (hf : ReceiverKnows .rxDone s) :
    (delivery cfg).Keeps .receiver .rxDone s x.2 ∧ x.2.hands = none := by
  have hstored : x.2.stored = s.stored := by
    cases h
    rfl
  have hhands : x.2.hands = none := by
    cases h
    rfl
  have hcustody : ∀ q, x.2.InCustody q ↔ s.InCustody q := by
    intro q
    unfold InCustody
    rw [hstored, hhands]
    constructor
    · exact fun hq => .inl (hq.resolve_right (by simp))
    · exact fun hq => .inl (hq.elim id (hf.done rfl q))
  refine ⟨⟨⟨fun ht => (by cases ht), fun _ => hf⟩, ⟨inv_perform h hk hC.inv, ?_, fun q hq => ?_⟩, ?_⟩, hhands⟩
  · rw [hstored]
    exact hC.nodup
  · exact Nat.lt_of_lt_of_le (hC.object q ((hcustody q).mp hq)) (heap_perform h)
  · exact fun u hu => ⟨fun hio => relies_of_custody h hcustody hu hio, fun ht => absurd ht hu⟩

/-! ## The io thread -/

/-- The kind of the PDU in hand, and whether it is in custody, is stable for the io thread. -/
theorem stable_handStored : (delivery cfg).Stable .io HandStored := by
  intro s s' hC hs hr _
  obtain ⟨hinHand, hkinds, -, hcustody⟩ := hr.1 rfl
  show ∀ r, s'.inHand .io = some r → s'.IsDeliverSm r → s'.InCustody r
  intro r hin hkind
  rw [hinHand] at hin
  exact (hcustody r).mpr (hs r hin ((hkinds r (hC.inv.fresh r (.inl ⟨_, hin⟩))).mp hkind))

/-- The operations that neither construct nor move a message. -/
def Op.noMessage : Op → Bool
  | .newPdu p => p.commandId != .DeliverSm
  | op => !op.moves

/-- Code that neither constructs nor moves a message moves none. -/
theorem moves_of_noMessage {op : Op} (h : op.noMessage = true) : op.moves = false := by
  cases op <;> first | rfl | exact Bool.not_eq_true' _ ▸ h

/-- Code that neither constructs nor moves a message. -/
abbrev NoMessage {α : Type} (p : Code α) : Prop := p.Uses fun op => op.noMessage = true

/-- Code that neither constructs nor moves a message leaves the io thread settled. -/
theorem triple_noMessage {α : Type} {p : Code α} (hp : NoMessage p) :
    (delivery cfg).Triple .io HandStored p fun _ => HandStored := by
  apply Contract.Triple.uses hp stable_handStored
  intro op s x hop hC hs hg hx
  obtain ⟨-, hx⟩ := perform_of_exec hx
  have hmoves := moves_of_noMessage hop
  have hf : (delivery cfg).fact .io op s := by
    refine ⟨fun _ => ?_, fun ht => by cases ht⟩
    -- storing a message is not among these operations
    cases op with
    | rxPush r => cases hop
    | _ => exact hs
  refine ⟨keeps_still hx hC (known_known hg) hmoves hf, fun r hin hkind => ?_⟩
  obtain ⟨hstored, hhands⟩ := custody_same hx hmoves
  rcases inHand_perform hx hin with hin | ⟨-, rfl, p, rfl⟩ | ⟨-, -, rfl⟩
  · have hlt := hC.inv.fresh r (.inl ⟨_, hin⟩)
    have := hs r hin ((isDeliverSm_perform hx hlt).mp hkind)
    unfold InCustody
    rw [hstored, hhands]
    exact this
  · -- the PDU just constructed is no message
    refine absurd ?_ (bne_iff_ne.mp hop)
    cases hx
    simpa [IsDeliverSm, Session.pdu, Session.record] using hkind
  · have := Op.sender_of_mayRun (known_mayRun hg) rfl
    cases this

/-- Answering a PDU neither constructs nor moves a message. -/
theorem noMessage_ofReply {α : Type} {p : Code α} (hp : OfReply p) : NoMessage p := by
  apply hp.mono
  intro op hop
  cases op <;> first | rfl | cases hop | exact (Bool.and_eq_true_iff.mp hop).2

/-- The assertion between the construction of a message and its storing. -/
def Session.Storing (s : Session) (r : Ref) : Prop :=
  s.inHand .io = some r ∧ s.IsDeliverSm r ∧ ¬s.InCustody r

/-- A message that is being stored stays so under the other threads. -/
theorem stable_storing {r : Ref} : (delivery cfg).Stable .io fun s => s.Storing r := by
  intro s s' hC hs hr _
  obtain ⟨hinHand, hkinds, -, hcustody⟩ := hr.1 rfl
  exact ⟨hinHand.trans hs.1, (hkinds r (hC.inv.fresh r (.inl ⟨_, hs.1⟩))).mpr hs.2.1,
    fun h => hs.2.2 ((hcustody r).mp h)⟩

/-- **`procpdu_deliver_sm` stores the message** before it does anything else. -/
theorem triple_procpduDeliverSm_stored (raw : RawPdu) :
    (delivery cfg).Triple .io HandStored (procpduDeliverSm cfg raw) fun _ => HandStored := by
  have hreply : NoMessage (call (.newPdu (responsePdu raw .DeliverSmResp)) >>= fun r' =>
      doWrite cfg r' .RESPONSE >>= fun _ => return Completion.returned) :=
    noMessage_ofReply (uses_then rfl fun r' => (ofReply_doWrite rfl).bind fun _ => trivial)
  unfold procpduDeliverSm
  split
  · apply Contract.Triple.bind (Q := fun r s => s.Storing r)
    · apply Contract.Triple.op stable_handStored fun _ => stable_storing
      intro s x hC hs hg hx
      obtain ⟨-, hx⟩ := perform_of_exec hx
      refine ⟨keeps_still hx hC (known_known hg) rfl ⟨fun _ => hs, fun ht => by cases ht⟩, ?_⟩
      -- the object that has just been made is in nobody's custody
      have hnew : ¬s.InCustody s.heap.length := fun h => Nat.lt_irrefl _ (hC.object _ h)
      obtain ⟨hstored, hhands⟩ := custody_same hx rfl
      cases hx
      refine ⟨by simp [Session.record], by simp [IsDeliverSm, Session.pdu, Session.record], ?_⟩
      unfold InCustody at hnew ⊢
      rw [hstored, hhands]
      exact hnew
    intro r
    apply Contract.Triple.bind _ fun _ => triple_noMessage hreply
    apply Contract.Triple.op stable_storing fun _ => stable_handStored
    intro s x hC hs hg hx
    obtain ⟨-, hx⟩ := perform_of_exec hx
    obtain ⟨hkeeps, hin⟩ := keeps_store hx hC (known_known hg) hs
    refine ⟨hkeeps, fun q hq _ => ?_⟩
    have hsame : x.2.inHand = s.inHand := perform_same (f := .inHand) hx (by simp)
    rw [hsame, hs.1] at hq
    cases hq
    exact hin
  · exact Contract.Triple.skip stable_handStored

/-- `process4state` leaves the io thread with nothing in hand that it has not stored. -/
theorem triple_process4state_stored (raw : RawPdu) :
    (delivery cfg).Triple .io HandStored (process4state cfg raw) fun _ => HandStored := by
  have hreply : ∀ {α : Type} {p : Code α}, OfReply p →
      (delivery cfg).Triple .io HandStored p fun _ => HandStored :=
    fun hp => triple_noMessage (noMessage_ofReply hp)
  have hswitch : ∀ st, (delivery cfg).Triple .io HandStored (process4stateSwitch cfg raw st)
      fun _ => HandStored := by
    intro st
    -- a `deliver_sm` is the only PDU that is stored
    rcases ofReply_of_dispatch (dispatch_process4stateSwitch cfg raw st) with
      hp | hp | ⟨st', -, -, hp⟩ | ⟨-, hp⟩
    · exact hreply hp
    · rw [hp]
      exact triple_procpduDeliverSm_stored raw
    · rw [hp]
      apply triple_noMessage
      apply Prog.Uses.bind
      · exact Prog.Uses.when (uses_call (by rfl))
      · exact fun _ => trivial
    · rw [hp]
      apply triple_noMessage
      refine uses_then rfl fun _ => ?_
      exact (noMessage_ofReply ofReply_closeSession).bind fun _ => trivial
  unfold process4state
  apply Contract.Triple.bind (triple_noMessage ?_)
  · intro _
    apply Contract.Triple.bind (triple_noMessage (uses_call rfl))
    intro st
    apply Contract.Triple.bind (triple_noMessage (uses_call rfl))
    intro _
    apply (hswitch st).bind
    intro how
    cases how with
    | returned => exact Contract.Triple.skip stable_handStored
    | threw => exact hreply ofReply_closeSession
  · exact uses_then rfl fun _ => uses_then rfl fun _ => uses_call rfl

/-- Of the handlers, only that of a received PDU has to do with messages. -/
theorem triple_handler_stored (q : Handler) :
    (delivery cfg).Triple .io HandStored (q.body cfg) fun _ => HandStored := by
  have hother : (∀ op : Op, q.uses op = true → op.noMessage = true) →
      (delivery cfg).Triple .io HandStored (q.body cfg) fun _ => HandStored :=
    fun h => triple_noMessage (q.uses_body.mono h)
  -- a PDU of another kind than a message
  have hkind : ∀ {c c' : CommandId}, (c == c') = true → c' ≠ .DeliverSm →
      (c != .DeliverSm) = true := by
    intro c c' hc hne
    rw [eq_of_beq hc]
    exact bne_iff_ne.mpr hne
  cases q with
  | handleConnect e =>
      apply hother
      intro op hop
      cases op <;> first | rfl | cases hop | skip
      case newPdu p =>
        have hbind : p.commandId.isBind = true := hop
        refine bne_iff_ne.mpr fun hc => ?_
        rw [hc] at hbind
        cases hbind
  | handleReadBody raw e =>
      show (delivery cfg).Triple .io HandStored (handleReadBody cfg raw e) _
      unfold handleReadBody
      split
      · apply Contract.Triple.bind (triple_noMessage ?_)
        · intro _
          apply (triple_process4state_stored raw).bind
          exact fun _ => triple_noMessage (uses_call rfl)
        · apply Prog.Uses.when
          exact uses_then rfl fun _ => uses_then rfl fun _ => uses_call rfl
      · apply triple_noMessage
        apply (ofFailure_handleReadError e).mono
        intro op hop
        cases op <;> first | rfl | cases hop | exact hkind hop nofun
  | w4rQAgeCleanup e =>
      apply hother
      intro op hop
      cases op <;> first | rfl | cases hop | skip
      case note m => cases m <;> first | rfl | cases hop
  | _ =>
      apply hother
      intro op hop
      cases op <;> first | rfl | cases hop | exact hkind hop nofun

/-! ## `recieveProcessor` -/

/-- `recieveProcessor` has taken this message, and not disposed of it. -/
def Session.Holding (s : Session) (r : Ref) : Prop := s.hands = some r ∧ r ∉ s.stored

/-- `recieveProcessor` has disposed of this message, and not let go of it. -/
def Session.Disposed (s : Session) (r : Ref) : Prop := s.hands = some r ∧ r ∈ s.stored

/-- Empty hands of `recieveProcessor` stay empty under the other threads. -/
theorem stable_handsFree : (delivery cfg).Stable .receiver fun s => s.hands = none :=
  fun _ _ _ hs hr _ => (hr.2 rfl).hands.trans hs

/-- What `recieveProcessor` has taken and not disposed of stays so under the other threads. -/
theorem stable_holding {r : Ref} : (delivery cfg).Stable .receiver fun s => s.Holding r :=
  fun _ _ _ hs hr _ =>
    ⟨(hr.2 rfl).hands.trans hs.1, fun h => hs.2 (((hr.2 rfl).stored r hs.1).mp h)⟩

/-- What `recieveProcessor` has disposed of stays so under the other threads. -/
theorem stable_disposed {r : Ref} : (delivery cfg).Stable .receiver fun s => s.Disposed r :=
  fun _ _ _ hs hr _ =>
    ⟨(hr.2 rfl).hands.trans hs.1, ((hr.2 rfl).stored r hs.1).mpr hs.2⟩

/-- What `recieveProcessor` knows when it does nothing to a message. -/
theorem receiverKnows_still {op : Op} (hop : op.moves = false)
    (hhold : ∀ r, s.hands = some r → r ∉ s.stored) : ReceiverKnows op s where
  pop heq := by
    subst heq
    cases hop
  dispose r hr := by
    cases op <;> first | simp at hr; done | simp at hop; done | skip
    case note m => cases m <;> first | simp at hr; done | simp at hop
  done heq := by
    subst heq
    cases hop
  hold _ := hhold

/-- A part of its code that does nothing to a message. -/
theorem triple_still {op : Op} {P : Session → Prop} (hop : op.moves = false)
    (hP : (delivery cfg).Stable .receiver P) (hhold : ∀ s, P s → ∀ r, s.hands = some r → r ∉ s.stored)
    (hsame : ∀ s s', s'.stored = s.stored → s'.hands = s.hands → P s → P s') :
    (delivery cfg).Triple .receiver P (call op) fun _ => P := by
  apply Contract.Triple.op hP fun _ => hP
  intro s x hC hs hg hx
  obtain ⟨-, hx⟩ := perform_of_exec hx
  obtain ⟨hstored, hhands⟩ := custody_same hx hop
  refine ⟨keeps_still hx hC (known_known hg) hop ⟨fun ht => (by cases ht), fun _ => ?_⟩,
    hsame _ _ hstored hhands hs⟩
  exact receiverKnows_still hop (hhold s hs)

/-- An operation that moves no message leaves empty hands empty. -/
theorem triple_still_free {op : Op} (hop : op.moves = false) :
    (delivery cfg).Triple .receiver (fun s => s.hands = none) (call op) fun _ s => s.hands = none := by
  refine triple_still hop stable_handsFree (fun s hs r hr => ?_) fun s s' _ hh hs => hh.trans hs
  rw [hs] at hr
  cases hr

/-- An operation that moves no message leaves one in hand where it is. -/
theorem triple_still_holding {op : Op} {r : Ref} (hop : op.moves = false) :
    (delivery cfg).Triple .receiver (fun s => s.Holding r) (call op) fun _ s => s.Holding r := by
  refine triple_still hop stable_holding (fun s hs q hq => ?_) fun s s' hst hh hs => ?_
  · rw [hs.1, Option.some.injEq] at hq
    subst hq
    exact hs.2
  · exact ⟨hh.trans hs.1, by rw [hst]; exact hs.2⟩

/-- `recieveProcessor` disposes of the message in its hands. -/
theorem triple_dispose {op : Op} {r : Ref} (hop : op.disposes? = some r) :
    (delivery cfg).Triple .receiver (fun s => s.Holding r) (call op) fun _ s => s.Disposed r := by
  apply Contract.Triple.op stable_holding fun _ => stable_disposed
  intro s x hC hs hg hx
  obtain ⟨-, hx⟩ := perform_of_exec hx
  have hne : op ≠ .rxDone := by
    rintro rfl
    cases hop
  have hf : ReceiverKnows op s := by
    refine ⟨fun heq => ?_, fun q hq => ?_, fun heq => absurd heq hne, fun _ q hq => ?_⟩
    · subst heq
      cases hop
    · rw [hop, Option.some.injEq] at hq
      rw [← hq]
      exact hs.1
    · rw [hs.1, Option.some.injEq] at hq
      rw [← hq]
      exact hs.2
  obtain ⟨hkeeps, hhands, hmem⟩ := keeps_dispose hx hC (known_known hg) hop hf hne
  exact ⟨hkeeps, hhands.trans hs.1, hmem⟩

/-- What `recieveProcessor` pops is in its hands, and no longer stored. -/
theorem triple_rxPop : (delivery cfg).Triple .receiver (fun s => s.hands = none) (call .rxPop)
    fun o s => s.hands = o ∧ ∀ r, s.hands = some r → r ∉ s.stored := by
  apply Contract.Triple.op stable_handsFree
  · intro o s s' _ hs hr _
    obtain ⟨hh, hst⟩ := hr.2 rfl
    refine ⟨hh.trans hs.1, fun r hr' hmem => ?_⟩
    rw [hh] at hr'
    exact hs.2 r hr' ((hst r hr').mp hmem)
  · intro s x hC hs hg hx
    obtain ⟨-, hx⟩ := perform_of_exec hx
    have hf : ReceiverKnows .rxPop s := by
      refine ⟨fun _ => hs, nofun, nofun, fun _ r hr => ?_⟩
      rw [hs] at hr
      cases hr
    obtain ⟨hkeeps, hres, hnew⟩ := keeps_rxPop hx hC (known_known hg) hf
    exact ⟨hkeeps, hres.symm, hnew⟩

/-- `recieveProcessor` lets go of a message only when it has disposed of it. -/
theorem triple_rxDone {r : Ref} : (delivery cfg).Triple .receiver (fun s => s.Disposed r)
    (call .rxDone) fun _ s => s.hands = none := by
  apply Contract.Triple.op stable_disposed fun _ => stable_handsFree
  intro s x hC hs hg hx
  obtain ⟨-, hx⟩ := perform_of_exec hx
  apply keeps_rxDone hx hC (known_known hg)
  refine ⟨nofun, nofun, fun _ q hq => ?_, fun hne => absurd rfl hne⟩
  rw [hs.1, Option.some.injEq] at hq
  rw [← hq]
  exact hs.2

/-- **`recieveProcessor` disposes of the message it takes**, in one way or another. -/
theorem triple_recieveProcessor : (delivery cfg).Triple .receiver (fun s => s.hands = none)
    recieveProcessor fun _ s => s.hands = none := by
  -- each way out of an attempt stores the message and lets go of it
  have hdone : ∀ {op : Op} {r : Ref}, op.disposes? = some r →
      (delivery cfg).Triple .receiver (fun s => s.Holding r) (call op >>= fun _ => call .rxDone)
        fun _ s => s.hands = none :=
    fun hop => (triple_dispose hop).bind fun _ => triple_rxDone
  unfold recieveProcessor sleep
  apply (triple_still_free rfl).bind
  intro empty
  split
  · apply (triple_still_free rfl).bind
    exact fun now => triple_still_free rfl
  apply triple_rxPop.bind
  intro o
  cases o with
  | none =>
      apply (triple_still_free rfl).pre
      exact fun s _ hs => hs.1
  | some r =>
      apply Contract.Triple.pre (P := fun s => s.Holding r) _ fun s _ hs => ⟨hs.1, hs.2 r hs.1⟩
      apply (triple_still_holding rfl).bind
      intro a
      cases a with
      | success => exact hdone rfl
      | retryable => exact hdone rfl
      | perminant => exact hdone rfl

/-! ## Soundness -/

variable {p : Persisted} {now : Nat} {c : Machine}

/-- At the start every message is in the buffers that were read back, once. -/
theorem custody_init (p : Persisted) (now : Nat) : Custody (Session.init p now) := by
  have hlen : (Session.init p now).heap.length = p.message.length + p.sending.length +
      p.recieve.length + p.rcvErr.length + p.session.length + p.response.length := by
    simp only [Session.init, Session.opened, Persisted.heap, List.length_map, List.length_append]
  have hstored : (Session.init p now).stored =
      Persisted.refs (p.message.length + p.sending.length) p.recieve ++
        Persisted.refs (p.message.length + p.sending.length + p.recieve.length) p.rcvErr :=
    List.append_nil _
  refine ⟨inv_init p now, ?_, fun r hr => ?_⟩
  · rw [hstored, List.nodup_append]
    refine ⟨List.nodup_range', List.nodup_range', fun a ha b hb => ?_⟩
    rw [Persisted.refs, List.mem_range'_1] at ha hb
    exact Nat.ne_of_lt (Nat.lt_of_lt_of_le ha.2 hb.1)
  · have hr := hr.resolve_right fun hhand => by cases hhand
    rw [hstored, List.mem_append, Persisted.refs, Persisted.refs, List.mem_range'_1,
      List.mem_range'_1] at hr
    rw [hlen]
    rcases hr with hr | hr
    · exact Nat.lt_of_lt_of_le hr.2 (by omega)
    · exact Nat.lt_of_lt_of_le hr.2 (by omega)

/-- What moves no message and constructs none leaves the custody to those who have it. -/
theorem custody_aside (hC : Custody s) (hi : Inv s') (hheap : s.heap.length ≤ s'.heap.length)
    (hsame : s'.stored = s.stored ∧ s'.hands = s.hands) : Custody s' where
  inv := hi
  nodup := by
    rw [hsame.1]
    exact hC.nodup
  object r hr := by
    unfold InCustody at hr
    rw [hsame.1, hsame.2] at hr
    exact Nat.lt_of_lt_of_le (hC.object r hr) hheap

/-- For the io thread it is enough that no message is moved and no object changed. -/
theorem ioTrusts_aside (hin : s'.inHand = s.inHand) (hheap : s.heap.length ≤ s'.heap.length)
    (hpdu : ∀ r, r < s.heap.length → s'.pdu r = s.pdu r)
    (hsame : s'.stored = s.stored ∧ s'.hands = s.hands) : IoTrusts s s' where
  inHand := congrFun hin .io
  kind r hr := by
    unfold IsDeliverSm
    rw [hpdu r hr]
  heap := hheap
  custody r := by
    unfold InCustody
    rw [hsame.1, hsame.2]

/-- For `recieveProcessor` it is enough that no message is moved. -/
theorem receiverTrusts_aside (hsame : s'.stored = s.stored ∧ s'.hands = s.hands) :
    ReceiverTrusts s s' :=
  ⟨hsame.2, fun r _ => by rw [hsame.1]⟩

/-- The threads of `sendingProcessor` and `stop` move no message. -/
theorem moves_of_inJob {op : Op} (h : s.InJob t op) (hio : t ≠ .io) (hrec : t ≠ .receiver) :
    op.moves = false := by
  obtain ⟨j, hj, hop, -⟩ := h
  cases j with
  | handler q => exact absurd hj.symm hio
  | receive => exact absurd hj.symm hrec
  | send =>
      change op.ofSending = true at hop
      cases op <;> first | rfl | cases hop
  | stop =>
      change op.ofStop = true at hop
      cases op <;> first | rfl | cases hop | skip
      case note m => cases m <;> first | rfl | cases hop

/-- An operation on another thread than the io thread and that of `recieveProcessor` keeps the
custody. -/
theorem keeps_elsewhere {op : Op} {x : op.Res × Session} (hC : Custody s)
    (hg : (known cfg Guard.free).op t op s) (hio : t ≠ .io) (hrec : t ≠ .receiver)
    (h : perform cfg t op s = some x) : (delivery cfg).Keeps t op s x.2 :=
  keeps_still h hC (known_known hg) (moves_of_inJob (known_inJob hg) hio hrec)
    ⟨fun ht => absurd ht hio, fun ht => absurd ht hrec⟩

/-- **The custody of messages is sound**: every thread keeps what the others trust in. -/
theorem delivery_sound (cfg : Params) (p : Persisted) (now : Nat) :
    (delivery cfg).Sound (Machine.init p now) where
  inv_init := custody_init p now
  safe_init t := fun s' hr _ => by
    refine ⟨fun ht => ?_, fun ht => (hr.2 ht).hands⟩
    intro r hin
    rw [(hr.1 ht).inHand] at hin
    cases hin
  env e s s' hC hx := by
    have hsame := custody_env hx
    obtain ⟨hheap, hpdu⟩ := pdu_env hx
    exact ⟨custody_aside hC (inv_env hx hC.inv) hheap hsame, fun _ =>
      ⟨fun _ => ioTrusts_aside (env_same (f := .inHand) hx (by simp)) hheap hpdu hsame,
        fun _ => receiverTrusts_aside hsame⟩⟩
  take j s s' hC hid hg hx := by
    have hsame := custody_take hx
    have hin : s'.inHand = s.inHand := take_same (f := .inHand) hx (by simp)
    obtain ⟨hheap, hpdu⟩ := pdu_take hx
    have hC' : Custody s' := custody_aside hC (inv_take hx (known_quiet hg) hC.inv) hheap hsame
    have htrusts : IoTrusts s s' := ioTrusts_aside hin hheap (fun r _ => hpdu r) hsame
    refine ⟨hC', fun _ _ => ⟨fun _ => htrusts, fun _ => receiverTrusts_aside hsame⟩, ?_⟩
    cases j with
    | handler q =>
        have hstored : s'.HandStored :=
          stable_handStored s s' hC (hid.1 rfl) ⟨fun _ => htrusts, nofun⟩ hC'
        apply ((triple_handler_stored q).post _) s' hC' hstored
        exact fun _ _ _ hs => ⟨fun _ => hs, nofun⟩
    | receive =>
        apply (triple_recieveProcessor.post _) s' hC' (hsame.2.trans (hid.2 rfl))
        exact fun _ _ _ hs => ⟨nofun, fun _ => hs⟩
    -- the other threads store nothing
    | send =>
        apply Contract.Safe.any _ fun _ _ => ⟨nofun, nofun⟩
        intro op s x hC hg hx
        exact keeps_elsewhere hC hg nofun nofun (perform_of_exec hx).2
    | stop =>
        apply Contract.Safe.any _ fun _ _ => ⟨nofun, nofun⟩
        intro op s x hC hg hx
        exact keeps_elsewhere hC hg nofun nofun (perform_of_exec hx).2

/-! ## What has been acknowledged -/

/-- **The message is acknowledged**: a `deliver_sm_resp` has been queued as a response, and the message
is the one constructed last before it. -/
def Session.Acknowledged (s : Session) (r : Ref) : Prop :=
  ∃ newer r' between older,
    s.hist = newer ++ .pushed r' .RESPONSE :: (between ++ .constructed r :: older) ∧
      (s.pdu r').commandId = .DeliverSmResp ∧ s.IsDeliverSm r ∧
      ∀ q, .constructed q ∈ between → ¬s.IsDeliverSm q

/-- A message is acknowledged because it was so before, or because that has just been recorded. -/
theorem acknowledged_append (hi : Inv s) (hrec : s.Recorded) {logs : List Event}
    (hhist : s'.hist = logs ++ s.hist) (hlogs : logs.length ≤ 1)
    (hkind : ∀ q, q < s.heap.length → (s'.pdu q).commandId = (s.pdu q).commandId) {r : Ref}
    (hr : s'.Acknowledged r) : s.Acknowledged r ∨
      ∃ q, .pushed q .RESPONSE ∈ logs ∧ (s'.pdu q).commandId = .DeliverSmResp ∧
        s'.IsDeliverSm r ∧ .constructed r ∈ s.hist := by
  obtain ⟨newer, q, between, older, heq, hq, hmsg, hlast⟩ := hr
  rw [hhist] at heq
  -- what was acknowledged before stays acknowledged
  have hold : ∀ newer, s.hist = newer ++ .pushed q .RESPONSE :: (between ++ .constructed r :: older) →
      s.Acknowledged r := by
    intro newer hs
    have hpushed : q < s.heap.length := by
      apply hi.queued q (.pushed .RESPONSE _)
      rw [hs]
      exact List.mem_append_right _ List.mem_cons_self
    have hconstructed : ∀ x, .constructed x ∈ between ++ .constructed r :: older →
        x < s.heap.length := by
      intro x hx
      apply hrec.constructed x
      rw [hs]
      exact List.mem_append_right _ (List.mem_cons_of_mem _ hx)
    refine ⟨newer, q, between, older, hs, (hkind q hpushed).symm.trans hq, ?_, fun x hx hx' => ?_⟩
    · exact (hkind r (hconstructed r (List.mem_append_right _ List.mem_cons_self))).symm.trans hmsg
    · exact hlast x hx ((hkind x (hconstructed x (List.mem_append_left _ hx))).trans hx')
  -- at most one event is new: the response is older than it, or is that event
  cases logs with
  | nil => exact .inl (hold newer heq)
  | cons ev rest =>
      have hrest : rest = [] := List.length_eq_zero_iff.mp (Nat.le_zero.mp (Nat.le_of_succ_le_succ hlogs))
      subst hrest
      cases newer with
      | cons a newer => exact .inl (hold newer (List.cons.inj heq).2)
      | nil =>
          obtain ⟨hev, htail⟩ := List.cons.inj heq
          refine .inr ⟨q, ?_, hq, hmsg, ?_⟩
          · rw [hev]
            exact List.mem_cons_self
          · rw [show s.hist = _ from htail]
            exact List.mem_append_right _ List.mem_cons_self

/-- **Where the messages are**: one that has been constructed is in the hand of the io thread or in
custody, and one that has been acknowledged is in custody, where nothing else comes to be. -/
structure Kept (s : Session) : Prop where
  recorded : s.Recorded
  custody : ∀ r, s.InCustody r → r < s.heap.length ∧ (.constructed r ∈ s.hist → s.IsDeliverSm r)
  constructed : ∀ r, .constructed r ∈ s.hist → s.IsDeliverSm r →
    s.inHand .io = some r ∨ s.InCustody r
  acknowledged : ∀ r, s.Acknowledged r → s.InCustody r

/-- A message leaves custody nowhere. -/
theorem inCustody_perform {op : Op} {x : op.Res × Session} (h : perform cfg t op s = some x)
    (hm : op.mayRun t = true) (hf : t = .receiver → ReceiverKnows op s) {r : Ref}
    (hr : s.InCustody r) : x.2.InCustody r := by
  cases hmoves : op.moves with
  | false =>
      obtain ⟨hstored, hhands⟩ := custody_same h hmoves
      unfold InCustody
      rw [hstored, hhands]
      exact hr
  | true =>
      -- a disposal only adds to what is stored
      have hadd : ∀ q, op.disposes? = some q → x.2.InCustody r := by
        intro q hq
        obtain ⟨hstored, hhands⟩ := stored_perform h hq
        unfold InCustody
        rw [hstored.mem_iff, hhands]
        exact hr.imp_left (List.mem_cons_of_mem _)
      cases op with
      | rxPop =>
          obtain ⟨hstored, -⟩ := rxPop_perform h
          -- the receiver pops with empty hands
          have hnone := (hf ((Op.mayRun_iff.mp hm).2.2.1 rfl)).pop rfl
          have hmem := hr.resolve_right (by rw [hnone]; nofun)
          rw [hstored, List.mem_append, Option.mem_toList] at hmem
          exact hmem.symm
      | rxDone =>
          -- what it lets go of has been stored
          have hdone := (hf ((Op.mayRun_iff.mp hm).2.2.1 rfl)).done rfl
          have hmem := hr.elim id (hdone r)
          cases h
          exact .inl hmem
      | rxPush q => exact hadd q rfl
      | errPush q => exact hadd q rfl
      | note m =>
          cases m with
          | delivered q => exact hadd q rfl
          | _ => simp at hmoves
      | _ => simp at hmoves

/-- What comes into custody is the message the io thread has in hand. -/
theorem inCustody_of_perform {op : Op} {x : op.Res × Session} (h : perform cfg t op s = some x)
    (hg : (known cfg Guard.free).op t op s) (hf : (delivery cfg).fact t op s) {r : Ref}
    (hr : x.2.InCustody r) : s.InCustody r ∨ s.inHand .io = some r ∧ s.IsDeliverSm r := by
  cases hmoves : op.moves with
  | false =>
      obtain ⟨hstored, hhands⟩ := custody_same h hmoves
      unfold InCustody at hr
      rw [hstored, hhands] at hr
      exact .inl hr
  | true =>
      have hm := known_mayRun hg
      -- what a disposal adds was in custody, or is new
      have hadd : ∀ q, op.disposes? = some q →
          (q = r → s.InCustody r ∨ s.inHand .io = some r ∧ s.IsDeliverSm r) →
          s.InCustody r ∨ s.inHand .io = some r ∧ s.IsDeliverSm r := by
        intro q hq hnew
        obtain ⟨hstored, hhands⟩ := stored_perform h hq
        unfold InCustody at hr
        rw [hstored.mem_iff, hhands, List.mem_cons] at hr
        rcases hr with (rfl | hr) | hr
        · exact hnew rfl
        · exact .inl (.inl hr)
        · exact .inl (.inr hr)
      -- the receiver disposes of what it holds
      have hreceiver : t = .receiver → ∀ q, op.disposes? = some q → q = r → s.InCustody r := by
        rintro ht q hq rfl
        exact .inr ((hf.2 ht).dispose q hq)
      cases op with
      | rxPop =>
          obtain ⟨hstored, -⟩ := rxPop_perform h
          refine .inl (.inl ?_)
          rw [hstored, List.mem_append, Option.mem_toList]
          exact hr.symm
      | rxDone =>
          cases h
          exact .inl (.inl (hr.resolve_right nofun))
      | rxPush q =>
          refine hadd q rfl fun hq => ?_
          by_cases ht : t = .receiver
          · exact .inl (hreceiver ht q rfl hq)
          · have hio : t = .io := by
              by_contra hio
              have := moves_of_inJob (known_inJob hg) hio ht
              cases this
            have hknows : s.inHand .io = some q ∧ s.IsDeliverSm q ∧ ¬s.InCustody q := hf.1 hio
            rw [hq] at hknows
            exact .inr ⟨hknows.1, hknows.2.1⟩
      | errPush q =>
          exact hadd q rfl fun hq => .inl (hreceiver ((Op.mayRun_iff.mp hm).2.2.1 rfl) q rfl hq)
      | note m =>
          cases m with
          | delivered q =>
              exact hadd q rfl fun hq => .inl (hreceiver ((Op.mayRun_iff.mp hm).2.2.1 rfl) q rfl hq)
          | _ => simp at hmoves
      | _ => simp at hmoves

/-- Only the io thread constructs messages. -/
theorem inHand_of_newPdu {q : Pdu} {x : Ref × Session} (h : perform cfg t (.newPdu q) s = some x)
    (hg : (known cfg Guard.free).op t (.newPdu q) s) (hmsg : x.2.IsDeliverSm s.heap.length) :
    x.2.inHand .io = some s.heap.length := by
  have hq : q.commandId = .DeliverSm := by
    cases h
    simpa [IsDeliverSm, Session.pdu, Session.record] using hmsg
  rcases Op.closer_of_mayRun (known_mayRun hg) rfl with rfl | rfl
  · cases h
    simp [Session.record]
  · -- the thread that stops the session constructs unbind requests only
    obtain ⟨j, hj, hop, -⟩ := known_inJob hg
    cases j with
    | stop =>
        have hkind : q.commandId = .Unbind := eq_of_beq hop
        rw [hq] at hkind
        cases hkind
    | _ => cases hj

/-- An operation puts at most one event on record. -/
theorem logs_length (op : Op) (s : Session) : (op.logs s).length ≤ 1 := by
  cases op <;> simp

/-- **Every operation keeps the messages.** -/
theorem custody_perform {op : Op} {x : op.Res × Session} (h : perform cfg t op s = some x)
    (hi : Inv s) (hK : Kept s) (hg : (known cfg Guard.free).op t op s)
    (hf : (delivery cfg).fact t op s) : Kept x.2 := by
  have hm := known_mayRun hg
  have hcustody : ∀ r, s.InCustody r → x.2.InCustody r := fun r hr => inCustody_perform h hm hf.2 hr
  refine ⟨recorded_perform h hg hK.recorded, fun r hr => ?_, fun r hr hmsg => ?_, fun r hr => ?_⟩
  · -- what is in custody is an object, and a message if it has been constructed
    have hbefore : r < s.heap.length ∧ (.constructed r ∈ s.hist → s.IsDeliverSm r) := by
      rcases inCustody_of_perform h hg hf hr with hr | ⟨hin, hmsg⟩
      · exact hK.custody r hr
      · exact ⟨hi.fresh r (.inl ⟨_, hin⟩), fun _ => hmsg⟩
    refine ⟨Nat.lt_of_lt_of_le hbefore.1 (heap_perform h), fun hr => ?_⟩
    rw [perform_hist h, List.mem_append] at hr
    rcases hr with hr | hr
    · cases op <;> simp at hr
      exact absurd hr (Nat.ne_of_lt hbefore.1)
    · exact (isDeliverSm_perform h hbefore.1).mpr (hbefore.2 hr)
  -- a message is in hand when it is constructed, and stored when the hand lets it go
  · rw [perform_hist h, List.mem_append] at hr
    rcases hr with hr | hr
    · cases op <;> simp at hr
      case newPdu q =>
        subst hr
        exact .inl (inHand_of_newPdu h hg hmsg)
    · -- constructed earlier: it is in the io thread's hands, or in custody
      have hmsg' : s.IsDeliverSm r := (isDeliverSm_perform h (hK.recorded.constructed r hr)).mp hmsg
      rcases hK.constructed r hr hmsg' with hin | hin
      · by_cases ht : t = .io
        · subst ht
          cases op with
          -- the push leaves the hand as it is
          | rxPush q =>
              have hsame : x.2.inHand = s.inHand := perform_same (f := .inHand) h (by simp)
              exact .inl (by rw [hsame]; exact hin)
          | _ =>
              have hstored : s.HandStored := hf.1 rfl
              exact .inr (hcustody r (hstored r hin hmsg'))
        · exact .inl ((perform_local h (Ne.symm ht)).2.1.trans hin)
      · exact .inr (hcustody r hin)
  -- a new acknowledgement is the push of a response, whose message has been stored before
  · rcases acknowledged_append hi hK.recorded (perform_hist h) (logs_length op s)
      (fun q hq => commandId_perform h hq) hr with hr | ⟨q, hq, hresp, hmsg, hr⟩
    · exact hcustody r (hK.acknowledged r hr)
    · refine hcustody r ((hK.constructed r hr ?_).resolve_left fun hin => ?_)
      · exact (isDeliverSm_perform h (hK.recorded.constructed r hr)).mp hmsg
      · -- the message is not what the io thread has in hand: that is the response
        cases op <;> simp at hq
        case txPush q' l =>
          obtain ⟨rfl, rfl⟩ := hq
          have hio : t = .io := by
            obtain ⟨j, rfl, hop, -⟩ := known_inJob hg
            cases j <;> first | rfl | cases hop
          subst hio
          have hhand := ((known_known hg).2).resolve_right fun h => by cases h.2.1
          rw [hin, Option.some.injEq] at hhand
          subst hhand
          have hmsg : (x.2.pdu r).commandId = .DeliverSm := hmsg
          rw [hmsg] at hresp
          cases hresp

/-- What adds nothing of that kind to the record keeps the messages too. -/
theorem kept_aside (hi : Inv s) (hK : Kept s) (hrec : s'.Recorded) {logs : List Event}
    (hhist : s'.hist = logs ++ s.hist) (hlogs : logs.length ≤ 1)
    (hnew : ∀ r, .constructed r ∉ logs ∧ .pushed r .RESPONSE ∉ logs)
    (hheap : s.heap.length ≤ s'.heap.length)
    (hpdu : ∀ r, r < s.heap.length → s'.pdu r = s.pdu r) (hin : s'.inHand = s.inHand)
    (hsame : s'.stored = s.stored ∧ s'.hands = s.hands) : Kept s' := by
  have hcustody : ∀ r, s.InCustody r → s'.InCustody r := by
    intro r hr
    unfold InCustody
    rw [hsame.1, hsame.2]
    exact hr
  -- the step neither constructs a message nor pushes a response
  have hold : ∀ r, .constructed r ∈ s'.hist → .constructed r ∈ s.hist := by
    intro r hr
    rw [hhist, List.mem_append] at hr
    exact hr.resolve_left (hnew r).1
  refine ⟨hrec, fun r hr => ?_, fun r hr hmsg => ?_, fun r hr => ?_⟩
  · unfold InCustody at hr
    rw [hsame.1, hsame.2] at hr
    obtain ⟨hlt, hmsg⟩ := hK.custody r hr
    refine ⟨Nat.lt_of_lt_of_le hlt hheap, fun hr => ?_⟩
    unfold IsDeliverSm
    rw [hpdu r hlt]
    exact hmsg (hold r hr)
  · have hlt := hK.recorded.constructed r (hold r hr)
    unfold IsDeliverSm at hmsg
    rw [hpdu r hlt] at hmsg
    rw [hin]
    exact (hK.constructed r (hold r hr) hmsg).imp_right (hcustody r)
  -- a response that was not pushed just now was pushed before
  · rcases acknowledged_append hi hK.recorded hhist hlogs (fun q hq => by rw [hpdu q hq]) hr with
      hr | ⟨q, hq, -⟩
    · exact hcustody r (hK.acknowledged r hr)
    · exact absurd hq (hnew q).2

/-- Messages are kept in every run. -/
theorem Runs.kept (h : Runs cfg Guard.free p now c) : Kept c.shared := by
  apply h.dataKnown (delivery_sound cfg p now) rfl (K := Kept)
  · refine ⟨recorded_init p now, fun r hr => ⟨?_, ?_⟩, fun r hr => ?_, fun r hr => ?_⟩
    · exact (custody_init p now).object r hr
    · simp [Session.init]
    · simp [Session.init] at hr
    · obtain ⟨newer, q, between, older, heq, -⟩ := hr
      have hmem : .pushed q .RESPONSE ∈ (Session.init p now).hist := by
        rw [heq]
        exact List.mem_append_right _ List.mem_cons_self
      simp [Session.init] at hmem
  · exact fun t op s x hi hK hg hf hx => custody_perform hx hi hK hg hf
  · intro e s s' hi hK hx
    obtain ⟨hheap, hpdu⟩ := pdu_env hx
    refine kept_aside hi hK (recorded_env hx hK.recorded) (env_hist hx) ?_ (fun r => ⟨?_, ?_⟩) hheap hpdu
      (env_same (f := .inHand) hx (by simp)) (custody_env hx)
    all_goals
      unfold Env.logs
      split <;> simp
  · intro j s s' hi _ hK _ hx
    obtain ⟨hheap, hpdu⟩ := pdu_take hx
    refine kept_aside hi hK (recorded_take hx hK.recorded) (take_hist hx) ?_ (fun r => ⟨?_, ?_⟩) hheap
      (fun r _ => hpdu r) (take_same (f := .inHand) hx (by simp)) (custody_take hx)
    all_goals cases j <;> simp [Job.logs]

/-! ## In exactly one place -/

/-- The message in the hands of `recieveProcessor`, until it has disposed of it. -/
def Machine.held (c : Machine) : Option Ref :=
  match c.code .receiver with
  | .step .rxDone _ => none
  | _ => c.shared.hands

/-- **Where a message can be**: in `recieveBuffer`, in the hands of `recieveProcessor`, in
`rcv_errBuffer`, or with the application. -/
def Machine.places (c : Machine) : List Ref :=
  c.shared.recieveBuffer ++ c.held.toList ++ c.shared.rcvErrBuffer ++ c.shared.delivered

/-- The places of a message are the hands of `recieveProcessor` and what is stored or delivered. -/
theorem Machine.places_perm (c : Machine) : c.places.Perm (c.held.toList ++ c.shared.stored) := by
  unfold Machine.places Session.stored
  rw [List.append_assoc, List.append_assoc, List.append_assoc, ← List.append_assoc]
  exact (List.perm_append_comm.append_right _).trans (by simp [List.append_assoc])

/-- The state, with everything there that an operation of `recieveProcessor` can wait for. -/
def Session.awake (s : Session) (us : Nat) : Session :=
  { s with fault := none, appReply := some .success, now := s.now + us }

/-- The custody does not depend on the time, nor on what the application is about to reply. -/
theorem custody_awake (hC : Custody s) (us : Nat) : Custody (s.awake us) := by
  refine ⟨⟨hC.inv.mutex, hC.inv.popped, fun r hr => ?_, hC.inv.fresh⟩, hC.nodup, hC.object⟩
  apply hC.inv.queued r
  cases hr with
  | waiting h => exact .waiting h
  | slot h => exact .slot h
  | flight h => exact .flight h
  | awaiting h => exact .awaiting h
  | pushed l h => exact .pushed l h
  | wrote tbuf st conn h => exact .wrote tbuf st conn h

/-- No operation of `recieveProcessor` is blocked there, if enough time has passed. -/
theorem exec_awake {op : Op} (hop : op.ofReceiving = true) :
    ∃ us x, exec cfg .receiver op (s.awake us) = some x := by
  cases op <;> first | cases hop; done | exact ⟨0, _, rfl⟩ | skip
  case sleepUntil t' => exact ⟨t', _, (if_pos rfl).trans (if_pos (Nat.le_add_left t' s.now))⟩

/-- What `recieveProcessor` knows of its next operation, even while that is blocked. -/
theorem Runs.receiverKnows (h : Runs cfg Guard.free p now c) {op : Op} {k : op.Res → Code Unit}
    (hcode : c.code .receiver = .step op k) : ReceiverKnows op c.shared := by
  -- the receiver is somewhere in `recieveProcessor`
  have huses : op.ofReceiving = true := by
    have hstart : ((Machine.init p now).code .receiver).Uses fun op => op.ofReceiving = true := trivial
    have hrest := Reach.uses (fun j hj => ?_) hstart h
    · rw [hcode] at hrest
      exact hrest.1
    · cases j with
      | receive => exact ofReceiving_recieveProcessor
      | _ => cases hj
  -- once it is awake, the next operation runs, and then its fact holds
  obtain ⟨hC, hsafe⟩ := (delivery_sound cfg p now).reach_safe h.knowing
  obtain ⟨us, x, hx⟩ : ∃ us x, exec cfg .receiver op (c.shared.awake us) = some x := exec_awake huses
  have hC' := custody_awake hC us
  have hrun := hsafe .receiver
  rw [hcode] at hrun
  have hguard : (known cfg Guard.free).op .receiver op (c.shared.awake us) := by
    refine ⟨⟨trivial, hC'.inv, ?_, ?_⟩, trivial, .receive, rfl, huses, nofun, nofun⟩
    · cases op <;> first | rfl | cases huses | skip
      case note m => cases m <;> first | rfl | cases huses
    · cases op <;> trivial
  have hrely : (delivery cfg).rely .receiver c.shared (c.shared.awake us) :=
    ⟨nofun, fun _ => ⟨rfl, fun _ _ => Iff.rfl⟩⟩
  have hknows := (hrun _ hrely hC' hguard x hx).1.fact.2 rfl
  exact ⟨hknows.pop, hknows.dispose, hknows.done, hknows.hold⟩

/-- **A message in custody is in exactly one place.** -/
theorem count_places (h : Runs cfg Guard.free p now c) {r : Ref} (hr : c.shared.InCustody r) :
    c.places.count r = 1 := by
  have hC := (delivery_sound cfg p now).reach_inv h.knowing
  rw [c.places_perm.count_eq, List.count_append]
  have hone : r ∈ c.shared.stored ∧ c.held ≠ some r ∨ r ∉ c.shared.stored ∧ c.held = some r := by
    -- `held` looks at what the receiving thread is about to do, so the cases are those of its code
    cases hcode : c.code .receiver with
    | ret a =>
        have hfree : c.shared.hands = none :=
          ((delivery_sound cfg p now).reach_idle h.knowing hcode).2 rfl
        have hheld : c.held = none := by
          unfold Machine.held
          rw [hcode]
          exact hfree
        refine .inl ⟨hr.resolve_right (by rw [hfree]; nofun), ?_⟩
        rw [hheld]
        nofun
    | step op k =>
        have hknows := h.receiverKnows hcode
        -- at `rxDone` the message is back in a buffer or with the application
        by_cases hop : op = .rxDone
        · subst hop
          have hheld : c.held = none := by
            unfold Machine.held
            rw [hcode]
          refine .inl ⟨hr.elim id (hknows.done rfl r), ?_⟩
          rw [hheld]
          nofun
        · have hheld : c.held = c.shared.hands := by
            unfold Machine.held
            rw [hcode]
            cases op <;> first | rfl | exact absurd rfl hop
          rw [hheld]
          by_cases hhands : c.shared.hands = some r
          · exact .inr ⟨hknows.hold hop r hhands, hhands⟩
          · exact .inl ⟨hr.resolve_right hhands, hhands⟩
  rcases hone with ⟨hmem, hheld⟩ | ⟨hmem, hheld⟩
  · rw [List.count_eq_one_of_mem hC.nodup hmem, List.count_eq_zero_of_not_mem]
    rwa [Option.mem_toList]
  · rw [List.count_eq_zero_of_not_mem hmem, hheld]
    simp

/-- A message in one of the places is in custody. -/
theorem inCustody_of_places {r : Ref} (hr : r ∈ c.places) : c.shared.InCustody r := by
  rw [c.places_perm.mem_iff, List.mem_append, Option.mem_toList] at hr
  refine hr.symm.imp_right fun hheld => ?_
  unfold Machine.held at hheld
  split at hheld
  · cases hheld
  · exact hheld

/-- The close that is posted will reconnect, as things stand. -/
def Session.ClosesToReconnect (s : Session) : Prop :=
  s.Closing ∧ s.stopFlag = false ∧ s.reconnectFlag = true

/-- Nothing of the PDU is stored, and nothing is acknowledged: what has been constructed since its
reception is in none of the places, and no response has been queued. -/
def Machine.LeavesNothing (c : Machine) (rc : Reception) : Prop :=
  (∀ r, .constructed r ∈ rc.since → r ∉ c.places) ∧ ∀ r, .pushed r .RESPONSE ∉ rc.since

/-- **Inbound messages are kept until they are delivered**: in every run an acknowledged message is in
exactly one place. A message that cannot be decoded leaves nothing behind, and when its handler is done
a close is posted, one that reconnects unless `stop()` has been called. -/
theorem inbound_is_kept (h : Runs cfg Guard.free p now c) :
    (∀ r, c.shared.Acknowledged r → c.places.count r = 1) ∧
      (c.Idle .io → ∀ rc, reception? c.shared.hist = some rc → rc.rawpdu.Undecodable rc.state →
        c.LeavesNothing rc ∧ c.shared.Closing ∧
          (.stopCalled ∉ c.shared.hist → c.shared.ClosesToReconnect)) := by
  have hkept := h.kept
  refine ⟨fun r hr => count_places h (hkept.acknowledged r hr), fun hio rc hrc hraw => ?_⟩
  obtain ⟨hun, hclosing, hre⟩ := (h.outcome hio rc hrc).1 hraw
  obtain ⟨⟨older, hhist⟩, -⟩ := reception?_eq_some hrc
  refine ⟨⟨fun r hr hmem => ?_, hun.2⟩, hclosing,
    fun hstop => ⟨hclosing, ?_, hre.resolve_right hstop⟩⟩
  · have hmsg : (c.shared.pdu r).commandId = .DeliverSm := by
      apply (hkept.custody r (inCustody_of_places hmem)).2
      rw [hhist]
      exact List.mem_append_left _ hr
    rw [hun.1 r hr] at hmsg
    cases hmsg
  · exact Bool.eq_false_iff.mpr fun hflag => hstop (hkept.recorded.stopped hflag)

/-- Whether the close that is posted will reconnect is decidable. -/
instance (s : Session) : Decidable s.ClosesToReconnect :=
  inferInstanceAs (Decidable (s.Closing ∧ s.stopFlag = false ∧ s.reconnectFlag = true))

/-- A message of the peer. -/
def deliverSm (decodes : Bool) : RawPdu :=
  ⟨16, CommandId.DeliverSm.value, ESME_ROK, 7, [], decodes⟩

/-- A message arrives and is acknowledged, then one that cannot be decoded. -/
def twoMessages : List Step :=
  Schedule.bind ++ .env (.elapse 1000000) :: Schedule.receive (deliverSm true) ++
    Schedule.complete (.write 2) .none .success ++
    .env (.elapse 1000000) :: Schedule.receive (deliverSm false)

/-- After both messages the first is in one place, and the session closes to reconnect. -/
theorem inbound_is_kept_of_two :
    let c := Machine.after sampleParams .none twoMessages
    c.places.count 1 = 1 ∧ c.shared.ClosesToReconnect := by
  intro c
  obtain ⟨hkept, hreject⟩ := inbound_is_kept (runs_after sampleParams .none twoMessages)
  refine ⟨hkept 1 ?_, ?_⟩
  · refine ⟨c.shared.hist.take 8, 2, [.constructed 2], c.shared.hist.drop 11, by decide +kernel,
      by decide +kernel, by decide +kernel, fun q hq => ?_⟩
    cases List.mem_singleton.mp hq
    decide +kernel
  · exact (hreject (by decide +kernel) ⟨deliverSm false, .BOUND_TRX, c.shared.hist.take 3⟩
      (by decide +kernel) (by decide +kernel)).2.2 (by decide +kernel)

/-- `stop()` is called, and a message arrives that cannot be decoded. -/
def messageAfterStop : List Step :=
  Schedule.bind ++ .env (.elapse 1000000) :: .start .stop :: Schedule.turn .stopper 40 ++
    .env (.elapse 1000000) :: Schedule.receive (deliverSm false)

/-- A message that cannot be decoded does not always lead to a close with reconnect: a session that
was told to stop is closed, and stays closed. -/
theorem stopped_is_not_reconnected :
    (¬∀ (cfg : Params) (p : Persisted) (now : Nat) (c : Machine), Runs cfg Guard.free p now c →
      c.Idle .io → ∀ rc, reception? c.shared.hist = some rc → rc.rawpdu.Undecodable rc.state →
        c.shared.ClosesToReconnect) ∧
      let c := Machine.after sampleParams .none (messageAfterStop ++ Schedule.handle .closeConnection)
      c.Idle .io ∧ c.shared.hist.count .connect = 1 := by
  refine ⟨fun h => ?_, by decide +kernel⟩
  have hcloses := h sampleParams .none 0 (Machine.after sampleParams .none messageAfterStop)
    (runs_after _ _ _) (by decide +kernel)
    ⟨deliverSm false, .BOUND_TRX,
      (Machine.after sampleParams .none messageAfterStop).shared.hist.take 3⟩
    (by decide +kernel) (by decide +kernel)
  exact absurd hcloses (by decide +kernel)

end KissSmpp
