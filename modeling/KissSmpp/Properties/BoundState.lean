import KissSmpp.Interleave.OneThread
import KissSmpp.Session.Calls

/-! # What a bound state stands on

The session takes whatever bind response the peer sends, as long as it says `ESME_ROK`, and enters the
state that goes with it; neither the type nor the number of the bind request is looked at. What a bound
state does stand on is on record: a bind request of the configured type has been queued on the present
connection, and since then a bind response of the type of that state, with status `ESME_ROK`, has been
received in `OPEN`. -/

namespace KissSmpp

open Interleave

variable {cfg : Params} {t : Tid} {s s' : Session}

/-! ## Requests and their acceptance on record -/

/-- Since the socket was closed last, a PDU that meets `bind` has been put on the session level. -/
def RequestedIn (bind : Ref → Prop) (hist : List Event) : Prop :=
  ∃ newer r older, hist = newer ++ .pushed r .SESSION :: older ∧ .closed ∉ newer ∧ bind r

/-- A bind response that leads to the state `st`. -/
def RawPdu.Accepts (raw : RawPdu) (st : State) : Prop :=
  st.bindResp? = some (CommandId.ofValue raw.cmdId) ∧ raw.cmdStatus = ESME_ROK

/-- Since then, a bind response that leads to `st` has been received in `OPEN` or `OUTBOUND`. -/
def AcceptedIn (bind : Ref → Prop) (st : State) (hist : List Event) : Prop :=
  ∃ newer raw st₀ older, hist = newer ++ .mark (.received raw st₀) :: older ∧ .closed ∉ newer ∧
    raw.Accepts st ∧ (st₀ = .OPEN ∨ st₀ = .OUTBOUND) ∧ RequestedIn bind older

/-- A request on record is on record later, as long as the socket has not been closed. -/
theorem RequestedIn.append {bind bind' : Ref → Prop} {logs hist : List Event}
    (h : RequestedIn bind hist) (hlogs : .closed ∉ logs)
    (hbind : ∀ r, .pushed r .SESSION ∈ hist → bind r → bind' r) :
    RequestedIn bind' (logs ++ hist) := by
  obtain ⟨newer, r, older, rfl, hnew, hr⟩ := h
  refine ⟨logs ++ newer, r, older, (List.append_assoc ..).symm, ?_, hbind r ?_ hr⟩
  · rw [List.mem_append]
    exact fun hmem => hmem.elim hlogs hnew
  · exact List.mem_append_right _ List.mem_cons_self

/-- A response on record is on record later, as long as the socket has not been closed. -/
theorem AcceptedIn.append {bind bind' : Ref → Prop} {st : State} {logs hist : List Event}
    (h : AcceptedIn bind st hist) (hlogs : .closed ∉ logs)
    (hbind : ∀ r, .pushed r .SESSION ∈ hist → bind r → bind' r) :
    AcceptedIn bind' st (logs ++ hist) := by
  obtain ⟨newer, raw, st₀, older, rfl, hnew, hacc, hst, hreq⟩ := h
  refine ⟨logs ++ newer, raw, st₀, older, (List.append_assoc ..).symm, ?_, hacc, hst, ?_⟩
  · rw [List.mem_append]
    exact fun hmem => hmem.elim hlogs hnew
  · have hnone : Event.closed ∉ ([] : List Event) := List.not_mem_nil
    refine hreq.append hnone fun r hr => hbind r ?_
    exact List.mem_append_right _ (List.mem_cons_of_mem _ hr)

/-- What has been accepted had been requested. -/
theorem AcceptedIn.requested {bind : Ref → Prop} {st : State} {hist : List Event}
    (h : AcceptedIn bind st hist) : RequestedIn bind hist := by
  obtain ⟨newer, raw, st₀, older, rfl, hnew, -, -, hreq⟩ := h
  have hlogs : Event.closed ∉ newer ++ [.mark (.received raw st₀)] := by
    simp only [List.mem_append, List.mem_singleton]
    rintro (h | h)
    · exact hnew h
    · cases h
  have := hreq.append hlogs fun _ _ => id
  rwa [List.append_assoc] at this

namespace Session

/-- A bind request of the configured type. -/
def IsBindRequest (s : Session) (cfg : Params) (r : Ref) : Prop :=
  (s.pdu r).commandId = bindCommandId cfg.smppcfg.typeOfBind

/-- On the present connection a bind request has been queued. -/
def Requested (s : Session) (cfg : Params) : Prop := RequestedIn (s.IsBindRequest cfg) s.hist

/-- On the present connection a bind response that leads to the state `st` has been received. -/
def Accepted (s : Session) (cfg : Params) (st : State) : Prop :=
  AcceptedIn (s.IsBindRequest cfg) st s.hist

/-- **What a state stands on.** -/
def StandsOn (s : Session) (cfg : Params) : State → Prop
  | .OPEN | .OUTBOUND => s.Requested cfg
  | .UNBOUND | .CLOSED => True
  | st => s.Accepted cfg st

/-- What the present state stands on. -/
def Standing (s : Session) (cfg : Params) : Prop := s.StandsOn cfg s.currentState

/-- A bound state stands on a bind response. -/
theorem StandsOn.accepted {st : State} (h : s.StandsOn cfg st) (hst : st.isBound = true) :
    s.Accepted cfg st := by
  cases st <;> first | exact h | cases hst

/-- A state in which PDUs are exchanged stands on a bind request. -/
theorem StandsOn.requested {st : State} (h : s.StandsOn cfg st) (hst : st ≠ .UNBOUND)
    (hst' : st ≠ .CLOSED) : s.Requested cfg := by
  cases st with
  | OPEN => exact h
  | OUTBOUND => exact h
  | UNBOUND => exact absurd rfl hst
  | CLOSED => exact absurd rfl hst'
  | BOUND_TX => exact AcceptedIn.requested h
  | BOUND_RX => exact AcceptedIn.requested h
  | BOUND_TRX => exact AcceptedIn.requested h

/-- **What is on record stays on record**, as long as the socket is not closed. -/
structure Upholds (cfg : Params) (s s' : Session) : Prop where
  object : ∀ r, r < s.heap.length → s.IsBindRequest cfg r →
    r < s'.heap.length ∧ s'.IsBindRequest cfg r
  requested : s.Requested cfg → s'.Requested cfg
  accepted : ∀ st, s.Accepted cfg st → s'.Accepted cfg st

/-- A session that has not moved upholds what is on record. -/
theorem Upholds.refl (cfg : Params) (s : Session) : Upholds cfg s s :=
  ⟨fun _ hr hb => ⟨hr, hb⟩, id, fun _ => id⟩

/-- The record is upheld over two changes if it is over each. -/
theorem Upholds.trans {s₁ s₂ s₃ : Session} (h : Upholds cfg s₁ s₂) (h' : Upholds cfg s₂ s₃) :
    Upholds cfg s₁ s₃ where
  object r hr hb := h'.object r (h.object r hr hb).1 (h.object r hr hb).2
  requested := h'.requested ∘ h.requested
  accepted st := h'.accepted st ∘ h.accepted st

end Session

open Session

/-! ## Single steps -/

/-- **The contract on the io thread**: a bound state is entered on a bind response, the socket closed
only in `CLOSED`, and between its handlers the session's state has something to stand on. -/
def standing (cfg : Params) : Focus (system cfg) where
  thread := .io
  guard := known cfg Guard.free
  inv := Inv
  fact op s := (∀ st : State, op = .setState st → st.isBound = true → s.Accepted cfg st) ∧
    (op = .socketClose → s.currentState = .CLOSED)
  rely s s' := s'.currentState = s.currentState ∧ Upholds cfg s s'
  idle s := s.Standing cfg
  rely_refl s := ⟨rfl, Upholds.refl cfg s⟩
  rely_trans _ _ _ h h' := ⟨h'.1.trans h.1, h.2.trans h'.2⟩

/-- An assertion about the session's state and what is on record. -/
def Lasting (cfg : Params) (P : Session → Prop) : Prop :=
  ∀ s s' : Session, s'.currentState = s.currentState → Upholds cfg s s' → P s → P s'

/-- An assertion that lasts is stable under the other threads. -/
theorem Lasting.stable {P : Session → Prop} (hP : Lasting cfg P) :
    (standing cfg).contract.Stable .io P :=
  Focus.stable fun s s' _ _ hr hs => hP s s' hr.1 hr.2 hs

/-- Two assertions that last do so together. -/
theorem Lasting.and {P P' : Session → Prop} (hP : Lasting cfg P) (hP' : Lasting cfg P') :
    Lasting cfg fun s => P s ∧ P' s :=
  fun s s' hst hu hs => ⟨hP s s' hst hu hs.1, hP' s s' hst hu hs.2⟩

/-- Code that leaves the state and the socket alone. -/
abbrev Aside {α : Type} (p : Code α) : Prop :=
  p.Uses fun op => op ≠ .socketClose ∧ ∀ st, op ≠ .setState st

variable {p : Persisted} {now : Nat} {c : Machine}

end KissSmpp
