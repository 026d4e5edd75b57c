import KissSmpp.Properties.Delivery
import KissSmpp.Properties.SendOrder
import KissSmpp.Session.Routine

/-! # Nothing is made up, and nothing is altered

The process passes messages on, from the application to the peer and from the peer to the application, and adds
PDUs of its own. `written_as_made` says that a message is written with the command, the status and the body it
came with, however often it is written, and that all else that is written is one of the PDUs the session makes;
`delivered_as_received` says that the application is given nothing but what the peer has sent, as it was, and
nothing of it more often than it was sent.

The protocol `handing` keeps both apart: a thread that has a message of the peer in hand stores it before it
makes or writes anything. -/

namespace KissSmpp

open Interleave Queue

variable {cfg : Params} {t : Tid} {s s' : Session} {p : Persisted} {now : Nat} {c c' : Machine} {α : Type}

/-- A message the session takes in: the state admits it, and it decodes. -/
def RawPdu.Admitted (raw : RawPdu) (st : State) : Prop :=
  CommandId.ofValue raw.cmdId = .DeliverSm ∧ (st = .BOUND_RX ∨ st = .BOUND_TRX) ∧ raw.decodes = true

/-- Whether a PDU is taken in as a message is decidable. -/
instance (raw : RawPdu) (st : State) : Decidable (raw.Admitted st) := inferInstanceAs (Decidable (_ ∧ _))

/-- What an event records as taken in. -/
def Event.inbound? : Event → Option Content
  | .mark (.received raw st) => if raw.Admitted st then some raw.message.content else none
  | _ => none

namespace Session

/-- What a reference says. -/
def content (s : Session) (r : Ref) : Content := (s.pdu r).content

/-- **The messages of the peer**: what an earlier process has left of them, and what has been taken in. -/
def inbound (p : Persisted) (s : Session) : List Content :=
  s.hist.filterMap Event.inbound? ++ (p.recieve ++ p.rcvErr).map Pdu.content

/-- The PDU is a message of the application, or one the session makes. -/
def Ours (cfg : Params) (p : Persisted) (s : Session) (r : Ref) : Prop :=
  r ∈ s.submissions p ∨ cfg.Makes (s.content r)

end Session

open Session

/-! ## The protocol -/

/-- **Where a thread stands with a message of the peer**: it may have received one, made an object of it, and
stored that, or have taken a message from the receive buffer. -/
inductive Handing
  | idle
  | owes (raw : RawPdu)
  | made (r : Ref)
  | gave (r : Ref)
  | took (r : Ref)
  deriving DecidableEq

/-- The thread has no message in hand. -/
def Handing.Free : Handing → Prop
  | .idle => True
  | _ => False

/-- What a thread has left of a message once it makes a PDU of its own. -/
def Handing.release : Handing → Handing
  | .gave _ => .idle
  | x => x

/-- **The protocol of messages**: what is received is made an object and stored, what is taken out is put
somewhere. -/
def handing (cfg : Params) : Protocol Op Op.Res Handing where
  allows x
    | .note (.received _ _) | .txPush _ _ | .rxPop => x.Free
    | .newPdu q =>
        (∃ raw, x = .owes raw ∧ q = raw.message) ∨ (x.Free ∨ ∃ r, x = .gave r) ∧ cfg.Makes q.content
    | .rxPush r => x = .made r ∨ x = .took r
    | .errPush r | .note (.delivered r) => x = .took r
    | _ => True
  next x
    | .note (.received raw st), _ => if raw.Admitted st then .owes raw else .idle
    | .newPdu q, r => if q.commandId = .DeliverSm then .made r else x.release
    | .rxPop, o => o.elim .idle .took
    | .rxPush r, _ => if x = .made r then .gave r else .idle
    | .errPush _, _ | .note (.delivered _), _ => .idle
    | _, _ => x

/-- The operations by which no message changes hands, and nothing is made. -/
@[simp] def Op.passing : Op → Bool
  | .newPdu _ | .rxPush _ | .errPush _ | .rxPop | .note (.received _ _) | .note (.delivered _) => false
  | _ => true

/-- Operations by which no message changes hands leave a thread with no message where it is. -/
theorem handing_passing {op : Op} {x : Handing} (hop : op.passing = true) (hx : x.Free) :
    (handing cfg).allows x op ∧ ∀ b, (handing cfg).next x op b = x := by
  cases op with
  | note m => cases m <;> first | exact ⟨trivial, fun _ => rfl⟩ | cases hop
  | txPush r l => exact ⟨hx, fun _ => rfl⟩
  | _ => first | exact ⟨trivial, fun _ => rfl⟩ | cases hop

/-! ## The code follows it -/

/-- What the session makes is no message of the peer. -/
theorem Params.Makes.ne_deliverSm {q : Pdu} (h : cfg.Makes q.content) : q.commandId ≠ .DeliverSm := by
  suffices hm : ∀ m, cfg.Makes m → m.commandId ≠ .DeliverSm from hm _ h
  intro m h
  cases h with
  | bind => cases cfg.smppcfg.typeOfBind <;> exact fun h => (by cases h)
  | response c hc => rcases hc with rfl | rfl | rfl <;> exact fun h => (by cases h)
  | _ => exact fun h => (by cases h)

/-- Code that has no message in hand. -/
abbrev Clear (cfg : Params) (p : Code α) : Prop := Abides (handing cfg) Handing.Free p

/-- Code without operations that hand messages on keeps clear of them. -/
theorem clear_of_uses {p : Code α} (hp : p.Uses fun op => op.passing = true) : Clear cfg p :=
  fun _ hx => hp.follows (fun _ _ hop hx => ⟨(handing_passing hop hx).1, fun b => by
    rw [(handing_passing hop hx).2 b]
    exact hx⟩) hx

/-- A single operation that hands no message on keeps clear of them. -/
theorem clear_passing {op : Op} (hop : op.passing = true) : Clear cfg (call op) :=
  clear_of_uses (uses_call hop)

/-- `write_pdu` hands no message of the peer on. -/
theorem passing_of_ofWritePdu {op : Op} (h : op.ofWritePdu = true) : op.passing = true := by
  cases op <;> first | rfl | cases h

/-- `do_write` keeps clear of the messages of the peer. -/
theorem clear_doWrite (r : Ref) (l : Level) : Clear cfg (doWrite cfg r l) :=
  (clear_passing rfl).bind fun _ => ((clear_passing rfl).bind fun _ => Abides.ret _).bind fun _ =>
    (clear_passing rfl).bind fun _ =>
      (clear_of_uses (ofWritePdu_writePdu.mono fun _ => passing_of_ofWritePdu)).when.bind fun _ =>
        clear_passing rfl

/-- What the session does of its own accord keeps clear of the messages of the peer. -/
theorem handing_regular : Regular cfg (handing cfg) Handing.Free where
  plain op x hop hx := by
    have hpass : op.passing = true := by
      cases op with
      | note m => cases m <;> first | rfl | cases hop
      | _ => first | rfl | cases hop
    obtain ⟨hallow, hnext⟩ : (handing cfg).allows x op ∧ _ := handing_passing hpass hx
    exact ⟨hallow, fun b => by rw [hnext b]; exact hx⟩
  own q hq x hx := by
    refine ⟨.inr ⟨.inl hx, hq⟩, fun r => ?_⟩
    show Handing.Free (if q.commandId = .DeliverSm then .made r else x.release)
    rw [if_neg hq.ne_deliverSm]
    cases x <;> trivial
  number := clear_of_uses (ofWritePdu_seqNumGenNext.mono fun _ => passing_of_ofWritePdu)
  write := clear_doWrite

/-- What the io thread does under the mutexes keeps clear of the messages of the peer. -/
theorem handing_upkeep : Upkeep cfg (handing cfg) Handing.Free where
  written := clear_of_uses ((ofWrite_handleWrite .success).mono fun op h => by
    cases op <;> first | rfl | cases h)
  answer _ := (clear_passing rfl).bind (fun _ => (clear_passing rfl).bind fun _ => clear_passing rfl) |>.when
  cleanup e := clear_of_uses ((ofAgeCleanup_w4rQAgeCleanup e).mono fun op h => by
    cases op with
    | note m => cases m <;> first | rfl | cases h
    | _ => first | rfl | cases h)

/-- `recieveProcessor` puts what it has taken somewhere. -/
theorem clear_recieveProcessor : Clear cfg recieveProcessor := by
  refine (clear_passing rfl).bind fun empty => ?_
  split
  · exact (clear_passing rfl).bind fun _ => clear_passing rfl
  · refine fun x hx => follows_call hx fun o => ?_
    cases o with
    | none => exact clear_passing rfl _ trivial
    | some r =>
        refine follows_call trivial fun a => ?_
        have hdone : Clear cfg (call .rxDone) := clear_passing rfl
        cases a with
        | success => exact follows_call rfl fun _ => hdone _ trivial
        | retryable => exact follows_call (.inr rfl) fun _ => hdone _ trivial
        | perminant => exact follows_call rfl fun _ => hdone _ trivial

/-- **`procpdu_deliver_sm`** makes an object of what was received, and stores it before it answers. -/
theorem handing_procpduDeliverSm {raw : RawPdu} {x : Handing}
    (hx : x = if raw.decodes then .owes raw else .idle) :
    (procpduDeliverSm cfg raw).Follows (handing cfg) (fun _ => Handing.Free) x := by
  unfold procpduDeliverSm
  split
  · next hdec =>
      rw [if_pos hdec] at hx
      refine follows_call (.inl ⟨raw, hx, rfl⟩) fun r => follows_call (.inl rfl) fun _ => ?_
      have hgave : (handing cfg).next (.made r) (.rxPush r) () = .gave r := if_pos rfl
      show Prog.Follows _ _ _ ((handing cfg).next (.made r) (.rxPush r) ())
      rw [hgave]
      refine follows_call (.inr ⟨.inr ⟨r, rfl⟩, .response _ (.inl rfl)⟩) fun r' => ?_
      exact ((clear_doWrite r' .RESPONSE).bind fun _ => Abides.ret _) _ trivial
  · next hdec =>
      rw [if_neg hdec] at hx
      rw [hx]
      trivial

/-- **A PDU of the peer** is processed. -/
theorem clear_process4state (raw : RawPdu) : Clear cfg (process4state cfg raw) := by
  refine handing_regular.rescheduleEnquireLink.bind fun _ => (clear_passing rfl).bind fun st => ?_
  refine fun x hx => follows_call hx fun _ => ?_
  have hswitch : (process4stateSwitch cfg raw st).Follows (handing cfg) (fun _ => Handing.Free)
      (if raw.Admitted st then .owes raw else .idle) := by
    by_cases hmsg : CommandId.ofValue raw.cmdId = .DeliverSm ∧ (st = .BOUND_RX ∨ st = .BOUND_TRX)
    · rw [process4stateSwitch_deliverSm hmsg.1 hmsg.2]
      refine handing_procpduDeliverSm (if_congr ?_ rfl rfl)
      exact ⟨fun h => h.2.2, fun hdec => ⟨hmsg.1, hmsg.2, hdec⟩⟩
    · have hidle : ¬raw.Admitted st := fun h => hmsg ⟨h.1, h.2.1⟩
      rw [if_neg hidle]
      exact handing_regular.switch raw st (fun hcmd => not_or.mp fun hst => hmsg ⟨hcmd, hst⟩) _ trivial
  refine hswitch.bind fun o y hy => ?_
  cases o with
  | returned => exact hy
  | threw => exact handing_regular.closeSession true y hy

/-- What passes through the process hands each message on. -/
theorem handing_traffic : Traffic cfg (handing cfg) Handing.Free where
  send := abides_sendingProcessor (fun _ hop => handing_regular.call hop) (fun _ => clear_passing rfl)
    clear_doWrite
  receive := clear_recieveProcessor
  process := clear_process4state

/-! ## What PDUs say stays -/

/-- Operations leave what a PDU says alone. -/
theorem content_perform {op : Op} {x : op.Res × Session} (h : perform cfg t op s = some x) {r : Ref}
    (hr : r < s.heap.length) : x.2.content r = s.content r := by
  obtain ⟨n, hn⟩ := pdu_perform_number h hr
  unfold Session.content
  rw [hn]
  rfl

/-- The environment leaves alone what a PDU says. -/
theorem content_env {e : Env} (h : e.perform cfg s = some s') {r : Ref} (hr : r < s.heap.length) :
    s'.content r = s.content r := congrArg Pdu.content ((pdu_env h).2 r hr)

/-- The start of a job leaves alone what a PDU says. -/
theorem content_take {j : Job} (h : j.take s = some s') (r : Ref) : s'.content r = s.content r :=
  congrArg Pdu.content ((pdu_take h).2 r)

/-- **What is there stays**: the objects, what they say, and what has been submitted. -/
structure Session.Preserves (p : Persisted) (s s' : Session) : Prop where
  heap : s.heap.length ≤ s'.heap.length
  content : ∀ r, r < s.heap.length → s'.content r = s.content r
  submissions : ∀ r ∈ s.submissions p, r ∈ s'.submissions p

/-- Operations leave the objects, what they say and the submissions. -/
theorem preserves_perform {op : Op} {x : op.Res × Session} (h : perform cfg t op s = some x) :
    s.Preserves p x.2 :=
  ⟨heap_perform h, fun _ hr => content_perform h hr, fun r hr => by rw [submissions_perform h]; exact hr⟩

/-- What has been recorded before a prefix was added to the record. -/
theorem submissions_hist {l : List Event} (h : s'.hist = l ++ s.hist) {r : Ref} (hr : r ∈ s.submissions p) :
    r ∈ s'.submissions p := by
  unfold Session.submissions at hr ⊢
  rw [h, List.filterMap_append, List.reverse_append, ← List.append_assoc]
  exact List.mem_append_left _ hr

/-- The environment leaves the objects, what they say and the submissions. -/
theorem preserves_env {e : Env} (h : e.perform cfg s = some s') : s.Preserves p s' :=
  ⟨(pdu_env h).1, fun _ hr => content_env h hr, fun _ hr => submissions_hist (env_hist h) hr⟩

/-- The start of a job leaves the objects, what they say and the submissions. -/
theorem preserves_take {j : Job} (h : j.take s = some s') : s.Preserves p s' :=
  ⟨(pdu_take h).1, fun r _ => content_take h r, fun _ hr => submissions_hist (take_hist h) hr⟩

/-- What is ours stays ours. -/
theorem Session.Preserves.ours (h : s.Preserves p s') {r : Ref} (hr : r < s.heap.length) (ho : s.Ours cfg p r) :
    s'.Ours cfg p r := by
  rcases ho with ho | ho
  · exact .inl (h.submissions r ho)
  · refine .inr ?_
    rw [h.content r hr]
    exact ho

/-! ## What is written -/

/-- **Where PDUs come from**: all that has been through the transmit queue is ours, what a thread has in hand
is ours or a message of the peer, and what has been written was written as it is. -/
structure Session.Attributed (cfg : Params) (p : Persisted) (s : Session) (x : Tid → Handing) : Prop where
  queued : ∀ r, s.Queued r → s.Ours cfg p r
  inHand : ∀ u r, s.inHand u = some r → s.Ours cfg p r ∨ x u = .made r ∨ x u = .gave r
  buffer : ∀ r ∈ s.sendingBuffer, r ∈ s.submissions p
  wrote : ∀ r tbuf st conn, .wrote r tbuf st conn ∈ s.hist → tbuf.content = s.content r

/-- A message of the peer in hand stays one until something else is made. -/
theorem handing_stays {op : Op} {x : Handing} {r : Ref} (ha : (handing cfg).allows x op)
    (hx : x = .made r ∨ x = .gave r) (hop : ∀ q, op ≠ .newPdu q) (b : op.Res) :
    (handing cfg).next x op b = .made r ∨ (handing cfg).next x op b = .gave r := by
  cases op with
  | newPdu q => exact absurd rfl (hop q)
  | rxPush q =>
      rcases hx with rfl | rfl
      · rcases ha with ha | ha <;> cases ha
        exact .inr (if_pos rfl)
      · rcases ha with ha | ha <;> cases ha
  | errPush q => rcases hx with rfl | rfl <;> cases ha
  | rxPop => rcases hx with rfl | rfl <;> exact ha.elim
  | note m =>
      cases m with
      | received raw st => rcases hx with rfl | rfl <;> exact ha.elim
      | delivered q => rcases hx with rfl | rfl <;> cases ha
      | _ => exact hx
  | _ => exact hx

/-- What a thread has in hand after an operation. -/
theorem attributed_inHand {op : Op} {y : op.Res × Session} {x : Tid → Handing} (hi : Inv s)
    (hA : s.Attributed cfg p x) (ha : (handing cfg).allows (x t) op) (h : perform cfg t op s = some y) {u : Tid}
    {r : Ref} (hr : y.2.inHand u = some r) :
    y.2.Ours cfg p r ∨ Function.update x t ((handing cfg).next (x t) op y.1) u = .made r ∨
      Function.update x t ((handing cfg).next (x t) op y.1) u = .gave r := by
  have hkeep : s.Preserves p y.2 := preserves_perform h
  -- in hand before, just constructed, or just popped from the sending buffer
  rcases inHand_perform h hr with hold | ⟨rfl, rfl, q, rfl⟩ | ⟨rfl, hhead, rfl⟩
  · have hbound : r < s.heap.length := hi.fresh r (.inl ⟨u, hold⟩)
    rcases hA.inHand u r hold with ho | hx
    · exact .inl (hkeep.ours hbound ho)
    · by_cases hut : u = t
      · subst hut
        rw [Function.update_self]
        refine .inr (handing_stays ha hx ?_ y.1)
        rintro q rfl
        cases h
        have hnew : s.heap.length = r := by simpa [Session.record] using hr
        exact absurd hbound (hnew ▸ Nat.lt_irrefl _)
      · rw [Function.update_of_ne hut]
        exact .inr hx
  · obtain ⟨-, hpdu⟩ := perform_newPdu h
    have hnew : y.1 = s.heap.length := by cases h; rfl
    -- the object of a `deliver_sm` received, or what the session makes itself
    rcases ha with ⟨raw, -, rfl⟩ | ⟨-, hmakes⟩
    · refine .inr (.inl ?_)
      rw [Function.update_self, ← hnew]
      show (if raw.message.commandId = .DeliverSm then Handing.made y.1 else (x u).release) = _
      exact if_pos rfl
    · refine .inl (.inr ?_)
      unfold Session.content
      rw [← hnew, hpdu]
      exact hmakes
  · exact .inl (.inl (hkeep.submissions r (hA.buffer r (List.mem_of_mem_head? hhead))))

/-- **Every operation leaves it so.** -/
theorem attributed_perform {op : Op} {y : op.Res × Session} {x : Tid → Handing} (hi : Inv s)
    (hA : s.Attributed cfg p x) (hk : Known t op s) (ha : (handing cfg).allows (x t) op)
    (h : perform cfg t op s = some y) :
    y.2.Attributed cfg p (Function.update x t ((handing cfg).next (x t) op y.1)) where
  queued r hr := by
    have hkeep : s.Preserves p y.2 := preserves_perform h
    rcases queued_perform h hk hr with hq | ⟨l, rfl⟩
    · exact hkeep.ours (hi.queued r hq) (hA.queued r hq)
    · rcases hk.2 with hin | ⟨-, -, hawait⟩
      · refine hkeep.ours (hi.fresh r (.inl ⟨t, hin⟩)) ((hA.inHand t r hin).resolve_right ?_)
        rintro (hx | hx) <;> (rw [hx] at ha; exact ha)
      · exact hkeep.ours (hi.queued r (.awaiting hawait)) (hA.queued r (.awaiting hawait))
  inHand _ _ hr := attributed_inHand hi hA ha h hr
  buffer r hr := by
    rw [submissions_perform h]
    rcases sendingBuffer_perform h with ⟨hbuf, -⟩ | ⟨hbuf, -⟩
    · exact hA.buffer r (hbuf ▸ hr)
    · exact hA.buffer r (List.mem_of_mem_tail (hbuf ▸ hr))
  wrote r tbuf st conn hw := by
    rcases wrote_perform h hw with hw | rfl
    · rw [content_perform h (hi.queued r (.wrote tbuf st conn hw))]
      exact hA.wrote r tbuf st conn hw
    · obtain ⟨-, hsend, rfl⟩ := hk
      exact (content_perform h (hi.queued r (.flight (Session.mem_inFlight.mpr (.inl ⟨t, hsend⟩))))).symm

/-- The environment leaves every copy of a message with the place it is attributed to. -/
theorem attributed_env {e : Env} {x : Tid → Handing} (hi : Inv s) (hA : s.Attributed cfg p x)
    (h : e.perform cfg s = some s') : s'.Attributed cfg p x := by
  have hkeep : s.Preserves p s' := preserves_env h
  have hin : s'.inHand = s.inHand := env_same (f := .inHand) h (by simp)
  constructor
  · exact fun r hr => hkeep.ours (hi.queued r (queued_env h hr)) (hA.queued r (queued_env h hr))
  · intro u r hr
    rw [hin] at hr
    exact (hA.inHand u r hr).imp_left (hkeep.ours (hi.fresh r (.inl ⟨u, hr⟩)))
  · intro r hr
    by_cases hsub : ∃ body, e = .submit body
    · obtain ⟨body, rfl⟩ := hsub
      cases h
      rcases List.mem_append.mp hr with hr | hr
      · exact hkeep.submissions r (hA.buffer r hr)
      · rw [List.mem_singleton.mp hr]
        exact List.mem_append_right _ (List.mem_reverse.mpr List.mem_cons_self)
    · have hbuf : s'.sendingBuffer = s.sendingBuffer := sendingBuffer_still h fun body heq => hsub ⟨body, heq⟩
      exact hkeep.submissions r (hA.buffer r (hbuf ▸ hr))
  · intro r tbuf st conn hw
    have hw := mem_hist_of_env h hw (fun _ heq => by cases heq) fun _ heq => by cases heq
    rw [hkeep.content r (hi.queued r (.wrote tbuf st conn hw))]
    exact hA.wrote r tbuf st conn hw

/-- The start of a job leaves every copy of a message with the place it is attributed to. -/
theorem attributed_take {j : Job} {x : Tid → Handing} (hi : Inv s) (hquiet : Quiet j.thread s)
    (hA : s.Attributed cfg p x) (h : j.take s = some s') : s'.Attributed cfg p x := by
  have hkeep : s.Preserves p s' := preserves_take h
  have hin : s'.inHand = s.inHand := take_same (f := .inHand) h (by simp)
  have hbuf : s'.sendingBuffer = s.sendingBuffer := take_same (f := .sendingBuffer) h (by simp)
  constructor
  · exact fun r hr => hkeep.ours (hi.queued r (queued_take h hquiet hr)) (hA.queued r (queued_take h hquiet hr))
  · intro u r hr
    rw [hin] at hr
    exact (hA.inHand u r hr).imp_left (hkeep.ours (hi.fresh r (.inl ⟨u, hr⟩)))
  · exact fun r hr => hkeep.submissions r (hA.buffer r (hbuf ▸ hr))
  · intro r tbuf st conn hw
    have hw := mem_hist_of_take h hw (fun _ heq => by cases heq) fun heq => by cases heq
    rw [content_take h]
    exact hA.wrote r tbuf st conn hw

/-- At the start every PDU in a buffer is one that an earlier process has left there. -/
theorem attributed_init (p : Persisted) (now : Nat) :
    (Session.init p now).Attributed cfg p fun _ => .idle where
  queued r hr := .inl (List.mem_append_left _ (List.mem_append_left _ (by
    simpa [Persisted.refs] using queued_init hr)))
  inHand u r hr := by cases hr
  buffer r hr := List.mem_append_left _ (List.mem_append_right _ hr)
  wrote r tbuf st conn hw := by
    have hhist : (Session.init p now).hist.filterMap Event.wrote? = [] := rfl
    have hmem : (r, tbuf) ∈ (Session.init p now).hist.filterMap Event.wrote? :=
      List.mem_filterMap.mpr ⟨_, hw, rfl⟩
    rw [hhist] at hmem
    cases hmem

/-! ## What is taken in -/

namespace Session

/-- How often a thread in this position carries a message that says `m`. -/
def carried (s : Session) (m : Content) : Handing → Nat
  | .owes raw => if raw.message.content = m then 1 else 0
  | .made r | .took r => if s.content r = m then 1 else 0
  | .idle | .gave _ => 0

/-- How often all threads together carry a message that says `m`. -/
def underway (s : Session) (x : Tid → Handing) (m : Content) : Nat :=
  s.carried m (x .io) + s.carried m (x .sender) + s.carried m (x .receiver) + s.carried m (x .stopper)

/-- **Where messages come from**: those that threads carry or that have been put somewhere are among those of
the peer. -/
structure Sourced (p : Persisted) (s : Session) (x : Tid → Handing) : Prop where
  objects : ∀ r ∈ s.stored, r < s.heap.length
  hands : ∀ u r, x u = .made r ∨ x u = .took r → r < s.heap.length
  counted : ∀ m, s.underway x m + (s.stored.map s.content).count m ≤ (s.inbound p).count m

end Session

/-- When one thread moves on, the others carry what they carried. -/
theorem underway_update (s : Session) (x : Tid → Handing) (t : Tid) (y : Handing) (m : Content) :
    s.underway (Function.update x t y) m + s.carried m (x t) = s.underway x m + s.carried m y := by
  unfold Session.underway
  cases t <;> simp [Function.update] <;> omega

/-- Making something else loses nothing. -/
theorem carried_release (m : Content) (x : Handing) : s.carried m x.release = s.carried m x := by
  cases x <;> rfl

/-- What is taken in when a PDU is received. -/
theorem inbound_received {y : Unit × Session} {raw : RawPdu} {st : State}
    (h : perform cfg t (.note (.received raw st)) s = some y) :
    y.2.inbound p = if raw.Admitted st then raw.message.content :: s.inbound p else s.inbound p := by
  unfold Session.inbound
  rw [perform_hist h]
  show (Event.mark (.received raw st) :: s.hist).filterMap Event.inbound? ++ _ = _
  by_cases hadm : raw.Admitted st
  · have hev : Event.inbound? (.mark (.received raw st)) = some raw.message.content := if_pos hadm
    rw [if_pos hadm, List.filterMap_cons_some hev, List.cons_append]
  · have hev : Event.inbound? (.mark (.received raw st)) = none := if_neg hadm
    rw [if_neg hadm, List.filterMap_cons_none hev]

/-- Nothing else takes anything in. -/
theorem inbound_perform {op : Op} {y : op.Res × Session} (h : perform cfg t op s = some y)
    (hop : ∀ raw st, op ≠ .note (.received raw st)) : y.2.inbound p = s.inbound p := by
  have hlogs : (op.logs s).filterMap Event.inbound? = [] := by
    cases op with
    | note m =>
        cases m with
        | received raw st => exact absurd rfl (hop raw st)
        | _ => rfl
    | _ => rfl
  unfold Session.inbound
  rw [perform_hist h, List.filterMap_append, hlogs, List.nil_append]

/-- What has been put somewhere says what it said, and a thread carries what it carried. -/
theorem says_same {x : Tid → Handing} (hS : s.Sourced p x)
    (hcontent : ∀ r, r < s.heap.length → s'.content r = s.content r) (m : Content) :
    s.stored.map s'.content = s.stored.map s.content ∧ (∀ u, s'.carried m (x u) = s.carried m (x u)) ∧
      s'.underway x m = s.underway x m := by
  have hcarried : ∀ u, s'.carried m (x u) = s.carried m (x u) := by
    intro u
    cases hx : x u with
    | made r =>
        show (if s'.content r = m then 1 else 0) = _
        rw [hcontent r (hS.hands u r (.inl hx))]
        rfl
    | took r =>
        show (if s'.content r = m then 1 else 0) = _
        rw [hcontent r (hS.hands u r (.inr hx))]
        rfl
    | _ => rfl
  refine ⟨List.map_congr_left fun r hr => hcontent r (hS.objects r hr), hcarried, ?_⟩
  unfold Session.underway
  rw [hcarried, hcarried, hcarried, hcarried]

/-- A message that is put somewhere is one the thread has carried. -/
theorem carried_disposes {op : Op} {y : op.Res × Session} {x : Handing} {r : Ref}
    (ha : (handing cfg).allows x op) (hop : op.disposes? = some r) (m : Content) :
    (x = .made r ∨ x = .took r) ∧ s.carried m ((handing cfg).next x op y.1) = 0 := by
  cases op with
  | rxPush q =>
      cases hop
      refine ⟨ha, ?_⟩
      show s.carried m (if x = .made r then .gave r else .idle) = 0
      split <;> rfl
  | errPush q =>
      cases hop
      exact ⟨.inr ha, rfl⟩
  | note mk =>
      cases mk with
      | delivered q =>
          cases hop
          exact ⟨.inr ha, rfl⟩
      | _ => cases hop
  | _ => cases hop

/-- A message that is put somewhere was carried before. -/
theorem carried_put {op : Op} {y : op.Res × Session} {x : Tid → Handing} (hS : s.Sourced p x)
    (ha : (handing cfg).allows (x t) op) (h : perform cfg t op s = some y) {r : Ref} (hop : op.disposes? = some r)
    (m : Content) :
    y.2.carried m ((handing cfg).next (x t) op y.1) + (y.2.stored.map y.2.content).count m +
        (s.inbound p).count m ≤
      s.carried m (x t) + (s.stored.map s.content).count m + (y.2.inbound p).count m := by
  obtain ⟨hmap, hcarried, -⟩ := says_same hS (fun _ hr => content_perform h hr) m
  obtain ⟨hx, hnext⟩ := carried_disposes (s := y.2) (y := y) ha hop m
  obtain ⟨hperm, -⟩ := stored_perform h hop
  have hin : y.2.inbound p = s.inbound p := inbound_perform h fun raw st heq => by
    rw [heq] at hop
    cases hop
  have hr : y.2.carried m (x t) = if y.2.content r = m then 1 else 0 := by
    rcases hx with hx | hx <;> rw [hx] <;> rfl
  rw [hnext, hin, (hperm.map y.2.content).count_eq m, List.map_cons, hmap, List.count_cons, ← hcarried t, hr]
  simp only [beq_iff_eq]
  omega

/-- A `deliver_sm` that is constructed is what the thread owes for the one received. -/
theorem carried_newPdu {q : Pdu} {y : Ref × Session} {x : Tid → Handing} (hS : s.Sourced p x)
    (ha : (handing cfg).allows (x t) (.newPdu q)) (h : perform cfg t (.newPdu q) s = some y) (m : Content) :
    y.2.carried m ((handing cfg).next (x t) (.newPdu q) y.1) + (y.2.stored.map y.2.content).count m +
        (s.inbound p).count m ≤
      s.carried m (x t) + (s.stored.map s.content).count m + (y.2.inbound p).count m := by
  obtain ⟨hmap, hcarried, -⟩ := says_same hS (fun _ hr => content_perform h hr) m
  obtain ⟨hstored, -⟩ := custody_same h rfl
  have hin : y.2.inbound p = s.inbound p := inbound_perform h fun raw st heq => by cases heq
  rw [hstored, hmap, hin]
  obtain ⟨-, hpdu⟩ := perform_newPdu h
  show y.2.carried m (if q.commandId = .DeliverSm then .made y.1 else (x t).release) + _ + _ ≤ _
  rcases ha with ⟨raw, hx, rfl⟩ | ⟨-, hmakes⟩
  · have hcmd : raw.message.commandId = .DeliverSm := rfl
    rw [if_pos hcmd, hx]
    have hcontent : y.2.content y.1 = raw.message.content := congrArg Pdu.content hpdu
    show (if y.2.content y.1 = m then 1 else 0) + _ + _ ≤ (if raw.message.content = m then 1 else 0) + _ + _
    exact Nat.le_of_eq (by rw [hcontent])
  · rw [if_neg hmakes.ne_deliverSm]
    exact Nat.le_of_eq (by rw [carried_release, hcarried])

/-- What is taken from `recieveBuffer` is carried from then on. -/
theorem carried_rxPop {y : Option Ref × Session} {x : Tid → Handing} (hS : s.Sourced p x)
    (h : perform cfg t .rxPop s = some y) (m : Content) :
    y.2.carried m ((handing cfg).next (x t) .rxPop y.1) + (y.2.stored.map y.2.content).count m +
        (s.inbound p).count m ≤
      s.carried m (x t) + (s.stored.map s.content).count m + (y.2.inbound p).count m := by
  obtain ⟨hmap, -, -⟩ := says_same hS (fun _ hr => content_perform h hr) m
  obtain ⟨hstored, hres⟩ := rxPop_perform h
  have hin : y.2.inbound p = s.inbound p := inbound_perform h fun raw st heq => by cases heq
  have hsame : s.stored.map y.2.content = s.stored.map s.content := hmap
  rw [hin, ← hsame, hstored, List.map_append, List.count_append]
  show y.2.carried m (y.1.elim .idle .took) + _ + _ ≤ _
  rw [hres]
  cases y.2.hands with
  | none =>
      show 0 + _ + _ ≤ _
      omega
  | some r =>
      have hcount : ([y.2.content r]).count m = if y.2.content r = m then 1 else 0 := by
        rw [List.count_singleton]
        simp only [beq_iff_eq]
      show (if y.2.content r = m then 1 else 0) + _ + _ ≤ _ + (([y.2.content r]).count m + _) + _
      rw [hcount]
      omega

/-- What is received is owed, if the state admits it. -/
theorem carried_received {raw : RawPdu} {st : State} {y : Unit × Session} {x : Tid → Handing} (hS : s.Sourced p x)
    (h : perform cfg t (.note (.received raw st)) s = some y) (m : Content) :
    y.2.carried m ((handing cfg).next (x t) (.note (.received raw st)) y.1) +
        (y.2.stored.map y.2.content).count m + (s.inbound p).count m ≤
      s.carried m (x t) + (s.stored.map s.content).count m + (y.2.inbound p).count m := by
  obtain ⟨hmap, -, -⟩ := says_same hS (fun _ hr => content_perform h hr) m
  obtain ⟨hstored, -⟩ := custody_same h rfl
  rw [hstored, hmap, inbound_received h]
  show y.2.carried m (if raw.Admitted st then .owes raw else .idle) + _ + _ ≤ _
  split
  · rw [List.count_cons]
    simp only [beq_iff_eq]
    show (if raw.message.content = m then 1 else 0) + _ + _ ≤ _
    omega
  · show 0 + _ + _ ≤ _
    omega

/-- **One operation**: what its thread carries afterwards and what is put somewhere is what the thread has
carried, has taken out or has received. -/
theorem carried_step {op : Op} {y : op.Res × Session} {x : Tid → Handing} (hS : s.Sourced p x)
    (ha : (handing cfg).allows (x t) op) (h : perform cfg t op s = some y) (m : Content) :
    y.2.carried m ((handing cfg).next (x t) op y.1) + (y.2.stored.map y.2.content).count m +
        (s.inbound p).count m ≤
      s.carried m (x t) + (s.stored.map s.content).count m + (y.2.inbound p).count m := by
  cases op with
  | newPdu q => exact carried_newPdu hS ha h m
  | rxPop => exact carried_rxPop hS h m
  | rxDone =>
      cases h
      exact Nat.le_refl _
  | note mk =>
      cases mk with
      | received raw st => exact carried_received hS h m
      | delivered r => exact carried_put hS ha h rfl m
      | _ =>
          cases h
          exact Nat.le_refl _
  | rxPush r => exact carried_put hS ha h rfl m
  | errPush r => exact carried_put hS ha h rfl m
  | _ =>
      obtain ⟨hmap, hcarried, -⟩ := says_same hS (fun _ hr => content_perform h hr) m
      obtain ⟨hstored, -⟩ := custody_same h rfl
      have hin : y.2.inbound p = s.inbound p := inbound_perform h fun raw st heq => by cases heq
      rw [hstored, hmap, hin]
      exact Nat.le_of_eq (by rw [← hcarried t]; rfl)

/-- What has been put somewhere was there before, or has just been put there. -/
theorem mem_stored_perform {op : Op} {y : op.Res × Session} (h : perform cfg t op s = some y) {r : Ref}
    (hr : r ∈ y.2.stored) : r ∈ s.stored ∨ op.disposes? = some r := by
  by_cases hdispose : ∃ q, op.disposes? = some q
  · obtain ⟨q, hop⟩ := hdispose
    rcases List.mem_cons.mp ((stored_perform h hop).1.mem_iff.mp hr) with rfl | hr
    · exact .inr hop
    · exact .inl hr
  by_cases hmoves : op.moves = false
  · exact .inl ((custody_same h hmoves).1 ▸ hr)
  cases op with
  | rxPop =>
      rw [(rxPop_perform h).1]
      exact .inl (List.mem_append_right _ hr)
  | rxDone =>
      cases h
      exact .inl hr
  | note mk => cases mk <;> first | exact absurd ⟨_, rfl⟩ hdispose | exact absurd rfl hmoves
  | _ => first | exact absurd ⟨_, rfl⟩ hdispose | exact absurd rfl hmoves

/-- What a thread carries after an operation is an object. -/
theorem carries_perform {op : Op} {y : op.Res × Session} {x : Tid → Handing} (hS : s.Sourced p x)
    (h : perform cfg t op s = some y) {r : Ref}
    (hr : (handing cfg).next (x t) op y.1 = .made r ∨ (handing cfg).next (x t) op y.1 = .took r) :
    r < y.2.heap.length := by
  have hold : ∀ q, x t = .made q ∨ x t = .took q → q < y.2.heap.length :=
    fun q hq => Nat.lt_of_lt_of_le (hS.hands t q hq) (heap_perform h)
  cases op with
  | newPdu q =>
      have hnew := (perform_newPdu h).1
      have hr : (if q.commandId = .DeliverSm then Handing.made y.1 else (x t).release) = .made r ∨
          (if q.commandId = .DeliverSm then Handing.made y.1 else (x t).release) = .took r := hr
      split at hr
      · rcases hr with hr | hr
        · cases hr
          exact hnew
        · cases hr
      · refine hold r ?_
        cases hx : x t <;> rw [hx] at hr <;> first | exact hr | (rcases hr with hr | hr <;> cases hr)
  -- what has been popped was stored
  | rxPop =>
      obtain ⟨hstored, hres⟩ := rxPop_perform h
      have hr : y.1.elim .idle Handing.took = .made r ∨ y.1.elim .idle Handing.took = .took r := hr
      rw [hres] at hr
      refine Nat.lt_of_lt_of_le (hS.objects r ?_) (heap_perform h)
      rw [hstored]
      cases hhands : y.2.hands with
      | none => rw [hhands] at hr; rcases hr with hr | hr <;> cases hr
      | some q =>
          rw [hhands] at hr
          rcases hr with hr | hr
          · cases hr
          · cases hr
            exact List.mem_append_left _ List.mem_cons_self
  | rxPush q =>
      have hr : (if x t = .made q then Handing.gave q else .idle) = .made r ∨
          (if x t = .made q then Handing.gave q else .idle) = .took r := hr
      split at hr <;> rcases hr with hr | hr <;> cases hr
  | errPush q => rcases hr with hr | hr <;> cases hr
  | note mk =>
      cases mk with
      | received raw st =>
          have hr : (if raw.Admitted st then Handing.owes raw else .idle) = .made r ∨
              (if raw.Admitted st then Handing.owes raw else .idle) = .took r := hr
          split at hr <;> rcases hr with hr | hr <;> cases hr
      | delivered q => rcases hr with hr | hr <;> cases hr
      | _ => exact hold r hr
  | _ => exact hold r hr

/-- **Every operation leaves it so.** -/
theorem sourced_perform {op : Op} {y : op.Res × Session} {x : Tid → Handing} (hS : s.Sourced p x)
    (ha : (handing cfg).allows (x t) op) (h : perform cfg t op s = some y) :
    y.2.Sourced p (Function.update x t ((handing cfg).next (x t) op y.1)) where
  objects r hr := by
    refine Nat.lt_of_lt_of_le ?_ (heap_perform h)
    rcases mem_stored_perform h hr with hr | hop
    · exact hS.objects r hr
    · exact hS.hands t r (carried_disposes (s := s) (y := y) ha hop (s.content r)).1
  hands u r hr := by
    by_cases hut : u = t
    · subst hut
      rw [Function.update_self] at hr
      exact carries_perform hS h hr
    · rw [Function.update_of_ne hut] at hr
      exact Nat.lt_of_lt_of_le (hS.hands u r hr) (heap_perform h)
  counted m := by
    obtain ⟨-, hcarried, hunder⟩ := says_same hS (fun _ hr => content_perform h hr) m
    have hmoved := underway_update y.2 x t ((handing cfg).next (x t) op y.1) m
    have hstep := carried_step hS ha h m
    have hbefore := hS.counted m
    rw [hcarried t, hunder] at hmoved
    omega

/-- Where nothing is stored, carried or taken in, it stays so. -/
theorem sourced_same {x : Tid → Handing} (hstored : s'.stored = s.stored)
    (hin : s'.hist.filterMap Event.inbound? = s.hist.filterMap Event.inbound?)
    (hlen : s.heap.length ≤ s'.heap.length) (hcontent : ∀ r, r < s.heap.length → s'.content r = s.content r)
    (hS : s.Sourced p x) : s'.Sourced p x where
  objects r hr := Nat.lt_of_lt_of_le (hS.objects r (hstored ▸ hr)) hlen
  hands u r hr := Nat.lt_of_lt_of_le (hS.hands u r hr) hlen
  counted m := by
    obtain ⟨hmap, -, hunder⟩ := says_same hS hcontent m
    unfold Session.inbound
    rw [hunder, hstored, hmap, hin]
    exact hS.counted m

/-- The environment leaves every message with a source. -/
theorem sourced_env {e : Env} {x : Tid → Handing} (hS : s.Sourced p x) (h : e.perform cfg s = some s') :
    s'.Sourced p x := by
  have hlogs : (e.logs s).filterMap Event.inbound? = [] := by
    unfold Env.logs
    split <;> rfl
  refine sourced_same (custody_env h).1 ?_ (pdu_env h).1 (fun r hr => content_env h hr) hS
  rw [env_hist h, List.filterMap_append, hlogs, List.nil_append]

/-- The start of a job leaves every message with a source. -/
theorem sourced_take {j : Job} {x : Tid → Handing} (hS : s.Sourced p x) (h : j.take s = some s') :
    s'.Sourced p x := by
  have hlogs : j.logs.filterMap Event.inbound? = [] := by cases j <;> rfl
  refine sourced_same (custody_take h).1 ?_ (pdu_take h).1 (fun r _ => content_take h r) hS
  rw [take_hist h, List.filterMap_append, hlogs, List.nil_append]

/-- What the references to a part of the persisted objects say. -/
theorem contents_refs (l₁ l₂ : List Pdu) {l : List Pdu}
    (h : p.heap = (l₁ ++ l ++ l₂).map fun q => { q with answers := none }) {n : Nat} (hn : n = l₁.length) :
    (Persisted.refs n l).map (Session.init p now).content = l.map Pdu.content := by
  subst hn
  refine List.ext_getElem (by simp [Persisted.refs]) fun i hi hi' => ?_
  have hlt : i < l.length := by simpa using hi'
  have hheap : (Session.init p now).heap = p.heap := rfl
  simp only [Persisted.refs, List.getElem_map, List.getElem_range', Nat.one_mul, Session.content, Session.pdu,
    hheap, h]
  rw [List.getD_eq_getElem?_getD, List.getElem?_map, List.append_assoc,
    List.getElem?_append_right (Nat.le_add_right _ _), Nat.add_sub_cancel_left, List.getElem?_append_left hlt,
    List.getElem?_eq_getElem hlt]
  rfl

/-- The messages of the peer that an earlier process has left are among those of the peer. -/
theorem sourced_init (p : Persisted) (now : Nat) : (Session.init p now).Sourced p fun _ => .idle := by
  have hstored : (Session.init p now).stored =
      Persisted.refs (p.message.length + p.sending.length) p.recieve ++
        Persisted.refs (p.message.length + p.sending.length + p.recieve.length) p.rcvErr := List.append_nil _
  have hin : (Session.init p now).inbound p = (p.recieve ++ p.rcvErr).map Pdu.content := rfl
  refine ⟨fun r hr => ?_, fun u r hr => (by rcases hr with hr | hr <;> cases hr), fun m => ?_⟩
  · rw [hstored] at hr
    have hlen : p.heap.length = p.message.length + p.sending.length + p.recieve.length + p.rcvErr.length +
        p.session.length + p.response.length := by
      simp [Persisted.heap, Nat.add_assoc]
    simp only [Persisted.refs, List.mem_append, List.mem_range'_1] at hr
    have hlt : @LT.lt Nat _ r p.heap.length := by omega
    exact hlt
  · have hrecieve : (Persisted.refs (p.message.length + p.sending.length) p.recieve).map
        (Session.init p now).content = p.recieve.map Pdu.content :=
      contents_refs (p.message ++ p.sending) (p.rcvErr ++ p.session ++ p.response)
        (by simp [Persisted.heap]) (by simp)
    have hrcvErr : (Persisted.refs (p.message.length + p.sending.length + p.recieve.length) p.rcvErr).map
        (Session.init p now).content = p.rcvErr.map Pdu.content :=
      contents_refs (p.message ++ p.sending ++ p.recieve) (p.session ++ p.response)
        (by simp [Persisted.heap]) (by simp [Nat.add_assoc])
    rw [hstored, hin, List.map_append, List.map_append, hrecieve, hrcvErr]
    exact Nat.le_of_eq (Nat.zero_add _)

/-! ## The results -/

/-- **Where everything comes from**, in every run. -/
theorem Runs.accounted (h : Runs cfg Guard.free p now c) :
    ∃ x, c.shared.Attributed cfg p x ∧ c.shared.Sourced p x := by
  have hidle : ∀ t, ((Machine.init p now).code t).Follows (handing cfg) (fun _ => Handing.Free) .idle :=
    fun _ => trivial
  have hrun := Reach.protocolWith (I := fun _ => Handing.Free) (J := Inv)
    (K := fun s x => s.Attributed cfg p x ∧ s.Sourced p x)
    ?_ hidle (fun j x hx => handing_regular.body (fun _ => handing_upkeep) handing_traffic x hx)
    ⟨attributed_init p now, sourced_init p now⟩ ?_ ?_ ?_ h.knowing
  · obtain ⟨x, hK, -⟩ := hrun
    exact ⟨x, hK⟩
  · exact fun c hc => Runs.inv (hc.mono fun _ _ hm => Guard.also_allows (Guard.also_allows hm))
  · rintro t op s x y hi ⟨hA, hS⟩ hg ha hx
    obtain ⟨-, hx⟩ := perform_of_exec hx
    exact ⟨attributed_perform hi hA (known_known hg) ha hx, sourced_perform hS ha hx⟩
  · rintro e s s' x hi ⟨hA, hS⟩ hx
    exact ⟨attributed_env hi hA hx, sourced_env hS hx⟩
  · rintro j s s' x hi ⟨hA, hS⟩ hg hx
    exact ⟨attributed_take hi (known_quiet hg) hA hx, sourced_take hS hx⟩

/-- What is there stays from one configuration of a run to the next. -/
theorem preserves_reach (h : Reach (system cfg) Guard.free.Allows c c') : c.shared.Preserves p c'.shared := by
  induction h with
  | refl => exact ⟨Nat.le_refl _, fun _ _ => rfl, fun _ hr => hr⟩
  | @next c₁ c₂ m hc hm hstep ih =>
      have hkeep : c₁.shared.Preserves p c₂.shared := by
        cases m with
        | run t =>
            obtain ⟨op, k, r, -, hx, rfl⟩ := Config.of_move_run hstep
            exact preserves_perform (perform_of_exec hx).2
        | env e =>
            obtain ⟨s, hx, rfl⟩ := Config.of_move_env hstep
            exact preserves_env hx
        | start j =>
            obtain ⟨-, s, hx, rfl⟩ := Config.of_move_start hstep
            exact preserves_take hx
      exact ⟨Nat.le_trans ih.heap hkeep.heap,
        fun r hr => (hkeep.content r (Nat.lt_of_lt_of_le hr ih.heap)).trans (ih.content r hr),
        fun r hr => hkeep.submissions r (ih.submissions r hr)⟩

/-- **Everything is written as it was made**: what is handed to `async_write` is a message of the application, or
one of the PDUs the session makes; and it says what it said at any earlier moment at which it was there. -/
theorem written_as_made (h : Runs cfg Guard.free p now c) (h' : Reach (system cfg) Guard.free.Allows c c') {r : Ref}
    {tbuf : Pdu} {st : State} {conn : Option Nat} (hw : .wrote r tbuf st conn ∈ c'.shared.hist) :
    (r ∈ c'.shared.submissions p ∨ cfg.Makes tbuf.content) ∧
      (r < c.shared.heap.length → tbuf.content = c.shared.content r) := by
  obtain ⟨x, hA, -⟩ := Runs.accounted (h.trans h')
  have hcontent := hA.wrote r tbuf st conn hw
  refine ⟨?_, fun hr => hcontent.trans ((preserves_reach (p := p) h').content r hr)⟩
  rw [hcontent]
  exact hA.queued r (.wrote tbuf st conn hw)

/-- The session is bound, and one message has been submitted to it. -/
def submittedOne : Machine := Machine.after sampleParams .none (Schedule.bind ++ [.env (.submit [72, 105])])

/-- The submitted message is taken by the sending thread and written. -/
def writtenOne : Machine :=
  submittedOne.play (system sampleParams) (.env (.elapse 1000000) :: .start .send :: Schedule.turn .sender 40)

/-- The message is written with its number, and otherwise as it was submitted. -/
theorem written_as_made_one :
    .wrote 1 ⟨.SubmitSm, ESME_ROK, 3, .octets [72, 105], none⟩ .BOUND_TRX (some 1) ∈ writtenOne.shared.hist ∧
      ((1 ∈ writtenOne.shared.submissions .none ∨
          sampleParams.Makes (⟨.SubmitSm, ESME_ROK, 3, .octets [72, 105], none⟩ : Pdu).content) ∧
        (1 < submittedOne.shared.heap.length → (⟨.SubmitSm, ESME_ROK, 3, .octets [72, 105], none⟩ : Pdu).content =
          submittedOne.shared.content 1)) := by
  have hw : .wrote 1 ⟨.SubmitSm, ESME_ROK, 3, .octets [72, 105], none⟩ .BOUND_TRX (some 1) ∈
      writtenOne.shared.hist := by
    decide +kernel
  exact ⟨hw, written_as_made (runs_after _ _ _) (reach_play _ _ _) hw⟩

/-- **The application is given what the peer has sent**: what is in the receive buffer and the error buffer and
what the application has accepted is, with its contents, among the messages of the peer, and none of them more
often than it was received. -/
theorem delivered_as_received (h : Runs cfg Guard.free p now c) :
    (c.shared.stored.map c.shared.content).Subperm (c.shared.inbound p) := by
  obtain ⟨x, -, hS⟩ := h.accounted
  refine List.subperm_ext_iff.mpr fun m _ => ?_
  have hcount := hS.counted m
  omega

/-- Of the peer's two messages the one that decodes is in the receive buffer. -/
theorem delivered_as_received_two :
    (Machine.after sampleParams .none twoMessages).shared.stored = [1] ∧
      ((Machine.after sampleParams .none twoMessages).shared.stored.map
          (Machine.after sampleParams .none twoMessages).shared.content).Subperm
        ((Machine.after sampleParams .none twoMessages).shared.inbound .none) :=
  ⟨by decide +kernel, delivered_as_received (runs_after _ _ _)⟩

end KissSmpp
