import KissSmpp.Session.Calls
import KissSmpp.Session.Routine

/-! # No timer goes off without a cause

Every PDU received arms the enquire link timer anew, `do_enquire_link` arms the one for the response and the ageing
sweep arms its own, while a handler that waits for its turn is not recalled by any of this. `timers_paced` counts what
this comes to: the link is tested at most once for each PDU received and given up at most once for each test, so that
a silent link does not keep the timers going, and there is never a second ageing sweep beside the first.

A handler that may arm a timer may do so once: the protocol `arming` starts each job with what it may still arm. -/

namespace KissSmpp

open Interleave

variable {cfg : Params} {t : Tid} {s s' : Session} {p : Persisted} {now : Nat} {α : Type} {tm : Timer}

/-! ## Timers and their handlers -/

/-- The timer whose expiry a handler is run for; there is none if the wait was cancelled. -/
def Handler.expiry? : Handler → Option Timer
  | .doEnquireLink e => if e = .operationAborted then none else some .enquireLink
  | .doEnquireLinkFailure e => if e = .operationAborted then none else some .enquireLinkResponse
  | .w4rQAgeCleanup e => if e = .operationAborted then none else some .w4rQAgeing
  | _ => none

/-- The timer that a handler may arm. -/
def Handler.arms? : Handler → Option Timer
  | .handleReadBody _ e => if e = .success then some .enquireLink else none
  | .doEnquireLink e => if e = .operationAborted then none else some .enquireLinkResponse
  | .w4rQAgeCleanup e => if e = .operationAborted then none else some .w4rQAgeing
  | _ => none

/-- The timer that a job is there to arm. -/
def Job.arms? : Job → Option Timer
  | .handler q => q.arms?
  | _ => none

/-- The start of a handler with this timer. -/
def Event.starts (f : Handler → Option Timer) (tm : Timer) : Event → Bool
  | .started q => f q == some tm
  | _ => false

/-- A PDU has been read in full. -/
def Event.isRead : Event → Bool
  | .started (.handleReadBody _ e) => e == .success
  | _ => false

namespace Session

/-- How often a handler with this timer has been started. -/
def starts (s : Session) (f : Handler → Option Timer) (tm : Timer) : Nat := s.hist.countP (Event.starts f tm)

/-- How often the timer has gone off. -/
def expiries (s : Session) (tm : Timer) : Nat := s.starts Handler.expiry? tm

/-- How many PDUs have been read in full. -/
def reads (s : Session) : Nat := s.hist.countP Event.isRead

/-- The handlers of its expiry that are queued. -/
def queuedExpiries (s : Session) (tm : Timer) : Nat := s.ready.countP fun q => q.expiry? == some tm

/-- How often the timer may still go off: its handler is queued, or it is armed. -/
def waiting (s : Session) (tm : Timer) : Nat := s.queuedExpiries tm + (s.armed tm).toNat

/-- How often it may have been armed: by the handlers so far and, the ageing timer, by the constructor. -/
def grants (s : Session) (tm : Timer) : Nat := s.starts Handler.arms? tm + (tm == .w4rQAgeing).toNat

end Session

open Session

/-- The completion of a socket operation is no expiry. -/
theorem expiry?_io (io : Io) (raw : RawPdu) (e : ErrorCode) : (io.handler raw e).expiry? = none := by
  cases io <;> rfl

/-- The handler of a timer that was cancelled is no expiry. -/
theorem expiry?_aborted (tm : Timer) : (tm.handler .operationAborted).expiry? = none := by
  cases tm <;> rfl

/-- The handler that runs without an error code is the expiry of its timer. -/
theorem expiry?_success (tm : Timer) : (tm.handler .success).expiry? = some tm := by
  cases tm <;> rfl

/-! ## The protocol -/

/-- **The protocol of the timers**: a thread may arm the timer that its job is there to arm, once. -/
def arming : Protocol Op Op.Res (Option Timer) where
  allows x
    | .arm tm => x = some tm
    | _ => True
  next x
    | .arm _, _ => none
    | _, _ => x

/-- The operations that arm no timer. -/
def Op.armless : Op → Bool
  | .arm _ => false
  | _ => true

/-- Code that arms none. -/
abbrev Armless (q : Code α) : Prop := q.Uses fun op => op.armless = true

/-- The protocol takes no notice of the other operations. -/
theorem arming_armless {op : Op} {x : Option Timer} (hop : op.armless = true) :
    arming.allows x op ∧ ∀ b, arming.next x op b = x := by
  cases op with
  | arm tm => cases hop
  | _ => exact ⟨trivial, fun _ => rfl⟩

/-- Code that arms no timer leaves a thread with what it may arm. -/
theorem Armless.follows {q : Code α} (hq : Armless q) (x : Option Timer) : q.Follows arming (fun _ y => y = x) x :=
  Prog.Follows.aside hq (fun _ _ hop => arming_armless hop) rfl

/-- Code of a job: it does not matter what it leaves. -/
abbrev Arming (x : Option Timer) (q : Code Unit) : Prop := q.Follows arming (fun _ _ => True) x

/-- Code that arms no timer keeps to the protocol from anywhere. -/
theorem Armless.arming {q : Code Unit} (hq : Armless q) (x : Option Timer) : Arming x q :=
  (hq.follows x).mono fun _ _ _ => trivial

/-- Code without a timer comes first. -/
theorem Armless.before {q : Code α} {f : α → Code Unit} {x : Option Timer} (hq : Armless q)
    (hf : ∀ a, Arming x (f a)) : Arming x (q >>= f) :=
  (hq.follows x).bind fun a _ hy => hy ▸ hf a

/-- A single operation that arms no timer is code of that kind. -/
theorem armless_call {op : Op} (hop : op.armless = true) : Armless (call op) := uses_call hop

/-- The timer is armed, and no other after it. -/
theorem arming_arm {f : Unit → Code Unit} (hf : Armless (f ())) : Arming (some tm) (call (.arm tm) >>= f) :=
  follows_call rfl fun _ => hf.arming none

/-- `write_pdu` arms no timer. -/
theorem armless_of_ofWritePdu {op : Op} (h : op.ofWritePdu = true) : op.armless = true := by
  cases op <;> first | rfl | cases h

/-- `do_write` arms no timer. -/
theorem armless_doWrite {r : Ref} {l : Level} : Armless (doWrite cfg r l) :=
  uses_doWrite (fun _ => armless_of_ofWritePdu) rfl rfl

/-- **`reschedule_enquire_link`** arms the enquire link timer once and no other. -/
theorem arming_rescheduleEnquireLink :
    rescheduleEnquireLink.Follows arming (fun _ y => y = none) (some .enquireLink) :=
  follows_call trivial fun _ => follows_call trivial fun _ => ⟨rfl, fun _ => rfl⟩

/-- `process4state` arms no timer after `reschedule_enquire_link` has armed the enquire link. -/
theorem arming_process4state (raw : RawPdu) :
    (process4state cfg raw).Follows arming (fun _ y => y = none) (some .enquireLink) := by
  unfold process4state
  refine arming_rescheduleEnquireLink.bind fun _ y hy => ?_
  subst hy
  refine Armless.follows ?_ none
  refine (armless_call rfl).bind fun st => (armless_call rfl).bind fun _ => ?_
  refine (ofDispatch_process4stateSwitch st).mono fun op hop => ?_
  cases op <;> first | rfl | cases hop

/-- **`handle_read_body`** arms the enquire link timer if a PDU has been read. -/
theorem arming_handleReadBody (raw : RawPdu) (e : ErrorCode) :
    Arming (Handler.arms? (.handleReadBody raw e)) (handleReadBody cfg raw e) := by
  have hpop : Armless (w4rQPop raw) := Prog.Uses.when <|
    (armless_call rfl).bind fun _ => (armless_call rfl).bind fun _ => armless_call rfl
  unfold handleReadBody
  rw [Handler.arms?]
  split
  · refine hpop.before fun _ => (arming_process4state raw).bind fun _ y hy => ?_
    exact hy ▸ (armless_call rfl).arming none
  · -- what a failed read leads to arms no timer
    refine Armless.arming ((ofFailure_handleReadError e).mono fun op hop => ?_) none
    cases op <;> first | rfl | cases hop

/-- **`do_enquire_link`** arms the timer for the response. -/
theorem arming_doEnquireLink (e : ErrorCode) : Arming (Handler.arms? (.doEnquireLink e)) (doEnquireLink cfg e) := by
  have hseq : Armless seqNumGenNext := ofWritePdu_seqNumGenNext.mono fun _ => armless_of_ofWritePdu
  unfold doEnquireLink
  refine .when (fun he => ?_) fun _ => trivial
  rw [Handler.arms?, if_neg (bne_iff_ne.mp he)]
  refine hseq.before fun n => (armless_call rfl).before fun r => armless_doWrite.before fun _ => ?_
  exact ⟨rfl, fun _ => trivial⟩

/-- The loop of the sweep arms no timer. -/
theorem armless_ageSweep (keys : List Nat) : Armless (ageSweep cfg keys) := by
  induction keys with
  | nil => trivial
  | cons k ks ih =>
      unfold ageSweep
      refine uses_then rfl fun o => ?_
      cases o with
      | none => exact ih
      | some i =>
          refine uses_then rfl fun now => Prog.Uses.bind (Prog.Uses.when ?_) fun _ => ih
          refine armless_doWrite.bind fun _ => uses_then rfl fun found => ?_
          cases found with
          | none => exact uses_call rfl
          | some k' => exact Prog.Uses.when (uses_call rfl)

/-- **`w4rQ_age_cleanup`** arms its own timer again, unless nothing awaits a response. -/
theorem arming_w4rQAgeCleanup (e : ErrorCode) :
    Arming (Handler.arms? (.w4rQAgeCleanup e)) (w4rQAgeCleanup cfg e) := by
  unfold w4rQAgeCleanup
  refine .when (fun he => ?_) fun _ => trivial
  rw [Handler.arms?, if_neg (bne_iff_ne.mp he)]
  refine (armless_call rfl).before fun size => .when (fun _ => ?_) fun _ => trivial
  refine (armless_call rfl).before fun _ => (armless_call rfl).before fun keys => ?_
  exact (armless_ageSweep keys).before fun _ => arming_arm (armless_call rfl)

/-- **The code of every job follows the protocol.** -/
theorem arming_body (j : Job) : Arming j.arms? (j.body cfg) := by
  have hrest : (∀ tm, j.uses (.arm tm) = false) → Arming j.arms? (j.body cfg) := fun hj =>
    Armless.arming (j.uses_body.mono fun op hop => by
      cases op with
      | arm tm => exact absurd hop (by rw [hj tm]; exact Bool.false_ne_true)
      | _ => rfl) _
  cases j with
  | handler q =>
      cases q with
      | handleReadBody raw e => exact arming_handleReadBody raw e
      | doEnquireLink e => exact arming_doEnquireLink e
      | w4rQAgeCleanup e => exact arming_w4rQAgeCleanup e
      | _ => exact hrest fun _ => rfl
  | _ => exact hrest fun _ => rfl

/-! ## What operations do -/

/-- No operation starts a handler of a timer. -/
theorem starts_perform {op : Op} {y : op.Res × Session} (h : perform cfg t op s = some y)
    (f : Handler → Option Timer) (tm : Timer) : y.2.starts f tm = s.starts f tm := by
  have hlogs : (op.logs s).countP (Event.starts f tm) = 0 := by cases op <;> rfl
  unfold Session.starts
  rw [perform_hist h, List.countP_append, hlogs, Nat.zero_add]

/-- The environment starts no handler of a timer. -/
theorem starts_env {e : Env} (h : e.perform cfg s = some s') (f : Handler → Option Timer) (tm : Timer) :
    s'.starts f tm = s.starts f tm := by
  have hlogs : (e.logs s).countP (Event.starts f tm) = 0 := by
    unfold Env.logs
    split <;> rfl
  unfold Session.starts
  rw [env_hist h, List.countP_append, hlogs, Nat.zero_add]

/-- A job that starts counts for its timer. -/
theorem starts_take {q : Handler} (h : (Job.handler q).take s = some s') (f : Handler → Option Timer) (tm : Timer) :
    s'.starts f tm = s.starts f tm + (f q == some tm).toNat := by
  unfold Session.starts
  rw [take_hist h, List.countP_append, Nat.add_comm]
  show _ + [Event.started q].countP (Event.starts f tm) = _
  rw [List.countP_singleton, Event.starts]
  cases f q == some tm <;> rfl

/-- What is queued besides changes nothing. -/
theorem queuedExpiries_append {l : List Handler} (hl : ∀ q ∈ l, q.expiry? = none) (hready : s'.ready = s.ready ++ l)
    (tm : Timer) : s'.queuedExpiries tm = s.queuedExpiries tm := by
  have hnone : l.countP (fun q => q.expiry? == some tm) = 0 :=
    List.countP_eq_zero.mpr fun q hq => by rw [hl q hq]; exact Bool.false_ne_true
  unfold Session.queuedExpiries
  rw [hready, List.countP_append, hnone, Nat.add_zero]

/-- A socket operation that is started leaves the queue as it is, or fails. -/
theorem queuedExpiries_startIo (io : Io) (tm : Timer) : (s.startIo io).queuedExpiries tm = s.queuedExpiries tm := by
  unfold Session.startIo
  split
  · rfl
  · exact queuedExpiries_append (l := [io.handler .none .other]) (by simp [expiry?_io]) rfl tm

/-- A timer that is cancelled does not go off. -/
theorem queuedExpiries_cancelTimer (tm' tm : Timer) :
    (s.cancelTimer tm').queuedExpiries tm = s.queuedExpiries tm := by
  unfold Session.cancelTimer
  split
  · exact queuedExpiries_append (l := [tm'.handler .operationAborted]) (by simp [expiry?_aborted]) rfl tm
  · rfl

/-- Closing the socket cancels reads and writes. -/
theorem queuedExpiries_closeSocket (tm : Timer) : s.closeSocket.queuedExpiries tm = s.queuedExpiries tm := by
  refine queuedExpiries_append (fun q hq => ?_) rfl tm
  obtain ⟨io, -, rfl⟩ := List.mem_map.mp hq
  exact expiry?_io io .none .operationAborted

/-- **No operation queues the handler of an expiry.** -/
theorem queuedExpiries_perform {op : Op} {y : op.Res × Session} (h : perform cfg t op s = some y) (tm : Timer) :
    y.2.queuedExpiries tm = s.queuedExpiries tm := by
  by_cases hw : Field.ready ∈ op.writes
  · cases op with
    | asyncReadHeader => cases h; exact queuedExpiries_startIo _ tm
    | asyncReadBody raw => cases h; exact queuedExpiries_startIo _ tm
    | asyncWrite r tbuf => cases h; exact queuedExpiries_startIo _ tm
    | socketClose => cases h; exact queuedExpiries_closeSocket tm
    | postClose =>
        cases h
        exact queuedExpiries_append (l := [.closeConnection]) (by simp [Handler.expiry?]) rfl tm
    | cancel tm' => cases h; exact queuedExpiries_cancelTimer tm' tm
    | arm tm' => cases h; exact queuedExpiries_cancelTimer tm' tm
    | _ => simp at hw
  · unfold Session.queuedExpiries
    rw [perform_same (f := .ready) h hw]

/-- **Only `arm` arms a timer.** -/
theorem armed_perform {op : Op} {y : op.Res × Session} (h : perform cfg t op s = some y) (tm : Timer) :
    (y.2.armed tm).toNat ≤ (s.armed tm).toNat + (op == .arm tm).toNat := by
  by_cases hw : Field.armed ∈ op.writes
  · cases op with
    | cancel tm' =>
        cases h
        refine Nat.le_add_right_of_le ?_
        show ((s.cancelTimer tm').armed tm).toNat ≤ _
        unfold Session.cancelTimer
        split
        · show (Function.update s.armed tm' false tm).toNat ≤ _
          by_cases heq : tm = tm'
          · rw [heq, Function.update_self]
            exact Nat.zero_le _
          · exact Nat.le_of_eq (congrArg Bool.toNat (Function.update_of_ne heq false s.armed))
        · exact Nat.le_refl _
    | arm tm' =>
        cases h
        show (Function.update s.armed tm' true tm).toNat ≤ _
        by_cases heq : tm = tm'
        · rw [heq, Function.update_self, beq_self_eq_true]
          exact Nat.le_add_left _ _
        · rw [Function.update_of_ne heq]
          exact Nat.le_add_right _ _
    | _ => simp at hw
  · rw [perform_same (f := .armed) h hw]
    exact Nat.le_add_right _ _

/-- **A timer that goes off queues its handler.** -/
theorem waiting_env {e : Env} (h : e.perform cfg s = some s') (tm : Timer) : s'.waiting tm = s.waiting tm := by
  cases e with
  | complete io raw er =>
      obtain ⟨-, rfl⟩ := Env.perform_complete h
      have hready : (({ s with pending := s.pending.erase io }.connectDone io er).enqueue
          (io.handler raw er)).ready = s.ready ++ [io.handler raw er] := by
        unfold Session.connectDone
        split <;> rfl
      have harmed : (({ s with pending := s.pending.erase io }.connectDone io er).enqueue
          (io.handler raw er)).armed = s.armed := by
        unfold Session.connectDone
        split <;> rfl
      unfold Session.waiting
      rw [harmed, queuedExpiries_append (by simp [expiry?_io]) hready]
  | expire tm' =>
      obtain ⟨harm, rfl⟩ := Env.perform_expire h
      show (s.ready ++ [tm'.handler .success]).countP (fun q => q.expiry? == some tm) +
        (Function.update s.armed tm' false tm).toNat = s.queuedExpiries tm + _
      rw [List.countP_append, List.countP_singleton, expiry?_success]
      by_cases heq : tm' = tm
      · subst heq
        rw [Function.update_self, harm, beq_self_eq_true]
        rfl
      · rw [Function.update_of_ne (Ne.symm heq), if_neg (by simpa using heq)]
        rfl
  | elapse us => cases h; rfl
  | submit body => cases h; rfl
  | reply a => cases h; rfl

/-- **A handler that starts** no longer waits. -/
theorem waiting_take {q : Handler} (h : (Job.handler q).take s = some s') (tm : Timer) :
    s'.waiting tm + (q.expiry? == some tm).toNat = s.waiting tm := by
  obtain ⟨hq, rfl⟩ := Job.take_handler h
  have hsplit := (List.perm_cons_erase hq).countP_eq fun q => q.expiry? == some tm
  have hone : (if (q.expiry? == some tm) = true then 1 else 0) = (q.expiry? == some tm).toNat := by
    cases q.expiry? == some tm <;> rfl
  rw [List.countP_cons, hone] at hsplit
  unfold Session.waiting Session.queuedExpiries
  rw [hsplit]
  show (s.ready.erase q).countP (fun q => q.expiry? == some tm) + (s.armed tm).toNat + _ = _
  omega

/-! ## The balance -/

/-- **What has gone off or may still go off has been granted**, and what the io thread may still arm has been
granted beside it. -/
def Session.Balanced (s : Session) (x : Tid → Option Timer) : Prop :=
  ∀ tm, s.expiries tm + s.waiting tm + (x .io == some tm).toNat ≤ s.grants tm

variable {x : Tid → Option Timer}

/-- **A timer is armed**: the io thread has used up what it may arm. -/
theorem balanced_arm {y : Unit × Session} (hm : Op.mayRun t (.arm tm) = true) (ha : arming.allows (x t) (.arm tm))
    (h : perform cfg t (.arm tm) s = some y) (hB : s.Balanced x) : y.2.Balanced (Function.update x t none) := by
  intro tm'
  have ht : t = .io := Op.io_of_mayRun hm rfl
  subst ht
  have hx : x .io = some tm := ha
  have hbal := hB tm'
  have harmed := armed_perform h tm'
  have hcount : (Op.arm tm == .arm tm').toNat = (some tm == some tm').toNat := by
    cases tm <;> cases tm' <;> rfl
  rw [hcount] at harmed
  unfold Session.expiries Session.waiting Session.grants at hbal ⊢
  rw [hx] at hbal
  rw [starts_perform h, starts_perform h, queuedExpiries_perform h, Function.update_self]
  show _ + _ + 0 ≤ _
  omega

/-- **Every operation keeps the balance.** -/
theorem balanced_perform {op : Op} {y : op.Res × Session} (hm : op.mayRun t = true) (ha : arming.allows (x t) op)
    (h : perform cfg t op s = some y) (hB : s.Balanced x) :
    y.2.Balanced (Function.update x t (arming.next (x t) op y.1)) := by
  cases hop : op.armless with
  | true =>
      rw [(arming_armless hop).2, Function.update_eq_self]
      intro tm
      have hbal := hB tm
      have harmed := armed_perform h tm
      have hne : op ≠ .arm tm := by
        rintro rfl
        cases hop
      rw [beq_eq_false_iff_ne.mpr hne, Bool.toNat_false] at harmed
      unfold Session.expiries Session.waiting Session.grants at hbal ⊢
      rw [starts_perform h, starts_perform h, queuedExpiries_perform h]
      omega
  | false =>
      cases op with
      | arm tm => exact balanced_arm hm ha h hB
      | _ => cases hop

/-- The environment keeps the balance of armed and granted timers. -/
theorem balanced_env {e : Env} (h : e.perform cfg s = some s') (hB : s.Balanced x) : s'.Balanced x := by
  intro tm
  unfold Session.expiries Session.grants
  rw [starts_env h, starts_env h, waiting_env h]
  exact hB tm

/-- A job that starts keeps the balance: it is granted what it may arm. -/
theorem balanced_take {j : Job} (h : j.take s = some s') (hB : s.Balanced x) :
    s'.Balanced (Function.update x j.thread j.arms?) := by
  intro tm
  have hbal := hB tm
  cases j with
  | handler q =>
      have hwaiting := waiting_take h tm
      unfold Session.expiries Session.grants at hbal ⊢
      rw [starts_take h, starts_take h]
      show _ + _ + (Function.update x .io q.arms? .io == some tm).toNat ≤ _
      rw [Function.update_self]
      omega
  | send => cases h; exact hbal
  | receive => cases h; exact hbal
  | stop => cases h; exact hbal

/-- At the start the constructor has armed the ageing timer, and no other. -/
theorem balanced_init (p : Persisted) (now : Nat) : (Session.init p now).Balanced fun _ => none := by
  intro tm
  cases tm <;> exact Nat.le_refl _

/-- **The balance is kept in every run.** -/
theorem Runs.balanced {c : Machine} (h : Runs cfg Guard.free p now c) : ∃ x, c.shared.Balanced x := by
  have hidle : ∀ t, ((Machine.init p now).code t).Follows arming (fun _ _ => True) none := fun _ => trivial
  have hrun := Reach.protocolFrom (I := fun _ _ => True) (J := fun _ => True) (K := Session.Balanced)
    (fun j _ => j.arms?) (fun _ _ => trivial) hidle (fun j _ _ => arming_body j) (balanced_init p now)
    ?_ ?_ ?_ h.knowing
  · obtain ⟨x, hB, -⟩ := hrun
    exact ⟨x, hB⟩
  · rintro t op s x y - hB hg ha hx
    exact balanced_perform (known_mayRun hg) ha (perform_of_exec hx).2 hB
  · rintro e s s' x - hB hx
    exact balanced_env hx hB
  · rintro j s s' x - hB - hx
    exact balanced_take hx hB

/-! ## The result -/

/-- An enquire link is granted by each PDU that is read. -/
theorem grants_enquireLink (s : Session) : s.grants .enquireLink = s.reads := by
  refine List.countP_congr fun ev _ => ?_
  cases ev with
  | started q => cases q <;> simp [Event.starts, Event.isRead, Handler.arms?]
  | _ => rfl

/-- The wait for a response is granted by each expiry of the enquire link timer. -/
theorem grants_enquireLinkResponse (s : Session) : s.grants .enquireLinkResponse = s.expiries .enquireLink := by
  refine List.countP_congr fun ev _ => ?_
  cases ev with
  | started q => cases q <;> simp [Event.starts, Handler.arms?, Handler.expiry?]
  | _ => rfl

/-- The ageing timer is granted once at the start, and again by each of its expiries. -/
theorem grants_w4rQAgeing (s : Session) : s.grants .w4rQAgeing = s.expiries .w4rQAgeing + 1 := by
  refine congrArg (· + 1) (List.countP_congr fun ev _ => ?_)
  cases ev with
  | started q => cases q <;> simp [Event.starts, Handler.arms?, Handler.expiry?]
  | _ => rfl

/-- **No timer goes off without a cause**: in every run, the enquire link timer goes off at most once for each PDU
that has been read, and the one for the response at most once for each time that `do_enquire_link` has been run for
it; what is armed or queued counts already. Of the ageing timer there is never more than one wait or sweep to come. -/
theorem timers_paced {c : Machine} (h : Runs cfg Guard.free p now c) :
    c.shared.expiries .enquireLink + c.shared.waiting .enquireLink ≤ c.shared.reads ∧
      c.shared.expiries .enquireLinkResponse + c.shared.waiting .enquireLinkResponse ≤
        c.shared.expiries .enquireLink ∧
      c.shared.waiting .w4rQAgeing ≤ 1 := by
  obtain ⟨x, hB⟩ := h.balanced
  have hlink := hB .enquireLink
  have hresponse := hB .enquireLinkResponse
  have hageing := hB .w4rQAgeing
  rw [grants_enquireLink] at hlink
  rw [grants_enquireLinkResponse] at hresponse
  rw [grants_w4rQAgeing] at hageing
  refine ⟨?_, ?_, ?_⟩ <;> omega

/-- The session is bound; then the peer falls silent, and the link is given up. -/
def Schedule.fallsSilent : List Step :=
  bind ++ [.env (.elapse 1000000), .env (.expire .enquireLink)] ++ handle (.doEnquireLink .success) ++
    .env (.expire .enquireLinkResponse) :: handle (.doEnquireLinkFailure .success)

/-- One PDU has been read, and each of the two timers has gone off once. -/
theorem timers_paced_fallsSilent :
    (Machine.after sampleParams .none Schedule.fallsSilent).shared.expiries .enquireLinkResponse = 1 ∧
      (Machine.after sampleParams .none Schedule.fallsSilent).shared.expiries .enquireLink = 1 ∧
      (Machine.after sampleParams .none Schedule.fallsSilent).shared.reads = 1 ∧
      (Machine.after sampleParams .none Schedule.fallsSilent).shared.expiries .enquireLink +
          (Machine.after sampleParams .none Schedule.fallsSilent).shared.waiting .enquireLink ≤
        (Machine.after sampleParams .none Schedule.fallsSilent).shared.reads :=
  ⟨by decide +kernel, by decide +kernel, by decide +kernel, (timers_paced (runs_after _ _ _)).1⟩

end KissSmpp
