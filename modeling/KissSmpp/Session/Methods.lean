import KissSmpp.Session.Contract

/-! # The methods keep the discipline

Method by method, from `write_pdu` up to the handlers and the loops of the process: started in a state
as its callers leave it, each performs only operations whose facts hold. `discipline_sound` is the
result: the contract `discipline` holds of every run from the start. -/

namespace KissSmpp

open Interleave Queue

variable {cfg : Params} {t : Tid} {s s' : Session} {α : Type}

/-! ## Assertions that last -/

/-- What most operations of the io thread leave as it is. -/
structure IoKeeps (s s' : Session) : Prop where
  handling : s'.handling = s.handling
  running : s'.running = s.running
  w4rQ : s'.w4rQ = s.w4rQ
  onWay : ∀ r, s.OnWay r → s'.OnWay r

/-- What the other threads leave to the io thread is among what it keeps. -/
theorem IoRelies.keeps (h : IoRelies s s') : IoKeeps s s' :=
  ⟨h.handling, h.running, h.w4rQ, h.onWay⟩

/-- **Nothing has moved** between the two states as far as the queueing of PDUs is concerned. -/
structure Unmoved (s s' : Session) : Prop where
  phase : s'.phase = s.phase
  owner : s'.owner .writeMutex = s.owner .writeMutex
  pdu2send : s'.pdu2send = s.pdu2send
  inHand : s'.inHand = s.inHand
  heap : s'.heap = s.heap
  slot : s'.slot = s.slot
  io : IoKeeps s s'

/-- The operations that move nothing. -/
@[simp] def Op.neutral : Op → Bool
  | .lock m | .unlock m => m != .writeMutex
  | .txEmpty | .txPush _ _ | .txPop | .txClear _ | .txPushBackLastPop | .w4rInsert _ | .w4rAnswer _ _
  | .w4rEraseFound _ | .newPdu _ | .setSeq _ _ | .asyncWrite _ _ | .asyncConnect | .retire | .sendPop
  | .sendDone => false
  | _ => true

/-- A neutral operation needs no facts. -/
theorem known_of_neutral {op : Op} (hop : op.neutral = true) : Known t op s := by
  cases op with
  | lock m => cases m <;> trivial
  | unlock m => cases m <;> trivial
  | _ => trivial

/-- A neutral operation moves nothing. -/
theorem unmoved_of_neutral {op : Op} {r : op.Res × Session} (h : perform cfg t op s = some r)
    (hop : op.neutral = true) : Unmoved s r.2 := by
  have hq : r.2.txQ = s.txQ := perform_same (f := .txQ) h (by
    cases op <;> first | simp; done | simp at hop)
  have hfl : r.2.inFlight.Perm s.inFlight := inFlight_still h (by
    cases op <;> first | rfl | simp at hop)
  -- the mutexes of `w4rQ` and of the generator are neutral, `writeMutex` is not
  have hown : r.2.owner .writeMutex = s.owner .writeMutex ∧ r.2.phase = s.phase := by
    cases op with
    | lock m =>
        simp only [Op.neutral, bne_iff_ne, ne_eq] at hop
        obtain ⟨-, rfl⟩ := perform_lock h
        rw [Session.onWriteMutex, if_neg hop]
        exact ⟨Function.update_of_ne (Ne.symm hop) _ _, rfl⟩
    | unlock m =>
        simp only [Op.neutral, bne_iff_ne, ne_eq] at hop
        cases h
        rw [Session.onWriteMutex, if_neg hop]
        exact ⟨Function.update_of_ne (Ne.symm hop) _ _, rfl⟩
    | _ =>
        have ho : r.2.owner = s.owner := perform_same (f := .owner) h (by simp)
        have hph : r.2.phase = s.phase := perform_same (f := .phase) h (by
          first | simp; done | simp at hop)
        exact ⟨congrFun ho _, hph⟩
  refine ⟨hown.2, hown.1, perform_same (f := .pdu2send) h ?_, perform_same (f := .inHand) h ?_,
    perform_same (f := .heap) h ?_, ?_, perform_same (f := .handling) h ?_,
    perform_same (f := .running) h ?_, perform_same (f := .w4rQ) h ?_, fun x hx => ?_⟩
  · cases op <;> first | simp; done | simp at hop
  · cases op <;> first | simp; done | simp at hop
  · cases op <;> first | simp; done | simp at hop
  · unfold Session.slot
    rw [hq]
  · cases op <;> first | simp; done | simp at hop
  · cases op <;> simp
  · cases op <;> first | simp; done | simp at hop
  · rcases hx with hx | hx
    · exact .inl (hq ▸ hx)
    · exact .inr (hfl.mem_iff.mpr hx)

/-- **An assertion that lasts**: neither the other threads nor neutral operations of thread `t` falsify
it. -/
structure Lasts (cfg : Params) (t : Tid) (P : Session → Prop) : Prop where
  stable : (discipline cfg).Stable t P
  neutral : ∀ s s', Unmoved s s' → P s → P s'

/-- Two assertions that last do so together. -/
theorem Lasts.and {P P' : Session → Prop} (h : Lasts cfg t P) (h' : Lasts cfg t P') :
    Lasts cfg t fun s => P s ∧ P' s :=
  ⟨h.stable.and h'.stable, fun s s' hu hP => ⟨h.neutral s s' hu hP.1, h'.neutral s s' hu hP.2⟩⟩

/-- What does not depend on the session lasts. -/
theorem Lasts.const {p : Prop} : Lasts cfg t fun _ => p := ⟨Contract.Stable.const, fun _ _ _ hp => hp⟩

/-- Where thread `t` stands in the critical section of `writeMutex`, and the PDU it has popped. -/
structure At (t : Tid) (ph : Phase) (o : Option Ref) (s : Session) : Prop where
  phase : s.phase t = ph
  owner : ph ≠ .outside → s.owner .writeMutex = some t
  pdu2send : s.pdu2send t = o

/-- Where a thread stands in its critical section lasts. -/
theorem At.lasts {ph : Phase} {o : Option Ref} : Lasts cfg t (At t ph o) where
  stable _ _ _ hP hr _ :=
    ⟨hr.phase.trans hP.phase, fun hph => hr.owner (hP.owner hph), hr.pdu2send.trans hP.pdu2send⟩
  neutral _ _ hu hP :=
    ⟨(congrFun hu.phase t).trans hP.phase, fun hph => hu.owner.trans (hP.owner hph),
      (congrFun hu.pdu2send t).trans hP.pdu2send⟩

/-- Thread `t` is in the critical section, without a popped PDU. -/
def Inside (t : Tid) (s : Session) : Prop := ∃ ph, ph ≠ .outside ∧ At t ph none s

/-- Being in the critical section lasts. -/
theorem Inside.lasts : Lasts cfg t (Inside t) where
  stable s s' hi hP hr hi' := by
    obtain ⟨ph, hph, hP⟩ := hP
    exact ⟨ph, hph, At.lasts.stable s s' hi hP hr hi'⟩
  neutral s s' hu hP := by
    obtain ⟨ph, hph, hP⟩ := hP
    have hat : Lasts cfg t (At t ph none) := At.lasts
    exact ⟨ph, hph, hat.neutral s s' hu hP⟩

/-- Assertions on the io thread's own members last there. -/
theorem lasts_io {G : Session → Prop} (hG : ∀ s s', IoKeeps s s' → G s → G s') :
    Lasts cfg t fun s => t = .io → G s where
  stable _ _ _ hP hr _ hio := hG _ _ (hr.io hio).keeps (hP hio)
  neutral _ _ hu hP hio := hG _ _ hu.io (hP hio)

/-- The PDU a thread has in hand stays there. -/
theorem lasts_inHand {r : Ref} : Lasts cfg t fun s => s.inHand t = some r where
  stable _ _ _ hP hr _ := hr.inHand.trans hP
  neutral _ _ hu hP := (congrFun hu.inHand t).trans hP

/-- What a thread may push it may push later. -/
theorem lasts_pushable {r : Ref} {l : Level} : Lasts cfg t fun s => s.Pushable t r l where
  stable _ _ _ hP hr _ := by
    rcases hP with hP | ⟨hio, hl, k, e, hP⟩
    · exact .inl (hr.inHand.trans hP)
    · exact .inr ⟨hio, hl, k, e, (hr.io hio).w4rQ ▸ hP⟩
  neutral _ _ hu hP := by
    rcases hP with hP | ⟨hio, hl, k, e, hP⟩
    · exact .inl ((congrFun hu.inHand t).trans hP)
    · exact .inr ⟨hio, hl, k, e, hu.io.w4rQ ▸ hP⟩

/-- The object a thread has popped does not change under its hands. -/
theorem lasts_popped {ph : Phase} {q : Ref} {p : Pdu} (hph : ph ≠ .outside) :
    Lasts cfg t fun s => At t ph (some q) s ∧ s.pdu q = p where
  stable s s' hi hP hr hi' := by
    refine ⟨At.lasts.stable s s' hi hP.1 hr hi', ?_⟩
    have hq : q < s.heap.length :=
      hi.queued q (.flight (Session.mem_inFlight.mpr (.inl ⟨t, hP.1.pdu2send⟩)))
    rw [hr.pdu (hP.1.owner hph) q hq]
    exact hP.2
  neutral s s' hu hP := by
    have hat : Lasts cfg t (At t ph (some q)) := At.lasts
    refine ⟨hat.neutral s s' hu hP.1, ?_⟩
    unfold Session.pdu
    rw [hu.heap]
    exact hP.2

/-- Operations that are not reserved to the io thread keep its members. -/
theorem ioKeeps_perform {op : Op} {r : op.Res × Session} (h : perform cfg t op s = some r)
    (hk : Known t op s) (hop : op.onIo = false) : IoKeeps s r.2 := by
  refine ⟨perform_same (f := .handling) h ?_, perform_same (f := .running) h ?_,
    perform_same (f := .w4rQ) h ?_, fun x => onWay_perform h hk hop⟩
  · cases op <;> first | simp; done | simp at hop
  · cases op <;> simp
  · cases op <;> first | simp; done | simp at hop

/-! ## Rules for the code -/

/-- A single operation that finds its facts. -/
theorem triple_call {op : Op} {P : Session → Prop} {Q : op.Res → Session → Prop}
    (hm : op.mayRun t = true) (hP : (discipline cfg).Stable t P) (hQ : ∀ b, (discipline cfg).Stable t (Q b))
    (h : ∀ s r, Inv s → P s → perform cfg t op s = some r → Known t op s ∧ Q r.1 r.2) :
    (discipline cfg).Triple t P (call op) Q := by
  refine Contract.Triple.op hP hQ fun s r hi hPs _ hx => ?_
  obtain ⟨-, hp⟩ := perform_of_exec hx
  obtain ⟨hk, hQr⟩ := h s r hi hPs hp
  exact ⟨keeps_of_known hp hi hm hk, hQr⟩

/-- Code that moves nothing keeps an assertion that lasts. -/
theorem triple_neutral {p : Code α} {P : Session → Prop}
    (hp : p.Uses fun op => op.neutral = true ∧ op.mayRun t = true) (hP : Lasts cfg t P) :
    (discipline cfg).Triple t P p fun _ => P := by
  refine Contract.Triple.uses hp hP.stable fun op s r hop hi hPs _ hx => ?_
  obtain ⟨-, hx⟩ := perform_of_exec hx
  exact ⟨keeps_of_known hx hi hop.2 (known_of_neutral hop.1),
    hP.neutral s r.2 (unmoved_of_neutral hx hop.1) hPs⟩

/-- A single operation is code that uses no other. -/
theorem uses_call {S : Op → Prop} {op : Op} (h : S op) : (call op).Uses S := ⟨h, fun _ => trivial⟩

/-! ## Numbers and the throttle -/

/-- The code moves nothing, and thread `t` may run it. -/
abbrev Neutral (t : Tid) (p : Code α) : Prop :=
  p.Uses fun op => op.neutral = true ∧ op.mayRun t = true

/-- `seqNumGen.next()` is neutral. -/
theorem neutral_seqNumGenNext : Neutral t seqNumGenNext := by
  unfold seqNumGenNext
  refine (uses_call ⟨rfl, rfl⟩).bind fun _ => (uses_call ⟨rfl, rfl⟩).bind fun mVal => ?_
  split
  · exact (uses_call ⟨rfl, rfl⟩).bind fun _ => (uses_call ⟨rfl, rfl⟩).bind fun _ => trivial
  · exact (uses_call ⟨rfl, rfl⟩).bind fun _ => (uses_call ⟨rfl, rfl⟩).bind fun _ => trivial

/-- `throttle_check` is neutral. -/
theorem neutral_throttleCheck : Neutral t (throttleCheck cfg) :=
  (uses_call ⟨rfl, rfl⟩).bind fun _ => (uses_call ⟨rfl, rfl⟩).bind fun _ =>
    (Prog.Uses.when (uses_call ⟨rfl, rfl⟩)).bind fun _ => uses_call ⟨rfl, rfl⟩

/-! ## Writing -/

/-- What `do_write` finds and leaves of the io thread's own members: nothing that a `handle_write` has
still to deal with, and no `handle_write` running. -/
def Settled (s : Session) : Prop := s.handling = none ∧ ¬s.InHandleWrite

/-- An io thread with nothing to deal with still has nothing after what it keeps. -/
theorem Settled.keeps (h : IoKeeps s s') (hs : Settled s) : Settled s' := by
  unfold Settled Session.InHandleWrite
  rw [h.handling, h.running]
  exact hs

/-- An operation that is not reserved to the io thread keeps an assertion on that thread's members. -/
theorem io_perform {G : Session → Prop} (hG : ∀ s s', IoKeeps s s' → G s → G s') {op : Op}
    {r : op.Res × Session} (h : perform cfg t op s = some r) (hk : Known t op s)
    (hop : op.onIo = false) (hs : t = .io → G s) : t = .io → G r.2 :=
  fun hio => hG _ _ (ioKeeps_perform h hk hop) (hs hio)

/-- The renumbering step of `write_pdu`. -/
theorem triple_renumber {q : Ref} {p : Pdu} {G : Session → Prop}
    (hG : ∀ s s', IoKeeps s s' → G s → G s') :
    (discipline cfg).Triple t
      (fun s => (At t .popped (some q) s ∧ s.pdu q = p) ∧ (t = .io → G s))
      (Prog.when (p.sequenceNumber ≤ SequenceNumber.Min) do
        let n ← seqNumGenNext
        call (.setSeq q n))
      fun _ s => At t .popped (some q) s ∧ (t = .io → G s) := by
  have hpopped : Lasts cfg t fun s => At t .popped (some q) s ∧ s.pdu q = p :=
    lasts_popped (by simp)
  have hat : Lasts cfg t fun s => At t .popped (some q) s ∧ (t = .io → G s) :=
    At.lasts.and (lasts_io hG)
  unfold Prog.when
  split
  · next hle =>
      refine (triple_neutral neutral_seqNumGenNext (hpopped.and (lasts_io hG))).bind fun n => ?_
      refine triple_call rfl (hpopped.and (lasts_io hG)).stable (fun _ => hat.stable) ?_
      rintro s r - ⟨⟨hat, hpdu⟩, hGs⟩ h
      have hk : Known t (.setSeq q n) s :=
        ⟨hat.owner (by simp), hat.pdu2send, by rw [hpdu]; exact of_decide_eq_true hle⟩
      have hGr := io_perform hG h hk rfl hGs
      refine ⟨hk, ?_, hGr⟩
      cases h
      exact ⟨hat.phase, hat.owner, hat.pdu2send⟩
  · exact (Contract.Triple.ret (Q := fun _ s => At t .popped (some q) s ∧ (t = .io → G s))
      hat.stable).pre fun s _ hs => ⟨hs.1.1, hs.2⟩

/-- `write_pdu`, called in a phase `ph` in which the thread may pop. -/
theorem triple_writePdu {ph : Phase} {G : Session → Prop} (hG : ∀ s s', IoKeeps s s' → G s → G s')
    (hph : ph = .found true ∨ t = .io ∧ ph = .found false ∧
      ∀ s, G s → s.InHandleWrite ∧ s.handling = none ∧ s.w4rQ.size < 10) :
    (discipline cfg).Triple t (fun s => At t ph none s ∧ (t = .io → G s)) (writePdu cfg)
      fun _ s => At t .popped none s ∧ (t = .io → G s) := by
  have hat : ∀ ph' o, Lasts cfg t fun s => At t ph' o s ∧ (t = .io → G s) :=
    fun ph' o => At.lasts.and (lasts_io hG)
  have hout : ph ≠ .outside := by
    rcases hph with rfl | ⟨-, rfl, -⟩
    · simp
    · simp
  unfold writePdu
  -- the PDU is popped
  refine Contract.Triple.bind (Q := fun o s => At t .popped o s ∧ (t = .io → G s))
    (triple_call rfl (hat ph none).stable (fun o => (hat .popped o).stable) ?_) fun o => ?_
  · rintro s r - ⟨hs, hGs⟩ h
    have hk : Known t .txPop s := by
      refine ⟨hs.owner hout, hs.pdu2send, ?_⟩
      rcases hph with rfl | ⟨hio, rfl, hpop⟩
      · exact .inl hs.phase
      · obtain ⟨hhw, hhand, hsize⟩ := hpop s (hGs hio)
        exact .inr ⟨hio, hs.phase, hhw, hhand, hsize⟩
    have hGr := io_perform hG h hk rfl hGs
    refine ⟨hk, ?_, hGr⟩
    have hown := hs.owner hout
    cases h
    exact ⟨Function.update_self .., fun _ => hown, Function.update_self ..⟩
  cases o with
  | none => exact triple_neutral (uses_call ⟨rfl, rfl⟩) (hat .popped none)
  | some q =>
      have hpdu : ∀ p, Lasts cfg t fun s =>
          (At t .popped (some q) s ∧ s.pdu q = p) ∧ (t = .io → G s) :=
        fun p => (lasts_popped (by simp)).and (lasts_io hG)
      -- reading an object changes nothing
      have hget : (discipline cfg).Triple t
          (fun s => At t .popped (some q) s ∧ (t = .io → G s)) (call (.getPdu q))
          fun p s => (At t .popped (some q) s ∧ s.pdu q = p) ∧ (t = .io → G s) := by
        refine triple_call rfl (hat .popped (some q)).stable (fun p => (hpdu p).stable) ?_
        rintro s r - ⟨hs, hGs⟩ h
        cases h
        exact ⟨trivial, ⟨hs, rfl⟩, hGs⟩
      refine hget.bind fun p => ?_
      refine (triple_renumber hG).bind fun _ => ?_
      refine hget.bind fun tbuf => ?_
      refine (triple_neutral neutral_throttleCheck (hpdu tbuf)).bind fun _ => ?_
      -- the encoding is handed to the socket
      refine triple_call rfl (hpdu tbuf).stable (fun _ => (hat .popped none).stable) ?_
      rintro s r - ⟨⟨hs, hp⟩, hGs⟩ h
      have hk : Known t (.asyncWrite q tbuf) s :=
        ⟨hs.owner (by simp), hs.pdu2send, hp.symm⟩
      have hGr := io_perform hG h hk rfl hGs
      have hphase : r.2.phase = s.phase := perform_same (f := .phase) h (by simp)
      have hown : r.2.owner = s.owner := perform_same (f := .owner) h (by simp)
      have hsend : r.2.pdu2send t = none := by
        cases h
        have hsame : (({ s with pdu2send := Function.update s.pdu2send t none }).startIo
            (.write q)).pdu2send = Function.update s.pdu2send t none :=
          Session.startIo_same (f := .pdu2send) _ (by decide)
        exact (congrFun hsame t).trans (Function.update_self ..)
      exact ⟨hk, ⟨(congrFun hphase t).trans hs.phase, fun hne => (congrFun hown _).trans (hs.owner hne),
        hsend⟩, hGr⟩

/-- Leaving the critical section. -/
theorem triple_unlock {G : Session → Prop} (hG : ∀ s s', IoKeeps s s' → G s → G s') :
    (discipline cfg).Triple t (fun s => Inside t s ∧ (t = .io → G s)) (call (.unlock .writeMutex))
      fun _ s => At t .outside none s ∧ (t = .io → G s) := by
  refine triple_call rfl (Inside.lasts.and (lasts_io hG)).stable
    (fun _ => (At.lasts.and (lasts_io hG)).stable) ?_
  rintro s r - ⟨⟨ph, hph, hs⟩, hGs⟩ h
  have hk : Known t (.unlock .writeMutex) s := hs.owner hph
  have hGr := io_perform hG h hk rfl hGs
  refine ⟨hk, ?_, hGr⟩
  cases h
  rw [Session.onWriteMutex, if_pos rfl]
  exact ⟨Function.update_self .., fun hne => absurd rfl hne, hs.pdu2send⟩

/-- Entering the critical section. -/
theorem triple_lock {G : Session → Prop} (hG : ∀ s s', IoKeeps s s' → G s → G s')
    (hlock : ∀ s, G s → s.InHandleWrite → s.handling ≠ none) {P : Session → Prop}
    (hP : Lasts cfg t P) (hPl : ∀ s s' : Session, s'.inHand = s.inHand → s'.w4rQ = s.w4rQ →
      s'.slot = s.slot → P s → P s') :
    (discipline cfg).Triple t (fun s => At t .outside none s ∧ (t = .io → G s) ∧ P s)
      (call (.lock .writeMutex)) fun _ s => At t .locked none s ∧ (t = .io → G s) ∧ P s := by
  refine triple_call rfl (At.lasts.and ((lasts_io hG).and hP)).stable
    (fun _ => (At.lasts.and ((lasts_io hG).and hP)).stable) ?_
  rintro s r - ⟨hs, hGs, hPs⟩ h
  have hk : Known t (.lock .writeMutex) s := fun hio => hlock s (hGs hio)
  have hGr := io_perform hG h hk rfl hGs
  refine ⟨hk, ?_, hGr, ?_⟩
  · obtain ⟨-, rfl⟩ := perform_lock h
    rw [Session.onWriteMutex, if_pos rfl]
    have hown : Function.update s.owner .writeMutex (some t) .writeMutex = some t :=
      Function.update_self ..
    exact ⟨Function.update_self .., fun _ => hown, hs.pdu2send⟩
  · exact hPl s r.2 (perform_same (f := .inHand) h (by simp))
      (perform_same (f := .w4rQ) h (by simp)) (slot_same h (by simp)) hPs

/-- Asking the queue whether it is empty. -/
theorem triple_txEmpty {G : Session → Prop} (hG : ∀ s s', IoKeeps s s' → G s → G s')
    (hset : ∀ s, G s → s.InHandleWrite → s.handling = none) {P : Session → Prop}
    (hP : Lasts cfg t P) (hPl : ∀ s s' : Session, s'.inHand = s.inHand → s'.w4rQ = s.w4rQ →
      s'.slot = s.slot → P s → P s') :
    (discipline cfg).Triple t (fun s => At t .locked none s ∧ (t = .io → G s) ∧ P s) (call .txEmpty)
      fun e s => At t (.found e) none s ∧ (t = .io → G s) ∧ P s := by
  refine triple_call rfl (At.lasts.and ((lasts_io hG).and hP)).stable
    (fun _ => (At.lasts.and ((lasts_io hG).and hP)).stable) ?_
  rintro s r - ⟨hs, hGs, hPs⟩ h
  have hk : Known t .txEmpty s :=
    ⟨hs.owner (by simp), hs.phase, fun hio => hset s (hGs hio)⟩
  have hGr := io_perform hG h hk rfl hGs
  have hown := hs.owner (by simp)
  cases h
  exact ⟨hk, ⟨Function.update_self .., fun _ => hown, hs.pdu2send⟩, hGr, hPl s _ rfl rfl rfl hPs⟩

/-- **`do_write`** of a PDU the thread may push: the PDU is on its way afterwards, as far as the io
thread can tell. -/
theorem triple_doWrite {r : Ref} {l : Level} {G : Session → Prop}
    (hG : ∀ s s', IoKeeps s s' → G s → G s') (hset : ∀ s, G s → Settled s) :
    (discipline cfg).Triple t
      (fun s => At t .outside none s ∧ (t = .io → G s) ∧ s.Pushable t r l) (doWrite cfg r l)
      fun _ s => At t .outside none s ∧ (t = .io → G s ∧ s.OnWay r) := by
  have hpush : ∀ s s' : Session, s'.inHand = s.inHand → s'.w4rQ = s.w4rQ → s'.slot = s.slot →
      s.Pushable t r l → s'.Pushable t r l := by
    intro s s' hin hw _ hP
    rcases hP with hP | ⟨hio, hl, k, e, hP⟩
    · exact .inl ((congrFun hin t).trans hP)
    · exact .inr ⟨hio, hl, k, e, hw ▸ hP⟩
  have hG' : ∀ s s', IoKeeps s s' → G s ∧ s.OnWay r → G s' ∧ s'.OnWay r :=
    fun s s' hk hs => ⟨hG s s' hk hs.1, hk.onWay r hs.2⟩
  unfold doWrite writing
  refine (triple_lock hG (fun s hs hhw => absurd hhw (hset s hs).2) lasts_pushable hpush).bind
    fun _ => ?_
  rw [Prog.bind_assoc]
  refine (triple_txEmpty hG (fun s hs _ => (hset s hs).1) lasts_pushable hpush).bind fun e => ?_
  rw [Prog.pure_eq_ret, Prog.ret_bind]
  -- the PDU is pushed
  refine Contract.Triple.bind (Q := fun _ s =>
    At t (.found e) none s ∧ (t = .io → G s ∧ s.OnWay r)) ?_ fun _ => ?_
  · refine triple_call rfl (At.lasts.and ((lasts_io hG).and lasts_pushable)).stable
      (fun _ => (At.lasts.and (lasts_io hG')).stable) ?_
    rintro s x - ⟨hs, hGs, hP⟩ h
    have hk : Known t (.txPush r l) s := ⟨hs.owner (by simp), hP⟩
    have hGx := io_perform hG h hk rfl hGs
    cases h
    exact ⟨hk, ⟨hs.phase, hs.owner, hs.pdu2send⟩,
      fun hio => ⟨hGx hio, .inl (PrioQ.mem_push.mpr (.inr rfl))⟩⟩
  -- an empty queue means that the PDU is written at once
  refine Contract.Triple.bind (Q := fun _ s => Inside t s ∧ (t = .io → G s ∧ s.OnWay r)) ?_
    fun _ => triple_unlock hG'
  cases e with
  | true =>
      exact (triple_writePdu hG' (.inl rfl)).post
        fun _ s _ hs => ⟨⟨.popped, by simp, hs.1⟩, hs.2⟩
  | false =>
      exact (Contract.Triple.ret (Q := fun _ s => Inside t s ∧ (t = .io → G s ∧ s.OnWay r))
        (Inside.lasts.and (lasts_io hG')).stable).pre
          fun s _ hs => ⟨⟨.found false, by simp, hs.1⟩, hs.2⟩

/-! ## Methods made of neutral code and `do_write` -/

/-- A thread between two steps of a method: outside the critical section and without a popped PDU; on
the io thread `G` holds. -/
def Here (G : Session → Prop) (t : Tid) (s : Session) : Prop :=
  At t .outside none s ∧ (t = .io → G s)

/-- An assertion on the io thread's members under which its methods may be called: most operations keep
it, and no `handle_write` has anything to deal with. -/
structure Steady (G : Session → Prop) : Prop where
  keeps : ∀ s s', IoKeeps s s' → G s → G s'
  settled : ∀ s, G s → Settled s

/-- **The code keeps the discipline**, started and left between two steps of a method. -/
def Keeping (cfg : Params) (G : Session → Prop) (t : Tid) (p : Code α) : Prop :=
  (discipline cfg).Triple t (Here G t) p fun _ => Here G t

variable {G : Session → Prop}

/-- Standing between two steps of a method lasts. -/
theorem Here.lasts (hG : Steady G) : Lasts cfg t (Here G t) := At.lasts.and (lasts_io hG.keeps)

/-- Neutral code keeps the discipline. -/
theorem Keeping.neutral (hG : Steady G) {p : Code α} (hp : Neutral t p) : Keeping cfg G t p :=
  triple_neutral hp (Here.lasts hG)

/-- Code that does nothing keeps the discipline. -/
theorem Keeping.ret (hG : Steady G) (a : α) : Keeping cfg G t (.ret a) := .neutral hG trivial

/-- Code that keeps the discipline may be followed by such code. -/
theorem Keeping.bind {β : Type} {p : Code α} {f : α → Code β} (hp : Keeping cfg G t p)
    (hf : ∀ a, Keeping cfg G t (f a)) : Keeping cfg G t (p >>= f) :=
  Contract.Triple.bind hp hf

/-- Code that keeps the discipline may run under a condition. -/
theorem Keeping.when (hG : Steady G) {b : Bool} {p : Code Unit} (hp : Keeping cfg G t p) :
    Keeping cfg G t (Prog.when b p) :=
  Contract.Triple.when (Here.lasts hG).stable fun _ => hp

/-- Constructing a PDU; one that answers a request has that request's number. -/
theorem triple_newPdu (hG : Steady G) {p : Pdu} (ht : t = .io ∨ t = .stopper)
    (hp : ∀ n, p.answers = some n → p.sequenceNumber = n) :
    (discipline cfg).Triple t (Here G t) (call (.newPdu p))
      fun r s => Here G t s ∧ s.inHand t = some r := by
  refine triple_call ?_ (Here.lasts hG).stable
    (fun r => ((Here.lasts hG).and lasts_inHand).stable) ?_
  · rcases ht with rfl | rfl <;> rfl
  rintro s r - ⟨hs, hGs⟩ h
  have hk : Known t (.newPdu p) s := hp
  have hGr := io_perform hG.keeps h hk rfl hGs
  cases h
  exact ⟨hk, ⟨⟨hs.phase, hs.owner, hs.pdu2send⟩, hGr⟩, Function.update_self ..⟩

/-- `do_write` of the PDU in hand. -/
theorem triple_doWrite_inHand (hG : Steady G) {r : Ref} {l : Level} :
    (discipline cfg).Triple t (fun s => Here G t s ∧ s.inHand t = some r) (doWrite cfg r l)
      fun _ => Here G t :=
  (triple_doWrite hG.keeps hG.settled).conseq (fun _ _ hs => ⟨hs.1.1, hs.1.2, .inl hs.2⟩)
    fun _ _ _ hs => ⟨hs.1, fun hio => (hs.2 hio).1⟩

/-- A PDU is constructed and written. -/
theorem Keeping.write (hG : Steady G) {p : Pdu} {l : Level} (ht : t = .io ∨ t = .stopper)
    (hp : ∀ n, p.answers = some n → p.sequenceNumber = n) :
    Keeping cfg G t (call (.newPdu p) >>= fun r => doWrite cfg r l) :=
  (triple_newPdu hG ht hp).bind fun _ => triple_doWrite_inHand hG

/-- `do_bind_request` keeps the discipline. -/
theorem keeping_doBindRequest (hG : Steady G) : Keeping cfg G .io (doBindRequest cfg) :=
  (Keeping.neutral hG neutral_seqNumGenNext).bind fun _ =>
    .write hG (.inl rfl) fun _ h => by cases h

/-- `close_session` keeps the discipline on the io thread and on the thread that stops. -/
theorem keeping_closeSession (hG : Steady G) (ht : t = .io ∨ t = .stopper) (reConnect : Bool) :
    Keeping cfg G t (closeSession cfg reConnect) := by
  unfold closeSession doUnbindRequest
  refine (Keeping.neutral hG (uses_call ⟨rfl, ?_⟩)).bind fun _ => ?_
  · rcases ht with rfl | rfl <;> rfl
  refine (Keeping.neutral hG (uses_call ⟨rfl, rfl⟩)).bind fun st => ?_
  refine (Keeping.when hG (.write hG ht fun _ h => by cases h)).bind fun _ => ?_
  refine Keeping.neutral hG (uses_call ⟨rfl, ?_⟩)
  rcases ht with rfl | rfl <;> rfl

/-- `stop` keeps the discipline. -/
theorem keeping_stop (hG : Steady G) : Keeping cfg G .stopper (stop cfg) :=
  (Keeping.neutral hG (uses_call ⟨rfl, rfl⟩)).bind fun _ =>
    keeping_closeSession hG (.inr rfl) false

/-- `handle_read_error` keeps the discipline. -/
theorem keeping_handleReadError (hG : Steady G) (error : ErrorCode) :
    Keeping cfg G .io (handleReadError cfg error) := by
  unfold handleReadError
  refine (Keeping.neutral hG (uses_call ⟨rfl, rfl⟩)).bind fun stopFlag => Keeping.when hG ?_
  split
  · exact (Keeping.neutral hG (uses_call ⟨rfl, rfl⟩)).bind fun _ =>
      (Keeping.neutral hG (uses_call ⟨rfl, rfl⟩)).bind fun _ =>
        Keeping.neutral hG (uses_call ⟨rfl, rfl⟩)
  · exact keeping_closeSession hG (.inl rfl) true

/-- `handle_read_header` keeps the discipline. -/
theorem keeping_handleReadHeader (hG : Steady G) (raw : RawPdu) (error : ErrorCode) :
    Keeping cfg G .io (handleReadHeader cfg raw error) := by
  unfold handleReadHeader
  split
  · exact Keeping.neutral hG (uses_call ⟨rfl, rfl⟩)
  · exact keeping_handleReadError hG error

/-- `do_enquire_link` keeps the discipline. -/
theorem keeping_doEnquireLink (hG : Steady G) (e : ErrorCode) :
    Keeping cfg G .io (doEnquireLink cfg e) := by
  unfold doEnquireLink
  refine Keeping.when hG ((Keeping.neutral hG neutral_seqNumGenNext).bind fun n => ?_)
  rw [← Prog.bind_assoc]
  exact (Keeping.write hG (.inl rfl) fun _ h => by cases h).bind fun _ =>
    Keeping.neutral hG (uses_call ⟨rfl, rfl⟩)

/-- `do_enquire_link_failure` keeps the discipline. -/
theorem keeping_doEnquireLinkFailure (hG : Steady G) (e : ErrorCode) :
    Keeping cfg G .io (doEnquireLinkFailure cfg e) := by
  unfold doEnquireLinkFailure
  refine Keeping.when hG ((Keeping.neutral hG (uses_call ⟨rfl, rfl⟩)).bind fun stopFlag => ?_)
  exact Keeping.when hG ((Keeping.neutral hG (uses_call ⟨rfl, rfl⟩)).bind fun _ =>
    keeping_closeSession hG (.inl rfl) false)

/-! ## Processing PDUs -/

/-- A response answers the request with its number. -/
theorem responsePdu_answers (raw : RawPdu) (c : CommandId) (n : Nat)
    (h : (responsePdu raw c).answers = some n) : (responsePdu raw c).sequenceNumber = n :=
  Option.some.inj h

/-- `procpdu_deliver_sm` keeps the discipline. -/
theorem keeping_procpduDeliverSm (hG : Steady G) (raw : RawPdu) :
    Keeping cfg G .io (procpduDeliverSm cfg raw) := by
  unfold procpduDeliverSm
  split
  · refine Contract.Triple.bind (triple_newPdu hG (.inl rfl) fun _ h => by cases h) fun r => ?_
    refine (Contract.Triple.pre (P := Here G .io) ?_ fun _ _ hs => hs.1)
    refine (Keeping.neutral hG (uses_call ⟨rfl, rfl⟩)).bind fun _ => ?_
    rw [← Prog.bind_assoc]
    exact (Keeping.write hG (.inl rfl) (responsePdu_answers raw _)).bind fun _ =>
      Keeping.ret hG _
  · exact Keeping.ret hG _

/-- `procpdu_enquire_link` keeps the discipline. -/
theorem keeping_procpduEnquireLink (hG : Steady G) (raw : RawPdu) :
    Keeping cfg G .io (procpduEnquireLink cfg raw) := by
  unfold procpduEnquireLink
  split
  · rw [← Prog.bind_assoc]
    exact (Keeping.write hG (.inl rfl) (responsePdu_answers raw _)).bind fun _ =>
      Keeping.ret hG _
  · exact Keeping.ret hG _

/-- `procpdu_unbind` keeps the discipline. -/
theorem keeping_procpduUnbind (hG : Steady G) (raw : RawPdu) : Keeping cfg G .io (procpduUnbind cfg raw) := by
  unfold procpduUnbind
  split
  · refine Contract.Triple.bind (triple_newPdu hG (.inl rfl) (responsePdu_answers raw _))
      fun r => ?_
    refine (triple_neutral (uses_call ⟨rfl, rfl⟩) ((Here.lasts hG).and lasts_inHand)).bind
      fun _ => ?_
    refine (triple_doWrite_inHand hG).bind fun _ => ?_
    exact Keeping.neutral hG ((uses_call ⟨rfl, rfl⟩).bind fun _ =>
      (uses_call ⟨rfl, rfl⟩).bind fun _ => (uses_call ⟨rfl, rfl⟩).bind fun _ => trivial)
  · exact Keeping.ret hG _

/-- `procpdu_unbind_resp` keeps the discipline. -/
theorem keeping_procpduUnbindResp (hG : Steady G) (raw : RawPdu) :
    Keeping cfg G .io (procpduUnbindResp cfg raw) :=
  (Keeping.neutral hG (uses_call ⟨rfl, rfl⟩)).bind fun _ =>
    (keeping_closeSession hG (.inl rfl) false).bind fun _ => Keeping.ret hG _

end KissSmpp
