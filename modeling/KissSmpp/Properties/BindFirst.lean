import KissSmpp.Interleave.OneThread
import KissSmpp.Session.Calls

/-! # Every connection binds first

`handle_connect` sends its bind request through `do_write`, which writes it only if it finds the
transmit queue empty. Messages that an earlier connection, or an earlier process, left in the queue keep
the bind request waiting behind a write that is not under way. Where the queue is empty at that point,
and nothing has been written on the connection yet (`bindGoesFirst`), the bind request is the first PDU
on the connection. -/

namespace KissSmpp

open Interleave Queue

variable {cfg : Params} {t : Tid} {s s' : Session}

/-! ## What is written on a connection -/

/-- The connection a PDU was handed to `async_write` on. -/
def Event.writtenOn : Event → Option Nat
  | .wrote _ _ _ conn => conn
  | _ => none

/-- The event is the start of a handler. -/
def Event.isStart : Event → Bool
  | .started _ => true
  | _ => false

/-- The event is a write. -/
def Event.isWrite : Event → Bool
  | .wrote _ _ _ _ => true
  | _ => false

namespace Session

/-- The number of the connection the socket has. -/
def connection (s : Session) : Option Nat := if s.isConnected then some s.connNo else none

/-- Nothing has been written on the present connection. -/
def NoneWritten (s : Session) : Prop := ∀ n ∈ s.connection, ∀ ev ∈ s.hist, ev.writtenOn ≠ some n

/-- Whether something has been written on the present connection can be read off the record. -/
instance (s : Session) : Decidable s.NoneWritten :=
  inferInstanceAs (Decidable (∀ n ∈ s.connection, ∀ ev ∈ s.hist, ev.writtenOn ≠ some n))

/-- **The `handle_connect` taken up last has bound first**: since it was taken up a bind request has
been handed to `async_write`, and nothing had been written before on the connection it went to. -/
def BoundFirst (s : Session) : Prop :=
  ∃ h₁ r tbuf st conn h₂ h₃,
    s.hist = h₁ ++ .wrote r tbuf st conn :: (h₂ ++ .started (.handleConnect .success) :: h₃) ∧
      tbuf.commandId.isBind = true ∧ (∀ ev ∈ h₁ ++ h₂, ev.isStart = false) ∧
        ∀ n, conn = some n → ∀ ev ∈ h₂ ++ .started (.handleConnect .success) :: h₃,
          ev.writtenOn ≠ some n

end Session

open Session

/-- **The bind request can go first**: when `do_bind_request` in `handle_connect` asks the transmit
queue, it is empty, and nothing has been written on the connection. -/
def bindGoesFirst : Guard Op Tid Session Job where
  op t op s :=
    t = .io → op = .txEmpty → s.running = some (.handleConnect .success) →
      s.txQ.empty = true ∧ s.NoneWritten
  job _ _ := True

/-- The guard can be evaluated. -/
instance : bindGoesFirst.Checkable where
  op t op s := inferInstanceAs (Decidable
    (t = .io → op = .txEmpty → s.running = some (.handleConnect .success) →
      s.txQ.empty = true ∧ s.NoneWritten))
  job _ _ := inferInstanceAs (Decidable True)

/-! ## Single steps -/

/-- Only `async_write` records a write. -/
theorem writtenOn_logs {op : Op} (hop : ∀ q tbuf, op ≠ .asyncWrite q tbuf) {ev : Event}
    (hev : ev ∈ op.logs s) : ev.writtenOn = none := by
  cases op <;> simp at hev <;> first | (subst hev; rfl) | skip
  exact absurd rfl (hop _ _)

/-- No operation takes up a handler. -/
theorem isStart_logs {op : Op} {ev : Event} (hev : ev ∈ op.logs s) : ev.isStart = false := by
  cases op <;> simp at hev <;> subst hev <;> rfl

/-- The environment writes nothing and takes up no handler. -/
theorem env_logs_silent {e : Env} {ev : Event} (hev : ev ∈ e.logs s) :
    ev.writtenOn = none ∧ ev.isStart = false := by
  rcases mem_env_logs hev with rfl | rfl
  · exact ⟨rfl, rfl⟩
  · exact ⟨rfl, rfl⟩

/-- An operation does not open a connection. -/
theorem connection_perform {op : Op} {x : op.Res × Session} (h : perform cfg t op s = some x) {n : Nat}
    (hn : x.2.connection = some n) : s.connection = some n := by
  have hno : x.2.connNo = s.connNo := perform_same (f := .connNo) h (by
    cases op <;> simp)
  unfold Session.connection at hn ⊢
  rw [hno] at hn
  by_cases hclose : op = .socketClose
  · subst hclose
    cases h
    cases hn
  · have hconn : x.2.isConnected = s.isConnected := perform_same (f := .isConnected) h (by
      cases op <;> first | simp; done | exact absurd rfl hclose)
    rwa [hconn] at hn

/-- Nothing has been written if nothing is. -/
theorem noneWritten_perform {op : Op} {x : op.Res × Session} (h : perform cfg t op s = some x)
    (hop : ∀ q tbuf, op ≠ .asyncWrite q tbuf) (hN : s.NoneWritten) : x.2.NoneWritten := by
  intro n hn ev hev
  rw [perform_hist h, List.mem_append] at hev
  rcases hev with hev | hev
  · rw [writtenOn_logs hop hev]
    simp
  · exact hN n (connection_perform h hn) ev hev

/-- Writes are recorded with the number of a connection there has been. -/
def Session.Numbered (s : Session) : Prop :=
  ∀ ev ∈ s.hist, ∀ n, ev.writtenOn = some n → n ≤ s.connNo

/-- No operation records a write under the number of a connection to come. -/
theorem numbered_perform {op : Op} {x : op.Res × Session} (h : perform cfg t op s = some x)
    (hN : s.Numbered) : x.2.Numbered := by
  have hno : x.2.connNo = s.connNo := perform_same (f := .connNo) h (by
    cases op <;> simp)
  intro ev hev n hn
  rw [hno]
  rw [perform_hist h, List.mem_append] at hev
  rcases hev with hev | hev
  · by_cases hop : ∃ q tbuf, op = .asyncWrite q tbuf
    · obtain ⟨q, tbuf, rfl⟩ := hop
      rw [Op.logs, List.mem_singleton] at hev
      subst hev
      have hconn : (if s.isConnected then some s.connNo else none) = some n := hn
      split at hconn
      · cases hconn
        exact Nat.le_refl _
      · cases hconn
    · rw [writtenOn_logs (fun q tbuf heq => hop ⟨q, tbuf, heq⟩) hev] at hn
      cases hn
  · exact hN ev hev n hn

/-- The environment opens connections, each with a new number, and closes none. -/
theorem connection_env {e : Env} (h : e.perform cfg s = some s') :
    (s'.connNo = s.connNo ∧ s'.connection = s.connection) ∨
      (s'.connNo = s.connNo + 1 ∧ s'.connection = some (s.connNo + 1)) := by
  cases e with
  | complete io raw er =>
      obtain ⟨-, rfl⟩ := Env.perform_complete h
      unfold Session.connectDone
      split
      · exact .inr ⟨rfl, rfl⟩
      · exact .inl ⟨rfl, rfl⟩
  | expire tm =>
      obtain ⟨-, rfl⟩ := Env.perform_expire h
      exact .inl ⟨rfl, rfl⟩
  | elapse us => cases h; exact .inl ⟨rfl, rfl⟩
  | submit body => cases h; exact .inl ⟨rfl, rfl⟩
  | reply a => cases h; exact .inl ⟨rfl, rfl⟩

/-- The environment records no write, and connections are numbered upwards. -/
theorem numbered_env {e : Env} (h : e.perform cfg s = some s') (hN : s.Numbered) : s'.Numbered := by
  intro ev hev n hn
  have hle : s.connNo ≤ s'.connNo := by
    rcases connection_env h with ⟨hno, -⟩ | ⟨hno, -⟩ <;> omega
  rw [env_hist h, List.mem_append] at hev
  rcases hev with hev | hev
  · rw [(env_logs_silent hev).1] at hn
    cases hn
  · exact Nat.le_trans (hN ev hev n hn) hle

/-- On a connection just opened nothing has been written. -/
theorem noneWritten_env {e : Env} (h : e.perform cfg s = some s') (hi : s.Numbered)
    (hN : s.NoneWritten) : s'.NoneWritten := by
  intro n hn ev hev hw
  rw [env_hist h, List.mem_append] at hev
  rcases hev with hev | hev
  · rw [(env_logs_silent hev).1] at hw
    cases hw
  · have hn : s'.connection = some n := hn
    rcases connection_env h with ⟨-, hconn⟩ | ⟨-, hconn⟩
    · exact hN n (hconn ▸ hn) ev hev hw
    · rw [hconn, Option.some.injEq] at hn
      have hle := hi ev hev n hw
      omega

/-! ## The contract on the io thread -/

/-- The `handle_connect` that runs has been taken up at this point of the record. -/
def Session.Begun (s : Session) : Prop :=
  s.running = some (.handleConnect .success) ∧
    ∃ h₂ h₃, s.hist = h₂ ++ .started (.handleConnect .success) :: h₃ ∧
      ∀ ev ∈ h₂, ev.isStart = false

/-- What other threads and the environment may do to the io thread that is about to bind. -/
structure BindRelies (s s' : Session) : Prop where
  running : s'.running = s.running
  hist : ∃ l, s'.hist = l ++ s.hist ∧ ∀ ev ∈ l, ev.isStart = false
  heap : s.heap.length ≤ s'.heap.length
  kind : ∀ q, q < s.heap.length → (s'.pdu q).commandId = (s.pdu q).commandId
  pdu2send : s'.pdu2send .io = s.pdu2send .io
  owner : s.owner .writeMutex = some .io → s'.owner .writeMutex = some .io
  txQ : s.owner .writeMutex = some .io → s'.txQ = s.txQ
  noneWritten : s.owner .writeMutex = some .io → s.NoneWritten → s'.NoneWritten

/-- What the io thread relies on may happen any number of times. -/
theorem BindRelies.trans {s₁ s₂ s₃ : Session} (h : BindRelies s₁ s₂) (h' : BindRelies s₂ s₃) :
    BindRelies s₁ s₃ where
  running := h'.running.trans h.running
  hist := by
    obtain ⟨l, hl, hsilent⟩ := h.hist
    obtain ⟨l', hl', hsilent'⟩ := h'.hist
    refine ⟨l' ++ l, by rw [hl', hl, List.append_assoc], fun ev hev => ?_⟩
    exact (List.mem_append.mp hev).elim (hsilent' ev) (hsilent ev)
  heap := Nat.le_trans h.heap h'.heap
  kind q hq := (h'.kind q (Nat.lt_of_lt_of_le hq h.heap)).trans (h.kind q hq)
  pdu2send := h'.pdu2send.trans h.pdu2send
  owner ho := h'.owner (h.owner ho)
  txQ ho := (h'.txQ (h.owner ho)).trans (h.txQ ho)
  noneWritten ho hN := h'.noneWritten (h.owner ho) (h.noneWritten ho hN)

/-- **The contract on the io thread**: when `handle_connect` returns it has bound first. -/
def binding (cfg : Params) : Focus (system cfg) where
  thread := .io
  guard := bindGoesFirst.also (discipline cfg)
  inv s := s.Numbered
  fact _ _ := True
  rely := BindRelies
  idle s := s.running = some (.handleConnect .success) → s.BoundFirst
  rely_refl _ := ⟨rfl, ⟨[], rfl, fun _ h => by cases h⟩, Nat.le_refl _, fun _ _ => rfl, rfl, id,
    fun _ => rfl, fun _ => id⟩
  rely_trans _ _ _ := BindRelies.trans

/-- **Another thread's operation stays within what the io thread relies on.** -/
theorem bindRelies_perform {op : Op} {x : op.Res × Session} (h : perform cfg t op s = some x)
    (ht : t ≠ .io) (hm : op.mayRun t = true) (hk : Known t op s) : BindRelies s x.2 where
  running := perform_running h
  hist := ⟨_, perform_hist h, fun _ => isStart_logs⟩
  heap := heap_perform h
  kind q hq := by
    obtain ⟨n, hn⟩ := pdu_perform_number h hq
    rw [hn]
  pdu2send := (perform_local h (Ne.symm ht)).1
  owner := owner_perform h hk (Ne.symm ht)
  txQ ho := by
    have hio := Op.onIo_of_ne hm ht
    -- the io thread is in the critical section, so this thread is not
    have hother : s.owner .writeMutex ≠ some t := by
      rw [ho]
      simpa using Ne.symm ht
    refine perform_same (f := .txQ) h fun hw => ?_
    cases op with
    | txPush q l => exact hother hk.1
    | txPop => exact hother hk.1
    | txClear l => cases hio
    | txPushBackLastPop => cases hio
    | _ => simp at hw
  noneWritten ho := by
    refine noneWritten_perform h ?_
    rintro q tbuf rfl
    have hown : s.owner .writeMutex = some t := hk.1
    rw [ho, Option.some.injEq] at hown
    exact ht hown.symm

/-- The io thread can rely on the environment. -/
theorem bindRelies_env {e : Env} (h : e.perform cfg s = some s') (hi : s.Numbered) :
    BindRelies s s' where
  running := env_same (f := .running) h (by simp)
  hist := ⟨_, env_hist h, fun _ hev => (env_logs_silent hev).2⟩
  heap := (pdu_env h).1
  kind q hq := congrArg _ ((pdu_env h).2 q hq)
  pdu2send := congrFun (env_same (f := .pdu2send) h (by simp)) _
  owner ho := by
    have hown : s'.owner = s.owner := env_same (f := .owner) h (by simp)
    rw [hown]
    exact ho
  txQ _ := env_same (f := .txQ) h (by simp)
  noneWritten _ := noneWritten_env h hi

/-- Another thread's job stays within it too. -/
theorem bindRelies_take {j : Job} (h : j.take s = some s') (hj : j.thread ≠ .io) :
    BindRelies s s' := by
  -- taking up a job changes nothing but the log
  have hrefl : ∀ l, (∀ ev ∈ l, ev.isStart = false ∧ ev.writtenOn = none) →
      BindRelies s { s with hist := l ++ s.hist } := fun l hl =>
    { running := rfl
      hist := ⟨l, rfl, fun ev hev => (hl ev hev).1⟩
      heap := Nat.le_refl _
      kind := fun _ _ => rfl
      pdu2send := rfl
      owner := id
      txQ := fun _ => rfl
      noneWritten := fun _ hN n hn ev hev => by
        rcases List.mem_append.mp hev with hev | hev
        · rw [(hl ev hev).2]
          simp
        · exact hN n hn ev hev }
  cases j with
  | handler q => exact absurd rfl hj
  | send => cases h; exact hrefl [] fun _ hev => by cases hev
  | receive => cases h; exact hrefl [] fun _ hev => by cases hev
  | stop =>
      cases h
      refine hrefl [.stopCalled] fun ev hev => ?_
      rw [List.mem_singleton.mp hev]
      exact ⟨rfl, rfl⟩

/-- What the other threads do is a step of the focus on the io thread. -/
theorem steps_binding : (binding cfg).Steps where
  op t op s r hi hg hx := by
    obtain ⟨-, hx⟩ := perform_of_exec hx
    exact ⟨numbered_perform hx hi, fun ht => bindRelies_perform hx ht hg.2.2.1 hg.2.2.2⟩
  env e s s' hi hx := ⟨numbered_env hx hi, bindRelies_env hx hi⟩
  take j s s' hi _ hx := by
    refine ⟨fun ev hev n hn => ?_, bindRelies_take hx⟩
    have hno : s'.connNo = s.connNo := take_same (f := .connNo) hx (by simp)
    rw [hno]
    refine hi ev (mem_hist_of_take hx hev (fun q heq => ?_) fun heq => ?_) n hn
    · subst heq
      cases hn
    · subst heq
      cases hn

/-! ## Assertions on the way to the bind request -/

namespace Session

/-- The running `handle_connect` has constructed the bind request `r`. -/
structure Binds (r : Ref) (s : Session) : Prop where
  begun : s.Begun
  lt : r < s.heap.length
  kind : (s.pdu r).commandId.isBind = true

/-- The running `handle_connect` is about to write the bind request `r`: it holds `writeMutex`, and
nothing has been written on the connection. -/
structure Reserved (r : Ref) (s : Session) : Prop where
  binds : s.Binds r
  owner : s.owner .writeMutex = some .io
  noneWritten : s.NoneWritten

/-- The bind request `r` is the only PDU in the queue while `handle_connect` is about to write it.
-/
structure Alone (r : Ref) (s : Session) : Prop where
  reserved : s.Reserved r
  mem : r ∈ s.txQ
  only : ∀ q, q ∈ s.txQ → q = r

end Session

/-- The `handle_connect` that runs stays the one taken up last, if no other handler is started. -/
theorem begun_extend {l : List Event} (hrun : s'.running = s.running) (hhist : s'.hist = l ++ s.hist)
    (hl : ∀ ev ∈ l, ev.isStart = false) (hB : s.Begun) : s'.Begun := by
  obtain ⟨hr, h₂, h₃, hh, hsilent⟩ := hB
  refine ⟨hrun.trans hr, l ++ h₂, h₃, ?_, fun ev hev => ?_⟩
  · rw [hhist, hh, List.append_assoc]
  · exact (List.mem_append.mp hev).elim (hl ev) (hsilent ev)

/-- That it has bound first stays on record, if no other handler is started. -/
theorem boundFirst_extend {l : List Event} (hhist : s'.hist = l ++ s.hist)
    (hl : ∀ ev ∈ l, ev.isStart = false) (hB : s.BoundFirst) : s'.BoundFirst := by
  obtain ⟨h₁, r, tbuf, st, conn, h₂, h₃, hh, hbind, hsilent, hfirst⟩ := hB
  refine ⟨l ++ h₁, r, tbuf, st, conn, h₂, h₃, ?_, hbind, fun ev hev => ?_, hfirst⟩
  · rw [hhist, hh, List.append_assoc]
  · rw [List.append_assoc] at hev
    exact (List.mem_append.mp hev).elim (hl ev) (hsilent ev)

/-- No operation takes up another handler. -/
theorem begun_perform {op : Op} {x : op.Res × Session} (h : perform cfg t op s = some x)
    (hB : s.Begun) : x.2.Begun :=
  begun_extend (perform_running h) (perform_hist h)
    (fun _ => isStart_logs) hB

/-- No operation makes the bind request another PDU. -/
theorem binds_perform {r : Ref} {op : Op} {x : op.Res × Session} (h : perform cfg t op s = some x)
    (hB : s.Binds r) : x.2.Binds r := by
  obtain ⟨n, hn⟩ := pdu_perform_number h hB.lt
  refine ⟨begun_perform h hB.begun, Nat.lt_of_lt_of_le hB.lt (heap_perform h), ?_⟩
  rw [hn]
  exact hB.kind

/-- No operation takes back that the session has bound first. -/
theorem boundFirst_perform {op : Op} {x : op.Res × Session} (h : perform cfg t op s = some x)
    (hB : s.BoundFirst) : x.2.BoundFirst :=
  boundFirst_extend (perform_hist h) (fun _ => isStart_logs) hB

/-! Each of them is stable. -/

/-- The other threads let the `handle_connect` that runs go on. -/
theorem BindRelies.begun (h : BindRelies s s') (hB : s.Begun) : s'.Begun := by
  obtain ⟨l, hl, hsilent⟩ := h.hist
  exact begun_extend h.running hl hsilent hB

/-- The other threads leave the bind request as it was constructed. -/
theorem BindRelies.binds {r : Ref} (h : BindRelies s s') (hB : s.Binds r) : s'.Binds r :=
  ⟨h.begun hB.begun, Nat.lt_of_lt_of_le hB.lt h.heap, by rw [h.kind r hB.lt]; exact hB.kind⟩

/-- The other threads write nothing while the io thread holds `writeMutex`. -/
theorem BindRelies.reserved {r : Ref} (h : BindRelies s s') (hR : s.Reserved r) : s'.Reserved r :=
  ⟨h.binds hR.binds, h.owner hR.owner, h.noneWritten hR.owner hR.noneWritten⟩

/-- The other threads leave the bind request alone in the queue. -/
theorem BindRelies.alone {r : Ref} (h : BindRelies s s') (hA : s.Alone r) : s'.Alone r := by
  have hq := h.txQ hA.reserved.owner
  exact ⟨h.reserved hA.reserved, by rw [hq]; exact hA.mem, by rw [hq]; exact hA.only⟩

/-- The other threads cannot take back that the session has bound first. -/
theorem BindRelies.boundFirst (h : BindRelies s s') (hB : s.BoundFirst) : s'.BoundFirst := by
  obtain ⟨l, hl, hsilent⟩ := h.hist
  exact boundFirst_extend hl hsilent hB

/-- The bind request under construction is stable under the other threads. -/
theorem stable_binds {r : Ref} : (binding cfg).contract.Stable .io (Binds r) :=
  Focus.stable fun _ _ _ _ hr => hr.binds

/-- The bind request about to be written is stable under the other threads. -/
theorem stable_reserved {r : Ref} : (binding cfg).contract.Stable .io (Reserved r) :=
  Focus.stable fun _ _ _ _ hr => hr.reserved

/-- That the session has bound first is stable under the other threads. -/
theorem stable_boundFirst : (binding cfg).contract.Stable .io BoundFirst :=
  Focus.stable fun _ _ _ _ hr => hr.boundFirst

/-- Any code leaves `handle_connect` the handler that runs. -/
theorem triple_begun {α : Type} (p : Code α) :
    (binding cfg).contract.Triple .io Begun p fun _ => Begun :=
  Focus.Steps.triple_any steps_binding (Focus.stable fun _ _ _ _ hr => hr.begun)
    (fun _ _ _ _ hB _ hx => ⟨trivial, begun_perform (perform_of_exec hx).2 hB⟩) p

/-- Any code leaves the bind request what it is. -/
theorem triple_binds {α : Type} {r : Ref} (p : Code α) :
    (binding cfg).contract.Triple .io (Binds r) p fun _ => Binds r :=
  Focus.Steps.triple_any steps_binding stable_binds
    (fun _ _ _ _ hB _ hx => ⟨trivial, binds_perform (perform_of_exec hx).2 hB⟩) p

/-- Any code leaves it on record that the session has bound first. -/
theorem triple_boundFirst {α : Type} (p : Code α) :
    (binding cfg).contract.Triple .io BoundFirst p fun _ => BoundFirst :=
  Focus.Steps.triple_any steps_binding stable_boundFirst
    (fun _ _ _ _ hB _ hx => ⟨trivial, boundFirst_perform (perform_of_exec hx).2 hB⟩) p

/-! ## From the bind request to `async_write` -/

/-- The operations between the pop and `async_write`: they keep the mutex, and write nothing. -/
def Op.keepsReserved : Op → Bool
  | .asyncWrite _ _ | .lock .writeMutex | .unlock .writeMutex => false
  | _ => true

/-- Code that gives neither `writeMutex` nor the connection away keeps the bind request about to be
written. -/
theorem triple_keepsReserved {α : Type} {r : Ref} {p : Code α}
    (hp : p.Uses fun op => op.keepsReserved = true) :
    (binding cfg).contract.Triple .io (Reserved r) p fun _ => Reserved r := by
  refine Focus.Steps.triple_uses steps_binding hp stable_reserved fun op s x hop _ hR _ hx => ?_
  obtain ⟨-, hx⟩ := perform_of_exec hx
  refine ⟨trivial, binds_perform hx hR.binds, ?_, noneWritten_perform hx ?_ hR.noneWritten⟩
  · -- only `writeMutex` matters, and these operations are about the other two
    by_cases hw : Field.owner ∈ op.writes
    · cases op with
      | lock m =>
          have hm : Mutex.writeMutex ≠ m := by
            rintro rfl
            cases hop
          obtain ⟨-, rfl⟩ := perform_lock hx
          show (Session.onWriteMutex _ m _ _).owner .writeMutex = some .io
          rw [Session.onWriteMutex, if_neg hm.symm]
          exact (Function.update_of_ne hm _ _).trans hR.owner
      | unlock m =>
          have hm : Mutex.writeMutex ≠ m := by
            rintro rfl
            cases hop
          cases hx
          show (Session.onWriteMutex _ m _ _).owner .writeMutex = some .io
          rw [Session.onWriteMutex, if_neg hm.symm]
          exact (Function.update_of_ne hm _ _).trans hR.owner
      | _ => simp at hw
    · have hsame : x.2.owner = s.owner := perform_same (f := .owner) hx hw
      rw [hsame]
      exact hR.owner
  -- none of these operations is a write
  · rintro q tbuf rfl
    cases hop

/-- The bind request is written first. -/
theorem triple_asyncWrite_bind {r : Ref} (tbuf : Pdu) : (binding cfg).contract.Triple .io
    (Reserved r) (call (.asyncWrite r tbuf)) fun _ => BoundFirst := by
  refine Focus.Steps.triple_op steps_binding stable_reserved (fun _ => stable_boundFirst)
    fun s x _ hR hg hx => ?_
  obtain ⟨-, hx⟩ := perform_of_exec hx
  obtain ⟨-, h₂, h₃, hh, hsilent⟩ := hR.binds.begun
  have htbuf : tbuf = s.pdu r := hg.2.2.2.2.2
  refine ⟨trivial, [], r, tbuf, s.currentState, s.connection, h₂, h₃, ?_, ?_, hsilent, ?_⟩
  · rw [perform_hist hx, hh]
    rfl
  · rw [htbuf]
    exact hR.binds.kind
  · rw [← hh]
    exact hR.noneWritten

/-- `write_pdu` takes the bind request, which is all the queue holds. -/
theorem triple_writePdu_bind {r : Ref} : (binding cfg).contract.Triple .io (Alone r)
    (writePdu cfg) fun _ => BoundFirst := by
  unfold writePdu
  refine Contract.Triple.bind (Q := fun o s => o = some r ∧ s.Reserved r) ?_ fun o => ?_
  · refine Focus.Steps.triple_op steps_binding (Focus.stable fun _ _ _ _ hr => hr.alone)
      (fun _ => Contract.Stable.const.and stable_reserved) fun s x _ hA _ hx => ?_
    obtain ⟨-, hx⟩ := perform_of_exec hx
    -- the only element of the queue is the one that is popped
    have hpop : s.txQ.pop.1 = some r := by
      rcases hp : s.txQ.pop with ⟨_ | q, q'⟩
      · exact absurd hA.mem (PrioQ.empty_iff_forall_not_mem.mp (PrioQ.pop_none hp).1 r)
      · rw [hA.only q (PrioQ.mem_iff_pop.mpr (.inl (by rw [hp])))]
    have hB := binds_perform hx hA.reserved.binds
    have hN := noneWritten_perform hx (by simp) hA.reserved.noneWritten
    have howner : x.2.owner = s.owner := perform_same (f := .owner) hx (by simp)
    refine ⟨trivial, ?_, hB, ?_, hN⟩
    · cases hx
      exact hpop
    · rw [howner]
      exact hA.reserved.owner
  cases o with
  | none => exact fun s _ hs => by cases hs.1
  | some q =>
      by_cases hq : q = r
      · subst hq
        refine Contract.Triple.pre (P := Reserved q) ?_ fun _ _ hs => hs.2
        -- nothing between the pop and `async_write` touches what is reserved
        have hseq : seqNumGenNext.Uses fun op => op.keepsReserved = true := by
          unfold seqNumGenNext
          refine (uses_call (by rfl)).bind fun _ => (uses_call (by rfl)).bind fun mVal => ?_
          split
          · exact (uses_call (by rfl)).bind fun _ => (uses_call (by rfl)).bind fun _ => trivial
          · exact (uses_call (by rfl)).bind fun _ => (uses_call (by rfl)).bind fun _ => trivial
        have hset : ∀ n, (call (.setSeq q n)).Uses fun op => op.keepsReserved = true :=
          fun n => uses_call (by rfl)
        have hthrottle : (throttleCheck cfg).Uses fun op => op.keepsReserved = true :=
          (uses_call (by rfl)).bind fun _ => (uses_call (by rfl)).bind fun _ =>
            (Prog.Uses.when (uses_call (by rfl))).bind fun _ => uses_call (by rfl)
        refine (triple_keepsReserved (uses_call (by rfl))).bind fun p => ?_
        refine (triple_keepsReserved (hseq.bind hset).when).bind fun _ => ?_
        refine (triple_keepsReserved (uses_call (by rfl))).bind fun tbuf => ?_
        exact (triple_keepsReserved hthrottle).bind fun _ => triple_asyncWrite_bind tbuf
      · intro s _ hs
        rw [Option.some.injEq] at hs
        exact absurd hs.1 hq

/-- **`do_write` of the bind request** writes it, where it can go first. -/
theorem triple_doWrite_bind {r : Ref} : (binding cfg).contract.Triple .io (Binds r)
    (doWrite cfg r .SESSION) fun _ => BoundFirst := by
  unfold doWrite
  refine (triple_binds _).bind fun _ => ?_
  refine Contract.Triple.bind (Q := fun busy s => busy = false ∧ s.Reserved r ∧ s.txQ.empty = true)
    ?_ fun busy => ?_
  · -- the guard says that the queue is empty
    have hstable : ∀ b : Prop, (binding cfg).contract.Stable .io fun s =>
        b ∧ s.Reserved r ∧ s.txQ.empty = true := fun b =>
      Focus.stable fun s s' _ _ hr hs =>
        ⟨hs.1, hr.reserved hs.2.1, by rw [hr.txQ hs.2.1.owner]; exact hs.2.2⟩
    refine Contract.Triple.bind (Q := fun e s => e = true ∧ s.Reserved r ∧ s.txQ.empty = true) ?_
      fun e => ?_
    · refine Focus.Steps.triple_op steps_binding stable_binds (fun _ => hstable _)
        fun s x _ hB hg hx => ?_
      obtain ⟨-, hx⟩ := perform_of_exec hx
      obtain ⟨hempty, hN⟩ := hg.1 rfl rfl hB.begun.1
      have howner : x.2.owner = s.owner := perform_same (f := .owner) hx (by simp)
      have hq : x.2.txQ = s.txQ := perform_same (f := .txQ) hx (by simp)
      refine ⟨trivial, ?_, ⟨binds_perform hx hB, ?_, noneWritten_perform hx (by simp) hN⟩, ?_⟩
      · cases hx
        exact hempty
      · rw [howner]
        exact hg.2.2.2.1
      · rw [hq]
        exact hempty
    · refine (Contract.Triple.ret (Q := fun (busy : Bool) (s : Session) =>
        busy = false ∧ s.Reserved r ∧ s.txQ.empty = true) (hstable _)).pre fun s _ hs => ⟨?_, hs.2⟩
      rw [hs.1]
      rfl
  -- the push puts the bind request on an empty queue
  refine Contract.Triple.bind (Q := fun _ s => busy = false ∧ s.Alone r) ?_ fun _ => ?_
  · refine Focus.Steps.triple_op steps_binding (Focus.stable fun s s' _ _ hr hs => ?_)
      (fun _ => Focus.stable fun _ _ _ _ hr hs => ⟨hs.1, hr.alone hs.2⟩) fun s x _ hs _ hx => ?_
    · exact ⟨hs.1, hr.reserved hs.2.1, by rw [hr.txQ hs.2.1.owner]; exact hs.2.2⟩
    obtain ⟨-, hx⟩ := perform_of_exec hx
    obtain ⟨hbusy, hR, hempty⟩ := hs
    have howner : x.2.owner = s.owner := perform_same (f := .owner) hx (by simp)
    have hq : x.2.txQ = s.txQ.push r .SESSION := by
      cases hx
      rfl
    refine ⟨trivial, hbusy, ⟨binds_perform hx hR.binds, ?_,
      noneWritten_perform hx (by simp) hR.noneWritten⟩, ?_, fun q hmem => ?_⟩
    · rw [howner]
      exact hR.owner
    · rw [hq]
      exact PrioQ.mem_push.mpr (.inr rfl)
    · rw [hq] at hmem
      exact (PrioQ.mem_push.mp hmem).resolve_left (PrioQ.empty_iff_forall_not_mem.mp hempty q)
  cases busy with
  | true => exact fun s _ hs => by cases hs.1
  | false =>
      refine Contract.Triple.pre (P := Alone r) ?_ fun _ _ hs => hs.2
      exact triple_writePdu_bind.bind fun _ => triple_boundFirst _

/-! ## Soundness -/

/-- The configured bind request is one. -/
theorem isBind_bindCommandId (b : BindType) : (bindCommandId b).isBind = true := by
  cases b <;> rfl

/-- **`handle_connect`** binds first. -/
theorem triple_handleConnect_bind : (binding cfg).contract.Triple .io Begun
    (handleConnect cfg .success) fun _ => BoundFirst := by
  unfold handleConnect
  rw [if_pos rfl]
  refine (triple_begun _).bind fun _ => Contract.Triple.bind (Q := fun _ => BoundFirst) ?_
    fun _ => triple_boundFirst _
  refine (triple_begun _).bind fun n => Contract.Triple.bind ?_ fun r => triple_doWrite_bind
  refine Focus.Steps.triple_op steps_binding (Focus.stable fun _ _ _ _ hr => hr.begun)
    (fun _ => stable_binds) fun s x _ hB _ hx => ?_
  obtain ⟨-, hx⟩ := perform_of_exec hx
  obtain ⟨hlt, hpdu⟩ := perform_newPdu hx
  refine ⟨trivial, begun_perform hx hB, hlt, ?_⟩
  rw [hpdu]
  exact isBind_bindCommandId _

/-- Code of another handler. -/
theorem triple_otherHandler {α : Type} (p : Code α) : (binding cfg).contract.Triple .io
    (fun s => s.running ≠ some (.handleConnect .success)) p
    fun _ s => s.running ≠ some (.handleConnect .success) := by
  refine Focus.Steps.triple_any steps_binding (Focus.stable fun s s' _ _ hr hs => ?_)
    (fun op s x _ hs _ hx => ?_) p
  · rw [hr.running]
    exact hs
  · have hrun : x.2.running = s.running := perform_running (perform_of_exec hx).2
    refine ⟨trivial, ?_⟩
    rw [hrun]
    exact hs

variable {p : Persisted} {now : Nat} {c : Machine}

/-- **The focus on binding is sound**: the other threads do only what the io thread relies on. -/
theorem binding_sound (cfg : Params) (p : Persisted) (now : Nat) :
    (binding cfg).contract.Sound (Machine.init p now) := by
  refine sound_of_handlers steps_binding rfl ?_ (fun hrun => by cases hrun) ?_ ?_
  · intro ev hev n hn
    rw [List.mem_singleton.mp hev] at hn
    cases hn
  · exact Focus.stable fun s s' _ _ hr hs hrun => hr.boundFirst (hs (hr.running ▸ hrun))
  · intro q s s' _ hi' _ _ hx
    obtain ⟨-, rfl⟩ := Job.take_handler hx
    by_cases hq : q = .handleConnect .success
    · subst hq
      have hbind : (binding cfg).contract.Triple .io Begun (handleConnect cfg .success)
          fun _ => (binding cfg).idle :=
        triple_handleConnect_bind.post fun _ _ _ hB _ => hB
      exact hbind _ hi' ⟨rfl, [], s.hist, rfl, fun _ hev => by cases hev⟩
    · refine ((triple_otherHandler _).post fun _ _ _ hne hrun => absurd hrun hne) _ hi' ?_
      exact fun hrun => hq (Option.some.inj hrun)

/-- **Every connection binds first**, in every run in which the bind request can go first. -/
theorem binds_first (h : Runs cfg bindGoesFirst p now c) (hio : c.Idle .io)
    (hrun : c.shared.running = some (.handleConnect .success)) : c.shared.BoundFirst :=
  (binding_sound cfg p now).reach_idle h.disciplined hio rfl hrun

/-- The first connection of a process that starts with empty queues. -/
theorem binds_first_fresh : (Machine.after sampleParams .none Schedule.connect).shared.BoundFirst :=
  binds_first (runs_under (g := bindGoesFirst) (by decide +kernel))
    (by decide +kernel) (by decide +kernel)

/-- An earlier process has left a message in the queue. -/
def leftover : Persisted := { Persisted.none with message := [⟨.SubmitSm, 0, 1, .empty, none⟩] }

/-- Without the condition no bind request is written: the queue is not empty. -/
theorem leftover_never_binds : ¬∀ (cfg : Params) (p : Persisted) (now : Nat) (c : Machine),
    Runs cfg Guard.free p now c → c.Idle .io →
      c.shared.running = some (.handleConnect .success) → c.shared.BoundFirst := by
  intro h
  obtain ⟨h₁, r, tbuf, st, conn, h₂, h₃, hh, -⟩ := h sampleParams leftover 0
    (Machine.after sampleParams leftover Schedule.connect) (runs_after _ _ _) (by decide +kernel)
    (by decide +kernel)
  have hnone : ∀ ev ∈ (Machine.after sampleParams leftover Schedule.connect).shared.hist,
      ev.isWrite = false := by
    decide +kernel
  have hwrite := hnone (.wrote r tbuf st conn) (by rw [hh]; simp)
  cases hwrite

end KissSmpp
