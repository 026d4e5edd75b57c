import KissSmpp.Session.Handlers

/-! # Responses echo the request's number

The handlers of the peer's requests copy the request's number into the response. `write_pdu` takes
every number up to `SequenceNumber::Min` for one not assigned yet, though, and replaces it: a request
with that very number is answered under another one. All other numbers are echoed. -/

namespace KissSmpp

open Interleave Queue

variable {cfg : Params} {t : Tid} {s s' : Session}

/-- **The PDU echoes the request it answers**, as far as `write_pdu` takes the number of that request
for assigned. -/
def Pdu.Echo (q : Pdu) : Prop :=
  ∀ n, q.answers = some n → SequenceNumber.Min < n → q.sequenceNumber = n

namespace Session

/-- **Every response encoded for a request with the number `n` carries `n`.** -/
def Echoes (s : Session) (n : Nat) : Prop :=
  ∀ r tbuf st conn, .wrote r tbuf st conn ∈ s.hist → tbuf.answers = some n → tbuf.sequenceNumber = n

/-- What runs keep: the objects, and what has been encoded of them, echo. -/
structure Echoing (s : Session) : Prop where
  heap : ∀ q, q ∈ s.heap → q.Echo
  wrote : ∀ r tbuf st conn, .wrote r tbuf st conn ∈ s.hist → tbuf.Echo

/-- What a reference denotes echoes, also outside the heap. -/
theorem Echoing.pdu (hE : s.Echoing) (r : Ref) : (s.pdu r).Echo := by
  unfold Session.pdu
  rw [List.getD_eq_getElem?_getD]
  cases hr : s.heap[r]? with
  | none =>
      intro n hn
      cases hn
  | some q => exact hE.heap q (List.mem_of_getElem? hr)

end Session

open Session

/-- An object was there before, has been constructed, or had its number set. -/
theorem mem_heap_perform {op : Op} {x : op.Res × Session} (h : perform cfg t op s = some x) {q : Pdu}
    (hq : q ∈ x.2.heap) :
    q ∈ s.heap ∨ op = .newPdu q ∨
      ∃ r n, op = .setSeq r n ∧ q = { s.pdu r with sequenceNumber := n } := by
  by_cases hw : Field.heap ∈ op.writes
  · cases op with
    | newPdu p =>
        cases h
        rcases List.mem_append.mp hq with hq | hq
        · exact .inl hq
        · exact .inr (.inl (congrArg _ (List.mem_singleton.mp hq).symm))
    | setSeq r n =>
        cases h
        obtain ⟨i, hi⟩ := List.mem_iff_getElem?.mp hq
        rw [List.getElem?_modify] at hi
        cases hp : s.heap[i]? with
        | none =>
            rw [hp] at hi
            cases hi
        | some p =>
            have hi : (if r = i then { p with sequenceNumber := n } else p) = q := by
              rw [hp] at hi
              exact Option.some.inj hi
            -- the object given a number, or one beside it
            by_cases hri : r = i
            · subst hri
              rw [if_pos rfl] at hi
              refine .inr (.inr ⟨r, n, rfl, ?_⟩)
              rw [← hi, Session.pdu, List.getD_eq_getElem?_getD, hp]
              rfl
            · rw [if_neg hri] at hi
              exact .inl (hi ▸ List.mem_of_getElem? hp)
    | _ => simp at hw
  · have hheap : x.2.heap = s.heap := perform_same (f := .heap) h hw
    exact .inl (hheap ▸ hq)

/-- **Every operation keeps the echo**: only numbers that pass for unassigned are set. -/
theorem echoing_perform {op : Op} {x : op.Res × Session} (hE : s.Echoing) (hk : Known t op s)
    (h : perform cfg t op s = some x) : x.2.Echoing := by
  refine ⟨fun q hq => ?_, fun r tbuf st conn hw => ?_⟩
  · rcases mem_heap_perform h hq with hq | rfl | ⟨r, n, rfl, rfl⟩
    · exact hE.heap q hq
    · exact fun n hn _ => hk n hn
    · -- a response to a number above `Min` is not renumbered
      intro m hm hlt
      have hseq := hE.pdu r m hm hlt
      have hle : (s.pdu r).sequenceNumber ≤ SequenceNumber.Min := hk.2.2
      rw [hseq] at hle
      exact absurd hlt (Nat.not_lt.mpr hle)
  · rcases wrote_perform h hw with hw | rfl
    · exact hE.wrote r tbuf st conn hw
    · rw [hk.2.2]
      exact hE.pdu r

/-- A submitted PDU answers no request. -/
theorem echoing_env {e : Env} (hE : s.Echoing) (h : e.perform cfg s = some s') : s'.Echoing := by
  refine ⟨fun q hq => ?_, fun r tbuf st conn hw => ?_⟩
  · have hheap : q ∈ s.heap ∨ q.answers = none := by
      cases e with
      | submit body =>
          cases h
          rcases List.mem_append.mp hq with hq | hq
          · exact .inl hq
          · rw [List.mem_singleton.mp hq]
            exact .inr rfl
      | complete io raw er =>
          obtain ⟨-, rfl⟩ := Env.perform_complete h
          left
          unfold Session.connectDone at hq
          split at hq <;> exact hq
      | expire tm =>
          obtain ⟨-, rfl⟩ := Env.perform_expire h
          exact .inl hq
      | elapse us => cases h; exact .inl hq
      | reply a => cases h; exact .inl hq
    rcases hheap with hq | hq
    · exact hE.heap q hq
    · intro n hn
      rw [hq] at hn
      cases hn
  · exact hE.wrote r tbuf st conn (mem_hist_of_env h hw (by simp) (by simp))

variable {g : Guard Op Tid Session Job} {p : Persisted} {now : Nat} {c : Machine}

/-- The objects echo in every run. -/
theorem Runs.echoing (h : Runs cfg g p now c) : c.shared.Echoing := by
  refine h.data ?_ (fun _ _ _ _ _ hE _ _ hk hx => echoing_perform hE hk hx)
    (fun _ _ _ _ hE hx => echoing_env hE hx) ?_
  · refine ⟨fun q hq n hn => ?_, fun r tbuf st conn hw => by simp [Session.init] at hw⟩
    -- the objects read back answer nothing
    have hheap : q ∈ p.heap := hq
    obtain ⟨q', -, rfl⟩ := List.mem_map.mp hheap
    cases hn
  · intro j s s' _ _ hE _ hx
    have hheap : s'.heap = s.heap := take_same (f := .heap) hx (by simp)
    refine ⟨fun q hq => hE.heap q (hheap ▸ hq), fun r tbuf st conn hw => ?_⟩
    exact hE.wrote r tbuf st conn (mem_hist_of_take hx hw (by simp) (by simp))

/-- The peer sends an `enquire_link` with the number `n` to a session that is bound. -/
def enquireLink (n : Nat) : List Step :=
  Schedule.bind ++ .env (.elapse 1000000) :: Schedule.receive ⟨16, CommandId.EnquireLink.value, ESME_ROK, n, [], true⟩

/-- A request of the peer with a number up to `SequenceNumber::Min` is answered under the next
number of the generator. -/
theorem renumbered_of_le {n : Nat} (hn : n ≤ SequenceNumber.Min) :
    ¬(Machine.after sampleParams .none (enquireLink n)).shared.Echoes n := by
  intro h
  have hwrote : ∃ st conn, Event.wrote 1 ⟨.EnquireLinkResp, ESME_ROK, 3, .empty, some n⟩ st conn ∈
      (Machine.after sampleParams .none (enquireLink n)).shared.hist := by
    refine ⟨.BOUND_TRX, some 1, ?_⟩
    have hcases : n = 0 ∨ n = 1 := Nat.le_one_iff_eq_zero_or_eq_one.mp hn
    rcases hcases with rfl | rfl
    · decide +kernel
    · decide +kernel
  obtain ⟨st, conn, hw⟩ := hwrote
  have hseq : 3 = n := h _ _ _ _ hw rfl
  have hmin : n ≤ 1 := hn
  omega

/-- **Responses echo the number of the request** exactly if that number is above
`SequenceNumber::Min`. -/
theorem responses_echo_iff (n : Nat) :
    (∀ (cfg : Params) (p : Persisted) (now : Nat) (c : Machine), Runs cfg Guard.free p now c →
      c.shared.Echoes n) ↔ SequenceNumber.Min < n := by
  constructor
  · intro h
    refine Nat.lt_of_not_le fun hn => ?_
    exact renumbered_of_le hn (h _ _ _ _ (runs_after sampleParams .none (enquireLink n)))
  · intro hn cfg p now c hc r tbuf st conn hw ha
    exact hc.echoing.wrote r tbuf st conn hw n ha hn

/-- A request with the smallest number that the protocol has, `1`, is not answered under this number. -/
theorem number_one_not_echoed : ¬∀ (n : Nat), SequenceNumber.Min ≤ n → n ≤ SequenceNumber.Max →
    ∀ (cfg : Params) (p : Persisted) (now : Nat) (c : Machine), Runs cfg Guard.free p now c →
      c.shared.Echoes n := by
  intro h
  exact renumbered_of_le (Nat.le_refl 1) (h 1 (by decide) (by decide) _ _ _ _
    (runs_after sampleParams .none (enquireLink 1)))

end KissSmpp
