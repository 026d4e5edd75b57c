import KissSmpp.Session.Handlers

/-! # PDUs on their way into the session

A PDU that a thread has in hand, or that waits in the sending buffer, has never been near the transmit
queue, and no other thread has it. So what enters the queue enters it for the first time, unless the
ageing sweep pushes it again. -/

namespace KissSmpp

open Interleave Queue

variable {cfg : Params} {t : Tid} {s s' : Session}

/-- **Fresh PDUs are apart**: from the queue and from each other. -/
structure Apart (s : Session) : Prop where
  queue : ∀ r, s.Fresh r → ¬s.Queued r
  hands : ∀ t u r, s.inHand t = some r → s.inHand u = some r → t = u
  buffer : ∀ t r, s.inHand t = some r → r ∉ s.sendingBuffer
  nodup : s.sendingBuffer.Nodup

/-- A PDU leaves the hands of a thread when it is pushed. -/
theorem not_fresh_of_push {r : Ref} {l : Level} {x : Unit × Session} (hA : Apart s)
    (h : perform cfg t (.txPush r l) s = some x) (hk : Known t (.txPush r l) s) : ¬x.2.Fresh r := by
  intro hx
  cases h
  rcases hk.2 with hin | ⟨-, -, haw⟩
  · rcases hx with ⟨u, hu⟩ | hx
    · by_cases hut : u = t
      · subst hut
        simp [Session.record] at hu
      · have hu : s.inHand u = some r := by simpa [Session.record, hut] using hu
        exact hut (hA.hands u t r hu hin)
    · exact hA.buffer t r hin hx
  · refine hA.queue r ?_ (.awaiting haw)
    rcases hx with ⟨u, hu⟩ | hx
    · by_cases hut : u = t
      · subst hut
        simp [Session.record] at hu
      · exact .inl ⟨u, by simpa [Session.record, hut] using hu⟩
    · exact .inr hx

/-- **Every operation keeps fresh PDUs apart.** -/
theorem apart_perform {op : Op} {x : op.Res × Session} (hi : Inv s) (hA : Apart s)
    (h : perform cfg t op s = some x) (hk : Known t op s) : Apart x.2 := by
  have hnewHand : ∀ u, s.inHand u ≠ some s.heap.length :=
    fun u hu => Nat.lt_irrefl _ (hi.fresh _ (.inl ⟨u, hu⟩))
  have hnewBuffer : s.heap.length ∉ s.sendingBuffer :=
    fun hmem => Nat.lt_irrefl _ (hi.fresh _ (.inr hmem))
  have hhead : ∀ u r, s.sendingBuffer.head? = some r → s.inHand u ≠ some r :=
    fun u r hr hu => hA.buffer u r hu (List.mem_of_mem_head? hr)
  -- an object is new, or it changes hands: from the buffer to the sender, or into the queue
  refine ⟨fun r hf hq => ?_, fun u v r hu hv => ?_, fun u r hu hmem => ?_, ?_⟩
  · rcases queued_perform h hk hq with hq | ⟨l, rfl⟩
    · rcases fresh_perform h hf with hf | ⟨rfl, -⟩
      · exact hA.queue r hf hq
      · exact absurd (hi.queued _ hq) (Nat.lt_irrefl _)
    · exact not_fresh_of_push hA h hk hf
  · rcases inHand_perform h hu with hu | ⟨rfl, rfl, -⟩ | ⟨rfl, hr, -⟩
    · rcases inHand_perform h hv with hv | ⟨-, rfl, -⟩ | ⟨-, hr, -⟩
      · exact hA.hands u v r hu hv
      · exact absurd hu (hnewHand u)
      · exact absurd hu (hhead u r hr)
    · rcases inHand_perform h hv with hv | ⟨rfl, -, -⟩ | ⟨rfl, -, -⟩
      · exact absurd hv (hnewHand v)
      · rfl
      · rfl
    · rcases inHand_perform h hv with hv | ⟨rfl, -, -⟩ | ⟨rfl, -, -⟩
      · exact absurd hv (hhead v r hr)
      · rfl
      · rfl
  · rcases sendingBuffer_perform h with ⟨hbuf, hop⟩ | ⟨hbuf, rfl⟩
    · rw [hbuf] at hmem
      rcases inHand_perform h hu with hu | ⟨-, rfl, -⟩ | ⟨-, -, hpop⟩
      · exact hA.buffer u r hu hmem
      · exact hnewBuffer hmem
      · exact hop hpop
    · rw [hbuf] at hmem
      rcases inHand_perform h hu with hu | ⟨-, rfl, -⟩ | ⟨-, hr, -⟩
      · exact hA.buffer u r hu (List.mem_of_mem_tail hmem)
      · exact hnewBuffer (List.mem_of_mem_tail hmem)
      · -- the head does not occur again
        have hnodup := hA.nodup
        have hcons : s.sendingBuffer = r :: s.sendingBuffer.tail := (List.cons_head?_tail hr).symm
        rw [hcons, List.nodup_cons] at hnodup
        exact hnodup.1 hmem
  · rcases sendingBuffer_perform h with ⟨hbuf, -⟩ | ⟨hbuf, -⟩
    · rw [hbuf]; exact hA.nodup
    · rw [hbuf]; exact hA.nodup.tail

/-- The environment keeps fresh PDUs apart. -/
theorem apart_env {e : Env} (hi : Inv s) (hA : Apart s) (h : e.perform cfg s = some s') :
    Apart s' := by
  have hin : s'.inHand = s.inHand := env_same (f := .inHand) h (by simp)
  have hqueue : ∀ r, s'.Fresh r → ¬s'.Queued r := by
    intro r hf hq
    have hq := queued_env h hq
    rcases fresh_env h hf with hf | ⟨rfl, -⟩
    · exact hA.queue r hf hq
    · exact absurd (hi.queued _ hq) (Nat.lt_irrefl _)
  -- a submission adds a new object at the end of the buffer
  have hbuf : s'.sendingBuffer = s.sendingBuffer ∨
      s'.sendingBuffer = s.sendingBuffer ++ [s.heap.length] := by
    cases e with
    | submit body => cases h; exact .inr rfl
    | complete io raw er =>
        obtain ⟨-, rfl⟩ := Env.perform_complete h
        left
        unfold Session.connectDone
        split <;> rfl
    | expire tm =>
        obtain ⟨-, rfl⟩ := Env.perform_expire h
        exact .inl rfl
    | elapse us => cases h; exact .inl rfl
    | reply a => cases h; exact .inl rfl
  have hnew : s.heap.length ∉ s.sendingBuffer :=
    fun hmem => Nat.lt_irrefl _ (hi.fresh _ (.inr hmem))
  refine ⟨hqueue, ?_, ?_, ?_⟩
  · rw [hin]; exact hA.hands
  · rw [hin]
    intro u r hu
    rcases hbuf with hbuf | hbuf
    · rw [hbuf]; exact hA.buffer u r hu
    · rw [hbuf, List.mem_append, List.mem_singleton]
      rintro (hmem | rfl)
      · exact hA.buffer u r hu hmem
      · exact Nat.lt_irrefl _ (hi.fresh _ (.inl ⟨u, hu⟩))
  · rcases hbuf with hbuf | hbuf
    · rw [hbuf]; exact hA.nodup
    · rw [hbuf]
      rw [List.nodup_append]
      refine ⟨hA.nodup, by simp, fun a ha b hb => ?_⟩
      rw [List.mem_singleton] at hb
      exact fun hab => hnew (hb ▸ hab ▸ ha)

/-- The start of a job keeps fresh PDUs apart. -/
theorem apart_take {j : Job} (hA : Apart s) (hq : Quiet j.thread s) (h : j.take s = some s') :
    Apart s' := by
  have hin : s'.inHand = s.inHand := take_same (f := .inHand) h (by simp)
  have hbuf : s'.sendingBuffer = s.sendingBuffer := take_same (f := .sendingBuffer) h (by simp)
  refine ⟨fun r hf hr => ?_, ?_, ?_, ?_⟩
  · unfold Session.Fresh at hf
    rw [hin, hbuf] at hf
    exact hA.queue r hf (queued_take h hq hr)
  · rw [hin]; exact hA.hands
  · rw [hin, hbuf]; exact hA.buffer
  · rw [hbuf]; exact hA.nodup

/-- At the start every PDU is in one place. -/
theorem apart_init (p : Persisted) (now : Nat) : Apart (Session.init p now) := by
  refine ⟨fun r hf hq => ?_, fun t u r ht => (by cases ht), fun t r ht => (by cases ht),
    List.nodup_range'⟩
  rcases hf with ⟨t, ht⟩ | hf
  · cases ht
  have hsend : r ∈ Persisted.refs p.message.length p.sending := hf
  rw [Persisted.refs, List.mem_range'_1] at hsend
  have hflight : (Session.init p now).inFlight = [] := rfl
  cases hq with
  | waiting hr =>
      obtain ⟨l, hl⟩ := hr
      have hmsg : r ∈ Persisted.refs 0 p.message := by
        cases l with
        | MESSAGE => exact hl
        | SESSION => cases hl
        | RESPONSE => cases hl
      rw [Persisted.refs, List.mem_range'_1] at hmsg
      omega
  | slot hr => cases hr
  | flight hr => rw [hflight] at hr; cases hr
  | awaiting hr =>
      obtain ⟨k, e, hk, -⟩ := hr
      have hempty : (∅ : AwaitingResponseMap)[k]? = some e := hk
      rw [Std.TreeMap.getElem?_emptyc] at hempty
      cases hempty
  | pushed l hr => simp [Session.init] at hr
  | wrote tbuf st conn hr => simp [Session.init] at hr

variable {g : Guard Op Tid Session Job} {p : Persisted} {now : Nat} {c : Machine}

/-- **Fresh PDUs are apart in every run.** -/
theorem Runs.apart (h : Runs cfg g p now c) : Apart c.shared :=
  h.data (apart_init p now) (fun _ _ _ _ hi hA _ _ hk hx => apart_perform hi hA hx hk)
    (fun _ _ _ hi hA hx => apart_env hi hA hx) fun _ _ _ _ hq hA _ hx => apart_take hA hq hx

end KissSmpp
