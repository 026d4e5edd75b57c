import KissSmpp.Session.Observed
import KissSmpp.Session.Routine

/-! # How often the process connects

`close_connection` and `handle_connect` sleep before they connect again, each in the io thread, and whatever closes
the connection in the meantime waits for its turn. `connects_spaced` says that whatever the peer does, and however
many handlers are queued that close the connection, connection attempts are at least a second apart. -/

namespace KissSmpp

open Interleave Session

variable {cfg : Params} {t : Tid} {s s' : Session} {p : Persisted} {now : Nat} {l : List Nat} {α : Type}

/-- What is observed: the clock at each call of `async_connect`. -/
def attempt? (_ : Tid) : (op : Op) → Session → op.Res → Option Nat
  | .asyncConnect, s, _ => some s.now
  | _, _, _ => none

/-- Times of which each is at least a second after all earlier ones, the latest first. -/
def Spaced (l : List Nat) : Prop := l.Pairwise fun later earlier => earlier + 1000000 ≤ later

/-! ## The protocol of the pause -/

/-- **How far a thread is with its pause**: it has read the clock, or slept for a second from then on. -/
inductive Pausing
  | awake
  | read (n : Nat)
  | rested (n : Nat)
  deriving DecidableEq

/-- **The protocol of the pause**: a connection attempt comes right after it. -/
def pausing : Protocol Op Op.Res Pausing where
  allows x
    | .asyncConnect => ∃ n, x = .rested n
    | _ => True
  next x
    | .clock, n => .read n
    | .sleepUntil m, _ =>
        match x with
        | .read n => if n + 1000000 ≤ m then .rested n else .awake
        | _ => .awake
    | .asyncConnect, _ => .awake
    | _, _ => x

/-- Code without a connection attempt follows it from anywhere. -/
theorem pausing_aside {q : Code α} (hq : q.Uses fun op => op ≠ .asyncConnect) :
    Abides pausing (fun _ => True) q := by
  intro x _
  refine hq.follows (fun op y hop _ => ⟨?_, fun _ => trivial⟩) trivial
  cases op with
  | asyncConnect => exact absurd rfl hop
  | _ => trivial

/-- An operation that connects nothing keeps to the protocol of pauses. -/
theorem pausing_call {op : Op} (hop : op ≠ .asyncConnect) : Abides pausing (fun _ => True) (call op) :=
  pausing_aside (uses_call hop)

/-- **A pause and a connection attempt.** -/
theorem pausing_sleep_connect {seconds : Nat} (h : 1 ≤ seconds) :
    Abides pausing (fun _ => True) (sleep seconds >>= fun _ => connect) := by
  intro x _
  refine ⟨trivial, fun n => ⟨trivial, fun _ => ⟨⟨n, ?_⟩, fun _ => trivial⟩⟩⟩
  exact if_pos (by omega)

/-- **`close_connection`** pauses before it connects. -/
theorem pausing_closeConnection : Abides pausing (fun _ => True) closeConnection := by
  refine (pausing_call (by simp)).bind fun _ => (pausing_call (by simp)).bind fun _ =>
    (pausing_call (by simp)).bind fun _ => (pausing_call (by simp)).bind fun _ =>
    (pausing_call (by simp)).bind fun _ => (pausing_call (by simp)).bind fun _ =>
    (pausing_call (by simp)).bind fun _ => (pausing_call (by simp)).bind fun _ => Abides.when ?_
  refine (pausing_call (by simp)).bind fun _ => Abides.when ?_
  exact (pausing_call (by simp)).bind fun _ => pausing_sleep_connect (Nat.le_refl 1)

/-- **`handle_connect`** sleeps before it tries again. -/
theorem pausing_handleConnect (e : ErrorCode) : Abides pausing (fun _ => True) (handleConnect cfg e) := by
  have hbind : Abides pausing (fun _ => True) (doBindRequest cfg) :=
    pausing_aside <| ofReply_doBindRequest.mono fun op hop => by
      rintro rfl
      cases hop
  unfold handleConnect
  split
  · exact (pausing_call (by simp)).bind fun _ => hbind.bind fun _ => pausing_call (by simp)
  · exact (pausing_call (by simp)).bind fun _ => Abides.when (pausing_sleep_connect (by simp))

/-- **The code of every job follows the protocol.** -/
theorem pausing_body (j : Job) : Abides pausing (fun _ => True) (j.body cfg) := by
  have hrest : j.uses .asyncConnect = false → Abides pausing (fun _ => True) (j.body cfg) := fun hj =>
    pausing_aside <| j.uses_body.mono fun op hop => by
      rintro rfl
      rw [hj] at hop
      cases hop
  cases j with
  | handler h =>
      cases h with
      | closeConnection => exact pausing_closeConnection
      | handleConnect e => exact pausing_handleConnect e
      | _ => exact hrest rfl
  | _ => exact hrest rfl

/-! ## The times of the attempts -/

/-- All of these times are over at time `n`. -/
def Over (l : List Nat) (n : Nat) : Prop := ∀ a ∈ l, a ≤ n

/-- **The attempts so far are spaced**, and the io thread has read the clock after the last one, and rests. -/
structure Session.Paused (s : Session) (l : List Nat) (x : Tid → Pausing) : Prop where
  spaced : Spaced l
  past : Over l s.now
  read : ∀ n, x .io = .read n → Over l n ∧ n ≤ s.now
  rested : ∀ n, x .io = .rested n → Over l n ∧ n + 1000000 ≤ s.now

variable {x : Tid → Pausing}

/-- Time passes, and a thread goes on with its pause. -/
theorem Session.Paused.moves (hP : s.Paused l x) (hnow : s.now ≤ s'.now) {z : Pausing}
    (hread : ∀ n, t = .io → z = .read n → Over l n ∧ n ≤ s'.now)
    (hrested : ∀ n, t = .io → z = .rested n → Over l n ∧ n + 1000000 ≤ s'.now) :
    s'.Paused l (Function.update x t z) where
  spaced := hP.spaced
  past a ha := Nat.le_trans (hP.past a ha) hnow
  read n hn := by
    by_cases ht : t = .io
    · subst ht
      rw [Function.update_self] at hn
      exact hread n rfl hn
    · rw [Function.update_of_ne (Ne.symm ht)] at hn
      exact (hP.read n hn).imp_right fun h => Nat.le_trans h hnow
  rested n hn := by
    by_cases ht : t = .io
    · subst ht
      rw [Function.update_self] at hn
      exact hrested n rfl hn
    · rw [Function.update_of_ne (Ne.symm ht)] at hn
      exact (hP.rested n hn).imp_right fun h => Nat.le_trans h hnow

/-- A thread that stays where it is. -/
theorem Session.Paused.stays (hP : s.Paused l x) (hnow : s.now ≤ s'.now) :
    s'.Paused l (Function.update x t (x t)) := by
  refine hP.moves hnow (fun n ht hn => ?_) fun n ht hn => ?_
  · subst ht
    exact (hP.read n hn).imp_right fun h => Nat.le_trans h hnow
  · subst ht
    exact (hP.rested n hn).imp_right fun h => Nat.le_trans h hnow

/-- The clock is read. -/
theorem paused_clock {y : Nat × Session} (h : perform cfg t .clock s = some y) (hP : s.Paused l x) :
    y.2.Paused l (Function.update x t (.read y.1)) := by
  cases h
  refine hP.moves (Nat.le_refl _) (fun n _ hn => ?_) fun n _ hn => (by cases hn)
  cases hn
  exact ⟨hP.past, Nat.le_refl _⟩

/-- A thread has slept. -/
theorem paused_sleepUntil {m : Nat} {y : Unit × Session} (h : perform cfg t (.sleepUntil m) s = some y)
    (hP : s.Paused l x) : y.2.Paused l (Function.update x t (pausing.next (x t) (.sleepUntil m) y.1)) := by
  obtain ⟨hm, rfl⟩ := perform_sleepUntil h
  show s.Paused l (Function.update x t (match x t with
    | .read n => if n + 1000000 ≤ m then .rested n else .awake
    | _ => .awake))
  refine hP.moves (Nat.le_refl _) (fun n _ hn => ?_) fun n ht hn => ?_
  · split at hn
    · split at hn <;> cases hn
    · cases hn
  · subst ht
    split at hn
    · next k hk =>
        split at hn
        · next hle =>
            cases hn
            exact ⟨(hP.read _ hk).1, Nat.le_trans hle hm⟩
        · cases hn
    · cases hn

/-- **A connection attempt** comes a second after all others. -/
theorem paused_asyncConnect {y : Unit × Session} (h : perform cfg .io .asyncConnect s = some y)
    (ha : pausing.allows (x .io) .asyncConnect) (hP : s.Paused l x) :
    y.2.Paused (s.now :: l) (Function.update x .io .awake) := by
  obtain ⟨n, hn⟩ := ha
  obtain ⟨hover, hrested⟩ := hP.rested n hn
  have hnow : y.2.now = s.now := perform_same (f := .now) h (by simp)
  refine ⟨?_, ?_, fun k hk => ?_, fun k hk => ?_⟩
  · refine List.pairwise_cons.mpr ⟨fun a ha => ?_, hP.spaced⟩
    exact Nat.le_trans (Nat.add_le_add_right (hover a ha) _) hrested
  · rw [hnow]
    intro a ha
    rcases List.mem_cons.mp ha with rfl | ha
    · exact Nat.le_refl _
    · exact hP.past a ha
  · rw [Function.update_self] at hk
    cases hk
  · rw [Function.update_self] at hk
    cases hk

/-- **Every operation leaves the attempts spaced.** -/
theorem paused_perform {op : Op} {y : op.Res × Session} (hm : op.mayRun t = true)
    (ha : pausing.allows (x t) op) (h : perform cfg t op s = some y) (hP : s.Paused l x) :
    y.2.Paused ((attempt? t op s y.1).toList ++ l) (Function.update x t (pausing.next (x t) op y.1)) := by
  cases op with
  | clock => exact paused_clock h hP
  | sleepUntil m => exact paused_sleepUntil h hP
  | asyncConnect =>
      have ht : t = .io := Op.io_of_mayRun hm rfl
      subst ht
      exact paused_asyncConnect h ha hP
  | _ => exact hP.stays (Nat.le_of_eq (perform_same (f := .now) h (by simp)).symm)

/-- **Connection attempts are at least a second apart**: in every run, each call of `async_connect` comes a second or
more after all earlier ones, that of the constructor included. -/
theorem connects_spaced {c : Machine} (h : ObservedRuns attempt? cfg p now c l) : Spaced (l ++ [now]) := by
  have hstay : ∀ {s s' : Session} {l : List Nat} {x : Tid → Pausing}, s.now ≤ s'.now → s.Paused l x →
      s'.Paused l x := by
    intro s s' l x hnow hP
    have hstays := hP.stays (t := .io) hnow
    rwa [Function.update_eq_self] at hstays
  have hrun : ∃ x, c.shared.Paused (l ++ [now]) x := by
    refine h.protocol (Q := fun _ => True) (J := fun _ => True) (K := fun s l x => s.Paused (l ++ [now]) x)
      .awake (fun _ _ => trivial) trivial pausing_body ?_ ?_ ?_ ?_
    · refine ⟨List.pairwise_singleton .., fun a ha => ?_, fun n hn => (by cases hn), fun n hn => by cases hn⟩
      exact Nat.le_of_eq (List.mem_singleton.mp ha)
    · intro t op s l x r _ hP hg ha hr
      rw [List.append_assoc]
      exact paused_perform (known_mayRun hg) ha hr hP
    · intro e s s' l x _ hP he
      obtain ⟨d, hd⟩ := now_env he
      exact hstay (hd ▸ Nat.le_add_right _ _) hP
    · intro j s s' l x _ hP hj
      exact hstay (Nat.le_of_eq (take_same (f := .now) hj (by simp)).symm) hP
  obtain ⟨x, hP⟩ := hrun
  exact hP.spaced

/-- The first attempt fails; five seconds later the next one succeeds, and the peer closes the connection. -/
def Schedule.connectsAgain : List Step :=
  complete .connect .none .other ++ .env (.elapse 5000000) :: turn .io 60 ++ connect ++
    complete .readHeader .none .eof ++ handle .closeConnection ++ .env (.elapse 1000000) :: turn .io 60

/-- The session tries three times, and sleeps in between. -/
theorem connects_spaced_connectsAgain :
    (Machine.record attempt? sampleParams .none Schedule.connectsAgain).shared.2 = [6000000, 5000000] ∧
      Spaced ((Machine.record attempt? sampleParams .none Schedule.connectsAgain).shared.2 ++ [0]) :=
  ⟨by decide +kernel, connects_spaced (observedRuns_record Schedule.connectsAgain)⟩

end KissSmpp
