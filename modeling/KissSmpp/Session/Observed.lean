import KissSmpp.Interleave.Observe
import KissSmpp.Interleave.Protocol
import KissSmpp.Session.Calls

/-! # Runs of the process that are observed

The process with a record of what `note` makes of its operations, and the rule for assertions about the two:
what every run keeps, and what is known of every operation, is known of the runs that are observed as well. -/

namespace KissSmpp

open Interleave

variable {cfg : Params} {p : Persisted} {now : Nat} {β A : Type}
  {note : Tid → (op : Op) → Session → op.Res → Option β}

/-- **The runs of the process**, observed from the start: `ObservedRuns note cfg p now c l` says that a run leads
to `c`, and that `l` is what has been observed, the latest first. -/
def ObservedRuns (note : Tid → (op : Op) → Session → op.Res → Option β) (cfg : Params) (p : Persisted) (now : Nat)
    (c : Machine) (l : List β) : Prop :=
  Reach ((system cfg).observing note) Guard.free.Allows ((Machine.init p now).recording []) (c.recording l)

/-- An observed run is a run. -/
theorem ObservedRuns.runs {c : Machine} {l : List β} (h : ObservedRuns note cfg p now c l) :
    Runs cfg Guard.free p now c := by
  have hfree : Reach ((system cfg).observing note) Guard.free.unrecorded.Allows
      ((Machine.init p now).recording []) (c.recording l) := h
  exact hfree.forget

/-- Every run can be observed. -/
theorem Runs.observed {c : Machine} (h : Runs cfg Guard.free p now c) : ∃ l, ObservedRuns note cfg p now c l :=
  Reach.recorded h []

/-- What a schedule leads to from the start, and what has been observed on the way. -/
def Machine.record (note : Tid → (op : Op) → Session → op.Res → Option β) (cfg : Params) (p : Persisted)
    (ms : List Step) : Config Op Op.Res Tid (Session × List β) :=
  ((Machine.init p 0).recording []).play ((system cfg).observing note) ms

/-- Every schedule is a run that can be observed. -/
theorem observedRuns_record (ms : List Step) :
    ObservedRuns note cfg p 0 (Machine.record note cfg p ms).forget (Machine.record note cfg p ms).shared.2 :=
  reach_play _ _ ms

/-- All that is known of the operations of a run. -/
def knowing (cfg : Params) : Guard Op Tid Session Job := ⟨(known cfg Guard.free).op, fun _ _ => True⟩

/-- The discipline is known in the runs that are observed. -/
theorem ObservedRuns.knowing {c : Machine} {l : List β} (h : ObservedRuns note cfg p now c l) :
    Reach ((system cfg).observing note) (knowing cfg).unrecorded.Allows ((Machine.init p now).recording [])
      (c.recording l) := by
  have hfree : Reach ((system cfg).observing note) Guard.free.unrecorded.Allows
      ((Machine.init p now).recording []) (c.recording l) := h
  refine hfree.strengthen_unrecorded fun c m c' hc hm hstep => ?_
  cases m with
  | run t =>
      obtain ⟨op, k, r, hcode, hr, -⟩ := Config.of_move_run hstep
      have hrun : Runs cfg Guard.free p now c := hc
      exact (Guard.allows_run hcode).mpr (hrun.knowing_next hcode trivial hr)
  | env e => trivial
  | start j => trivial

/-- **Induction along a protocol**, for assertions on the state and on what has been observed. -/
theorem ObservedRuns.protocol {P : Protocol Op Op.Res A} {Q : A → Prop} {J : Session → Prop}
    {K : Session → List β → (Tid → A) → Prop} (x₀ : A)
    (hJ : ∀ c, Runs cfg Guard.free p now c → J c.shared) (hx₀ : Q x₀)
    (hbody : ∀ (j : Job) x, Q x → (j.body cfg).Follows P (fun _ => Q) x)
    (h0 : K (Session.init p now) [] fun _ => x₀)
    (hop : ∀ t op s l x r, J s → K s l x → (known cfg Guard.free).op t op s → P.allows (x t) op →
      perform cfg t op s = some r →
        K r.2 ((note t op s r.1).toList ++ l) (Function.update x t (P.next (x t) op r.1)))
    (henv : ∀ (e : Env) s s' l x, J s → K s l x → e.perform cfg s = some s' → K s' l x)
    (htake : ∀ (j : Job) s s' l x, J s → K s l x → j.take s = some s' → K s' l x) {c : Machine} {l : List β}
    (h : ObservedRuns note cfg p now c l) : ∃ x, K c.shared l x := by
  have hcode : ∀ t, (((Machine.init p now).recording ([] : List β)).code t).Follows P (fun _ => Q) x₀ :=
    fun _ => hx₀
  have hrun := Reach.protocolWith (I := fun _ => Q) (J := fun z => J z.1) (K := fun z x => K z.1 z.2 x)
    ?_ hcode hbody h0 ?_ ?_ ?_ h.knowing
  · obtain ⟨x, hK, -⟩ := hrun
    exact ⟨x, hK⟩
  · intro c hc
    have hfree : Reach ((system cfg).observing note) Guard.free.unrecorded.Allows
        ((Machine.init p now).recording []) c := hc.mono fun c m _ => Guard.free_allows c m
    exact hJ c.forget hfree.forget
  · rintro t op z x y hz hK hg ha hx
    obtain ⟨hx, hl⟩ := System.observing_exec hx
    rw [hl]
    exact hop t op z.1 z.2 x (y.1, y.2.1) hz hK hg ha (perform_of_exec hx).2
  · rintro e z z' x hz hK hx
    obtain ⟨hx, hl⟩ := System.observing_env hx
    rw [hl]
    exact henv e z.1 z'.1 z.2 x hz hK hx
  · rintro j z z' x hz hK - hx
    obtain ⟨hx, hl⟩ := System.observing_take hx
    rw [hl]
    exact htake j z.1 z'.1 z.2 x hz hK hx

/-- **Induction over what happens**: the same without a protocol. -/
theorem ObservedRuns.data {J : Session → Prop} {K : Session → List β → Prop}
    (hJ : ∀ c, Runs cfg Guard.free p now c → J c.shared) (h0 : K (Session.init p now) [])
    (hop : ∀ t op s l r, J s → K s l → (known cfg Guard.free).op t op s → perform cfg t op s = some r →
      K r.2 ((note t op s r.1).toList ++ l))
    (henv : ∀ (e : Env) s s' l, J s → K s l → e.perform cfg s = some s' → K s' l)
    (htake : ∀ (j : Job) s s' l, J s → K s l → j.take s = some s' → K s' l) {c : Machine} {l : List β}
    (h : ObservedRuns note cfg p now c l) : K c.shared l := by
  let anything : Protocol Op Op.Res Unit := ⟨fun _ _ => True, fun _ _ _ => ()⟩
  have hbody : ∀ (j : Job) (x : Unit), x = () → (j.body cfg).Follows anything (fun _ => (· = ())) x := fun j x hx =>
    (Prog.uses_any (j.body cfg)).follows (fun _ _ _ _ => ⟨trivial, fun _ => rfl⟩) hx
  obtain ⟨-, hK⟩ := h.protocol (Q := (· = ())) (K := fun s l _ => K s l) () hJ rfl hbody h0
    (fun t op s l _ r hs hK hg _ => hop t op s l r hs hK hg) (fun e s s' l _ => henv e s s' l)
    fun j s s' l _ => htake j s s' l
  exact hK

end KissSmpp
