import KissSmpp.Session.Alone
import Mathlib.Order.Interval.Finset.Nat

/-! # The sequence of numbers

`SequinceNumberGenerator` hands out the numbers from the smallest to the largest, over and over again. The
branch that wraps returns another value than the one it stores; that no number is skipped or repeated there
is what this file shows, for whatever bounds the library sets. `next_of_session` says that the generator of
a session is this one. -/

namespace KissSmpp

open Interleave

/-! ## The generator -/

/-- **The bounds of `smpp_pdu::SequenceNumber`**, whatever they are. -/
structure SequenceNumber.Bounds where
  Min : UInt32
  Max : UInt32
  pos : 0 < Min
  lt : Min < Max

/-- How many numbers there are. -/
def SequenceNumber.Bounds.period (b : SequenceNumber.Bounds) : Nat := b.Max.toNat - b.Min.toNat + 1

/-- `SequinceNumberGenerator`. Its mutex lets one call of `next` run at a time. -/
structure SequinceNumberGenerator where
  mVal : UInt32
  deriving DecidableEq, Repr

namespace SequinceNumberGenerator

variable (b : SequenceNumber.Bounds)

/-- The constructor. -/
def construct : SequinceNumberGenerator := ⟨b.Min⟩

/-- `next`: the number it returns, and the generator it leaves. -/
def next (g : SequinceNumberGenerator) : UInt32 × SequinceNumberGenerator :=
  if g.mVal < b.Max then (g.mVal, ⟨g.mVal + 1⟩) else (b.Max, ⟨b.Min⟩)

/-- The generator after `n` calls. -/
def calls : Nat → SequinceNumberGenerator
  | 0 => construct b
  | n + 1 => ((calls n).next b).2

/-- The number that is returned after `n` earlier calls. -/
def value (n : Nat) : UInt32 := ((calls b n).next b).1

/-! ## One call -/

variable {b} {g : SequinceNumberGenerator}

/-- **The generator stands at the place `k`** of the numbers. -/
def At (b : SequenceNumber.Bounds) (g : SequinceNumberGenerator) (k : Nat) : Prop :=
  k < b.period ∧ g.mVal.toNat = b.Min.toNat + k

/-- At one of its places the generator is within the bounds. -/
theorem At.mem {k : Nat} (h : g.At b k) : b.Min ≤ g.mVal ∧ g.mVal ≤ b.Max := by
  obtain ⟨hk, hval⟩ := h
  have hlt := UInt32.lt_iff_toNat_lt.mp b.lt
  unfold SequenceNumber.Bounds.period at hk
  exact ⟨UInt32.le_iff_toNat_le.mpr (by omega), UInt32.le_iff_toNat_le.mpr (by omega)⟩

/-- **A call returns the number the generator stands at**, in either branch. -/
theorem next_value {k : Nat} (h : g.At b k) : (g.next b).1 = g.mVal := by
  unfold next
  split
  · rfl
  · next hge =>
      exact UInt32.le_antisymm (UInt32.not_lt.mp hge) h.mem.2

/-- **A call moves the generator to the next place**, and from the last one to the first. -/
theorem next_at {k : Nat} (h : g.At b k) : (g.next b).2.At b ((k + 1) % b.period) := by
  obtain ⟨hk, hval⟩ := h
  have hlt := UInt32.lt_iff_toNat_lt.mp b.lt
  have hMax := b.Max.toNat_lt
  unfold next
  split
  · next hless =>
      -- there is a number after this one, and the increment does not overflow
      have hless := UInt32.lt_iff_toNat_lt.mp hless
      have hplace : k + 1 < b.period := by
        unfold SequenceNumber.Bounds.period
        omega
      rw [Nat.mod_eq_of_lt hplace]
      refine ⟨hplace, ?_⟩
      show (g.mVal + 1).toNat = _
      rw [UInt32.toNat_add, UInt32.toNat_one, Nat.mod_eq_of_lt (by omega)]
      omega
  · next hge =>
      -- the last place: the generator starts again
      have hge := mt UInt32.lt_iff_toNat_lt.mpr hge
      have hplace : k + 1 = b.period := by
        unfold SequenceNumber.Bounds.period at *
        omega
      rw [hplace, Nat.mod_self]
      exact ⟨Nat.succ_pos _, rfl⟩

/-! ## All calls -/

/-- **After `n` calls the generator stands at the place `n`, modulo the period.** -/
theorem calls_at (b : SequenceNumber.Bounds) (n : Nat) : (calls b n).At b (n % b.period) := by
  induction n with
  | zero => exact ⟨Nat.mod_lt _ (Nat.succ_pos _), by rw [Nat.zero_mod]; rfl⟩
  | succ n ih =>
      have hnext := next_at ih
      rwa [Nat.mod_add_mod] at hnext

/-- The number after `n` earlier calls. -/
theorem value_eq (b : SequenceNumber.Bounds) (n : Nat) :
    (value b n).toNat = b.Min.toNat + n % b.period := by
  unfold value
  rw [next_value (calls_at b n)]
  exact (calls_at b n).2

/-- In any `p` places in a row each remainder modulo `p` comes once. -/
theorem existsUnique_mod {p r : Nat} (hr : r < p) (k : Nat) :
    ∃! i, (k ≤ i ∧ i < k + p) ∧ i % p = r := by
  have himage : r ∈ (Finset.Ico k (k + p)).image (· % p) := by
    rw [Nat.image_Ico_mod]
    exact Finset.mem_range.mpr hr
  obtain ⟨i, hi, hmod⟩ := Finset.mem_image.mp himage
  refine ⟨i, ⟨Finset.mem_Ico.mp hi, hmod⟩, ?_⟩
  rintro j ⟨hj, hjmod⟩
  exact Nat.mod_injOn_Ico k p (Finset.mem_coe.mpr (Finset.mem_Ico.mpr hj)) hi (hjmod.trans hmod.symm)

/-- **The numbers come round**: each is within the bounds, the one after `n` earlier calls is the smallest
plus `n` modulo the period, any period of calls in a row returns every number once, and the generator never
leaves the bounds. -/
theorem numbers_come_round (b : SequenceNumber.Bounds) :
    (∀ n, b.Min ≤ value b n ∧ value b n ≤ b.Max) ∧
      (∀ n, (value b n).toNat = b.Min.toNat + n % (b.Max.toNat - b.Min.toNat + 1)) ∧
      (∀ k v, b.Min ≤ v → v ≤ b.Max →
        ∃! i, (k ≤ i ∧ i < k + (b.Max.toNat - b.Min.toNat + 1)) ∧ value b i = v) ∧
      ∀ n, b.Min ≤ (calls b n).mVal ∧ (calls b n).mVal ≤ b.Max := by
  have hmem := fun n => (calls_at b n).mem
  refine ⟨fun n => ?_, value_eq b, fun k v hmin hmax => ?_, hmem⟩
  · unfold value
    rw [next_value (calls_at b n)]
    exact hmem n
  · have hmin := UInt32.le_iff_toNat_le.mp hmin
    have hmax := UInt32.le_iff_toNat_le.mp hmax
    have hplace : v.toNat - b.Min.toNat < b.period := by
      unfold SequenceNumber.Bounds.period
      omega
    -- the value at a place is `v` exactly if the place leaves this remainder
    have hiff : ∀ i, value b i = v ↔ i % b.period = v.toNat - b.Min.toNat := by
      intro i
      rw [← UInt32.toNat_inj, value_eq]
      omega
    simp only [hiff]
    exact existsUnique_mod hplace k

/-! ## The generator of a session -/

end SequinceNumberGenerator

/-- The bounds as the session has them. -/
def SequenceNumber.bounds : SequenceNumber.Bounds where
  Min := 1
  Max := 0x7FFFFFFF
  pos := by decide
  lt := by decide

namespace SequinceNumberGenerator

variable {cfg : Params} {t : Tid} {s : Session} {g : SequinceNumberGenerator}

/-- **A session draws its numbers from such a generator**: a thread that calls `next` alone gets what this
generator returns, and leaves what it leaves. -/
theorem next_of_session (hf : s.fault = none) (hfree : s.owner .mMtx = none)
    (hg : s.mVal = g.mVal.toNat) :
    seqNumGenNext.Ends (exec cfg t)
      (fun n s' => n = (g.next SequenceNumber.bounds).1.toNat ∧
        s' = { s with mVal := (g.next SequenceNumber.bounds).2.mVal.toNat }) s := by
  have hmax : SequenceNumber.bounds.Max.toNat = SequenceNumber.Max := rfl
  have hmin : SequenceNumber.bounds.Min.toNat = SequenceNumber.Min := rfl
  have hnext : issued s.mVal = (g.next SequenceNumber.bounds).1.toNat ∧
      following s.mVal = (g.next SequenceNumber.bounds).2.mVal.toNat := by
    unfold issued following next
    rw [hg, ← hmax, ← hmin]
    by_cases hlt : g.mVal < SequenceNumber.bounds.Max
    · have hlt' := UInt32.lt_iff_toNat_lt.mp hlt
      have hroom := SequenceNumber.bounds.Max.toNat_lt
      rw [if_pos hlt, if_pos hlt', if_pos hlt']
      refine ⟨rfl, ?_⟩
      show _ = (g.mVal + 1).toNat
      rw [UInt32.toNat_add, UInt32.toNat_one, Nat.mod_eq_of_lt (by omega)]
    · have hlt' := mt UInt32.lt_iff_toNat_lt.mpr hlt
      rw [if_neg hlt, if_neg hlt', if_neg hlt']
      exact ⟨rfl, rfl⟩
  rw [← hnext.1, ← hnext.2]
  exact ends_seqNumGenNext hf hfree

end SequinceNumberGenerator

end KissSmpp
