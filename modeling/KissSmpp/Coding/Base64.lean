import Mathlib.Data.List.Basic

/-! # Base64

Octets as text: every three octets are four characters of an alphabet of sixty-four, and a last group of
one or two octets is filled up with `=`. What has been encoded is decoded again, whatever the octets. -/

namespace Base64

/-! ## Sextets -/

/-- The alphabet. -/
def alphabet : List Char := "ABCDEFGHIJKLMNOPQRSTUVWXYZabcdefghijklmnopqrstuvwxyz0123456789+/".toList

/-- What fills up the last group. -/
def pad : Char := '='

/-- The character of a sextet. -/
def char (n : Nat) : Char := alphabet.getD n pad

/-- The sextet of a character. -/
def sextet? (c : Char) : Option Nat := alphabet.idxOf? c

/-- A character of the alphabet stands for its place there. -/
theorem sextet?_char : ∀ n < 64, sextet? (char n) = some n := by decide +kernel

/-- The padding is no character of the alphabet. -/
theorem char_ne_pad : ∀ n < 64, char n ≠ pad := by decide +kernel

/-- The number some characters spell. -/
def number? : List Char → Nat → Option Nat
  | [], n => some n
  | c :: cs, n => (sextet? c).bind fun k => number? cs (n * 64 + k)

/-- The characters of sextets spell the number with these digits. -/
theorem number?_map_char {ks : List Nat} (hks : ∀ k ∈ ks, k < 64) (n : Nat) :
    number? (ks.map char) n = some (ks.foldl (fun n k => n * 64 + k) n) := by
  induction ks generalizing n with
  | nil => rfl
  | cons k ks ih =>
      rw [List.map_cons, number?, sextet?_char k (hks k List.mem_cons_self), Option.bind_some]
      exact ih (fun k' hk' => hks k' (List.mem_cons_of_mem k hk')) _

/-! ## Groups -/

/-- Octets as characters. -/
def encodeChars : List UInt8 → List Char
  | [] => []
  | [a] =>
      let n := a.toNat * 16
      [n / 64, n % 64].map char ++ [pad, pad]
  | [a, b] =>
      let n := (a.toNat * 256 + b.toNat) * 4
      [n / 4096, n / 64 % 64, n % 64].map char ++ [pad]
  | a :: b :: c :: rest =>
      let n := (a.toNat * 256 + b.toNat) * 256 + c.toNat
      [n / 262144, n / 4096 % 64, n / 64 % 64, n % 64].map char ++ encodeChars rest

/-- Characters as octets, if they are such. -/
def decodeChars : List Char → Option (List UInt8)
  | [] => some []
  | c₀ :: c₁ :: c₂ :: c₃ :: rest =>
      if c₃ = pad then
        -- the last group
        if rest ≠ [] then none
        else if c₂ = pad then
          (number? [c₀, c₁] 0).map fun n => [UInt8.ofNat (n / 16)]
        else
          (number? [c₀, c₁, c₂] 0).map fun n => [UInt8.ofNat (n / 1024), UInt8.ofNat (n / 4 % 256)]
      else
        (number? [c₀, c₁, c₂, c₃] 0).bind fun n => (decodeChars rest).map fun octets =>
          UInt8.ofNat (n / 65536) :: UInt8.ofNat (n / 256 % 256) :: UInt8.ofNat (n % 256) :: octets
  | _ => none

/-- An octet is the number it has been taken for. -/
theorem ofNat_eq {a : UInt8} {n : Nat} (h : n = a.toNat) : UInt8.ofNat n = a := by
  rw [h, UInt8.ofNat_toNat]

/-- **Decoding inverts encoding**, group by group. -/
theorem decodeChars_encodeChars (octets : List UInt8) :
    decodeChars (encodeChars octets) = some octets := by
  induction octets using encodeChars.induct with
  | case1 => rfl
  -- one octet left: two characters and twice the padding
  | case2 a =>
      have ha := a.toNat_lt
      have hks : ∀ k ∈ [a.toNat * 16 / 64, a.toNat * 16 % 64], k < 64 := by
        simp only [List.mem_cons, List.not_mem_nil, or_false, forall_eq_or_imp, forall_eq]
        omega
      have hnum := number?_map_char hks 0
      simp only [List.map_cons, List.map_nil, List.foldl_cons, List.foldl_nil] at hnum
      simp only [encodeChars, List.map_cons, List.map_nil, List.cons_append, List.nil_append,
        decodeChars, if_true, ne_eq, not_true_eq_false, if_false, hnum, Option.map_some]
      rw [ofNat_eq (a := a) (by omega)]
  -- two octets left: three characters and the padding
  | case3 a b =>
      have ha := a.toNat_lt
      have hb := b.toNat_lt
      have hks : ∀ k ∈ [(a.toNat * 256 + b.toNat) * 4 / 4096, (a.toNat * 256 + b.toNat) * 4 / 64 % 64,
          (a.toNat * 256 + b.toNat) * 4 % 64], k < 64 := by
        simp only [List.mem_cons, List.not_mem_nil, or_false, forall_eq_or_imp, forall_eq]
        omega
      have hnum := number?_map_char hks 0
      have hlast := char_ne_pad _ (hks _ (by simp : (a.toNat * 256 + b.toNat) * 4 % 64 ∈ _))
      simp only [List.map_cons, List.map_nil, List.foldl_cons, List.foldl_nil] at hnum
      simp only [encodeChars, List.map_cons, List.map_nil, List.cons_append, List.nil_append,
        decodeChars, if_true, ne_eq, not_true_eq_false, if_false, hlast, hnum, Option.map_some]
      rw [ofNat_eq (a := a) (by omega), ofNat_eq (a := b) (by omega)]
  -- a full group of three octets, and the rest by induction
  | case4 a b c rest ih =>
      have ha := a.toNat_lt
      have hb := b.toNat_lt
      have hc := c.toNat_lt
      obtain ⟨n, hn⟩ : ∃ n, (a.toNat * 256 + b.toNat) * 256 + c.toNat = n := ⟨_, rfl⟩
      have hks : ∀ k ∈ [n / 262144, n / 4096 % 64, n / 64 % 64, n % 64], k < 64 := by
        simp only [List.mem_cons, List.not_mem_nil, or_false, forall_eq_or_imp, forall_eq]
        omega
      have hnum := number?_map_char hks 0
      have hlast := char_ne_pad _ (hks _ (by simp : n % 64 ∈ _))
      simp only [List.map_cons, List.map_nil, List.foldl_cons, List.foldl_nil] at hnum
      simp only [encodeChars, List.map_cons, List.map_nil, List.cons_append, List.nil_append,
        decodeChars, hlast, if_false, hn, hnum, ih, Option.bind_some, Option.map_some]
      rw [ofNat_eq (a := a) (by omega), ofNat_eq (a := b) (by omega), ofNat_eq (a := c) (by omega)]

/-! ## Strings -/

/-- Octets as text. -/
def encode (octets : List UInt8) : String := String.ofList (encodeChars octets)

/-- Text as octets, if it is such. -/
def decode (s : String) : Option (List UInt8) := decodeChars s.toList

/-- **What has been encoded is decoded again.** -/
theorem decode_encode (octets : List UInt8) : decode (encode octets) = some octets := by
  unfold decode encode
  rw [String.toList_ofList]
  exact decodeChars_encodeChars octets

example : encode [0, 0, 0, 16, 0, 0, 0, 21] = "AAAAEAAAABU=" := by decide

end Base64
