import Mathlib.Data.Nat.Digits.Lemmas
import Mathlib.Tactic

/-!
# Numerals

`numeral digit b n` is the shortest numeral of `n` in the base `b`, with its digits written by
`digit`, and `signedNumeral` puts a sign before the numeral of a negative number.  A numeral
determines its number when the digits below the base can be told apart.
-/

namespace Slience

section Numeral

variable {α : Type*} {digit : ℕ → α} {b : ℕ}

def numeral (digit : ℕ → α) (b n : ℕ) : List α :=
  if n = 0 then [digit 0] else (Nat.digits b n).reverse.map digit

def signedNumeral (minus : α) (digit : ℕ → α) (b : ℕ) (z : ℤ) : List α :=
  if z < 0 then minus :: numeral digit b (-z).toNat else numeral digit b z.toNat

theorem length_numeral_le (hb : 1 < b) {n k : ℕ} (hk : 0 < k) (h : n < b ^ k) :
    (numeral digit b n).length ≤ k := by
  unfold numeral
  split
  · exact hk
  · rw [List.length_map, List.length_reverse, Nat.digits_length_le_iff hb]
    exact h

theorem mem_numeral (hb : 1 < b) {n : ℕ} {x : α} (hx : x ∈ numeral digit b n) :
    ∃ d < b, x = digit d := by
  unfold numeral at hx
  split at hx
  · exact ⟨0, by omega, List.mem_singleton.mp hx⟩
  · obtain ⟨d, hd, rfl⟩ := List.mem_map.mp hx
    exact ⟨d, Nat.digits_lt_base hb (List.mem_reverse.mp hd), rfl⟩

/-- The digits of a numeral, read back by `val`, give its number. -/
theorem ofDigits_numeral (hb : 1 < b) {val : α → ℕ} (hval : ∀ d < b, val (digit d) = d) (n : ℕ) :
    Nat.ofDigits b ((numeral digit b n).reverse.map val) = n := by
  unfold numeral
  split
  · rename_i hn
    simp [hval 0 (by omega), hn]
  · have hdigits : (Nat.digits b n).map (val ∘ digit) = Nat.digits b n := by
      have hid : ∀ d ∈ Nat.digits b n, (val ∘ digit) d = id d :=
        fun d hd ↦ hval d (Nat.digits_lt_base hb hd)
      rw [List.map_congr_left hid, List.map_id]
    rw [← List.map_reverse, List.reverse_reverse, List.map_map, hdigits, Nat.ofDigits_digits]

theorem numeral_injective (hb : 1 < b) {val : α → ℕ} (hval : ∀ d < b, val (digit d) = d) :
    Function.Injective (numeral digit b) := by
  intro n m h
  rw [← ofDigits_numeral hb hval n, h, ofDigits_numeral hb hval]

theorem signedNumeral_injective {minus : α} (val : α → ℕ) (hb : 1 < b)
    (hval : ∀ d < b, val (digit d) = d) (hminus : ∀ d < b, digit d ≠ minus) :
    Function.Injective (signedNumeral minus digit b) := by
  have hne (n m : ℕ) : minus :: numeral digit b n ≠ numeral digit b m := by
    intro h
    have hmem : minus ∈ numeral digit b m := by
      rw [← h]
      exact List.mem_cons_self
    obtain ⟨d, hd, heq⟩ := mem_numeral hb hmem
    exact hminus d hd heq.symm
  intro z w h
  unfold signedNumeral at h
  by_cases hz : z < 0
  · by_cases hw : w < 0
    · rw [if_pos hz, if_pos hw] at h
      have heq := numeral_injective hb hval (List.cons.inj h).2
      omega
    · rw [if_pos hz, if_neg hw] at h
      exact absurd h (hne _ _)
  · by_cases hw : w < 0
    · rw [if_neg hz, if_pos hw] at h
      exact absurd h.symm (hne _ _)
    · rw [if_neg hz, if_neg hw] at h
      have heq := numeral_injective hb hval h
      omega

theorem length_signedNumeral_le {minus : α} (hb : 1 < b) {z : ℤ} {k : ℕ} (hk : 0 < k)
    (h : z.natAbs < b ^ k) : (signedNumeral minus digit b z).length ≤ k + 1 := by
  unfold signedNumeral
  split
  · have hlen : (numeral digit b (-z).toNat).length ≤ k := length_numeral_le hb hk (by omega)
    rw [List.length_cons]
    omega
  · have hlen : (numeral digit b z.toNat).length ≤ k := length_numeral_le hb hk (by omega)
    omega

end Numeral

end Slience
