import Mathlib.Algebra.Polynomial.Div
import Mathlib.Algebra.Field.ZMod
import Mathlib.Tactic

/-!
# Cyclic redundancy checks

A register of `w` bits that is shifted to the left, and from which the generator is taken away
whenever a bit falls out of it, divides polynomials over `ZMod 2`: after the bits of a message it
holds the remainder of the message times `X ^ w`.  Eight shifts may be done at once with a table
of what they do to the uppermost bits.
-/

namespace Slience

open Polynomial

variable {w : ℕ}

/-- One shift of the register. -/
def crcShift (poly c : BitVec w) : BitVec w := if c.msb then c <<< 1 ^^^ poly else c <<< 1

def crcShifts (poly : BitVec w) : ℕ → BitVec w → BitVec w
  | 0, c => c
  | n + 1, c => crcShifts poly n (crcShift poly c)

/-- The uppermost bit of the register alone. -/
def topBit (w : ℕ) (b : Bool) : BitVec w := if b then BitVec.ofNat w (2 ^ (w - 1)) else 0

/-- A bit of the message is added to the uppermost bit before the shift. -/
def crcBit (poly c : BitVec w) (b : Bool) : BitVec w := crcShift poly (c ^^^ topBit w b)

def crcBits (poly c : BitVec w) (bits : List Bool) : BitVec w := bits.foldl (crcBit poly) c

/-- The uppermost bits of the register, the first one highest. -/
def topBits (w : ℕ) : List Bool → BitVec w
  | [] => 0
  | b :: bits => topBit w b ^^^ topBits w bits >>> 1

theorem getLsbD_topBit (b : Bool) (i : ℕ) :
    (topBit w b).getLsbD i = (b && decide (i + 1 = w)) := by
  cases b with
  | false => simp [topBit]
  | true =>
      rw [topBit, if_pos rfl, BitVec.getLsbD_ofNat, Nat.testBit_two_pow]
      grind

section Table

theorem crcShift_xor (poly a b : BitVec w) :
    crcShift poly (a ^^^ b) = crcShift poly a ^^^ crcShift poly b := by
  have hshift : (a ^^^ b) <<< 1 = a <<< 1 ^^^ b <<< 1 := BitVec.shiftLeft_xor_distrib a b 1
  simp only [crcShift, BitVec.msb_xor, hshift]
  ext i hi
  cases a.msb <;> cases b.msb <;> simp <;> grind

theorem crcShifts_xor (poly : BitVec w) (n : ℕ) (a b : BitVec w) :
    crcShifts poly n (a ^^^ b) = crcShifts poly n a ^^^ crcShifts poly n b := by
  induction n generalizing a b with
  | zero => rfl
  | succ n ih => rw [crcShifts, crcShift_xor, ih, crcShifts, crcShifts]

/-- As long as no bit falls out, a shift is only a shift. -/
theorem crcShifts_of_low (poly : BitVec w) (n : ℕ) (c : BitVec w)
    (hlow : ∀ i, w ≤ i + n → c.getLsbD i = false) : crcShifts poly n c = c <<< n := by
  induction n generalizing c with
  | zero => rw [crcShifts, BitVec.shiftLeft_zero]
  | succ n ih =>
      have hmsb : c.msb = false := by
        rw [BitVec.msb_eq_getLsbD_last]
        exact hlow _ (by omega)
      rw [crcShifts, crcShift, hmsb, if_neg (by simp), ih, ← BitVec.shiftLeft_add, Nat.add_comm]
      intro i hi
      rw [BitVec.getLsbD_shiftLeft]
      by_cases hi1 : i < 1
      · simp [hi1]
      · rw [hlow (i - 1) (by omega), Bool.and_false]

/-- Shifting bits to the right and then into the message places gives them back. -/
theorem crcShift_ushiftRight (poly c : BitVec w) (hc : c.getLsbD 0 = false) :
    crcShift poly (c >>> 1) = c := by
  have hmsb : (c >>> 1).msb = false := by
    rw [BitVec.msb_eq_getLsbD_last, BitVec.getLsbD_ushiftRight]
    exact BitVec.getLsbD_of_ge c _ (by omega)
  rw [crcShift, hmsb, if_neg (by simp)]
  ext i hi
  rw [← BitVec.getLsbD_eq_getElem, ← BitVec.getLsbD_eq_getElem, BitVec.getLsbD_shiftLeft,
    BitVec.getLsbD_ushiftRight]
  rcases Nat.eq_zero_or_pos i with rfl | hpos
  · simp [hc]
  · simp [hi, show ¬ i < 1 by omega, show 1 + (i - 1) = i by omega]

theorem getLsbD_topBits (bits : List Bool) (i : ℕ) (hi : i + bits.length < w) :
    (topBits w bits).getLsbD i = false := by
  induction bits generalizing i with
  | nil => simp [topBits]
  | cons b bits ih =>
      rw [List.length_cons] at hi
      rw [topBits, BitVec.getLsbD_xor, getLsbD_topBit, BitVec.getLsbD_ushiftRight,
        ih (1 + i) (by omega)]
      simp
      omega

/-- The bits of a message one after the other are its bits at once, and as many shifts. -/
theorem crcBits_eq_crcShifts (poly c : BitVec w) (bits : List Bool) (hbits : bits.length ≤ w) :
    crcBits poly c bits = crcShifts poly bits.length (c ^^^ topBits w bits) := by
  induction bits generalizing c with
  | nil => simp [crcBits, crcShifts, topBits]
  | cons b bits ih =>
      rw [List.length_cons] at hbits
      have hback : crcShift poly (topBits w bits >>> 1) = topBits w bits :=
        crcShift_ushiftRight poly _ (getLsbD_topBits bits 0 (by omega))
      calc
        crcBits poly c (b :: bits) = crcBits poly (crcBit poly c b) bits := rfl
        _ = crcShifts poly bits.length (crcBit poly c b ^^^ topBits w bits) :=
          ih _ (by omega)
        _ = crcShifts poly bits.length
            (crcShift poly (c ^^^ topBit w b) ^^^ crcShift poly (topBits w bits >>> 1)) := by
          rw [crcBit, hback]
        _ = crcShifts poly (b :: bits).length (c ^^^ topBits w (b :: bits)) := by
          rw [← crcShift_xor, BitVec.xor_assoc]
          rfl

/-- Eight shifts at once: the lower bits move up, and the table knows what comes of the upper. -/
theorem crcShifts_eight (poly c : BitVec w) (hw : 8 ≤ w) :
    crcShifts poly 8 c =
      c <<< 8 ^^^ crcShifts poly 8 ((c >>> (w - 8)) <<< (w - 8)) := by
  have hlow : ∀ i, w ≤ i + 8 → (c ^^^ (c >>> (w - 8)) <<< (w - 8)).getLsbD i = false := by
    intro i hi
    rw [BitVec.getLsbD_xor, BitVec.getLsbD_shiftLeft, BitVec.getLsbD_ushiftRight,
      show w - 8 + (i - (w - 8)) = i by omega]
    by_cases hiw : i < w
    · simp [hiw, show ¬ i < w - 8 by omega]
    · simp [hiw, BitVec.getLsbD_of_ge c i (by omega)]
  have hfall : ((c >>> (w - 8)) <<< (w - 8)) <<< 8 = 0#w := by
    ext i hi
    rw [← BitVec.getLsbD_eq_getElem, BitVec.getLsbD_shiftLeft, BitVec.getLsbD_shiftLeft]
    simp
    omega
  have hsplit : c = (c ^^^ (c >>> (w - 8)) <<< (w - 8)) ^^^ (c >>> (w - 8)) <<< (w - 8) := by
    rw [BitVec.xor_assoc, BitVec.xor_self, BitVec.xor_zero]
  calc
    crcShifts poly 8 c = crcShifts poly 8
        ((c ^^^ (c >>> (w - 8)) <<< (w - 8)) ^^^ (c >>> (w - 8)) <<< (w - 8)) := by rw [← hsplit]
    _ = c <<< 8 ^^^ crcShifts poly 8 ((c >>> (w - 8)) <<< (w - 8)) := by
      rw [crcShifts_xor, crcShifts_of_low poly 8 _ hlow, BitVec.shiftLeft_xor_distrib, hfall,
        BitVec.xor_zero]

end Table

section Polynomials

/-- The bit at the position `i` is the coefficient of `X ^ i`. -/
noncomputable def toPoly (c : BitVec w) : (ZMod 2)[X] :=
  ∑ i ∈ Finset.range w, if c.getLsbD i then X ^ i else 0

/-- The generator, with its leading coefficient. -/
noncomputable def generator (poly : BitVec w) : (ZMod 2)[X] := X ^ w + toPoly poly

/-- A message, the first bit of which is the leading coefficient. -/
noncomputable def messagePoly (bits : List Bool) : (ZMod 2)[X] :=
  bits.foldl (fun p b ↦ p * X + if b then 1 else 0) 0

theorem coeff_toPoly (c : BitVec w) (n : ℕ) :
    (toPoly c).coeff n = if c.getLsbD n then 1 else 0 := by
  rw [toPoly, finsetSum_coeff]
  by_cases hn : n < w
  · rw [Finset.sum_eq_single_of_mem n (Finset.mem_range.mpr hn)]
    · split <;> simp
    · intro i _ hne
      split <;> simp [coeff_X_pow, Ne.symm hne]
  · rw [BitVec.getLsbD_of_ge c n (by omega), Finset.sum_eq_zero]
    · rfl
    · intro i hi
      have hne : n ≠ i := by
        have := Finset.mem_range.mp hi
        omega
      split <;> simp [coeff_X_pow, hne]

theorem degree_toPoly_lt (c : BitVec w) : (toPoly c).degree < w := by
  rw [degree_lt_iff_coeff_zero]
  intro n hn
  rw [coeff_toPoly, BitVec.getLsbD_of_ge c n hn]
  rfl

theorem toPoly_xor (a b : BitVec w) : toPoly (a ^^^ b) = toPoly a + toPoly b := by
  ext n
  rw [coeff_add, coeff_toPoly, coeff_toPoly, coeff_toPoly, BitVec.getLsbD_xor]
  have htwo : (1 + 1 : ZMod 2) = 0 := by decide
  cases a.getLsbD n <;> cases b.getLsbD n <;> simp [htwo]

theorem toPoly_zero : toPoly 0#w = 0 := by
  ext n
  simp [coeff_toPoly]

theorem monic_generator (poly : BitVec w) : (generator poly).Monic :=
  monic_X_pow_add (degree_toPoly_lt poly)

theorem degree_generator (poly : BitVec w) : (generator poly).degree = w := by
  have hlt : (toPoly poly).degree < (X ^ w : (ZMod 2)[X]).degree := by
    rw [degree_X_pow]
    exact degree_toPoly_lt poly
  rw [generator, degree_add_eq_left_of_degree_lt hlt, degree_X_pow]

/-- A bit that falls out of the register stands for `X ^ w`. -/
theorem X_mul_toPoly (c : BitVec w) :
    X * toPoly c = toPoly (c <<< 1) + if c.msb then X ^ w else 0 := by
  ext n
  have hif : (if c.msb then (X : (ZMod 2)[X]) ^ w else 0).coeff n =
      if c.msb = true ∧ n = w then 1 else 0 := by
    split
    · next h => simp [h, coeff_X_pow]
    · next h => simp [h]
  rw [coeff_add, hif, coeff_toPoly, BitVec.getLsbD_shiftLeft]
  rcases n with _ | n
  · rw [coeff_X_mul_zero]
    rcases Nat.eq_zero_or_pos w with rfl | hw
    · simp [BitVec.msb_eq_getLsbD_last]
    · simp [show ¬ 0 = w by omega]
  · rw [coeff_X_mul, coeff_toPoly, BitVec.msb_eq_getLsbD_last]
    rcases Nat.lt_trichotomy (n + 1) w with h | h | h
    · simp [h, show ¬ n + 1 = w by omega]
    · simp [← h]
    · simp [BitVec.getLsbD_of_ge c n (by omega), show ¬ n + 1 = w by omega,
        show ¬ n + 1 < w by omega]

/-- A shift is a multiplication by `X`, up to the generator. -/
theorem toPoly_crcShift (poly c : BitVec w) :
    ∃ q, X * toPoly c = toPoly (crcShift poly c) + q * generator poly := by
  have htwo : toPoly poly + toPoly poly = 0 := by
    rw [← toPoly_xor, BitVec.xor_self]
    exact toPoly_zero
  rw [X_mul_toPoly, crcShift]
  cases c.msb with
  | false => exact ⟨0, by simp⟩
  | true =>
      refine ⟨1, ?_⟩
      calc
        toPoly (c <<< 1) + X ^ w =
            toPoly (c <<< 1) + X ^ w + (toPoly poly + toPoly poly) := by rw [htwo, add_zero]
        _ = toPoly (c <<< 1 ^^^ poly) + 1 * generator poly := by
          rw [toPoly_xor, generator]
          ring

theorem X_mul_toPoly_topBit (hw : 0 < w) (b : Bool) :
    X * toPoly (topBit w b) = if b then X ^ w else 0 := by
  ext n
  rcases n with _ | n
  · rw [coeff_X_mul_zero]
    cases b <;> simp [coeff_X_pow, hw.ne]
  · rw [coeff_X_mul, coeff_toPoly, getLsbD_topBit]
    cases b <;> simp [coeff_X_pow]

/-- After any message the register differs from the message times `X ^ w` by a multiple. -/
theorem messagePoly_eq (hw : 0 < w) (poly : BitVec w) (bits : List Bool) :
    ∃ q, messagePoly bits * X ^ w = toPoly (crcBits poly 0 bits) + q * generator poly := by
  induction bits using List.reverseRecOn with
  | nil => exact ⟨0, by simp [messagePoly, crcBits, toPoly_zero]⟩
  | append_singleton bits b ih =>
      obtain ⟨q, hq⟩ := ih
      obtain ⟨q', hq'⟩ := toPoly_crcShift poly (crcBits poly 0 bits ^^^ topBit w b)
      have hcrc : crcBits poly 0 (bits ++ [b]) =
          crcShift poly (crcBits poly 0 bits ^^^ topBit w b) := by
        rw [crcBits, List.foldl_append]
        rfl
      have hmessage : messagePoly (bits ++ [b]) =
          messagePoly bits * X + if b then 1 else 0 := by
        rw [messagePoly, List.foldl_append]
        rfl
      refine ⟨X * q + q', ?_⟩
      calc
        messagePoly (bits ++ [b]) * X ^ w =
            X * (messagePoly bits * X ^ w) + if b then X ^ w else 0 := by
          rw [hmessage]
          split <;> ring
        _ = X * toPoly (crcBits poly 0 bits) + X * toPoly (topBit w b) +
            X * q * generator poly := by
          rw [hq, X_mul_toPoly_topBit hw]
          ring
        _ = toPoly (crcBits poly 0 (bits ++ [b])) + (X * q + q') * generator poly := by
          rw [← mul_add, ← toPoly_xor, hq', hcrc]
          ring

/-- The register holds the remainder of the message times `X ^ w`. -/
theorem toPoly_crcBits (hw : 0 < w) (poly : BitVec w) (bits : List Bool) :
    toPoly (crcBits poly 0 bits) = (messagePoly bits * X ^ w) %ₘ generator poly := by
  obtain ⟨q, hq⟩ := messagePoly_eq hw poly bits
  refine ((div_modByMonic_unique q _ (monic_generator poly) ⟨?_, ?_⟩).2).symm
  · rw [hq]
    ring
  · rw [degree_generator]
    exact degree_toPoly_lt _

end Polynomials

end Slience
