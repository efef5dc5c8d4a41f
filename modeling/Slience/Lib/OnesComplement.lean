import Mathlib.Data.Nat.ModEq
import Mathlib.Tactic

/-!
# One's complement sums

Words are numbers up to `m`, the word whose bits are all one.  A one's complement sum adds the
carry of each addition at the other end, so that it is determined modulo `m`; of the two words
that are zero modulo `m` it is `0` only where all summands are.  A sum that was taken without
these carries is reduced by folding.
-/

namespace Slience

/-- Addition with the carry added at the other end. -/
def endAround (m a b : ℕ) : ℕ := (a + b) % (m + 1) + (a + b) / (m + 1)

def onesSum (m : ℕ) (ws : List ℕ) : ℕ := ws.foldl (endAround m) 0

/-- The high part of a sum added to its low part. -/
def foldHigh (m s : ℕ) : ℕ := s / (m + 1) + s % (m + 1)

/-- The word `x` stands for the number `s`. -/
structure OnesRep (m s x : ℕ) : Prop where
  le : x ≤ m
  modEq : x ≡ s [MOD m]
  zero_iff : x = 0 ↔ s = 0

variable {m s t x y : ℕ}

theorem OnesRep.unique (h : OnesRep m s x) (h' : OnesRep m s y) : x = y := by
  by_contra hne
  wlog hlt : x < y generalizing x y
  · exact this h' h (Ne.symm hne) (by omega)
  have hdvd : m ∣ y - x := (Nat.modEq_iff_dvd' hlt.le).mp (h.modEq.trans h'.modEq.symm)
  have hle := Nat.le_of_dvd (by omega) hdvd
  have hy := h'.le
  have hx : x = 0 := by omega
  have hs := h.zero_iff.mp hx
  have hy0 := h'.zero_iff.mpr hs
  omega

/-- Carries may be added at the other end, or left out, modulo `m`. -/
theorem foldHigh_modEq (m s : ℕ) : foldHigh m s ≡ s [MOD m] := by
  have hs : s = m * (s / (m + 1)) + foldHigh m s := by
    have hdiv := Nat.div_add_mod s (m + 1)
    rw [Nat.add_mul, Nat.one_mul] at hdiv
    unfold foldHigh
    omega
  rw [Nat.ModEq]
  conv_rhs => rw [hs, Nat.mul_add_mod]

theorem foldHigh_eq_zero_iff : foldHigh m s = 0 ↔ s = 0 := by
  constructor
  · intro h
    have hdiv := Nat.div_add_mod s (m + 1)
    obtain ⟨hhigh, hlow⟩ := Nat.add_eq_zero_iff.mp h
    rw [← hdiv, hhigh, hlow, Nat.mul_zero]
  · rintro rfl
    simp [foldHigh]

theorem OnesRep.endAround (h : OnesRep m s x) (hy : y ≤ m) :
    OnesRep m (s + y) (endAround m x y) := by
  have hfold : Slience.endAround m x y = foldHigh m (x + y) := Nat.add_comm _ _
  rw [hfold]
  refine ⟨?_, (foldHigh_modEq m _).trans (h.modEq.add_right y), ?_⟩
  · have hx := h.le
    unfold foldHigh
    rcases Nat.lt_or_ge (x + y) (m + 1) with hlt | hge
    · rw [Nat.div_eq_of_lt hlt, Nat.mod_eq_of_lt hlt]
      omega
    · have hdiv : (x + y) / (m + 1) = 1 := by
        rw [Nat.div_eq_iff (by omega)]
        omega
      have hmod := Nat.div_add_mod (x + y) (m + 1)
      rw [hdiv] at hmod ⊢
      omega
  · rw [foldHigh_eq_zero_iff, Nat.add_eq_zero_iff, h.zero_iff, Nat.add_eq_zero_iff]

theorem onesRep_onesSum {ws : List ℕ} (hws : ∀ a ∈ ws, a ≤ m) :
    OnesRep m ws.sum (onesSum m ws) := by
  have hfold : ∀ (ws : List ℕ) (s x : ℕ), OnesRep m s x → (∀ a ∈ ws, a ≤ m) →
      OnesRep m (s + ws.sum) (ws.foldl (Slience.endAround m) x) := by
    intro ws
    induction ws with
    | nil => exact fun s x h _ ↦ h
    | cons a ws ih =>
        intro s x h hws
        rw [List.forall_mem_cons] at hws
        rw [List.sum_cons, ← Nat.add_assoc, List.foldl_cons]
        exact ih _ _ (h.endAround hws.1) hws.2
  have hzero : OnesRep m 0 0 := ⟨Nat.zero_le m, rfl, Iff.rfl⟩
  have hsum := hfold ws 0 0 hzero hws
  rw [Nat.zero_add] at hsum
  exact hsum

/-- Two folds are enough for a sum that has at most twice the bits of a word; of the second one
only the low part is needed. -/
theorem onesRep_fold (h : s < (m + 1) * (m + 1)) :
    OnesRep m s ((foldHigh m s + foldHigh m s / (m + 1)) % (m + 1)) := by
  have hhigh : s / (m + 1) < m + 1 := Nat.div_lt_of_lt_mul h
  have hlow := Nat.mod_lt s (show 0 < m + 1 by omega)
  have hle : foldHigh m s ≤ 2 * m := by
    unfold foldHigh
    omega
  have hmodEq := foldHigh_modEq m s
  have hzero := foldHigh_eq_zero_iff (m := m) (s := s)
  generalize foldHigh m s = r at hle hmodEq hzero
  rcases Nat.lt_or_ge r (m + 1) with hlt | hge
  · rw [Nat.div_eq_of_lt hlt, Nat.add_zero, Nat.mod_eq_of_lt hlt]
    exact ⟨by omega, hmodEq, hzero⟩
  · have hdiv : r / (m + 1) = 1 := by
      rw [Nat.div_eq_iff (by omega)]
      omega
    have hmod : (r + 1) % (m + 1) = r - m := by
      rw [Nat.mod_eq_sub_mod (by omega), Nat.mod_eq_of_lt (by omega)]
      omega
    rw [hdiv, hmod]
    refine ⟨by omega, ?_, by omega⟩
    have hsub : r - m ≡ r [MOD m] := by
      rw [Nat.ModEq, ← Nat.mod_eq_sub_mod (by omega)]
    exact hsub.trans hmodEq

/-- A sum and the complement of its word have all bits one. -/
theorem OnesRep.add_compl (h : OnesRep m s x) (hm : m ≠ 0) : OnesRep m (s + (m - x)) m := by
  have hx := h.le
  refine ⟨le_rfl, ?_, ?_⟩
  · have hsum : x + (m - x) ≡ s + (m - x) [MOD m] := h.modEq.add_right _
    rwa [Nat.add_sub_cancel' hx] at hsum
  · refine iff_of_false hm ?_
    intro hzero
    have hs : s = 0 := by omega
    have hx0 := h.zero_iff.mpr hs
    omega

end Slience
