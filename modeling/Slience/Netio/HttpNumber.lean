import Mathlib.Data.List.TakeWhile
import Slience.Netio.HttpMsg

/-!
# Numbers in a header

`atoi` skips blanks, takes a sign and reads digits up to the first other byte.
-/

namespace Slience

namespace Http

theorem toNat_of_isDigit {b : Byte} (h : isDigit b = true) : 48 ≤ b.toNat ∧ b.toNat ≤ 57 := by
  simpa [isDigit, UInt8.le_iff_toNat_le] using h

theorem isSpace_of_isDigit {b : Byte} (h : isDigit b = true) : isSpace b = false := by
  have hrange := toNat_of_isDigit h
  simp [isSpace, UInt8.le_iff_toNat_le, ← UInt8.toNat_inj]
  omega

theorem ne_of_isDigit {b c : Byte} (h : isDigit b = true) (hc : c.toNat < 48) : b ≠ c := by
  have hrange := toNat_of_isDigit h
  rintro rfl
  omega

theorem takeWhile_digits {ds tail : List Byte} (hds : ∀ b ∈ ds, isDigit b = true)
    (htail : ∀ b ∈ tail.head?, isDigit b = false) : (ds ++ tail).takeWhile isDigit = ds := by
  rw [List.takeWhile_append_of_pos hds]
  cases tail with
  | nil => exact List.append_nil _
  | cons b tail =>
      rw [List.takeWhile_cons_of_neg (by simp [htail b rfl]), List.append_nil]

theorem atoi_digits {blanks ds tail : List Byte} (hblanks : ∀ b ∈ blanks, isSpace b = true)
    (hne : ds ≠ []) (hds : ∀ b ∈ ds, isDigit b = true)
    (htail : ∀ b ∈ tail.head?, isDigit b = false) (hval : digitsVal ds < 2 ^ 31) :
    atoi (blanks ++ (ds ++ tail)) = some (digitsVal ds : ℤ) := by
  obtain ⟨d, ds', rfl⟩ := List.exists_cons_of_ne_nil hne
  have hd := hds d List.mem_cons_self
  have hspace : (blanks ++ (d :: ds' ++ tail)).dropWhile isSpace = d :: ds' ++ tail := by
    rw [List.dropWhile_append_of_pos hblanks]
    exact List.dropWhile_cons_of_neg (by simp [isSpace_of_isDigit hd])
  have htake := takeWhile_digits hds htail
  have hadd : addInt 0 (digitsVal (d :: ds') : ℤ) = some (digitsVal (d :: ds') : ℤ) := by
    rw [addInt_of_bounds (by omega) (by omega), zero_add]
  have hminus : d ≠ 45 := ne_of_isDigit hd (by decide)
  have hplus : d ≠ 43 := ne_of_isDigit hd (by decide)
  unfold atoi
  rw [hspace]
  split
  · rename_i heq
    exact absurd (List.cons_eq_cons.mp heq).1 hminus
  · rename_i heq
    exact absurd (List.cons_eq_cons.mp heq).1 hplus
  · rw [htake, hadd]

theorem atoi_lt {s : List Byte} {z : ℤ} (h : atoi s = some z) : -2 ^ 31 ≤ z ∧ z < 2 ^ 31 := by
  have hadd {a b c : ℤ} (h : addInt a b = some c) : -2 ^ 31 ≤ c ∧ c < 2 ^ 31 := by
    unfold addInt at h
    split at h
    · rename_i hbounds
      cases h
      exact hbounds
    · cases h
  unfold atoi at h
  split at h <;> exact hadd h

theorem atoi_takeWhile (s : List Byte) : atoi (s.takeWhile (· ≠ 0)) = atoi s := by
  have hspace : (s.takeWhile (· ≠ 0)).dropWhile isSpace =
      (s.dropWhile isSpace).takeWhile (· ≠ 0) := by
    induction s with
    | nil => rfl
    | cons b s ih =>
        by_cases hb : isSpace b = true
        · have hne : b ≠ 0 := by
            rintro rfl
            exact absurd hb (by decide)
          rw [List.takeWhile_cons_of_pos (by simpa using hne), List.dropWhile_cons_of_pos hb,
            List.dropWhile_cons_of_pos hb, ih]
        · rw [List.dropWhile_cons_of_neg hb]
          by_cases hzero : b = 0
          · simp [hzero]
          · rw [List.takeWhile_cons_of_pos (by simpa using hzero), List.dropWhile_cons_of_neg hb]
  have hdigits (t : List Byte) :
      (t.takeWhile (· ≠ 0)).takeWhile isDigit = t.takeWhile isDigit := by
    rw [List.takeWhile_takeWhile]
    congr 1
    funext b
    by_cases hb : isDigit b = true
    · simp [hb, ne_of_isDigit hb (show (0 : Byte).toNat < 48 by decide)]
    · simp [hb]
  unfold atoi
  rw [hspace]
  generalize s.dropWhile isSpace = t
  cases t with
  | nil => rfl
  | cons b t =>
      by_cases hzero : b = 0
      · subst hzero
        rfl
      · rw [List.takeWhile_cons_of_pos (by simpa using hzero)]
        by_cases hminus : b = 45
        · subst hminus
          simp only [hdigits]
        · by_cases hplus : b = 43
          · subst hplus
            simp only [hdigits]
          · have hcons := hdigits (b :: t)
            rw [List.takeWhile_cons_of_pos (by simpa using hzero)] at hcons
            simp only [ne_eq, decide_not] at hcons
            simp [hminus, hplus, hcons]

end Http

end Slience
