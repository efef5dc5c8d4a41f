import Slience.Lib.Bytes
import Slience.Lib.OnesComplement

/-!
# The checksum of a header

`HdrHelper::CheckSum` (`hdr_helper.hpp`) on a little-endian machine.  Which addition of 32-bit
words is used is a parameter: `wrapAdd` is the one of the machine, and `exactAdd` has no result
where that one overflows.
-/

namespace Slience

namespace HdrHelper

def wrapAdd (a b : UInt32) : Option UInt32 := some (a + b)

def exactAdd (a b : UInt32) : Option UInt32 :=
  if a.toNat + b.toNat < 2 ^ 32 then some (a + b) else none

/-- The word that is loaded from two bytes. -/
def loadLe16 (a b : Byte) : UInt16 := UInt16.ofNat (a.toNat + 2 ^ 8 * b.toNat)

/-- The two bytes of a word in memory. -/
def le16 (x : UInt16) : List Byte := [UInt8.ofNat x.toNat, UInt8.ofNat (x.toNat / 2 ^ 8)]

/-- The loop of `CheckSum` and the byte behind it; `mem` is what is in memory from `pW` on. -/
def sumWords (add : UInt32 → UInt32 → Option UInt32) : List Byte → ℤ → UInt32 → Option UInt32
  | a :: b :: mem, liLeft, liSum =>
      if liLeft > 1 then
        (add liSum (loadLe16 a b).toUInt32).bind (sumWords add mem (liLeft - 2))
      else if liLeft = 1 then add liSum (loadLe16 a 0).toUInt32
      else some liSum
  | [a], liLeft, liSum =>
      if liLeft > 1 then none
      else if liLeft = 1 then add liSum (loadLe16 a 0).toUInt32
      else some liSum
  | [], liLeft, liSum => if liLeft > 0 then none else some liSum

def checkSumWith (add : UInt32 → UInt32 → Option UInt32) (mem : List Byte) (aiLen : Int32) :
    Option UInt16 := do
  let liSum ← sumWords add mem aiLen.toInt 0
  let liSum ← add (liSum >>> 16) (liSum &&& 0xffff)
  let liSum ← add liSum (liSum >>> 16)
  some (~~~liSum).toUInt16

/-- `HdrHelper::CheckSum` -/
def checkSum (mem : List Byte) (aiLen : Int32) : Option UInt16 := checkSumWith wrapAdd mem aiLen

/-- The words of a buffer; a byte that is left is the low byte of a last word. -/
def words : List Byte → List ℕ
  | a :: b :: mem => (a.toNat + 2 ^ 8 * b.toNat) :: words mem
  | [a] => [a.toNat]
  | [] => []

/-! ## The sums -/

theorem toNat_loadLe16 (a b : Byte) : (loadLe16 a b).toNat = a.toNat + 2 ^ 8 * b.toNat := by
  have ha := a.toNat_lt
  have hb := b.toNat_lt
  rw [loadLe16, UInt16.toNat_ofNat']
  exact Nat.mod_eq_of_lt (by omega)

theorem le_of_mem_words {mem : List Byte} {x : ℕ} (h : x ∈ words mem) : x ≤ 2 ^ 16 - 1 := by
  induction mem using words.induct with
  | case1 a b mem ih =>
      have ha := a.toNat_lt
      have hb := b.toNat_lt
      rw [words, List.mem_cons] at h
      rcases h with rfl | h
      · omega
      · exact ih h
  | case2 a =>
      have ha := a.toNat_lt
      cases List.mem_singleton.mp h
      omega
  | case3 => cases h

theorem sum_words_le (mem : List Byte) :
    2 * (words mem).sum ≤ (2 ^ 16 - 1) * (mem.length + 1) := by
  induction mem using words.induct with
  | case1 a b mem ih =>
      have ha := a.toNat_lt
      have hb := b.toNat_lt
      rw [words, List.sum_cons, List.length_cons, List.length_cons]
      omega
  | case2 a =>
      have ha := a.toNat_lt
      simp only [words, List.sum_singleton, List.length_singleton]
      omega
  | case3 => exact Nat.zero_le _

theorem exactAdd_eq {a b : UInt32} (h : a.toNat + b.toNat < 2 ^ 32) :
    ∃ c, exactAdd a b = some c ∧ c.toNat = a.toNat + b.toNat := by
  refine ⟨a + b, if_pos h, ?_⟩
  rw [UInt32.toNat_add, Nat.mod_eq_of_lt h]

theorem sumWords_exact {mem : List Byte} {liSum : UInt32}
    (h : liSum.toNat + (words mem).sum < 2 ^ 32) :
    ∃ s, sumWords exactAdd mem mem.length liSum = some s ∧
      s.toNat = liSum.toNat + (words mem).sum := by
  induction mem using words.induct generalizing liSum with
  | case1 a b mem ih =>
      rw [words, List.sum_cons, ← Nat.add_assoc, ← toNat_loadLe16, ← UInt16.toNat_toUInt32] at h ⊢
      obtain ⟨c, hadd, hc⟩ := exactAdd_eq (Nat.lt_of_le_of_lt (Nat.le_add_right _ _) h)
      rw [← hc] at h ⊢
      obtain ⟨s, hs, hsum⟩ := ih h
      refine ⟨s, ?_, hsum⟩
      have hleft : ((a :: b :: mem).length : ℤ) - 2 = mem.length := by
        rw [List.length_cons, List.length_cons]
        omega
      rw [sumWords, if_pos (by rw [List.length_cons, List.length_cons]; omega), hadd,
        Option.bind_some, hleft, hs]
  | case2 a =>
      have hword : a.toNat = (loadLe16 a 0).toUInt32.toNat := by
        rw [UInt16.toNat_toUInt32, toNat_loadLe16]
        rfl
      rw [words, List.sum_singleton, hword] at h ⊢
      obtain ⟨c, hadd, hc⟩ := exactAdd_eq h
      exact ⟨c, hadd, hc⟩
  | case3 => exact ⟨liSum, rfl, rfl⟩

theorem wrapAdd_of_exact {a b c : UInt32} (h : exactAdd a b = some c) :
    wrapAdd a b = some c := by
  unfold exactAdd at h
  split at h
  · exact h
  · cases h

theorem sumWords_of_exact {mem : List Byte} {liLeft : ℤ} {liSum s : UInt32}
    (h : sumWords exactAdd mem liLeft liSum = some s) :
    sumWords wrapAdd mem liLeft liSum = some s := by
  induction mem using words.induct generalizing liLeft liSum with
  | case1 a b mem ih =>
      rw [sumWords] at h ⊢
      by_cases hleft : liLeft > 1
      · rw [if_pos hleft] at h ⊢
        obtain ⟨c, hadd, hrest⟩ := Option.bind_eq_some_iff.mp h
        rw [wrapAdd_of_exact hadd, Option.bind_some]
        exact ih hrest
      · rw [if_neg hleft] at h ⊢
        split at h
        · rename_i hlast
          rw [if_pos hlast]
          exact wrapAdd_of_exact h
        · rename_i hlast
          rw [if_neg hlast]
          exact h
  | case2 a =>
      rw [sumWords] at h ⊢
      by_cases hleft : liLeft > 1
      · rw [if_pos hleft] at h
        cases h
      · rw [if_neg hleft] at h ⊢
        split at h
        · rename_i hlast
          rw [if_pos hlast]
          exact wrapAdd_of_exact h
        · rename_i hlast
          rw [if_neg hlast]
          exact h
  | case3 => exact h

/-! ## The checksum -/

theorem toNat_high (s : UInt32) : (s >>> 16).toNat = s.toNat / 2 ^ 16 := by
  rw [UInt32.toNat_shiftRight, Nat.shiftRight_eq_div_pow]
  rfl

theorem toNat_low (s : UInt32) : (s &&& 0xffff).toNat = s.toNat % 2 ^ 16 := by
  rw [UInt32.toNat_and]
  exact Nat.and_two_pow_sub_one_eq_mod s.toNat 16

theorem toNat_not_low (s : UInt32) :
    (~~~s).toUInt16.toNat = 2 ^ 16 - 1 - s.toNat % 2 ^ 16 := by
  have hs := s.toNat_lt
  rw [UInt32.toNat_toUInt16, UInt32.toNat_not]
  simp only [UInt32.size]
  omega

/-- The one's complement sum of the words of a buffer. -/
def onesSumOf (mem : List Byte) : ℕ := onesSum (2 ^ 16 - 1) (words mem)

theorem onesRep_onesSumOf (mem : List Byte) :
    OnesRep (2 ^ 16 - 1) (words mem).sum (onesSumOf mem) :=
  onesRep_onesSum fun _ h ↦ le_of_mem_words h

theorem checkSumWith_of_exact {mem : List Byte} {aiLen : Int32} {r : UInt16}
    (h : checkSumWith exactAdd mem aiLen = some r) : checkSum mem aiLen = some r := by
  obtain ⟨s, hs, h⟩ := Option.bind_eq_some_iff.mp h
  obtain ⟨s₁, hs₁, h⟩ := Option.bind_eq_some_iff.mp h
  obtain ⟨s₂, hs₂, h⟩ := Option.bind_eq_some_iff.mp h
  rw [checkSum, checkSumWith, sumWords_of_exact hs]
  simp only [Option.bind_eq_bind, Option.bind_some, wrapAdd_of_exact hs₁, wrapAdd_of_exact hs₂]
  exact h

/-- Nothing overflows, and two folds are enough. -/
theorem checkSumWith_exact {mem : List Byte} (h : mem.length ≤ 65535) :
    ∃ r, checkSumWith exactAdd mem (Int32.ofNat mem.length) = some r ∧
      r.toNat = 2 ^ 16 - 1 - onesSumOf mem := by
  have hlen : (Int32.ofNat mem.length).toInt = mem.length :=
    Int32.toInt_ofNat_of_lt (by omega)
  have hle := sum_words_le mem
  have hzero : (0 : UInt32).toNat + (words mem).sum = (words mem).sum := Nat.zero_add _
  obtain ⟨s, hs, hsum⟩ := sumWords_exact (show
    (0 : UInt32).toNat + (words mem).sum < 2 ^ 32 by omega)
  have hsmall : s.toNat < 2 ^ 31 := by omega
  obtain ⟨s₁, hs₁, hsum₁⟩ := exactAdd_eq (a := s >>> 16) (b := s &&& 0xffff) (by
    rw [toNat_high, toNat_low]
    omega)
  have hfold : s₁.toNat = foldHigh (2 ^ 16 - 1) s.toNat := by
    rw [hsum₁, toNat_high, toNat_low]
    rfl
  obtain ⟨s₂, hs₂, hsum₂⟩ := exactAdd_eq (a := s₁) (b := s₁ >>> 16) (by
    rw [toNat_high, hsum₁, toNat_high, toNat_low]
    omega)
  have hrep : OnesRep (2 ^ 16 - 1) s.toNat (s₂.toNat % 2 ^ 16) := by
    rw [hsum₂, toNat_high, hfold]
    exact onesRep_fold (by omega)
  refine ⟨(~~~s₂).toUInt16, ?_, ?_⟩
  · rw [checkSumWith, hlen, hs]
    simp only [Option.bind_eq_bind, Option.bind_some, hs₁, hs₂]
  · rw [hsum, hzero] at hrep
    rw [toNat_not_low, hrep.unique (onesRep_onesSumOf mem)]

theorem checkSum_eq {mem : List Byte} (h : mem.length ≤ 65535) :
    ∃ r, checkSum mem (Int32.ofNat mem.length) = some r ∧
      r.toNat = 2 ^ 16 - 1 - onesSumOf mem := by
  obtain ⟨r, hr, hnat⟩ := checkSumWith_exact h
  exact ⟨r, checkSumWith_of_exact hr, hnat⟩

/-! ## The checksum in its place -/

theorem words_append {pre : List Byte} (heven : Even pre.length) (l : List Byte) :
    words (pre ++ l) = words pre ++ words l := by
  induction pre using words.induct with
  | case1 a b pre ih =>
      rw [List.length_cons, List.length_cons, Nat.even_add_one, Nat.even_add_one, not_not] at heven
      rw [List.cons_append, List.cons_append, words, words, ih heven, List.cons_append]
  | case2 a => simp at heven
  | case3 => rfl

theorem sum_words_le16 {pre : List Byte} (heven : Even pre.length) (x : UInt16)
    (post : List Byte) :
    (words (pre ++ le16 x ++ post)).sum = (words pre).sum + (words post).sum + x.toNat := by
  have hx := x.toNat_lt
  have hword : words (le16 x ++ post) = x.toNat :: words post := by
    rw [le16, List.cons_append, List.cons_append, List.nil_append, words, UInt8.toNat_ofNat',
      UInt8.toNat_ofNat']
    congr 1
    omega
  rw [List.append_assoc, words_append heven, hword, List.sum_append, List.sum_cons]
  omega

/-- The checksum that is stored in a word that was zero makes the checksum zero. -/
theorem checkSum_stored {pre post : List Byte} (heven : Even pre.length)
    (hlen : (pre ++ [0, 0] ++ post).length ≤ 65535) {r : UInt16}
    (h : checkSum (pre ++ [0, 0] ++ post) (Int32.ofNat (pre ++ [0, 0] ++ post).length) = some r) :
    checkSum (pre ++ le16 r ++ post) (Int32.ofNat (pre ++ le16 r ++ post).length) = some 0 := by
  obtain ⟨r', hr', hnat⟩ := checkSum_eq hlen
  rw [h] at hr'
  cases hr'
  have hrep := onesRep_onesSumOf (pre ++ [0, 0] ++ post)
  have hsum : (words (pre ++ [0, 0] ++ post)).sum = (words pre).sum + (words post).sum :=
    sum_words_le16 heven 0 post
  rw [hsum] at hrep
  have hall := hrep.add_compl (by decide)
  rw [← hnat, ← sum_words_le16 heven r post] at hall
  have hlen' : (pre ++ le16 r ++ post).length ≤ 65535 := by
    simpa [le16] using hlen
  obtain ⟨r', hr', hnat'⟩ := checkSum_eq hlen'
  rw [(onesRep_onesSumOf _).unique hall, Nat.sub_self] at hnat'
  rw [hr', Option.some.injEq]
  exact UInt16.toNat_inj.mp hnat'

/-- The checksum is the complement of the one's complement sum, no addition overflows, and it
checks itself. -/
theorem checkSum_correct {mem : List Byte} (h : mem.length ≤ 65535) :
    (∃ r, checkSumWith exactAdd mem (Int32.ofNat mem.length) = some r ∧
      checkSum mem (Int32.ofNat mem.length) = some r ∧ r = ~~~(UInt16.ofNat (onesSumOf mem))) ∧
      ∀ pre post, mem = pre ++ [0, 0] ++ post → Even pre.length →
        ∀ r, checkSum mem (Int32.ofNat mem.length) = some r →
          checkSum (pre ++ le16 r ++ post) (Int32.ofNat (pre ++ le16 r ++ post).length) =
            some 0 := by
  constructor
  · obtain ⟨r, hr, hnat⟩ := checkSumWith_exact h
    refine ⟨r, hr, checkSumWith_of_exact hr, UInt16.toNat_inj.mp ?_⟩
    have hle := (onesRep_onesSumOf mem).le
    rw [UInt16.toNat_not, UInt16.toNat_ofNat', hnat, Nat.mod_eq_of_lt (by omega)]
    rfl
  · rintro pre post rfl heven r hr
    exact checkSum_stored heven h hr

/-- Five bytes, with the checksum in the second word. -/
theorem checkSum_correct_five :
    checkSum [1, 2, 0, 0, 3] 5 = some 0xfdfb ∧ checkSum [1, 2, 0xfb, 0xfd, 3] 5 = some 0 := by
  have hlen : ([1, 2, 0, 0, 3] : List Byte).length ≤ 65535 := by decide
  have hsum : checkSum [1, 2, 0, 0, 3] 5 = some 0xfdfb := by decide
  exact ⟨hsum, (checkSum_correct hlen).2 [1, 2] [3] rfl (by decide) 0xfdfb hsum⟩

end HdrHelper

end Slience
