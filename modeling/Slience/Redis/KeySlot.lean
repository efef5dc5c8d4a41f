import Slience.Lib.Crc
import Slience.Lib.Delimiter
import Slience.Redis.Format

/-!
# The slot of a key

The keys of a cluster are spread over 16384 slots by their `crc16` (`crc16.cpp`); of a key with
braces only what stands between them counts (`keyHashSlot`).
-/

namespace Slience

namespace Redis

set_option maxRecDepth 2000 in
/-- `crc16tab` -/
def crc16tab : Vector (BitVec 16) 256 :=
  #v[0x0000, 0x1021, 0x2042, 0x3063, 0x4084, 0x50a5, 0x60c6, 0x70e7, 0x8108, 0x9129, 0xa14a, 0xb16b,
    0xc18c, 0xd1ad, 0xe1ce, 0xf1ef, 0x1231, 0x0210, 0x3273, 0x2252, 0x52b5, 0x4294, 0x72f7, 0x62d6,
    0x9339, 0x8318, 0xb37b, 0xa35a, 0xd3bd, 0xc39c, 0xf3ff, 0xe3de, 0x2462, 0x3443, 0x0420, 0x1401,
    0x64e6, 0x74c7, 0x44a4, 0x5485, 0xa56a, 0xb54b, 0x8528, 0x9509, 0xe5ee, 0xf5cf, 0xc5ac, 0xd58d,
    0x3653, 0x2672, 0x1611, 0x0630, 0x76d7, 0x66f6, 0x5695, 0x46b4, 0xb75b, 0xa77a, 0x9719, 0x8738,
    0xf7df, 0xe7fe, 0xd79d, 0xc7bc, 0x48c4, 0x58e5, 0x6886, 0x78a7, 0x0840, 0x1861, 0x2802, 0x3823,
    0xc9cc, 0xd9ed, 0xe98e, 0xf9af, 0x8948, 0x9969, 0xa90a, 0xb92b, 0x5af5, 0x4ad4, 0x7ab7, 0x6a96,
    0x1a71, 0x0a50, 0x3a33, 0x2a12, 0xdbfd, 0xcbdc, 0xfbbf, 0xeb9e, 0x9b79, 0x8b58, 0xbb3b, 0xab1a,
    0x6ca6, 0x7c87, 0x4ce4, 0x5cc5, 0x2c22, 0x3c03, 0x0c60, 0x1c41, 0xedae, 0xfd8f, 0xcdec, 0xddcd,
    0xad2a, 0xbd0b, 0x8d68, 0x9d49, 0x7e97, 0x6eb6, 0x5ed5, 0x4ef4, 0x3e13, 0x2e32, 0x1e51, 0x0e70,
    0xff9f, 0xefbe, 0xdfdd, 0xcffc, 0xbf1b, 0xaf3a, 0x9f59, 0x8f78, 0x9188, 0x81a9, 0xb1ca, 0xa1eb,
    0xd10c, 0xc12d, 0xf14e, 0xe16f, 0x1080, 0x00a1, 0x30c2, 0x20e3, 0x5004, 0x4025, 0x7046, 0x6067,
    0x83b9, 0x9398, 0xa3fb, 0xb3da, 0xc33d, 0xd31c, 0xe37f, 0xf35e, 0x02b1, 0x1290, 0x22f3, 0x32d2,
    0x4235, 0x5214, 0x6277, 0x7256, 0xb5ea, 0xa5cb, 0x95a8, 0x8589, 0xf56e, 0xe54f, 0xd52c, 0xc50d,
    0x34e2, 0x24c3, 0x14a0, 0x0481, 0x7466, 0x6447, 0x5424, 0x4405, 0xa7db, 0xb7fa, 0x8799, 0x97b8,
    0xe75f, 0xf77e, 0xc71d, 0xd73c, 0x26d3, 0x36f2, 0x0691, 0x16b0, 0x6657, 0x7676, 0x4615, 0x5634,
    0xd94c, 0xc96d, 0xf90e, 0xe92f, 0x99c8, 0x89e9, 0xb98a, 0xa9ab, 0x5844, 0x4865, 0x7806, 0x6827,
    0x18c0, 0x08e1, 0x3882, 0x28a3, 0xcb7d, 0xdb5c, 0xeb3f, 0xfb1e, 0x8bf9, 0x9bd8, 0xabbb, 0xbb9a,
    0x4a75, 0x5a54, 0x6a37, 0x7a16, 0x0af1, 0x1ad0, 0x2ab3, 0x3a92, 0xfd2e, 0xed0f, 0xdd6c, 0xcd4d,
    0xbdaa, 0xad8b, 0x9de8, 0x8dc9, 0x7c26, 0x6c07, 0x5c64, 0x4c45, 0x3ca2, 0x2c83, 0x1ce0, 0x0cc1,
    0xef1f, 0xff3e, 0xcf5d, 0xdf7c, 0xaf9b, 0xbfba, 0x8fd9, 0x9ff8, 0x6e17, 0x7e36, 0x4e55, 0x5e74,
    0x2e93, 0x3eb2, 0x0ed1, 0x1ef0]

/-- The place in the table; a `char` has a sign, but only eight bits are kept. -/
def crc16Index (crc : BitVec 16) (b : Byte) : ℕ :=
  (((crc >>> 8).setWidth 32 ^^^ b.toBitVec.signExtend 32) &&& 0x00FF#32).toNat

theorem crc16Index_lt (crc : BitVec 16) (b : Byte) : crc16Index crc b < 256 := by
  have hand : crc16Index crc b ≤ 255 := by
    rw [crc16Index, BitVec.toNat_and]
    exact Nat.and_le_right
  omega

/-- A turn of the loop of `crc16`. -/
def crc16Turn (crc : BitVec 16) (b : Byte) : BitVec 16 :=
  crc <<< 8 ^^^ crc16tab.get ⟨crc16Index crc b, crc16Index_lt crc b⟩

/-- `crc16` -/
def crc16 (buf : Text) : BitVec 16 := buf.foldl crc16Turn 0

def redisClusterSlots : ℕ := 16384

/-- `keyHashSlot` -/
def keyHashSlot (key : Text) : ℕ :=
  let s := key.findIdx (· = 123)
  if s = key.length then (crc16 key &&& 0x3FFF).toNat
  else
    let e := s + 1 + (key.drop (s + 1)).findIdx (· = 125)
    if e = key.length ∨ e = s + 1 then (crc16 key &&& 0x3FFF).toNat
    else (crc16 ((key.drop (s + 1)).take (e - s - 1)) &&& 0x3FFF).toNat

theorem keyHashSlot_lt (key : Text) : keyHashSlot key < redisClusterSlots := by
  have hand (crc : BitVec 16) : (crc &&& 0x3FFF).toNat < redisClusterSlots := by
    have hle : (crc &&& 0x3FFF).toNat ≤ 0x3FFF := by
      rw [BitVec.toNat_and]
      exact Nat.and_le_right
    rw [redisClusterSlots]
    omega
  simp only [keyHashSlot]
  split
  · exact hand _
  · split <;> exact hand _

section Remainder

open Polynomial

/-- The bits of a byte, the uppermost one first. -/
def byteBits (b : Byte) : List Bool := (List.range 8).map fun i ↦ b.toBitVec.getLsbD (7 - i)

def crc16Poly : BitVec 16 := 0x1021

/-- The table holds what eight shifts make of the uppermost byte. -/
theorem crc16tab_eq : ∀ i : Fin 256,
    crc16tab.get i = crcShifts crc16Poly 8 (BitVec.ofNat 16 i.val <<< 8) := by
  decide +kernel

theorem topBits_byteBits (b : Byte) :
    topBits 16 (byteBits b) = b.toBitVec.setWidth 16 <<< 8 := by
  have hall : ∀ i : Fin 256, topBits 16 (byteBits (UInt8.ofFin i)) =
      (UInt8.ofFin i).toBitVec.setWidth 16 <<< 8 := by
    decide +kernel
  exact hall b.toFin

theorem getLsbD_low (i : ℕ) : (0x00FF#32).getLsbD i = decide (i < 8) := by
  by_cases h : i < 32
  · have hall : ∀ j : Fin 32, (0x00FF#32).getLsbD j = decide (j.val < 8) := by decide
    exact hall ⟨i, h⟩
  · rw [BitVec.getLsbD_of_ge _ i (by omega)]
    simp
    omega

theorem crc16Index_eq (crc : BitVec 16) (b : Byte) :
    BitVec.ofNat 16 (crc16Index crc b) = crc >>> 8 ^^^ b.toBitVec.setWidth 16 := by
  rw [crc16Index, BitVec.ofNat_toNat]
  refine BitVec.eq_of_getLsbD_eq fun i hi ↦ ?_
  simp only [BitVec.getLsbD_setWidth, BitVec.getLsbD_and, BitVec.getLsbD_xor,
    BitVec.getLsbD_ushiftRight, BitVec.getLsbD_signExtend, getLsbD_low]
  by_cases hlow : i < 8
  · simp [hlow, hi, show i < 32 by omega]
  · simp [hlow, BitVec.getLsbD_of_ge crc (8 + i) (by omega),
      BitVec.getLsbD_of_ge b.toBitVec i (by omega)]

/-- A turn is one for each bit of the byte. -/
theorem crc16Turn_eq (crc : BitVec 16) (b : Byte) :
    crc16Turn crc b = crcBits crc16Poly crc (byteBits b) := by
  have hlen : (byteBits b).length = 8 := by simp [byteBits]
  have hlow : (crc ^^^ b.toBitVec.setWidth 16 <<< 8) <<< 8 = crc <<< 8 := by
    rw [BitVec.shiftLeft_xor_distrib, ← BitVec.shiftLeft_add]
    refine BitVec.eq_of_getLsbD_eq fun i hi ↦ ?_
    simp [hi]
  have hhigh : (crc ^^^ b.toBitVec.setWidth 16 <<< 8) >>> 8 =
      crc >>> 8 ^^^ b.toBitVec.setWidth 16 := by
    refine BitVec.eq_of_getLsbD_eq fun i hi ↦ ?_
    by_cases h : 8 + i < 16
    · simp [h, hi]
    · simp [BitVec.getLsbD_of_ge b.toBitVec i (by omega), h]
  calc
    crc16Turn crc b = crc <<< 8 ^^^
        crcShifts crc16Poly 8 (BitVec.ofNat 16 (crc16Index crc b) <<< 8) := by
      rw [crc16Turn, crc16tab_eq]
    _ = crcShifts crc16Poly 8 (crc ^^^ b.toBitVec.setWidth 16 <<< 8) := by
      rw [crcShifts_eight _ (crc ^^^ b.toBitVec.setWidth 16 <<< 8) (by omega), hlow, hhigh,
        crc16Index_eq]
    _ = crcBits crc16Poly crc (byteBits b) := by
      rw [crcBits_eq_crcShifts _ _ _ (by omega), hlen, topBits_byteBits]

theorem crc16_eq (buf : Text) : crc16 buf = crcBits crc16Poly 0 (buf.flatMap byteBits) := by
  have hfold : ∀ crc, buf.foldl crc16Turn crc = crcBits crc16Poly crc (buf.flatMap byteBits) := by
    induction buf with
    | nil => exact fun _ ↦ rfl
    | cons b buf ih =>
        intro crc
        rw [List.foldl_cons, ih, crc16Turn_eq, List.flatMap_cons, crcBits, crcBits, crcBits,
          List.foldl_append]
  exact hfold 0

theorem generator_crc16Poly :
    generator crc16Poly = X ^ 16 + (X ^ 12 + X ^ 5 + 1) := by
  have hbits : ∀ i, crc16Poly.getLsbD i = decide (i = 12 ∨ i = 5 ∨ i = 0) := by
    intro i
    by_cases h : i < 16
    · have hall : ∀ j : Fin 16, crc16Poly.getLsbD j =
          decide (j.val = 12 ∨ j.val = 5 ∨ j.val = 0) := by decide
      exact hall ⟨i, h⟩
    · rw [BitVec.getLsbD_of_ge _ i (by omega)]
      simp
      omega
  rw [generator]
  congr 1
  ext n
  rw [coeff_toPoly, hbits, coeff_add, coeff_add, coeff_X_pow, coeff_X_pow, coeff_one]
  by_cases h12 : n = 12
  · simp [h12]
  · by_cases h5 : n = 5
    · simp [h5]
    · simp [h12, h5, eq_comm]

/-- Between the first `{` of the key and the next `}` stands `tag`, and it is not empty. -/
def Tagged (key tag : Text) : Prop :=
  ∃ a b : Text, key = a ++ 123 :: (tag ++ 125 :: b) ∧ 123 ∉ a ∧ 125 ∉ tag ∧ tag ≠ []

/-- What of the key is hashed. -/
def IsHashTag (key tag : Text) : Prop :=
  Tagged key tag ∨ (∀ t, ¬ Tagged key t) ∧ tag = key

theorem findIdx_append_cons {x : Byte} {a : Text} (h : x ∉ a) (b : Text) :
    (a ++ x :: b).findIdx (· = x) = a.length := by
  induction a with
  | nil => simp [List.findIdx_cons]
  | cons y a ih =>
      rw [List.mem_cons, not_or] at h
      simp [List.findIdx_cons, Ne.symm h.1, ih h.2]

theorem findIdx_of_notMem {x : Byte} {a : Text} (h : x ∉ a) :
    a.findIdx (· = x) = a.length :=
  List.findIdx_eq_length_of_false fun y hy ↦ decide_eq_false fun he : y = x ↦ h (he ▸ hy)

theorem keyHashSlot_of_tagged {key tag : Text} (h : Tagged key tag) :
    keyHashSlot key = (crc16 tag &&& 0x3FFF).toNat := by
  obtain ⟨a, b, rfl, ha, htag, hne⟩ := h
  have hdrop : (a ++ 123 :: (tag ++ 125 :: b)).drop (a.length + 1) = tag ++ 125 :: b := by
    simp [List.drop_append]
  have hpos : 0 < tag.length := List.length_pos_iff.mpr hne
  simp only [keyHashSlot, findIdx_append_cons ha, hdrop, findIdx_append_cons htag,
    List.length_append, List.length_cons]
  rw [if_neg (by omega), if_neg (by omega),
    show a.length + 1 + tag.length - a.length - 1 = tag.length by omega, List.take_left']
  rfl

theorem keyHashSlot_of_not_tagged {key : Text} (h : ∀ t, ¬ Tagged key t) :
    keyHashSlot key = (crc16 key &&& 0x3FFF).toNat := by
  rw [keyHashSlot]
  by_cases hopen : (123 : Byte) ∈ key
  · obtain ⟨a, rest, rfl, ha⟩ := List.eq_append_cons_of_mem hopen
    have hdrop : (a ++ 123 :: rest).drop (a.length + 1) = rest := by
      simp [List.drop_append]
    simp only [findIdx_append_cons ha, hdrop, List.length_append, List.length_cons]
    rw [if_neg (by omega)]
    by_cases hclose : (125 : Byte) ∈ rest
    · obtain ⟨tag, b, rfl, htag⟩ := List.eq_append_cons_of_mem hclose
      have hnil : tag = [] := by
        by_contra hne
        exact h tag ⟨a, b, rfl, ha, htag, hne⟩
      subst hnil
      rw [if_pos (Or.inr (by simp [List.findIdx_cons]))]
    · rw [findIdx_of_notMem hclose,
        if_pos (Or.inl (by omega))]
  · rw [findIdx_of_notMem hopen]
    simp

/-- The slot is the lower 14 bits of the remainder of what is hashed. -/
theorem keyHashSlot_eq {key tag : Text} (h : IsHashTag key tag) :
    ∃ crc : BitVec 16, keyHashSlot key = crc.toNat % redisClusterSlots ∧
      toPoly crc = (messagePoly (tag.flatMap byteBits) * X ^ 16) %ₘ
        (X ^ 16 + (X ^ 12 + X ^ 5 + 1)) := by
  have hslot : keyHashSlot key = (crc16 tag &&& 0x3FFF).toNat := by
    rcases h with h | ⟨h, rfl⟩
    · exact keyHashSlot_of_tagged h
    · exact keyHashSlot_of_not_tagged h
  refine ⟨crc16 tag, ?_, ?_⟩
  · rw [hslot, BitVec.toNat_and]
    exact Nat.and_two_pow_sub_one_eq_mod _ 14
  · rw [crc16_eq, toPoly_crcBits (by omega), generator_crc16Poly]

/-- Between the first pair of braces of the key stands the name of a user. -/
theorem keyHashSlot_eq_user :
    ∃ crc : BitVec 16,
      keyHashSlot (lit "\x7buser1000\x7d.following") = crc.toNat % redisClusterSlots ∧
        toPoly crc = (messagePoly ((lit "user1000").flatMap byteBits) * X ^ 16) %ₘ
          (X ^ 16 + (X ^ 12 + X ^ 5 + 1)) :=
  keyHashSlot_eq (Or.inl ⟨[], lit ".following", by decide, by decide, by decide, by decide⟩)

end Remainder

end Redis

end Slience
