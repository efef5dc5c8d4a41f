import Mathlib.Data.List.Basic
import Mathlib.Tactic

/-!
# Blocks of memory and machine words

A block of memory is a list of bytes.  `blit` is the effect of one `memcpy`
into such a block, and `le32` is the image of a 32-bit word in the memory of a
little-endian machine.  An `int` is an integer; an operation that leaves the range of
32 bits has no result.
-/

namespace Slience

abbrev Byte := UInt8

section Block

variable {α : Type*}

/-- The block `dst` after the elements of `src` were copied over it from index
`i` on.  The copy is meaningful when `i + src.length ≤ dst.length`. -/
def blit (dst : List α) (i : ℕ) (src : List α) : List α :=
  dst.take i ++ src ++ dst.drop (i + src.length)

theorem length_blit {dst src : List α} {i : ℕ} (h : i + src.length ≤ dst.length) :
    (blit dst i src).length = dst.length := by
  simp only [blit, List.length_append, List.length_take, List.length_drop]
  omega

/-- Copying at `i` leaves the first `i` elements alone and puts `src` behind
them. -/
theorem take_blit {dst src : List α} {i : ℕ} (h : i ≤ dst.length) :
    (blit dst i src).take (i + src.length) = dst.take i ++ src := by
  have hlen : (dst.take i ++ src).length = i + src.length := by
    simp [Nat.min_eq_left h]
  rw [blit, ← hlen, List.take_left]

theorem take_blit_zero (dst src : List α) : (blit dst 0 src).take src.length = src := by
  have hblit : (blit dst 0 src).take (0 + src.length) = dst.take 0 ++ src :=
    take_blit (Nat.zero_le _)
  simpa using hblit

theorem le_length_blit_zero (dst src : List α) : src.length ≤ (blit dst 0 src).length := by
  simp [blit]

end Block

section Words

/-- The four bytes of a word in the order of a little-endian memory. -/
def le32 (x : UInt32) : List Byte :=
  [UInt8.ofNat x.toNat, UInt8.ofNat (x.toNat / 2 ^ 8),
    UInt8.ofNat (x.toNat / 2 ^ 16), UInt8.ofNat (x.toNat / 2 ^ 24)]

/-- The word a little-endian machine loads from these four bytes. -/
def ofLe32 (a b c d : Byte) : UInt32 :=
  UInt32.ofNat (a.toNat + 2 ^ 8 * b.toNat + 2 ^ 16 * c.toNat + 2 ^ 24 * d.toNat)

/-- The word in the first four bytes of `l`; bytes that are missing read as
zero. -/
def loadLe32 (l : List Byte) : UInt32 :=
  ofLe32 (l.getD 0 0) (l.getD 1 0) (l.getD 2 0) (l.getD 3 0)

/-- The bytes of a word in reverse order. -/
def bswap32 (x : UInt32) : UInt32 :=
  ofLe32 (UInt8.ofNat (x.toNat / 2 ^ 24)) (UInt8.ofNat (x.toNat / 2 ^ 16))
    (UInt8.ofNat (x.toNat / 2 ^ 8)) (UInt8.ofNat x.toNat)

@[simp] theorem length_le32 (x : UInt32) : (le32 x).length = 4 := rfl

theorem toNat_ofLe32 (a b c d : Byte) :
    (ofLe32 a b c d).toNat =
      a.toNat + 2 ^ 8 * b.toNat + 2 ^ 16 * c.toNat + 2 ^ 24 * d.toNat := by
  have ha := a.toNat_lt
  have hb := b.toNat_lt
  have hc := c.toNat_lt
  have hd := d.toNat_lt
  rw [ofLe32, UInt32.toNat_ofNat']
  exact Nat.mod_eq_of_lt (by omega)

theorem digits256 {n : ℕ} (hn : n < 2 ^ 32) :
    n % 2 ^ 8 + 2 ^ 8 * (n / 2 ^ 8 % 2 ^ 8) + 2 ^ 16 * (n / 2 ^ 16 % 2 ^ 8) +
      2 ^ 24 * (n / 2 ^ 24 % 2 ^ 8) = n := by
  omega

@[simp] theorem loadLe32_le32 (x : UInt32) (l : List Byte) :
    loadLe32 (le32 x ++ l) = x := by
  apply UInt32.toNat_inj.mp
  simp only [loadLe32, le32, List.cons_append, List.nil_append, List.getD_cons_zero,
    List.getD_cons_succ, toNat_ofLe32, UInt8.toNat_ofNat']
  exact digits256 x.toNat_lt

theorem loadLe32_take_four (l : List Byte) : loadLe32 (l.take 4) = loadLe32 l := by
  simp [loadLe32, List.getD_eq_getElem?_getD]

theorem le32_loadLe32 {l : List Byte} (h : 4 ≤ l.length) : le32 (loadLe32 l) = l.take 4 := by
  match l, h with
  | a :: b :: d :: e :: rest, _ =>
      have ha := a.toNat_lt
      have hb := b.toNat_lt
      have hd := d.toNat_lt
      have he := e.toNat_lt
      simp only [loadLe32, List.getD_cons_zero, List.getD_cons_succ, le32, toNat_ofLe32,
        List.take_succ_cons, List.take_zero, List.cons.injEq, and_true]
      refine ⟨?_, ?_, ?_, ?_⟩ <;>
      · apply UInt8.toNat_inj.mp
        rw [UInt8.toNat_ofNat']
        omega

theorem bswap32_ofLe32 (a b c d : Byte) : bswap32 (ofLe32 a b c d) = ofLe32 d c b a := by
  have ha := a.toNat_lt
  have hb := b.toNat_lt
  have hc := c.toNat_lt
  have hd := d.toNat_lt
  have h₀ : UInt8.ofNat (ofLe32 a b c d).toNat = a := by
    apply UInt8.toNat_inj.mp
    rw [UInt8.toNat_ofNat', toNat_ofLe32]
    omega
  have h₁ : UInt8.ofNat ((ofLe32 a b c d).toNat / 2 ^ 8) = b := by
    apply UInt8.toNat_inj.mp
    rw [UInt8.toNat_ofNat', toNat_ofLe32]
    omega
  have h₂ : UInt8.ofNat ((ofLe32 a b c d).toNat / 2 ^ 16) = c := by
    apply UInt8.toNat_inj.mp
    rw [UInt8.toNat_ofNat', toNat_ofLe32]
    omega
  have h₃ : UInt8.ofNat ((ofLe32 a b c d).toNat / 2 ^ 24) = d := by
    apply UInt8.toNat_inj.mp
    rw [UInt8.toNat_ofNat', toNat_ofLe32]
    omega
  rw [bswap32, h₀, h₁, h₂, h₃]

@[simp] theorem bswap32_bswap32 (x : UInt32) : bswap32 (bswap32 x) = x := by
  have hx : bswap32 x = ofLe32 (UInt8.ofNat (x.toNat / 2 ^ 24))
      (UInt8.ofNat (x.toNat / 2 ^ 16)) (UInt8.ofNat (x.toNat / 2 ^ 8))
      (UInt8.ofNat x.toNat) := rfl
  rw [hx, bswap32_ofLe32]
  apply UInt32.toNat_inj.mp
  simp only [toNat_ofLe32, UInt8.toNat_ofNat']
  exact digits256 x.toNat_lt

end Words

section Ints

/-- Addition of `int`s. -/
def addInt (a b : ℤ) : Option ℤ :=
  if -2 ^ 31 ≤ a + b ∧ a + b < 2 ^ 31 then some (a + b) else none

theorem addInt_of_bounds {a b : ℤ} (hlo : -2 ^ 31 ≤ a + b) (hhi : a + b < 2 ^ 31) :
    addInt a b = some (a + b) :=
  if_pos ⟨hlo, hhi⟩

theorem eq_of_addInt {a b c : ℤ} (h : addInt a b = some c) : c = a + b := by
  unfold addInt at h
  split at h
  · cases h
    rfl
  · cases h

end Ints

end Slience
