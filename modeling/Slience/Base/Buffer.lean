import Slience.Lib.Bytes

/-!
# The byte buffer

`base::Buffer` is one block of memory with two cursors: `pos`, behind the bytes
written so far, and `offset`, before the bytes not yet read.  All three
lengths are 32-bit unsigned and wrap around.

A `memcpy` that leaves its block or the caller's array has no meaning in C++;
the operations answer `none` there.  A buffer that exists therefore always has
`offset ≤ pos ≤ size` and a block of `size` bytes.  Bytes of a block that were
never written are indeterminate in C++; the model fills them with zeros.
-/

namespace Slience

structure Buffer where
  size : UInt32
  pos : UInt32
  offset : UInt32
  data : List Byte
  data_length : data.length = size.toNat
  pos_le_size : pos.toNat ≤ size.toNat
  offset_le_pos : offset.toNat ≤ pos.toNat
  deriving DecidableEq

namespace Buffer

/-- `M_BUFFER_DEFAILT_SIZE` -/
def defaultSize : UInt32 := 1024

def malloc (n : UInt32) : List Byte := List.replicate n.toNat 0

@[simp] theorem length_malloc (n : UInt32) : (malloc n).length = n.toNat := by
  simp [malloc]

/-- `Buffer::Buffer()` -/
def empty : Buffer where
  size := defaultSize
  pos := 0
  offset := 0
  data := malloc defaultSize
  data_length := length_malloc _
  pos_le_size := by decide
  offset_le_pos := le_rfl

/-- `Buffer::Clear` -/
def clear (b : Buffer) : Buffer where
  size := b.size
  pos := 0
  offset := 0
  data := b.data
  data_length := b.data_length
  pos_le_size := Nat.zero_le _
  offset_le_pos := le_rfl

/-- `Buffer::CutData`.  The sum is taken in 32-bit unsigned arithmetic, so that
a negative `len` moves the cursor back. -/
def cutData (b : Buffer) (len : Int32) : Buffer :=
  if h : b.offset + len.toUInt32 > b.pos then
    { b with offset := b.pos, offset_le_pos := le_rfl }
  else
    { b with
      offset := b.offset + len.toUInt32
      offset_le_pos := UInt32.le_iff_toNat_le.mp (UInt32.not_lt.mp h) }

/-- `Buffer::Capacity` -/
def capacity (b : Buffer) : UInt32 := b.size

/-- `Buffer::Length`; `Buffer::Size` is the field `pos`. -/
def length (b : Buffer) : UInt32 := b.pos - b.offset

/-- The capacity `Buffer::Write` works with: the old one where the new bytes
fit, else the next multiple of `defaultSize`, both in wrapping arithmetic. -/
def writeSize (b : Buffer) (len : UInt32) : UInt32 :=
  if b.pos + len > b.size then defaultSize * ((b.pos + len) / defaultSize + 1) else b.size

/-- The block `Buffer::Write` works with: a new one that starts with the bytes
written so far when the capacity changes. -/
def writeBlock (b : Buffer) (len : UInt32) : List Byte :=
  if b.pos + len > b.size then
    blit (malloc (b.writeSize len)) 0 (b.data.take b.pos.toNat)
  else b.data

theorem length_writeBlock (b : Buffer) (len : UInt32)
    (h : b.pos.toNat ≤ (b.writeSize len).toNat) :
    (b.writeBlock len).length = (b.writeSize len).toNat := by
  unfold writeBlock
  split
  · rw [length_blit, length_malloc]
    rw [length_malloc, List.length_take]
    omega
  · rename_i hfit
    rw [writeSize, if_neg hfit, b.data_length]

/-- `Buffer::Write(data, len)`, where `src` is the caller's array from the
pointer `data` on. -/
def write (b : Buffer) (src : List Byte) (len : UInt32) : Option Buffer :=
  if h : b.pos.toNat + len.toNat ≤ (b.writeSize len).toNat ∧ len.toNat ≤ src.length then
    some
      { size := b.writeSize len
        pos := b.pos + len
        offset := b.offset
        data := blit (b.writeBlock len) b.pos.toNat (src.take len.toNat)
        data_length := by
          have hblock := b.length_writeBlock len (by omega)
          rw [length_blit, hblock]
          rw [hblock, List.length_take]
          omega
        pos_le_size := by
          rw [UInt32.toNat_add]
          exact le_trans (Nat.mod_le _ _) h.1
        offset_le_pos := by
          have hlt := (b.writeSize len).toNat_lt
          rw [UInt32.toNat_add, Nat.mod_eq_of_lt (by omega)]
          exact le_trans b.offset_le_pos (Nat.le_add_right _ _) }
  else none

/-- `Buffer::Read(data, len)`: the bytes copied to the caller, or `none` inside
when the caller's memory is left as it was. -/
def read (b : Buffer) (len : UInt32) : Option (Option (List Byte) × Buffer) :=
  if h : b.offset + len > b.pos then some (none, b)
  else if b.offset.toNat + len.toNat ≤ b.size.toNat then
    some (some ((b.data.drop b.offset.toNat).take len.toNat),
      { b with
        offset := b.offset + len
        offset_le_pos := UInt32.le_iff_toNat_le.mp (UInt32.not_lt.mp h) })
  else none

/-- `Buffer::Write(T const&)` with a 32-bit word. -/
def writeWord (b : Buffer) (x : UInt32) : Option Buffer := b.write (le32 x) 4

/-- `Buffer::Read(T&)` into a 32-bit word, which keeps its value when the bytes do not
suffice. -/
def readWord (b : Buffer) (old : UInt32) : Option (UInt32 × Buffer) :=
  match b.read 4 with
  | none => none
  | some (none, b') => some (old, b')
  | some (some bytes, b') => some (loadLe32 bytes, b')

/-- The bytes `Raw()[0 .. Size())`. -/
def contents (b : Buffer) : List Byte := b.data.take b.pos.toNat

/-- The bytes `Data()[0 .. Length())`. -/
def unread (b : Buffer) : List Byte := b.contents.drop b.offset.toNat

/-! ## What the operations do to the bytes -/

theorem length_contents (b : Buffer) : b.contents.length = b.pos.toNat := by
  rw [contents, List.length_take, b.data_length]
  exact Nat.min_eq_left b.pos_le_size

theorem length_unread (b : Buffer) : b.unread.length = b.pos.toNat - b.offset.toNat := by
  rw [unread, List.length_drop, length_contents]

theorem toNat_length (b : Buffer) : b.length.toNat = b.unread.length := by
  rw [length, UInt32.toNat_sub_of_le _ _ (UInt32.le_iff_toNat_le.mpr b.offset_le_pos),
    length_unread]

theorem length_eq_zero_iff (b : Buffer) : b.length = 0 ↔ b.unread = [] := by
  rw [← UInt32.toNat_inj, toNat_length, UInt32.toNat_zero, List.length_eq_zero_iff]

@[simp] theorem contents_empty : empty.contents = [] := rfl

@[simp] theorem unread_empty : empty.unread = [] := rfl

@[simp] theorem offset_empty : empty.offset = 0 := rfl

@[simp] theorem contents_clear (b : Buffer) : b.clear.contents = [] := rfl

@[simp] theorem unread_clear (b : Buffer) : b.clear.unread = [] := rfl

@[simp] theorem offset_clear (b : Buffer) : b.clear.offset = 0 := rfl

theorem unread_eq_contents {b : Buffer} (h : b.offset = 0) : b.unread = b.contents := by
  simp [unread, h]

/-- The bytes `bytes` were appended to the buffer. -/
structure Appended (b : Buffer) (bytes : List Byte) (b' : Buffer) : Prop where
  contents_eq : b'.contents = b.contents ++ bytes
  offset_eq : b'.offset = b.offset

theorem Appended.unread_eq {b b' : Buffer} {bytes : List Byte} (h : Appended b bytes b') :
    b'.unread = b.unread ++ bytes := by
  have hle : b.offset.toNat ≤ b.contents.length := by
    rw [length_contents]
    exact b.offset_le_pos
  rw [unread, h.contents_eq, h.offset_eq, List.drop_append_of_le_length hle, unread]

theorem Appended.trans {b b' b'' : Buffer} {xs ys : List Byte}
    (h : Appended b xs b') (h' : Appended b' ys b'') : Appended b (xs ++ ys) b'' where
  contents_eq := by rw [h'.contents_eq, h.contents_eq, List.append_assoc]
  offset_eq := h'.offset_eq.trans h.offset_eq

/-- The total size from which on a `Write` computes a capacity that wraps. -/
def writeLimit : ℕ := 2 ^ 32 - 1024

theorem writeSize_fits (b : Buffer) (len : UInt32)
    (h : b.pos.toNat + len.toNat < writeLimit) :
    b.pos.toNat + len.toNat ≤ (b.writeSize len).toNat := by
  have hsum : (b.pos + len).toNat = b.pos.toNat + len.toNat := by
    rw [UInt32.toNat_add]
    simp only [writeLimit] at h
    omega
  simp only [writeLimit] at h
  unfold writeSize
  split
  · rw [UInt32.toNat_mul, UInt32.toNat_add, UInt32.toNat_div, hsum]
    simp only [defaultSize, UInt32.reduceToNat]
    omega
  · rename_i hfit
    rw [gt_iff_lt, UInt32.not_lt, UInt32.le_iff_toNat_le, hsum] at hfit
    exact hfit

theorem take_writeBlock (b : Buffer) (len : UInt32) :
    (b.writeBlock len).take b.pos.toNat = b.contents := by
  unfold writeBlock
  split
  · have hblit : (blit (malloc (b.writeSize len)) 0 b.contents).take
        (0 + b.contents.length) = (malloc (b.writeSize len)).take 0 ++ b.contents :=
      take_blit (Nat.zero_le _)
    rwa [length_contents, Nat.zero_add, List.take_zero, List.nil_append] at hblit
  · rfl

/-- A write that has a result appended its bytes, and the new size did not wrap. -/
theorem appended_of_write {b b' : Buffer} {src : List Byte} {len : UInt32}
    (h : b.write src len = some b') :
    Appended b (src.take len.toNat) b' ∧ len.toNat ≤ src.length ∧
      b.pos.toNat + len.toNat < 2 ^ 32 := by
  unfold write at h
  split at h
  · rename_i hfit
    cases h
    have hlt := (b.writeSize len).toNat_lt
    have hpos : (b.pos + len).toNat = b.pos.toNat + len.toNat := by
      rw [UInt32.toNat_add]
      omega
    have hlen : (src.take len.toNat).length = len.toNat := by
      rw [List.length_take]
      omega
    have hblock : b.pos.toNat ≤ (b.writeBlock len).length := by
      rw [length_writeBlock _ _ (by omega)]
      omega
    have htake : (blit (b.writeBlock len) b.pos.toNat (src.take len.toNat)).take
        (b.pos.toNat + (src.take len.toNat).length) =
          (b.writeBlock len).take b.pos.toNat ++ src.take len.toNat := take_blit hblock
    rw [hlen] at htake
    refine ⟨⟨?_, rfl⟩, hfit.2, by omega⟩
    rw [contents, hpos, htake, take_writeBlock]
  · cases h

theorem size_le_of_write {b b' : Buffer} {src : List Byte} {len : UInt32}
    (h : b.write src len = some b') : b.size.toNat ≤ b'.size.toNat := by
  unfold write at h
  split at h
  · rename_i hfit
    cases h
    change b.size.toNat ≤ (b.writeSize len).toNat
    by_cases hgrow : b.pos + len > b.size
    · have hmod := Nat.mod_le (b.pos.toNat + len.toNat) (2 ^ 32)
      rw [gt_iff_lt, UInt32.lt_iff_toNat_lt, UInt32.toNat_add] at hgrow
      omega
    · rw [writeSize, if_neg hgrow]
  · cases h

theorem write_spec (b : Buffer) {src : List Byte} {len : UInt32}
    (hsrc : len.toNat ≤ src.length) (h : b.pos.toNat + len.toNat < writeLimit) :
    ∃ b', b.write src len = some b' ∧ Appended b (src.take len.toNat) b' := by
  have hwrite : ∃ b', b.write src len = some b' := by
    unfold write
    rw [dif_pos ⟨b.writeSize_fits len h, hsrc⟩]
    exact ⟨_, rfl⟩
  obtain ⟨b', hb'⟩ := hwrite
  exact ⟨b', hb', (appended_of_write hb').1⟩

theorem write_eq_none (b : Buffer) {src : List Byte} {len : UInt32}
    (h : (b.writeSize len).toNat < b.pos.toNat + len.toNat) : b.write src len = none := by
  unfold write
  rw [dif_neg]
  omega

theorem read_spec (b : Buffer) {len : UInt32} (h : len.toNat ≤ b.unread.length) :
    ∃ b', b.read len = some (some (b.unread.take len.toNat), b') ∧
      b'.contents = b.contents ∧ b'.unread = b.unread.drop len.toNat := by
  have hpos := b.pos_le_size
  have hoff := b.offset_le_pos
  have hlt := b.pos.toNat_lt
  rw [length_unread] at h
  have hsum : (b.offset + len).toNat = b.offset.toNat + len.toNat := by
    rw [UInt32.toNat_add]
    omega
  have hle : ¬ b.offset + len > b.pos := by
    rw [gt_iff_lt, UInt32.not_lt, UInt32.le_iff_toNat_le, hsum]
    omega
  have hbytes : (b.data.drop b.offset.toNat).take len.toNat = b.unread.take len.toNat := by
    rw [unread, contents, List.drop_take, List.take_take]
    congr 1
    omega
  unfold read
  rw [dif_neg hle, if_pos (by omega), hbytes]
  refine ⟨_, rfl, rfl, ?_⟩
  change b.contents.drop (b.offset + len).toNat = _
  rw [hsum, unread, List.drop_drop]

theorem read_short (b : Buffer) {len : UInt32} (h : b.unread.length < len.toNat)
    (hwrap : b.offset.toNat + len.toNat < 2 ^ 32) : b.read len = some (none, b) := by
  rw [length_unread] at h
  have hgt : b.offset + len > b.pos := by
    rw [gt_iff_lt, UInt32.lt_iff_toNat_lt, UInt32.toNat_add]
    omega
  unfold read
  rw [dif_pos hgt]

theorem contents_cutData (b : Buffer) (len : Int32) :
    (b.cutData len).contents = b.contents := by
  unfold cutData
  split <;> rfl

theorem unread_cutData (b : Buffer) {n : UInt32} (h : n.toNat ≤ b.unread.length) :
    (b.cutData n.toInt32).unread = b.unread.drop n.toNat := by
  have hoff := b.offset_le_pos
  have hlt := b.pos.toNat_lt
  rw [length_unread] at h
  have hsum : (b.offset + n).toNat = b.offset.toNat + n.toNat := by
    rw [UInt32.toNat_add]
    omega
  have hle : ¬ b.offset + n.toInt32.toUInt32 > b.pos := by
    rw [UInt32.toUInt32_toInt32, gt_iff_lt, UInt32.not_lt, UInt32.le_iff_toNat_le, hsum]
    omega
  unfold cutData
  rw [dif_neg hle]
  change b.contents.drop (b.offset + n.toInt32.toUInt32).toNat = _
  rw [UInt32.toUInt32_toInt32, hsum, unread, List.drop_drop]

theorem appended_of_writeWord {b b' : Buffer} {x : UInt32} (h : b.writeWord x = some b') :
    Appended b (le32 x) b' :=
  (appended_of_write h).1

theorem readWord_spec {b : Buffer} {x : UInt32} {rest : List Byte} (old : UInt32)
    (h : b.unread = le32 x ++ rest) :
    ∃ b', b.readWord old = some (x, b') ∧ b'.unread = rest ∧ b'.contents = b.contents := by
  have hlen : (4 : UInt32).toNat ≤ b.unread.length := by
    rw [h, List.length_append, length_le32]
    exact Nat.le_add_right _ _
  obtain ⟨b', hread, hcontents, hunread⟩ := b.read_spec hlen
  have htake : b.unread.take (4 : UInt32).toNat = le32 x := by
    rw [h]
    exact List.take_left' rfl
  have hload := loadLe32_le32 x []
  rw [List.append_nil] at hload
  refine ⟨b', ?_, ?_, hcontents⟩
  · rw [readWord, hread, htake]
    simp only [hload]
  · rw [hunread, h]
    exact List.drop_left' rfl

theorem readWord_full {b : Buffer} (old : UInt32) (h : 4 ≤ b.unread.length) :
    ∃ b', b.readWord old = some (loadLe32 b.unread, b') ∧ b'.unread = b.unread.drop 4 ∧
      b'.contents = b.contents := by
  apply readWord_spec
  rw [le32_loadLe32 h, List.take_append_drop]

theorem readWord_short {b : Buffer} (old : UInt32) (h : b.unread.length < 4)
    (hfits : b.contents.length + 4 < 2 ^ 32) : b.readWord old = some (old, b) := by
  have hoff := b.offset_le_pos
  rw [length_contents] at hfits
  have hfour : (4 : UInt32).toNat = 4 := rfl
  rw [readWord, b.read_short (by omega) (by omega)]

/-- A word is read or left. -/
theorem exists_readWord (b : Buffer) (old : UInt32) (hfits : b.contents.length + 4 < 2 ^ 32) :
    ∃ x b', b.readWord old = some (x, b') ∧ b'.contents = b.contents := by
  by_cases h : 4 ≤ b.unread.length
  · obtain ⟨b', hread, -, hcontents⟩ := readWord_full old h
    exact ⟨_, b', hread, hcontents⟩
  · exact ⟨old, b, readWord_short old (not_le.mp h) hfits, rfl⟩

theorem unread_cutData_back {b : Buffer} {len : Int32} {n : ℕ}
    (hlen : len.toUInt32.toNat = 2 ^ 32 - n) (hpos : 0 < n) (h : n ≤ b.offset.toNat) :
    (b.cutData len).unread = b.contents.drop (b.offset.toNat - n) := by
  have hoff := b.offset_le_pos
  have hlt := b.offset.toNat_lt
  have hsum : (b.offset + len.toUInt32).toNat = b.offset.toNat - n := by
    rw [UInt32.toNat_add, hlen]
    omega
  have hle : ¬ b.offset + len.toUInt32 > b.pos := by
    rw [gt_iff_lt, UInt32.not_lt, UInt32.le_iff_toNat_le, hsum]
    omega
  unfold cutData
  rw [dif_neg hle]
  change b.contents.drop (b.offset + len.toUInt32).toNat = _
  rw [hsum]

theorem unread_cutData_readWord {b b' : Buffer} {x old : UInt32}
    (hlen : 4 ≤ b.unread.length) (h : b.readWord old = some (x, b')) :
    (b'.cutData (-4)).unread = b.unread := by
  have hoff := b.offset_le_pos
  have hlt := b.pos.toNat_lt
  have hsize := b.pos_le_size
  rw [length_unread] at hlen
  have hsum : (b.offset + 4).toNat = b.offset.toNat + 4 := by
    rw [UInt32.toNat_add]
    change (_ + 4) % _ = _
    omega
  have hle : ¬ b.offset + 4 > b.pos := by
    rw [gt_iff_lt, UInt32.not_lt, UInt32.le_iff_toNat_le, hsum]
    omega
  have hback : b.offset + 4 + (-4 : Int32).toUInt32 = b.offset := by
    rw [UInt32.add_assoc, show (4 : UInt32) + (-4 : Int32).toUInt32 = 0 from rfl, UInt32.add_zero]
  simp only [readWord, read, dif_neg hle, if_pos (show b.offset.toNat + (4 : UInt32).toNat ≤
    b.size.toNat by change _ + 4 ≤ _; omega), Option.some.injEq, Prod.mk.injEq] at h
  have hcontents : b'.contents = b.contents := by rw [← h.2]; rfl
  have hpos : b'.pos = b.pos := by rw [← h.2]
  have hoffset : b'.offset = b.offset + 4 := by rw [← h.2]
  have hkeep : ¬ b'.offset + (-4 : Int32).toUInt32 > b'.pos := by
    rw [hpos, hoffset, hback, gt_iff_lt, UInt32.not_lt, UInt32.le_iff_toNat_le]
    exact hoff
  have hcut : (b'.cutData (-4)).offset = b.offset := by
    rw [cutData, dif_neg hkeep, ← hback, ← hoffset]
  rw [unread, contents_cutData, hcontents, hcut, unread]

end Buffer

end Slience
