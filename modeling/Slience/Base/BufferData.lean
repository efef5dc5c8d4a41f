import Slience.Base.Buffer
import Slience.Lib.Run
import Mathlib.Logic.Equiv.Basic

/-!
# The memory of byte buffers

The members of `Buffer::_data_` without any relation between them, and the operations of the
buffer as they compute in 32-bit unsigned arithmetic.  A block from `malloc` holds what `fill`
says until it is written.  A `memcpy` that leaves a block or the caller's array has no result.
`Valid` is what the type `Buffer` takes for granted; the operations on valid data are those of
`Buffer`.
-/

namespace Slience

structure BufferData where
  size : UInt32
  pos : UInt32
  offset : UInt32
  data : List Byte
  deriving DecidableEq

namespace BufferData

def malloc (fill : ℕ → Byte) (n : UInt32) : List Byte := (List.range n.toNat).map fill

/-- `memcpy(dst + i, src + j, n)` -/
def memcpy (dst : List Byte) (i : ℕ) (src : List Byte) (j n : ℕ) : Option (List Byte) :=
  if i + n ≤ dst.length ∧ j + n ≤ src.length then some (blit dst i ((src.drop j).take n)) else none

/-- `Buffer::Buffer()` -/
def new (fill : ℕ → Byte) : BufferData :=
  ⟨Buffer.defaultSize, 0, 0, malloc fill Buffer.defaultSize⟩

/-- `Buffer::Buffer(s_uint32_t)` -/
def newHdr (hdrlen : UInt32) (fill : ℕ → Byte) : BufferData :=
  let b := new fill
  if hdrlen ≤ b.size then { b with pos := b.pos + hdrlen } else b

/-- `Buffer::Clear` -/
def clear (b : BufferData) : BufferData := { b with pos := 0, offset := 0 }

/-- `Buffer::CutData` -/
def cutData (b : BufferData) (len : Int32) : BufferData :=
  if b.offset + len.toUInt32 > b.pos then { b with offset := b.pos }
  else { b with offset := b.offset + len.toUInt32 }

/-- The size of the new block in `Write`. -/
def newSize (b : BufferData) (len : UInt32) : UInt32 :=
  Buffer.defaultSize * ((b.pos + len) / Buffer.defaultSize + 1)

/-- `Buffer::Write(const void*, s_uint32_t)` -/
def write (b : BufferData) (src : List Byte) (len : UInt32) (fill : ℕ → Byte) :
    Option BufferData :=
  if b.pos + len > b.size then do
    let ptmp ← memcpy (malloc fill (b.newSize len)) 0 b.data 0 b.pos.toNat
    let data ← memcpy ptmp b.pos.toNat src 0 len.toNat
    some ⟨b.newSize len, b.pos + len, b.offset, data⟩
  else do
    let data ← memcpy b.data b.pos.toNat src 0 len.toNat
    some ⟨b.size, b.pos + len, b.offset, data⟩

/-- `Buffer::Read(void*, s_uint32_t)` into the caller's array `dst`. -/
def read (b : BufferData) (dst : List Byte) (len : UInt32) : Option (List Byte × BufferData) :=
  if b.offset + len > b.pos then some (dst, b)
  else do
    let dst ← memcpy dst 0 b.data b.offset.toNat len.toNat
    some (dst, { b with offset := b.offset + len })

/-- `Buffer::Read(std::string&)`, with the new value of the string; `fill` is what the block
`tmp` holds. -/
def readString (b : BufferData) (value : List Byte) (fill : ℕ → Byte) :
    Option (List Byte × BufferData) := do
  let (word, b) ← b.read (le32 0) 4
  let len := loadLe32 word
  if len > 0 then do
    let (tmp, b) ← b.read (malloc fill (len + 1)) len
    if len.toNat < tmp.length then some ((tmp.set len.toNat 0).takeWhile (· ≠ 0), b) else none
  else some (value, b)

/-- `Buffer::Length`; `Buffer::Size` is the member `pos`. -/
def length (b : BufferData) : UInt32 := b.pos - b.offset

structure Valid (b : BufferData) : Prop where
  offset_le : b.offset.toNat ≤ b.pos.toNat
  pos_le : b.pos.toNat ≤ b.size.toNat
  length_data : b.data.length = b.size.toNat

/-- The bytes `Raw()[0 .. Size())`. -/
def contents (b : BufferData) : List Byte := b.data.take b.pos.toNat

/-- The bytes `Data()[0 .. Length())`. -/
def unread (b : BufferData) : List Byte := b.contents.drop b.offset.toNat

/-- `len` more bytes fit, or a block for them has a size. -/
def Fits (b : BufferData) (len : UInt32) : Prop :=
  b.pos.toNat + len.toNat ≤ b.size.toNat ∨ b.pos.toNat + len.toNat < Buffer.writeLimit

instance (b : BufferData) (len : UInt32) : Decidable (b.Fits len) :=
  inferInstanceAs (Decidable (_ ∨ _))

/-- The word at the cursor. -/
def word (b : BufferData) : UInt32 := loadLe32 (b.data.drop b.offset.toNat)

variable {b b' : BufferData} {src dst value : List Byte} {len : UInt32} {fill : ℕ → Byte}

/-! ## Copies -/

@[simp] theorem length_malloc (fill : ℕ → Byte) (n : UInt32) :
    (malloc fill n).length = n.toNat := by
  rw [malloc, List.length_map, List.length_range]

theorem memcpy_eq_some_iff {i j n : ℕ} {d : List Byte} :
    memcpy dst i src j n = some d ↔
      (i + n ≤ dst.length ∧ j + n ≤ src.length) ∧ blit dst i ((src.drop j).take n) = d := by
  unfold memcpy
  split
  · rename_i h
    rw [Option.some.injEq]
    exact (and_iff_right h).symm
  · rename_i h
    exact iff_of_false (by simp) fun hd ↦ h hd.1

theorem length_of_memcpy {i j n : ℕ} {d : List Byte} (h : memcpy dst i src j n = some d) :
    d.length = dst.length := by
  obtain ⟨⟨hdst, hsrc⟩, rfl⟩ := memcpy_eq_some_iff.mp h
  have hlen : ((src.drop j).take n).length = n := by
    rw [List.length_take, List.length_drop]
    omega
  exact length_blit (by rw [hlen]; exact hdst)

theorem take_of_memcpy {i j n : ℕ} {d : List Byte} (h : memcpy dst i src j n = some d) :
    d.take (i + n) = dst.take i ++ (src.drop j).take n := by
  obtain ⟨⟨hdst, hsrc⟩, rfl⟩ := memcpy_eq_some_iff.mp h
  have hlen : ((src.drop j).take n).length = n := by
    rw [List.length_take, List.length_drop]
    omega
  have htake : (blit dst i ((src.drop j).take n)).take (i + ((src.drop j).take n).length) =
      dst.take i ++ (src.drop j).take n := take_blit (by omega)
  rwa [hlen] at htake

/-! ## What the operations keep -/

theorem valid_new (fill : ℕ → Byte) : Valid (new fill) := by
  refine ⟨le_rfl, Nat.zero_le _, ?_⟩
  rw [new, length_malloc]

theorem valid_newHdr (hdrlen : UInt32) (fill : ℕ → Byte) : Valid (newHdr hdrlen fill) := by
  unfold newHdr
  dsimp only
  split
  · rename_i hle
    refine ⟨Nat.zero_le _, ?_, ?_⟩
    · rw [new, UInt32.zero_add]
      exact UInt32.le_iff_toNat_le.mp hle
    · rw [new, length_malloc]
  · exact valid_new fill

theorem Valid.clear (hv : Valid b) : Valid b.clear where
  offset_le := le_rfl
  pos_le := Nat.zero_le _
  length_data := hv.length_data

theorem Valid.cutData (hv : Valid b) (len : Int32) : Valid (b.cutData len) := by
  unfold BufferData.cutData
  split
  · exact ⟨le_rfl, hv.pos_le, hv.length_data⟩
  · rename_i hle
    exact ⟨UInt32.le_iff_toNat_le.mp (UInt32.not_lt.mp hle), hv.pos_le, hv.length_data⟩

theorem Fits.toNat_add (h : b.Fits len) :
    (b.pos + len).toNat = b.pos.toNat + len.toNat := by
  have hlt := b.size.toNat_lt
  rw [UInt32.toNat_add, Nat.mod_eq_of_lt]
  rcases h with h | h
  · omega
  · simp only [Buffer.writeLimit] at h
    omega

/-- The block a `Write` asks for has room for all bytes. -/
theorem Fits.le_newSize (h : b.Fits len) (hgrow : b.pos + len > b.size) :
    b.pos.toNat + len.toNat ≤ (b.newSize len).toNat := by
  have hsum := h.toNat_add
  rw [gt_iff_lt, UInt32.lt_iff_toNat_lt, hsum] at hgrow
  have hlimit : b.pos.toNat + len.toNat < Buffer.writeLimit := h.resolve_left (by omega)
  simp only [Buffer.writeLimit] at hlimit
  rw [newSize, UInt32.toNat_mul, UInt32.toNat_add, UInt32.toNat_div, hsum]
  simp only [Buffer.defaultSize, UInt32.reduceToNat]
  omega

theorem write_spec (hv : Valid b) (hsrc : len.toNat ≤ src.length) (h : b.Fits len)
    (fill : ℕ → Byte) :
    ∃ b', b.write src len fill = some b' ∧ Valid b' ∧
      b'.contents = b.contents ++ src.take len.toNat ∧ b'.offset = b.offset := by
  have hsum := h.toNat_add
  have hoffset := hv.offset_le
  have hpos := hv.pos_le
  have hdata := hv.length_data
  by_cases hgrow : b.pos + len > b.size
  · have hroom := h.le_newSize hgrow
    obtain ⟨ptmp, hptmp⟩ : ∃ ptmp,
        memcpy (malloc fill (b.newSize len)) 0 b.data 0 b.pos.toNat = some ptmp :=
      ⟨_, memcpy_eq_some_iff.mpr ⟨⟨by rw [length_malloc]; omega, by omega⟩, rfl⟩⟩
    have hlen := length_of_memcpy hptmp
    rw [length_malloc] at hlen
    obtain ⟨d, hd⟩ : ∃ d, memcpy ptmp b.pos.toNat src 0 len.toNat = some d :=
      ⟨_, memcpy_eq_some_iff.mpr ⟨⟨by rw [hlen]; exact hroom, by omega⟩, rfl⟩⟩
    have hcopied := take_of_memcpy hptmp
    have hwritten := take_of_memcpy hd
    rw [Nat.zero_add, List.take_zero, List.nil_append, List.drop_zero] at hcopied
    rw [hcopied, List.drop_zero, ← hsum] at hwritten
    refine ⟨⟨b.newSize len, b.pos + len, b.offset, d⟩, ?_, ⟨?_, ?_, ?_⟩, hwritten, rfl⟩
    · rw [write, if_pos hgrow]
      simp only [hptmp, hd, Option.bind_eq_bind, Option.bind_some]
    · rw [hsum]
      exact hoffset.trans (Nat.le_add_right _ _)
    · rw [hsum]
      exact hroom
    · rw [length_of_memcpy hd, hlen]
  · have hroom : b.pos.toNat + len.toNat ≤ b.size.toNat := by
      rw [gt_iff_lt, UInt32.not_lt, UInt32.le_iff_toNat_le, hsum] at hgrow
      exact hgrow
    obtain ⟨d, hd⟩ : ∃ d, memcpy b.data b.pos.toNat src 0 len.toNat = some d :=
      ⟨_, memcpy_eq_some_iff.mpr ⟨⟨by omega, by omega⟩, rfl⟩⟩
    have hwritten := take_of_memcpy hd
    rw [List.drop_zero, ← hsum] at hwritten
    refine ⟨⟨b.size, b.pos + len, b.offset, d⟩, ?_, ⟨?_, ?_, ?_⟩, hwritten, rfl⟩
    · rw [write, if_neg hgrow, hd]
      rfl
    · rw [hsum]
      exact hoffset.trans (Nat.le_add_right _ _)
    · rw [hsum]
      exact hroom
    · rw [length_of_memcpy hd, hdata]

theorem room_of_write (hv : Valid b) (hwrite : b.write src len fill = some b') :
    b.pos.toNat + len.toNat ≤
        (if b.pos + len > b.size then b.newSize len else b.size).toNat ∧
      len.toNat ≤ src.length := by
  unfold write at hwrite
  by_cases hgrow : b.pos + len > b.size
  · rw [if_pos hgrow] at hwrite ⊢
    obtain ⟨ptmp, hptmp, hwrite⟩ := Option.bind_eq_some_iff.mp hwrite
    obtain ⟨d, hd, -⟩ := Option.bind_eq_some_iff.mp hwrite
    obtain ⟨hroom, hsrc⟩ := (memcpy_eq_some_iff.mp hd).1
    rw [length_of_memcpy hptmp, length_malloc] at hroom
    exact ⟨hroom, (Nat.zero_add len.toNat).ge.trans hsrc⟩
  · rw [if_neg hgrow] at hwrite ⊢
    obtain ⟨d, hd, -⟩ := Option.bind_eq_some_iff.mp hwrite
    obtain ⟨hroom, hsrc⟩ := (memcpy_eq_some_iff.mp hd).1
    rw [hv.length_data] at hroom
    exact ⟨hroom, (Nat.zero_add len.toNat).ge.trans hsrc⟩

/-- A write that does not leave the blocks found room: where the size of the new block, or the
sum, wraps around, the bytes are copied behind the end. -/
theorem fits_of_write (hv : Valid b) (hwrite : b.write src len fill = some b') : b.Fits len := by
  have hroom := (room_of_write hv hwrite).1
  by_cases hgrow : b.pos + len > b.size
  · rw [if_pos hgrow, newSize, UInt32.toNat_mul, UInt32.toNat_add, UInt32.toNat_div,
      UInt32.toNat_add] at hroom
    rw [gt_iff_lt, UInt32.lt_iff_toNat_lt, UInt32.toNat_add] at hgrow
    simp only [Buffer.defaultSize, UInt32.reduceToNat] at hroom
    refine Or.inr ?_
    simp only [Buffer.writeLimit]
    omega
  · rw [if_neg hgrow] at hroom
    exact Or.inl hroom

theorem read_spec (hv : Valid b) (hdst : len.toNat ≤ dst.length)
    (hfits : b.offset.toNat + len.toNat ≤ b.pos.toNat) :
    ∃ dst' b', b.read dst len = some (dst', b') ∧ Valid b' ∧
      dst'.take len.toNat = b.unread.take len.toNat ∧ dst'.length = dst.length ∧
      b'.contents = b.contents ∧ b'.offset.toNat = b.offset.toNat + len.toNat := by
  have hpos := hv.pos_le
  have hdata := hv.length_data
  have hlt := b.pos.toNat_lt
  have hsum : (b.offset + len).toNat = b.offset.toNat + len.toNat := by
    rw [UInt32.toNat_add]
    omega
  have hle : ¬ b.offset + len > b.pos := by
    rw [gt_iff_lt, UInt32.not_lt, UInt32.le_iff_toNat_le, hsum]
    exact hfits
  obtain ⟨d, hd⟩ : ∃ d, memcpy dst 0 b.data b.offset.toNat len.toNat = some d :=
    ⟨_, memcpy_eq_some_iff.mpr ⟨⟨by omega, by omega⟩, rfl⟩⟩
  have hcopied := take_of_memcpy hd
  have hbytes : (b.data.drop b.offset.toNat).take len.toNat = b.unread.take len.toNat := by
    rw [unread, contents, List.drop_take, List.take_take]
    congr 1
    omega
  rw [Nat.zero_add, List.take_zero, List.nil_append, hbytes] at hcopied
  refine ⟨d, { b with offset := b.offset + len }, ?_, ⟨?_, hpos, hdata⟩, hcopied,
    length_of_memcpy hd, rfl, hsum⟩
  · rw [read, if_neg hle, hd]
    rfl
  · rw [hsum]
    exact hfits

theorem read_short (hshort : b.pos.toNat < b.offset.toNat + len.toNat)
    (hwrap : b.offset.toNat + len.toNat < 2 ^ 32) (dst : List Byte) :
    b.read dst len = some (dst, b) := by
  have hgt : b.offset + len > b.pos := by
    rw [gt_iff_lt, UInt32.lt_iff_toNat_lt, UInt32.toNat_add]
    omega
  rw [read, if_pos hgt]

/-- A sum that wraps around is small, and the bytes are read from behind the end. -/
theorem read_wrapped (hv : Valid b) (hwrap : 2 ^ 32 ≤ b.offset.toNat + len.toNat)
    (dst : List Byte) : b.read dst len = none := by
  have hoffset := hv.offset_le
  have hlt := len.toNat_lt
  have hsize := b.size.toNat_lt
  have hdata := hv.length_data
  have hle : ¬ b.offset + len > b.pos := by
    rw [gt_iff_lt, UInt32.not_lt, UInt32.le_iff_toNat_le, UInt32.toNat_add]
    omega
  have hcopy : memcpy dst 0 b.data b.offset.toNat len.toNat = none := by
    rw [memcpy, if_neg]
    omega
  rw [read, if_neg hle, hcopy]
  rfl

theorem read_ok (hv : Valid b) (hdst : len.toNat ≤ dst.length)
    (hwrap : b.offset.toNat + len.toNat < 2 ^ 32) :
    ∃ dst' b', b.read dst len = some (dst', b') ∧ Valid b' ∧ dst'.length = dst.length := by
  by_cases hfits : b.offset.toNat + len.toNat ≤ b.pos.toNat
  · obtain ⟨dst', b', hread, hv', -, hlen, -⟩ := read_spec hv hdst hfits
    exact ⟨dst', b', hread, hv', hlen⟩
  · exact ⟨dst, b, read_short (not_le.mp hfits) hwrap dst, hv, rfl⟩

theorem read_isSome_iff (hv : Valid b) (hdst : len.toNat ≤ dst.length) :
    (∃ dst' b', b.read dst len = some (dst', b') ∧ Valid b') ↔
      b.offset.toNat + len.toNat < 2 ^ 32 := by
  constructor
  · rintro ⟨dst', b', hread, -⟩
    by_contra hwrap
    rw [read_wrapped hv (not_lt.mp hwrap)] at hread
    cases hread
  · intro hwrap
    obtain ⟨dst', b', hread, hv', -⟩ := read_ok hv hdst hwrap
    exact ⟨dst', b', hread, hv'⟩

theorem length_contents (hv : Valid b) : b.contents.length = b.pos.toNat := by
  have hpos := hv.pos_le
  rw [contents, List.length_take, hv.length_data]
  omega

theorem length_unread (hv : Valid b) : b.unread.length = b.pos.toNat - b.offset.toNat := by
  rw [unread, List.length_drop, length_contents hv]

/-- The word at the cursor is the first one of the unread bytes. -/
theorem word_eq (hfour : b.offset.toNat + 4 ≤ b.pos.toNat) :
    b.word = loadLe32 (b.unread.take 4) := by
  rw [word, ← loadLe32_take_four, unread, contents, List.drop_take, List.take_take]
  congr 2
  omega

/-! ## Strings -/

/-- The length word of a string is read into a variable that was zero. -/
theorem read_word (hv : Valid b) (hfour : b.offset.toNat + 4 ≤ b.pos.toNat) :
    ∃ w b', b.read (le32 0) 4 = some (w, b') ∧ Valid b' ∧ loadLe32 w = b.word ∧
      b'.contents = b.contents ∧ b'.offset.toNat = b.offset.toNat + 4 := by
  have hdst : (4 : UInt32).toNat ≤ (le32 0).length := by rw [length_le32]; rfl
  obtain ⟨w, b', hread, hv', hbytes, hlen, hcontents, hoffset⟩ := read_spec hv hdst hfour
  refine ⟨w, b', hread, hv', ?_, hcontents, hoffset⟩
  rw [word_eq hfour, ← loadLe32_take_four]
  exact congrArg loadLe32 hbytes

theorem readString_short (hshort : b.pos.toNat < b.offset.toNat + 4)
    (hwrap : b.offset.toNat + 4 < 2 ^ 32) (value : List Byte) (fill : ℕ → Byte) :
    b.readString value fill = some (value, b) := by
  have hread : b.read (le32 0) 4 = some (le32 0, b) := read_short hshort hwrap _
  rw [readString, hread]
  rfl

theorem readString_of_word {w : List Byte} (hread : b.read (le32 0) 4 = some (w, b'))
    (hpos : 0 < loadLe32 w) (value : List Byte) (fill : ℕ → Byte) :
    b.readString value fill =
      (b'.read (malloc fill (loadLe32 w + 1)) (loadLe32 w)).bind fun r ↦
        if (loadLe32 w).toNat < r.1.length then
          some ((r.1.set (loadLe32 w).toNat 0).takeWhile (· ≠ 0), r.2) else none := by
  rw [readString, hread]
  dsimp only [Option.bind_eq_bind, Option.bind_some]
  rw [if_pos hpos]

/-- What a string read asks of the cursor and of the length word, as numbers without a bound. -/
def StringFits (b : BufferData) : Prop :=
  b.offset.toNat + 4 < 2 ^ 32 ∧
    (b.offset.toNat + 4 ≤ b.pos.toNat → b.offset.toNat + 4 + b.word.toNat < 2 ^ 32)

instance (b : BufferData) : Decidable b.StringFits := inferInstanceAs (Decidable (_ ∧ _))

theorem readString_isSome_iff (hv : Valid b) (value : List Byte) (fill : ℕ → Byte) :
    (∃ value' b', b.readString value fill = some (value', b') ∧ Valid b') ↔ b.StringFits := by
  by_cases hwrap : b.offset.toNat + 4 < 2 ^ 32
  case neg =>
    refine iff_of_false ?_ fun h ↦ hwrap h.1
    have hfour : 2 ^ 32 ≤ b.offset.toNat + (4 : UInt32).toNat := not_lt.mp hwrap
    have hread : b.read (le32 0) 4 = none := read_wrapped hv hfour _
    rintro ⟨value', b', hstring, -⟩
    rw [readString, hread] at hstring
    cases hstring
  by_cases hfour : b.offset.toNat + 4 ≤ b.pos.toNat
  case neg =>
    exact iff_of_true ⟨value, b, readString_short (not_le.mp hfour) hwrap value fill, hv⟩
      ⟨hwrap, fun h ↦ absurd h hfour⟩
  obtain ⟨w, b₁, hread, hv₁, hword, -, hoffset⟩ := read_word hv hfour
  have hcond : b.StringFits ↔ b₁.offset.toNat + (loadLe32 w).toNat < 2 ^ 32 := by
    rw [hoffset, hword]
    exact ⟨fun h ↦ h.2 hfour, fun h ↦ ⟨hwrap, fun _ ↦ h⟩⟩
  rw [hcond]
  by_cases hzero : loadLe32 w = 0
  · refine iff_of_true ⟨value, b₁, ?_, hv₁⟩ ?_
    · rw [readString, hread]
      dsimp only [Option.bind_eq_bind, Option.bind_some]
      rw [hzero]
      rfl
    · rw [hzero]
      exact b₁.offset.toNat_lt
  have hpos : 0 < loadLe32 w := UInt32.pos_iff_ne_zero.mpr hzero
  rw [readString_of_word hread hpos]
  by_cases hroom : b₁.offset.toNat + (loadLe32 w).toNat < 2 ^ 32
  · have hsucc : (loadLe32 w + 1).toNat = (loadLe32 w).toNat + 1 := by
      rw [UInt32.toNat_add, UInt32.toNat_one, Nat.mod_eq_of_lt]
      omega
    have hblock : (loadLe32 w).toNat ≤ (malloc fill (loadLe32 w + 1)).length := by
      rw [length_malloc, hsucc]
      exact Nat.le_succ _
    obtain ⟨tmp, b₂, hread₂, hv₂, hlen⟩ := read_ok hv₁ hblock hroom
    have hin : (loadLe32 w).toNat < tmp.length := by
      rw [hlen, length_malloc, hsucc]
      exact Nat.lt_succ_self _
    refine iff_of_true ⟨(tmp.set (loadLe32 w).toNat 0).takeWhile (· ≠ 0), b₂, ?_, hv₂⟩ hroom
    rw [hread₂, Option.bind_some, if_pos hin]
  · refine iff_of_false ?_ hroom
    rw [read_wrapped hv₁ (not_lt.mp hroom)]
    rintro ⟨value', b', hstring, -⟩
    cases hstring

end BufferData

/-! ## The buffers that carry their validity -/

namespace Buffer

def toData (b : Buffer) : BufferData := ⟨b.size, b.pos, b.offset, b.data⟩

variable {b b' : Buffer} {src : List Byte} {len : UInt32}

theorem valid_toData (b : Buffer) : b.toData.Valid :=
  ⟨b.offset_le_pos, b.pos_le_size, b.data_length⟩

theorem malloc_eq (n : UInt32) : malloc n = BufferData.malloc (fun _ ↦ 0) n := by
  rw [malloc, BufferData.malloc, List.map_const', List.length_range]

theorem toData_empty : empty.toData = BufferData.new fun _ ↦ 0 := by
  rw [BufferData.new, ← malloc_eq]
  rfl

theorem toData_clear (b : Buffer) : b.clear.toData = b.toData.clear := rfl

theorem toData_cutData (b : Buffer) (len : Int32) :
    (b.cutData len).toData = b.toData.cutData len := by
  unfold cutData BufferData.cutData
  by_cases h : b.offset + len.toUInt32 > b.pos
  · rw [dif_pos h, if_pos (show b.toData.offset + len.toUInt32 > b.toData.pos from h)]
    rfl
  · rw [dif_neg h, if_neg (show ¬ b.toData.offset + len.toUInt32 > b.toData.pos from h)]
    rfl

/-- A read copies into an array that has room what the read of the buffer gives, or leaves it. -/
theorem toData_read (b : Buffer) {dst : List Byte} (hdst : len.toNat ≤ dst.length) :
    b.toData.read dst len = (b.read len).map fun r ↦
      (r.1.elim dst (blit dst 0), r.2.toData) := by
  have hdata := b.data_length
  unfold BufferData.read read
  by_cases h : b.offset + len > b.pos
  · rw [dif_pos h, if_pos (show b.toData.offset + len > b.toData.pos from h)]
    rfl
  · rw [dif_neg h, if_neg (show ¬ b.toData.offset + len > b.toData.pos from h)]
    by_cases hroom : b.offset.toNat + len.toNat ≤ b.size.toNat
    · rw [if_pos hroom, BufferData.memcpy, if_pos ⟨by omega, hdata ▸ hroom⟩]
      rfl
    · rw [if_neg hroom, BufferData.memcpy, if_neg fun hcopy ↦ hroom (hdata ▸ hcopy.2)]
      rfl

/-- The data of a buffer is written where the buffer is, and to the same bytes when new blocks
hold zeros. -/
theorem toData_write (b : Buffer) (src : List Byte) (len : UInt32) :
    b.toData.write src len (fun _ ↦ 0) = (b.write src len).map toData := by
  have hdata := b.data_length
  have hpos := b.pos_le_size
  by_cases hfits : b.pos.toNat + len.toNat ≤ (b.writeSize len).toNat ∧ len.toNat ≤ src.length
  · have hblock := b.length_writeBlock len (by omega)
    have hcopy : BufferData.memcpy (b.writeBlock len) b.pos.toNat src 0 len.toNat =
        some (blit (b.writeBlock len) b.pos.toNat (src.take len.toNat)) := by
      rw [BufferData.memcpy, if_pos ⟨hblock ▸ hfits.1, by omega⟩, List.drop_zero]
    have hwrite : (b.write src len).map toData = some ⟨b.writeSize len, b.pos + len, b.offset,
        blit (b.writeBlock len) b.pos.toNat (src.take len.toNat)⟩ := by
      rw [write, dif_pos hfits]
      rfl
    rw [hwrite, BufferData.write]
    by_cases hgrow : b.pos + len > b.size
    · have hsize : b.writeSize len = b.toData.newSize len := by
        rw [writeSize, if_pos hgrow]
        rfl
      have hold : BufferData.memcpy (BufferData.malloc (fun _ ↦ 0) (b.toData.newSize len)) 0
          b.data 0 b.pos.toNat = some (b.writeBlock len) := by
        rw [BufferData.memcpy, ← malloc_eq, ← hsize, if_pos ⟨by rw [length_malloc]; omega,
          by omega⟩, List.drop_zero, writeBlock, if_pos hgrow]
      rw [if_pos (show b.toData.pos + len > b.toData.size from hgrow), hsize]
      change (BufferData.memcpy _ 0 b.data 0 b.pos.toNat).bind _ = _
      rw [hold, Option.bind_some]
      change (BufferData.memcpy _ b.pos.toNat src 0 len.toNat).bind _ = _
      rw [hcopy, Option.bind_some]
      rfl
    · have hsize : b.writeSize len = b.size := by rw [writeSize, if_neg hgrow]
      have hold : b.writeBlock len = b.data := by rw [writeBlock, if_neg hgrow]
      rw [if_neg (show ¬ b.toData.pos + len > b.toData.size from hgrow), hsize]
      change (BufferData.memcpy b.data b.pos.toNat src 0 len.toNat).bind _ = _
      rw [← hold, hcopy, Option.bind_some]
      rfl
  · have hnone : b.write src len = none := by rw [write, dif_neg hfits]
    rw [hnone, Option.map_none, Option.eq_none_iff_forall_ne_some]
    intro d hd
    exact hfits (BufferData.room_of_write b.valid_toData hd)

end Buffer

end Slience
