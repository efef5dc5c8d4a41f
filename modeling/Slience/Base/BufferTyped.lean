import Slience.Base.BufferData
import Mathlib.Data.List.TakeWhile

/-!
# Typed values in a buffer

`operator<<` and `operator>>` of `base::Buffer` for values of fixed-size types, of which a buffer
sees `sizeof` bytes, and for strings, which are written with their length before them and read
back as a C string.  A block that is made while `Size()` is `p` holds what `fill p` says.
-/

namespace Slience

inductive BufferType
  | fixed (width : UInt32)
  | string
  deriving DecidableEq

/-- A value of a type, and what the variable that it is read into held before. -/
structure BufferItem where
  type : BufferType
  value : List Byte
  old : List Byte
  deriving DecidableEq

namespace BufferData

/-- `Buffer::Write(std::string const&)` -/
def writeString (b : BufferData) (value : List Byte) (fill : ℕ → ℕ → Byte) : Option BufferData :=
  let len := UInt32.ofNat value.length
  (b.write (le32 len) 4 (fill b.pos.toNat)).bind fun b ↦ b.write value len (fill b.pos.toNat)

/-- `Buffer::operator<<` -/
def writeValue (b : BufferData) (fill : ℕ → ℕ → Byte) : BufferType → List Byte → Option BufferData
  | .fixed width, value => b.write value width (fill b.pos.toNat)
  | .string, value => b.writeString value fill

/-- `Buffer::operator>>` into a variable that held `old`. -/
def readValue (b : BufferData) (fill : ℕ → Byte) :
    BufferType → List Byte → Option (List Byte × BufferData)
  | .fixed width, old => b.read old width
  | .string, old => b.readString old fill

def writeAll (fill : ℕ → ℕ → Byte) : BufferData → List BufferItem → Option BufferData
  | b, [] => some b
  | b, item :: items =>
      (b.writeValue fill item.type item.value).bind fun b ↦ writeAll fill b items

/-- The values read one after the other into the variables, and the buffer after them. -/
def readAll (fill : ℕ → Byte) :
    BufferData → List BufferItem → Option (List (List Byte) × BufferData)
  | b, [] => some ([], b)
  | b, item :: items =>
      (b.readValue fill item.type item.old).bind fun r ↦
        (readAll fill r.2 items).map fun rs ↦ (r.1 :: rs.1, rs.2)

end BufferData

namespace BufferItem

/-- Value and variable have the size of their type. -/
def WellTyped (item : BufferItem) : Prop :=
  match item.type with
  | .fixed width => item.value.length = width.toNat ∧ item.old.length = width.toNat
  | .string => True

instance (item : BufferItem) : Decidable item.WellTyped :=
  match htype : item.type with
  | .fixed width => decidable_of_iff
      (item.value.length = width.toNat ∧ item.old.length = width.toNat)
      (by rw [WellTyped, htype])
  | .string => isTrue (by rw [WellTyped, htype]; trivial)

def encode (item : BufferItem) : List Byte :=
  match item.type with
  | .fixed _ => item.value
  | .string => le32 (UInt32.ofNat item.value.length) ++ item.value

/-- What the variable holds after the item was written and read. -/
def readBack (item : BufferItem) : List Byte :=
  match item.type with
  | .fixed _ => item.value
  | .string => if item.value = [] then item.old else item.value.takeWhile (· ≠ 0)

/-- A string has no NUL, and an empty one is read into an empty variable. -/
def ComesBack (item : BufferItem) : Prop :=
  item.type = .string → 0 ∉ item.value ∧ (item.value = [] → item.old = [])

instance (item : BufferItem) : Decidable item.ComesBack :=
  inferInstanceAs (Decidable (item.type = .string → _))

theorem takeWhile_eq_iff {l : List Byte} : l.takeWhile (· ≠ 0) = l ↔ 0 ∉ l := by
  rw [List.takeWhile_eq_self_iff]
  constructor
  · intro h hmem
    have hzero := h 0 hmem
    rw [decide_eq_true_iff] at hzero
    exact hzero rfl
  · intro h x hx
    rw [decide_eq_true_iff]
    rintro rfl
    exact h hx

theorem readBack_eq_iff (item : BufferItem) : item.readBack = item.value ↔ item.ComesBack := by
  unfold readBack ComesBack
  split
  · rename_i width htype
    rw [htype]
    exact iff_of_true rfl fun h ↦ by cases h
  · rename_i htype
    rw [htype]
    split
    · rename_i hnil
      rw [hnil]
      exact ⟨fun h _ ↦ ⟨List.not_mem_nil, fun _ ↦ h⟩, fun h ↦ (h rfl).2 rfl⟩
    · rename_i hne
      rw [takeWhile_eq_iff]
      exact ⟨fun h _ ↦ ⟨h, fun hnil ↦ absurd hnil hne⟩, fun h ↦ (h rfl).1⟩

end BufferItem

namespace BufferData

variable {b b' : BufferData} {item : BufferItem} {items : List BufferItem}
  {rest value old : List Byte}

/-! ## Writing -/

theorem fits_of_lt (hv : b.Valid) {len : UInt32}
    (h : b.contents.length + len.toNat < Buffer.writeLimit) : b.Fits len := by
  rw [length_contents hv] at h
  exact Or.inr h

theorem writeString_spec (hv : b.Valid) (fill : ℕ → ℕ → Byte)
    (hsize : b.contents.length + (4 + value.length) < Buffer.writeLimit) :
    ∃ b', b.writeString value fill = some b' ∧ b'.Valid ∧
      b'.contents = b.contents ++ (le32 (UInt32.ofNat value.length) ++ value) ∧
      b'.offset = b.offset := by
  have hlimit : Buffer.writeLimit < 2 ^ 32 := by decide
  have hlen : (UInt32.ofNat value.length).toNat = value.length := by
    rw [UInt32.toNat_ofNat', Nat.mod_eq_of_lt]
    omega
  have hfour : (4 : UInt32).toNat = 4 := rfl
  have hword : (4 : UInt32).toNat ≤ (le32 (UInt32.ofNat value.length)).length := by
    rw [length_le32, hfour]
  obtain ⟨b₁, hwrite₁, hv₁, hcontents₁, hoffset₁⟩ :=
    write_spec hv hword (fits_of_lt hv (by omega)) (fill b.pos.toNat)
  have htake : (le32 (UInt32.ofNat value.length)).take (4 : UInt32).toNat =
      le32 (UInt32.ofNat value.length) := List.take_of_length_le (by rw [length_le32, hfour])
  rw [htake] at hcontents₁
  obtain ⟨b₂, hwrite₂, hv₂, hcontents₂, hoffset₂⟩ :=
    write_spec hv₁ hlen.le
      (fits_of_lt hv₁ (by rw [hcontents₁, List.length_append, length_le32]; omega))
      (fill b₁.pos.toNat)
  refine ⟨b₂, ?_, hv₂, ?_, hoffset₂.trans hoffset₁⟩
  · rw [writeString, hwrite₁, Option.bind_some, hwrite₂]
  · rw [hcontents₂, hcontents₁, hlen, List.take_length, List.append_assoc]

theorem writeValue_spec (hv : b.Valid) (hitem : item.WellTyped) (fill : ℕ → ℕ → Byte)
    (hsize : b.contents.length + item.encode.length < Buffer.writeLimit) :
    ∃ b', b.writeValue fill item.type item.value = some b' ∧ b'.Valid ∧
      b'.contents = b.contents ++ item.encode ∧ b'.offset = b.offset := by
  unfold BufferItem.WellTyped at hitem
  unfold BufferItem.encode at hsize ⊢
  cases htype : item.type with
  | fixed width =>
      simp only [htype] at hitem hsize ⊢
      obtain ⟨b', hwrite, hv', hcontents, hoffset⟩ :=
        write_spec hv hitem.1.ge (fits_of_lt hv (hitem.1 ▸ hsize)) (fill b.pos.toNat)
      rw [← hitem.1, List.take_length] at hcontents
      exact ⟨b', hwrite, hv', hcontents, hoffset⟩
  | string =>
      simp only [htype] at hsize ⊢
      rw [List.length_append, length_le32] at hsize
      exact writeString_spec hv fill hsize

theorem writeAll_spec (fill : ℕ → ℕ → Byte) (hv : b.Valid) (hitems : ∀ item ∈ items, item.WellTyped)
    (hsize : b.contents.length + (items.flatMap BufferItem.encode).length < Buffer.writeLimit) :
    ∃ b', writeAll fill b items = some b' ∧ b'.Valid ∧
      b'.contents = b.contents ++ items.flatMap BufferItem.encode ∧ b'.offset = b.offset := by
  induction items generalizing b with
  | nil => exact ⟨b, rfl, hv, (List.append_nil _).symm, rfl⟩
  | cons item items ih =>
      rw [List.flatMap_cons, List.length_append] at hsize
      obtain ⟨b₁, hwrite, hv₁, hcontents₁, hoffset₁⟩ :=
        writeValue_spec hv (hitems item List.mem_cons_self) fill (by omega)
      have hsize₁ : b₁.contents.length + (items.flatMap BufferItem.encode).length <
          Buffer.writeLimit := by
        rw [hcontents₁, List.length_append]
        omega
      obtain ⟨b', hrest, hv', hcontents, hoffset⟩ :=
        ih hv₁ (fun i hi ↦ hitems i (List.mem_cons_of_mem _ hi)) hsize₁
      refine ⟨b', ?_, hv', ?_, hoffset.trans hoffset₁⟩
      · rw [writeAll, hwrite, Option.bind_some, hrest]
      · rw [hcontents, hcontents₁, List.flatMap_cons, List.append_assoc]

/-! ## Reading what was written -/

theorem fits_of_unread (hv : b.Valid) {bytes : List Byte} (hunread : b.unread = bytes ++ rest) :
    b.offset.toNat + bytes.length ≤ b.pos.toNat := by
  have hlen := length_unread hv
  have hle := hv.offset_le
  rw [hunread, List.length_append] at hlen
  omega

/-- A read of the next bytes, into an array that may be longer. -/
theorem read_next (hv : b.Valid) {bytes dst : List Byte} {len : UInt32}
    (hbytes : bytes.length = len.toNat) (hdst : len.toNat ≤ dst.length)
    (hunread : b.unread = bytes ++ rest) :
    ∃ dst' b', b.read dst len = some (dst', b') ∧ b'.Valid ∧ dst'.take len.toNat = bytes ∧
      dst'.length = dst.length ∧ b'.unread = rest ∧
      b'.offset.toNat = b.offset.toNat + len.toNat := by
  have hfits := fits_of_unread hv hunread
  rw [hbytes] at hfits
  obtain ⟨dst', b', hread, hv', htake, hlen, hcontents, hoffset⟩ := read_spec hv hdst hfits
  refine ⟨dst', b', hread, hv', ?_, hlen, ?_, hoffset⟩
  · rw [htake, hunread, ← hbytes, List.take_left]
  · rw [unread, hcontents, hoffset, ← List.drop_drop]
    change b.unread.drop len.toNat = rest
    rw [hunread, ← hbytes, List.drop_left]

/-- The text that comes out of the block `tmp`, which has one more place for the final NUL. -/
theorem takeWhile_set {tmp text : List Byte} (htake : tmp.take text.length = text)
    (hlen : tmp.length = text.length + 1) :
    (tmp.set text.length 0).takeWhile (· ≠ 0) = text.takeWhile (· ≠ 0) := by
  have hset : tmp.set text.length 0 = text ++ [0] := by
    rw [List.set_eq_take_append_cons_drop, if_pos (by omega), htake,
      List.drop_eq_nil_of_le (by omega)]
  rw [hset, List.takeWhile_append]
  split
  · rename_i hall
    rw [List.takeWhile_cons_of_neg (by decide), List.append_nil]
    exact ((List.takeWhile_prefix _).eq_of_length hall).symm
  · rfl

theorem readString_next (hv : b.Valid) {text : List Byte} (hsmall : text.length + 1 < 2 ^ 32)
    (hunread : b.unread = le32 (UInt32.ofNat text.length) ++ (text ++ rest)) (old : List Byte)
    (fill : ℕ → Byte) :
    ∃ b', b.readString old fill =
        some (if text = [] then old else text.takeWhile (· ≠ 0), b') ∧
      b'.Valid ∧ b'.unread = rest := by
  have hlen : (UInt32.ofNat text.length).toNat = text.length := by
    rw [UInt32.toNat_ofNat', Nat.mod_eq_of_lt]
    omega
  have hdst : (4 : UInt32).toNat ≤ (le32 0).length := by rw [length_le32]; rfl
  obtain ⟨w, b₁, hread, hv₁, hw, hwlen, hunread₁, -⟩ :=
    read_next hv (length_le32 _) hdst hunread
  have hword : loadLe32 w = UInt32.ofNat text.length := by
    have hall : w.take (4 : UInt32).toNat = w :=
      List.take_of_length_le (by rw [hwlen, length_le32]; rfl)
    have hload := loadLe32_le32 (UInt32.ofNat text.length) []
    rw [hall] at hw
    rwa [List.append_nil, ← hw] at hload
  by_cases htext : text = []
  · rw [htext, List.nil_append] at hunread₁
    refine ⟨b₁, ?_, hv₁, hunread₁⟩
    rw [if_pos htext, readString, hread]
    dsimp only [Option.bind_eq_bind, Option.bind_some]
    rw [hword, htext]
    rfl
  · have hpos : 0 < loadLe32 w := by
      rw [hword, UInt32.lt_iff_toNat_lt, hlen]
      exact List.length_pos_of_ne_nil htext
    have hsucc : (loadLe32 w + 1).toNat = text.length + 1 := by
      rw [UInt32.toNat_add, hword, hlen, UInt32.toNat_one, Nat.mod_eq_of_lt hsmall]
    have hwnat : (loadLe32 w).toNat = text.length := by rw [hword, hlen]
    have htmpLen : (loadLe32 w).toNat ≤ (malloc fill (loadLe32 w + 1)).length := by
      rw [length_malloc, hsucc, hwnat]
      exact Nat.le_succ _
    obtain ⟨tmp, b₂, hread₂, hv₂, htake, htmp, hunread₂, -⟩ :=
      read_next hv₁ hwnat.symm htmpLen hunread₁
    rw [length_malloc, hsucc] at htmp
    rw [hwnat] at htake
    refine ⟨b₂, ?_, hv₂, hunread₂⟩
    rw [readString_of_word hread hpos, hread₂, Option.bind_some, hwnat,
      if_pos (by rw [htmp]; exact Nat.lt_succ_self _), takeWhile_set htake htmp, if_neg htext]

theorem readValue_next (hv : b.Valid) (hitem : item.WellTyped)
    (hsmall : item.encode.length < Buffer.writeLimit) (hunread : b.unread = item.encode ++ rest)
    (fill : ℕ → Byte) :
    ∃ b', b.readValue fill item.type item.old = some (item.readBack, b') ∧ b'.Valid ∧
      b'.unread = rest := by
  unfold BufferItem.WellTyped at hitem
  unfold BufferItem.encode at hsmall hunread
  unfold BufferItem.readBack
  cases htype : item.type with
  | fixed width =>
      simp only [htype] at hitem hunread ⊢
      obtain ⟨dst, b', hread, hv', htake, hlen, hunread', -⟩ :=
        read_next hv hitem.1 hitem.2.ge hunread
      have hdst : dst = item.value := by
        rw [← htake, ← hitem.2, ← hlen, List.take_length]
      exact ⟨b', by rw [← hdst]; exact hread, hv', hunread'⟩
  | string =>
      simp only [htype] at hsmall hunread ⊢
      rw [List.length_append, length_le32] at hsmall
      simp only [Buffer.writeLimit] at hsmall
      rw [List.append_assoc] at hunread
      exact readString_next hv (by omega) hunread item.old fill

theorem readAll_spec (hv : b.Valid) (hitems : ∀ item ∈ items, item.WellTyped)
    (hsize : (items.flatMap BufferItem.encode).length < Buffer.writeLimit)
    (hunread : b.unread = items.flatMap BufferItem.encode) (fill : ℕ → Byte) :
    ∃ b', readAll fill b items = some (items.map BufferItem.readBack, b') ∧ b'.unread = [] ∧
      b'.Valid := by
  induction items generalizing b with
  | nil => exact ⟨b, rfl, hunread, hv⟩
  | cons item items ih =>
      rw [List.flatMap_cons, List.length_append] at hsize
      rw [List.flatMap_cons] at hunread
      obtain ⟨b₁, hread, hv₁, hunread₁⟩ :=
        readValue_next hv (hitems item List.mem_cons_self) (by omega) hunread fill
      obtain ⟨b', hrest, hempty, hv'⟩ :=
        ih hv₁ (fun i hi ↦ hitems i (List.mem_cons_of_mem _ hi)) (by omega) hunread₁
      refine ⟨b', ?_, hempty, hv'⟩
      rw [readAll, hread, Option.bind_some, hrest, Option.map_some, List.map_cons]

/-- What is written to a new buffer and read again comes back exactly when no string has a NUL
and no empty string meets a variable with text in it.  Nothing is left in the buffer in any
case. -/
theorem readAll_writeAll_iff (fill : ℕ → ℕ → Byte) (tmp : ℕ → Byte) {items : List BufferItem}
    (hitems : ∀ item ∈ items, item.WellTyped)
    (hsize : (items.flatMap BufferItem.encode).length < Buffer.writeLimit) :
    ∃ b, writeAll fill (new (fill 0)) items = some b ∧ ∃ values b',
      readAll tmp b items = some (values, b') ∧ b'.length = 0 ∧
        (values = items.map BufferItem.value ↔ ∀ item ∈ items, item.ComesBack) := by
  have hnew : (new (fill 0)).contents.length = 0 := rfl
  obtain ⟨b, hwrite, hv, hcontents, hoffset⟩ :=
    writeAll_spec fill (valid_new (fill 0)) hitems (by omega)
  have hunread : b.unread = items.flatMap BufferItem.encode := by
    rw [unread, hcontents, hoffset]
    rfl
  obtain ⟨b', hread, hempty, hv'⟩ := readAll_spec hv hitems hsize hunread tmp
  refine ⟨b, hwrite, _, b', hread, ?_, ?_⟩
  · have hlen := length_unread hv'
    have hle := hv'.offset_le
    rw [hempty, List.length_nil] at hlen
    rw [length, ← UInt32.toNat_inj, UInt32.toNat_sub_of_le _ _ (UInt32.le_iff_toNat_le.mpr hle)]
    exact hlen.symm
  · rw [List.map_inj_left]
    exact forall₂_congr fun item _ ↦ item.readBack_eq_iff

/-- A number, a text and an empty text, each read into a variable of its own. -/
theorem readAll_writeAll_iff_three :
    ∃ b, writeAll (fun _ _ ↦ 9)
        (new fun _ ↦ 9) [⟨.fixed 2, [1, 0], [7, 7]⟩, ⟨.string, [97, 98], [99]⟩, ⟨.string, [], []⟩] =
          some b ∧
      ∃ values b', readAll (fun _ ↦ 5) b
          [⟨.fixed 2, [1, 0], [7, 7]⟩, ⟨.string, [97, 98], [99]⟩, ⟨.string, [], []⟩] =
            some (values, b') ∧
        b'.length = 0 ∧
        (values = [⟨.fixed 2, [1, 0], [7, 7]⟩, ⟨.string, [97, 98], [99]⟩,
            ⟨.string, [], []⟩].map BufferItem.value ↔
          ∀ item ∈ [⟨.fixed 2, [1, 0], [7, 7]⟩, ⟨.string, [97, 98], [99]⟩, ⟨.string, [], []⟩],
            BufferItem.ComesBack item) :=
  readAll_writeAll_iff (fun _ _ ↦ 9) (fun _ ↦ 5) (by decide) (by decide)

/-- A text with a NUL comes back without what follows the NUL. -/
theorem readAll_nul : ¬ ∃ b b',
    writeAll (fun _ _ ↦ 9) (new fun _ ↦ 9) [⟨.string, [97, 0, 98], []⟩] = some b ∧
      readAll (fun _ ↦ 5) b [⟨.string, [97, 0, 98], []⟩] = some ([[97, 0, 98]], b') ∧
      b'.length = 0 := by
  rintro ⟨b, b', hwrite, hread, -⟩
  have hvalue : ((writeAll (fun _ _ ↦ 9) (new fun _ ↦ 9) [⟨.string, [97, 0, 98], []⟩]).bind
      fun b ↦ (readAll (fun _ ↦ 5) b [⟨.string, [97, 0, 98], []⟩]).map Prod.fst) =
        some [[97]] := by decide +kernel
  rw [hwrite, Option.bind_some, hread] at hvalue
  cases hvalue

/-! ## Values that are not all there -/

/-- The unread bytes hold a value of the type. -/
def Complete (b : BufferData) : BufferType → Prop
  | .fixed width => width.toNat ≤ b.unread.length
  | .string => 4 ≤ b.unread.length ∧ 4 + (loadLe32 b.unread).toNat ≤ b.unread.length

instance (b : BufferData) (type : BufferType) : Decidable (b.Complete type) :=
  match type with
  | .fixed _ => inferInstanceAs (Decidable (_ ≤ _))
  | .string => inferInstanceAs (Decidable (_ ∧ _))

/-- The variable is a value of the type. -/
def Holds (old : List Byte) : BufferType → Prop
  | .fixed width => old.length = width.toNat
  | .string => True

/-- The size of the value, or of the length word, ends the read: the sum with the cursor does not
wrap around, and of a string not even the length word is there. -/
def LeftAlone (b : BufferData) : BufferType → Prop
  | .fixed width => b.offset.toNat + width.toNat < 2 ^ 32
  | .string => b.offset.toNat + 4 < 2 ^ 32 ∧ b.unread.length < 4

theorem readString_incomplete (hv : b.Valid) (hfour : 4 ≤ b.unread.length)
    (hshort : ¬ b.Complete .string) (old : List Byte) (fill : ℕ → Byte) :
    b.readString old fill ≠ some (old, b) := by
  have hlen := length_unread hv
  have hle : b.offset.toNat + 4 ≤ b.pos.toNat := by omega
  obtain ⟨w, b₁, hread, hv₁, hword, hcontents, hoffset⟩ := read_word hv hle
  have hunread : loadLe32 w = loadLe32 b.unread := by
    rw [hword, word_eq hle, loadLe32_take_four]
  have hneed : b.unread.length < 4 + (loadLe32 w).toNat := by
    rw [hunread]
    exact not_le.mp fun h ↦ hshort ⟨hfour, h⟩
  have hpos : 0 < loadLe32 w := by
    rw [UInt32.lt_iff_toNat_lt, UInt32.toNat_zero]
    omega
  have hsame : b₁.pos.toNat = b.pos.toNat := by
    rw [← length_contents hv, ← length_contents hv₁, hcontents]
  intro hstring
  rw [readString_of_word hread hpos] at hstring
  by_cases hwrap : b₁.offset.toNat + (loadLe32 w).toNat < 2 ^ 32
  · -- the text is not read, but the cursor stays behind the length word
    rw [read_short (by omega) hwrap, Option.bind_some] at hstring
    split at hstring
    · have hcursor := congrArg (fun b : BufferData ↦ b.offset.toNat)
        (Prod.mk.inj (Option.some.inj hstring)).2
      dsimp only at hcursor
      omega
    · cases hstring
  · rw [read_wrapped hv₁ (not_lt.mp hwrap)] at hstring
    cases hstring

/-- A value that is not all there leaves the variable and the cursor as they were, whatever the
memory holds, exactly when it is a value of a fixed size, or a string of which not even the
length is there. -/
theorem readValue_incomplete_iff (hv : b.Valid) {type : BufferType} (hold : Holds old type)
    (hshort : ¬ b.Complete type) :
    (∀ fill, b.readValue fill type old = some (old, b)) ↔ b.LeftAlone type := by
  cases type with
  | fixed width =>
      have hlen := length_unread hv
      have hle := hv.offset_le
      have hpos : b.pos.toNat < b.offset.toNat + width.toNat := by
        have hneed : b.unread.length < width.toNat := not_le.mp hshort
        omega
      constructor
      · intro h
        by_contra hwrap
        have hread : b.read old width = some (old, b) := h fun _ ↦ 0
        rw [read_wrapped hv (not_lt.mp hwrap)] at hread
        cases hread
      · intro hwrap fill
        exact read_short hpos hwrap old
  | string =>
      have hlen := length_unread hv
      have hle := hv.offset_le
      constructor
      · intro h
        have hsome := (readString_isSome_iff hv old fun _ ↦ 0).mp ⟨old, b, h _, hv⟩
        refine ⟨hsome.1, ?_⟩
        by_contra hfour
        exact readString_incomplete hv (not_lt.mp hfour) hshort old _ (h fun _ ↦ 0)
      · rintro ⟨hwrap, hfour⟩ fill
        exact readString_short (by omega) hwrap old fill

/-- Two bytes of a length word. -/
theorem readValue_incomplete_iff_two :
    (∀ fill, BufferData.readValue ⟨1024, 2, 0, malloc (fun _ ↦ 5) 1024⟩ fill .string [1] =
        some ([1], ⟨1024, 2, 0, malloc (fun _ ↦ 5) 1024⟩)) ↔
      LeftAlone ⟨1024, 2, 0, malloc (fun _ ↦ 5) 1024⟩ .string :=
  readValue_incomplete_iff ⟨by decide, by decide, length_malloc _ _⟩ trivial
    (by decide +kernel)

/-- The length word of a text of five bytes, and one of them. -/
def cutText : BufferData := ⟨1024, 5, 0, [5, 0, 0, 0, 97] ++ malloc (fun _ ↦ 0) 1019⟩

/-- The length word is skipped, and the variable gets what the block `tmp` held. -/
theorem readValue_cutText :
    cutText.Valid ∧ ¬ cutText.Complete .string ∧
      ¬ ∀ fill, cutText.readValue fill .string [1] = some ([1], cutText) := by
  refine ⟨⟨by decide, by decide, ?_⟩, by decide +kernel, ?_⟩
  · rw [cutText, List.length_append, length_malloc]
    rfl
  · intro h
    have hread : (cutText.readValue (fun _ ↦ 120) .string [1]).map Prod.fst =
        some [120, 120, 120, 120, 120] := by decide +kernel
    rw [h] at hread
    cases hread

end BufferData

end Slience
