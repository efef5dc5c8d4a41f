import Slience.Base.Logger
import Slience.Lib.Bytes
import Slience.Lib.Numeral

/-!
# Writing to a log stream

`logstream` and the members of `fixedbuffer` that it uses, on the array of the buffer.  A write
outside of the array has no result.  A number goes through `snprintf`: what it prints is a text,
of which as many bytes are stored as there is room for, then a NUL, and `seek` goes on by the
length of the text.
-/

namespace Slience

/-- `fixedbuffer<SIZE>` with the whole of its array; a `FixedBuffer` is what it holds. -/
structure FixedArray where
  data : List Byte
  pos : ℕ
  deriving DecidableEq

namespace FixedArray

/-- The difference of two values of type `size_t`. -/
def sizeSub (x y : ℕ) : ℕ := (2 ^ 64 + x - y) % 2 ^ 64

/-- The bytes are stored in the array from its element `i` on. -/
def store (a : FixedArray) (i : ℕ) (bytes : List Byte) : Option FixedArray :=
  if i + bytes.length ≤ a.data.length then some { a with data := blit a.data i bytes } else none

def avail (SIZE : ℕ) (a : FixedArray) : ℕ := sizeSub SIZE a.pos

/-- The bytes that `data` and `length` give to a caller. -/
def contents (a : FixedArray) : List Byte := a.data.take a.pos

def append (SIZE : ℕ) (a : FixedArray) (data : List Byte) : Option FixedArray := do
  let len := if sizeSub SIZE a.pos < data.length then sizeSub SIZE a.pos else data.length
  let a' ← a.store a.pos (data.take len)
  some { a' with pos := a.pos + len }

def seek (SIZE : ℕ) (a : FixedArray) (incr : ℤ) : FixedArray :=
  if 0 ≤ incr then
    let pos := a.pos + incr.toNat
    { a with pos := if SIZE < pos then SIZE else pos }
  else if a.pos < (-incr).toNat then { a with pos := 0 }
  else { a with pos := a.pos - (-incr).toNat }

/-- `snprintf(current, size, format, value)`, where the format prints the value as `text`. -/
def snprintf (a : FixedArray) (size : ℕ) (text : List Byte) : Option FixedArray :=
  if size = 0 then some a else a.store a.pos (text.take (size - 1) ++ [0])

end FixedArray

namespace Logstream

/-- `buffer_type` is `fixedbuffer<4 * 1024>`. -/
def size : ℕ := 4 * 1024

def decimalDigit (d : ℕ) : Byte := UInt8.ofNat (48 + d)

def hexDigit (d : ℕ) : Byte := if d < 10 then UInt8.ofNat (48 + d) else UInt8.ofNat (55 + d)

/-- The shortest decimal representation of an integer. -/
def decimalText (z : ℤ) : List Byte := signedNumeral 45 decimalDigit 10 z

/-- What `%d` prints of an argument with this value: the low 32 bits, as a signed number. -/
def printD (z : ℤ) : List Byte := decimalText (z.bmod (2 ^ 32))

/-- What `0x%0X` prints of a pointer: its low 32 bits. -/
def printX (p : UInt64) : List Byte := [48, 120] ++ numeral hexDigit 16 (p.toNat % 2 ^ 32)

/-- A `double`, known by what `%.12g` prints of it: twelve digits at most, with a sign, a point and
an exponent, or with a sign and up to five characters before the digits. -/
structure Double where
  text : List Byte
  length_le : text.length ≤ 19
  deriving DecidableEq

/-- A value of one of the integer types for which there is an `operator<<`. -/
inductive IntValue where
  | short (v : Int16)
  | unsignedShort (v : UInt16)
  | int (v : Int32)
  | unsignedInt (v : UInt32)
  | longLong (v : Int64)
  | unsignedLongLong (v : UInt64)
  deriving DecidableEq

def IntValue.val : IntValue → ℤ
  | short v => v.toInt
  | unsignedShort v => v.toNat
  | int v => v.toInt
  | unsignedInt v => v.toNat
  | longLong v => v.toInt
  | unsignedLongLong v => v.toNat

/-- The argument of an `operator<<`.  A C string is given with what follows it in memory, a
character array as a whole, and a `float` by the `double` it is cast to. -/
inductive Value where
  | bool (v : Bool)
  | integer (v : IntValue)
  | float (v : Double)
  | double (v : Double)
  | char (v : Byte)
  | string (v : List Byte)
  | array (v : List Byte)
  | cstring (v : List Byte)
  | pointer (v : UInt64)
  deriving DecidableEq

/-- `_convert`, with what the format for the type of the value prints. -/
def convert (a : FixedArray) (text : List Byte) : Option FixedArray :=
  if 32 ≤ a.avail size then do
    let a' ← a.snprintf (a.avail size) text
    some (a'.seek size text.length)
  else some a

def insertInt (a : FixedArray) (v : Int32) : Option FixedArray := convert a (printD v.toInt)

def insertUnsigned (a : FixedArray) (v : UInt32) : Option FixedArray :=
  convert a (printD v.toNat)

def insertInteger (a : FixedArray) : IntValue → Option FixedArray
  | .short v => insertInt a v.toInt32
  | .unsignedShort v => insertUnsigned a v.toUInt32
  | .int v => insertInt a v
  | .unsignedInt v => insertUnsigned a v
  | .longLong v => convert a (printD v.toInt)
  | .unsignedLongLong v => convert a (printD v.toNat)

def insertDouble (a : FixedArray) (v : Double) : Option FixedArray := convert a v.text

/-- `logstream::operator<<` -/
def insert (a : FixedArray) : Value → Option FixedArray
  | .bool v => a.append size [if v then 49 else 48]
  | .integer v => insertInteger a v
  | .float v => insertDouble a v
  | .double v => insertDouble a v
  | .char v => a.append size [v]
  | .string v => a.append size v
  | .array v => a.append size (v.take (v.length - 1))
  | .cstring v => a.append size (v.takeWhile (· ≠ 0))
  | .pointer v => convert a (printX v)

/-! ## The array and what it holds -/

end Logstream

namespace FixedBuffer

variable {SIZE : ℕ}

theorem data_append_eq_take (b : FixedBuffer SIZE) (data : List Byte) :
    (b.append data).data = (b.data ++ data).take SIZE := by
  have hle := b.length_le
  change b.data ++ data.take (if b.avail < data.length then b.avail else data.length) = _
  rw [List.take_append, List.take_of_length_le hle, avail, length]
  split
  · rfl
  · rename_i hroom
    rw [List.take_length, List.take_of_length_le (by omega)]

end FixedBuffer

namespace FixedArray

variable {SIZE : ℕ}

structure Holds (a : FixedArray) (b : FixedBuffer SIZE) : Prop where
  length : a.data.length = SIZE + 1
  pos : a.pos = b.length
  contents : a.contents = b.data

theorem sizeSub_eq {x y : ℕ} (hyx : y ≤ x) (hx : x < 2 ^ 64) : sizeSub x y = x - y := by
  unfold sizeSub
  omega

namespace Holds

variable {a : FixedArray} {b : FixedBuffer SIZE}

theorem pos_le (h : a.Holds b) : a.pos ≤ SIZE := by
  rw [h.pos]
  exact b.length_le

theorem avail_eq (h : a.Holds b) (hSIZE : SIZE < 2 ^ 64) : a.avail SIZE = b.avail := by
  rw [avail, sizeSub_eq h.pos_le hSIZE, h.pos]
  rfl

/-- The position goes on behind bytes that were stored there. -/
theorem advance (h : a.Holds b) (bytes rest : List Byte) (b' : FixedBuffer SIZE)
    (hlen : a.pos + (bytes ++ rest).length ≤ SIZE + 1) (hb' : b'.data = b.data ++ bytes) :
    ∃ a', a.store a.pos (bytes ++ rest) = some a' ∧ a'.pos = a.pos ∧
      FixedArray.Holds { a' with pos := a.pos + bytes.length } b' := by
  have hbound : a.pos + (bytes ++ rest).length ≤ a.data.length := by
    rw [h.length]
    exact hlen
  refine ⟨_, if_pos hbound, rfl, ?_, ?_, ?_⟩
  · change (blit a.data a.pos (bytes ++ rest)).length = SIZE + 1
    rw [length_blit hbound, h.length]
  · change a.pos + bytes.length = b'.data.length
    rw [hb', List.length_append, h.pos]
    rfl
  · change (blit a.data a.pos (bytes ++ rest)).take (a.pos + bytes.length) = b'.data
    have htake : (blit a.data a.pos (bytes ++ rest)).take (a.pos + (bytes ++ rest).length) =
        a.data.take a.pos ++ (bytes ++ rest) := take_blit (by omega)
    have hcut := congrArg (List.take (a.pos + bytes.length)) htake
    have hpos : (a.data.take a.pos).length = a.pos := by
      rw [List.length_take]
      omega
    rw [List.length_append] at hcut hlen
    rw [List.take_take, min_eq_left (by omega), ← List.append_assoc] at hcut
    rw [hcut, hb', ← h.contents, FixedArray.contents]
    apply List.take_left'
    rw [List.length_append, hpos]

theorem append (h : a.Holds b) (hSIZE : SIZE < 2 ^ 64) (data : List Byte) :
    ∃ a', a.append SIZE data = some a' ∧ a'.Holds (b.append data) := by
  have hlen : (data.take (if b.avail < data.length then b.avail else data.length)).length =
      if b.avail < data.length then b.avail else data.length := by
    rw [List.length_take]
    split <;> omega
  have hpos := h.pos_le
  obtain ⟨a', hstore, -, hholds⟩ := h.advance
    (data.take (if b.avail < data.length then b.avail else data.length)) [] (b.append data) (by
      rw [List.append_nil, hlen, h.pos, FixedBuffer.avail]
      have hle := b.length_le
      rw [FixedBuffer.length]
      split <;> omega) rfl
  refine ⟨_, ?_, hholds⟩
  have havail : sizeSub SIZE a.pos = b.avail := h.avail_eq hSIZE
  rw [List.append_nil] at hstore
  rw [FixedArray.append, havail]
  simp only [hstore, hlen]
  rfl

/-- A text for which there is room is appended by `snprintf` and `seek`. -/
theorem print (h : a.Holds b) (hSIZE : SIZE < 2 ^ 64) (text : List Byte)
    (hroom : text.length < b.avail) :
    ∃ a', a.snprintf (a.avail SIZE) text = some a' ∧
      (a'.seek SIZE text.length).Holds (b.append text) := by
  have havail := h.avail_eq hSIZE
  have hle := h.pos_le
  have hb : b.avail = SIZE - a.pos := by
    rw [h.pos]
    rfl
  obtain ⟨a', hstore, hpos, hholds⟩ := h.advance text [0] (b.append text)
    (by rw [List.length_append, List.length_singleton]; omega)
    (FixedBuffer.data_append hroom.le)
  refine ⟨a', ?_, ?_⟩
  · rw [snprintf, havail, if_neg (by omega), List.take_of_length_le (by omega), hstore]
  · have hseek : a'.seek SIZE text.length = { a' with pos := a.pos + text.length } := by
      rw [seek, if_pos (by omega)]
      dsimp only
      rw [Int.toNat_natCast, hpos, if_neg (by omega)]
    rw [hseek]
    exact hholds

end Holds

end FixedArray

/-! ## Numbers -/

namespace Logstream

theorem decimalText_injective : Function.Injective decimalText := by
  apply signedNumeral_injective (fun b : Byte ↦ b.toNat - 48) (by decide)
  · decide
  · decide

theorem length_printD (z : ℤ) : (printD z).length ≤ 11 := by
  apply length_signedNumeral_le (by decide) (by decide)
  have hlow := Int.le_bmod (x := z) (m := 2 ^ 32) (by decide)
  have hhigh := Int.bmod_lt (x := z) (m := 2 ^ 32) (by decide)
  omega

theorem length_printX (p : UInt64) : (printX p).length ≤ 10 := by
  have hlen : (numeral hexDigit 16 (p.toNat % 2 ^ 32)).length ≤ 8 :=
    length_numeral_le (by decide) (by decide) (Nat.mod_lt _ (by decide))
  rw [printX, List.length_append]
  exact Nat.add_le_add_left hlen 2

theorem printD_eq_iff (z : ℤ) : printD z = decimalText z ↔ -2 ^ 31 ≤ z ∧ z < 2 ^ 31 := by
  have hlow := Int.le_bmod (x := z) (m := 2 ^ 32) (by decide)
  have hhigh := Int.bmod_lt (x := z) (m := 2 ^ 32) (by decide)
  constructor
  · intro h
    have heq := decimalText_injective h
    omega
  · rintro ⟨hge, hlt⟩
    rw [printD, Int.bmod_eq_of_le (by omega) (by omega)]

theorem insertInteger_eq (a : FixedArray) (v : IntValue) :
    insertInteger a v = convert a (printD v.val) := by
  cases v with
  | short v =>
      change convert a (printD v.toInt32.toInt) = convert a (printD v.toInt)
      rw [Int16.toInt_toInt32]
  | unsignedShort v =>
      change convert a (printD (v.toUInt32.toNat : ℤ)) = convert a (printD (v.toNat : ℤ))
      rw [UInt16.toNat_toUInt32]
  | int v => rfl
  | unsignedInt v => rfl
  | longLong v => rfl
  | unsignedLongLong v => rfl

variable {a : FixedArray} {b : FixedBuffer size}

theorem holds_convert (h : a.Holds b) (text : List Byte) (hlen : text.length < 32) :
    ∃ a', convert a text = some a' ∧ a'.Holds (if 32 ≤ b.avail then b.append text else b) := by
  rw [convert, h.avail_eq (by decide)]
  split
  · rename_i hroom
    obtain ⟨a', hprint, hholds⟩ := h.print (by decide) text (hlen.trans_le hroom)
    refine ⟨_, ?_, hholds⟩
    rw [← h.avail_eq (by decide)]
    simp only [hprint]
    rfl
  · exact ⟨a, rfl, h⟩

/-- An integer is appended as its decimal representation exactly if its value fits into an
`int`. -/
theorem insert_integer_iff (h : a.Holds b) (hroom : 32 ≤ a.avail size) (v : IntValue) :
    (∃ a', insert a (.integer v) = some a' ∧
      a'.contents = a.contents ++ decimalText v.val) ↔ -2 ^ 31 ≤ v.val ∧ v.val < 2 ^ 31 := by
  rw [h.avail_eq (by decide)] at hroom
  have hlen := length_printD v.val
  obtain ⟨a', hconvert, hholds⟩ := holds_convert h (printD v.val) (by omega)
  have hcontents : a'.contents = a.contents ++ printD v.val := by
    rw [hholds.contents, if_pos hroom, FixedBuffer.data_append (by omega), h.contents]
  have hinsert : insert a (.integer v) = some a' := by
    change insertInteger a v = some a'
    rw [insertInteger_eq, hconvert]
  rw [← printD_eq_iff]
  constructor
  · rintro ⟨a'', hinsert', happend⟩
    rw [hinsert] at hinsert'
    cases hinsert'
    rw [hcontents] at happend
    exact List.append_cancel_left happend
  · intro heq
    refine ⟨a', hinsert, ?_⟩
    rw [hcontents, heq]

/-- An empty stream over cleared memory. -/
def blank : FixedArray := ⟨List.replicate (size + 1) 0, 0⟩

theorem holds_blank : blank.Holds (FixedBuffer.clear : FixedBuffer size) :=
  ⟨List.length_replicate, rfl, rfl⟩

theorem insert_integer_iff_blank :
    (∃ a', insert blank (.integer (.longLong (-7))) = some a' ∧
      a'.contents = blank.contents ++ decimalText (-7)) ∧ (32 : ℕ) ≤ blank.avail size :=
  ⟨(insert_integer_iff holds_blank (by decide) (.longLong (-7))).mpr (by decide), by decide⟩

theorem unsignedInt_printed_negative :
    ((insert blank (.integer (.unsignedInt 2147483648))).map FixedArray.contents =
      some (decimalText (-2147483648))) ∧
      ¬ ∃ a', insert blank (.integer (.unsignedInt 2147483648)) = some a' ∧
        a'.contents = blank.contents ++ decimalText (IntValue.unsignedInt 2147483648).val := by
  have hprinted : (insert blank (.integer (.unsignedInt 2147483648))).map FixedArray.contents =
      some (decimalText (-2147483648)) := by
    decide +kernel
  refine ⟨hprinted, ?_⟩
  rintro ⟨a', hinsert, hcontents⟩
  rw [hinsert, Option.map_some, hcontents] at hprinted
  revert hprinted
  decide +kernel

end Logstream

end Slience
