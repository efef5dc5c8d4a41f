import Slience.Base.Logstream

/-!
# The record of a log statement

`logimpl`: its constructor writes the time, the level and the thread to its stream, the statement
inserts values, and the destructor inserts the end of the line and gives the buffer to
`logger::log`.  All of this is cut off at four kilobytes, the end of the line too, and a number is
left out when fewer than 32 bytes are free.
-/

namespace Slience

namespace Logstream

inductive LogLevel where
  | trace
  | debug
  | info
  | warn
  | error
  | fatal
  deriving DecidableEq

/-- `_level_desc`: `"TRACE "`, `"DEBUG "`, `"INFO  "`, `"WARN  "`, `"ERROR "` and `"FATAL "` -/
def levelDesc : LogLevel → List Byte
  | .trace => [84, 82, 65, 67, 69, 32]
  | .debug => [68, 69, 66, 85, 71, 32]
  | .info => [73, 78, 70, 79, 32, 32]
  | .warn => [87, 65, 82, 78, 32, 32]
  | .error => [69, 82, 82, 79, 82, 32]
  | .fatal => [70, 65, 84, 65, 76, 32]

/-- What the constructor finds: the first 17 bytes of `_time_str`, the first 5 of `_mil_str`, and
`_thrid`. -/
structure Header where
  time : List Byte
  mil : List Byte
  thrid : List Byte
  time_length : time.length = 17
  mil_length : mil.length = 5

/-- The constructor of `logimpl`, with what is in the memory of the array. -/
def logimpl (memory : Vector Byte (size + 1)) (h : Header) (level : LogLevel) :
    Option FixedArray := do
  let a ← FixedArray.append size ⟨memory.toList, 0⟩ h.time
  let a ← a.append size h.mil
  let a ← insert a (.cstring (levelDesc level ++ [0]))
  insert a (.string h.thrid)

/-- The values of a log statement. -/
def insertAll (a : FixedArray) : List Value → Option FixedArray
  | [] => some a
  | v :: vs => (insert a v).bind fun a' ↦ insertAll a' vs

/-- The destructor of `logimpl` inserts `"\n"`; the contents are the record for `logger::log`. -/
def endLine (a : FixedArray) : Option FixedArray := insert a (.array [10, 0])

/-! ## What is inserted and what is kept of it -/

/-- What an insertion appends to a buffer without a bound. -/
def Value.text : Value → List Byte
  | .bool v => [if v then 49 else 48]
  | .integer v => printD v.val
  | .float v => v.text
  | .double v => v.text
  | .char v => [v]
  | .string v => v
  | .array v => v.take (v.length - 1)
  | .cstring v => v.takeWhile (· ≠ 0)
  | .pointer v => printX v

/-- The values that go through `_convert`. -/
def Value.isNumber : Value → Bool
  | .integer _ | .float _ | .double _ | .pointer _ => true
  | .bool _ | .char _ | .string _ | .array _ | .cstring _ => false

def headerText (h : Header) (level : LogLevel) : List Byte :=
  h.time ++ h.mil ++ levelDesc level ++ h.thrid

/-- The text of a statement, with nothing cut off or left out. -/
def statementText (h : Header) (level : LogLevel) (vs : List Value) : List Byte :=
  headerText h level ++ vs.flatMap Value.text

/-- The text `text` is continued, but for a number within 32 bytes of the end of the buffer or
behind it. -/
def keep (text : List Byte) (v : Value) : List Byte :=
  if v.isNumber = true ∧ size < text.length + 32 then text else text ++ v.text

/-- The text of a statement without the numbers that come too late. -/
def keptText (h : Header) (level : LogLevel) (vs : List Value) : List Byte :=
  vs.foldl keep (headerText h level)

/-! ## One insertion -/

variable {a : FixedArray} {b : FixedBuffer size}

theorem length_text_of_isNumber {v : Value} (h : v.isNumber = true) : v.text.length < 32 := by
  cases v with
  | integer v => exact (length_printD v.val).trans_lt (by decide)
  | float v => exact v.length_le.trans_lt (by decide)
  | double v => exact v.length_le.trans_lt (by decide)
  | pointer v => exact (length_printX v).trans_lt (by decide)
  | bool v => cases h
  | char v => cases h
  | string v => cases h
  | array v => cases h
  | cstring v => cases h

theorem insert_eq (a : FixedArray) (v : Value) :
    insert a v = if v.isNumber = true then convert a v.text else a.append size v.text := by
  cases v with
  | integer v => exact insertInteger_eq a v
  | float v => rfl
  | double v => rfl
  | pointer v => rfl
  | bool v => rfl
  | char v => rfl
  | string v => rfl
  | array v => rfl
  | cstring v => rfl

/-- The array holds the first four kilobytes of a text. -/
def Cut (a : FixedArray) (text : List Byte) : Prop :=
  ∃ b : FixedBuffer size, a.Holds b ∧ b.data = text.take size

theorem Cut.pos_le {text : List Byte} (h : Cut a text) : a.pos ≤ size := by
  obtain ⟨b, hb, -⟩ := h
  exact hb.pos_le

theorem Cut.contents_eq {text : List Byte} (h : Cut a text) : a.contents = text.take size := by
  obtain ⟨b, hb, hdata⟩ := h
  rw [hb.contents, hdata]

theorem Cut.append {text : List Byte} (h : Cut a text) (data : List Byte) :
    ∃ a', a.append size data = some a' ∧ Cut a' (text ++ data) := by
  obtain ⟨b, hb, hdata⟩ := h
  obtain ⟨a', happend, hholds⟩ := hb.append (by decide) data
  refine ⟨a', happend, _, hholds, ?_⟩
  rw [FixedBuffer.data_append_eq_take, hdata, List.take_append, List.take_append, List.take_take,
    min_self]
  congr 2
  rw [List.length_take]
  omega

theorem Cut.convert {text number : List Byte} (h : Cut a text) (hlen : number.length < 32) :
    ∃ a', convert a number = some a' ∧
      Cut a' (if size < text.length + 32 then text else text ++ number) := by
  obtain ⟨b, hb, hdata⟩ := h
  have hlength : b.length = min size text.length := by
    rw [FixedBuffer.length, hdata, List.length_take]
  obtain ⟨a', hconvert, hholds⟩ := holds_convert hb number hlen
  refine ⟨a', hconvert, _, hholds, ?_⟩
  rw [FixedBuffer.avail, hlength]
  by_cases hlate : size < text.length + 32
  · rw [if_pos hlate, if_neg (by omega), hdata]
  · have htext : text.take size = text := List.take_of_length_le (by omega)
    rw [if_neg hlate, if_pos (by omega), FixedBuffer.data_append_eq_take, hdata, htext]

theorem Cut.insert {text : List Byte} (h : Cut a text) (v : Value) :
    ∃ a', insert a v = some a' ∧ Cut a' (keep text v) := by
  rw [insert_eq, keep]
  cases hv : v.isNumber with
  | false =>
      obtain ⟨a', happend, hcut⟩ := h.append v.text
      exact ⟨a', happend, by simpa using hcut⟩
  | true =>
      obtain ⟨a', hconvert, hcut⟩ := h.convert (length_text_of_isNumber hv)
      exact ⟨a', hconvert, by simpa using hcut⟩

/-! ## A statement -/

theorem Cut.insertAll {text : List Byte} (h : Cut a text) (vs : List Value) :
    ∃ a', insertAll a vs = some a' ∧ Cut a' (vs.foldl keep text) := by
  induction vs generalizing a text with
  | nil => exact ⟨a, rfl, h⟩
  | cons v vs ih =>
      obtain ⟨a₁, hinsert, hcut⟩ := h.insert v
      obtain ⟨a', hrest, hcut'⟩ := ih hcut
      refine ⟨a', ?_, hcut'⟩
      rw [Logstream.insertAll, hinsert, Option.bind_some, hrest]

theorem takeWhile_levelDesc (level : LogLevel) :
    (levelDesc level ++ [0]).takeWhile (· ≠ 0) = levelDesc level := by
  cases level <;> rfl

theorem cut_logimpl (memory : Vector Byte (size + 1)) (h : Header) (level : LogLevel) :
    ∃ a, logimpl memory h level = some a ∧ Cut a (headerText h level) := by
  have hstart : Cut ⟨memory.toList, 0⟩ [] :=
    ⟨.clear, ⟨by simp, rfl, rfl⟩, rfl⟩
  obtain ⟨a₁, htime, hcut₁⟩ := hstart.append h.time
  obtain ⟨a₂, hmil, hcut₂⟩ := hcut₁.append h.mil
  obtain ⟨a₃, hlevel, hcut₃⟩ := hcut₂.insert (.cstring (levelDesc level ++ [0]))
  obtain ⟨a₄, hthrid, hcut₄⟩ := hcut₃.insert (.string h.thrid)
  refine ⟨a₄, ?_, ?_⟩
  · rw [logimpl, htime, Option.bind_eq_bind, Option.bind_some, hmil, Option.bind_some, hlevel,
      Option.bind_some, hthrid]
  · have hdesc : keep (h.time ++ h.mil) (.cstring (levelDesc level ++ [0])) =
        h.time ++ h.mil ++ levelDesc level := by
      rw [keep, if_neg (by simp [Value.isNumber]), Value.text, takeWhile_levelDesc]
    have htext : keep (h.time ++ h.mil ++ levelDesc level) (.string h.thrid) =
        headerText h level := by
      rw [keep, if_neg (by simp [Value.isNumber])]
      rfl
    rw [List.nil_append, hdesc, htext] at hcut₄
    exact hcut₄

/-- The stream before the destructor. -/
def stream (memory : Vector Byte (size + 1)) (h : Header) (level : LogLevel) (vs : List Value) :
    Option FixedArray :=
  (logimpl memory h level).bind fun a ↦ insertAll a vs

theorem cut_stream (memory : Vector Byte (size + 1)) (h : Header) (level : LogLevel)
    (vs : List Value) : ∃ a, stream memory h level vs = some a ∧ Cut a (keptText h level vs) := by
  obtain ⟨a, hlogimpl, hcut⟩ := cut_logimpl memory h level
  obtain ⟨a', hinsert, hcut'⟩ := hcut.insertAll vs
  exact ⟨a', by rw [stream, hlogimpl, Option.bind_some, hinsert], hcut'⟩

theorem Cut.endLine {text : List Byte} (h : Cut a text) :
    ∃ a', endLine a = some a' ∧ Cut a' (text ++ [10]) :=
  h.insert (.array [10, 0])

/-- A record is a line: a part of the text from its start, and the end of the line. -/
def IsLine (text record : List Byte) : Prop := ∃ part, part <+: text ∧ record = part ++ [10]

/-- The end of the line fits into the buffer, or a byte of the text that is one stands where the
buffer ends; and no number was left out before something that is kept and differs from it. -/
def LineFits (kept text : List Byte) : Prop :=
  (kept.length < size ∧ kept <+: text) ∨
    (size ≤ kept.length ∧ kept.take (size - 1) <+: text ∧ kept[size - 1]? = some 10)

theorem isLine_take_iff (kept text : List Byte) :
    IsLine text ((kept ++ [10]).take size) ↔ LineFits kept text := by
  rcases lt_or_ge kept.length size with hlt | hge
  · have hrecord : (kept ++ [10]).take size = kept ++ [10] := by
      apply List.take_of_length_le
      rw [List.length_append, List.length_singleton]
      omega
    rw [hrecord]
    constructor
    · rintro ⟨part, hpart, heq⟩
      rw [List.append_cancel_right heq]
      exact Or.inl ⟨by rw [← List.append_cancel_right heq]; exact hlt, hpart⟩
    · rintro (⟨-, hprefix⟩ | ⟨hfull, -⟩)
      · exact ⟨kept, hprefix, rfl⟩
      · omega
  · obtain ⟨last, hlast⟩ : ∃ last, kept[size - 1]? = some last :=
      ⟨_, List.getElem?_eq_getElem (Nat.sub_one_lt_of_le (by decide) hge)⟩
    have hrecord : (kept ++ [10]).take size = kept.take (size - 1) ++ [last] := by
      rw [List.take_append_of_le_length hge]
      change kept.take (size - 1 + 1) = _
      rw [List.take_add_one, hlast]
      rfl
    rw [hrecord]
    constructor
    · rintro ⟨part, hpart, heq⟩
      obtain ⟨hpart', hnewline⟩ := List.append_inj' heq rfl
      rw [← hpart'] at hpart
      exact Or.inr ⟨hge, hpart, by rw [hlast, (List.cons.inj hnewline).1]⟩
    · rintro (⟨hshort, -⟩ | ⟨-, hprefix, hnewline⟩)
      · omega
      · rw [hlast] at hnewline
        exact ⟨_, hprefix, by rw [Option.some.inj hnewline]⟩

/-- The position stays in the buffer and every write in its array, before and in the destructor,
and the record is a line exactly if it fits. -/
theorem record_isLine_iff (memory : Vector Byte (size + 1)) (h : Header) (level : LogLevel)
    (vs : List Value) :
    ∃ a a', stream memory h level vs = some a ∧ a.pos ≤ 4096 ∧ endLine a = some a' ∧
      a'.pos ≤ 4096 ∧ (IsLine (statementText h level vs) a'.contents ↔
        LineFits (keptText h level vs) (statementText h level vs)) := by
  obtain ⟨a, hstream, hcut⟩ := cut_stream memory h level vs
  obtain ⟨a', hend, hcut'⟩ := hcut.endLine
  refine ⟨a, a', hstream, hcut.pos_le, hend, hcut'.pos_le, ?_⟩
  rw [hcut'.contents_eq]
  exact isLine_take_iff _ _

/-- The record is one that `logger::log` stores as a whole. -/
theorem canMove_log {n : ℕ} [NeZero n] (s : Logger n) {text : List Byte} (h : Cut a text) :
    s.CanMove (.log a.contents) := by
  change a.contents.length ≤ size
  rw [h.contents_eq, List.length_take]
  exact min_le_left _ _

def sampleHeader : Header := ⟨List.replicate 17 48, List.replicate 5 48, [49, 32], rfl, rfl⟩

/-- A statement with a string that fills the buffer. -/
theorem record_without_newline :
    ¬ ∃ a a', stream (Vector.replicate (size + 1) 0) sampleHeader .info
        [.string (List.replicate 4096 97)] = some a ∧ endLine a = some a' ∧
      IsLine (statementText sampleHeader .info [.string (List.replicate 4096 97)])
        a'.contents := by
  rintro ⟨a, a', hstream, hend, part, -, hrecord⟩
  obtain ⟨b, hb, hcut⟩ := cut_stream (Vector.replicate (size + 1) 0) sampleHeader .info
    [.string (List.replicate 4096 97)]
  cases hstream.symm.trans hb
  obtain ⟨b', hb', hcut'⟩ := hcut.endLine
  cases hend.symm.trans hb'
  have hlast : ((keptText sampleHeader .info [.string (List.replicate 4096 97)] ++ [10]).take
      size).getLast? = some 97 := by
    decide +kernel
  rw [← hcut'.contents_eq, hrecord] at hlast
  simp at hlast

end Logstream

end Slience
