import Slience.Redis.Format

/-!
# The reader of replies

`redisReader` of the bundled hiredis (`read.cpp`) with the functions of `hiredis.cpp` that create
the reply objects.  Bytes are fed to its buffer; a call of `redisReaderGetReply` works through
them as far as they go and leaves a stack of unfinished arrays for the next call.

The length of an `sds` is an `int`: there is no result where the buffer would grow to `2 ^ 31`
bytes.  Nor is there one for a number that leaves the range of `long long`, for an `assert` that
fails, and for an element that is written outside of its array.  Memory is always granted.
-/

namespace Slience

namespace Redis

/-- The type of the item that a task reads. -/
inductive ItemType where
  | string
  | array
  | integer
  | status
  | error
  deriving DecidableEq

/-- `redisReply`; an element that was not created yet is missing. -/
inductive ReplyObject where
  | string (type : ItemType) (str : Text)
  | integer (integer : ℤ)
  | nil
  | array (elements : ℕ) (element : List (Option ReplyObject))

/-- `redisReadTask`, without a type and with `-1` elements until these were read.  Its `obj` is the
object that the `idx` of the tasks above the root, down to its own, lead to. -/
structure ReadTask where
  type : Option ItemType
  elements : ℤ
  idx : ℤ
  deriving DecidableEq

/-- `err` and `errstr`. -/
structure RedisError where
  err : ℕ
  errstr : Text
  deriving DecidableEq

def redisErrProtocol : ℕ := 4

/-- `redisReader`.  The task at `ridx` comes first in the stack, which is empty when it is `-1`. -/
structure RedisReader where
  err : Option RedisError
  buf : Text
  pos : ℕ
  rstack : List ReadTask
  reply : Option ReplyObject

namespace RedisReader

/-- `redisReaderCreate` -/
def create : RedisReader := ⟨none, [], 0, [], none⟩

/-- The bytes from `pos` on. -/
def unread (r : RedisReader) : Text := r.buf.drop r.pos

/-- `__redisReaderSetError` -/
def setError (_r : RedisReader) (type : ℕ) (str : Text) : RedisReader :=
  ⟨some ⟨type, str.take 127⟩, [], 0, [], none⟩

end RedisReader

def hexDigit (n : ℕ) : Byte := UInt8.ofNat (if n < 10 then 48 + n else 87 + n)

/-- `chrtos` in the C locale. -/
def chrtos (byte : Byte) : Text :=
  if byte = 92 ∨ byte = 34 then [34, 92, byte, 34]
  else if byte = 10 then lit "\"\\n\""
  else if byte = 13 then lit "\"\\r\""
  else if byte = 9 then lit "\"\\t\""
  else if byte = 7 then lit "\"\\a\""
  else if byte = 8 then lit "\"\\b\""
  else if 32 ≤ byte ∧ byte ≤ 126 then [34, byte, 34]
  else lit "\"\\x" ++ [hexDigit (byte.toNat / 16), hexDigit (byte.toNat % 16), 34]

def protocolByteError (byte : Byte) : Text :=
  lit "Protocol error, got " ++ chrtos byte ++ lit " as reply type byte"

theorem length_chrtos (byte : Byte) : (chrtos byte).length ≤ 6 := by
  unfold chrtos
  split_ifs <;> simp [lit]

theorem length_protocolByteError (byte : Byte) : (protocolByteError byte).length ≤ 127 := by
  have h := length_chrtos byte
  simp only [protocolByteError, List.length_append, lit, List.length_map]
  have hfront : "Protocol error, got ".toList.length = 20 := by decide
  have hback : " as reply type byte".toList.length = 19 := by decide
  omega

def nestingError : Text := lit "No support for nested multi bulk replies with depth > 7"

/-- The loops of `seekNewline` over what is behind `pos`: `_len - pos` is `left`, and the inner loop
has `skipped` a byte. -/
def seekNewlineLoop : ℕ → Bool → Text → ℕ → Option ℕ
  | _, _, [], _ => none
  | 0, skipped, c :: s, pos =>
      if skipped ∧ c = 13 ∧ s.head? = some 10 then some pos else none
  | left + 1, _, c :: s, pos =>
      if c ≠ 13 then seekNewlineLoop left true s (pos + 1)
      else if s.head? = some 10 then some pos
      else seekNewlineLoop left false s (pos + 1)

/-- `seekNewline`, by the distance to the newline. -/
def seekNewline (s : Text) : Option ℕ := seekNewlineLoop (s.length - 1) false s 0

/-- The loop of `readLongLong`: nothing for a byte that is no digit. -/
def longLongLoop : ℕ → Text → Option (Option ℕ)
  | _, [] => none
  | v, c :: s =>
      if c = 13 then some (some v)
      else if isDigit c then
        let v := v * 10 + (c.toNat - 48)
        if v < 2 ^ 63 then longLongLoop v s else none
      else some none

def readLongLong (s : Text) : Option ℤ :=
  match s with
  | 45 :: s => (longLongLoop 0 s).map fun v ↦ v.elim (-1) fun v ↦ -v
  | 43 :: s => (longLongLoop 0 s).map fun v ↦ v.elim (-1) fun v ↦ v
  | s => (longLongLoop 0 s).map fun v ↦ v.elim (-1) fun v ↦ v

/-- The object of `createArrayObject`; the count is converted to an `int`, and back to the
`size_t` of `elements`. -/
def createArray (elements : ℤ) : ReplyObject :=
  let n := elements.bmod (2 ^ 32)
  .array (n % 2 ^ 64).toNat (List.replicate n.toNat none)

/-- `obj` at the place that the indices lead to. -/
def ReplyObject.write (obj : ReplyObject) : List ℕ → Option ReplyObject → Option ReplyObject
  | [], _ => some obj
  | i :: path, some (.array elements element) =>
      match element[i]? with
      | some slot =>
          (write obj path slot).map fun child ↦ .array elements (element.set i (some child))
      | none => none
  | _ :: _, _ => none

/-- `moveToNextTask` -/
def moveToNextTask : List ReadTask → Option (List ReadTask)
  | [] => some []
  | [_] => some []
  | cur :: prv :: rstack =>
      if prv.type ≠ some .array then none
      else if cur.idx = prv.elements - 1 then moveToNextTask (prv :: rstack)
      else if cur.idx < prv.elements then some (⟨none, -1, cur.idx + 1⟩ :: prv :: rstack)
      else none

namespace RedisReader

/-- The indices of the tasks above the root. -/
def path (r : RedisReader) : List ℕ := (r.rstack.dropLast.map fun task ↦ task.idx.toNat).reverse

/-- A function creates `obj` for the current task: it becomes the element `idx` of the parent, or
the reply. -/
def created (r : RedisReader) (obj : ReplyObject) : Option RedisReader :=
  (obj.write r.path r.reply).map fun reply ↦ { r with reply := some reply }

def moveToNextTask (r : RedisReader) : Option RedisReader :=
  (Redis.moveToNextTask r.rstack).map fun rstack ↦ { r with rstack }

/-- `obj` is the value of the current task, whose item ends at `pos`. -/
def finish (r : RedisReader) (obj : ReplyObject) (pos : ℕ) : Option (Bool × RedisReader) := do
  let r ← r.created obj
  let r ← moveToNextTask { r with pos }
  some (true, r)

/-- The object of a line of `len` bytes at `p`. -/
def lineObject (type : ItemType) (p : Text) (len : ℕ) : Option ReplyObject :=
  if type = .integer then (readLongLong p).map .integer else some (.string type (p.take len))

/-- `processLineItem`; `true` is `REDIS_OK`. -/
def processLineItem (r : RedisReader) (type : ItemType) : Option (Bool × RedisReader) :=
  match seekNewline r.unread with
  | none => some (false, r)
  | some len => do
      let obj ← lineObject type r.unread len
      r.finish obj (r.pos + (len + 2))

/-- `processBulkItem`; the two bytes behind the string are not looked at. -/
def processBulkItem (r : RedisReader) : Option (Bool × RedisReader) :=
  match seekNewline r.unread with
  | none => some (false, r)
  | some s => do
      let len ← readLongLong r.unread
      if len < 0 then r.finish .nil (r.pos + (s + 2))
      else if 2 ^ 63 ≤ len + 2 then none
      else
        let bytelen := s + 2 + (len.toNat + 2)
        if r.pos + bytelen ≤ r.buf.length then
          r.finish (.string .string ((r.unread.drop (s + 2)).take len.toNat)) (r.pos + bytelen)
        else some (false, r)

/-- `processMultiBulkItem` -/
def processMultiBulkItem (r : RedisReader) : Option (Bool × RedisReader) :=
  if r.rstack.length = 9 then some (false, r.setError redisErrProtocol nestingError)
  else match seekNewline r.unread with
    | none => some (false, r)
    | some len => do
        let elements ← readLongLong r.unread
        let pos := r.pos + (len + 2)
        if elements = -1 then r.finish .nil pos
        else if elements ≤ 0 then r.finish (createArray elements) pos
        else
          let r ← r.created (createArray elements)
          match r.rstack with
          | [] => none
          | cur :: rstack =>
              let cur := { cur with elements := elements.bmod (2 ^ 32) }
              some (true, { r with pos, rstack := ⟨none, -1, 0⟩ :: cur :: rstack })

/-- The reply type that a byte stands for. -/
def itemType (byte : Byte) : Option ItemType :=
  if byte = 45 then some .error
  else if byte = 43 then some .status
  else if byte = 58 then some .integer
  else if byte = 36 then some .string
  else if byte = 42 then some .array
  else none

/-- The second half of `processItem`. -/
def processTyped (r : RedisReader) : ItemType → Option (Bool × RedisReader)
  | .string => r.processBulkItem
  | .array => r.processMultiBulkItem
  | type => r.processLineItem type

def processItem (r : RedisReader) : Option (Bool × RedisReader) :=
  match r.rstack with
  | [] => none
  | cur :: rstack =>
      match cur.type with
      | some type => r.processTyped type
      | none =>
          match r.unread with
          | [] => some (false, r)
          | byte :: _ =>
              match itemType byte with
              | none => some (false, r.setError redisErrProtocol (protocolByteError byte))
              | some type =>
                  let cur := { cur with type := some type }
                  processTyped { r with pos := r.pos + 1, rstack := cur :: rstack } type

/-- The loop of `redisReaderGetReply`, at most so often. -/
def processItems : ℕ → RedisReader → Option RedisReader
  | 0, _ => none
  | n + 1, r =>
      if r.rstack = [] then some r
      else do
        let (ok, r) ← r.processItem
        if ok then processItems n r else some r

/-- `redisReaderFeed`; `true` is `REDIS_OK`. -/
def feed (r : RedisReader) (buf : Text) : Option (Bool × RedisReader) :=
  if r.err.isSome then some (false, r)
  else if r.buf.length + buf.length < 2 ^ 31 then some (true, { r with buf := r.buf ++ buf })
  else none

/-- The first item is set when the stack is empty. -/
def setFirst (r : RedisReader) : RedisReader :=
  if r.rstack = [] then { r with rstack := [⟨none, -1, -1⟩] } else r

/-- The part of the buffer that was consumed is discarded when it has 1k. -/
def discard (r : RedisReader) : RedisReader :=
  if 1024 ≤ r.pos then { r with buf := r.buf.drop r.pos, pos := 0 } else r

/-- The reply is emitted when there is one. -/
def emit (r : RedisReader) : Option ReplyObject × RedisReader :=
  if r.rstack = [] then (r.reply, { r with reply := none }) else (none, r)

/-- What `redisReaderGetReply` does behind the loop. -/
def answer (r : RedisReader) : Except RedisError (Option ReplyObject) × RedisReader :=
  match r.err with
  | some e => (.error e, r)
  | none => (.ok r.discard.emit.1, r.discard.emit.2)

def getReply (r : RedisReader) : Option (Except RedisError (Option ReplyObject) × RedisReader) :=
  match r.err with
  | some e => some (.error e, r)
  | none =>
      if r.buf = [] then some (.ok none, r)
      else (processItems (r.unread.length + 1) r.setFirst).map answer

/-! ## The buffer does not grow while replies are read -/

variable {r r' : RedisReader} {ok : Bool}

theorem buf_finish {obj : ReplyObject} {pos : ℕ} (h : r.finish obj pos = some (ok, r')) :
    r'.buf = r.buf := by
  obtain ⟨r₁, h₁, h⟩ := Option.bind_eq_some_iff.mp h
  obtain ⟨r₂, h₂, h⟩ := Option.bind_eq_some_iff.mp h
  cases h
  obtain ⟨reply, -, rfl⟩ := Option.map_eq_some_iff.mp h₁
  obtain ⟨rstack, -, rfl⟩ := Option.map_eq_some_iff.mp h₂
  rfl

theorem length_buf_processTyped {type : ItemType} (h : r.processTyped type = some (ok, r')) :
    r'.buf.length ≤ r.buf.length := by
  have hline (type : ItemType) (h : r.processLineItem type = some (ok, r')) :
      r'.buf.length ≤ r.buf.length := by
    rw [processLineItem] at h
    split at h
    · cases h
      exact le_rfl
    · obtain ⟨obj, -, h⟩ := Option.bind_eq_some_iff.mp h
      rw [buf_finish h]
  cases type with
  | string =>
      rw [processTyped, processBulkItem] at h
      split at h
      · cases h
        exact le_rfl
      · obtain ⟨len, -, h⟩ := Option.bind_eq_some_iff.mp h
        split at h
        · rw [buf_finish h]
        · split at h
          · cases h
          · simp only at h
            split at h
            · rw [buf_finish h]
            · cases h
              exact le_rfl
  | array =>
      rw [processTyped, processMultiBulkItem] at h
      split at h
      · cases h
        exact Nat.zero_le _
      · split at h
        · cases h
          exact le_rfl
        · obtain ⟨elements, -, h⟩ := Option.bind_eq_some_iff.mp h
          split at h
          · rw [buf_finish h]
          · split at h
            · rw [buf_finish h]
            · obtain ⟨r₁, h₁, h⟩ := Option.bind_eq_some_iff.mp h
              obtain ⟨reply, -, rfl⟩ := Option.map_eq_some_iff.mp h₁
              split at h
              · cases h
              · cases h
                exact le_rfl
  | integer => exact hline .integer h
  | status => exact hline .status h
  | error => exact hline .error h

theorem length_buf_processItem (h : r.processItem = some (ok, r')) :
    r'.buf.length ≤ r.buf.length := by
  rw [processItem] at h
  split at h
  · cases h
  · split at h
    · exact length_buf_processTyped h
    · split at h
      · cases h
        exact le_rfl
      · split at h
        · cases h
          exact Nat.zero_le _
        · have hle := length_buf_processTyped h
          exact hle

theorem length_buf_processItems {n : ℕ} (h : processItems n r = some r') :
    r'.buf.length ≤ r.buf.length := by
  induction n generalizing r with
  | zero => cases h
  | succ n ih =>
      rw [processItems] at h
      split at h
      · cases h
        exact le_rfl
      · obtain ⟨⟨ok, r₁⟩, h₁, h⟩ := Option.bind_eq_some_iff.mp h
        have hle := length_buf_processItem h₁
        simp only at h
        split at h
        · exact (ih h).trans hle
        · cases h
          exact hle

theorem length_buf_answer (r : RedisReader) : r.answer.2.buf.length ≤ r.buf.length := by
  have hdiscard : r.discard.buf.length ≤ r.buf.length := by
    rw [discard]
    split
    · rw [List.length_drop]
      exact Nat.sub_le _ _
    · exact le_rfl
  rw [answer]
  split
  · exact le_rfl
  · rw [emit]
    split <;> exact hdiscard

theorem length_buf_getReply {answer : Except RedisError (Option ReplyObject)}
    (h : r.getReply = some (answer, r')) : r'.buf.length ≤ r.buf.length := by
  rw [getReply] at h
  split at h
  · cases h
    exact le_rfl
  · split at h
    · cases h
      exact le_rfl
    · obtain ⟨r₁, h₁, h⟩ := Option.map_eq_some_iff.mp h
      have hle := length_buf_processItems h₁
      have hanswer := length_buf_answer r₁
      rw [h] at hanswer
      have hfirst : r.setFirst.buf = r.buf := by
        rw [setFirst]
        split <;> rfl
      rw [hfirst] at hle
      exact hanswer.trans hle

end RedisReader

end Redis

end Slience
