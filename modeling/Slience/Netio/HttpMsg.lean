import Slience.Base.Buffer

/-!
# Receiving an HTTP message

`HttpSvrRecvMsg` and `HttpCliRecvMsg` parse a message while its bytes arrive.  All
bytes of the message go to one buffer, and what is found in it is kept as pairs of
`int` offsets: three tokens of the first line, the header lines, the body.  Between
two calls the place is kept in `_flag`, and in `_assistflag` when the last byte was the
CR of a possible CRLF.

The two classes differ only in the names of the tokens and of the flags that go with
them; `StartLine` lists these flags.  The bytes given to `Parse` are a list, and a
pointer advanced by `copy_len` drops bytes of it.  An access outside a block and an
`int` that overflows have no result.
-/

namespace Slience

/-- The enumeration `E_PARSE_METHOD .. E_PARSE_OVER`. -/
inductive ParseFlag
  | method
  | url
  | ver
  | statusCode
  | statusPhrase
  | head
  | body
  | over
  deriving DecidableEq, Repr

/-- `HttpBaseMsg::strpos`; `fin` is the field `end`. -/
structure Strpos where
  beg : ℤ
  fin : ℤ
  deriving DecidableEq, Repr

/-- The flags under which the tokens of the first line are read. -/
structure StartLine where
  first : ParseFlag
  second : ParseFlag
  third : ParseFlag
  nodup : [first, second, third, .head, .body, .over].Nodup := by decide

/-- `_method`, `_url`, `_ver` of `HttpSvrRecvMsg`. -/
def StartLine.svrRecv : StartLine where
  first := .method
  second := .url
  third := .ver

/-- `_version`, `_statuscode`, `_statusphrase` of `HttpCliRecvMsg`. -/
def StartLine.cliRecv : StartLine where
  first := .ver
  second := .statusCode
  third := .statusPhrase

/-- `HttpBaseMsg` with the three tokens that both classes add to it. -/
structure HttpRecvMsg where
  buffer : Buffer
  first : Strpos
  second : Strpos
  third : Strpos
  header : Strpos
  header2 : Strpos
  body : Strpos
  flag : ParseFlag
  assistflag : Bool
  headerIter : ℕ
  bodysize : ℤ
  headerVec : List Strpos
  deriving DecidableEq

namespace Http

def sp : Byte := 32
def cr : Byte := 13
def lf : Byte := 10
def crlf : List Byte := [cr, lf]

theorem length_crlf : crlf.length = 2 := rfl

/-- `_Parse1`: how many bytes to copy, and whether `chr` is among them. -/
def parse1 (buf : List Byte) (chr : Byte) : ℕ × Bool :=
  let pos := buf.idxOf chr
  (if pos ≠ buf.length then pos + 1 else buf.length, decide (pos < buf.length))

/-- Where the loop of `_Parse2` stops. -/
def pairPos (chr1 chr2 : Byte) : List Byte → ℕ
  | a :: b :: l => if a = chr1 ∧ b = chr2 then 0 else pairPos chr1 chr2 (b :: l) + 1
  | _ => 0

/-- `_Parse2` -/
def parse2 (buf : List Byte) (chr1 chr2 : Byte) : ℕ × Bool :=
  let pos := pairPos chr1 chr2 buf
  (if pos + 1 ≠ buf.length then pos + 2 else buf.length, decide (pos + 1 < buf.length))

/-- What a search for the end of a line leaves: `_assistflag`, `copy_len` and `hit`. -/
structure Seek where
  assistflag : Bool
  copyLen : ℕ
  hit : Bool
  deriving DecidableEq

/-- The search for a CRLF in `_ParseHead`, `_ParseVer` and `_ParseStatusPhrase`. -/
def seekCrlf (assistflag : Bool) (buf : List Byte) : Seek :=
  let found := parse2 buf cr lf
  if assistflag then
    if buf.head? ≠ some lf then ⟨false, found.1, found.2⟩
    else ⟨true, 1, true⟩
  else ⟨false, found.1, found.2⟩

theorem drop_seekCrlf_lt (assistflag : Bool) {buf : List Byte} (h : buf ≠ []) :
    (buf.drop (seekCrlf assistflag buf).copyLen).length < buf.length := by
  have hlen := List.length_pos_of_ne_nil h
  have hfound : 0 < (parse2 buf cr lf).1 := by
    simp only [parse2]
    split <;> omega
  have hpos : 0 < (seekCrlf assistflag buf).copyLen := by
    simp only [seekCrlf]
    split
    · split
      · exact hfound
      · exact Nat.one_pos
    · exact hfound
  rw [List.length_drop]
  omega

/-! ## `_CheckContentLen` -/

/-- `isspace` in the C locale. -/
def isSpace (b : Byte) : Bool := b = 32 || (9 ≤ b && b ≤ 13)

def isDigit (b : Byte) : Bool := 48 ≤ b && b ≤ 57

/-- The value of a row of digits. -/
def digitsVal (digits : List Byte) : ℕ :=
  digits.foldl (fun acc b ↦ acc * 10 + (b.toNat - 48)) 0

/-- `atoi`, undefined for numbers that are no `int`. -/
def atoi (s : List Byte) : Option ℤ :=
  match s.dropWhile isSpace with
  | 45 :: s => addInt 0 (-digitsVal (s.takeWhile isDigit))
  | 43 :: s => addInt 0 (digitsVal (s.takeWhile isDigit))
  | s => addInt 0 (digitsVal (s.takeWhile isDigit))

/-- `"Content-Length: "` -/
def constr : List Byte :=
  [67, 111, 110, 116, 101, 110, 116, 45, 76, 101, 110, 103, 116, 104, 58, 32]

/-- `while (*psrc != ' ') if (*(pbeg++) != *(psrc++)) break;`, with the memory from the
two pointers on. -/
def scanName : List Byte → List Byte → Option (List Byte × List Byte)
  | [], _ => none
  | c :: psrc, pbeg =>
      if c = sp then some (c :: psrc, pbeg)
      else match pbeg with
        | [] => none
        | b :: pbeg => if b ≠ c then some (psrc, pbeg) else scanName psrc pbeg

/-- The text behind `Content-Length:` and one more byte, up to a CR, or `none` inside
when the line that starts at `text` has another name.  The comparison is left with
`*psrc == ' '` also when only the colon differs. -/
def fieldValue (text : List Byte) : Option (Option (List Byte)) := do
  let (psrc, pbeg) ← scanName constr text
  if psrc.head? = some sp then
    if cr ∈ pbeg.tail then some (some (pbeg.tail.takeWhile (· ≠ cr))) else none
  else some none

/-- In an array of eleven zeros the value is written inside and a NUL stays among the
bytes. -/
def FitsScratch (value : List Byte) : Prop :=
  value.length ≤ 10 ∨ value.length = 11 ∧ 0 ∈ value

instance (value : List Byte) : Decidable (FitsScratch value) :=
  inferInstanceAs (Decidable (_ ∨ _ ∧ _))

/-- The value is copied to the array and read by `atoi`. -/
def readLen (value : List Byte) : Option ℤ :=
  if FitsScratch value then atoi value else none

end Http

namespace Buffer

/-- `(int)Size()` -/
def sizeInt (b : Buffer) : ℤ := b.pos.toInt32.toInt

/-- The memory from `Data() + i` on. -/
def dataFrom (b : Buffer) (i : ℤ) : Option (List Byte) :=
  if 0 ≤ (b.offset.toNat : ℤ) + i then
    some (b.data.drop ((b.offset.toNat : ℤ) + i).toNat)
  else none

/-- `*(Data() + i)` -/
def dataAt (b : Buffer) (i : ℤ) : Option Byte := do
  let text ← b.dataFrom i
  text.head?

/-- `std::string(Data() + beg, len)` -/
def dataSlice (b : Buffer) (beg len : ℤ) : Option (List Byte) := do
  let text ← b.dataFrom beg
  if 0 ≤ len ∧ len ≤ text.length then some (text.take len.toNat) else none

end Buffer

namespace HttpRecvMsg

open Http

/-- The fields as `Clear` leaves them, with the flag of the first token. -/
def blank (line : StartLine) (buffer : Buffer) : HttpRecvMsg where
  buffer := buffer
  first := ⟨0, 0⟩
  second := ⟨0, 0⟩
  third := ⟨0, 0⟩
  header := ⟨0, 0⟩
  header2 := ⟨0, 0⟩
  body := ⟨0, 0⟩
  flag := line.first
  assistflag := false
  headerIter := 0
  bodysize := -1
  headerVec := []

/-- A message as its constructor leaves it. -/
def new (line : StartLine) : HttpRecvMsg := blank line .empty

/-- `Clear` -/
def clear (line : StartLine) (m : HttpRecvMsg) : HttpRecvMsg := blank line m.buffer.clear

/-- `_buffer.Write(buffer, copy_len)` -/
def append (m : HttpRecvMsg) (buf : List Byte) (copyLen : ℕ) : Option HttpRecvMsg := do
  let buffer ← m.buffer.write buf (UInt32.ofNat copyLen)
  return { m with buffer := buffer }

/-- The end of `_ParseHead`, `_ParseVer` and `_ParseStatusPhrase` without a hit: a CR as
last byte is remembered. -/
def noteCr (m : HttpRecvMsg) : Option HttpRecvMsg :=
  if m.assistflag then some m
  else do
    let last ← m.buffer.dataAt (m.buffer.sizeInt - 1)
    return if last = cr then { m with assistflag := true } else m

/-- The loop of `_CheckContentLen` over the header lines. -/
def checkLines (buffer : Buffer) : List Strpos → Option ℤ
  | [] => some 0
  | iter :: rest => do
      let len ← addInt iter.fin (-iter.beg)
      if len < 18 then checkLines buffer rest
      else
        let text ← buffer.dataFrom iter.beg
        match ← fieldValue text with
        | none => checkLines buffer rest
        | some value => readLen value

/-- `_CheckContentLen` -/
def checkContentLen (m : HttpRecvMsg) : Option ℤ := checkLines m.buffer m.headerVec

/-- The first half of `_ParseBody`: the size of the body is looked up once. -/
def sizeBody (m : HttpRecvMsg) : Option HttpRecvMsg :=
  if m.bodysize = -1 then do
    let bodysize ← m.checkContentLen
    if bodysize = 0 then return { m with bodysize := bodysize, flag := .over }
    else return { m with bodysize := bodysize, body.beg := m.buffer.sizeInt }
  else some m

/-- The second half of `_ParseBody`.  `copy_len` is computed in 32-bit unsigned
arithmetic and compared as an `int`. -/
def copyBody (m : HttpRecvMsg) (buf : List Byte) : Option (HttpRecvMsg × ℕ) :=
  if m.bodysize ≠ 0 then do
    let left : UInt32 := UInt32.ofInt m.bodysize - (m.buffer.pos - UInt32.ofInt m.body.beg)
    let copyLen := if left.toInt32.toInt > buf.length then buf.length else left.toNat
    let flag := if left.toInt32.toInt > buf.length then m.flag else .over
    let m ← { m with flag := flag }.append buf copyLen
    if m.flag = .over then return ({ m with body.fin := m.buffer.sizeInt }, copyLen)
    else return (m, copyLen)
  else some (m, 0)

/-- `_ParseBody` -/
def parseBody (m : HttpRecvMsg) (buf : List Byte) : Option (HttpRecvMsg × ℕ) :=
  if buf = [] then some (m, 0)
  else do
    let m ← m.sizeBody
    m.copyBody buf

/-- The lines of `_ParseHead` that record a header line, whose CRLF was just copied. -/
def endLine (m : HttpRecvMsg) : HttpRecvMsg :=
  let pos := m.buffer.sizeInt
  { m with
    assistflag := false
    header := { m.header with fin := pos }
    header2 := { m.header2 with fin := pos }
    headerVec := m.headerVec ++ [{ m.header2 with fin := pos }] }

/-- `_ParseHead` -/
def parseHead (m : HttpRecvMsg) (buf : List Byte) : Option (HttpRecvMsg × ℕ) :=
  if buf = [] then some (m, 0)
  else do
    let seek := seekCrlf m.assistflag buf
    let m ← { m with assistflag := seek.assistflag }.append buf seek.copyLen
    if seek.hit then
      let m := m.endLine
      let blankEnd ← addInt m.header2.beg 2
      if blankEnd = m.header2.fin then
        let (m, n) ← { m with flag := .body }.parseBody (buf.drop seek.copyLen)
        return (m, seek.copyLen + n)
      else
        let (m, n) ← parseHead { m with flag := .head, header2 := ⟨m.header2.fin, 0⟩ }
          (buf.drop seek.copyLen)
        return (m, seek.copyLen + n)
    else
      let m ← m.noteCr
      return (m, seek.copyLen)
termination_by buf.length
decreasing_by exact drop_seekCrlf_lt _ (by assumption)

/-- `_ParseVer` of `HttpSvrRecvMsg`, `_ParseStatusPhrase` of `HttpCliRecvMsg`. -/
def parseThird (m : HttpRecvMsg) (buf : List Byte) : Option (HttpRecvMsg × ℕ) :=
  if buf = [] then some (m, 0)
  else do
    let seek := seekCrlf m.assistflag buf
    let m ← { m with assistflag := seek.assistflag }.append buf seek.copyLen
    if seek.hit then
      let pos := m.buffer.sizeInt
      let fin ← addInt pos (-2)
      let (m, n) ← parseHead
        { m with
          third := { m.third with fin := fin }
          flag := .head
          header := { m.header with beg := pos }
          header2 := { m.header2 with beg := pos }
          assistflag := false } (buf.drop seek.copyLen)
      return (m, seek.copyLen + n)
    else
      let m ← m.noteCr
      return (m, seek.copyLen)

/-- `_ParseUrl` of `HttpSvrRecvMsg`, `_ParseStatusCode` of `HttpCliRecvMsg`. -/
def parseSecond (line : StartLine) (m : HttpRecvMsg) (buf : List Byte) :
    Option (HttpRecvMsg × ℕ) :=
  if buf = [] then some (m, 0)
  else do
    let (copyLen, hit) := parse1 buf sp
    let m ← m.append buf copyLen
    if hit then
      let pos := m.buffer.sizeInt
      let fin ← addInt pos (-1)
      let (m, n) ← parseThird
        { m with
          second := { m.second with fin := fin }
          flag := line.third
          third := { m.third with beg := pos } } (buf.drop copyLen)
      return (m, copyLen + n)
    else return (m, copyLen)

/-- `_ParseMethod` of `HttpSvrRecvMsg`, `_ParseVer` of `HttpCliRecvMsg`. -/
def parseFirst (line : StartLine) (m : HttpRecvMsg) (buf : List Byte) :
    Option (HttpRecvMsg × ℕ) := do
  let (copyLen, hit) := parse1 buf sp
  let m ← m.append buf copyLen
  if hit then
    let pos := m.buffer.sizeInt
    let fin ← addInt pos (-1)
    let (m, n) ← parseSecond line
      { m with
        first := { m.first with fin := fin }
        flag := line.second
        second := { m.second with beg := pos } } (buf.drop copyLen)
    return (m, copyLen + n)
  else return (m, copyLen)

/-- `Parse`: the message afterwards and how many bytes it has taken. -/
def parse (line : StartLine) (m : HttpRecvMsg) (buf : List Byte) : Option (HttpRecvMsg × ℕ) :=
  if m.flag = .over then some (m, 0)
  else if m.flag = line.first then parseFirst line m buf
  else if m.flag = line.second then parseSecond line m buf
  else if m.flag = line.third then parseThird m buf
  else if m.flag = .head then parseHead m buf
  else if m.flag = .body then parseBody m buf
  else some (m, 0)

/-! ## What a user reads -/

/-- `GetMethod`, `GetUrl`, `GetVersion`, `GetStatusCode`, `GetStatusPhrase`, `GetHeader` and
`GetBody` for their offsets. -/
def getText (m : HttpRecvMsg) (p : Strpos) : Option (List Byte) :=
  if p.fin = 0 then some []
  else do
    let len ← addInt p.fin (-p.beg)
    m.buffer.dataSlice p.beg len

/-- `NextHeader` -/
def nextHeader (m : HttpRecvMsg) : Option (List Byte × HttpRecvMsg) :=
  if m.headerVec = [] ∨ m.headerIter = m.headerVec.length then some ([], m)
  else do
    let p ← m.headerVec[m.headerIter]?
    let size ← addInt p.fin (-p.beg)
    let len ← addInt size (-2)
    let text ← m.buffer.dataSlice p.beg len
    return (text, { m with headerIter := m.headerIter + 1 })

/-- `InitHeaderIter` -/
def initHeaderIter (m : HttpRecvMsg) : HttpRecvMsg := { m with headerIter := 0 }

end HttpRecvMsg

end Slience
