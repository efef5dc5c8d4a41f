import Mathlib.Data.Nat.Digits.Lemmas
import Slience.Netio.HttpMsg

/-!
# Building an HTTP response

`HttpSvrSendMsg` writes the lines of a response to one buffer as its setters are
called, and remembers in `_flag` which of them were.  A setter called out of order fails
an assertion; with assertions off it returns `false` and does nothing.

A C string is the list of its bytes before the final NUL.  `SetSever` and `SetDate` call
`Buffer::Write` with a pointer and no length, so the overload for a value writes the
eight bytes of the pointer; where the literals lie is a parameter.
-/

namespace Slience

open Http

namespace Http

/-- `strlen` -/
def strlen (s : List Byte) : ℕ := (s.takeWhile (· ≠ 0)).length

/-- The decimal digits of a number. -/
def decimal (n : ℕ) : List Byte :=
  if n = 0 then [48] else (Nat.digits 10 n).reverse.map fun d ↦ UInt8.ofNat (48 + d)

/-- `snprintf(tmp, 20, "%d", z)` -/
def formatInt (z : ℤ) : List Byte :=
  if z < 0 then 45 :: decimal (-z).toNat else decimal z.toNat

/-- `"Location: "` -/
def locationName : List Byte := [76, 111, 99, 97, 116, 105, 111, 110, 58, 32]

/-- `"Content-Encoding: "` -/
def encodingName : List Byte :=
  [67, 111, 110, 116, 101, 110, 116, 45, 69, 110, 99, 111, 100, 105, 110, 103, 58, 32]

/-- `"Content-Type: "` -/
def typeName : List Byte := [67, 111, 110, 116, 101, 110, 116, 45, 84, 121, 112, 101, 58, 32]

/-- `"Content-Language: "` -/
def languageName : List Byte :=
  [67, 111, 110, 116, 101, 110, 116, 45, 76, 97, 110, 103, 117, 97, 103, 101, 58, 32]

/-- `"HTTP/1.1"` -/
def defaultVersion : List Byte := [72, 84, 84, 80, 47, 49, 46, 49]

/-- `"200"` -/
def defaultStatus : List Byte := [50, 48, 48]

/-- `"OK"` -/
def defaultPhrase : List Byte := [79, 75]

/-- `"text/html;charset=utf-8"` -/
def defaultType : List Byte :=
  [116, 101, 120, 116, 47, 104, 116, 109, 108, 59, 99, 104, 97, 114, 115, 101, 116, 61, 117, 116,
    102, 45, 56]

end Http

/-- The bits of `_flag`. -/
inductive SendFlag
  | ver
  | statusCode
  | statusPhrase
  | location
  | contCoding
  | contType
  | contLanguage
  | date
  | server
  | body
  deriving DecidableEq

/-- The addresses of the string literals in `SetSever` and `SetDate`. -/
structure Literals where
  server : UInt64
  serverCrlf : UInt64
  date : UInt64
  dateCrlf : UInt64

structure HttpSvrSendMsg where
  buffer : Buffer
  flag : Finset SendFlag

namespace HttpSvrSendMsg

/-- `HttpSvrSendMsg()` -/
def new : HttpSvrSendMsg := ⟨.empty, ∅⟩

/-- `_pbuffer->Write(s, len)` -/
def write (m : HttpSvrSendMsg) (s : List Byte) (len : ℕ) : Option HttpSvrSendMsg := do
  let buffer ← m.buffer.write s (UInt32.ofNat len)
  return { m with buffer := buffer }

def setFlag (m : HttpSvrSendMsg) (f : SendFlag) : HttpSvrSendMsg :=
  { m with flag := insert f m.flag }

/-- `SetHttpVersion` -/
def setHttpVersion (m : HttpSvrSendMsg) (ver : List Byte) : Option (Bool × HttpSvrSendMsg) :=
  if .ver ∉ m.flag then do
    let m ← m.write ver (strlen ver)
    let m ← m.write [sp] 1
    return (true, m.setFlag .ver)
  else some (false, m)

/-- `SetStatusCode` -/
def setStatusCode (m : HttpSvrSendMsg) (status : List Byte) : Option (Bool × HttpSvrSendMsg) :=
  if .statusCode ∉ m.flag ∧ .ver ∈ m.flag then do
    let m ← m.write status (strlen status)
    let m ← m.write [sp] 1
    return (true, m.setFlag .statusCode)
  else some (false, m)

/-- `SetStatusPhrase` -/
def setStatusPhrase (m : HttpSvrSendMsg) (phrase : List Byte) : Option (Bool × HttpSvrSendMsg) :=
  if .statusPhrase ∉ m.flag ∧ .ver ∈ m.flag ∧ .statusCode ∈ m.flag then do
    let m ← m.write phrase (strlen phrase)
    let m ← m.write crlf 2
    return (true, m.setFlag .statusPhrase)
  else some (false, m)

/-- The setters of the header lines, for their flag and the name they write. -/
def setField (f : SendFlag) (name : List Byte) (m : HttpSvrSendMsg) (value : List Byte) :
    Option (Bool × HttpSvrSendMsg) :=
  if f ∉ m.flag ∧ .ver ∈ m.flag ∧ .statusCode ∈ m.flag ∧ .statusPhrase ∈ m.flag then do
    let m ← m.write name name.length
    let m ← m.write value (strlen value)
    let m ← m.write crlf 2
    return (true, m.setFlag f)
  else some (false, m)

/-- `SetLocation` -/
def setLocation := setField .location locationName

/-- `SetContentEncode` -/
def setContentEncode := setField .contCoding encodingName

/-- `SetContentType` -/
def setContentType := setField .contType typeName

/-- `SetContentLanguage` -/
def setContentLanguage := setField .contLanguage languageName

/-- The bytes of a pointer. -/
def pointerBytes (p : UInt64) : List Byte :=
  (List.range 8).map fun i ↦ (p >>> UInt64.ofNat (8 * i)).toUInt8

/-- `_pbuffer->Write((void*)"...")` with the literal at `p`. -/
def writePointer (m : HttpSvrSendMsg) (p : UInt64) : Option HttpSvrSendMsg :=
  m.write (pointerBytes p) 8

/-- `SetSever` and `SetDate`, for their flag and their literals. -/
def setPointerField (f : SendFlag) (name ending : UInt64) (m : HttpSvrSendMsg)
    (value : List Byte) : Option (Bool × HttpSvrSendMsg) :=
  if f ∉ m.flag ∧ .ver ∈ m.flag ∧ .statusCode ∈ m.flag ∧ .statusPhrase ∈ m.flag then do
    let m ← m.writePointer name
    let m ← m.write value (strlen value)
    let m ← m.writePointer ending
    return (true, m.setFlag f)
  else some (false, m)

/-- `SetSever` -/
def setSever (literals : Literals) := setPointerField .server literals.server literals.serverCrlf

/-- `SetDate` -/
def setDate (literals : Literals) := setPointerField .date literals.date literals.dateCrlf

/-- A setter that `SetBody` calls when its flag is not set; its result is not looked at. -/
def orDefault (f : SendFlag) (set : HttpSvrSendMsg → List Byte → Option (Bool × HttpSvrSendMsg))
    (value : List Byte) (m : HttpSvrSendMsg) : Option HttpSvrSendMsg :=
  if f ∉ m.flag then do
    let (_, m) ← set m value
    return m
  else some m

/-- `SetBody` -/
def setBody (m : HttpSvrSendMsg) (body : List Byte) (len : ℤ) : Option (Bool × HttpSvrSendMsg) :=
  if .body ∉ m.flag then do
    let m ← orDefault .ver setHttpVersion defaultVersion m
    let m ← orDefault .statusCode setStatusCode defaultStatus m
    let m ← orDefault .statusPhrase setStatusPhrase defaultPhrase m
    let m ← orDefault .contType setContentType defaultType m
    let m ← m.write constr 16
    let m ← m.write (formatInt len) (formatInt len).length
    let m ← m.write (crlf ++ crlf) 4
    let buffer ← m.buffer.write body (UInt32.ofInt len)
    return (true, { m with buffer := buffer }.setFlag .body)
  else some (false, m)

end HttpSvrSendMsg

end Slience
