import Slience.Lib.Bytes

/-!
# The name of a server in the pool

A pooled connection is filed under a number made of `inet_addr` of the host, the port and
the database.  `inet_addr` reads addresses in dots: one to four numbers in the notation of
C, the last of which fills the bytes the others leave.  Every other host has `INADDR_NONE`.
-/

namespace Slience

namespace Redis

/-- The value of a digit in the bases of C. -/
def digitVal (c : Char) : Option ℕ :=
  if '0' ≤ c ∧ c ≤ '9' then some (c.toNat - '0'.toNat)
  else if 'a' ≤ c ∧ c ≤ 'f' then some (c.toNat - 'a'.toNat + 10)
  else if 'A' ≤ c ∧ c ≤ 'F' then some (c.toNat - 'A'.toNat + 10)
  else none

def isDigitOf (base : ℕ) (c : Char) : Bool :=
  match digitVal c with
  | some v => v < base
  | none => false

/-- The number in front of a text, and what follows it. -/
def readNumber (base : ℕ) (s : List Char) : ℕ × List Char :=
  ((s.takeWhile (isDigitOf base)).foldl (fun n c ↦ base * n + (digitVal c).getD 0) 0,
    s.dropWhile (isDigitOf base))

/-- `strtoul` with base 0, of a text that starts with a digit. -/
def strtoul (s : List Char) : ℕ × List Char :=
  match s with
  | '0' :: x :: cs =>
      if (x = 'x' ∨ x = 'X') ∧ cs.head?.any (isDigitOf 16) then readNumber 16 cs
      else readNumber 8 s
  | '0' :: [] => (0, [])
  | _ => readNumber 10 s

/-- The loop of `inet_aton`: the bytes in front of a dot, the last number and what follows
it.  `dots` more dots are allowed. -/
def inetParts (dots : ℕ) (s : List Char) : Option (List ℕ × ℕ × List Char) :=
  if s.head?.any (isDigitOf 10) then
    let (val, rest) := strtoul s
    if val < 2 ^ 32 then
      match rest, dots with
      | '.' :: _, 0 => none
      | '.' :: rest, dots + 1 =>
          if val < 2 ^ 8 then (inetParts dots rest).map fun p ↦ (val :: p.1, p.2) else none
      | rest, _ => some ([], val, rest)
    else none
  else none

def inaddrNone : UInt32 := 0xffffffff

def isBlank (c : Char) : Bool := c.toNat = 32 ∨ 9 ≤ c.toNat ∧ c.toNat ≤ 13

/-- `inet_addr(ip.c_str())`; the word is in network order on a little-endian machine. -/
def inetAddr (ip : String) : UInt32 :=
  match inetParts 3 (ip.toList.takeWhile fun c ↦ c.toNat ≠ 0) with
  | some (bytes, val, rest) =>
      if rest.head?.all isBlank ∧ val < 2 ^ (8 * (4 - bytes.length)) then
        let word := bytes.foldr (fun b w ↦ b + 2 ^ 8 * w) 0
        UInt32.ofNat word ||| bswap32 (UInt32.ofNat val)
      else inaddrNone
  | none => inaddrNone

/-- `_redisaddr_::three_only_id` -/
def threeOnlyId (ip : UInt32) (port db : UInt16) : UInt64 :=
  (ip.toUInt64 <<< 32) + (port.toUInt64 <<< 16) + db.toUInt64

theorem toNat_threeOnlyId (ip : UInt32) (port db : UInt16) :
    (threeOnlyId ip port db).toNat = 2 ^ 32 * ip.toNat + 2 ^ 16 * port.toNat + db.toNat := by
  have hip := ip.toNat_lt
  have hport := port.toNat_lt
  have hdb := db.toNat_lt
  have hshift₃₂ : UInt64.toNat 32 % 64 = 32 := rfl
  have hshift₁₆ : UInt64.toNat 16 % 64 = 16 := rfl
  simp only [threeOnlyId, UInt64.toNat_add, UInt64.toNat_shiftLeft, UInt32.toNat_toUInt64,
    UInt16.toNat_toUInt64, Nat.shiftLeft_eq, hshift₃₂, hshift₁₆]
  omega

theorem threeOnlyId_inj {ip ip' : UInt32} {port port' db db' : UInt16}
    (h : threeOnlyId ip port db = threeOnlyId ip' port' db') :
    ip = ip' ∧ port = port' ∧ db = db' := by
  have hnat := congrArg UInt64.toNat h
  rw [toNat_threeOnlyId, toNat_threeOnlyId] at hnat
  have hport := port.toNat_lt
  have hport' := port'.toNat_lt
  have hdb := db.toNat_lt
  have hdb' := db'.toNat_lt
  refine ⟨?_, ?_, ?_⟩
  · apply UInt32.toNat_inj.mp
    omega
  · apply UInt16.toNat_inj.mp
    omega
  · apply UInt16.toNat_inj.mp
    omega

example : inetAddr "127.1" = inetAddr "0x7f.0.0.01 " := by decide +kernel

end Redis

end Slience
