import Slience.Lib.Bytes

/-!
# The format of a command

`redisvFormatCommand` of the bundled hiredis (`hiredis.cpp`) reads a format byte by byte: spaces
separate the arguments of the command, and `%` introduces a conversion that takes what is next in
the `va_list`.  The list of arguments is what is modelled, not its image in the protocol.
Taking an argument that was not passed or is of another type, and going on behind the end of the
format, have no result.
-/

namespace Slience

namespace Redis

abbrev Text := List Byte

/-- The bytes of a literal. -/
def lit (s : String) : Text := s.toList.map fun c ↦ UInt8.ofNat c.toNat

/-- A variadic argument.  A pointer is what is in memory from it to the end of its object. -/
inductive VaArg where
  | ptr (mem : Text)
  | size (n : ℕ)
  | int (v : ℤ)
  | long (v : ℤ)
  | longLong (v : ℤ)
  | double (bits : UInt64)
  deriving DecidableEq

/-- The type that a conversion of `printf` asks for. -/
inductive PrintfType where
  | int
  | double
  | longLong
  | long
  deriving DecidableEq

def PrintfType.accepts : PrintfType → VaArg → Bool
  | .int, .int _ => true
  | .double, .double _ => true
  | .longLong, .longLong _ => true
  | .long, .long _ => true
  | _, _ => false

def intfmts : Text := lit "diouxX"

def flags : Text := lit "#0-+ "

def doublefmts : Text := lit "eEfFgGaA"

def isDigit (b : Byte) : Bool := 48 ≤ b && b ≤ 57

/-- What is left of a format behind the flags, the width and the precision of a conversion. -/
def skipModifiers (p : Text) : Text :=
  let p := p.dropWhile (flags.contains ·)
  let p := p.dropWhile isDigit
  match p with
  | 46 :: p => p.dropWhile isDigit
  | p => p

/-- The size and the letter of a conversion: the type, and how many bytes they take.  `strchr`
finds the end of the format among the integer conversions. -/
def printfLetter : Text → Option (PrintfType × ℕ)
  | [] => some (.int, 1)
  | x :: p =>
      if x ∈ intfmts then some (.int, 1)
      else if x ∈ doublefmts then some (.double, 1)
      else match x, p with
        | 104, 104 :: y :: _ => if y ∈ intfmts then some (.int, 3) else none
        | 104, y :: _ => if y ∈ intfmts then some (.int, 2) else none
        | 108, 108 :: y :: _ => if y ∈ intfmts then some (.longLong, 3) else none
        | 108, y :: _ => if y ∈ intfmts then some (.long, 2) else none
        | _, _ => none

/-- The conversion of `printf` behind a `%`: its type and its length `_l` with the `%`. -/
def printfConversion (p : Text) : Option (PrintfType × ℕ) :=
  (printfLetter (skipModifiers p)).map fun r ↦
    (r.1, 1 + (p.length - (skipModifiers p).length) + r.2)

/-- A conversion that takes arguments; one of `printf` is too long for `_format` where it has no
text. -/
inductive Conv where
  | string
  | binary
  | printf (type : PrintfType) (text : Option Text)
  deriving DecidableEq

/-- What a conversion appends to the argument, and what it leaves of the `va_list`. -/
def Conv.take (printf : Text → VaArg → Text) : Conv → List VaArg → Option (Text × List VaArg)
  | .string, .ptr mem :: ap => if 0 ∈ mem then some (mem.takeWhile (· ≠ 0), ap) else none
  | .binary, .ptr mem :: .size n :: ap => if n ≤ mem.length then some (mem.take n, ap) else none
  | .printf type text, arg :: ap =>
      if type.accepts arg then some ((text.map fun t ↦ printf t arg).getD [], ap) else none
  | _, _ => none

/-- What the loop takes at once: a byte of the argument, also that of `%%`, or a conversion. -/
inductive Item where
  | byte (b : Byte)
  | conv (c : Conv)
  deriving DecidableEq

def Item.take (printf : Text → VaArg → Text) : Item → List VaArg → Option (Text × List VaArg)
  | .byte b, ap => some ([b], ap)
  | .conv c, ap => c.take printf ap

/-- The item at a `%`, and how many of the bytes behind it are passed over; nothing where the
format is invalid. -/
def conversion (rest : Text) : Option (Item × ℕ) :=
  match rest with
  | 115 :: _ => some (.conv .string, 1)
  | 98 :: _ => some (.conv .binary, 1)
  | 37 :: _ => some (.byte 37, 1)
  | _ =>
      (printfConversion rest).map fun (type, l) ↦
        if l < 14 then (.conv (.printf type (some ((37 :: rest).take l))), l - 1)
        else (.conv (.printf type none), 1)

/-- The variables of `redisvFormatCommand`. -/
structure FormatState where
  curarg : Text
  touched : Bool
  curargv : List Text
  ap : List VaArg

namespace FormatState

/-- `curarg` becomes an argument when it was touched. -/
def flush (s : FormatState) : FormatState :=
  if s.touched then ⟨[], false, s.curargv ++ [s.curarg], s.ap⟩ else s

def append (s : FormatState) (text : Text) (ap : List VaArg) : FormatState :=
  ⟨s.curarg ++ text, true, s.curargv, ap⟩

end FormatState

/-- The loop of `redisvFormatCommand` over what is left of the format, of which the first `skip`
bytes are passed over.  The arguments of the command are missing for an invalid format. -/
def formatLoop (printf : Text → VaArg → Text) :
    Text → ℕ → FormatState → Option (Option (List Text) × List VaArg)
  | [], 0, s => some (some s.flush.curargv, s.ap)
  | [], _ + 1, _ => none
  | _ :: rest, skip + 1, s => formatLoop printf rest skip s
  | c :: rest, 0, s =>
      if c ≠ 37 ∨ rest = [] then
        if c = 32 then formatLoop printf rest 0 s.flush
        else formatLoop printf rest 0 (s.append [c] s.ap)
      else
        match conversion rest with
        | none => some (none, s.ap)
        | some (item, skip) =>
            match item.take printf s.ap with
            | none => none
            | some (text, ap) => formatLoop printf rest skip (s.append text ap)

/-- `redisvFormatCommand`: the arguments of the command, or nothing for an invalid format, and
where the `va_list` stands then. -/
def redisvFormatCommand (printf : Text → VaArg → Text) (format : Text) (ap : List VaArg) :
    Option (Option (List Text) × List VaArg) :=
  formatLoop printf (format.takeWhile (· ≠ 0)) 0 ⟨[], false, [], ap⟩

variable {printf : Text → VaArg → Text} {s : FormatState} {c : Byte} {rest : Text}

@[simp] theorem FormatState.ap_flush : s.flush.ap = s.ap := by
  unfold FormatState.flush
  split <;> rfl

theorem FormatState.flush_flush (s : FormatState) : s.flush.flush = s.flush := by
  unfold FormatState.flush
  by_cases hs : s.touched <;> simp [hs]

/-! ## One turn of the loop -/

theorem formatLoop_space (rest : Text) (s : FormatState) :
    formatLoop printf (32 :: rest) 0 s = formatLoop printf rest 0 s.flush := by
  rw [formatLoop, if_pos (Or.inl (by decide)), if_pos rfl]

theorem formatLoop_byte (hc : c ≠ 32) (hlit : c ≠ 37 ∨ rest = []) (s : FormatState) :
    formatLoop printf (c :: rest) 0 s = formatLoop printf rest 0 (s.append [c] s.ap) := by
  rw [formatLoop, if_pos hlit, if_neg hc]

theorem formatLoop_percent (hrest : rest ≠ []) (s : FormatState) :
    formatLoop printf (37 :: rest) 0 s =
      match conversion rest with
      | none => some (none, s.ap)
      | some (item, skip) =>
          match item.take printf s.ap with
          | none => none
          | some (text, ap) => formatLoop printf rest skip (s.append text ap) := by
  rw [formatLoop, if_neg (by simpa using hrest)]

theorem formatLoop_item {item : Item} {skip : ℕ} {text : Text} {ap : List VaArg}
    (hrest : rest ≠ []) (hconv : conversion rest = some (item, skip))
    (htake : item.take printf s.ap = some (text, ap)) :
    formatLoop printf (37 :: rest) 0 s = formatLoop printf rest skip (s.append text ap) := by
  rw [formatLoop_percent hrest, hconv]
  dsimp only
  rw [htake]

/-- Without arguments only `%%` has a result. -/
theorem conversion_of_take_nil {item : Item} {skip : ℕ} {r : Text × List VaArg}
    (hconv : conversion rest = some (item, skip)) (htake : item.take printf [] = some r) :
    item = .byte 37 ∧ skip = 1 ∧ r = ([37], []) ∧ ∃ rest', rest = 37 :: rest' := by
  cases item with
  | conv c =>
      have hnone : c.take printf [] = none := by
        cases c <;> rfl
      rw [Item.take, hnone] at htake
      cases htake
  | byte b =>
      cases htake
      unfold conversion at hconv
      split at hconv
      · cases hconv
      · cases hconv
      · cases hconv
        exact ⟨rfl, rfl, rfl, _, rfl⟩
      · obtain ⟨⟨type, l⟩, -, heq⟩ := Option.map_eq_some_iff.mp hconv
        dsimp only at heq
        split at heq <;> cases heq

end Redis

end Slience
