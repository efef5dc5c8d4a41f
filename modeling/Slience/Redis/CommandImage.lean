import Slience.Redis.ReplyEncode

/-!
# The image of a command

`redisFormatCommandArgv` and the end of `redisvFormatCommand` compute the size of a command in the
protocol and write it into a block of this size; `redisFormatSdsCommandArgv` appends it to an
`sds`.  There is no result where the size does not fit into an `int`, where a byte is written
behind the block, and where the `assert` at the end fails.
-/

namespace Slience

namespace Redis

/-- `countDigits` -/
def countDigits (v : ℕ) : ℕ :=
  if v < 10 then 1
  else if v < 100 then 2
  else if v < 1000 then 3
  else if v < 10000 then 4
  else countDigits (v / 10000) + 4

/-- `bulklen` -/
def bulklen (len : ℕ) : ℕ := 1 + countDigits len + 2 + len + 2

/-- What the functions compute before they write. -/
def totlen (argv : List Text) : ℕ :=
  1 + countDigits argv.length + 2 + (argv.map fun arg ↦ bulklen arg.length).sum

/-- The bytes are written behind those in `cmd`. -/
def put (totlen : ℕ) (cmd bytes : Text) : Option Text :=
  if cmd.length + bytes.length ≤ totlen then some (cmd ++ bytes) else none

/-- The loop over the arguments; `%u` prints the low 32 bits. -/
def putArguments (totlen : ℕ) : List Text → Text → Option Text
  | [], cmd => some cmd
  | arg :: argv, cmd => do
      let cmd ← put totlen cmd ([36] ++ Logstream.decimalText (arg.length % 2 ^ 32) ++ crlf)
      let cmd ← put totlen cmd arg
      let cmd ← put totlen cmd crlf
      putArguments totlen argv cmd

/-- `redisFormatCommandArgv`: the command, whose size is returned. -/
def redisFormatCommandArgv (argv : List Text) : Option Text :=
  if totlen argv < 2 ^ 31 then do
    let cmd ← put (totlen argv) [] ([42] ++ Logstream.printD argv.length ++ crlf)
    let cmd ← putArguments (totlen argv) argv cmd
    if cmd.length = totlen argv then some cmd else none
  else none

/-- The digits of `sdsull2str`, the last one first. -/
def sdsDigits (v : ℕ) : Text :=
  UInt8.ofNat (48 + v % 10) :: if h : v / 10 = 0 then [] else sdsDigits (v / 10)
termination_by v

/-- `sdsull2str` -/
def sdsull2str (v : ℕ) : Text := (sdsDigits v).reverse

/-- `sdsll2str` -/
def sdsll2str (value : ℤ) : Text :=
  (sdsDigits value.natAbs ++ if value < 0 then [45] else []).reverse

/-- `redisFormatSdsCommandArgv` -/
def redisFormatSdsCommandArgv (argv : List Text) : Option Text :=
  let cmd := [42] ++ sdsll2str argv.length ++ crlf ++
    argv.flatMap fun arg ↦ [36] ++ sdsull2str arg.length ++ crlf ++ arg ++ crlf
  if cmd.length = totlen argv ∧ totlen argv < 2 ^ 31 then some cmd else none

section Digits

open Logstream (decimalDigit decimalText)

theorem countDigits_eq (v : ℕ) : countDigits v = (numeral decimalDigit 10 v).length := by
  induction v using Nat.strong_induction_on with
  | _ v ih =>
      have hstep (n : ℕ) (h : 10 ≤ n) : (numeral decimalDigit 10 n).length =
          (numeral decimalDigit 10 (n / 10)).length + 1 := by
        rw [numeral_of_le h, List.length_append]
        rfl
      have hlast (n : ℕ) (h : n < 10) : (numeral decimalDigit 10 n).length = 1 := by
        rw [numeral_of_lt h]
        rfl
      rw [countDigits]
      split
      · rw [hlast v (by omega)]
      · rw [hstep v (by omega)]
        split
        · rw [hlast (v / 10) (by omega)]
        · rw [hstep (v / 10) (by omega)]
          split
          · rw [hlast (v / 10 / 10) (by omega)]
          · rw [hstep (v / 10 / 10) (by omega)]
            split
            · rw [hlast (v / 10 / 10 / 10) (by omega)]
            · rw [hstep (v / 10 / 10 / 10) (by omega), ih (v / 10000) (by omega)]
              simp only [Nat.div_div_eq_div_mul]

theorem sdsull2str_eq (v : ℕ) : sdsull2str v = numeral decimalDigit 10 v := by
  induction v using Nat.strong_induction_on with
  | _ v ih =>
      rw [sdsull2str, sdsDigits]
      split
      · rename_i hv
        rw [numeral_of_lt (by omega), Nat.mod_eq_of_lt (by omega)]
        rfl
      · rename_i hv
        rw [numeral_of_le (by omega), ← ih (v / 10) (by omega), List.reverse_cons]
        rfl

theorem sdsll2str_natCast (n : ℕ) : sdsll2str n = numeral decimalDigit 10 n := by
  rw [sdsll2str, if_neg (by omega), List.append_nil, Int.natAbs_natCast, ← sdsull2str_eq]
  rfl

end Digits

section Image

open Logstream (decimalDigit decimalText)

/-- A command as an array of bulk strings. -/
def commandImage (argv : List Text) : Text :=
  encodeLine 42 (decimalText argv.length) ++ argv.flatMap encodeBulk

def commandReply (argv : List Text) : ReplyObject :=
  .array argv.length ((argv.map (.string .string)).map some)

theorem length_encodeBulk (arg : Text) : (encodeBulk arg).length = bulklen arg.length := by
  rw [bulklen, countDigits_eq, ← decimalText_natCast]
  simp only [encodeBulk, encodeLine, crlf, List.length_append, List.length_cons, List.length_nil]
  omega

theorem length_commandImage (argv : List Text) : (commandImage argv).length = totlen argv := by
  rw [totlen, countDigits_eq, ← decimalText_natCast]
  simp only [commandImage, encodeLine, crlf, List.length_append, List.length_cons,
    List.length_nil, List.length_flatMap, length_encodeBulk]
  omega

theorem length_lt_totlen (argv : List Text) : argv.length < totlen argv := by
  have hle : argv.length ≤ (argv.map fun arg ↦ bulklen arg.length).sum := by
    induction argv with
    | nil => exact Nat.zero_le _
    | cons arg argv ih =>
        rw [List.length_cons, List.map_cons, List.sum_cons, bulklen]
        omega
  rw [totlen]
  omega

theorem length_le_totlen {argv : List Text} {arg : Text} (h : arg ∈ argv) :
    arg.length + 2 < totlen argv := by
  have hle : bulklen arg.length ≤ (argv.map fun arg ↦ bulklen arg.length).sum :=
    List.le_sum_of_mem (List.mem_map_of_mem h)
  rw [bulklen] at hle
  rw [totlen]
  omega

theorem put_eq {n : ℕ} {cmd bytes : Text} (h : cmd.length + bytes.length ≤ n) :
    put n cmd bytes = some (cmd ++ bytes) := by
  rw [put, if_pos h]

/-- The loop writes the arguments, where there is room for all of them. -/
theorem putArguments_eq {n : ℕ} (hn : n < 2 ^ 31) {argv : List Text} {cmd : Text}
    (h : cmd.length + (argv.flatMap encodeBulk).length ≤ n) :
    putArguments n argv cmd = some (cmd ++ argv.flatMap encodeBulk) := by
  induction argv generalizing cmd with
  | nil =>
      rw [putArguments, List.flatMap_nil, List.append_nil]
  | cons arg argv ih =>
      have hcons : ((arg :: argv).flatMap encodeBulk).length =
          (encodeBulk arg).length + (argv.flatMap encodeBulk).length := by
        rw [List.flatMap_cons, List.length_append]
      have hbulk : (encodeBulk arg).length =
          ([36] ++ decimalText arg.length ++ crlf).length + arg.length + crlf.length := by
        simp only [encodeBulk, encodeLine, List.length_append, List.length_cons, List.length_nil]
        omega
      have hmod : arg.length % 2 ^ 32 = arg.length := Nat.mod_eq_of_lt (by omega)
      have hmod' : ((arg.length % 2 ^ 32 : ℕ) : ℤ) = (arg.length : ℕ) := by rw [hmod]
      rw [putArguments]
      simp only [Nat.cast_ofNat, Int.natCast_mod, Nat.cast_pow] at hmod' ⊢
      rw [hmod', put_eq (by omega)]
      simp only [Option.bind_eq_bind, Option.bind_some]
      rw [put_eq (by rw [List.length_append]; omega)]
      simp only [Option.bind_some]
      rw [put_eq (by rw [List.length_append, List.length_append]; omega)]
      simp only [Option.bind_some]
      rw [ih (by simp only [List.length_append] at hbulk hcons h ⊢; omega), List.flatMap_cons]
      simp only [encodeBulk, encodeLine, List.append_assoc, List.cons_append, List.nil_append]

/-- The `assert` holds, and nothing is written behind the block. -/
theorem redisFormatCommandArgv_eq {argv : List Text} (h : totlen argv < 2 ^ 31) :
    redisFormatCommandArgv argv = some (commandImage argv) := by
  have hlen := length_commandImage argv
  have hargs := length_lt_totlen argv
  have hprint : Logstream.printD argv.length = decimalText argv.length := by
    rw [Logstream.printD, Int.bmod_eq_of_le (by omega) (by omega)]
  have hhead : ([42] ++ decimalText argv.length ++ crlf : Text) =
      encodeLine 42 (decimalText argv.length) := by
    rw [encodeLine, List.append_assoc]
    rfl
  rw [commandImage, List.length_append] at hlen
  rw [redisFormatCommandArgv, if_pos h, hprint, hhead, put_eq (by rw [List.length_nil]; omega),
    List.nil_append]
  simp only [Option.bind_eq_bind, Option.bind_some]
  rw [putArguments_eq h hlen.le]
  simp only [Option.bind_some]
  rw [if_pos (by rw [List.length_append, hlen]), commandImage]

theorem redisFormatSdsCommandArgv_eq {argv : List Text} (h : totlen argv < 2 ^ 31) :
    redisFormatSdsCommandArgv argv = some (commandImage argv) := by
  have himage : ([42] ++ sdsll2str argv.length ++ crlf ++ argv.flatMap fun arg ↦
      [36] ++ sdsull2str arg.length ++ crlf ++ arg ++ crlf) = commandImage argv := by
    simp only [sdsll2str_natCast, sdsull2str_eq, ← decimalText_natCast]
    rw [commandImage, encodeLine]
    simp only [List.append_assoc, List.cons_append, List.nil_append]
    congr 4
    funext arg
    simp only [encodeBulk, encodeLine, List.append_assoc, List.cons_append]
  rw [redisFormatSdsCommandArgv]
  simp only [himage]
  rw [if_pos ⟨length_commandImage argv, h⟩]

/-- A command that was formatted is the encoding of the array of its arguments. -/
theorem encode_commandReply {argv : List Text} (h : totlen argv < 2 ^ 31) (depth : ℕ) :
    encode (depth + 1) (commandReply argv) = some (commandImage argv) := by
  have hargs := length_lt_totlen argv
  have hall (l : List Text) (hl : ∀ arg ∈ l, arg.length + 2 < totlen argv) :
      encodeAll (encode depth) ((l.map (.string .string)).map some) =
        some (l.flatMap encodeBulk) := by
    induction l with
    | nil => rfl
    | cons arg l ih =>
        have harg : encode depth (.string .string arg) = some (encodeBulk arg) := by
          have hshort : arg.length + 2 < 2 ^ 63 := by
            have := hl arg List.mem_cons_self
            omega
          cases depth with
          | zero => rw [encode, encodeWith, if_pos hshort]
          | succ depth => rw [encode, encodeWith, if_pos hshort]
        have hrest := ih fun arg' h' ↦ hl arg' (List.mem_cons_of_mem arg h')
        rw [List.map_cons, List.map_cons, encodeAll]
        simp only [Option.bind_eq_bind, Option.bind_some, harg, hrest]
        rfl
  rw [commandReply, encode, encodeWith, if_pos ⟨by simp, by omega⟩, Option.bind_some,
    hall argv fun arg harg ↦ length_le_totlen harg]
  rfl

/-- A command that fits into an `int` is written in both ways, with exactly the bytes that were
counted, and its arguments are read again, whatever is behind it. -/
theorem command_round_trip {argv : List Text} (h : totlen argv < 2 ^ 31) :
    ∃ cmd, redisFormatCommandArgv argv = some cmd ∧ redisFormatSdsCommandArgv argv = some cmd ∧
      cmd.length = totlen argv ∧ ∀ t, replies.parse (cmd ++ t) = .done (commandReply argv) t :=
  ⟨commandImage argv, redisFormatCommandArgv_eq h, redisFormatSdsCommandArgv_eq h,
    length_commandImage argv, fun t ↦ parseItem_encode (encode_commandReply h 7) t⟩

theorem command_round_trip_get :
    ∃ cmd, redisFormatCommandArgv [lit "GET", lit "k"] = some cmd ∧
      redisFormatSdsCommandArgv [lit "GET", lit "k"] = some cmd ∧
      cmd.length = totlen [lit "GET", lit "k"] ∧
      ∀ t, replies.parse (cmd ++ t) = .done (commandReply [lit "GET", lit "k"]) t :=
  command_round_trip (by decide +kernel)

end Image

end Redis

end Slience
