import Slience.Redis.Cluster
import Slience.Lib.Shards

/-!
# Commands over many slots

A command over keys of several slots is cut into one command for each slot
(`command_pre_fragment`, `hircluster.cpp`), and the replies are put together again
(`command_post_fragment`).

There is no result where a byte is written behind the block of a command or read behind the given
one.  The test of `keyHashSlot` against the number of the slots, and errors for want of memory,
are left out.
-/

namespace Slience

namespace Redis

/-- `keypos` of a sub-command. -/
structure SubKey where
  start : ℕ
  stop : ℕ
  remainLen : ℕ
  deriving DecidableEq

/-- `cmd` of a sub-command; `clen` is the size of its block. -/
structure SubCommand where
  slotNum : ℕ
  narg : ℕ
  clen : ℕ
  keys : List SubKey
  command : Text
  deriving DecidableEq

/-- `_uint_len` -/
def uintLen (num : ℕ) : ℕ := if num < 10 then 1 else uintLen (num / 10) + 1

/-- The digits that the loop of `_hi_itoa` writes, before they are turned round. -/
def itoaDigits (num : ℕ) : Text :=
  if num % 10 = 0 ∧ num / 10 = 0 then [] else UInt8.ofNat (num % 10 + 48) :: itoaDigits (num / 10)

/-- `_hi_itoa` on a block that holds the string `s`: behind the only digit of zero no end is
set. -/
def hiItoa (s : Text) (num : ℕ) : Text := if num = 0 then 48 :: s.tail else (itoaDigits num).reverse

/-- How much stands behind a key up to the next one: the digits behind it say how long its value
is. -/
def remainLen (cmd : Text) (stop : ℕ) : Option ℕ :=
  let behind := cmd.drop (stop + 1)
  let skipped := behind.takeWhile fun b ↦ !isDigit b
  if skipped.length = behind.length then none
  else
    let digits := (behind.drop skipped.length).takeWhile isDigit
    some ((digits.foldl CmdParse.addDigit 0 + 4 + (1 + skipped.length + digits.length)) % 2 ^ 32)

/-- `remain_len` of a key, which only `MSET` has. -/
def keyRemain (type : CmdType) (cmd : Text) (stop : ℕ) : Option ℕ :=
  if type = .reqRedisMset then remainLen cmd stop else some 0

/-- A turn of the loop over the keys; `command_get` makes a command for a slot without one. -/
def addKey (type : CmdType) (cmd : Text) (subCommands : ℕ → Option SubCommand) (kp : KeyPos) :
    Option (ℕ → Option SubCommand) := do
  let slotNum := keyHashSlot (kp.text cmd)
  let sub := (subCommands slotNum).getD ⟨slotNum, 0, 0, [], []⟩
  let remain ← keyRemain type cmd kp.stop
  let keyLen := kp.stop - kp.start
  some (Function.update subCommands slotNum (some { sub with
    narg := sub.narg + 1
    keys := sub.keys ++ [⟨kp.start, kp.stop, remain⟩]
    clen := (sub.clen + (keyLen + uintLen keyLen) + remain) % 2 ^ 32 }))

/-- What the three branches differ in: the bytes that a key takes besides its own, the number of
arguments, the size of the rest, and the text behind this number. -/
structure FragmentShape where
  perKey : ℕ
  nargs : ℕ → ℕ
  rest : ℕ
  name : Text

def mgetShape : FragmentShape := ⟨5, (· + 1), 13, lit "\r\n$4\r\nmget\r\n"⟩

def delShape : FragmentShape := ⟨5, (· + 1), 12, lit "\r\n$3\r\ndel\r\n"⟩

def msetShape : FragmentShape := ⟨3, (2 * · + 1), 13, lit "\r\n$4\r\nmset\r\n"⟩

/-- The branch of a command; the others are not reached. -/
def fragmentShape : CmdType → Option FragmentShape
  | .reqRedisMget => some mgetShape
  | .reqRedisDel => some delShape
  | .reqRedisMset => some msetShape
  | _ => none

/-- The bytes of the given command. -/
def copyBytes (cmd : Text) (start n : ℕ) : Option Text :=
  if start + n ≤ cmd.length then some ((cmd.drop start).take n) else none

/-- What is written behind the length of a key: for `MSET` all up to the next key is copied. -/
def keyBytes (type : CmdType) (cmd : Text) (kp : SubKey) : Option Text :=
  if type = .reqRedisMset then copyBytes cmd kp.start (kp.stop - kp.start + kp.remainLen)
  else (copyBytes cmd kp.start (kp.stop - kp.start)).map (· ++ crlf)

/-- A key is written, with its length from `num_str`. -/
def writeKey (type : CmdType) (cmd : Text) (clen : ℕ) (out : Text × Text) (kp : SubKey) :
    Option (Text × Text) := do
  let numStr := hiItoa out.1 (kp.stop - kp.start)
  let bytes ← keyBytes type cmd kp
  let command ← put clen out.2 ([36] ++ numStr ++ crlf ++ bytes)
  some (numStr, command)

/-- The command for a slot is written into its block; `num_str` is passed on. -/
def buildSub (type : CmdType) (shape : FragmentShape) (cmd numStr : Text) (sub : SubCommand) :
    Option (Text × SubCommand) := do
  let narg := shape.nargs sub.narg
  let numStr := hiItoa numStr narg
  let clen := (sub.clen + shape.perKey * sub.narg + (shape.rest + numStr.length)) % 2 ^ 32
  let command ← put clen [] ([42] ++ numStr ++ shape.name)
  let (numStr, command) ← sub.keys.foldlM (writeKey type cmd clen) (numStr, command)
  some (numStr, { sub with
    narg, clen, command := command ++ List.replicate (clen - command.length) 0 })

/-- The loop over the slots. -/
def buildSubs (type : CmdType) (shape : FragmentShape) (cmd : Text)
    (subCommands : ℕ → Option SubCommand) : List ℕ → Text → Option (List SubCommand)
  | [], _ => some []
  | i :: is, numStr =>
      match subCommands i with
      | none => buildSubs type shape cmd subCommands is numStr
      | some sub => do
          let (numStr, sub) ← buildSub type shape cmd numStr sub
          let subs ← buildSubs type shape cmd subCommands is numStr
          some (sub :: subs)

/-- `slot_num`, `frag_seq`, told by the slots, and `commands`. -/
structure Fragments where
  slotNum : ℕ
  fragSeq : List ℕ
  commands : List SubCommand
  deriving DecidableEq

/-- `command_pre_fragment`; a single sub-command is given up for the command itself. -/
def commandPreFragment (cmd : Text) (command : ParsedCmd) : Option Fragments := do
  let shape ← fragmentShape command.type
  let subCommands ← command.keys.foldlM (addKey command.type cmd) fun _ ↦ none
  let commands ← buildSubs command.type shape cmd subCommands (List.range redisClusterSlots) []
  let fragSeq := command.keys.map fun kp ↦ keyHashSlot (kp.text cmd)
  let slotNum := fragSeq.getLastD 0
  if commands.length = 1 then some ⟨slotNum, [], []⟩ else some ⟨slotNum, fragSeq, commands⟩

/-- What a reply stops the reassembly with: the reply itself, an error, or nothing at all. -/
def checkSubReply (type : CmdType) : Option ReplyObject → Except (Option ReplyObject × Text) ℤ
  | none => .error (none, [])
  | some (.string .error str) => .error (some (.string .error str), [])
  | some reply =>
      match type, reply with
      | .reqRedisMget, .array _ _ => .ok 0
      | .reqRedisMget, _ => .error (none, lit "reply type is error(here only can be array)")
      | .reqRedisDel, .integer n => .ok n
      | .reqRedisDel, _ => .error (none, lit "reply type is error(here only can be integer)")
      | _, .string .status str =>
          if str = lit "OK" then .ok 0
          else .error (none, lit "reply type is error(here only can be status and ok)")
      | _, _ => .error (none, lit "reply type is error(here only can be status and ok)")

/-- The loop over the sub-commands, with the sum of the integers. -/
def checkSubReplies (type : CmdType) : ℤ → List (Option ReplyObject) →
    Except (Option ReplyObject × Text) ℤ
  | count, [] => .ok count
  | count, reply :: replies =>
      match checkSubReply type reply with
      | .error e => .error e
      | .ok n => checkSubReplies type (count + n) replies

/-- The element for one key: the last one of the reply to its sub-command, which loses it. -/
def takeElement (replies : ℕ → Option ReplyObject) (slotNum : ℕ) :
    Option (Except Text (Option ReplyObject × (ℕ → Option ReplyObject))) :=
  match replies slotNum with
  | none => some (.error (lit "sub reply is null"))
  | some (.string .string str) => some (.ok (some (.string .string str), replies))
  | some (.array elements element) =>
      if elements = 0 then some (.error (lit "sub reply elements error"))
      else (element[elements - 1]?).map fun x ↦
        .ok (x, Function.update replies slotNum (some (.array (elements - 1) element)))
  | some _ => some (.ok (none, replies))

/-- The loop over the keys, which starts with the last one. -/
def takeElements : List ℕ → (ℕ → Option ReplyObject) →
    Option (Except Text (List (Option ReplyObject) × (ℕ → Option ReplyObject)))
  | [], replies => some (.ok ([], replies))
  | slotNum :: fragSeq, replies => do
      match ← takeElements fragSeq replies with
      | .error e => some (.error e)
      | .ok (element, replies) =>
          match ← takeElement replies slotNum with
          | .error e => some (.error e)
          | .ok (x, replies) => some (.ok (x :: element, replies))

/-- The reply to the sub-command of a slot. -/
def subReply (replies : List (ℕ × Option ReplyObject)) (slotNum : ℕ) : Option ReplyObject :=
  (replies.find? fun r ↦ r.1 = slotNum).bind Prod.snd

section Context

variable {σ : Type}

/-- `command_post_fragment`, with the replies in the order of the sub-commands. -/
def commandPostFragment (cc : ClusterContext σ) (type : CmdType) (fragSeq : List ℕ)
    (replies : List (ℕ × Option ReplyObject)) :
    Option (ClusterContext σ × Option ReplyObject) :=
  match checkSubReplies type 0 (replies.map Prod.snd) with
  | .error (reply, []) => some (cc, reply)
  | .error (reply, e) => some (cc.setError redisErrOther e, reply)
  | .ok count =>
      if type = .reqRedisMget then do
        match ← takeElements fragSeq (subReply replies) with
        | .error e => some (cc.fail redisErrOther e)
        | .ok (element, _) => some (cc, some (.array fragSeq.length element))
      else if type = .reqRedisDel then some (cc, some (.integer count))
      else some (cc, some (.string .status (lit "OK")))

/-- `command_format_by_slot` -/
def commandFormatBySlot (cc : ClusterContext σ) (cmd : Text) :
    Option (ClusterContext σ × Option (CmdType × Fragments)) :=
  if cmd = [] then some (cc, none)
  else match redisParseCmd cmd with
    | .error e => some (cc.fail redisErrProtocol e)
    | .ok command =>
        match command.keys with
        | [] => some (cc.fail redisErrOther
            (lit "No keys in command(must have keys for redis cluster mode)"))
        | [kp] => some (cc, some (command.type, ⟨keyHashSlot (kp.text cmd), [], []⟩))
        | _ => (commandPreFragment cmd command).map fun f ↦ (cc, some (command.type, f))

variable {ν : Type} (net : ClusterNet σ ν)

/-- The sub-commands one after the other, up to one without a reply or with an error; otherwise
all replies. -/
def executeAll (cc : ClusterContext σ) : List SubCommand →
    ClusterContext σ × Except (Option ReplyObject) (List (ℕ × Option ReplyObject))
  | [] => (cc, .ok [])
  | sub :: subs =>
      match net.redisClusterCommandExecute cc sub.slotNum sub.command with
      | (cc, none) => (cc, .error none)
      | (cc, some (.string .error str)) => (cc, .error (some (.string .error str)))
      | (cc, some reply) =>
          match executeAll cc subs with
          | (cc, .error e) => (cc, .error e)
          | (cc, .ok replies) => (cc, .ok ((sub.slotNum, some reply) :: replies))

/-- `redisClusterFormattedCommand` -/
def redisClusterFormattedCommand (cc : ClusterContext σ) (cmd : Text) :
    Option (ClusterContext σ × Option ReplyObject) := do
  let cc := { cc with err := none }
  let (cc, reply) ← match ← commandFormatBySlot cc cmd with
    | (cc, none) => some (cc, none)
    | (cc, some (type, f)) =>
        if f.commands = [] then some (net.redisClusterCommandExecute cc f.slotNum cmd)
        else match executeAll net cc f.commands with
          | (cc, .error reply) => some (cc, reply)
          | (cc, .ok replies) => commandPostFragment cc type f.fragSeq replies
  some ({ cc with retryCount := 0 }, reply)

/-- `redisClusterCommandArgv` -/
def redisClusterCommandArgv (cc : ClusterContext σ) (argv : List Text) :
    Option (ClusterContext σ × Option ReplyObject) := do
  let cmd ← redisFormatCommandArgv argv
  redisClusterFormattedCommand net cc cmd

end Context

end Redis

end Slience
