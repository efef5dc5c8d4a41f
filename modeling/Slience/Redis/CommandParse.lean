import Slience.Redis.CommandImage

/-!
# The parser of commands

`redis_parse_cmd` (`command.cpp`) reads a command in the protocol and finds its keys, by which a
cluster client knows where to send it.  It works on the whole command: an argument is skipped by
its length, and where the command ends too early the result stays `CMD_PARSE_OK`, which
`command_get` has set.

The members `narg_start`, `narg_end`, `quit` and `noforward` are only written, never read.
-/

namespace Slience

namespace Redis

/-- `cmd_type_t` -/
inductive CmdType where
  | unknown | reqRedisDel | reqRedisExists | reqRedisExpire | reqRedisExpireat | reqRedisPexpire
  | reqRedisPexpireat | reqRedisPersist | reqRedisPttl | reqRedisSort | reqRedisTtl | reqRedisType
  | reqRedisAppend | reqRedisBitcount | reqRedisDecr | reqRedisDecrby | reqRedisDump | reqRedisGet
  | reqRedisGetbit | reqRedisGetrange | reqRedisGetset | reqRedisIncr | reqRedisIncrby
  | reqRedisIncrbyfloat | reqRedisMget | reqRedisMset | reqRedisPsetex | reqRedisRestore
  | reqRedisSet | reqRedisSetbit | reqRedisSetex | reqRedisSetnx | reqRedisSetrange
  | reqRedisStrlen | reqRedisHdel | reqRedisHexists | reqRedisHget | reqRedisHgetall
  | reqRedisHincrby | reqRedisHincrbyfloat | reqRedisHkeys | reqRedisHlen | reqRedisHmget
  | reqRedisHmset | reqRedisHset | reqRedisHsetnx | reqRedisHscan | reqRedisHvals | reqRedisLindex
  | reqRedisLinsert | reqRedisLlen | reqRedisLpop | reqRedisLpush | reqRedisLpushx
  | reqRedisLrange | reqRedisLrem | reqRedisLset | reqRedisLtrim | reqRedisPfadd | reqRedisPfcount
  | reqRedisPfmerge | reqRedisRpop | reqRedisRpoplpush | reqRedisRpush | reqRedisRpushx
  | reqRedisSadd | reqRedisScard | reqRedisSdiff | reqRedisSdiffstore | reqRedisSinter
  | reqRedisSinterstore | reqRedisSismember | reqRedisSmembers | reqRedisSmove | reqRedisSpop
  | reqRedisSrandmember | reqRedisSrem | reqRedisSunion | reqRedisSunionstore | reqRedisSscan
  | reqRedisZadd | reqRedisZcard | reqRedisZcount | reqRedisZincrby | reqRedisZinterstore
  | reqRedisZlexcount | reqRedisZrange | reqRedisZrangebylex | reqRedisZrangebyscore
  | reqRedisZrank | reqRedisZrem | reqRedisZremrangebyrank | reqRedisZremrangebylex
  | reqRedisZremrangebyscore | reqRedisZrevrange | reqRedisZrevrangebyscore | reqRedisZrevrank
  | reqRedisZscore | reqRedisZunionstore | reqRedisZscan | reqRedisEval | reqRedisEvalsha
  | reqRedisPing | reqRedisQuit | reqRedisAuth | rspRedisStatus | rspRedisError | rspRedisInteger
  | rspRedisBulk | rspRedisMultibulk | sentinel
  deriving DecidableEq

namespace CmdType

/-- The command takes no key. -/
def redisArgz : CmdType → Bool
  | .reqRedisPing | .reqRedisQuit => true
  | _ => false

/-- The command has no argument behind its key; the next three have one, two and three. -/
def redisArg0 : CmdType → Bool
  | .reqRedisExists | .reqRedisPersist | .reqRedisPttl | .reqRedisSort | .reqRedisTtl
  | .reqRedisType | .reqRedisDump | .reqRedisDecr | .reqRedisGet | .reqRedisIncr | .reqRedisStrlen
  | .reqRedisHgetall | .reqRedisHkeys | .reqRedisHlen | .reqRedisHvals | .reqRedisLlen
  | .reqRedisLpop | .reqRedisRpop | .reqRedisScard | .reqRedisSmembers | .reqRedisSpop
  | .reqRedisZcard | .reqRedisPfcount | .reqRedisAuth => true
  | _ => false

def redisArg1 : CmdType → Bool
  | .reqRedisExpire | .reqRedisExpireat | .reqRedisPexpire | .reqRedisPexpireat | .reqRedisAppend
  | .reqRedisDecrby | .reqRedisGetbit | .reqRedisGetset | .reqRedisIncrby | .reqRedisIncrbyfloat
  | .reqRedisSetnx | .reqRedisHexists | .reqRedisHget | .reqRedisLindex | .reqRedisLpushx
  | .reqRedisRpoplpush | .reqRedisRpushx | .reqRedisSismember | .reqRedisZrank | .reqRedisZrevrank
  | .reqRedisZscore => true
  | _ => false

def redisArg2 : CmdType → Bool
  | .reqRedisGetrange | .reqRedisPsetex | .reqRedisSetbit | .reqRedisSetex | .reqRedisSetrange
  | .reqRedisHincrby | .reqRedisHincrbyfloat | .reqRedisHset | .reqRedisHsetnx | .reqRedisLrange
  | .reqRedisLrem | .reqRedisLset | .reqRedisLtrim | .reqRedisSmove | .reqRedisZcount
  | .reqRedisZlexcount | .reqRedisZincrby | .reqRedisZremrangebylex | .reqRedisZremrangebyrank
  | .reqRedisZremrangebyscore | .reqRedisRestore => true
  | _ => false

def redisArg3 : CmdType → Bool
  | .reqRedisLinsert => true
  | _ => false

/-- The command has any number of arguments behind its key. -/
def redisArgn : CmdType → Bool
  | .reqRedisBitcount | .reqRedisSet | .reqRedisHdel | .reqRedisHmget | .reqRedisHmset
  | .reqRedisHscan | .reqRedisLpush | .reqRedisRpush | .reqRedisSadd | .reqRedisSdiff
  | .reqRedisSdiffstore | .reqRedisSinter | .reqRedisSinterstore | .reqRedisSrem | .reqRedisSunion
  | .reqRedisSunionstore | .reqRedisSrandmember | .reqRedisSscan | .reqRedisPfadd
  | .reqRedisPfmerge | .reqRedisZadd | .reqRedisZinterstore | .reqRedisZrange
  | .reqRedisZrangebyscore | .reqRedisZrem | .reqRedisZrevrange | .reqRedisZrangebylex
  | .reqRedisZrevrangebyscore | .reqRedisZunionstore | .reqRedisZscan => true
  | _ => false

/-- All arguments are keys. -/
def redisArgx : CmdType → Bool
  | .reqRedisMget | .reqRedisDel => true
  | _ => false

/-- Keys and values take turns. -/
def redisArgkvx : CmdType → Bool
  | .reqRedisMset => true
  | _ => false

/-- A script, the number of keys, the keys and other arguments. -/
def redisArgeval : CmdType → Bool
  | .reqRedisEval | .reqRedisEvalsha => true
  | _ => false

end CmdType

/-- The names that the parser knows, in its order. -/
def commandNames : List (String × CmdType) :=
  [("get", .reqRedisGet), ("set", .reqRedisSet), ("ttl", .reqRedisTtl), ("del", .reqRedisDel),
    ("pttl", .reqRedisPttl), ("decr", .reqRedisDecr), ("dump", .reqRedisDump),
    ("hdel", .reqRedisHdel), ("hget", .reqRedisHget), ("hlen", .reqRedisHlen),
    ("hset", .reqRedisHset), ("incr", .reqRedisIncr), ("llen", .reqRedisLlen),
    ("lpop", .reqRedisLpop), ("lrem", .reqRedisLrem), ("lset", .reqRedisLset),
    ("rpop", .reqRedisRpop), ("sadd", .reqRedisSadd), ("spop", .reqRedisSpop),
    ("srem", .reqRedisSrem), ("type", .reqRedisType), ("mget", .reqRedisMget),
    ("mset", .reqRedisMset), ("zadd", .reqRedisZadd), ("zrem", .reqRedisZrem),
    ("eval", .reqRedisEval), ("sort", .reqRedisSort), ("ping", .reqRedisPing),
    ("quit", .reqRedisQuit), ("auth", .reqRedisAuth), ("hkeys", .reqRedisHkeys),
    ("hmget", .reqRedisHmget), ("hmset", .reqRedisHmset), ("hvals", .reqRedisHvals),
    ("hscan", .reqRedisHscan), ("lpush", .reqRedisLpush), ("ltrim", .reqRedisLtrim),
    ("rpush", .reqRedisRpush), ("scard", .reqRedisScard), ("sdiff", .reqRedisSdiff),
    ("setex", .reqRedisSetex), ("setnx", .reqRedisSetnx), ("smove", .reqRedisSmove),
    ("sscan", .reqRedisSscan), ("zcard", .reqRedisZcard), ("zrank", .reqRedisZrank),
    ("zscan", .reqRedisZscan), ("pfadd", .reqRedisPfadd), ("append", .reqRedisAppend),
    ("decrby", .reqRedisDecrby), ("exists", .reqRedisExists), ("expire", .reqRedisExpire),
    ("getbit", .reqRedisGetbit), ("getset", .reqRedisGetset), ("psetex", .reqRedisPsetex),
    ("hsetnx", .reqRedisHsetnx), ("incrby", .reqRedisIncrby), ("lindex", .reqRedisLindex),
    ("lpushx", .reqRedisLpushx), ("lrange", .reqRedisLrange), ("rpushx", .reqRedisRpushx),
    ("setbit", .reqRedisSetbit), ("sinter", .reqRedisSinter), ("strlen", .reqRedisStrlen),
    ("sunion", .reqRedisSunion), ("zcount", .reqRedisZcount), ("zrange", .reqRedisZrange),
    ("zscore", .reqRedisZscore), ("persist", .reqRedisPersist), ("pexpire", .reqRedisPexpire),
    ("hexists", .reqRedisHexists), ("hgetall", .reqRedisHgetall), ("hincrby", .reqRedisHincrby),
    ("linsert", .reqRedisLinsert), ("zincrby", .reqRedisZincrby), ("evalsha", .reqRedisEvalsha),
    ("restore", .reqRedisRestore), ("pfcount", .reqRedisPfcount), ("pfmerge", .reqRedisPfmerge),
    ("expireat", .reqRedisExpireat), ("bitcount", .reqRedisBitcount),
    ("getrange", .reqRedisGetrange), ("setrange", .reqRedisSetrange),
    ("smembers", .reqRedisSmembers), ("zrevrank", .reqRedisZrevrank),
    ("pexpireat", .reqRedisPexpireat), ("rpoplpush", .reqRedisRpoplpush),
    ("sismember", .reqRedisSismember), ("zrevrange", .reqRedisZrevrange),
    ("zlexcount", .reqRedisZlexcount), ("sdiffstore", .reqRedisSdiffstore),
    ("incrbyfloat", .reqRedisIncrbyfloat), ("sinterstore", .reqRedisSinterstore),
    ("srandmember", .reqRedisSrandmember), ("sunionstore", .reqRedisSunionstore),
    ("zinterstore", .reqRedisZinterstore), ("zunionstore", .reqRedisZunionstore),
    ("zrangebylex", .reqRedisZrangebylex), ("hincrbyfloat", .reqRedisHincrbyfloat),
    ("zrangebyscore", .reqRedisZrangebyscore), ("zremrangebylex", .reqRedisZremrangebylex),
    ("zremrangebyrank", .reqRedisZremrangebyrank),
    ("zremrangebyscore", .reqRedisZremrangebyscore),
    ("zrevrangebyscore", .reqRedisZrevrangebyscore)]

/-- `str3icmp` to `str16icmp` -/
def stricmp (m name : Text) : Bool :=
  name.length ≤ m.length && (m.zip name).all fun (b, c) ↦ b == c || b == c ^^^ 32

/-- The `switch` over the length of the name; the branch for 10 falls through to the one for 11. -/
def commandType (len : ℕ) (m : Text) : CmdType :=
  (commandNames.find? fun x ↦
      (x.1.length = len || len = 10 && x.1.length = 11) && stricmp m (lit x.1)).elim
    .unknown Prod.snd

/-- What is read in turn: the key, and the arguments that are told apart. -/
inductive CmdArg where
  | key | arg1 | arg2 | arg3 | argn
  deriving DecidableEq

/-- The states of the parser; `SW_KEY_LEN` to `SW_ARGN_LF` are four for each kind of argument. -/
inductive CmdState where
  | start | narg | nargLf | reqTypeLen | reqTypeLenLf | reqType | reqTypeLf
  | len (arg : CmdArg)
  | lenLf (arg : CmdArg)
  | data (arg : CmdArg)
  | dataLf (arg : CmdArg)
  deriving DecidableEq

/-- The numbers of the kinds, and from them of the states, as they are printed. -/
def CmdArg.number : CmdArg → ℕ
  | key => 0
  | arg1 => 1
  | arg2 => 2
  | arg3 => 3
  | argn => 4

def CmdState.number : CmdState → ℕ
  | start => 0
  | narg => 1
  | nargLf => 2
  | reqTypeLen => 3
  | reqTypeLenLf => 4
  | reqType => 5
  | reqTypeLf => 6
  | len arg => 7 + 4 * arg.number
  | lenLf arg => 8 + 4 * arg.number
  | data arg => 9 + 4 * arg.number
  | dataLf arg => 10 + 4 * arg.number

/-- `keypos`, as positions in the command. -/
structure KeyPos where
  start : ℕ
  stop : ℕ
  deriving DecidableEq

/-- The variables of the loop and what it sets of `cmd`. -/
structure CmdParse where
  p : ℕ
  state : CmdState
  token : Option ℕ
  rlen : ℕ
  rnarg : ℕ
  type : CmdType
  narg : ℕ
  keys : List KeyPos
  deriving DecidableEq

/-- What a turn of the loop ends with. -/
inductive CmdTurn where
  | next (s : CmdParse)
  | done (s : CmdParse)
  | error (s : CmdParse)

/-- What a line feed behind an argument leads to. -/
inductive CmdNext where
  | go (arg : CmdArg)
  | done
  | error
  deriving DecidableEq

section Branches

variable (type : CmdType) (rnarg narg : ℕ)

/-- `SW_KEY_LF` -/
def afterKey : CmdNext :=
  if type.redisArg0 then if rnarg ≠ 0 then .error else .done
  else if type.redisArg1 then if rnarg ≠ 1 then .error else .go .arg1
  else if type.redisArg2 then if rnarg ≠ 2 then .error else .go .arg1
  else if type.redisArg3 then if rnarg ≠ 3 then .error else .go .arg1
  else if type.redisArgn then if rnarg = 0 then .done else .go .arg1
  else if type.redisArgx then if rnarg = 0 then .done else .go .key
  else if type.redisArgkvx then
    if rnarg = 0 then .done else if narg % 2 = 0 then .error else .go .arg1
  else if type.redisArgeval then if rnarg = 0 then .done else .go .argn
  else .error

/-- `SW_ARG1_LF` -/
def afterArg1 : CmdNext :=
  if type.redisArg1 then if rnarg ≠ 0 then .error else .done
  else if type.redisArg2 then if rnarg ≠ 1 then .error else .go .arg2
  else if type.redisArg3 then if rnarg ≠ 2 then .error else .go .arg2
  else if type.redisArgn then if rnarg = 0 then .done else .go .argn
  else if type.redisArgeval then if rnarg < 2 then .error else .go .arg2
  else if type.redisArgkvx then if rnarg = 0 then .done else .go .key
  else .error

/-- `SW_ARG2_LF` -/
def afterArg2 : CmdNext :=
  if type.redisArg2 then if rnarg ≠ 0 then .error else .done
  else if type.redisArg3 then if rnarg ≠ 1 then .error else .go .arg3
  else if type.redisArgn then if rnarg = 0 then .done else .go .argn
  else if type.redisArgeval then if rnarg < 1 then .error else .go .key
  else .error

/-- `SW_ARG3_LF` -/
def afterArg3 : CmdNext :=
  if type.redisArg3 then if rnarg ≠ 0 then .error else .done
  else if type.redisArgn then if rnarg = 0 then .done else .go .argn
  else .error

/-- `SW_ARGN_LF` -/
def afterArgn : CmdNext :=
  if type.redisArgn || type.redisArgeval then if rnarg = 0 then .done else .go .argn else .error

def afterArg : CmdArg → CmdNext
  | .key => afterKey type rnarg narg
  | .arg1 => afterArg1 type rnarg
  | .arg2 => afterArg2 type rnarg
  | .arg3 => afterArg3 type rnarg
  | .argn => afterArgn type rnarg

end Branches

/-- The number of keys that `EVAL` announces; nothing where it is no number. -/
def evalKeys (token : Text) : Option ℕ :=
  if token.length < 1 ∨ !token.all isDigit then none
  else some (token.foldl (fun nkey chp ↦ (nkey * 10 + (chp.toNat - 48)) % 2 ^ 32) 0)

namespace CmdParse

/-- A digit of a length; `uint32_t` wraps around. -/
def addDigit (rlen : ℕ) (ch : Byte) : ℕ := (rlen * 10 + (ch.toNat - 48)) % 2 ^ 32

/-- `SW_START` and `SW_NARG` -/
def nargTurn (s : CmdParse) (ch : Byte) : CmdTurn :=
  match s.token with
  | none =>
      if ch ≠ 42 then .error s
      else .next { s with token := some s.p, rnarg := 0, state := .narg }
  | some _ =>
      if isDigit ch then .next { s with rnarg := addDigit s.rnarg ch }
      else if ch = 13 then
        if s.rnarg = 0 then .error s
        else .next { s with narg := s.rnarg, token := none, state := .nargLf }
      else .error s

/-- The states that wait for a line feed. -/
def lineFeed (s : CmdParse) (ch : Byte) (state : CmdState) : CmdTurn :=
  if ch = 10 then .next { s with state } else .error s

/-- `SW_REQ_TYPE_LEN` -/
def reqTypeLenTurn (s : CmdParse) (ch : Byte) : CmdTurn :=
  match s.token with
  | none => if ch ≠ 36 then .error s else .next { s with token := some s.p, rlen := 0 }
  | some _ =>
      if isDigit ch then .next { s with rlen := addDigit s.rlen ch }
      else if ch = 13 then
        if s.rlen = 0 ∨ s.rnarg = 0 then .error s
        else .next { s with rnarg := s.rnarg - 1, token := none, state := .reqTypeLenLf }
      else .error s

/-- `SW_REQ_TYPE` -/
def reqTypeTurn (cmd : Text) (s : CmdParse) : CmdTurn :=
  let token := s.token.getD s.p
  let s := { s with token := some token }
  let m := token + s.rlen
  if cmd[m]? ≠ some 13 then .error s
  else
    let type := commandType (m - token) (cmd.drop token)
    let s := { s with p := m, rlen := 0, token := none, type }
    if type = .unknown then .error s else .next { s with state := .reqTypeLf }

/-- `SW_REQ_TYPE_LF` -/
def reqTypeLfTurn (s : CmdParse) (ch : Byte) : CmdTurn :=
  if ch = 10 then
    if s.type.redisArgz then .done s
    else if s.type.redisArgeval then .next { s with state := .len .arg1 }
    else .next { s with state := .len .key }
  else .error s

/-- `SW_KEY_LEN` and `SW_ARG1_LEN` to `SW_ARGN_LEN`: a key may have no digit in its length. -/
def lenTurn (s : CmdParse) (arg : CmdArg) (ch : Byte) : CmdTurn :=
  match s.token with
  | none => if ch ≠ 36 then .error s else .next { s with token := some s.p, rlen := 0 }
  | some token =>
      if isDigit ch then .next { s with rlen := addDigit s.rlen ch }
      else if ch = 13 then
        if arg ≠ .key ∧ s.p - token ≤ 1 ∨ s.rnarg = 0 then .error s
        else .next { s with rnarg := s.rnarg - 1, token := none, state := .lenLf arg }
      else .error s

/-- `SW_KEY` -/
def keyTurn (cmd : Text) (s : CmdParse) : CmdTurn :=
  let token := s.token.getD s.p
  let s := { s with token := some token }
  let m := token + s.rlen
  if cmd[m]? ≠ some 13 then .error s
  else .next { s with
    p := m, rlen := 0, token := none, keys := s.keys ++ [⟨token, m⟩], state := .dataLf .key }

/-- `SW_ARG1`, `SW_ARG3` and `SW_ARGN` -/
def argTurn (cmd : Text) (s : CmdParse) (arg : CmdArg) : CmdTurn :=
  let m := s.p + s.rlen
  if cmd[m]? ≠ some 13 then .error s
  else .next { s with p := m, rlen := 0, state := .dataLf arg }

/-- `SW_ARG2`: for `EVAL` it is the number of keys. -/
def arg2Turn (cmd : Text) (s : CmdParse) : CmdTurn :=
  let token := s.token.getD s.p
  let s := if s.type.redisArgeval then { s with token := some token } else s
  let m := s.p + s.rlen
  if cmd[m]? ≠ some 13 then .error s
  else
    let s := { s with p := m, rlen := 0 }
    if s.type.redisArgeval then
      match evalKeys ((cmd.take m).drop token) with
      | none => .error s
      | some nkey =>
          if nkey = 0 then .error s else .next { s with token := none, state := .dataLf .arg2 }
    else .next { s with state := .dataLf .arg2 }

def dataTurn (cmd : Text) (s : CmdParse) : CmdArg → CmdTurn
  | .key => s.keyTurn cmd
  | .arg2 => s.arg2Turn cmd
  | arg => s.argTurn cmd arg

/-- `SW_KEY_LF` and `SW_ARG1_LF` to `SW_ARGN_LF` -/
def dataLfTurn (s : CmdParse) (arg : CmdArg) (ch : Byte) : CmdTurn :=
  if ch = 10 then
    match afterArg s.type s.rnarg s.narg arg with
    | .done => .done s
    | .error => .error s
    | .go arg => .next { s with state := .len arg }
  else .error s

/-- One turn of the loop. -/
def turn (cmd : Text) (s : CmdParse) (ch : Byte) : CmdTurn :=
  match s.state with
  | .start => s.nargTurn ch
  | .narg => s.nargTurn ch
  | .nargLf => s.lineFeed ch .reqTypeLen
  | .reqTypeLen => s.reqTypeLenTurn ch
  | .reqTypeLenLf => s.lineFeed ch .reqType
  | .reqType => s.reqTypeTurn cmd
  | .reqTypeLf => s.reqTypeLfTurn ch
  | .len arg => s.lenTurn arg ch
  | .lenLf arg => s.lineFeed ch (.data arg)
  | .data arg => s.dataTurn cmd arg
  | .dataLf arg => s.dataLfTurn arg ch

/-- The loop; `p` grows in each turn. -/
def loop (cmd : Text) : ℕ → CmdParse → CmdTurn
  | 0, s => .done s
  | fuel + 1, s =>
      match cmd[s.p]? with
      | none => .done s
      | some ch =>
          match s.turn cmd ch with
          | .next s => loop cmd fuel { s with p := s.p + 1 }
          | .done s => .done s
          | .error s => .error s

/-- The values at the start, those of `command_get` included. -/
def init : CmdParse := ⟨0, .start, none, 0, 0, .unknown, 0, []⟩

end CmdParse

/-- `cmd` after `redis_parse_cmd`, as far as it is read. -/
structure ParsedCmd where
  type : CmdType
  narg : ℕ
  keys : List KeyPos
  deriving DecidableEq

/-- `errstr` -/
def parseError (s : CmdParse) : Text :=
  lit "Parse command error. Cmd type: " ++ Logstream.printD s.type.ctorIdx ++ lit ", state: " ++
    Logstream.printD s.state.number ++ lit ", break position: " ++ Logstream.printD s.p ++ lit "."

/-- `redis_parse_cmd`: `CMD_PARSE_OK`, or the text of `CMD_PARSE_ERROR`. -/
def redisParseCmd (cmd : Text) : Except Text ParsedCmd :=
  match CmdParse.loop cmd cmd.length .init with
  | .error s => .error (parseError s)
  | .done s => .ok ⟨s.type, s.narg, s.keys⟩
  | .next s => .ok ⟨s.type, s.narg, s.keys⟩

end Redis

end Slience
