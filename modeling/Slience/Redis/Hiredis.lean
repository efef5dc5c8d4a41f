import Slience.Redis.CommandImage

/-!
# A connection of hiredis

`redisContext` with its output buffer and its reader (`hiredis.cpp`): commands are appended to the
buffer, which `redisBufferWrite` gives to the socket as far as it takes it; `redisBufferRead`
feeds the reader, and `redisGetReply` of a blocking connection does both until there is a reply.

What `send` and `recv` do is given with each call.  As in the reader there is no result where a
buffer would grow to `2 ^ 31` bytes.
-/

namespace Slience

namespace Redis

/-- The `errno` behind a call of `send` or `recv`; another one is known by its `strerror`. -/
inductive SocketError where
  | again
  | interrupted
  | other (text : Text)
  deriving DecidableEq

def SocketError.text : SocketError → Text
  | again => lit "Resource temporarily unavailable"
  | interrupted => lit "Interrupted system call"
  | other text => text

/-- `redisContext`, as far as the functions below use it; `block` is the flag `REDIS_BLOCK`. -/
structure HiredisContext where
  err : Option RedisError
  block : Bool
  obuf : Text
  reader : RedisReader

def redisErrIO : ℕ := 1

def redisErrOther : ℕ := 2

def redisErrEOF : ℕ := 3

namespace HiredisContext

/-- `redisContextInit` -/
def init (block : Bool) : HiredisContext := ⟨none, block, [], .create⟩

/-- `__redisSetError` -/
def setError (c : HiredisContext) (type : ℕ) (str : Text) : HiredisContext :=
  { c with err := some ⟨type, str.take 127⟩ }

/-- Whether the call is made again later. -/
def tryAgain (c : HiredisContext) (e : SocketError) : Bool :=
  e = .again && !c.block || e = .interrupted

/-- `redisBufferRead`, where `recv` gives these bytes; `true` is `REDIS_OK`. -/
def redisBufferRead (c : HiredisContext) (received : Except SocketError Text) :
    Option (Bool × HiredisContext) :=
  if c.err.isSome then some (false, c)
  else match received with
    | .error e =>
        if c.tryAgain e then some (true, c) else some (false, c.setError redisErrIO e.text)
    | .ok [] => some (false, c.setError redisErrEOF (lit "Server closed the connection"))
    | .ok buf =>
        (c.reader.feed buf).map fun (ok, reader) ↦
          match reader.err with
          | some e => (ok, { c with reader }.setError e.err e.errstr)
          | none => (ok, { c with reader })

/-- `redisBufferWrite`, where `send` takes so many bytes: nothing is `REDIS_ERR`, and otherwise it
says whether the buffer is empty. -/
def redisBufferWrite (c : HiredisContext) (nwritten : Except SocketError ℕ) :
    Option Bool × HiredisContext :=
  if c.err.isSome then (none, c)
  else if c.obuf = [] then (some true, c)
  else match nwritten with
    | .error e => if c.tryAgain e then (some false, c) else (none, c.setError redisErrIO e.text)
    | .ok n => (some (c.obuf.drop n = []), { c with obuf := c.obuf.drop n })

/-- `__redisAppendCommand` -/
def appendCommand (c : HiredisContext) (cmd : Text) : Option HiredisContext :=
  if c.obuf.length + cmd.length < 2 ^ 31 then some { c with obuf := c.obuf ++ cmd } else none

/-- `redisAppendCommandArgv` -/
def redisAppendCommandArgv (c : HiredisContext) (argv : List Text) : Option HiredisContext := do
  let cmd ← redisFormatSdsCommandArgv argv
  c.appendCommand cmd

/-- `redisvAppendCommand`, and the arguments of the command; there are none where the format is
invalid. -/
def redisvAppendCommand (printf : Text → VaArg → Text) (c : HiredisContext) (format : Text)
    (ap : List VaArg) : Option (Option (List Text) × HiredisContext) := do
  let (argv, _) ← redisvFormatCommand printf format ap
  match argv with
  | none => some (none, c.setError redisErrOther (lit "Invalid format string"))
  | some argv => do
      let cmd ← redisFormatCommandArgv argv
      let c ← c.appendCommand cmd
      some (some argv, c)

/-- `redisGetReplyFromReader`: nothing is `REDIS_ERR`. -/
def redisGetReplyFromReader (c : HiredisContext) :
    Option (Option (Option ReplyObject) × HiredisContext) :=
  c.reader.getReply.map fun (answer, reader) ↦
    match answer with
    | .ok reply => (some reply, { c with reader })
    | .error e => (none, { c with reader }.setError e.err e.errstr)

/-- The loop that writes until `wdone`; it has no result where `send` is called more often. -/
def writeLoop : List (Except SocketError ℕ) → HiredisContext → Option (Bool × HiredisContext)
  | sends, c =>
      if c.err.isSome then some (false, c)
      else if c.obuf = [] then some (true, c)
      else match sends with
        | [] => none
        | nwritten :: sends =>
            match c.redisBufferWrite nwritten with
            | (none, c) => some (false, c)
            | (some true, c) => some (true, c)
            | (some false, c) => writeLoop sends c

/-- The loop that reads until there is a reply; it has no result where `recv` is called more
often. -/
def readLoop : List (Except SocketError Text) → HiredisContext →
    Option (Option ReplyObject × HiredisContext)
  | [], c => if c.err.isSome then some (none, c) else none
  | received :: recvs, c => do
      let (ok, c) ← c.redisBufferRead received
      if ok then
        let (answer, c) ← c.redisGetReplyFromReader
        match answer with
        | none => some (none, c)
        | some none => readLoop recvs c
        | some (some reply) => some (some reply, c)
      else some (none, c)

/-- `redisGetReply`: nothing is `REDIS_ERR`, or a connection that does not block and has no reply
yet. -/
def redisGetReply (c : HiredisContext) (sends : List (Except SocketError ℕ))
    (recvs : List (Except SocketError Text)) : Option (Option ReplyObject × HiredisContext) := do
  let (answer, c) ← c.redisGetReplyFromReader
  match answer with
  | none => some (none, c)
  | some (some reply) => some (some reply, c)
  | some none =>
      if c.block then
        let (ok, c) ← writeLoop sends c
        if ok then readLoop recvs c else some (none, c)
      else some (none, c)

/-- `redisCommandArgv` -/
def redisCommandArgv (c : HiredisContext) (argv : List Text)
    (sends : List (Except SocketError ℕ)) (recvs : List (Except SocketError Text)) :
    Option (Option ReplyObject × HiredisContext) := do
  let c ← c.redisAppendCommandArgv argv
  if c.block then c.redisGetReply sends recvs else some (none, c)

end HiredisContext

end Redis

end Slience
