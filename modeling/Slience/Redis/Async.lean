import Slience.Redis.Dict
import Slience.Redis.Hiredis

/-!
# The asynchronous client

`redisAsyncContext` (`async.cpp`): every command is given with a callback, which runs with the
reply, or without one when the context is freed.  A callback may give further commands, and may
disconnect or free the context it is called from; this takes effect when it has returned.

The callbacks of an application are programs that call the library and see what it returns.  The
hooks for an event library, and the callbacks of the connect and the disconnect, are not set.  An
`assert` that fails, and what the buffers cannot hold, has no result.
-/

namespace Slience

namespace Redis

/-- `redisCallback`: the function, or `NULL`, and its `privdata`. -/
structure AsyncCallback where
  fn : Option ℕ
  privdata : ℕ
  deriving DecidableEq

/-- `redisAsyncCommandArgv`, `redisAsyncDisconnect` and `redisAsyncFree`. -/
inductive UserCall where
  | command (cb : AsyncCallback) (argv : List Text)
  | disconnect
  | free

/-- What a callback does: calls, whose results it sees, and changes of its own data. -/
inductive Program (σ : Type) where
  | done (user : σ)
  | call (c : UserCall) (next : Bool → Program σ)

/-- The code of an application. -/
abbrev Handler (σ : Type) := ℕ → ℕ → Option ReplyObject → σ → Program σ

/-- The flags `REDIS_CONNECTED` to `REDIS_MONITORING`. -/
structure AsyncFlags where
  connected : Bool
  disconnecting : Bool
  freeing : Bool
  inCallback : Bool
  subscribed : Bool
  monitoring : Bool
  deriving DecidableEq

/-- `redisAsyncContext`, with the data of the application, whether it was freed, the commands that
were accepted, the replies that were taken from the reader and the callbacks that were run. -/
structure AsyncContext (σ : Type) where
  c : HiredisContext
  flags : AsyncFlags
  err : Option RedisError
  replies : List AsyncCallback
  invalid : List AsyncCallback
  channels : Dict Text AsyncCallback
  patterns : Dict Text AsyncCallback
  user : σ
  freed : Bool
  accepted : List (AsyncCallback × List Text)
  taken : List ReplyObject
  ran : List (AsyncCallback × Option ReplyObject)

/-! ## The name of a command -/

def toLower (b : Byte) : Byte := if 65 ≤ b ∧ b ≤ 90 then b + 32 else b

/-- `strchr`, in a string that ends with its first zero. -/
def strchr (c : Byte) : Text → Option Text
  | [] => none
  | b :: s => if b = c then some (b :: s) else if b = 0 then none else strchr c s

/-- The number that `strtol` reads, for one without blanks and sign. -/
def argumentLength (s : Text) : ℕ :=
  (s.takeWhile isDigit).foldl (fun v d ↦ v * 10 + (d.toNat - 48)) 0

/-- `nextArgument`: the argument and what is from it on, its length, and what is behind it. -/
def nextArgument (start : Text) : Option (Option (Text × ℕ × Text)) :=
  match start with
  | [] => none
  | b :: _ =>
      match if b = 36 then some start else strchr 36 start with
      | none => some none
      | some p =>
          (strchr 13 p).map fun q ↦
            let len := argumentLength (p.drop 1)
            some (q.drop 2, len, q.drop (len + 4))

/-- What `__redisAsyncCommand` makes of a command; a subscription has more arguments. -/
inductive CommandKind where
  | subscribe (pvariant : Bool) (p : Text)
  | unsubscribe
  | monitor
  | other
  deriving DecidableEq

def commandKind (cmd : Text) : Option CommandKind := do
  let first ← nextArgument (cmd ++ [0])
  let (cstr, _, p) ← first
  let next ← p.head?
  let pvariant := toLower (cstr.headD 0) == 112
  let name := (cstr.drop pvariant.toNat).map toLower
  if next == 36 && name.take 11 == lit "subscribe\r\n" then some (.subscribe pvariant p)
  else if name.take 13 == lit "unsubscribe\r\n" then some .unsubscribe
  else if name.take 9 == lit "monitor\r\n" then some .monitor
  else some .other

/-- `callbackHash`, the function `dictGenHashFunction` of the bytes. -/
def callbackHash (key : Text) : UInt32 :=
  key.foldl (fun hash c ↦ (hash <<< 5) + hash + c.toUInt32) 5381

/-- The loop of a subscription. -/
def subscribeAll (cb : AsyncCallback) :
    ℕ → Text → Dict Text AsyncCallback → Option (Dict Text AsyncCallback)
  | 0, _, _ => none
  | fuel + 1, p, callbacks => do
      let next ← nextArgument p
      match next with
      | none => some callbacks
      | some (astr, alen, p) =>
          let (callbacks, _) ← callbacks.dictReplace callbackHash (astr.take alen) cb
          subscribeAll cb fuel p callbacks

namespace AsyncContext

variable {σ : Type}

/-- `redisAsyncInitialize`, for a context that does not block. -/
def init (user : σ) : AsyncContext σ where
  c := .init false
  flags := ⟨false, false, false, false, false, false⟩
  err := none
  replies := []
  invalid := []
  channels := .create
  patterns := .create
  user := user
  freed := false
  accepted := []
  taken := []
  ran := []

/-! ## Commands -/

/-- The command goes to the output buffer. -/
def append (ac : AsyncContext σ) (cb : AsyncCallback) (argv : List Text) (cmd : Text) :
    Option (AsyncContext σ × Bool) :=
  (ac.c.appendCommand cmd).map fun c ↦
    ({ ac with c, accepted := ac.accepted ++ [(cb, argv)] }, true)

/-- The callbacks of a subscription are set. -/
def subscribe (ac : AsyncContext σ) (cb : AsyncCallback) (pvariant : Bool) (p : Text) :
    Option (AsyncContext σ) := do
  let ac := { ac with flags := { ac.flags with subscribed := true } }
  if pvariant then
    let patterns ← subscribeAll cb p.length p ac.patterns
    some { ac with patterns }
  else
    let channels ← subscribeAll cb p.length p ac.channels
    some { ac with channels }

/-- The callback of a command that gets one reply, where the context is subscribed or not. -/
def pushCallback (ac : AsyncContext σ) (cb : AsyncCallback) : AsyncContext σ :=
  if ac.flags.subscribed then { ac with invalid := ac.invalid ++ [cb] }
  else { ac with replies := ac.replies ++ [cb] }

/-- `__redisAsyncCommand`, with whether it returns `REDIS_OK`. -/
def asyncCommand (ac : AsyncContext σ) (cb : AsyncCallback) (argv : List Text) (cmd : Text) :
    Option (AsyncContext σ × Bool) :=
  if ac.flags.disconnecting || ac.flags.freeing then some (ac, false)
  else do
    let kind ← commandKind cmd
    match kind with
    | .subscribe pvariant p =>
        let ac ← ac.subscribe cb pvariant p
        ac.append cb argv cmd
    | .unsubscribe => if ac.flags.subscribed then ac.append cb argv cmd else some (ac, false)
    | .monitor =>
        ({ ac with
          flags := { ac.flags with monitoring := true }
          replies := ac.replies ++ [cb] } : AsyncContext σ).append cb argv cmd
    | .other => (ac.pushCallback cb).append cb argv cmd

/-- `redisAsyncCommandArgv` -/
def redisAsyncCommandArgv (ac : AsyncContext σ) (cb : AsyncCallback) (argv : List Text) :
    Option (AsyncContext σ × Bool) := do
  let cmd ← redisFormatSdsCommandArgv argv
  ac.asyncCommand cb argv cmd

/-! ## Callbacks -/

/-- The calls in a callback: the context is not freed there. -/
def callInside (ac : AsyncContext σ) : UserCall → Option (AsyncContext σ × Bool)
  | .command cb argv => ac.redisAsyncCommandArgv cb argv
  | .disconnect => some ({ ac with flags := { ac.flags with disconnecting := true } }, true)
  | .free => some ({ ac with flags := { ac.flags with freeing := true } }, true)

def runProgram : Program σ → AsyncContext σ → Option (AsyncContext σ)
  | .done user, ac => some { ac with user }
  | .call c next, ac => (ac.callInside c).bind fun (ac, ok) ↦ runProgram (next ok) ac

variable (handler : Handler σ)

/-- `__redisRunCallback` -/
def runCallback (ac : AsyncContext σ) (cb : AsyncCallback) (reply : Option ReplyObject) :
    Option (AsyncContext σ) :=
  match cb.fn with
  | none => some ac
  | some fn => do
      let ac ← runProgram (handler fn cb.privdata reply ac.user)
        { ac with flags := { ac.flags with inCallback := true }, ran := ac.ran ++ [(cb, reply)] }
      some { ac with flags := { ac.flags with inCallback := false } }

/-- `while (__redisShiftCallback(&ac->replies, &cb) == REDIS_OK)`; no callback is added. -/
def drainReplies (fuel : ℕ) (ac : AsyncContext σ) : Option (AsyncContext σ) :=
  match ac.replies with
  | [] => some ac
  | cb :: replies =>
      match fuel with
      | 0 => none
      | fuel + 1 => ({ ac with replies }.runCallback handler cb none).bind (drainReplies fuel)

/-- `while (__redisShiftCallback(&ac->sub.invalid, &cb) == REDIS_OK)` -/
def drainInvalid (fuel : ℕ) (ac : AsyncContext σ) : Option (AsyncContext σ) :=
  match ac.invalid with
  | [] => some ac
  | cb :: invalid =>
      match fuel with
      | 0 => none
      | fuel + 1 => ({ ac with invalid }.runCallback handler cb none).bind (drainInvalid fuel)

/-- The callbacks of one table of subscriptions. -/
def drainTable (callbacks : AsyncContext σ → Dict Text AsyncCallback) :
    ℕ → Dict.Iterator → AsyncContext σ → Option (AsyncContext σ)
  | 0, _, _ => none
  | fuel + 1, it, ac => do
      let (de, it) ← (callbacks ac).dictNext it
      match de with
      | none => some ac
      | some de => (ac.runCallback handler de.val none).bind (drainTable callbacks fuel it)

/-- `__redisAsyncFree` -/
def asyncFree (ac : AsyncContext σ) : Option (AsyncContext σ) := do
  let ac ← ac.drainReplies handler ac.replies.length
  let ac ← ac.drainInvalid handler ac.invalid.length
  let ac ← drainTable handler channels (ac.channels.used + 1) Dict.getIterator ac
  let ac := { ac with channels := ac.channels.dictClear }
  let ac ← drainTable handler patterns (ac.patterns.used + 1) Dict.getIterator ac
  some { ac with patterns := ac.patterns.dictClear, freed := true }

/-- `__redisAsyncDisconnect` -/
def asyncDisconnect (ac : AsyncContext σ) : Option (AsyncContext σ) :=
  let ac := { ac with err := ac.c.err }
  match ac.err with
  | none => if ac.replies = [] then ac.asyncFree handler else none
  | some _ => { ac with flags := { ac.flags with disconnecting := true } }.asyncFree handler

/-- `redisAsyncFree` -/
def redisAsyncFree (ac : AsyncContext σ) : Option (AsyncContext σ) :=
  let ac := { ac with flags := { ac.flags with freeing := true } }
  if ac.flags.inCallback then some ac else ac.asyncFree handler

/-- `redisAsyncDisconnect` -/
def redisAsyncDisconnect (ac : AsyncContext σ) : Option (AsyncContext σ) :=
  let ac := { ac with flags := { ac.flags with disconnecting := true } }
  if ac.flags.inCallback = false ∧ ac.replies = [] then ac.asyncDisconnect handler else some ac

/-- A call from outside of a callback. -/
def callOutside (ac : AsyncContext σ) : UserCall → Option (AsyncContext σ)
  | .command cb argv => (ac.redisAsyncCommandArgv cb argv).map Prod.fst
  | .disconnect => ac.redisAsyncDisconnect handler
  | .free => ac.redisAsyncFree handler

/-! ## Replies -/

/-- `reply->element[i]->str` of a `REDIS_REPLY_STRING` -/
def elementText : Option ReplyObject → Option Text
  | some (.string .string str) => some str
  | _ => none

/-- `reply->element[i]->integer` of a `REDIS_REPLY_INTEGER` -/
def elementNumber : Option ReplyObject → Option ℤ
  | some (.integer n) => some n
  | _ => none

/-- `__redisGetSubscribeCallback` for the elements of an array. -/
def subscribedCallback (ac : AsyncContext σ) (element : List (Option ReplyObject))
    (dstcb : AsyncCallback) : Option (AsyncContext σ × AsyncCallback) := do
  let stype ← element[0]?.bind elementText
  let sname ← element[1]?.bind elementText
  let pvariant := toLower (stype.headD 0) == 112
  let callbacks := if pvariant then ac.patterns else ac.channels
  let found ← callbacks.dictFind callbackHash sname
  match found with
  | none => some (ac, dstcb)
  | some de =>
      let name := ((stype.drop pvariant.toNat).takeWhile (· ≠ 0)).map toLower
      if name = lit "unsubscribe" then do
        let (callbacks, _) ← callbacks.dictDelete callbackHash sname
        let ac := if pvariant then { ac with patterns := callbacks }
          else { ac with channels := callbacks }
        let count ← element[2]?.bind elementNumber
        some (if count = 0 then { ac with flags := { ac.flags with subscribed := false } } else ac,
          de.val)
      else some (ac, de.val)

/-- `__redisGetSubscribeCallback` -/
def getSubscribeCallback (ac : AsyncContext σ) (reply : ReplyObject) (dstcb : AsyncCallback) :
    Option (AsyncContext σ × AsyncCallback) :=
  match reply with
  | .array _ element => ac.subscribedCallback element dstcb
  | _ =>
      match ac.invalid with
      | [] => some (ac, dstcb)
      | cb :: invalid => some ({ ac with invalid }, cb)

/-- What a reply leads to before its callback runs: nothing where the connection is given up. -/
def chooseCallback (ac : AsyncContext σ) (cb : AsyncCallback) (reply : ReplyObject) :
    Option (AsyncContext σ × Option AsyncCallback) :=
  match ac.replies with
  | cb :: replies => some ({ ac with replies }, some cb)
  | [] =>
      match reply with
      | .string .error str =>
          some ({ ac with c := { ac.c with
            err := some ⟨redisErrOther, (str.takeWhile (· ≠ 0)).take 127⟩ } }, none)
      | _ =>
          if ac.flags.subscribed then
            (ac.getSubscribeCallback reply cb).map fun (ac, cb) ↦ (ac, some cb)
          else if ac.flags.monitoring then some (ac, some cb)
          else none

/-- The loop of `redisProcessCallbacks`, with its variable `cb`. -/
def processLoop : ℕ → AsyncContext σ → AsyncCallback → Option (AsyncContext σ)
  | 0, _, _ => none
  | fuel + 1, ac, cb => do
      let (answer, c) ← ac.c.redisGetReplyFromReader
      let ac := { ac with c }
      match answer with
      | none => ac.asyncDisconnect handler
      | some none =>
          if ac.flags.disconnecting && ac.c.obuf.isEmpty then ac.asyncDisconnect handler
          else if ac.flags.monitoring then some { ac with replies := ac.replies ++ [cb] }
          else some ac
      | some (some reply) =>
          let (ac, chosen) ← { ac with taken := ac.taken ++ [reply] }.chooseCallback cb reply
          match chosen with
          | none => ac.asyncDisconnect handler
          | some cb => do
              let ac ← ac.runCallback handler cb (some reply)
              if cb.fn.isSome && ac.flags.freeing then ac.asyncFree handler
              else processLoop fuel ac cb

/-- `redisProcessCallbacks`; a reply has at least one byte. -/
def processCallbacks (ac : AsyncContext σ) : Option (AsyncContext σ) :=
  ac.processLoop handler (ac.c.reader.unread.length + 1) ⟨none, 0⟩

/-! ## Events -/

/-- What `redisCheckSocketError` finds. -/
inductive SocketCheck where
  | connected
  | inProgress (text : Text)
  | failed (text : Text)

/-- `__redisAsyncHandleConnect`, and whether the context is connected. -/
def handleConnect (ac : AsyncContext σ) : SocketCheck → Option (AsyncContext σ × Bool)
  | .connected => some ({ ac with flags := { ac.flags with connected := true } }, true)
  | .inProgress text => some ({ ac with c := ac.c.setError redisErrIO text }, false)
  | .failed text =>
      ({ ac with c := ac.c.setError redisErrIO text }.asyncDisconnect handler).map (·, false)

def connect (ac : AsyncContext σ) (check : SocketCheck) : Option (AsyncContext σ × Bool) :=
  if ac.flags.connected then some (ac, true) else ac.handleConnect handler check

/-- `redisAsyncHandleRead` -/
def redisAsyncHandleRead (ac : AsyncContext σ) (check : SocketCheck)
    (received : Except SocketError Text) : Option (AsyncContext σ) := do
  let (ac, connected) ← ac.connect handler check
  if connected then
    let (ok, c) ← ac.c.redisBufferRead received
    let ac : AsyncContext σ := { ac with c }
    if ok then ac.processCallbacks handler else ac.asyncDisconnect handler
  else some ac

/-- `redisAsyncHandleWrite` -/
def redisAsyncHandleWrite (ac : AsyncContext σ) (check : SocketCheck)
    (nwritten : Except SocketError ℕ) : Option (AsyncContext σ) := do
  let (ac, connected) ← ac.connect handler check
  if connected then
    let (done, c) := ac.c.redisBufferWrite nwritten
    let ac : AsyncContext σ := { ac with c }
    if done.isSome then some ac else ac.asyncDisconnect handler
  else some ac

end AsyncContext

end Redis

end Slience
