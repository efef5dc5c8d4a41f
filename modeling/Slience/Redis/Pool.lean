import Mathlib.Logic.Function.Basic
import Slience.Lib.Run
import Slience.Redis.Address

/-!
# The pool of redis connections

Each thread has a pool of its own: `_info` finds a connection by the id of its server, and
`_revinfo` finds this id again when the connection is released.  A `RedisConnection` is a
shared pointer to a `_rediscontext_`, so that its copies see the `redisContext` go when one
of them is released.  What the network answers is a parameter of a call.
-/

namespace Slience

namespace Redis

/-- `_rediscontext_`; a `redisContext` is the number of the connect that made it. -/
structure RedisContext where
  context : Option ℕ
  ip : String
  port : UInt16
  db : UInt16
  deriving DecidableEq

/-- What `_selectdb` reads of a `redisReply`. -/
structure RedisReply where
  type : ℕ
  str : String

def redisReplyStatus : ℕ := 5

def redisReplyError : ℕ := 6

/-- The answers of the network to one `GetConnection`: `err` and `errstr` of the new context, or
a null pointer, and the reply to `select`, or the `errstr` that comes with a null reply. -/
structure Network where
  connect : Option (ℤ × String)
  select : Except String RedisReply

/-- The arguments of `GetConnection`; with two of them, `database` is 0. -/
structure Request where
  ip : String
  port : UInt16
  database : UInt16
  net : Network

/-- What a connection asks for when it lost its server. -/
def RedisContext.again (c : RedisContext) (net : Network) : Request :=
  ⟨c.ip, c.port, c.db, net⟩

/-- What one thread has: its `_redisinfo_`, the `_rediscontext_` objects it made, how many
`redisContext`s it was given, those it freed, and its variables of type `RedisConnection`. -/
structure RedisThread where
  info : UInt64 → Option ℕ
  revinfo : ℕ → Option UInt64
  cells : List RedisContext
  opened : ℕ
  freed : List ℕ
  conns : ℕ → Option ℕ

def Request.uniqueId (r : Request) : UInt64 := threeOnlyId (inetAddr r.ip) r.port r.database

/-- `RedisPool::_selectdb` -/
def selectdb (context : Option ℕ) (select : Except String RedisReply) : Except String Bool :=
  match context, select with
  | none, _ => .ok false
  | some _, .error errstr => .error errstr
  | some _, .ok reply =>
      if reply.type = redisReplyError then .error reply.str
      else if reply.type ≠ redisReplyStatus then .error "not defined error"
      else if reply.str.toLower ≠ "ok" then .error reply.str
      else .ok true

/-- The `try` block of `GetConnection`. -/
def Request.check (r : Request) (context : Option ℕ) : Except String Unit :=
  match r.net.connect with
  | none => .error "redisConnect fail"
  | some (err, errstr) =>
      if err ≠ 0 then .error errstr
      else if r.database = 0 then .ok ()
      else match selectdb context r.net.select with
        | .error what => .error what
        | .ok true => .ok ()
        | .ok false => .error "select db error"

namespace RedisThread

/-- A thread before its first call. -/
def init : RedisThread where
  info := fun _ ↦ none
  revinfo := fun _ ↦ none
  cells := []
  opened := 0
  freed := []
  conns := fun _ ↦ none

def redisConnectWithTimeout (s : RedisThread) (net : Network) : Option ℕ × RedisThread :=
  match net.connect with
  | none => (none, s)
  | some _ => (some s.opened, { s with opened := s.opened + 1 })

/-- `redisFree` of a null pointer does nothing. -/
def redisFree (s : RedisThread) : Option ℕ → RedisThread
  | none => s
  | some context => { s with freed := context :: s.freed }

/-- A new `_rediscontext_` in both maps. -/
def store (s : RedisThread) (r : Request) (context : Option ℕ) : RedisThread :=
  { s with
    cells := s.cells ++ [⟨context, r.ip, r.port, r.database⟩]
    info := Function.update s.info r.uniqueId (some s.cells.length)
    revinfo := Function.update s.revinfo s.cells.length (some r.uniqueId) }

/-- `RedisPool::GetConnection`, with the text of its exception. -/
def getConnection (s : RedisThread) (r : Request) : Except String ℕ × RedisThread :=
  match s.info r.uniqueId with
  | some ptr => (.ok ptr, s)
  | none =>
      let (context, s) := s.redisConnectWithTimeout r.net
      match r.check context with
      | .error what => (.error what, s.redisFree context)
      | .ok () => (.ok s.cells.length, s.store r context)

/-- `context->_context` -/
def contextOf (s : RedisThread) (ptr : ℕ) : Option ℕ := s.cells[ptr]?.bind (·.context)

/-- The part of `_releaseConnection` that takes the connection out of the maps. -/
def unfile (s : RedisThread) (ptr : ℕ) : RedisThread :=
  match s.revinfo ptr with
  | none => s
  | some uniqueId =>
      { s with
        info := Function.update s.info uniqueId none
        revinfo := Function.update s.revinfo ptr none }

/-- `RedisPool::_releaseConnection` -/
def release (s : RedisThread) (ptr : ℕ) : RedisThread :=
  let s := (s.unfile ptr).redisFree (s.contextOf ptr)
  { s with cells := s.cells.modify ptr fun c ↦ { c with context := none } }

def setConn (s : RedisThread) (x : ℕ) (conn : Option ℕ) : RedisThread :=
  { s with conns := Function.update s.conns x conn }

/-- `RedisPool::ReleaseConnection` -/
def releaseConnection (s : RedisThread) (x : ℕ) : RedisThread :=
  match s.conns x with
  | none => s
  | some ptr => (s.release ptr).setConn x none

/-- The variable `x` when it passes `M_CHECK_REDIS_CONTEXT`. -/
def connected (s : RedisThread) (x : ℕ) : Option RedisContext :=
  match (s.conns x).bind fun ptr ↦ s.cells[ptr]? with
  | none => none
  | some c => if c.context.isSome then some c else none

/-- `w_redisCommand` behind the check its callers make: whether the first attempt got a reply,
and the network for the attempt to connect again. -/
def redisCommand (s : RedisThread) (x : ℕ) (answered : Bool) (net : Network) :
    Except String Unit × RedisThread :=
  match s.connected x with
  | none => (.error "redis is not connected", s)
  | some c =>
      if answered then (.ok (), s)
      else match (s.releaseConnection x).getConnection (c.again net) with
        | (.error what, s) => (.error what, s)
        | (.ok ptr, s) => (.ok (), s.setConn x (some ptr))

end RedisThread

/-- What a thread does with its variables.  A command that got no reply twice is followed by
a `release`. -/
inductive Call
  | get (x : ℕ) (r : Request)
  | release (x : ℕ)
  | command (x : ℕ) (answered : Bool) (net : Network)
  | copy (x y : ℕ)
  | drop (x : ℕ)

namespace RedisThread

def next (s : RedisThread) : Call → RedisThread
  | .get x r =>
      match s.getConnection r with
      | (.error _, s) => s
      | (.ok ptr, s) => s.setConn x (some ptr)
  | .release x => s.releaseConnection x
  | .command x answered net => (s.redisCommand x answered net).2
  | .copy x y => s.setConn x (s.conns y)
  | .drop x => s.setConn x none

/-- The calls of one thread in any order. -/
def system : System RedisThread Call where
  enabled := fun _ _ ↦ True
  step := fun s call ↦ some (s.next call)

/-- The `GetConnection` in a call, with the state it is made in. -/
def asks (s : RedisThread) : Call → Option (RedisThread × Request)
  | .get _ r => some (s, r)
  | .command x false net =>
      (s.connected x).map fun c ↦ (s.releaseConnection x, c.again net)
  | _ => none

end RedisThread

end Redis

end Slience
