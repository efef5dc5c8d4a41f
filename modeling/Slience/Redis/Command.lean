import Slience.Redis.FormatWords
import Slience.Redis.Pool

/-!
# A command on a pooled connection

`w_redisCommand` (`redis_pool.cpp`) gives a format and a `va_list` to `redisvCommand`.  When no
reply comes back it connects again and gives the same format and the same `va_list` to
`redisvCommand` once more, which goes on in the list where the first call stopped.  The functions
of `RedisConnection` check the connection before and read the reply behind it.

What the network answers is a function of the command that it gets; the commands that were sent
are kept, each with the `redisContext` that it was sent on.
-/

namespace Slience

namespace Redis

/-- A `const char*`, by the bytes in front of its NUL. -/
structure CString where
  bytes : Text
  noNul : 0 ∉ bytes

def CString.arg (t : CString) : VaArg := .ptr (t.bytes ++ [0])

/-- `t.c_str()` of a `std::string`. -/
def cStr (t : Text) : VaArg := .ptr (t ++ [0])

/-- `redisReply` -/
structure Reply where
  type : ℕ
  integer : ℤ
  str : Text

def redisReplyString : ℕ := 1

def redisReplyInteger : ℕ := 3

def redisReplyNil : ℕ := 4

/-- `reply->len`, an `int`. -/
def Reply.len (r : Reply) : ℤ := (r.str.length : ℤ).bmod (2 ^ 32)

/-- `std::string(reply->str)` -/
def Reply.what (r : Reply) : Text := r.str.takeWhile (· ≠ 0)

inductive Thrown where
  | redisException (what : Text)
  | lengthError
  deriving DecidableEq

def notDefined : Thrown := .redisException (lit "not defined error")

def notConnected : Thrown := .redisException (lit "redis is not connected")

def keyNotExist : Thrown := .redisException (lit "key not exist")

/-- What the network does to one `w_redisCommand`: the reply to the first attempt, the connect
that follows when there is none, and the reply to the second attempt or the `errstr` of the
context. -/
structure Exchange where
  reply : List Text → Option Reply
  net : Network
  again : List Text → Except Text Reply

/-- What one `redisvCommand` leaves: the reply or `errstr`, the command that was sent, and where the
`va_list` stands. -/
structure Attempt where
  reply : Except Text Reply
  sent : List (ℕ × List Text)
  ap : List VaArg

/-- `redisvCommand` on the `redisContext` of this number. -/
def redisvCommand (printf : Text → VaArg → Text) (context : ℕ) (format : Text) (ap : List VaArg)
    (answer : List Text → Except Text Reply) : Option Attempt :=
  match redisvFormatCommand printf format ap with
  | none => none
  | some (none, ap) => some ⟨.error (lit "Invalid format string"), [], ap⟩
  | some (some argv, ap) => some ⟨answer argv, [(context, argv)], ap⟩

/-- What a call leaves: its result or exception, the commands that were sent, and the thread. -/
structure Outcome (α : Type) where
  result : Except Thrown α
  sent : List (ℕ × List Text)
  thread : RedisThread

variable {α : Type}

namespace RedisThread

/-- `w_redisCommand` on the variable `x`; the result is the reply, or `errstr` where it is null. -/
def wRedisCommand (printf : Text → VaArg → Text) (s : RedisThread) (x : ℕ) (c : RedisContext)
    (format : Text) (ap : List VaArg) (e : Exchange) : Option (Outcome (Except Text Reply)) := do
  let context ← c.context
  let first ← redisvCommand printf context format ap fun argv ↦
    (e.reply argv).elim (.error []) .ok
  match first.reply with
  | .ok reply => some ⟨.ok (.ok reply), first.sent, s⟩
  | .error _ =>
      match (s.releaseConnection x).getConnection (c.again e.net) with
      | (.error what, s) => some ⟨.error (.redisException (lit what)), first.sent, s⟩
      | (.ok ptr, s) => do
          let context ← s.contextOf ptr
          let second ← redisvCommand printf context format first.ap e.again
          some ⟨.ok second.reply, first.sent ++ second.sent, s.setConn x (some ptr)⟩

end RedisThread

/-- What is made of the reply; without one the connection is released and `errstr` is thrown. -/
def Outcome.read (o : Outcome (Except Text Reply)) (x : ℕ) (read : Reply → Except Thrown α) :
    Outcome α :=
  match o.result with
  | .error thrown => ⟨.error thrown, o.sent, o.thread⟩
  | .ok (.error errstr) =>
      ⟨.error (.redisException errstr), o.sent, o.thread.releaseConnection x⟩
  | .ok (.ok reply) => ⟨read reply, o.sent, o.thread⟩

/-- A function of `RedisConnection`: the check of the connection, the command, and what is made
of the reply. -/
def RedisThread.command (printf : Text → VaArg → Text) (s : RedisThread) (x : ℕ) (format : Text)
    (ap : List VaArg) (e : Exchange) (read : Reply → Except Thrown α) : Option (Outcome α) :=
  match s.connected x with
  | none => some ⟨.error notConnected, [], s⟩
  | some c => (s.wRedisCommand printf x c format ap e).map fun o ↦ o.read x read

/-- The `do` block of the functions that return `(int)reply->integer`. -/
def readInteger (r : Reply) : Except Thrown ℤ :=
  if r.type = redisReplyError then .error (.redisException r.what)
  else if r.type ≠ redisReplyInteger then .error notDefined
  else .ok (r.integer.bmod (2 ^ 32))

/-- `tolower` of a byte. -/
def lowerByte (b : Byte) : Byte := if 65 ≤ b ∧ b ≤ 90 then b + 32 else b

/-- The `do` block of the functions that expect the status `OK`. -/
def readStatus (r : Reply) : Except Thrown Unit :=
  if r.type = redisReplyError then .error (.redisException r.what)
  else if r.type ≠ redisReplyStatus then .error notDefined
  else if r.what.map lowerByte ≠ lit "ok" then .error (.redisException r.what)
  else .ok ()

variable {printf : Text → VaArg → Text} {s : RedisThread} {x context : ℕ} {c : RedisContext}
  {format : Text} {ap rest : List VaArg} {e : Exchange} {argv : List Text}

theorem Outcome.sent_read (o : Outcome (Except Text Reply)) (x : ℕ)
    (read : Reply → Except Thrown α) : (o.read x read).sent = o.sent := by
  unfold Outcome.read
  split <;> rfl

namespace RedisThread

/-- A command that is answered at once is sent once, and the thread stays as it was. -/
theorem command_answered (h : s.connected x = some c) (hcontext : c.context = some context)
    (hformat : redisvFormatCommand printf format ap = some (some argv, rest)) {reply : Reply}
    (hreply : e.reply argv = some reply) (read : Reply → Except Thrown α) :
    s.command printf x format ap e read = some ⟨read reply, [(context, argv)], s⟩ := by
  have hsend : s.wRedisCommand printf x c format ap e =
      some ⟨.ok (.ok reply), [(context, argv)], s⟩ := by
    simp only [wRedisCommand, hcontext, redisvCommand, hformat, hreply, Option.bind_eq_bind,
      Option.bind_some, Option.elim_some]
  rw [command, h]
  change (s.wRedisCommand printf x c format ap e).map _ = _
  rw [hsend]
  rfl

/-- What a command returns is made of a reply. -/
theorem command_ok {read : Reply → Except Thrown α} {o : Outcome α} {a : α}
    (ho : s.command printf x format ap e read = some o) (hok : o.result = .ok a) :
    ∃ reply, read reply = .ok a := by
  unfold command at ho
  split at ho
  · cases ho
    cases hok
  · obtain ⟨answer, -, rfl⟩ := Option.map_eq_some_iff.mp ho
    unfold Outcome.read at hok
    split at hok
    · cases hok
    · cases hok
    · exact ⟨_, hok⟩

/-- A format without arguments that is invalid sends nothing, for the second attempt reads the
same. -/
theorem wRedisCommand_invalid (hcontext : c.context = some context)
    (hformat : redisvFormatCommand printf format [] = some (none, ap))
    {o : Outcome (Except Text Reply)} (ho : s.wRedisCommand printf x c format [] e = some o) :
    o.sent = [] := by
  have hnil : ap = [] := by
    rw [(format_rest hformat).2, List.drop_nil]
  subst hnil
  simp only [wRedisCommand, hcontext, redisvCommand, hformat, Option.bind_eq_bind,
    Option.bind_some] at ho
  split at ho
  · cases ho
    rfl
  · obtain ⟨context', -, ho⟩ := Option.bind_eq_some_iff.mp ho
    cases ho
    rfl

/-- What a command that has no arguments in its `va_list` sends is read off its format. -/
theorem command_sent_iff (h : s.connected x = some c) (hcontext : c.context = some context)
    (hreply : ∀ argv, ∃ reply, e.reply argv = some reply) (read : Reply → Except Thrown α) :
    (∃ o, s.command printf x format [] e read = some o ∧ o.sent = [(context, argv)]) ↔
      ∃ ap, redisvFormatCommand printf format [] = some (some argv, ap) := by
  constructor
  · rintro ⟨o, ho, hsent⟩
    cases hformat : redisvFormatCommand printf format [] with
    | none =>
        simp only [command, h, wRedisCommand, hcontext, redisvCommand, hformat,
          Option.bind_eq_bind, Option.bind_some, Option.bind_none, Option.map_none] at ho
        cases ho
    | some r =>
        obtain ⟨argv', ap⟩ := r
        cases argv' with
        | none =>
            rw [command, h] at ho
            obtain ⟨o', ho', rfl⟩ := Option.map_eq_some_iff.mp ho
            rw [o'.sent_read, wRedisCommand_invalid hcontext hformat ho'] at hsent
            cases hsent
        | some argv' =>
            obtain ⟨reply, hr⟩ := hreply argv'
            rw [command_answered h hcontext hformat hr read] at ho
            cases ho
            cases hsent
            exact ⟨ap, rfl⟩
  · rintro ⟨ap, hformat⟩
    obtain ⟨reply, hr⟩ := hreply argv
    exact ⟨_, command_answered h hcontext hformat hr read, rfl⟩

end RedisThread

/-- A thread with a connection in its variable `0`. -/
def sampleThread : RedisThread :=
  RedisThread.init.next (.get 0 ⟨"127.0.0.1", 6379, 0, ⟨some (0, ""), .error ""⟩⟩)

theorem connected_sampleThread :
    sampleThread.connected 0 = some ⟨some 0, "127.0.0.1", 6379, 0⟩ := by
  decide +kernel

def sampleKey : CString := ⟨lit "queue", by decide⟩

/-- A `printf` that shows its format. -/
def samplePrintf : Text → VaArg → Text := fun t _ ↦ t

end Redis

end Slience
