import Slience.Redis.Command
import Slience.Redis.LiteralFormat

/-!
# Writing and reading a value

`set`, `get`, `hset` and `hget` of `RedisConnection` (`redis_string.cpp`, `redis_hash.cpp`) for
`std::string`, with the overloads for a pointer and a length.  A value is written through a `%s`,
which takes it up to its first NUL, and is read by `reply->str` and the `int` `reply->len`.
-/

namespace Slience

namespace Redis

/-- `value.clear()` -/
def clear (value : Text) : Text := value.take 0

/-- The `do` block of `get` and `hget`: the new value of `value`.  An `int` that is negative is
converted to a length that no string has. -/
def readValue (value : Text) (r : Reply) : Except Thrown Text :=
  if r.type = redisReplyError then .error (.redisException r.what)
  else if r.type = redisReplyNil then .error keyNotExist
  else if r.len < 0 then .error .lengthError
  else .ok (clear value ++ r.str.take r.len.toNat)

/-- The same for a buffer of `len` bytes. -/
def readInto (value : Text) (len : UInt32) (r : Reply) : Except Thrown Text :=
  if r.type = redisReplyError then .error (.redisException r.what)
  else if r.type = redisReplyNil then .error keyNotExist
  else
    let len := if UInt32.ofInt r.len < len then UInt32.ofInt r.len else len
    .ok (blit value 0 (r.str.take len.toNat))

namespace RedisThread

variable (printf : Text → VaArg → Text) (s : RedisThread) (x : ℕ) (key field : CString)

def set (value : Text) (e : Exchange) : Option (Outcome Unit) :=
  s.command printf x (lit "SET %s %s") [key.arg, cStr value] e readStatus

/-- `set(key, value, len)`; `value` is what is in memory from the pointer on. -/
def setLen (value : Text) (len : UInt32) (e : Exchange) : Option (Outcome Unit) :=
  if len.toNat ≤ value.length then s.set printf x key (value.take len.toNat) e else none

def get (value : Text) (e : Exchange) : Option (Outcome Text) :=
  s.command printf x (lit "GET %s") [key.arg] e (readValue value)

/-- `get(key, value, len)`, with what is in the buffer. -/
def getLen (value : Text) (len : UInt32) (e : Exchange) : Option (Outcome Text) :=
  if len.toNat ≤ value.length then
    s.command printf x (lit "GET %s") [key.arg] e (readInto value len)
  else none

def hset (value : Text) (e : Exchange) : Option (Outcome ℤ) :=
  s.command printf x (lit "HSET %s %s %s") [key.arg, field.arg, cStr value] e readInteger

/-- `hset(key, field, value, len)` -/
def hsetLen (value : Text) (len : UInt32) (e : Exchange) : Option (Outcome ℤ) :=
  if len.toNat ≤ value.length then s.hset printf x key field (value.take len.toNat) e else none

def hget (value : Text) (e : Exchange) : Option (Outcome Text) :=
  s.command printf x (lit "HGET %s %s") [key.arg, field.arg] e (readValue value)

/-- `hget(key, field, value, len)` -/
def hgetLen (value : Text) (len : UInt32) (e : Exchange) : Option (Outcome Text) :=
  if len.toNat ≤ value.length then
    s.command printf x (lit "HGET %s %s") [key.arg, field.arg] e (readInto value len)
  else none

end RedisThread

/-- A server that stores the bytes of its arguments and returns them exactly. -/
structure Server where
  State : Type
  serve : State → List Text → State × Reply
  set_reply (st : State) (k v : Text) :
    (serve st [lit "SET", k, v]).2 = ⟨redisReplyStatus, 0, lit "OK"⟩
  get_set (st : State) (k v : Text) :
    (serve (serve st [lit "SET", k, v]).1 [lit "GET", k]).2 = ⟨redisReplyString, 0, v⟩
  hset_reply (st : State) (k f v : Text) :
    (serve st [lit "HSET", k, f, v]).2.type = redisReplyInteger
  hget_hset (st : State) (k f v : Text) :
    (serve (serve st [lit "HSET", k, f, v]).1 [lit "HGET", k, f]).2 = ⟨redisReplyString, 0, v⟩

namespace Server

variable (server : Server)

/-- The network when the server answers each command. -/
def exchange (st : server.State) : Exchange where
  reply := fun argv ↦ some (server.serve st argv).2
  net := ⟨none, .error ""⟩
  again := fun _ ↦ .error []

/-- The server behind the commands that were sent. -/
def after (st : server.State) (sent : List (ℕ × List Text)) : server.State :=
  sent.foldl (fun st p ↦ (server.serve st p.2).1) st

/-- A call, and behind it another one if the first has thrown nothing: the result of the last. -/
def andThen {α β : Type} (st : server.State) (first : Exchange → Option (Outcome α))
    (second : RedisThread → Exchange → Option (Outcome β)) : Option (Except Thrown β) := do
  let o ← first (server.exchange st)
  match o.result with
  | .error thrown => some (.error thrown)
  | .ok _ => (second o.thread (server.exchange (server.after st o.sent))).map (·.result)

end Server

/-- What was written under a key, or a key and a field, is read again: through all overloads, and
whatever the variable held. -/
structure RoundTrips (printf : Text → VaArg → Text) (server : Server) (st : server.State)
    (s : RedisThread) (x : ℕ) (key field : CString) (value : Text) : Prop where
  string (out : Text) :
    server.andThen st (s.set printf x key value) (·.get printf x key out) = some (.ok value)
  stringLen (mem : Text) (len : UInt32) (out : Text) (hlen : len.toNat ≤ mem.length)
      (hmem : mem.take len.toNat = value) :
    server.andThen st (s.setLen printf x key mem len) (·.get printf x key out) = some (.ok value)
  stringInto (out : Text) (len : UInt32) (hout : len.toNat ≤ out.length)
      (hlen : value.length ≤ len.toNat) :
    server.andThen st (s.set printf x key value) (·.getLen printf x key out len) =
      some (.ok (value ++ out.drop value.length))
  hash (out : Text) :
    server.andThen st (s.hset printf x key field value) (·.hget printf x key field out) =
      some (.ok value)
  hashLen (mem : Text) (len : UInt32) (out : Text) (hlen : len.toNat ≤ mem.length)
      (hmem : mem.take len.toNat = value) :
    server.andThen st (s.hsetLen printf x key field mem len) (·.hget printf x key field out) =
      some (.ok value)
  hashInto (out : Text) (len : UInt32) (hout : len.toNat ≤ out.length)
      (hlen : value.length ≤ len.toNat) :
    server.andThen st (s.hset printf x key field value) (·.hgetLen printf x key field out len) =
      some (.ok (value ++ out.drop value.length))

/-! ## Formats of strings -/

variable {printf : Text → VaArg → Text}

/-- `" %s"` for each string: the argument before it is done, and the string is the next one. -/
theorem formatLoop_strings (mems : List Text) (hnul : ∀ m ∈ mems, 0 ∈ m) (cur : Text)
    (argv : List Text) :
    formatLoop printf (mems.flatMap fun _ ↦ lit " %s") 0 ⟨cur, true, argv, mems.map .ptr⟩ =
      some (some (argv ++ cur :: mems.map fun m ↦ m.takeWhile (· ≠ 0)), []) := by
  induction mems generalizing cur argv with
  | nil => rfl
  | cons m mems ih =>
      have hm := hnul m List.mem_cons_self
      have hturn : formatLoop printf ((m :: mems).flatMap fun _ ↦ lit " %s") 0
          ⟨cur, true, argv, (m :: mems).map .ptr⟩ =
          formatLoop printf (mems.flatMap fun _ ↦ lit " %s") 0
            ⟨m.takeWhile (· ≠ 0), true, argv ++ [cur], mems.map .ptr⟩ := by
        have hlit : ((m :: mems).flatMap fun _ ↦ lit " %s") =
            32 :: 37 :: 115 :: mems.flatMap fun _ ↦ lit " %s" := rfl
        have htake : Item.take printf (.conv .string) (.ptr m :: mems.map .ptr) =
            some (m.takeWhile (· ≠ 0), mems.map .ptr) := if_pos hm
        rw [hlit, formatLoop_space, formatLoop_item (List.cons_ne_nil _ _) rfl htake]
        rfl
      rw [hturn, ih fun m' hm' ↦ hnul m' (List.mem_cons_of_mem m hm')]
      simp

/-- A name and strings: each argument is a string up to its first NUL. -/
theorem format_strings {name : Text} (hname : IsWord name) (hpercent : 37 ∉ name)
    (mems : List Text) (hnul : ∀ m ∈ mems, 0 ∈ m) :
    redisvFormatCommand printf (name ++ mems.flatMap fun _ ↦ lit " %s") (mems.map .ptr) =
      some (some (name :: mems.map fun m ↦ m.takeWhile (· ≠ 0)), []) := by
  have hcut : (name ++ mems.flatMap fun _ ↦ lit " %s").takeWhile (· ≠ 0) =
      name ++ mems.flatMap fun _ ↦ lit " %s" := by
    rw [List.takeWhile_eq_self_iff]
    intro b hb
    refine decide_eq_true ?_
    rintro rfl
    rcases List.mem_append.mp hb with hb | hb
    · exact hname.2.1 hb
    · obtain ⟨m, -, hmem⟩ := List.mem_flatMap.mp hb
      exact absurd hmem (by decide)
  have hlit (u v : Text) (heq : name = u ++ 37 :: v) :
      (v ++ mems.flatMap fun _ ↦ lit " %s") = [] :=
    absurd (heq ▸ List.mem_append_right u List.mem_cons_self) hpercent
  rw [redisvFormatCommand, hcut, formatLoop_word hname.1 hname.2.2 _ hlit]
  exact formatLoop_strings mems hnul name []

/-- What a `%s` makes of a value. -/
def written (value : Text) : Text := (value ++ [0]).takeWhile (· ≠ 0)

theorem written_of_notMem {value : Text} (h : 0 ∉ value) : written value = value := by
  rw [written, List.takeWhile_append_of_pos]
  · simp
  · intro b hb
    exact decide_eq_true fun heq ↦ h (heq ▸ hb)

theorem notMem_written (value : Text) : 0 ∉ written value := by
  intro hmem
  simpa using List.mem_takeWhile_imp hmem

/-! ## The calls on a server -/

section Served

variable {s : RedisThread} {x context : ℕ} {c : RedisContext} {key field : CString}
  {server : Server} {st : server.State} {α β : Type}

theorem command_served (printf : Text → VaArg → Text) (st : server.State)
    (h : s.connected x = some c) (hcontext : c.context = some context) {name : Text}
    (hname : IsWord name) (hpercent : 37 ∉ name) (mems : List Text) (hnul : ∀ m ∈ mems, 0 ∈ m)
    (read : Reply → Except Thrown α) :
    s.command printf x (name ++ mems.flatMap fun _ ↦ lit " %s") (mems.map .ptr)
        (server.exchange st) read =
      some ⟨read (server.serve st (name :: mems.map fun m ↦ m.takeWhile (· ≠ 0))).2,
        [(context, name :: mems.map fun m ↦ m.takeWhile (· ≠ 0))], s⟩ :=
  s.command_answered h hcontext (format_strings hname hpercent mems hnul) rfl read

theorem key_written (key : CString) : (key.bytes ++ [0]).takeWhile (· ≠ 0) = key.bytes :=
  written_of_notMem key.noNul

theorem set_served (h : s.connected x = some c) (hcontext : c.context = some context)
    (value : Text) : s.set printf x key value (server.exchange st) =
      some ⟨.ok (), [(context, [lit "SET", key.bytes, written value])], s⟩ := by
  have hserved := command_served printf st h hcontext
    (by decide : IsWord (lit "SET")) (by decide) [key.bytes ++ [0], value ++ [0]] (by simp)
    readStatus
  simp only [List.map_cons, List.map_nil, key_written] at hserved
  rw [server.set_reply] at hserved
  exact hserved

theorem get_served (h : s.connected x = some c) (hcontext : c.context = some context)
    (read : Reply → Except Thrown Text) :
    s.command printf x (lit "GET %s") [key.arg] (server.exchange st) read =
      some ⟨read (server.serve st [lit "GET", key.bytes]).2,
        [(context, [lit "GET", key.bytes])], s⟩ := by
  have hserved := command_served printf st h hcontext
    (by decide : IsWord (lit "GET")) (by decide) [key.bytes ++ [0]] (by simp) read
  simp only [List.map_cons, List.map_nil, key_written] at hserved
  exact hserved

theorem hset_served (h : s.connected x = some c) (hcontext : c.context = some context)
    (value : Text) : ∃ n, s.hset printf x key field value (server.exchange st) =
      some ⟨.ok n, [(context, [lit "HSET", key.bytes, field.bytes, written value])], s⟩ := by
  have hserved := command_served printf st h hcontext
    (by decide : IsWord (lit "HSET")) (by decide)
    [key.bytes ++ [0], field.bytes ++ [0], value ++ [0]] (by simp) readInteger
  simp only [List.map_cons, List.map_nil, key_written] at hserved
  rw [readInteger, server.hset_reply] at hserved
  exact ⟨_, hserved⟩

theorem hget_served (h : s.connected x = some c) (hcontext : c.context = some context)
    (read : Reply → Except Thrown Text) :
    s.command printf x (lit "HGET %s %s") [key.arg, field.arg] (server.exchange st) read =
      some ⟨read (server.serve st [lit "HGET", key.bytes, field.bytes]).2,
        [(context, [lit "HGET", key.bytes, field.bytes])], s⟩ := by
  have hserved := command_served printf st h hcontext
    (by decide : IsWord (lit "HGET")) (by decide) [key.bytes ++ [0], field.bytes ++ [0]]
    (by simp) read
  simp only [List.map_cons, List.map_nil, key_written] at hserved
  exact hserved

theorem andThen_eq {first : Exchange → Option (Outcome α)} {a : α}
    {sent : List (ℕ × List Text)} (hfirst : first (server.exchange st) = some ⟨.ok a, sent, s⟩)
    (second : RedisThread → Exchange → Option (Outcome β)) :
    server.andThen st first second =
      (second s (server.exchange (server.after st sent))).map (·.result) := by
  rw [Server.andThen, hfirst]
  rfl

/-! ## The round trips -/

/-- The reply to a `GET` or `HGET` of a string. -/
def stringReply (v : Text) : Reply := ⟨redisReplyString, 0, v⟩

theorem type_stringReply (v : Text) :
    (stringReply v).type ≠ redisReplyError ∧ (stringReply v).type ≠ redisReplyNil :=
  (by decide : redisReplyString ≠ redisReplyError ∧ redisReplyString ≠ redisReplyNil)

theorem len_stringReply {v : Text} (hv : v.length < 2 ^ 31) : (stringReply v).len = v.length := by
  change (v.length : ℤ).bmod (2 ^ 32) = v.length
  exact Int.bmod_eq_of_le (by omega) (by omega)

theorem readValue_string (out v : Text) :
    readValue out (stringReply v) =
      if (stringReply v).len < 0 then .error .lengthError
      else .ok (v.take (stringReply v).len.toNat) := by
  obtain ⟨herror, hnil⟩ := type_stringReply v
  have hclear : clear out = [] := List.take_zero
  rw [readValue, if_neg herror, if_neg hnil, hclear, List.nil_append]
  rfl

theorem readValue_ok_iff (out value : Text) :
    readValue out (stringReply (written value)) = .ok value ↔
      0 ∉ value ∧ value.length < 2 ^ 31 := by
  rw [readValue_string]
  constructor
  · intro hread
    split at hread
    · cases hread
    · have htake := Except.ok.inj hread
      have hlen : (stringReply (written value)).len < 2 ^ 31 := Int.bmod_lt (by decide)
      have hle := congrArg List.length htake
      rw [List.length_take] at hle
      refine ⟨?_, by omega⟩
      intro hmem
      rw [← htake] at hmem
      exact notMem_written value (List.mem_of_mem_take hmem)
  · rintro ⟨hnul, hlen⟩
    rw [written_of_notMem hnul, len_stringReply hlen, if_neg (by omega), Int.toNat_natCast,
      List.take_length]

theorem readInto_ok {value out : Text} {len : UInt32} (hnul : 0 ∉ value)
    (hlt : value.length < 2 ^ 31) (hlen : value.length ≤ len.toNat) :
    readInto out len (stringReply (written value)) = .ok (value ++ out.drop value.length) := by
  obtain ⟨herror, hnil⟩ := type_stringReply value
  have hword : (UInt32.ofInt value.length).toNat = value.length := by
    rw [UInt32.ofInt, UInt32.toNat_ofNat']
    omega
  have hblit : blit out 0 value = value ++ out.drop value.length := by simp [blit]
  rw [written_of_notMem hnul, readInto, if_neg herror, if_neg hnil, len_stringReply hlt, ← hblit]
  dsimp only
  split
  · rw [hword]
    exact congrArg (fun v ↦ Except.ok (blit out 0 v)) List.take_length
  · exact congrArg (fun v ↦ Except.ok (blit out 0 v)) (List.take_of_length_le hlen)

theorem setGet_eq (h : s.connected x = some c) (hcontext : c.context = some context)
    (value : Text) (read : Reply → Except Thrown Text) :
    server.andThen st (s.set printf x key value)
        (fun s e ↦ s.command printf x (lit "GET %s") [key.arg] e read) =
      some (read (stringReply (written value))) := by
  rw [andThen_eq (set_served h hcontext value), get_served h hcontext]
  have hget := server.get_set st key.bytes (written value)
  change some (read (server.serve (server.serve st [lit "SET", key.bytes, written value]).1
    [lit "GET", key.bytes]).2) = _
  rw [hget]
  rfl

theorem hsetHget_eq (h : s.connected x = some c) (hcontext : c.context = some context)
    (value : Text) (read : Reply → Except Thrown Text) :
    server.andThen st (s.hset printf x key field value)
        (fun s e ↦ s.command printf x (lit "HGET %s %s") [key.arg, field.arg] e read) =
      some (read (stringReply (written value))) := by
  obtain ⟨n, hset⟩ := hset_served h hcontext value
  rw [andThen_eq hset, hget_served h hcontext]
  have hget := server.hget_hset st key.bytes field.bytes (written value)
  change some (read (server.serve (server.serve st
    [lit "HSET", key.bytes, field.bytes, written value]).1
    [lit "HGET", key.bytes, field.bytes]).2) = _
  rw [hget]
  rfl

/-- A value comes back through every overload exactly if it has no NUL and its length is an
`int`. -/
theorem roundTrips_iff (h : s.connected x = some c) (hcontext : c.context = some context)
    (st : server.State) (key field : CString) (value : Text) :
    RoundTrips printf server st s x key field value ↔ 0 ∉ value ∧ value.length < 2 ^ 31 := by
  constructor
  · intro hround
    have hstring := hround.string []
    change server.andThen st (s.set printf x key value)
      (fun s e ↦ s.command printf x (lit "GET %s") [key.arg] e (readValue [])) = _ at hstring
    rw [setGet_eq h hcontext, Option.some.injEq, readValue_ok_iff] at hstring
    exact hstring
  · intro hvalue
    have hread (out : Text) := (readValue_ok_iff out value).mpr hvalue
    have hset (out : Text) : server.andThen st (s.set printf x key value)
        (·.get printf x key out) = some (.ok value) :=
      (setGet_eq h hcontext value (readValue out)).trans (congrArg some (hread out))
    have hhset (out : Text) : server.andThen st (s.hset printf x key field value)
        (·.hget printf x key field out) = some (.ok value) :=
      (hsetHget_eq h hcontext value (readValue out)).trans (congrArg some (hread out))
    refine ⟨hset, ?_, ?_, hhset, ?_, ?_⟩
    · rintro mem len out hlen rfl
      have hsame : s.setLen printf x key mem len = s.set printf x key (mem.take len.toNat) := by
        funext e
        rw [RedisThread.setLen, if_pos hlen]
      rw [hsame]
      exact hset out
    · intro out len hout hlen
      have hsame : (fun s : RedisThread ↦ s.getLen printf x key out len) = fun s e ↦
          s.command printf x (lit "GET %s") [key.arg] e (readInto out len) := by
        funext s e
        rw [RedisThread.getLen, if_pos hout]
      rw [hsame, setGet_eq h hcontext, readInto_ok hvalue.1 hvalue.2 hlen]
    · rintro mem len out hlen rfl
      have hsame : s.hsetLen printf x key field mem len =
          s.hset printf x key field (mem.take len.toNat) := by
        funext e
        rw [RedisThread.hsetLen, if_pos hlen]
      rw [hsame]
      exact hhset out
    · intro out len hout hlen
      have hsame : (fun s : RedisThread ↦ s.hgetLen printf x key field out len) = fun s e ↦
          s.command printf x (lit "HGET %s %s") [key.arg, field.arg] e (readInto out len) := by
        funext s e
        rw [RedisThread.hgetLen, if_pos hout]
      rw [hsame, hsetHget_eq h hcontext, readInto_ok hvalue.1 hvalue.2 hlen]

end Served

/-- A server with strings and hashes in separate tables. -/
def sampleServer : Server where
  State := (Text → Option Text) × (Text → Text → Option Text)
  serve st argv :=
    let shown (v : Option Text) : Reply := v.elim ⟨redisReplyNil, 0, []⟩ stringReply
    match argv with
    | [cmd, k] =>
        if cmd = lit "GET" then (st, shown (st.1 k)) else (st, ⟨redisReplyError, 0, []⟩)
    | [cmd, k, v] =>
        if cmd = lit "SET" then
          ((Function.update st.1 k (some v), st.2), ⟨redisReplyStatus, 0, lit "OK"⟩)
        else if cmd = lit "HGET" then (st, shown (st.2 k v))
        else (st, ⟨redisReplyError, 0, []⟩)
    | [cmd, k, f, v] =>
        if cmd = lit "HSET" then
          ((st.1, Function.update st.2 k (Function.update (st.2 k) f (some v))),
            ⟨redisReplyInteger, 1, []⟩)
        else (st, ⟨redisReplyError, 0, []⟩)
    | _ => (st, ⟨redisReplyError, 0, []⟩)
  set_reply st k v := rfl
  get_set st k v := by
    simp [stringReply]
  hset_reply st k f v := rfl
  hget_hset st k f v := by
    have hne : lit "HGET" ≠ lit "SET" := by decide
    simp [stringReply, hne]

/-- A value with a space, a `%` and a byte above 127, for which the variable held another one. -/
theorem roundTrips_iff_sample :
    RoundTrips samplePrintf sampleServer (fun _ ↦ none, fun _ _ ↦ none) sampleThread 0 sampleKey
      sampleKey [37, 32, 255] ∧ 0 ∉ ([37, 32, 255] : Text) :=
  ⟨(roundTrips_iff connected_sampleThread rfl _ _ _ _).mpr (by decide), by decide⟩

/-- Of a value with a NUL only what is in front of it is read again. -/
theorem cut_at_nul :
    ¬ RoundTrips samplePrintf sampleServer (fun _ ↦ none, fun _ _ ↦ none) sampleThread 0 sampleKey
      sampleKey [97, 0, 98] := by
  intro hround
  have hread := congrArg (Option.map Except.toOption) (hround.string [])
  have hcut : (sampleServer.andThen (fun _ ↦ none, fun _ _ ↦ none)
      (sampleThread.set samplePrintf 0 sampleKey [97, 0, 98])
      (·.get samplePrintf 0 sampleKey [])).map Except.toOption = some (some [97]) := by
    decide +kernel
  rw [hcut] at hread
  exact absurd hread (by decide)

end Redis

end Slience
