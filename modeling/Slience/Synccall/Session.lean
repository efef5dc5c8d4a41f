import Slience.Synccall.Client

/-!
# Calls of one client

One `ScClient` calls a `ScServer`, again and again, over connections that may fail at
any moment.  A connection delivers a part of the bytes sent on it, in their order, in
chunks of any size, in both directions.  The steps of the client, of the server on
every connection that was ever opened, and of the handler interleave freely.
-/

namespace Slience

/-- The arguments of `SyncCall`; with a reply or without. -/
structure Call where
  twoWay : Bool
  msgType : Int32
  msg : List Byte
  len : UInt32
  deriving DecidableEq

namespace Call

def way (c : Call) : UInt32 := if c.twoWay then twowayType else onewayType

/-- The bytes of the request with the index `packidx`. -/
def request (c : Call) (packidx : UInt32) : List Byte :=
  callHead c.way c.msgType.toUInt32 packidx ++ c.msg.take c.len.toNat

end Call

/-- One connection: the server's end of it, and the bytes on the way to the server.  The
bytes on the way to the client are those of `link.taken` behind the first `read` ones.
`replies` counts the replies the client has got. -/
structure Conn where
  link : Link
  frame : FrameReader
  readbuf : List Byte
  reading : Bool
  buffer : Buffer
  received : ℕ
  toServer : List Byte
  read : ℕ
  replies : ℕ

namespace Conn

def fresh : Conn where
  link := .connected
  frame := .fresh
  readbuf := List.replicate socketReadSize 0
  reading := true
  buffer := .empty
  received := 0
  toServer := []
  read := 0
  replies := 0

variable {τ : Type} (H : IServerHandler τ)

/-- `_ReadHandler` of the server's socket with the chunk `c`, which calls the handler for
every message that is complete.  A socket that is not started any more is not read. -/
def readHandler (id : ℕ) (timestamp : Int32) (handler : τ) (dealt : List Dealt) (k : Conn)
    (c : List Byte) : Option (Conn × τ × List Dealt) :=
  let k := { k with toServer := k.toServer.drop c.length }
  if k.link.base.flag ≠ .start then
    some ({ k with link := { k.link with base := k.link.base.close }, reading := false },
      handler, dealt)
  else
    let readbuf := blit k.readbuf 0 c
    match TcpStreamSocket.cutMsgPack (ScServer.callback H id timestamp) k.frame
      (some ⟨k.link, k.buffer, k.received, handler, dealt⟩) readbuf (UInt32.ofNat c.length) with
    | none => none
    | some res =>
        match res.world with
        | none => none
        | some w =>
            let k := { k with
              frame := res.frame, readbuf := readbuf, buffer := w.buffer, received := w.received }
            if res.ok then some ({ k with link := w.link }, w.handler, w.dealt)
            else
              some ({ k with
                link := { w.link with base := w.link.base.close }, reading := false },
                w.handler, w.dealt)

end Conn

/-- An attempt of a call: the number of the call, the connection, and the number of the
request on it. -/
structure Attempt where
  callNo : ℕ
  call : Call
  tag : ℕ × ℕ

inductive Outcome
  /-- `SyncCall` returned 0; the unread bytes of `*preply`, and the attempt. -/
  | ok (tag : ℕ × ℕ) (reply : List Byte)
  | error (code : ℤ)
  deriving DecidableEq

structure Result where
  callNo : ℕ
  call : Call
  outcome : Outcome
  deriving DecidableEq

/-- Where the client is: in no call, before an attempt, or in `Recv`. -/
inductive Phase
  | idle
  | attempt (call : Call) (cnt : ℕ)
  | receiving (call : Call) (cnt : ℕ)
  deriving DecidableEq

namespace Phase

def isAttempt : Phase → Bool
  | attempt _ _ => true
  | _ => false

def isReceiving : Phase → Bool
  | receiving _ _ => true
  | _ => false

theorem exists_of_isAttempt {p : Phase} (h : p.isAttempt = true) :
    ∃ call cnt, p = attempt call cnt := by
  cases p with
  | attempt call cnt => exact ⟨call, cnt, rfl⟩
  | idle => cases h
  | receiving call cnt => cases h

theorem exists_of_isReceiving {p : Phase} (h : p.isReceiving = true) :
    ∃ call cnt, p = receiving call cnt := by
  cases p with
  | receiving call cnt => exact ⟨call, cnt, rfl⟩
  | idle => cases h
  | attempt call cnt => cases h

end Phase

structure Session (τ : Type) where
  client : ScClient
  phase : Phase
  /-- The number of the call under way. -/
  callNo : ℕ
  /-- The connection of `client.socket`. -/
  cur : ℕ
  conns : ℕ → Conn
  opened : ℕ
  handler : τ
  dealt : List Dealt
  attempts : List Attempt
  results : List Result

namespace Session

variable {τ : Type}

inductive Act (τ : Type)
  /-- `ScClient::Connect` and `ScClient::Close` between two calls. -/
  | userConnect (connected endpoints : Bool)
  | userClose
  /-- `SyncCall`, and what happens in `_Sync`. -/
  | call (c : Call)
  | connect (connected endpoints : Bool)
  | send (timestamp : Int32) (outcomes : List (Option UInt32))
  | recv (c : List Byte)
  | recvFail
  /-- The server's end of a connection. -/
  | serverRead (id : ℕ) (timestamp : Int32) (c : List Byte)
  | serverWritten (id : ℕ) (tranByte : UInt32)
  | serverClose (id : ℕ)
  /-- The handler changes its state for another reason. -/
  | handler (t : τ)

def init (t : τ) : Session τ where
  client := .init
  phase := .idle
  callNo := 0
  cur := 0
  conns := fun _ ↦ .fresh
  opened := 0
  handler := t
  dealt := []
  attempts := []
  results := []

/-- A chunk of the bytes that are on their way. -/
def Chunk (bytes c : List Byte) : Prop := c ≠ [] ∧ c.length ≤ socketReadSize ∧ c <+: bytes

instance (bytes c : List Byte) : Decidable (Chunk bytes c) :=
  inferInstanceAs (Decidable (_ ∧ _ ∧ _))

def enabled (s : Session τ) : Act τ → Prop
  | .userConnect _ _ => s.phase = .idle ∧ s.client.socket.isNone = true
  | .userClose => s.phase = .idle
  | .call c => s.phase = .idle ∧ c.len.toNat ≤ c.msg.length
  | .connect _ _ => s.phase.isAttempt = true ∧ s.client.isConnected = false
  | .send _ _ => s.phase.isAttempt = true ∧ s.client.isConnected = true
  | .recv c => s.phase.isReceiving = true ∧
      Chunk ((s.conns s.cur).link.taken.drop (s.conns s.cur).read) c
  | .recvFail => s.phase.isReceiving = true
  | .serverRead id _ c => id < s.opened ∧ (s.conns id).reading = true ∧
      Chunk (s.conns id).toServer c
  | .serverWritten id tranByte => id < s.opened ∧ (s.conns id).link.enabled (.writeDone tranByte)
  | .serverClose id => id < s.opened
  | .handler _ => True

instance (s : Session τ) : (a : Act τ) → Decidable (s.enabled a)
  | .userConnect _ _ => inferInstanceAs (Decidable (_ ∧ _))
  | .userClose => inferInstanceAs (Decidable (s.phase = .idle))
  | .call _ => inferInstanceAs (Decidable (_ ∧ _))
  | .connect _ _ => inferInstanceAs (Decidable (_ ∧ _))
  | .send _ _ => inferInstanceAs (Decidable (_ ∧ _))
  | .recv _ => inferInstanceAs (Decidable (_ ∧ Chunk _ _))
  | .recvFail => inferInstanceAs (Decidable (s.phase.isReceiving = true))
  | .serverRead _ _ _ => inferInstanceAs (Decidable (_ ∧ _ ∧ Chunk _ _))
  | .serverWritten _ _ => inferInstanceAs (Decidable (_ ∧ Link.enabled _ _))
  | .serverClose id => inferInstanceAs (Decidable (id < s.opened))
  | .handler _ => inferInstanceAs (Decidable True)

def setConn (s : Session τ) (id : ℕ) (k : Conn) : Session τ :=
  { s with conns := Function.update s.conns id k }

/-- The end of an attempt that failed: the next one, or the end of the call. -/
def failed (s : Session τ) (call : Call) (cnt : ℕ) (code : ℤ) : Session τ :=
  if cnt + 1 < 2 then { s with phase := .attempt call (cnt + 1) }
  else { s with
    phase := .idle
    results := s.results ++ [⟨s.callNo, call, .error code⟩] }

/-- `Close` and `code = -3` -/
def broken (s : Session τ) (call : Call) (cnt : ℕ) : Session τ :=
  { s with client := s.client.close }.failed call cnt (-3)

/-- `_Reconnect`, which opens the next connection. -/
def reconnected (s : Session τ) (c : ScClient) : Session τ :=
  { s with
    client := c
    cur := s.opened
    opened := s.opened + 1
    conns := Function.update s.conns s.opened .fresh }

/-- `_CheckReply` on the buffer returned by `Recv`, and the end of the attempt. -/
def finish (s : Session τ) (call : Call) (cnt : ℕ) (sock : SyncConnector) :
    Option (Session τ) :=
  match ScClient.checkReply s.client.packidx sock.frame.msgbuffer with
  | none => none
  | some (false, _) => some (s.broken call cnt)
  | some (true, reply) =>
      let k := s.conns s.cur
      let sock := { sock with frame := { sock.frame with msgbuffer := reply } }
      some { s.setConn s.cur { k with replies := k.replies + 1 } with
        client := { s.client with socket := some sock }
        phase := .idle
        results := s.results ++ [⟨s.callNo, call, .ok (s.cur, k.replies) reply.unread⟩] }

/-- `_FillRequest`, `Send`, and the beginning of `Recv`. -/
def sendStep (s : Session τ) (call : Call) (cnt : ℕ) (timestamp : Int32)
    (outcomes : List (Option UInt32)) : Option (Session τ) :=
  match s.client.fillRequest call.way call.msgType.toUInt32 call.msg call.len with
  | none => none
  | some client =>
      match client.socket with
      | none => none
      | some sock =>
          match sock.send timestamp client.request.unread client.request.length outcomes with
          | none => none
          | some (ok, sock, taken) =>
              let k := s.conns s.cur
              let s := { s.setConn s.cur { k with toServer := k.toServer ++ taken } with
                client := { client with socket := some sock }
                attempts := s.attempts ++ [Attempt.mk s.callNo call (s.cur, k.replies)] }
              if ok = false then some (s.broken call cnt)
              else if sock.flag ≠ .start then some (s.broken call cnt)
              else
                match sock.recvStart with
                | none => none
                | some (true, sock) => s.finish call cnt sock
                | some (false, sock) =>
                    some { s with
                      client := { client with socket := some sock }
                      phase := .receiving call cnt }

/-- One round of the loop of `Recv`. -/
def recvStep (s : Session τ) (call : Call) (cnt : ℕ) (c : List Byte) : Option (Session τ) :=
  match s.client.socket with
  | none => none
  | some sock =>
      let k := s.conns s.cur
      let s := s.setConn s.cur { k with read := k.read + c.length }
      match sock.recvChunk c with
      | none => none
      | some (true, sock) => s.finish call cnt sock
      | some (false, sock) => some { s with client := { s.client with socket := some sock } }

variable (H : IServerHandler τ)

def step (s : Session τ) : Act τ → Option (Session τ)
  | .userConnect connected endpoints =>
      let (ok, client) := s.client.reconnect connected endpoints
      some (if ok then s.reconnected client else { s with client := client })
  | .userClose => some { s with client := s.client.close }
  | .call c => some { s with phase := .attempt c 0, callNo := s.callNo + 1 }
  | .connect connected endpoints =>
      match s.phase with
      | .attempt c cnt =>
          let (ok, client) := s.client.reconnect connected endpoints
          some (if ok then s.reconnected client
            else { s with client := client }.failed c cnt (-2))
      | _ => none
  | .send timestamp outcomes =>
      match s.phase with
      | .attempt c cnt => s.sendStep c cnt timestamp outcomes
      | _ => none
  | .recv c =>
      match s.phase with
      | .receiving d cnt => s.recvStep d cnt c
      | _ => none
  | .recvFail =>
      match s.phase with
      | .receiving d cnt => some (s.broken d cnt)
      | _ => none
  | .serverRead id timestamp c =>
      match (s.conns id).readHandler H id timestamp s.handler s.dealt c with
      | none => none
      | some (k, t, dealt) => some { s.setConn id k with handler := t, dealt := dealt }
  | .serverWritten id tranByte =>
      match (s.conns id).link.step (.writeDone tranByte) with
      | none => none
      | some link => some (s.setConn id { s.conns id with link := link })
  | .serverClose id =>
      match (s.conns id).link.step .close with
      | none => none
      | some link => some (s.setConn id { s.conns id with link := link })
  | .handler t => some { s with handler := t }

def system : System (Session τ) (Act τ) := ⟨enabled, step H⟩

instance (s : Session τ) (a : Act τ) : Decidable ((system H).enabled s a) :=
  inferInstanceAs (Decidable (s.enabled a))

end Session

end Slience
