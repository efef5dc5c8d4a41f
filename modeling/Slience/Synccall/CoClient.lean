import Slience.Synccall.Session

/-!
# The client of synchronous calls in a coroutine

`CoScClient` sends over a `TcpConnector` and yields.  The callbacks of the connector run
in the threads of the server: they leave what they have for the coroutine in the
`_CoScInfo_` of the connector, and put the coroutine into the queue of its thread.  Every
callback, every switch to the coroutine and every stretch of `_Sync` between two switches
is one step; they interleave freely.
-/

namespace Slience

/-- The id that is no coroutine's, `-1` as an `int`. -/
def invalidCo : UInt32 := 0xFFFFFFFF

/-- `_CoScInfo_` -/
structure CoScInfo where
  valid : Bool
  thrId : UInt32
  coId : UInt32
  buffer : Buffer

/-- What `_CutMsgPack` hands to `OnReceiveData`: the header has been read from it. -/
structure Message where
  buffer : Buffer
  offset_eq : buffer.offset = MessageHeader.hdrlen

namespace CoScInfo

/-- The new info of `_Reconnect`, when the connector is connected. -/
def connected : CoScInfo where
  valid := true
  thrId := 0
  coId := invalidCo
  buffer := .empty

/-- `ScServer::OnDisconnected(TcpConnectorPtr&)`, and the arguments of `addResume`. -/
def onDisconnected (p : CoScInfo) : CoScInfo × Option (UInt32 × UInt32) :=
  ({ valid := false
     thrId := 0
     coId := invalidCo
     buffer := p.buffer.clear },
    if p.coId ≠ invalidCo then some (p.thrId, p.coId) else none)

/-- `ScServer::OnReceiveData(TcpConnectorPtr&, Buffer&)`, and the arguments of
`addResume`. -/
def onReceiveData (p : CoScInfo) (buffer : Buffer) :
    Option (CoScInfo × Option (UInt32 × UInt32)) :=
  match buffer.readWord 0 with
  | none => none
  | some (msgid, b) =>
      if msgid ≠ keepaliveAckId then
        some ({ p with coId := invalidCo, thrId := 0, buffer := b.cutData (-4) },
          some (p.thrId, p.coId))
      else some (p, none)

end CoScInfo

/-- A `TcpConnector` with its `_CoScInfo_`. -/
structure CoConn where
  link : Link
  info : CoScInfo

/-- The connection that `_socket` points to is given by its number. -/
structure CoScClient where
  packidx : UInt32
  request : Buffer
  socket : Option ℕ

namespace CoScClient

/-- `CoScClient::CoScClient`, where the counter may have been used before. -/
def init (packidx : UInt32) : CoScClient where
  packidx := packidx
  request := .empty
  socket := none

/-- `BaseScClient::_FillRequest` on the members that both clients have. -/
def fillRequest (c : CoScClient) (way msgType : UInt32) (msg : List Byte) (len : UInt32) :
    Option CoScClient :=
  match ScClient.fillRequest ⟨c.packidx, c.request, none⟩ way msgType msg len with
  | none => none
  | some base => some { c with packidx := base.packidx, request := base.request }

end CoScClient

/-- What `SyncCall` returned: 0 with `*preply`, or another code. -/
inductive CoOutcome
  | ok (reply : Buffer)
  | error (code : ℤ)
  deriving DecidableEq

/-- Where the coroutine is: in no call, before an attempt, or in `yield` with the
`pscinfo` of a connection. -/
inductive CoPhase
  | idle
  | attempt (call : Call) (cnt : ℕ)
  | suspended (call : Call) (cnt id : ℕ)
  deriving DecidableEq

def CoPhase.isAttempt : CoPhase → Bool
  | attempt _ _ => true
  | _ => false

structure CoSession where
  client : CoScClient
  phase : CoPhase
  /-- `base::thread::ctid()` and `Coroutine::curid()` of the call under way. -/
  caller : UInt32 × UInt32
  conns : ℕ → CoConn
  opened : ℕ
  /-- `_queue_map` -/
  queueMap : UInt32 → List UInt32
  calls : List Call
  /-- The bodies that `Send` accepted, and whether the one of the attempt under way is
  among them. -/
  requests : List (List Byte)
  onWire : Bool
  results : List CoOutcome

namespace CoSession

inductive Act
  /-- `Connect` and `Close` between two calls. -/
  | userConnect (connected : Bool)
  | userClose
  /-- `SyncCall` in the coroutine `co` of the thread `thr`, and what happens in `_Sync`. -/
  | call (c : Call) (thr co : UInt32)
  | connect (connected : Bool)
  | send (timestamp : Int32)
  /-- The callbacks of a connection. -/
  | onDisconnected (id : ℕ)
  | onReceiveData (id : ℕ) (m : Message)
  /-- What else happens on a connection. -/
  | link (id : ℕ) (a : Link.Act)
  /-- `doThrResume` switches to the next coroutine in the queue of the thread. -/
  | doThrResume (thr : UInt32)

/-- Nothing has been called; the counter of the client is `packidx`. -/
def init (packidx : UInt32) : CoSession where
  client := .init packidx
  phase := .idle
  caller := (0, invalidCo)
  conns := fun _ ↦ ⟨.connected, .connected⟩
  opened := 0
  queueMap := fun _ ↦ []
  calls := []
  requests := []
  onWire := false
  results := []

/-- `_socket && _socket->IsConnected()` -/
def isConnected (s : CoSession) : Bool :=
  match s.client.socket with
  | none => false
  | some id => decide ((s.conns id).link.base.flag = .start)

def setConn (s : CoSession) (id : ℕ) (k : CoConn) : CoSession :=
  { s with conns := Function.update s.conns id k }

/-- `CoScClient::Close` -/
def close (s : CoSession) : CoSession :=
  match s.client.socket with
  | none => s
  | some id =>
      let k := s.conns id
      { s.setConn id { k with link := { k.link with base := k.link.base.close } } with
        client := { s.client with socket := none } }

/-- `CoScClient::_Reconnect` -/
def reconnect (connected : Bool) (s : CoSession) : Bool × CoSession :=
  if connected then
    (true, { s with
      client := { s.client with socket := some s.opened }
      conns := Function.update s.conns s.opened ⟨.connected, .connected⟩
      opened := s.opened + 1 })
  else (false, { s with client := { s.client with socket := none } })

/-- `CoroutineTask::addResume(thr_id, co_id)` -/
def addResume (s : CoSession) : Option (UInt32 × UInt32) → CoSession
  | none => s
  | some (thr, co) =>
      { s with queueMap := Function.update s.queueMap thr (s.queueMap thr ++ [co]) }

/-- The end of an attempt that failed. -/
def failed (s : CoSession) (call : Call) (cnt : ℕ) (code : ℤ) : CoSession :=
  if cnt + 1 < 2 then { s with phase := .attempt call (cnt + 1) }
  else { s with phase := .idle, results := s.results ++ [.error code] }

/-- `_Sync` from the lock of `pscinfo->mutex` up to `yield`.  The request is a two-way one
for every call, and the result of `Send` is not used. -/
def sendStep (s : CoSession) (call : Call) (cnt id : ℕ) (timestamp : Int32) :
    Option CoSession :=
  let k := s.conns id
  if k.info.valid = false then some (s.close.failed call cnt (-3))
  else
    match s.client.fillRequest twowayType call.msgType.toUInt32 call.msg call.len with
    | none => none
    | some client =>
        match k.link.base.send false timestamp client.request.unread client.request.length with
        | none => none
        | some (ok, base) =>
            let link := k.link.sent (sendBlock timestamp client.request.unread) (ok, base)
            let info := { k.info with thrId := s.caller.1, coId := s.caller.2 }
            some { s.setConn id ⟨link, info⟩ with
              client := client
              phase := .suspended call cnt id
              requests := if ok then s.requests ++ [client.request.unread] else s.requests
              onWire := ok }

/-- `_Sync` behind `yield`. -/
def afterYield (s : CoSession) (call : Call) (cnt id : ℕ) : Option CoSession :=
  let k := s.conns id
  match ScClient.checkReply s.client.packidx k.info.buffer with
  | none => none
  | some (ok, reply) =>
      let s := s.setConn id { k with info := { k.info with buffer := reply } }
      if ok then some { s with phase := .idle, results := s.results ++ [.ok reply] }
      else some (s.close.failed call cnt (-3))

/-- `Coroutine::resume(co_id)` in the thread `thr`. -/
def resume (s : CoSession) (thr co : UInt32) : Option CoSession :=
  match s.phase with
  | .suspended call cnt id =>
      if (thr, co) = s.caller then s.afterYield call cnt id else some s
  | _ => some s

def step (s : CoSession) : Act → Option CoSession
  | .userConnect connected =>
      if s.phase = .idle ∧ s.client.socket = none then some (s.reconnect connected).2 else none
  | .userClose => if s.phase = .idle then some s.close else none
  | .call c thr co =>
      if s.phase = .idle then
        some { s with phase := .attempt c 0, caller := (thr, co), calls := s.calls ++ [c] }
      else none
  | .connect connected =>
      match s.phase with
      | .attempt c cnt =>
          if s.isConnected then none
          else
            let (ok, s') := s.reconnect connected
            some (if ok then s' else s'.failed c cnt (-2))
      | _ => none
  | .send timestamp =>
      match s.phase, s.client.socket with
      | .attempt c cnt, some id =>
          if s.isConnected then s.sendStep c cnt id timestamp else none
      | _, _ => none
  | .onDisconnected id =>
      let k := s.conns id
      let (info, wake) := k.info.onDisconnected
      some ((s.setConn id { k with info := info }).addResume wake)
  | .onReceiveData id m =>
      let k := s.conns id
      match k.info.onReceiveData m.buffer with
      | none => none
      | some (info, wake) => some ((s.setConn id { k with info := info }).addResume wake)
  | .link id a =>
      let k := s.conns id
      match k.link.step a with
      | none => none
      | some link => some (s.setConn id { k with link := link })
  | .doThrResume thr =>
      match s.queueMap thr with
      | [] => some s
      | co :: rest =>
          { s with queueMap := Function.update s.queueMap thr rest }.resume thr co

/-- A call is made with its message in memory and in a coroutine.  A thread switches to no
coroutine while it runs one. -/
def enabled (s : CoSession) : Act → Prop
  | .call c _ co => c.len.toNat ≤ c.msg.length ∧ co ≠ invalidCo
  | .link id a => (s.conns id).link.enabled a
  | .doThrResume thr => s.phase.isAttempt = true → thr ≠ s.caller.1
  | _ => True

instance (s : CoSession) : (a : Act) → Decidable (s.enabled a)
  | .call _ _ _ => inferInstanceAs (Decidable (_ ∧ _))
  | .link id a => inferInstanceAs (Decidable ((s.conns id).link.enabled a))
  | .doThrResume _ => inferInstanceAs (Decidable (_ → _))
  | .userConnect _ | .userClose | .connect _ | .send _ | .onDisconnected _
  | .onReceiveData _ _ => inferInstanceAs (Decidable True)

def system : System CoSession Act := ⟨enabled, step⟩

instance (s : CoSession) (a : Act) : Decidable (system.enabled s a) :=
  inferInstanceAs (Decidable (s.enabled a))

end CoSession

end Slience
