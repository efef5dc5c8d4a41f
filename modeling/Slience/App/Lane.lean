import Slience.App.Recycle
import Slience.Netio.StreamSocket

/-!
# From the message lists to `OnProc`

The accepted sockets and the connectors go through the same code twice: their message
lists, the container of their open connections and the processing of one message in
`ApplicationBase::Run`.  A lane is one of the two.

The sockets themselves belong to the IO layer.  Of a socket the application reads the
descriptor, which the IO layer changes while messages of the socket are on their way.

Not part of the program are `received` and `served`: they record the callbacks the IO
threads made and, for each message `Run` went through, the calls of `OnProc` it led to.
-/

namespace Slience

/-- How the frame is packed: by `#pragma pack`, where `M_PLATFORM_WIN` is set, or else by the
attribute of g++. -/
inductive Packing
  | pragmaPack | packedAttribute
  deriving DecidableEq

/-- `AppHeadFrame` -/
structure AppHeadFrame where
  isBroadcast : UInt16 := 0
  srcSvrType : UInt32 := 0
  dstSvrType : UInt32 := 0
  srcInstanceId : UInt32 := 0
  dstInstanceId : UInt32 := 0
  srcTransactionId : UInt32 := 0
  dstTransactionId : UInt32 := 0
  cmd : UInt32 := 0
  cmdLength : UInt32 := 0

namespace AppHeadFrame

/-- `sizeof(AppHeadFrame)`, a packed structure. -/
def size : ℕ := 34

/-- The structure as it stands in memory. -/
def image (f : AppHeadFrame) : List Byte :=
  [f.isBroadcast.toUInt8, (f.isBroadcast >>> 8).toUInt8] ++ le32 f.srcSvrType ++
    le32 f.dstSvrType ++ le32 f.srcInstanceId ++ le32 f.dstInstanceId ++
    le32 f.srcTransactionId ++ le32 f.dstTransactionId ++ le32 f.cmd ++ le32 f.cmdLength

/-- `cmd_length` of the structure in these bytes. -/
def cmdLengthOf (bytes : List Byte) : UInt32 := loadLe32 (bytes.drop 30)

/-- `get_cmd_length()`, which returns a reference.  g++ cannot bind it to a packed field and binds
it to a copy, which is gone when the caller reads it. -/
def getCmdLength (packing : Packing) (bytes : List Byte) : Option UInt32 :=
  match packing with
  | .pragmaPack => some (cmdLengthOf bytes)
  | .packedAttribute => none

end AppHeadFrame

/-- `CMD_SOCKET_CLIENT_IN` -/
def cmdSocketClientIn : UInt32 := 1

/-- `CMD_SOCKET_CLIENT_OUT` -/
def cmdSocketClientOut : UInt32 := 2

/-- A call `OnProc(fd, frame, data, data_len)`: the frame as the bytes it stands in, and
the bytes of the message from `data` on. -/
structure ProcCall where
  fd : ℤ
  frame : List Byte
  data : List Byte
  dataLen : UInt32
  deriving DecidableEq

/-- `OnProc` for a connection that came or went; the message is empty. -/
def ProcCall.event (fd : ℤ) (cmd : UInt32) : ProcCall :=
  ⟨fd, AppHeadFrame.image { cmd := cmd }, [], 0⟩

/-! ## The container -/

/-- `TcpSocketContext` -/
structure Context where
  fd : ℤ
  msgcount : Int32
  tt : UInt32
  ptr : ℕ
  deriving DecidableEq

/-- `TcpSocketContextContainer`, unique in the descriptor. -/
structure Container where
  entries : List Context
  nodup : (entries.map Context.fd).Nodup

namespace Container

def empty : Container := ⟨[], List.nodup_nil⟩

def find (c : Container) (fd : ℤ) : Option Context := c.entries.find? fun x ↦ x.fd == fd

/-- `insert` fails when there is an entry with the descriptor. -/
def insert (c : Container) (x : Context) : Option Container :=
  if h : x.fd ∈ c.entries.map Context.fd then none
  else some ⟨x :: c.entries, List.nodup_cons.mpr ⟨h, c.nodup⟩⟩

/-- `modify` with a `FuncModifySocketContext` -/
def modify (c : Container) (fd : ℤ) (cnt : Int32) (tt : UInt32) : Container where
  entries := c.entries.map fun x ↦ if x.fd = fd then { x with msgcount := cnt, tt := tt } else x
  nodup := by
    have hmap : (c.entries.map fun x ↦ if x.fd = fd then { x with msgcount := cnt, tt := tt }
        else x).map Context.fd = c.entries.map Context.fd := by
      rw [List.map_map]
      apply List.map_congr_left
      intro x _
      simp only [Function.comp_apply]
      split <;> rfl
    rw [hmap]
    exact c.nodup

def erase (c : Container) (fd : ℤ) : Container where
  entries := c.entries.filter fun x ↦ x.fd != fd
  nodup := c.nodup.sublist ((List.filter_sublist).map Context.fd)

/-- There is an entry of the socket. -/
def Lists (c : Container) (clisock : ℕ) : Prop := ∃ x ∈ c.entries, x.ptr = clisock

instance (c : Container) (clisock : ℕ) : Decidable (c.Lists clisock) :=
  inferInstanceAs (Decidable (∃ x ∈ c.entries, x.ptr = clisock))

end Container

/-! ## Connections -/

/-- A callback of the IO layer. -/
structure Received where
  ptr : ℕ
  type : MsgType
  error : ℤ
  bytes : List Byte
  deriving DecidableEq

/-- A message `Run` went through: whether the container had its socket then, and the
calls of `OnProc` it led to. -/
structure Served where
  ptr : ℕ
  type : MsgType
  listed : Bool
  calls : List ProcCall
  deriving DecidableEq

/-- What a lane knows of its sockets, apart from the messages on their way. -/
structure Conns where
  packing : Packing
  container : Container
  /-- `GetSocket().GetFd()` -/
  fds : ℕ → ℤ
  received : List Received
  served : List Served

/-- `M_INVALID_SOCKET` -/
def invalidSocket : ℤ := -1

namespace Conns

def init (packing : Packing) : Conns :=
  ⟨packing, Container.empty, fun _ ↦ invalidSocket, [], []⟩

def record (c : Conns) (r : Received) : Conns := { c with received := c.received ++ [r] }

/-- The IO layer sets the descriptor of a socket. -/
def setFd (c : Conns) (clisock : ℕ) (fd : ℤ) : Conns :=
  { c with fds := Function.update c.fds clisock fd }

/-- `M_SOCKET_DATA` of a socket whose descriptor is in the container.  The frame is read
from the block of the buffer, whatever was written there. -/
def procData (c : Conns) (now : UInt32) (fd : ℤ) (entry : Context) (buf : Buffer) :
    Option (Container × List ProcCall) :=
  if buf.offset.toNat + AppHeadFrame.size ≤ buf.size.toNat then do
    let frame := (buf.data.drop buf.offset.toNat).take AppHeadFrame.size
    let dataLen ← AppHeadFrame.getCmdLength c.packing frame
    some (c.container.modify fd (entry.msgcount + 1) now,
      [⟨fd, frame, buf.unread.drop AppHeadFrame.size, dataLen⟩])
  else none

/-- `OnConnection(clisock, error)`.  A socket that is refused is closed, by the IO layer and
later. -/
def onConnection (c : Conns) (now : UInt32) (clisock : ℕ) (error : ℤ) : Container × List ProcCall :=
  if error = 0 then
    let fd := c.fds clisock
    match c.container.insert ⟨fd, 0, now, clisock⟩ with
    | none => (c.container, [])
    | some container => (container, [ProcCall.event fd cmdSocketClientIn])
  else (c.container, [])

/-- `OnDisConnection(clisock)` -/
def onDisConnection (c : Conns) (clisock : ℕ) : Container × List ProcCall :=
  let fd := c.fds clisock
  (c.container.erase fd, [ProcCall.event fd cmdSocketClientOut])

/-- The socket is found under its descriptor. -/
def Finds (c : Conns) (clisock : ℕ) : Prop := c.container.find (c.fds clisock) ≠ none

instance (c : Conns) (clisock : ℕ) : Decidable (c.Finds clisock) :=
  inferInstanceAs (Decidable (_ ≠ none))

/-- What `Run` does for one message. -/
def dispatch (c : Conns) (now : UInt32) (clisock : ℕ) (m : Msg) :
    Option (Container × List ProcCall) :=
  match m.type with
  | .socketData =>
      match c.container.find (c.fds clisock) with
      | none => some (c.container, [])
      | some entry => c.procData now (c.fds clisock) entry m.buf
  | .socketIn => some (c.onConnection now clisock m.error)
  | .socketOut => some (c.onDisConnection clisock)

def serve (c : Conns) (now : UInt32) (clisock : ℕ) (m : Msg) : Option Conns := do
  let (container, calls) ← c.dispatch now clisock m
  some { c with
    container
    served := c.served ++ [⟨clisock, m.type, c.container.Lists clisock, calls⟩] }

end Conns

/-! ## Lanes -/

def Callback.received : Callback → Received
  | .onConnected clisock error => ⟨clisock, .socketIn, error, []⟩
  | .onDisconnected clisock => ⟨clisock, .socketOut, 0, []⟩
  | .onReceiveData clisock buffer => ⟨clisock, .socketData, 0, buffer.unread⟩

/-- The message tells of the callback; the bytes of a buffer are not compared. -/
structure Msg.TellsOf (m : Msg) (r : Received) : Prop where
  ptr_eq : m.ptr = some r.ptr
  type_eq : m.type = r.type
  error_eq : r.type = .socketIn → m.error = r.error

/-- A call for data needs the length in the frame. -/
theorem Conns.procData_eq_some {c : Conns} {now : UInt32} {fd : ℤ} {entry : Context} {buf : Buffer}
    {container : Container} {calls : List ProcCall}
    (h : c.procData now fd entry buf = some (container, calls)) :
    container = c.container.modify fd (entry.msgcount + 1) now ∧
      calls = [⟨fd, (buf.data.drop buf.offset.toNat).take AppHeadFrame.size,
        buf.unread.drop AppHeadFrame.size, AppHeadFrame.cmdLengthOf
          ((buf.data.drop buf.offset.toNat).take AppHeadFrame.size)⟩] := by
  rw [procData] at h
  split at h
  · obtain ⟨dataLen, hlen, h⟩ := Option.bind_eq_some_iff.mp h
    cases h
    cases hpacking : c.packing with
    | pragmaPack =>
        rw [hpacking] at hlen
        cases hlen
        exact ⟨rfl, rfl⟩
    | packedAttribute =>
        rw [hpacking] at hlen
        cases hlen
  · cases h

theorem Callback.tellsOf_of_fill {e : Callback} {old filled : Msg}
    (h : e.fill old = some filled) : filled.TellsOf e.received := by
  cases e with
  | onConnected clisock error =>
      cases h
      exact ⟨rfl, rfl, fun _ ↦ rfl⟩
  | onDisconnected clisock =>
      cases h
      exact ⟨rfl, rfl, nofun⟩
  | onReceiveData clisock buffer =>
      obtain ⟨buf, -, h⟩ := Option.bind_eq_some_iff.mp h
      cases h
      exact ⟨rfl, rfl, nofun⟩

structure Lane extends Conns where
  lists : MsgLists

namespace Lane

def init (packing : Packing) : Lane := ⟨Conns.init packing, MsgLists.init⟩

/-- A callback, under `_msg_lock`. -/
def callback (L : Lane) (e : Callback) : Option Lane := do
  let lists ← L.lists.callback e
  some ⟨L.toConns.record e.received, lists⟩

/-- One round of a loop of `Run` over the messages taken. -/
def process (L : Lane) (now : UInt32) : Option Lane := do
  let (p, m) ← L.lists.frontMsg
  let clisock ← m.ptr
  let conns ← L.toConns.serve now clisock m
  let lists ← L.lists.retire p
  some ⟨conns, lists⟩

end Lane

end Slience
