import Slience.Netio.BaseSocket
import Slience.Socket.Binding

/-!
# The life of one socket

A `TcpSocket` or `TcpConnector` over its `SocketImpl` while the service runs: the handlers that
the IO threads call, the calls of the user and `_DoClose`.  A step is a section that is locked
by `_writer.lock` or by the mutex of the socket, or what a handler does between two of them;
each handler has its place in the state, so the steps of all threads interleave.

The send queue is left to `BaseSocket`; whether `_TrySendData` finds data is part of the
step, and so is what the system calls give.
-/

namespace Slience

/-- The callbacks of `NetIo` for a socket. -/
inductive NetCallback
  | onConnected
  | onReceiveData
  | onDisconnected
  deriving DecidableEq

inductive SocketKind
  | tcpSocket
  | tcpConnector
  deriving DecidableEq

inductive LifePhase
  | idle
  | connecting
  /-- `ConnectOperation::Complete` calls `_ConnectHandler` -/
  | completed (error : Bool)
  /-- `_flag` is set, and `OnConnected` is called next -/
  | announcing
  /-- in `OnConnected` -/
  | announced
  | running
  /-- `OnConnected` was called with an error -/
  | failed
  /-- the endpoints of the connection could not be read -/
  | lost
  deriving DecidableEq

/-- `OnConnected` has not been called and is not about to be. -/
def LifePhase.early : LifePhase → Bool
  | idle | connecting | completed _ | lost => true
  | announcing | announced | running | failed => false

/-- The place of the thread that reads for the socket. -/
inductive Reader
  | away
  /-- `_ReadHandler` is called, with data and no error when `good` -/
  | called (good : Bool)
  /-- in `_CutMsgPack` -/
  | cutting
  /-- before `_PostClose` -/
  | closing
  deriving DecidableEq

structure Lifetime where
  svc : Epoll.Service
  flag : SocketState
  writing : Bool
  phase : LifePhase
  reader : Reader
  /-- `_WriteHandler` is called -/
  writer : Option Bool
  /-- the `IoServiceImpl` of each request with `_CloseHandler` that is queued or being served -/
  closereqs : List ℕ
  /-- `_DoClose` has closed the descriptor and calls the handler next -/
  closing : Bool
  log : List NetCallback

inductive LifeMove
  | asyncConnect (fd : Option ℕ) (v6 valid connected : Bool) (os : Epoll.Os) (error : SocketError)
  | connectDone (error : Bool)
  | connectHandler (endpoint : Bool)
  /-- `AcceptOperation::Complete` and the beginning of `Init` -/
  | accept (fd : ℕ) (v6 endpoint : Bool)
  | announce
  /-- `OnConnected` has returned -/
  | proceed (os : Epoll.Os)
  | readDone (good : Bool) (os : Epoll.Os)
  | readHandler
  | receive
  /-- `_CutMsgPack` returns `good` -/
  | readEnd (good : Bool) (os : Epoll.Os)
  | readClose
  | writeDone (good : Bool) (os : Epoll.Os)
  | writeHandler (more : Bool) (os : Epoll.Os)
  | send (os : Epoll.Os)
  | close
  | doClose
  | closeHandler
  /-- the other sockets of the service -/
  | others (socks : ℕ → Epoll.Sock) (implidx : UInt32)

namespace Lifetime

open Epoll

variable (impl : ℕ)

/-- `_GetIoServiceImpl` -/
def getIoServiceImpl (e : Service) : Option ℕ :=
  (e.socks impl).epoll.filter fun h ↦ h ∈ e.handlers

/-- `--simpl->_fdcnt` -/
def decFdcnt (e : Service) (h : ℕ) : Service :=
  { e with
    implvector := e.implvector.map fun p ↦
      if p.handler = h then { p with fdcnt := p.fdcnt - 1 } else p }

/-- `IoAccess::Close`, with the handler `_CloseHandler`. -/
def socketClose (s : Lifetime) : Lifetime :=
  let sock := s.svc.socks impl
  if sock.fd ≠ none ∧ .close ∉ sock.state then
    let simpl := getIoServiceImpl impl s.svc
    let svc := simpl.elim s.svc (decFdcnt s.svc)
    { s with
      svc := svc.setSock impl (if .block ∈ sock.state then { sock with fd := none, state := ∅ }
        else { sock with state := insert .close sock.state })
      closereqs := s.closereqs ++ simpl.toList }
  else s

/-- `TcpBaseSocket::_Close` -/
def close (s : Lifetime) : Lifetime :=
  if s.flag = .close then s
  else if s.writing then { s with flag := .stop }
  else socketClose impl { s with flag := .close }

/-- `_TrySendData`; `more` tells that there is data. -/
def trySendData (more : Bool) (os : Os) (s : Lifetime) : Bool × Lifetime :=
  if s.writing then (true, s)
  else if more then
    let (svc, error) := s.svc.asyncSendSome impl 0 0 impl os 0
    let s := { s with svc := svc }
    if error ≠ 0 then (false, close impl s) else (true, { s with writing := true })
  else (false, s)

/-- `Send`, where the data is neither empty nor too much. -/
def send (os : Os) (s : Lifetime) : Lifetime :=
  if s.flag ≠ .start then s else (trySendData impl true os s).2

/-- `_WriteHandler` -/
def writeHandler (good more : Bool) (os : Os) (s : Lifetime) : Lifetime :=
  let s := { s with writing := false }
  if ¬ good then close impl s
  else
    let (sent, s) := trySendData impl more os s
    if sent = false ∧ s.flag ≠ .start then close impl s else s

/-- `_TryRecvData` -/
def tryRecvData (os : Os) (s : Lifetime) : Lifetime :=
  let (svc, error) := s.svc.asyncRecvSome impl 0 0 impl os 0
  { s with svc := svc, reader := if error ≠ 0 then .closing else .away }

/-- `TcpConnector::AsyncConnect`.  `Open` gets the descriptor `fd`. -/
def asyncConnect (fd : Option ℕ) (v6 valid connected : Bool) (os : Os) (error : SocketError)
    (s : Lifetime) : Lifetime :=
  let sock := s.svc.socks impl
  let opened := sock.fd = none
  let state := if v6 then insert StateBit.v6 sock.state else sock.state.erase StateBit.v6
  let svc := if opened then s.svc.setSock impl { sock with fd := fd, state := state } else s.svc
  -- `Open` leaves the error alone when it succeeds
  if opened ∧ (fd = none ∨ error ≠ 0) then { s with svc := svc }
  else
    let (svc, error) := svc.asyncConnect impl valid connected impl os error
    { s with svc := svc, phase := if error ≠ 0 then s.phase else .connecting }

/-- The descriptor and the address family from `AcceptOperation::Complete`, then `Init` up to the
call of `OnConnected`. -/
def accept (fd : ℕ) (v6 endpoint : Bool) (s : Lifetime) : Lifetime :=
  let sock := s.svc.socks impl
  let state := if v6 then insert StateBit.v6 sock.state else sock.state.erase StateBit.v6
  let s := { s with svc := s.svc.setSock impl { sock with fd := some fd, state := state } }
  if endpoint then { s with flag := .start, phase := .announcing } else { s with phase := .lost }

/-- `_ConnectHandler`, up to the call of `OnConnected` where there is no error. -/
def connectHandler (error endpoint : Bool) (s : Lifetime) : Lifetime :=
  if error then { s with phase := .failed, log := s.log ++ [.onConnected] }
  else if endpoint then { s with flag := .start, phase := .announcing }
  else { s with phase := .lost }

/-- What follows `OnConnected`.  A connector ignores the error. -/
def proceed (kind : SocketKind) (os : Os) (s : Lifetime) : Lifetime :=
  let s := { s with phase := .running }
  match kind with
  | .tcpSocket => tryRecvData impl os s
  | .tcpConnector => { s with svc := (s.svc.asyncRecvSome impl 0 0 impl os 0).1 }

/-- `_ReadHandler` up to `_CutMsgPack`. -/
def readHandler (good : Bool) (s : Lifetime) : Lifetime :=
  { s with reader := if good ∧ s.flag = .start then .cutting else .closing }

/-- The locked section of `_DoClose`. -/
def doClose (s : Lifetime) : Lifetime :=
  { s with
    svc := s.svc.setSock impl { s.svc.socks impl with fd := none, state := ∅ }
    closing := true }

/-- `_CloseHandler`, and the request is done with. -/
def closeHandler (s : Lifetime) : Lifetime :=
  { s with log := s.log ++ [.onDisconnected], closereqs := s.closereqs.tail, closing := false }

def others (socks : ℕ → Sock) (implidx : UInt32) (s : Lifetime) : Lifetime :=
  { s with svc := { s.svc with
    socks := Function.update socks impl (s.svc.socks impl)
    implidx := implidx } }

variable (kind : SocketKind) (isco : Bool)

/-- An operation completes only when it is posted.  The user has an accepted socket from
`OnConnected`.  The thread of the socket is not in `_DoClose` while it is in a handler, unless a
callback of the user gives up the coroutine. -/
def enabled (s : Lifetime) : LifeMove → Prop
  | .asyncConnect .. => kind = .tcpConnector
  | .connectDone _ => (s.svc.socks impl).cop.impl = true
  | .connectHandler _ => s.phase = .completed true ∨ s.phase = .completed false
  | .accept .. => kind = .tcpSocket ∧ s.phase = .idle
  | .announce => s.phase = .announcing
  | .proceed _ => s.phase = .announced
  | .readDone .. => (s.svc.socks impl).rop.impl = true
  | .readHandler => s.reader = .called true ∨ s.reader = .called false
  | .receive => s.reader = .cutting
  | .readEnd .. => s.reader = .cutting
  | .readClose => s.reader = .closing
  | .writeDone .. => (s.svc.socks impl).wop.impl = true
  | .writeHandler .. => s.writer ≠ none
  | .send _ => kind = .tcpConnector ∨ s.phase = .announced ∨ s.phase = .running
  | .close => kind = .tcpConnector ∨ s.phase = .announced ∨ s.phase = .running
  | .doClose => s.closereqs ≠ [] ∧ s.closing = false ∧ s.phase ≠ .announcing ∧
      s.phase ≠ .completed true ∧ s.phase ≠ .completed false ∧
      (isco = true ∨ s.reader = .away ∨ s.reader = .closing)
  | .closeHandler => s.closing = true
  | .others .. => True

def step (s : Lifetime) : LifeMove → Option Lifetime
  | .asyncConnect fd v6 valid connected os error =>
      some (asyncConnect impl fd v6 valid connected os error s)
  | .connectDone error => do
      let (svc, notify) ← s.svc.connectComplete impl impl
      return { s with svc := svc, phase := if notify then .completed error else s.phase }
  | .connectHandler endpoint => some (connectHandler (s.phase = .completed true) endpoint s)
  | .accept fd v6 endpoint => some (accept impl fd v6 endpoint s)
  | .announce => some { s with phase := .announced, log := s.log ++ [.onConnected] }
  | .proceed os => some (proceed impl kind os s)
  | .readDone good os => do
      let (svc, notify) ← s.svc.readComplete impl impl os
      return { s with svc := svc, reader := if notify then .called good else s.reader }
  | .readHandler => some (readHandler (s.reader = .called true) s)
  | .receive => some { s with log := s.log ++ [.onReceiveData] }
  | .readEnd good os =>
      some (if good then tryRecvData impl os s else { s with reader := .closing })
  | .readClose => some { close impl s with reader := .away }
  | .writeDone good os => do
      let (svc, notify) ← s.svc.writeComplete impl impl os
      return { s with svc := svc, writer := if notify then some good else s.writer }
  | .writeHandler more os =>
      s.writer.map fun good ↦ writeHandler impl good more os { s with writer := none }
  | .send os => some (send impl os s)
  | .close => some (close impl s)
  | .doClose => some (doClose impl s)
  | .closeHandler => some (closeHandler s)
  | .others socks implidx => some (others impl socks implidx s)

def system : System Lifetime LifeMove where
  enabled := enabled impl kind isco
  step := step impl kind

instance (s : Lifetime) (a : LifeMove) : Decidable ((system impl kind isco).enabled s a) :=
  match a with
  | .asyncConnect .. => inferInstanceAs (Decidable (kind = .tcpConnector))
  | .connectDone _ => inferInstanceAs (Decidable ((s.svc.socks impl).cop.impl = true))
  | .connectHandler _ =>
      inferInstanceAs (Decidable (s.phase = .completed true ∨ s.phase = .completed false))
  | .accept .. => inferInstanceAs (Decidable (kind = .tcpSocket ∧ s.phase = .idle))
  | .announce => inferInstanceAs (Decidable (s.phase = .announcing))
  | .proceed _ => inferInstanceAs (Decidable (s.phase = .announced))
  | .readDone .. => inferInstanceAs (Decidable ((s.svc.socks impl).rop.impl = true))
  | .readHandler =>
      inferInstanceAs (Decidable (s.reader = .called true ∨ s.reader = .called false))
  | .receive => inferInstanceAs (Decidable (s.reader = .cutting))
  | .readEnd .. => inferInstanceAs (Decidable (s.reader = .cutting))
  | .readClose => inferInstanceAs (Decidable (s.reader = .closing))
  | .writeDone .. => inferInstanceAs (Decidable ((s.svc.socks impl).wop.impl = true))
  | .writeHandler .. => inferInstanceAs (Decidable (s.writer ≠ none))
  | .send _ => inferInstanceAs
      (Decidable (kind = .tcpConnector ∨ s.phase = .announced ∨ s.phase = .running))
  | .close => inferInstanceAs
      (Decidable (kind = .tcpConnector ∨ s.phase = .announced ∨ s.phase = .running))
  | .doClose => inferInstanceAs (Decidable (s.closereqs ≠ [] ∧ s.closing = false ∧
      s.phase ≠ .announcing ∧ s.phase ≠ .completed true ∧ s.phase ≠ .completed false ∧
      (isco = true ∨ s.reader = .away ∨ s.reader = .closing)))
  | .closeHandler => inferInstanceAs (Decidable (s.closing = true))
  | .others .. => isTrue trivial

/-! ### Completions -/

/-- The thread comes to `_ReadHandler`, or the socket has no descriptor any more. -/
theorem step_readDone {s : Lifetime} (good : Bool) (os : Os)
    (h : (s.svc.socks impl).rop.impl = true) :
    ∃ svc reader, step impl kind s (.readDone good os) =
        some { s with svc := svc, reader := reader } ∧
      Service.Section .read impl s.svc svc ∧ (reader = .cutting → s.reader = .cutting) := by
  obtain ⟨svc, hstep⟩ := Service.complete_of_impl .read s.svc impl impl os h
  refine ⟨svc, if ((s.svc.socks impl).fd).isSome then .called good else s.reader, ?_,
    (Service.complete_spec hstep).1, ?_⟩
  · change s.svc.readComplete impl impl os = some (svc, ((s.svc.socks impl).fd).isSome) at hstep
    rw [step, hstep]
    rfl
  · split
    · exact Reader.noConfusion
    · exact id

theorem step_writeDone {s : Lifetime} (good : Bool) (os : Os)
    (h : (s.svc.socks impl).wop.impl = true) :
    ∃ svc writer, step impl kind s (.writeDone good os) =
        some { s with svc := svc, writer := writer } ∧ Service.Section .write impl s.svc svc := by
  obtain ⟨svc, hstep⟩ := Service.complete_of_impl .write s.svc impl impl os h
  refine ⟨svc, if ((s.svc.socks impl).fd).isSome then some good else s.writer, ?_,
    (Service.complete_spec hstep).1⟩
  change s.svc.writeComplete impl impl os = some (svc, ((s.svc.socks impl).fd).isSome) at hstep
  rw [step, hstep]
  rfl

/-! ### Closing -/

theorem handlers_decFdcnt (e : Service) (h : ℕ) : (decFdcnt e h).handlers = e.handlers := by
  rw [Service.handlers, Service.handlers, decFdcnt, List.map_map]
  apply List.map_congr_left
  intro p _
  rw [Function.comp_apply]
  split <;> rfl

/-- `IoAccess::Close` changes the descriptor and the state, and queues at most one request. -/
theorem socketClose_eq (s : Lifetime) :
    ∃ svc fd state simpl, socketClose impl s =
        { s with svc := svc, closereqs := s.closereqs ++ Option.toList simpl } ∧
      svc.socks impl = { s.svc.socks impl with fd := fd, state := state } ∧
      svc.handlers = s.svc.handlers := by
  unfold socketClose
  dsimp only
  split
  · have hsvc : ((getIoServiceImpl impl s.svc).elim s.svc (decFdcnt s.svc)).handlers =
        s.svc.handlers := by
      cases getIoServiceImpl impl s.svc with
      | none => rfl
      | some h => exact handlers_decFdcnt s.svc h
    split
    · exact ⟨_, none, ∅, getIoServiceImpl impl s.svc, rfl, Service.setSock_same .., hsvc⟩
    · exact ⟨_, (s.svc.socks impl).fd, insert .close (s.svc.socks impl).state,
        getIoServiceImpl impl s.svc, rfl, Service.setSock_same .., hsvc⟩
  · refine ⟨s.svc, (s.svc.socks impl).fd, (s.svc.socks impl).state, none, ?_, rfl, rfl⟩
    rw [Option.toList_none, List.append_nil]

theorem socketClose_bound {s : Lifetime} {h : ℕ} (hfd : (s.svc.socks impl).fd ≠ none)
    (hclose : .close ∉ (s.svc.socks impl).state) (hepoll : (s.svc.socks impl).epoll = some h)
    (hmem : h ∈ s.svc.handlers) : (socketClose impl s).closereqs = s.closereqs ++ [h] := by
  have hfound : getIoServiceImpl impl s.svc = some h := by
    rw [getIoServiceImpl, hepoll, Option.filter_some, if_pos (decide_eq_true hmem)]
  rw [socketClose, if_pos ⟨hfd, hclose⟩, hfound]
  rfl

/-- A socket that has just been created. -/
structure Starts (s : Lifetime) : Prop where
  sock_eq : s.svc.socks impl = newSock
  flag_eq : s.flag = .stop
  writing_eq : s.writing = false
  phase_eq : s.phase = .idle
  reader_eq : s.reader = .away
  writer_eq : s.writer = none
  closereqs_eq : s.closereqs = []
  closing_eq : s.closing = false
  log_eq : s.log = []

end Lifetime

end Slience
