import Mathlib.Data.Finset.Insert
import Mathlib.Data.Finset.Lattice.Basic
import Mathlib.Data.Int.Order.Basic
import Mathlib.Logic.Function.Basic
import Mathlib.Tactic

/-!
# Sockets of `EpollService`

A socket is posted an operation by one of the `Async` functions and completed by the
thread whose `epoll` instance it was bound to.  The flags of the socket, the `_type` of its
operations and what the kernel has registered say in three places what is posted.

A socket and its `OperationSet` are named by a number; `data.ptr` of an event is such a number.
The bits of a word are the set of those that are one.
-/

namespace Slience

/-- A code of `error.hpp`, of the system, or zero. -/
abbrev SocketError := ℤ

namespace SocketError

/-- `M_ERR_BASE_NAG_NUM` -/
def base : SocketError := -2000

def endpointInvalid : SocketError := base + 2

def postedAccept : SocketError := base + 9

def postedConnect : SocketError := base + 10

def postedWrite : SocketError := base + 11

def postedRead : SocketError := base + 12

def acceptFail : SocketError := base + 13

def badDescriptor : SocketError := base + 16

def notService : SocketError := base + 17

end SocketError

namespace Epoll

/-- The bits of `_state`, the type of the socket apart. -/
inductive StateBit
  | v6
  | bind
  | block
  | accept
  | connect
  | write
  | read
  | close
  deriving DecidableEq

/-- The bits of `_type`. -/
inductive OpBit
  | accept
  | connect
  | write
  | read
  | finish
  deriving DecidableEq

inductive EventBit
  | epollin
  | epollout
  | epollerr
  | epollhup
  | epolloneshot
  deriving DecidableEq

inductive Ctl
  | add
  | mod
  | del
  deriving DecidableEq

/-- `ReadOperation`, `WriteOperation`.  `_impl` is the socket or empty. -/
structure RwOperation where
  buf : ℕ
  len : ℕ
  impl : Bool
  handler : Option ℕ
  deriving DecidableEq

/-- `Clear` -/
def RwOperation.clear : RwOperation := ⟨0, 0, false, none⟩

/-- `AcceptOperation` -/
structure AcceptOperation where
  acptImpl : Bool
  cliImpl : Option ℕ
  handler : Option ℕ
  deriving DecidableEq

/-- `Clear` -/
def AcceptOperation.clear : AcceptOperation := ⟨false, none, none⟩

/-- `ConnectOperation` -/
structure ConnectOperation where
  impl : Bool
  handler : Option ℕ
  deriving DecidableEq

/-- `Clear` -/
def ConnectOperation.clear : ConnectOperation := ⟨false, none⟩

/-- `SocketImpl::core` with its `OperationSet`, and the `data.ptr` and `events` that its `epoll`
instance has for the descriptor. -/
structure Sock where
  epoll : Option ℕ
  fd : Option ℕ
  state : Finset StateBit
  type : Finset OpBit
  aop : AcceptOperation
  cop : ConnectOperation
  wop : RwOperation
  rop : RwOperation
  interest : Option (ℕ × Finset EventBit)

structure IoServiceImpl where
  handler : ℕ
  fdcnt : UInt32
  deriving DecidableEq

/-- All sockets, `_implvector` and `_implidx`. -/
structure Service where
  socks : ℕ → Sock
  implvector : List IoServiceImpl
  implidx : UInt32

/-- What the system calls of one locked section give: whether `SetNonBlock` and `epoll_ctl`
succeed, and `errno` when they do not. -/
structure Os where
  nonblock : Bool
  ctl : Bool
  last : SocketError
  last_ne : last ≠ 0

/-- All calls succeed. -/
def Os.good : Os := ⟨true, true, 1, one_ne_zero⟩

namespace Service

def setSock (e : Service) (i : ℕ) (s : Sock) : Service :=
  { e with socks := Function.update e.socks i s }

/-- The choice of an `IoServiceImpl` in `CtlEpoll`. -/
def chooseImpl (e : Service) (i : ℕ) : Service :=
  if e.implvector = [] then e
  else
    let idx := (e.implidx + 1).toNat % e.implvector.length
    let handler := (e.implvector[idx]?).map (·.handler)
    { e.setSock i { e.socks i with epoll := handler } with
      implidx := e.implidx + 1
      implvector := e.implvector.modify idx fun p ↦ { p with fdcnt := p.fdcnt + 1 } }

/-- `CtlEpoll` -/
def ctlEpoll (e : Service) (i opset : ℕ) (flag : Ctl) (events : Finset EventBit) (os : Os)
    (error : SocketError) : Service × SocketError :=
  let e := if flag = .add ∧ (e.socks i).epoll = none then e.chooseImpl i else e
  if (e.socks i).epoll = none then (e, .notService)
  else if os.ctl then
    (e.setSock i { e.socks i with interest := if flag = .del then none else some (opset, events) },
      error)
  else (e, os.last)

end Service

/-! ## Reading and writing -/

inductive Dir
  | read
  | write
  deriving DecidableEq

namespace Dir

def other : Dir → Dir
  | read => write
  | write => read

def flag : Dir → StateBit
  | read => .read
  | write => .write

def bit : Dir → OpBit
  | read => .read
  | write => .write

def event : Dir → EventBit
  | read => .epollin
  | write => .epollout

/-- `M_ERR_POSTED_READ`, `M_ERR_POSTED_WRITE` -/
def posted : Dir → SocketError
  | read => .postedRead
  | write => .postedWrite

end Dir

def Sock.setOp (s : Sock) (op : RwOperation) : Dir → Sock
  | .read => { s with rop := op }
  | .write => { s with wop := op }

namespace Service

def setOp (e : Service) (d : Dir) (i : ℕ) (op : RwOperation) : Service :=
  e.setSock i ((e.socks i).setOp op d)

/-- The flags that are set once a post is accepted. -/
def markPosted (d : Dir) (s : Sock) : Sock :=
  { s with
    state := insert .bind (insert d.flag (s.state.erase .block))
    type := if d.other.flag ∈ s.state then {d.bit, d.other.bit} else {d.bit} }

/-- The events of a post. -/
def postEvents (d : Dir) (s : Sock) : Finset EventBit :=
  if d.other.flag ∈ s.state then {d.event, d.other.event} else {d.event}

/-- The locked section of `AsyncRecvSome` and `AsyncSendSome`.  The last component is `true` where
the section is left by a `break`. -/
def postSection (d : Dir) (e : Service) (i : ℕ) (os : Os) (error : SocketError) :
    Service × SocketError × Bool :=
  let s := e.socks i
  if s.fd = none then (e, .badDescriptor, true)
  else if d.flag ∈ s.state then (e, d.posted, true)
  else if .block ∈ s.state ∧ ¬ os.nonblock then (e, os.last, true)
  else
    let ctl : Ctl := if .bind ∈ s.state then .mod else .add
    let (e, error) := (e.setSock i (markPosted d s)).ctlEpoll i i ctl (postEvents d s) os error
    if error ≠ 0 then
      let s := e.socks i
      let s := { s with state := (s.state.erase d.flag).erase .bind }
      (e.setSock i (s.setOp .clear d), error, false)
    else (e, error, false)

/-- `AsyncRecvSome` and `AsyncSendSome` for their operation. -/
def asyncSome (d : Dir) (e : Service) (i buf len handler : ℕ) (os : Os) (error : SocketError) :
    Service × SocketError :=
  let e := e.setOp d i ⟨buf, len, true, some handler⟩
  let (e, error, brk) := e.postSection d i os error
  if brk then (e.setOp d i .clear, error) else (e, error)

/-- `AsyncRecvSome` -/
def asyncRecvSome := asyncSome .read

/-- `AsyncSendSome` -/
def asyncSendSome := asyncSome .write

/-- The locked section of `ReadOperation::Complete` of socket `i` for an event whose `data.ptr`
is `opset`.  There is no result when the operation was cleared: its `_impl` has no mutex. -/
def readSection (e : Service) (i opset : ℕ) (os : Os) : Option Service :=
  if (e.socks i).rop.impl then
    if (e.socks i).fd ≠ none then
      let s := e.socks i
      let e := e.setSock i { s with state := s.state.erase .read }
      let s := e.socks opset
      let e := e.setSock opset { s with type := s.type.erase .read }
      let flag : Finset EventBit := if .write ∈ (e.socks opset).type then {.epollout} else ∅
      some (e.ctlEpoll i opset .mod flag os 0).1
    else some e
  else none

/-- The locked section of `WriteOperation::Complete`. -/
def writeSection (e : Service) (i opset : ℕ) (os : Os) : Option Service :=
  if (e.socks i).wop.impl then
    let s := e.socks opset
    let e := e.setSock opset { s with type := s.type.erase .write }
    if (e.socks i).fd ≠ none then
      let s := e.socks i
      let e := e.setSock i { s with state := s.state.erase .write }
      let flag : Finset EventBit := if .read ∈ (e.socks opset).type then {.epollin} else ∅
      some (e.ctlEpoll i opset .mod flag os 0).1
    else some e
  else none

/-- `ReadOperation::Complete` up to the call of the handler.  The second component tells whether
it is called. -/
def readComplete (e : Service) (i opset : ℕ) (os : Os) : Option (Service × Bool) := do
  let notify := ((e.socks i).fd).isSome
  let e ← e.readSection i opset os
  return (e.setOp .read i .clear, notify)

/-- `WriteOperation::Complete` up to the call of the handler. -/
def writeComplete (e : Service) (i opset : ℕ) (os : Os) : Option (Service × Bool) := do
  let notify := ((e.socks i).fd).isSome
  let e ← e.writeSection i opset os
  return (e.setOp .write i .clear, notify)

end Service

/-! ## Accepting and connecting -/

/-- `accept`, and behind it `getsockopt(SO_ERROR)`, which may fail. -/
structure AcceptResult where
  fd : Option ℕ
  sockopt : Option SocketError

/-- The error that `AcceptOperation::Complete` gives to its handler. -/
def AcceptResult.error (r : AcceptResult) : SocketError :=
  match r.fd, r.sockopt with
  | some _, _ => 0
  | none, none => .acceptFail
  | none, some value => value

namespace Service

/-- `AsyncAccept` -/
def asyncAccept (e : Service) (i cli handler : ℕ) (os : Os) (error : SocketError) :
    Service × SocketError :=
  let s := e.socks i
  if s.fd = none then (e, .badDescriptor)
  else if .accept ∈ s.state then (e, .postedAccept)
  else if .block ∈ s.state ∧ ¬ os.nonblock then (e, os.last)
  else
    let e := e.setSock i { s with
      state := insert .accept (s.state.erase .block)
      type := {.accept}
      aop := ⟨true, some cli, some handler⟩ }
    let s := e.socks i
    let (e, error) :=
      if .bind ∈ s.state then (e, error)
      else
        (e.setSock i { s with state := insert .bind s.state }).ctlEpoll i i .add {.epollin} os error
    if error ≠ 0 then
      let s := e.socks i
      (e.setSock i { s with state := (s.state.erase .accept).erase .bind, aop := .clear }, error)
    else (e, error)

/-- `AcceptOperation::Complete` up to the call of the handler, which is the second component. -/
def acceptComplete (e : Service) (i : ℕ) (r : AcceptResult) : Option (Service × ℕ) := do
  let s := e.socks i
  if s.aop.acptImpl then
    let cli ← s.aop.cliImpl
    let handler ← s.aop.handler
    let e := if s.fd ≠ none then e.setSock i { s with state := s.state.erase .accept } else e
    let e := match r.fd with
      | none => e
      | some fd =>
          let state := if StateBit.v6 ∈ s.state then (e.socks cli).state.erase StateBit.v6
            else insert StateBit.v6 (e.socks cli).state
          e.setSock cli { e.socks cli with fd := some fd, state := state }
    return (e.setSock i { e.socks i with aop := .clear }, handler)
  else none

/-- `AsyncConnect`, for an endpoint that is valid or not and the result of `connect`. -/
def asyncConnect (e : Service) (i : ℕ) (valid connected : Bool) (handler : ℕ) (os : Os)
    (error : SocketError) : Service × SocketError :=
  let s := e.socks i
  if s.fd = none then (e, .badDescriptor)
  else if .connect ∈ s.state then (e, .postedConnect)
  else if ¬ valid then (e, .endpointInvalid)
  else if .block ∈ s.state ∧ ¬ os.nonblock then (e, os.last)
  else
    let e := e.setSock i { s with state := s.state.erase .block }
    if ¬ connected then (e, os.last)
    else
      let s := e.socks i
      let e := e.setSock i { s with
        state := insert .connect s.state
        type := {.connect}
        cop := ⟨true, some handler⟩ }
      let s := e.socks i
      let (e, error) :=
        if .bind ∈ s.state then (e, error)
        else (e.setSock i { s with state := insert .bind s.state }).ctlEpoll i i .add
          {.epollout, .epolloneshot} os error
      if error ≠ 0 then
        let s := e.socks i
        (e.setSock i { s with state := (s.state.erase .connect).erase .bind, cop := .clear }, error)
      else (e, error)

/-- `ConnectOperation::Complete` up to the call of the handler. -/
def connectComplete (e : Service) (i opset : ℕ) : Option (Service × Bool) :=
  let s := e.socks i
  if s.cop.impl then
    let e := if s.fd ≠ none then e.setSock i { s with state := s.state.erase .connect } else e
    let t := e.socks opset
    let e := e.setSock opset { t with type := t.type.erase .connect }
    some (e.setSock i { e.socks i with cop := .clear }, s.fd.isSome)
  else none

end Service

end Epoll

end Slience
