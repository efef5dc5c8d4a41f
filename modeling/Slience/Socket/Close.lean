import Slience.Lib.Run
import Slience.Base.SlistModel
import Slience.Socket.Epoll

/-!
# Closing sockets

`IoAccess::Close` only marks a socket that is bound to a running thread and puts a request into
the list `_closereqs` of that thread; the thread closes the descriptor between two rounds, in
`_DoClose`, and calls the handler.  The request objects go round: `_closereqs`, the local list
`closereqs` of the loop, its local list `closereqs2`, `_closereqs2`, and from there to the
next `Close`.

A step of a thread is a locked section, or what it does to its own lists between two of
them.  What was closed and called is a log of `_DoClose`; a step of the system also records the
calls of `Close` with their handlers, and the requests in the order they were queued.
-/

namespace Slience

namespace Epoll

/-- `SocketClose` -/
structure SocketClose where
  impl : Option ℕ
  handler : Option ℕ
  deriving DecidableEq

/-- `Clear` -/
def SocketClose.clear : SocketClose := ⟨none, none⟩

/-- A call of `Close`, or what it asks for. -/
structure CloseRequest where
  sock : ℕ
  handler : Option ℕ
  deriving DecidableEq

/-- `_closereqs`, `_closereqs2` and the two lists of the loop. -/
inductive CloseList
  | closereqs
  | closereqs2
  | local1
  | local2
  deriving DecidableEq

/-- Where `_DoClose` is. -/
inductive ClosePhase
  | idle
  | swapping
  | draining
  /-- the descriptor of the first request is closed -/
  | calling (cls : ℕ)
  /-- in its handler, or behind it -/
  | returning (cls : ℕ)
  | finishing
  deriving DecidableEq

inductive CloseEvent
  | closed (sock fd : ℕ)
  | called (sock handler : ℕ)
  deriving DecidableEq

def CloseEvent.descriptor : CloseEvent → Option ℕ
  | closed _ fd => some fd
  | called _ _ => none

structure Closer where
  socks : ℕ → Sock
  /-- `_handler` of the running `IoServiceImpl` -/
  handler : ℕ
  fdcnt : UInt32
  nodes : Heap (Node ℕ)
  objs : Heap SocketClose
  lists : CloseList → Slist
  phase : ClosePhase
  /-- calls of `Close` between their two sections -/
  pending : List CloseRequest
  calls : List CloseRequest
  enqueued : List CloseRequest
  log : List CloseEvent

inductive CloseMove
  | close (i : ℕ) (handler : Option ℕ)
  | enqueue (k : ℕ)
  /-- the loop thread goes on in `_DoClose` -/
  | loop
  deriving DecidableEq

def CloseMove.call : CloseMove → Option CloseRequest
  | close i handler => some ⟨i, handler⟩
  | enqueue _ => none
  | loop => none

namespace Closer

def setSock (s : Closer) (i : ℕ) (sock : Sock) : Closer :=
  { s with socks := Function.update s.socks i sock }

/-- `g_closesocket`, `fd = M_INVALID_SOCKET`, `state = 0` -/
def closeSocket (s : Closer) (i : ℕ) : Closer :=
  let sock := s.socks i
  { s.setSock i { sock with fd := none, state := ∅ } with
    log := s.log ++ sock.fd.toList.map (.closed i) }

/-- The first section of `IoAccess::Close`.  `_GetIoServiceImpl` finds the running thread by
the `epoll` instance of the socket. -/
def close (s : Closer) (i : ℕ) (handler : Option ℕ) : Closer :=
  let sock := s.socks i
  if sock.fd ≠ none ∧ .close ∉ sock.state then
    let found := sock.epoll = some s.handler
    let s := if found then { s with fdcnt := s.fdcnt - 1 } else s
    let s := if .block ∈ sock.state then s.closeSocket i
      else s.setSock i { sock with state := insert .close sock.state }
    if found then { s with pending := s.pending ++ [⟨i, handler⟩] } else s
  else s

/-- `_closereqs2.front()` and `pop_front()`, or a new object. -/
def takeClose (s : Closer) : Option (ℕ × Closer) :=
  if (s.lists .closereqs2).count ≠ 0 then do
    let cls ← (s.lists .closereqs2).front s.nodes
    let (l, nodes) ← (s.lists .closereqs2).popFront s.nodes
    return (cls, { s with lists := Function.update s.lists .closereqs2 l, nodes := nodes })
  else some (s.objs.fresh, { s with objs := s.objs.alloc .clear })

def pushClose (s : Closer) (w : CloseList) (cls : ℕ) : Option Closer := do
  let (l, nodes) ← (s.lists w).pushBack s.nodes cls
  return { s with lists := Function.update s.lists w l, nodes := nodes }

/-- The second section of `IoAccess::Close`. -/
def enqueue (s : Closer) (r : CloseRequest) : Option Closer := do
  let (cls, s) ← s.takeClose
  let objs ← s.objs.write cls ⟨some r.sock, r.handler⟩
  { s with objs := objs }.pushClose .closereqs cls

/-- The lists `closereqs` of the loop and `_closereqs` change places. -/
def swapNames : CloseList ≃ CloseList := Equiv.swap .closereqs .local1

/-- The next step in `_DoClose`.  A failed assertion has no result. -/
def doClose (s : Closer) : Option Closer :=
  match s.phase with
  | .idle =>
      if (s.lists .closereqs).count ≠ 0 then some { s with phase := .swapping }
      else some { s with phase := .draining }
  | .swapping => some { s with lists := s.lists ∘ swapNames, phase := .draining }
  | .draining =>
      if (s.lists .local1).count ≠ 0 then do
        let cls ← (s.lists .local1).front s.nodes
        let req ← s.objs.read cls
        let i ← req.impl
        return { s.closeSocket i with phase := .calling cls }
      else some { s with phase := .finishing }
  | .calling cls => do
      let req ← s.objs.read cls
      let i ← req.impl
      return { s with
        log := s.log ++ req.handler.toList.map (.called i)
        phase := .returning cls }
  | .returning cls => do
      let objs ← s.objs.write cls .clear
      let s ← { s with objs := objs }.pushClose .local2 cls
      let (l, nodes) ← (s.lists .local1).popFront s.nodes
      return { s with
        lists := Function.update s.lists .local1 l
        nodes := nodes
        phase := .draining }
  | .finishing => do
      let s ← if (s.lists .local2).count ≠ 0 then do
          let (l, nodes) ← (s.lists .closereqs2).join (s.lists .local2) s.nodes
          some { s with
            lists := Function.update (Function.update s.lists .local2 Slist.empty) .closereqs2 l
            nodes := nodes }
        else some s
      if (s.lists .local1).count = 0 ∧ (s.lists .local2).count = 0 then
        return { s with phase := .idle }
      else none

/-- The sockets `S` are closed by any thread at any time. -/
def system (S : Set ℕ) : System Closer CloseMove where
  enabled s
    | .close i _ => i ∈ S
    | .enqueue k => k < s.pending.length
    | .loop => True
  step s
    | .close i handler => some { s.close i handler with calls := s.calls ++ [⟨i, handler⟩] }
    | .enqueue k => do
        let r ← s.pending[k]?
        let s ← { s with pending := s.pending.eraseIdx k }.enqueue r
        return { s with enqueued := s.enqueued ++ [r] }
    | .loop => s.doClose

instance (S : Set ℕ) [DecidablePred (· ∈ S)] (s : Closer) (a : CloseMove) :
    Decidable ((system S).enabled s a) :=
  match a with
  | .close i _ => inferInstanceAs (Decidable (i ∈ S))
  | .enqueue k => inferInstanceAs (Decidable (k < s.pending.length))
  | .loop => isTrue trivial

end Closer

end Epoll

end Slience
