import Slience.Lib.Locking
import Slience.Socket.Close

/-!
# The calls of `IoAccess`

The calls on one socket that both services share: opening, the synchronous calls and `Close`, with
what they do to the registry of the service.  A call takes the mutex of the socket for its
sections and lets it go by hand; the registry has a mutex of its own, which is held inside of a
section and left out here.

`_epoll` and `_iocp` are one field, empty where the socket has neither.  The mode of the descriptor
in the kernel stands beside the block bit that should tell it.
-/

namespace Slience

namespace SocketError

def socketOpen : SocketError := base + 1

def iocpInvalid : SocketError := base + 4

def isNonblock : SocketError := base + 18

def timeout : SocketError := base + 19

/-- `M_ESHOULDBLOCK`, `EINPROGRESS` -/
def shouldBlock : SocketError := 115

end SocketError

namespace IoAccess

open Epoll (StateBit Dir Os Ctl CloseRequest)

/-- `SocketImpl::core`.  `nonblock` is `O_NONBLOCK` of the descriptor. -/
structure Core where
  io : Option ℕ
  fd : Option ℕ
  state : Finset StateBit
  nonblock : Bool
  deriving DecidableEq

/-- The `IoServiceImpl` of a thread. -/
structure ThreadImpl where
  handler : ℕ
  fdcnt : UInt32
  closereqs : List CloseRequest
  deriving DecidableEq

/-- `_implvector`, `_implmap` and `_implidx` of the service, with the objects of all threads.  A
pointer to one is the number of its thread. -/
structure Registry where
  impls : ℕ → ThreadImpl
  implvector : List ℕ
  implmap : ℕ → Option ℕ
  implidx : UInt32

/-- What the calls on one socket change. -/
structure World where
  core : Core
  service : Registry

namespace Core

/-- `Init` of a `SocketImpl` without a `core`. -/
def new : Core := ⟨none, none, ∅, false⟩

/-- `ConstructImpl` -/
def constructImpl (c : Core) : Core :=
  { c with state := insert .block ((c.state.erase .v6).erase .bind) }

/-- `Open`, for an address family and the result of `socket`. -/
def openSocket (c : Core) (v6 : Bool) (socket : Except SocketError ℕ) (error : SocketError) :
    Core × SocketError :=
  if c.fd ≠ none then (c, .socketOpen)
  else
    let c := { c with state := if v6 then insert .v6 c.state else c.state.erase .v6 }
    match socket with
    | .ok fd => ({ c with fd := some fd, nonblock := false }, error)
    | .error last => (c, last)

/-- `SetNonBlock` of the descriptor, for whether the kernel does it. -/
def setNonBlock (done : Bool) (c : Core) : Core :=
  { c with nonblock := c.nonblock || (done && c.fd.isSome) }

/-- `SetBlock` -/
def setBlock (done : Bool) (c : Core) : Core :=
  { c with nonblock := c.nonblock && !(done && c.fd.isSome) }

/-- `g_closesocket`, `fd = M_INVALID_SOCKET`, `state = 0` -/
def shut (c : Core) : Core := { c with fd := none, state := ∅ }

def setFlag (b : StateBit) (c : Core) : Core := { c with state := insert b c.state }

def clearFlag (b : StateBit) (c : Core) : Core := { c with state := c.state.erase b }

/-- What the asynchronous calls do to a socket in blocking mode once `SetNonBlock` succeeds. -/
def becomeNonblock (c : Core) : Core :=
  if .block ∈ c.state then (c.setNonBlock true).clearFlag .block else c

@[simp] theorem io_becomeNonblock (c : Core) : c.becomeNonblock.io = c.io := by
  rw [becomeNonblock]
  split <;> rfl

@[simp] theorem fd_becomeNonblock (c : Core) : c.becomeNonblock.fd = c.fd := by
  rw [becomeNonblock]
  split <;> rfl

@[simp] theorem state_becomeNonblock (c : Core) :
    c.becomeNonblock.state = c.state.erase .block := by
  rw [becomeNonblock]
  split
  · rfl
  · rename_i h
    exact (Finset.erase_eq_of_notMem h).symm

end Core

namespace Registry

def setImpl (r : Registry) (p : ℕ) (f : ThreadImpl → ThreadImpl) : Registry :=
  { r with impls := Function.update r.impls p (f (r.impls p)) }

/-- `_GetIoServiceImpl` -/
def getIoServiceImpl (r : Registry) (io : Option ℕ) : Option ℕ :=
  if io = some 0 then none else io.bind r.implmap

/-- `_CreateIoImpl` of thread `p`. -/
def createIoImpl (r : Registry) (p : ℕ) (error : SocketError) : Registry × SocketError :=
  let handler := (r.impls p).handler
  if handler = 0 then (r, .iocpInvalid)
  else
    ({ r with
      implmap := Function.update r.implmap handler (some p)
      implvector := r.implvector ++ [p] }, error)

/-- `_ReleaseIoImpl` of thread `p`.  `Close` of its `IoServiceImpl` makes a new `handler`. -/
def releaseIoImpl (r : Registry) (p handler : ℕ) : Registry :=
  { r.setImpl p fun _ ↦ ⟨handler, 0, []⟩ with implvector := r.implvector.erase p }

/-- `--simpl->_fdcnt` -/
def forget (r : Registry) : Option ℕ → Registry
  | none => r
  | some p => r.setImpl p fun s ↦ { s with fdcnt := s.fdcnt - 1 }

/-- The second section of `Close`. -/
def request (r : Registry) (close : CloseRequest) : Option ℕ → Registry
  | none => r
  | some p => r.setImpl p fun s ↦ { s with closereqs := s.closereqs ++ [close] }

end Registry

namespace World

def setCore (f : Core → Core) (w : World) : World := { w with core := f w.core }

def setService (f : Registry → Registry) (w : World) : World := { w with service := f w.service }

/-- The choice of an `IoServiceImpl` in `CtlEpoll` and `BindIocp`. -/
def chooseImpl (w : World) : World :=
  if h : w.service.implvector = [] then w
  else
    let idx := w.service.implidx + 1
    let p := w.service.implvector.get
      ⟨idx.toNat % w.service.implvector.length, Nat.mod_lt _ (List.length_pos_iff.mpr h)⟩
    { core := { w.core with io := some (w.service.impls p).handler }
      service :=
        { w.service.setImpl p fun s ↦ { s with fdcnt := s.fdcnt + 1 } with implidx := idx } }

/-- `CtlEpoll`, but for what the kernel registers. -/
def ctlEpoll (w : World) (flag : Ctl) (os : Os) (error : SocketError) : World × SocketError :=
  let w := if flag = .add ∧ w.core.io = none then w.chooseImpl else w
  if w.core.io = none then (w, .notService)
  else if os.ctl then (w, error)
  else (w, os.last)

end World

open Locking

/-- `Close` of socket `sock`.  `closed` is the error of `closesocket`. -/
def close (sock : ℕ) (handler : Option ℕ) (closed : Option SocketError) (error : SocketError) :
    Locking World SocketError := do
  lock
  let w ← look
  if w.core.fd ≠ none ∧ .close ∉ w.core.state then
    let simpl := w.service.getIoServiceImpl w.core.io
    change (World.setService (·.forget simpl))
    let block : Bool := StateBit.block ∈ w.core.state
    change (World.setCore fun c ↦ if block then c.shut else c.setFlag .close)
    unlock
    change (World.setService (·.request ⟨sock, handler⟩ simpl))
    return if block then closed.getD error else error
  else
    unlock
    return error

/-- What `Close` does to the socket. -/
def Core.close (c : Core) : Core :=
  if c.fd ≠ none ∧ .close ∉ c.state then
    if .block ∈ c.state then c.shut else c.setFlag .close
  else c

/-- What `Close` does where no other thread comes between its sections. -/
def World.close (sock : ℕ) (handler : Option ℕ) (w : World) : World :=
  if w.core.fd ≠ none ∧ .close ∉ w.core.state then
    let simpl := w.service.getIoServiceImpl w.core.io
    ⟨w.core.close, (w.service.forget simpl).request ⟨sock, handler⟩ simpl⟩
  else w

theorem World.core_close (sock : ℕ) (handler : Option ℕ) (w : World) :
    (w.close sock handler).core = w.core.close := by
  by_cases h : w.core.fd ≠ none ∧ .close ∉ w.core.state
  · rw [close, if_pos h]
  · rw [close, Core.close, if_neg h, if_neg h]

theorem close_alone {sock : ℕ} {handler : Option ℕ} {closed : Option SocketError}
    {error : SocketError} {h : Holder World} (halone : h.others = []) :
    (close sock handler closed error h).2.state = h.state.close sock handler ∧
      (close sock handler closed error h).2.others = [] := by
  rw [close, bind_apply, lock_apply, bind_apply, look_apply, World.close]
  dsimp only
  rw [Holder.found_alone halone]
  by_cases hopen : h.state.core.fd ≠ none ∧ .close ∉ h.state.core.state
  · rw [if_pos hopen, if_pos hopen]
    simp [World.setCore, World.setService, Core.close, hopen, halone]
  · rw [if_neg hopen, if_neg hopen]
    exact ⟨rfl, by simp [halone]⟩

/-- What `select` and `getsockopt(SO_ERROR)` say about a connect. -/
inductive SelectResult
  | timeout
  | failed (last : SocketError)
  | ready (code : SocketError)
  deriving DecidableEq

/-- `Select`: what it returns, and its error. -/
def select (r : SelectResult) (error : SocketError) : ℤ × SocketError :=
  match r with
  | .timeout => (-1, .timeout)
  | .failed last => (-2, last)
  | .ready code => if code = 0 then (0, error) else (-2, code)

/-- What the system calls of `Connect` give: whether `SetNonBlock` and `SetBlock` succeed, `errno`
of a `connect` that fails, and `errno` behind it. -/
structure ConnectCalls where
  nonblock : Bool
  connect : Option SocketError
  select : SelectResult
  closed : Option SocketError
  last : SocketError
  block : Bool

/-- `Connect` between its sections: what `ret` is behind it, and its error. -/
def awaitConnect (sock : ℕ) (timeo : Option ℕ) (os : ConnectCalls) (error : SocketError) :
    Locking World (ℤ × SocketError) :=
  if os.connect = some .shouldBlock ∧ timeo ≠ none then
    if (select os.select error).1 ≠ 0 then do
      let error ← close sock none os.closed (select os.select error).2
      return ((select os.select error).1, error)
    else return select os.select error
  else return (if os.connect = none then 0 else -1, error)

/-- `Connect`.  `timeo` is empty for -1. -/
def connect (sock : ℕ) (valid : Bool) (timeo : Option ℕ) (os : ConnectCalls)
    (error : SocketError) : Locking World SocketError :=
  leaving do
    lock
    let w ← look
    if w.core.fd = none then return .brk .badDescriptor
    else if .connect ∈ w.core.state then return .brk .postedConnect
    else if ¬ valid then return .brk .endpointInvalid
    else if timeo = none ∧ .block ∉ w.core.state then return .brk .isNonblock
    else
      let blocking : Bool := timeo ≠ none ∧ StateBit.block ∈ w.core.state
      change (World.setCore fun c ↦ if blocking then c.setNonBlock os.nonblock else c)
      change (World.setCore (·.setFlag .connect))
      unlock
      let (ret, error) ← awaitConnect sock timeo os error
      lock
      change (World.setCore (·.setBlock os.block))
      change (World.setCore (·.clearFlag .connect))
      unlock
      return .ret (if ret ≠ 0 ∧ error = 0 then os.last else error)

/-- `Accept`, for the descriptor of `peer` and what `accept` gives when it is not `ECONNRESET`. -/
def accept (peer : Option ℕ) (accepted : Except SocketError ℕ) (error : SocketError) :
    Locking World (Option ℕ × SocketError) :=
  leaving do
    lock
    let w ← look
    if w.core.fd = none then return .brk (peer, .badDescriptor)
    else if .accept ∈ w.core.state then return .brk (peer, .postedAccept)
    else if .block ∉ w.core.state then return .brk (peer, .isNonblock)
    else
      change (World.setCore (·.setFlag .accept))
      unlock
      lock
      change (World.setCore (·.clearFlag .accept))
      unlock
      match accepted with
      | .ok fd => return .ret (some fd, error)
      | .error last => return .ret (none, last)

/-- `SendSome` and `RecvSome`, for what `send` or `recv` gives.  The first result is what they
return, empty for `M_SOCKET_ERROR`. -/
def someSync (d : Dir) (transferred : Except SocketError ℕ) (error : SocketError) :
    Locking World (Option ℕ × SocketError) :=
  leaving do
    lock
    let w ← look
    if w.core.fd = none then return .brk (none, .badDescriptor)
    else if d.flag ∈ w.core.state then return .brk (none, d.posted)
    else if .block ∉ w.core.state then return .brk (none, .isNonblock)
    else
      change (World.setCore (·.setFlag d.flag))
      unlock
      lock
      change (World.setCore (·.clearFlag d.flag))
      unlock
      match transferred with
      | .ok len => return .ret (some len, error)
      | .error last => return .ret (none, last)

/-- `SendSome` -/
def sendSome := someSync .write

/-- `RecvSome` -/
def recvSome := someSync .read

end IoAccess

end Slience
