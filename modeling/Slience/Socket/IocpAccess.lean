import Slience.Socket.IoAccess

/-!
# The mutex of a socket

The asynchronous calls of `IocpService` lock and unlock the mutex of their socket by hand, as the
synchronous ones and `Close` do.  Eight of the nine take it first; `AsyncConnect` never takes it
before its `unlock`.  `AsyncSendSome` is left by a `return` where a write is posted, with the mutex,
and falls through to a second `unlock` behind a post.

The operations are left out: they are written outside of the sections.
-/

namespace Slience

namespace IoAccess

open Epoll (StateBit Dir Os)

open Locking

/-- `BindIocp`; `os.ctl` says whether `CreateIoCompletionPort` gives the port of the socket. -/
def World.bindIocp (w : World) (os : Os) (error : SocketError) : World × SocketError :=
  w.ctlEpoll .add os error

/-- The statements of the four calls in front of their post: the socket, the error, and whether
they are left by a `break`. -/
def World.prepare (w : World) (os : Os) (error : SocketError) : World × SocketError × Bool :=
  if .block ∈ w.core.state ∧ ¬ os.nonblock then (w, os.last, true)
  else
    let w := w.setCore Core.becomeNonblock
    if .bind ∉ w.core.state then
      let (w, error) := w.bindIocp os error
      if error ≠ 0 then (w, error, true) else (w.setCore (·.setFlag .bind), error, false)
    else (w, error, false)

/-- Behind a post, whose error is `posted`, empty also where it is pending. -/
def posted (flag : StateBit) (error : SocketError) :
    Option SocketError → Locking World SocketError
  | none => return error
  | some last => do
      lock
      change (World.setCore (·.clearFlag flag))
      unlock
      return last

/-- `Close` of another socket, which has a mutex of its own. -/
def closeOther (sock : ℕ) (client : Core) (service : Registry) : World :=
  (close sock none none 0 (Holder.enter ⟨client, service⟩ [])).2.state

/-- `AsyncAccept`, for the client socket and its number, `socket` of its `Open`, and the error of
an `AcceptEx` that is not `ECONNRESET`. -/
def asyncAccept (sock : ℕ) (client : Core) (os : Os) (socket : Except SocketError ℕ)
    (accepted : Option SocketError) (error : SocketError) : Locking World (Core × SocketError) :=
  leaving do
    lock
    let w ← look
    if w.core.fd = none then return .brk (client, .badDescriptor)
    else if .accept ∈ w.core.state then return .brk (client, .postedAccept)
    else
      let (w, error, brk) := w.prepare os error
      change fun _ ↦ w
      if brk then return .brk (client, error)
      else
        let (client, error) :=
          client.constructImpl.openSocket (decide (.v6 ∈ w.core.state)) socket error
        if error ≠ 0 then return .brk (client, error)
        else
          change (World.setCore (·.setFlag .accept))
          unlock
          let w ← look
          let closed := closeOther sock client w.service
          change (World.setService fun service ↦
            if accepted = none then service else closed.service)
          let error ← posted .accept error accepted
          return .ret (if accepted = none then client else closed.core, error)

/-- `AsyncConnect`, for an endpoint that is valid or not and the error of `ConnectEx`. -/
def asyncConnect (valid : Bool) (os : Os) (connected : Option SocketError) (error : SocketError) :
    Locking World SocketError :=
  leaving do
    let w ← look
    if w.core.fd = none then return .brk .badDescriptor
    else if .connect ∈ w.core.state then return .brk .postedConnect
    else if ¬ valid then return .brk .endpointInvalid
    else
      let (w, error, brk) := w.prepare os error
      change fun _ ↦ w
      if brk then return .brk error
      else
        change (World.setCore (·.setFlag .connect))
        unlock
        let error ← posted .connect error connected
        return .ret error

/-- `AsyncRecvSome`, for the error of `WSARecv`. -/
def asyncRecvSome (os : Os) (received : Option SocketError) (error : SocketError) :
    Locking World SocketError :=
  leaving do
    lock
    let w ← look
    if w.core.fd = none then return .brk .badDescriptor
    else if .read ∈ w.core.state then return .brk .postedRead
    else
      let (w, error, brk) := w.prepare os error
      change fun _ ↦ w
      if brk then return .brk error
      else
        change (World.setCore (·.setFlag .read))
        unlock
        let error ← posted .read error received
        return .ret error

/-- `AsyncSendSome`, for the error of `WSASend`. -/
def asyncSendSome (os : Os) (sent : Option SocketError) (error : SocketError) :
    Locking World SocketError :=
  leaving do
    lock
    let w ← look
    if w.core.fd = none then return .brk .badDescriptor
    -- the `return` of the source, where its sibling has a `break`
    else if .write ∈ w.core.state then return .ret .postedWrite
    else
      let (w, error, brk) := w.prepare os error
      change fun _ ↦ w
      if brk then return .brk error
      else
        change (World.setCore (·.setFlag .write))
        unlock
        let error ← posted .write error sent
        -- no `return` here
        return .brk error

/-! ## The mutex -/

section

variable {sock : ℕ} {error : SocketError} {os : Os}

theorem keeps_close {handler : Option ℕ} {closed : Option SocketError} :
    Keeps 0 (fun _ ↦ 0) (close sock handler closed error) := by
  refine Keeps.bind Keeps.lock fun _ ↦ Keeps.bind Keeps.look fun w ↦ ?_
  refine Keeps.ite (fun _ ↦ ?_) fun _ ↦ ?_
  · refine Keeps.bind (Keeps.change _) fun _ ↦ Keeps.bind (Keeps.change _) fun _ ↦ ?_
    exact Keeps.bind Keeps.unlock fun _ ↦ Keeps.bind (Keeps.change _) fun _ ↦ Keeps.pure _ rfl
  · exact Keeps.bind Keeps.unlock fun _ ↦ Keeps.pure _ rfl

theorem keeps_awaitConnect {timeo : Option ℕ} {calls : ConnectCalls} :
    Keeps 0 (fun _ ↦ 0) (awaitConnect sock timeo calls error) := by
  refine Keeps.ite (fun _ ↦ ?_) fun _ ↦ Keeps.pure _ rfl
  refine Keeps.ite (fun _ ↦ ?_) fun _ ↦ Keeps.pure _ rfl
  exact Keeps.bind keeps_close fun _ ↦ Keeps.pure _ rfl

theorem keeps_connect {valid : Bool} {timeo : Option ℕ} {calls : ConnectCalls} :
    Keeps 0 (fun _ ↦ 0) (connect sock valid timeo calls error) := by
  refine Keeps.leaving (Keeps.bind Keeps.lock fun _ ↦ Keeps.bind Keeps.look fun w ↦ ?_)
  refine Keeps.ite (fun _ ↦ Keeps.pure _ rfl) fun _ ↦ ?_
  refine Keeps.ite (fun _ ↦ Keeps.pure _ rfl) fun _ ↦ ?_
  refine Keeps.ite (fun _ ↦ Keeps.pure _ rfl) fun _ ↦ ?_
  refine Keeps.ite (fun _ ↦ Keeps.pure _ rfl) fun _ ↦ ?_
  refine Keeps.bind (Keeps.change _) fun _ ↦ Keeps.bind (Keeps.change _) fun _ ↦ ?_
  refine Keeps.bind Keeps.unlock fun _ ↦ Keeps.bind keeps_awaitConnect ?_
  rintro ⟨ret, error⟩
  refine Keeps.bind Keeps.lock fun _ ↦ Keeps.bind (Keeps.change _) fun _ ↦ ?_
  exact Keeps.bind (Keeps.change _) fun _ ↦ Keeps.bind Keeps.unlock fun _ ↦ Keeps.pure _ rfl

theorem keeps_accept {peer : Option ℕ} {accepted : Except SocketError ℕ} :
    Keeps 0 (fun _ ↦ 0) (accept peer accepted error) := by
  refine Keeps.leaving (Keeps.bind Keeps.lock fun _ ↦ Keeps.bind Keeps.look fun w ↦ ?_)
  refine Keeps.ite (fun _ ↦ Keeps.pure _ rfl) fun _ ↦ ?_
  refine Keeps.ite (fun _ ↦ Keeps.pure _ rfl) fun _ ↦ ?_
  refine Keeps.ite (fun _ ↦ Keeps.pure _ rfl) fun _ ↦ ?_
  refine Keeps.bind (Keeps.change _) fun _ ↦ Keeps.bind Keeps.unlock fun _ ↦ ?_
  refine Keeps.bind Keeps.lock fun _ ↦ Keeps.bind (Keeps.change _) fun _ ↦ ?_
  refine Keeps.bind Keeps.unlock fun _ ↦ ?_
  cases accepted <;> exact Keeps.pure _ rfl

theorem keeps_someSync {d : Dir} {transferred : Except SocketError ℕ} :
    Keeps 0 (fun _ ↦ 0) (someSync d transferred error) := by
  refine Keeps.leaving (Keeps.bind Keeps.lock fun _ ↦ Keeps.bind Keeps.look fun w ↦ ?_)
  refine Keeps.ite (fun _ ↦ Keeps.pure _ rfl) fun _ ↦ ?_
  refine Keeps.ite (fun _ ↦ Keeps.pure _ rfl) fun _ ↦ ?_
  refine Keeps.ite (fun _ ↦ Keeps.pure _ rfl) fun _ ↦ ?_
  refine Keeps.bind (Keeps.change _) fun _ ↦ Keeps.bind Keeps.unlock fun _ ↦ ?_
  refine Keeps.bind Keeps.lock fun _ ↦ Keeps.bind (Keeps.change _) fun _ ↦ ?_
  refine Keeps.bind Keeps.unlock fun _ ↦ ?_
  cases transferred <;> exact Keeps.pure _ rfl

theorem keeps_posted {flag : StateBit} {result : Option SocketError} :
    Keeps 0 (fun _ ↦ 0) (posted flag error result) := by
  cases result with
  | none => exact Keeps.pure _ rfl
  | some last =>
      refine Keeps.bind Keeps.lock fun _ ↦ Keeps.bind (Keeps.change _) fun _ ↦ ?_
      exact Keeps.bind Keeps.unlock fun _ ↦ Keeps.pure _ rfl

theorem keeps_asyncAccept {client : Core} {socket : Except SocketError ℕ}
    {accepted : Option SocketError} :
    Keeps 0 (fun _ ↦ 0) (asyncAccept sock client os socket accepted error) := by
  refine Keeps.leaving (Keeps.bind Keeps.lock fun _ ↦ Keeps.bind Keeps.look fun w ↦ ?_)
  refine Keeps.ite (fun _ ↦ Keeps.pure _ rfl) fun _ ↦ ?_
  refine Keeps.ite (fun _ ↦ Keeps.pure _ rfl) fun _ ↦ ?_
  refine Keeps.bind (Keeps.change _) fun _ ↦ ?_
  refine Keeps.ite (fun _ ↦ Keeps.pure _ rfl) fun _ ↦ ?_
  refine Keeps.ite (fun _ ↦ Keeps.pure _ rfl) fun _ ↦ ?_
  refine Keeps.bind (Keeps.change _) fun _ ↦ Keeps.bind Keeps.unlock fun _ ↦ ?_
  refine Keeps.bind Keeps.look fun _ ↦ Keeps.bind (Keeps.change _) fun _ ↦ ?_
  exact Keeps.bind keeps_posted fun _ ↦ Keeps.pure _ rfl

theorem keeps_asyncRecvSome {received : Option SocketError} :
    Keeps 0 (fun _ ↦ 0) (asyncRecvSome os received error) := by
  refine Keeps.leaving (Keeps.bind Keeps.lock fun _ ↦ Keeps.bind Keeps.look fun w ↦ ?_)
  refine Keeps.ite (fun _ ↦ Keeps.pure _ rfl) fun _ ↦ ?_
  refine Keeps.ite (fun _ ↦ Keeps.pure _ rfl) fun _ ↦ ?_
  refine Keeps.bind (Keeps.change _) fun _ ↦ ?_
  refine Keeps.ite (fun _ ↦ Keeps.pure _ rfl) fun _ ↦ ?_
  refine Keeps.bind (Keeps.change _) fun _ ↦ Keeps.bind Keeps.unlock fun _ ↦ ?_
  exact Keeps.bind keeps_posted fun _ ↦ Keeps.pure _ rfl

/-- `AsyncConnect` unlocks a mutex that it never took. -/
theorem held_asyncConnect {valid : Bool} {connected : Option SocketError} (h : Holder World)
    (hheld : h.held = some 0) : (asyncConnect valid os connected error h).2.held = none := by
  rw [asyncConnect, leaving, bind_apply, bind_apply, look_apply]
  dsimp only
  split
  · simp [hheld]
  · split
    · simp [hheld]
    · split
      · simp [hheld]
      · cases hbrk : (h.state.prepare os error).2.2
        · simp only [bind_apply, Bool.false_eq_true, if_false, change_apply, unlock_apply,
            hheld, released_zero, pure_apply]
          cases connected <;> simp [posted]
        · simp [hheld]

end

/-- The four calls are left by a `break` between their flags and their post. -/
def World.Refuses (w : World) (os : Os) (error : SocketError) : Prop :=
  (.block ∈ w.core.state ∧ os.nonblock = false) ∨
    (.bind ∉ w.core.state ∧
      ((w.core.io = none ∧ w.service.implvector = []) ∨ os.ctl = false ∨ error ≠ 0))

theorem World.io_chooseImpl {w : World} (h : w.service.implvector ≠ []) :
    w.chooseImpl.core.io ≠ none := by
  rw [chooseImpl, dif_neg h]
  exact Option.some_ne_none _

theorem World.error_bindIocp (w : World) (os : Os) (error : SocketError) :
    (w.bindIocp os error).2 ≠ 0 ↔
      (w.core.io = none ∧ w.service.implvector = []) ∨ os.ctl = false ∨ error ≠ 0 := by
  have hlast := os.last_ne
  have hnot : SocketError.notService ≠ 0 := by decide
  rw [bindIocp, ctlEpoll]
  by_cases hio : w.core.io = none
  · by_cases hvec : w.service.implvector = []
    · have hchoose : w.chooseImpl = w := dif_pos hvec
      simp [hio, hvec, hchoose, hnot]
    · have hchoose := io_chooseImpl hvec
      cases hctl : os.ctl <;> simp [hio, hvec, hchoose, hlast]
  · cases hctl : os.ctl <;> simp [hio, hlast]

theorem World.prepare_brk (w : World) (os : Os) (error : SocketError) :
    (w.prepare os error).2.2 = true ↔ w.Refuses os error := by
  unfold prepare Refuses
  split
  · rename_i h
    exact iff_of_true rfl (Or.inl ⟨h.1, by simpa using h.2⟩)
  · rename_i h
    have hmode : ¬ (.block ∈ w.core.state ∧ os.nonblock = false) := by simpa using h
    rw [or_iff_right hmode]
    -- the mode of the socket has no part in its binding
    generalize hw : w.setCore _ = v
    have hbind : .bind ∈ v.core.state ↔ .bind ∈ w.core.state := by
      rw [← hw, setCore, Core.state_becomeNonblock, Finset.mem_erase]
      exact and_iff_right (by decide)
    have hio : v.core.io = w.core.io := by
      rw [← hw, setCore, Core.io_becomeNonblock]
    have hservice : v.service = w.service := by
      rw [← hw]
      rfl
    rw [← hbind, ← hio, ← hservice, ← error_bindIocp]
    dsimp only
    split
    · rename_i hnot
      rw [and_iff_right hnot]
      split
      · rename_i herror
        exact iff_of_true rfl herror
      · rename_i herror
        exact iff_of_false Bool.false_ne_true herror
    · rename_i hmem
      exact iff_of_false Bool.false_ne_true fun hand ↦ hmem hand.1

/-- `AsyncSendSome` lets the mutex go exactly once where it is left by a `break` of its block. -/
theorem held_asyncSendSome (os : Os) (sent : Option SocketError) (error : SocketError)
    (h : Holder World) (hheld : h.held = some 0) :
    (asyncSendSome os sent error h).2.held = some 0 ↔
      h.found.core.fd = none ∨ (.write ∉ h.found.core.state ∧ h.found.Refuses os error) := by
  rw [asyncSendSome, leaving, bind_apply, bind_apply, lock_apply, bind_apply, look_apply]
  dsimp only
  split
  · rename_i hfd
    exact iff_of_true (by simp [hheld]) (Or.inl hfd)
  · rename_i hfd
    rw [or_iff_right hfd]
    split
    · rename_i hwrite
      refine iff_of_false (by simp [hheld]) fun hand ↦ hand.1 hwrite
    · rename_i hwrite
      rw [and_iff_right hwrite, ← World.prepare_brk]
      cases hbrk : (h.found.prepare os error).2.2
      · refine iff_of_false ?_ Bool.false_ne_true
        simp only [bind_apply, Bool.false_eq_true, if_false, change_apply, unlock_apply,
          hheld, Option.map_some, released_succ, pure_apply]
        cases sent <;> simp [posted]
      · exact iff_of_true (by simp [hheld]) rfl

/-- The nine calls, with what their system calls give. -/
inductive Call
  | asyncAccept (sock : ℕ) (client : Core) (os : Os) (socket : Except SocketError ℕ)
      (accepted : Option SocketError)
  | asyncConnect (valid : Bool) (os : Os) (connected : Option SocketError)
  | asyncRecvSome (os : Os) (received : Option SocketError)
  | asyncSendSome (os : Os) (sent : Option SocketError)
  | connect (sock : ℕ) (valid : Bool) (timeo : Option ℕ) (os : ConnectCalls)
  | accept (peer : Option ℕ) (accepted : Except SocketError ℕ)
  | sendSome (sent : Except SocketError ℕ)
  | recvSome (received : Except SocketError ℕ)
  | close (sock : ℕ) (handler : Option ℕ) (closed : Option SocketError)

namespace Call

/-- The thread behind the call. -/
def perform (error : SocketError) (h : Holder World) : Call → Holder World
  | asyncAccept sock client os socket accepted =>
      (IoAccess.asyncAccept sock client os socket accepted error h).2
  | asyncConnect valid os connected => (IoAccess.asyncConnect valid os connected error h).2
  | asyncRecvSome os received => (IoAccess.asyncRecvSome os received error h).2
  | asyncSendSome os sent => (IoAccess.asyncSendSome os sent error h).2
  | connect sock valid timeo os => (IoAccess.connect sock valid timeo os error h).2
  | accept peer accepted => (IoAccess.accept peer accepted error h).2
  | sendSome sent => (IoAccess.sendSome sent error h).2
  | recvSome received => (IoAccess.recvSome received error h).2
  | close sock handler closed => (IoAccess.close sock handler closed error h).2

/-- The locks and unlocks of the call pair up, on a socket that is in the state `w` when the call
first looks at it with the mutex. -/
def Pairs (error : SocketError) (w : World) : Call → Prop
  | asyncConnect .. => False
  | asyncSendSome os _ =>
      w.core.fd = none ∨ (.write ∉ w.core.state ∧ w.Refuses os error)
  | _ => True

/-- A call by a thread without the mutex never unlocks it without having it, and returns without
it, exactly where its locks and unlocks pair up. -/
theorem held_perform_iff (a : Call) (error : SocketError) (w : World)
    (others : List (World → World)) :
    (a.perform error (Holder.enter w others)).held = some 0 ↔
      a.Pairs error (Holder.enter w others).found := by
  cases a with
  | asyncAccept sock client os socket accepted =>
      exact iff_of_true (keeps_asyncAccept _ rfl) trivial
  | asyncConnect valid os connected =>
      refine iff_of_false ?_ not_false
      rw [perform, held_asyncConnect _ rfl]
      exact Option.some_ne_none 0 ∘ Eq.symm
  | asyncRecvSome os received => exact iff_of_true (keeps_asyncRecvSome _ rfl) trivial
  | asyncSendSome os sent => exact held_asyncSendSome os sent error _ rfl
  | connect sock valid timeo os => exact iff_of_true (keeps_connect _ rfl) trivial
  | accept peer accepted => exact iff_of_true (keeps_accept _ rfl) trivial
  | sendSome sent => exact iff_of_true (keeps_someSync _ rfl) trivial
  | recvSome received => exact iff_of_true (keeps_someSync _ rfl) trivial
  | close sock handler closed => exact iff_of_true (keeps_close _ rfl) trivial

/-- A socket that is open and blocking, in a service with one running thread. -/
def sampleWorld : World :=
  ⟨⟨none, some 4, {.block}, false⟩, ⟨fun _ ↦ ⟨3, 0, []⟩, [0], fun _ ↦ none, 0⟩⟩

/-- A connect, and a write that is posted and one behind it. -/
theorem held_perform_fails :
    ((asyncConnect true .good none).perform 0 (Holder.enter sampleWorld [])).held = none ∧
      ((asyncSendSome .good none).perform 0 (Holder.enter sampleWorld [])).held = none ∧
      ((asyncSendSome .good none).perform 0
        (Holder.enter (sampleWorld.setCore (·.setFlag .write)) [])).held = some 1 := by
  decide +kernel

end Call

end IoAccess

end Slience
