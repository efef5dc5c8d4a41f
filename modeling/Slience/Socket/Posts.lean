import Slience.Socket.IoAccess
import Slience.Socket.Binding

/-!
# What a post changes in the registry

The four asynchronous calls of `EpollService` treat the flags, the mode and the binding of their
socket alike.  `asyncPost` is this part of them, on the state of `IoAccess`; `Shows` connects it to
the whole calls.
-/

namespace Slience

namespace IoAccess

open Epoll (StateBit Dir Os Ctl Sock)

/-- A call of an `Async` function: what it is for, and for a connect whether the endpoint is valid
and whether `connect` succeeds or is in progress. -/
inductive Post
  | accept
  | connect (valid connected : Bool)
  | some (d : Dir)
  deriving DecidableEq

namespace Post

def flag : Post → StateBit
  | accept => .accept
  | connect _ _ => .connect
  | some d => d.flag

/-- The error where the flag is set. -/
def posted : Post → SocketError
  | accept => .postedAccept
  | connect _ _ => .postedConnect
  | some d => d.posted

def valid : Post → Bool
  | connect valid _ => valid
  | _ => true

def connected : Post → Bool
  | connect _ connected => connected
  | _ => true

/-- Only reading and writing call `CtlEpoll` for a socket that is bound. -/
def modifies : Post → Bool
  | some _ => true
  | _ => false

end Post

namespace World

/-- The binding of a post. -/
def bindPost (p : Post) (w : World) (os : Os) (error : SocketError) : World × SocketError :=
  if .bind ∈ w.core.state then
    if p.modifies then w.ctlEpoll .mod os error else (w, error)
  else (w.setCore (·.setFlag .bind)).ctlEpoll .add os error

/-- `AsyncAccept`, `AsyncConnect`, `AsyncRecvSome` and `AsyncSendSome`. -/
def asyncPost (p : Post) (w : World) (os : Os) (error : SocketError) : World × SocketError :=
  if w.core.fd = none then (w, .badDescriptor)
  else if p.flag ∈ w.core.state then (w, p.posted)
  else if ¬ p.valid then (w, .endpointInvalid)
  else if .block ∈ w.core.state ∧ ¬ os.nonblock then (w, os.last)
  else
    let w := w.setCore Core.becomeNonblock
    if ¬ p.connected then (w, os.last)
    else
      let (w, error) := (w.setCore (·.setFlag p.flag)).bindPost p os error
      if error ≠ 0 then
        (w.setCore fun c ↦ (c.clearFlag p.flag).clearFlag .bind, error)
      else (w, error)

end World

namespace World

/-- The choice of an `IoServiceImpl` changes only the key of the socket. -/
theorem core_chooseImpl (w : World) : ∃ io, w.chooseImpl.core = { w.core with io := io } := by
  rw [chooseImpl]
  split
  · exact ⟨w.core.io, rfl⟩
  · exact ⟨_, rfl⟩

theorem core_ctlEpoll (w : World) (flag : Ctl) (os : Os) (error : SocketError) :
    ∃ io, (w.ctlEpoll flag os error).1.core = { w.core with io := io } := by
  obtain ⟨io, hio⟩ : ∃ io, (if flag = .add ∧ w.core.io = none then w.chooseImpl else w).core =
      { w.core with io := io } := by
    split
    · exact w.core_chooseImpl
    · exact ⟨w.core.io, rfl⟩
  refine ⟨io, ?_⟩
  rw [ctlEpoll, ← hio]
  generalize (if flag = .add ∧ w.core.io = none then w.chooseImpl else w) = v
  split
  · rfl
  · split <;> rfl

end World

/-! ## The whole calls -/

def ThreadImpl.show (s : ThreadImpl) : Epoll.IoServiceImpl := ⟨s.handler, s.fdcnt⟩

/-- The fields that a `Core` has of a socket. -/
structure Core.Of (c : Core) (s : Sock) : Prop where
  io_eq : c.io = s.epoll
  fd_eq : c.fd = s.fd
  state_eq : c.state = s.state

/-- The state of socket `i` in `e`. -/
structure Shows (i : ℕ) (e : Epoll.Service) (w : World) : Prop where
  core : w.core.Of (e.socks i)
  nodup : w.service.implvector.Nodup
  implvector_eq : e.implvector = w.service.implvector.map fun p ↦ (w.service.impls p).show
  implidx_eq : e.implidx = w.service.implidx

namespace Shows

variable {i : ℕ} {e : Epoll.Service} {w : World}

theorem setSock (h : Shows i e w) {f : Core → Core} {s : Sock} (hs : (f w.core).Of s) :
    Shows i (e.setSock i s) (w.setCore f) where
  core := by
    rw [Epoll.Service.setSock_same]
    exact hs
  nodup := h.nodup
  implvector_eq := h.implvector_eq
  implidx_eq := h.implidx_eq

/-- The objects of different threads are different. -/
theorem modify_map {l : List ℕ} (hl : l.Nodup) (impls : ℕ → ThreadImpl) (k : Fin l.length)
    {f : ThreadImpl → ThreadImpl} {g : Epoll.IoServiceImpl → Epoll.IoServiceImpl}
    (hfg : ∀ s, (f s).show = g s.show) :
    (l.map fun q ↦ (impls q).show).modify k g =
      l.map fun q ↦ (Function.update impls (l.get k) (f (impls (l.get k))) q).show := by
  apply List.ext_getElem?
  intro j
  rw [List.getElem?_modify, List.getElem?_map, List.getElem?_map]
  by_cases hj : j < l.length
  · rw [List.getElem?_eq_getElem hj]
    simp only [Option.map_some, Option.map_eq_map, Option.some.injEq]
    by_cases hkj : (k : ℕ) = j
    · subst hkj
      rw [if_pos rfl, List.get_eq_getElem, Function.update_self, hfg]
    · rw [if_neg hkj, List.get_eq_getElem, Function.update_of_ne]
      rwa [Ne, hl.getElem_inj_iff, eq_comm]
  · rw [List.getElem?_eq_none (not_lt.mp hj)]
    rfl

theorem chooseImpl (h : Shows i e w) : Shows i (e.chooseImpl i) w.chooseImpl := by
  by_cases hvec : w.service.implvector = []
  · have hvec' : e.implvector = [] := by rw [h.implvector_eq, hvec, List.map_nil]
    rwa [Epoll.Service.chooseImpl, if_pos hvec', World.chooseImpl, dif_pos hvec]
  · have hvec' : e.implvector ≠ [] := by
      rw [h.implvector_eq]
      exact List.map_eq_nil_iff.not.mpr hvec
    have hidx : (e.implidx + 1).toNat % e.implvector.length =
        (w.service.implidx + 1).toNat % w.service.implvector.length := by
      rw [h.implvector_eq, List.length_map, h.implidx_eq]
    rw [Epoll.Service.chooseImpl, if_neg hvec', World.chooseImpl, dif_neg hvec]
    constructor
    · dsimp only
      rw [Epoll.Service.setSock_same, hidx, h.implvector_eq, List.getElem?_map]
      refine ⟨?_, h.core.fd_eq, h.core.state_eq⟩
      rw [List.getElem?_eq_getElem (Nat.mod_lt _ (List.length_pos_iff.mpr hvec))]
      rfl
    · exact h.nodup
    · dsimp only
      rw [hidx, h.implvector_eq]
      exact modify_map (f := fun s ↦ { s with fdcnt := s.fdcnt + 1 }) h.nodup w.service.impls
        ⟨_, Nat.mod_lt _ (List.length_pos_iff.mpr hvec)⟩ fun _ ↦ rfl
    · dsimp only
      rw [h.implidx_eq]

theorem ctlEpoll (h : Shows i e w) (opset : ℕ) (flag : Ctl) (events : Finset Epoll.EventBit)
    (os : Os) (error : SocketError) :
    Shows i (e.ctlEpoll i opset flag events os error).1 (w.ctlEpoll flag os error).1 ∧
      (e.ctlEpoll i opset flag events os error).2 = (w.ctlEpoll flag os error).2 := by
  obtain ⟨e₁, he₁, w₁, hw₁, h₁⟩ :
      ∃ e₁, (if flag = .add ∧ (e.socks i).epoll = none then e.chooseImpl i else e) = e₁ ∧
        ∃ w₁, (if flag = .add ∧ w.core.io = none then w.chooseImpl else w) = w₁ ∧
          Shows i e₁ w₁ := by
    refine ⟨_, rfl, _, rfl, ?_⟩
    rw [← h.core.io_eq]
    split
    · exact h.chooseImpl
    · exact h
  unfold Epoll.Service.ctlEpoll World.ctlEpoll
  rw [he₁, hw₁]
  dsimp only
  rw [← h₁.core.io_eq]
  split
  · exact ⟨h₁, rfl⟩
  · split
    · exact ⟨h₁.setSock (f := id) ⟨rfl, h₁.core.fd_eq, h₁.core.state_eq⟩, rfl⟩
    · exact ⟨h₁, rfl⟩

theorem setOp (h : Shows i e w) (d : Dir) (op : Epoll.RwOperation) :
    Shows i (e.setOp d i op) w := by
  refine h.setSock (f := id) ⟨?_, ?_, ?_⟩
  · rw [Sock.epoll_setOp]
    exact h.core.io_eq
  · rw [Sock.fd_setOp]
    exact h.core.fd_eq
  · rw [Sock.state_setOp]
    exact h.core.state_eq

/-- `CtlEpoll` of a read or write, whose flags are set in another order. -/
theorem bindSome (h : Shows i e w) (d : Dir) (opset : ℕ) (events : Finset Epoll.EventBit) (os : Os)
    (error : SocketError) :
    Shows i
        ((e.setSock i (Epoll.Service.markPosted d (e.socks i))).ctlEpoll i opset
          (if .bind ∈ (e.socks i).state then .mod else .add) events os error).1
        (((w.setCore Core.becomeNonblock).setCore (·.setFlag d.flag)).bindPost (.some d) os
          error).1 ∧
      ((e.setSock i (Epoll.Service.markPosted d (e.socks i))).ctlEpoll i opset
          (if .bind ∈ (e.socks i).state then .mod else .add) events os error).2 =
        (((w.setCore Core.becomeNonblock).setCore (·.setFlag d.flag)).bindPost (.some d) os
          error).2 := by
  have hio : w.core.becomeNonblock.io = (e.socks i).epoll :=
    w.core.io_becomeNonblock.trans h.core.io_eq
  have hfd : w.core.becomeNonblock.fd = (e.socks i).fd :=
    w.core.fd_becomeNonblock.trans h.core.fd_eq
  have hstate : insert d.flag w.core.becomeNonblock.state =
      insert d.flag ((e.socks i).state.erase .block) := by
    rw [Core.state_becomeNonblock, h.core.state_eq]
  have hmem : .bind ∈ ((w.setCore Core.becomeNonblock).setCore (·.setFlag d.flag)).core.state ↔
      .bind ∈ (e.socks i).state := by
    rw [World.setCore, World.setCore, Core.setFlag, hstate]
    cases d <;> simp [Dir.flag]
  by_cases hbind : .bind ∈ (e.socks i).state
  · have hposted : (w.core.becomeNonblock.setFlag d.flag).Of
        (Epoll.Service.markPosted d (e.socks i)) := by
      refine ⟨hio, hfd, hstate.trans (Finset.insert_eq_of_mem ?_).symm⟩
      rw [← hstate]
      exact hmem.mpr hbind
    have hmodifies : (Post.some d).modifies = true := rfl
    rw [if_pos hbind, World.bindPost, if_pos (hmem.mpr hbind), if_pos hmodifies]
    exact (h.setSock (f := fun c ↦ c.becomeNonblock.setFlag d.flag) hposted).ctlEpoll ..
  · have hposted : ((w.core.becomeNonblock.setFlag d.flag).setFlag .bind).Of
        (Epoll.Service.markPosted d (e.socks i)) :=
      ⟨hio, hfd, congrArg (insert StateBit.bind) hstate⟩
    rw [if_neg hbind, World.bindPost, if_neg (hmem.not.mpr hbind)]
    exact (h.setSock (f := fun c ↦ (c.becomeNonblock.setFlag d.flag).setFlag .bind)
      hposted).ctlEpoll ..

/-- Behind a `CtlEpoll` that may have failed, where `g` is what a call does to its socket then. -/
theorem takeBack {r : Epoll.Service × SocketError} (h : Shows i r.1 w) (b : StateBit)
    {g : Sock → Sock}
    (hg : ∀ (s : Sock) (c : Core), c.Of s → ((c.clearFlag b).clearFlag .bind).Of (g s)) :
    Shows i (if r.2 ≠ 0 then (r.1.setSock i (g (r.1.socks i)), r.2) else r).1
        (if r.2 ≠ 0 then (w.setCore fun c ↦ (c.clearFlag b).clearFlag .bind, r.2)
          else (w, r.2)).1 ∧
      (if r.2 ≠ 0 then (r.1.setSock i (g (r.1.socks i)), r.2) else r).2 =
        (if r.2 ≠ 0 then (w.setCore fun c ↦ (c.clearFlag b).clearFlag .bind, r.2)
          else (w, r.2)).2 := by
  split
  · exact ⟨h.setSock (f := fun c ↦ (c.clearFlag b).clearFlag .bind) (hg _ _ h.core), rfl⟩
  · exact ⟨h, rfl⟩

/-- `AsyncRecvSome` and `AsyncSendSome`. -/
theorem asyncSome (h : Shows i e w) (d : Dir) (buf len handler : ℕ) (os : Os)
    (error : SocketError) :
    Shows i (e.asyncSome d i buf len handler os error).1 (w.asyncPost (.some d) os error).1 ∧
      (e.asyncSome d i buf len handler os error).2 = (w.asyncPost (.some d) os error).2 := by
  have h₀ := h.setOp d ⟨buf, len, true, some handler⟩
  rw [Epoll.Service.asyncSome]
  generalize e.setOp d i ⟨buf, len, true, some handler⟩ = e₀ at h₀ ⊢
  unfold Epoll.Service.postSection World.asyncPost
  dsimp only
  rw [← h₀.core.fd_eq, ← h₀.core.state_eq]
  split
  · exact ⟨h₀.setOp d .clear, rfl⟩
  · have hflag : (Post.some d).flag = d.flag := rfl
    rw [hflag]
    split
    · exact ⟨h₀.setOp d .clear, rfl⟩
    · have hvalid : ¬ ¬ (Post.some d).valid = true := not_not.mpr rfl
      rw [if_neg hvalid]
      split
      · exact ⟨h₀.setOp d .clear, rfl⟩
      · have hconnected : ¬ ¬ (Post.some d).connected = true := not_not.mpr rfl
        rw [if_neg hconnected]
        obtain ⟨hw, herror⟩ := h₀.bindSome d i (Epoll.Service.postEvents d (e₀.socks i)) os error
        rw [← h₀.core.state_eq] at hw herror
        generalize (e₀.setSock i (Epoll.Service.markPosted d (e₀.socks i))).ctlEpoll i i
          (if .bind ∈ w.core.state then .mod else .add)
          (Epoll.Service.postEvents d (e₀.socks i)) os error = r at hw herror ⊢
        rw [← herror]
        by_cases hzero : r.2 = 0
        · rw [if_neg (not_not.mpr hzero), if_neg (not_not.mpr hzero)]
          exact ⟨hw, rfl⟩
        · rw [if_pos hzero, if_pos hzero]
          refine ⟨hw.setSock (f := fun c ↦ (c.clearFlag d.flag).clearFlag .bind) ⟨?_, ?_, ?_⟩, rfl⟩
          · rw [Sock.epoll_setOp]
            exact hw.core.io_eq
          · rw [Sock.fd_setOp]
            exact hw.core.fd_eq
          · rw [Sock.state_setOp, ← hw.core.state_eq]
            rfl

/-- Accepting and connecting call `CtlEpoll` for a socket that is not bound. -/
theorem bindOther (h : Shows i e w) {p : Post} (hp : ¬ p.modifies = true) (opset : ℕ)
    (events : Finset Epoll.EventBit) (os : Os) (error : SocketError) :
    Shows i
        (if .bind ∈ (e.socks i).state then (e, error)
          else (e.setSock i { e.socks i with state := insert .bind (e.socks i).state }).ctlEpoll i
            opset .add events os error).1
        (w.bindPost p os error).1 ∧
      (if .bind ∈ (e.socks i).state then (e, error)
          else (e.setSock i { e.socks i with state := insert .bind (e.socks i).state }).ctlEpoll i
            opset .add events os error).2 = (w.bindPost p os error).2 := by
  rw [World.bindPost, ← h.core.state_eq, if_neg hp]
  split
  · exact ⟨h, rfl⟩
  · exact (h.setSock (f := fun c ↦ c.setFlag .bind)
      (s := { e.socks i with state := insert .bind w.core.state })
      ⟨h.core.io_eq, h.core.fd_eq, rfl⟩).ctlEpoll ..

/-- `AsyncAccept` -/
theorem asyncAccept (h : Shows i e w) (cli handler : ℕ) (os : Os) (error : SocketError) :
    Shows i (e.asyncAccept i cli handler os error).1 (w.asyncPost .accept os error).1 ∧
      (e.asyncAccept i cli handler os error).2 = (w.asyncPost .accept os error).2 := by
  unfold Epoll.Service.asyncAccept World.asyncPost
  dsimp only
  rw [h.core.fd_eq, h.core.state_eq]
  split
  · exact ⟨h, rfl⟩
  · have hflag : Post.accept.flag = .accept := rfl
    rw [hflag]
    split
    · exact ⟨h, rfl⟩
    · have hvalid : ¬ ¬ Post.accept.valid = true := not_not.mpr rfl
      rw [if_neg hvalid]
      split
      · exact ⟨h, rfl⟩
      · have hconnected : ¬ ¬ Post.accept.connected = true := not_not.mpr rfl
        rw [if_neg hconnected]
        have hset : Shows i
            (e.setSock i { e.socks i with
              state := insert .accept ((e.socks i).state.erase .block)
              type := {.accept}
              aop := ⟨true, some cli, some handler⟩ })
            ((w.setCore Core.becomeNonblock).setCore (·.setFlag .accept)) := by
          refine h.setSock (f := fun c ↦ c.becomeNonblock.setFlag .accept) ⟨?_, ?_, ?_⟩
          · exact w.core.io_becomeNonblock.trans h.core.io_eq
          · exact w.core.fd_becomeNonblock.trans h.core.fd_eq
          · rw [← h.core.state_eq]
            exact congrArg (insert StateBit.accept) w.core.state_becomeNonblock
        obtain ⟨hw, herror⟩ :=
          hset.bindOther (p := .accept) Bool.false_ne_true i {.epollin} os error
        rw [← herror]
        exact hw.takeBack .accept
          (g := fun s ↦ { s with state := (s.state.erase .accept).erase .bind, aop := .clear })
          fun s c hc ↦ ⟨hc.io_eq, hc.fd_eq, by rw [← hc.state_eq]; rfl⟩

/-- `AsyncConnect` -/
theorem asyncConnect (h : Shows i e w) (valid connected : Bool) (handler : ℕ) (os : Os)
    (error : SocketError) :
    Shows i (e.asyncConnect i valid connected handler os error).1
        (w.asyncPost (.connect valid connected) os error).1 ∧
      (e.asyncConnect i valid connected handler os error).2 =
        (w.asyncPost (.connect valid connected) os error).2 := by
  unfold Epoll.Service.asyncConnect World.asyncPost
  dsimp only
  rw [h.core.fd_eq, h.core.state_eq]
  split
  · exact ⟨h, rfl⟩
  · have hflag : (Post.connect valid connected).flag = .connect := rfl
    rw [hflag]
    split
    · exact ⟨h, rfl⟩
    · have hvalid : (Post.connect valid connected).valid = valid := rfl
      rw [hvalid]
      split
      · exact ⟨h, rfl⟩
      · split
        · exact ⟨h, rfl⟩
        · have hconnected : (Post.connect valid connected).connected = connected := rfl
          rw [hconnected]
          have hmode : Shows i
              (e.setSock i { e.socks i with state := (e.socks i).state.erase .block })
              (w.setCore Core.becomeNonblock) := by
            refine h.setSock ⟨?_, ?_, ?_⟩
            · exact w.core.io_becomeNonblock.trans h.core.io_eq
            · exact w.core.fd_becomeNonblock.trans h.core.fd_eq
            · rw [← h.core.state_eq]
              exact w.core.state_becomeNonblock
          split
          · exact ⟨hmode, rfl⟩
          · generalize e.setSock i { e.socks i with state := (e.socks i).state.erase .block } = e₀
              at hmode ⊢
            have hset := hmode.setSock (f := (·.setFlag .connect))
              (s := { e₀.socks i with
                state := insert .connect (e₀.socks i).state
                type := {.connect}
                cop := ⟨true, some handler⟩ })
              ⟨hmode.core.io_eq, hmode.core.fd_eq, by rw [← hmode.core.state_eq]; rfl⟩
            obtain ⟨hw, herror⟩ := hset.bindOther (p := .connect valid connected)
              Bool.false_ne_true i {.epollout, .epolloneshot} os error
            rw [← herror]
            exact hw.takeBack .connect
              (g := fun s ↦ { s with state := (s.state.erase .connect).erase .bind, cop := .clear })
              fun s c hc ↦ ⟨hc.io_eq, hc.fd_eq, by rw [← hc.state_eq]; rfl⟩

end Shows

end IoAccess

end Slience
