import Slience.Netio.Lifetime

/-!
# A connection is not dropped silently

`IoAccess::Close` queues the close handler only of a socket that is bound to a thread.  A socket
that was accepted is bound by its first read or write, behind the call of `OnConnected`; once it
is, every way of closing it ends in `OnDisconnected`.
-/

namespace Slience

namespace Lifetime

open Epoll

/-- The socket is closed only when it is bound, and its first write does not fail before that. -/
def ClosedBound (impl : ℕ) (s : Lifetime) : LifeMove → Prop
  | .close => s.flag = .close ∨ (s.svc.socks impl).epoll ≠ none
  | .readClose => s.flag = .close ∨ (s.svc.socks impl).epoll ≠ none
  | .send os => s.flag ≠ .start ∨ (s.svc.socks impl).epoll ≠ none ∨ os.nonblock = true
  | _ => True

instance (impl : ℕ) (s : Lifetime) (a : LifeMove) : Decidable (ClosedBound impl s a) :=
  match a with
  | .close => inferInstanceAs (Decidable (s.flag = .close ∨ (s.svc.socks impl).epoll ≠ none))
  | .readClose => inferInstanceAs (Decidable (s.flag = .close ∨ (s.svc.socks impl).epoll ≠ none))
  | .send os => inferInstanceAs (Decidable
      (s.flag ≠ .start ∨ (s.svc.socks impl).epoll ≠ none ∨ os.nonblock = true))
  | .asyncConnect .. | .connectDone _ | .connectHandler _ | .accept .. | .announce => isTrue trivial
  | .proceed _ | .readDone .. | .readHandler | .receive | .readEnd .. => isTrue trivial
  | .writeDone .. | .writeHandler .. | .doClose | .closeHandler | .others .. => isTrue trivial

/-- A request with `_CloseHandler` is in the queue of a running thread, or `OnDisconnected` was
called. -/
def Served (s : Lifetime) : Prop :=
  (∃ h ∈ s.svc.handlers, h ∈ s.closereqs) ∨ .onDisconnected ∈ s.log

/-- An accepted socket before its `Init`, or one that `Init` gave up. -/
structure Unborn (impl : ℕ) (s : Lifetime) : Prop where
  phase_eq : s.phase = .idle ∨ s.phase = .lost
  flag_eq : s.flag = .stop
  reader_eq : s.reader = .away
  writer_eq : s.writer = none
  op_eq (d : Dir) : ((s.svc.socks impl).op d).impl = false
  close_notMem : .close ∉ (s.svc.socks impl).state

structure Tracked (impl : ℕ) (s : Lifetime) : Prop where
  running : s.svc.handlers ≠ []
  epoll_mem (h : ℕ) : (s.svc.socks impl).epoll = some h → h ∈ s.svc.handlers
  flagsBound : (s.svc.socks impl).FlagsBound
  cop_eq : (s.svc.socks impl).cop.impl = false
  unborn : s.phase.early = true → Unborn impl s
  opened : s.phase.early = false → s.flag ≠ .close →
    (s.svc.socks impl).fd ≠ none ∧ .close ∉ (s.svc.socks impl).state
  closed_of_closereqs : s.closereqs ≠ [] → s.flag = .close
  served : s.flag = .close → Served s
  bound : s.writing = true ∨ s.writer ≠ none ∨ (s.svc.socks impl).wop.impl = true →
    (s.svc.socks impl).epoll ≠ none

variable {impl : ℕ} {isco : Bool} {s s' : Lifetime}

theorem close_keeps (impl : ℕ) (s : Lifetime) :
    ((close impl s).svc.socks impl).epoll = (s.svc.socks impl).epoll ∧
      (close impl s).phase = s.phase := by
  unfold close
  split
  · exact ⟨rfl, rfl⟩
  split
  · exact ⟨rfl, rfl⟩
  · obtain ⟨svc, fd, state, simpl, heq, hsock, -⟩ := socketClose_eq impl { s with flag := .close }
    rw [heq]
    refine ⟨?_, rfl⟩
    change (svc.socks impl).epoll = _
    rw [hsock]

namespace Tracked

theorem posted (h : Tracked impl s) (hlate : s.phase.early = false) {d : Dir} {svc : Service}
    (hsection : Service.Section d impl s.svc svc)
    (hwop : (svc.socks impl).wop.impl = true → (svc.socks impl).epoll ≠ none) :
    Tracked impl { s with svc := svc } where
  running := by
    change svc.handlers ≠ []
    rw [hsection.handlers_eq]
    exact h.running
  epoll_mem := by
    change ∀ k, (svc.socks impl).epoll = some k → k ∈ svc.handlers
    rw [hsection.handlers_eq]
    exact hsection.posting.chosen.mem h.epoll_mem
  flagsBound := hsection.flagsBound h.flagsBound
  cop_eq := (congrArg ConnectOperation.impl hsection.posting.cop_eq).trans h.cop_eq
  unborn hearly := by
    change s.phase.early = true at hearly
    rw [hlate] at hearly
    cases hearly
  opened _ hflag := by
    change (svc.socks impl).fd ≠ none ∧ .close ∉ (svc.socks impl).state
    rw [hsection.posting.fd_eq, hsection.posting.close_iff]
    exact h.opened hlate hflag
  closed_of_closereqs := h.closed_of_closereqs
  served hflag := by
    change (∃ k ∈ svc.handlers, k ∈ s.closereqs) ∨ .onDisconnected ∈ s.log
    rw [hsection.handlers_eq]
    exact h.served hflag
  bound hposted := by
    rcases hposted with hposted | hposted | hposted
    · exact hsection.posting.chosen.ne_none (h.bound (Or.inl hposted))
    · exact hsection.posting.chosen.ne_none (h.bound (Or.inr (Or.inl hposted)))
    · exact hwop hposted

theorem close (h : Tracked impl s) (hlate : s.phase.early = false)
    (hbound : s.flag = .close ∨ (s.svc.socks impl).epoll ≠ none) :
    Tracked impl (s.close impl) := by
  unfold Lifetime.close
  split
  · exact h
  · rename_i hflag
    have hepoll := hbound.resolve_left hflag
    split
    · exact ⟨h.running, h.epoll_mem, h.flagsBound, h.cop_eq,
        fun hearly ↦ absurd hearly (Bool.eq_false_iff.mp hlate), fun _ _ ↦ h.opened hlate hflag,
        fun hne ↦ absurd (h.closed_of_closereqs hne) hflag, SocketState.noConfusion, h.bound⟩
    · obtain ⟨k, hk⟩ := Option.ne_none_iff_exists'.mp hepoll
      have hmem := h.epoll_mem k hk
      obtain ⟨hfd, hclose⟩ := h.opened hlate hflag
      have hreqs := socketClose_bound impl (s := { s with flag := .close }) hfd hclose hk hmem
      obtain ⟨svc, fd, state, simpl, heq, hsock, hhandlers⟩ :=
        socketClose_eq impl { s with flag := .close }
      rw [heq] at hreqs ⊢
      have hepoll' : (svc.socks impl).epoll = some k := by
        rw [hsock]
        exact hk
      constructor
      · change svc.handlers ≠ []
        rw [hhandlers]
        exact h.running
      · intro j hj
        change (svc.socks impl).epoll = some j at hj
        change j ∈ svc.handlers
        rw [hepoll', Option.some.injEq] at hj
        rw [hhandlers, ← hj]
        exact hmem
      · intro _
        change (svc.socks impl).epoll ≠ none
        rw [hepoll']
        exact Option.some_ne_none k
      · change (svc.socks impl).cop.impl = false
        rw [hsock]
        exact h.cop_eq
      · exact fun hearly ↦ absurd hearly (Bool.eq_false_iff.mp hlate)
      · exact fun _ hne ↦ absurd rfl hne
      · exact fun _ ↦ rfl
      · intro _
        refine Or.inl ⟨k, ?_, ?_⟩
        · change k ∈ svc.handlers
          rw [hhandlers]
          exact hmem
        · change k ∈ s.closereqs ++ simpl.toList
          change s.closereqs ++ simpl.toList = s.closereqs ++ [k] at hreqs
          rw [hreqs]
          exact List.mem_append_right _ (List.mem_singleton_self k)
      · intro _
        change (svc.socks impl).epoll ≠ none
        rw [hepoll']
        exact Option.some_ne_none k

theorem trySendData (h : Tracked impl s) (hlate : s.phase.early = false) (more : Bool) (os : Os)
    (hbound : (s.svc.socks impl).epoll ≠ none ∨ s.flag ≠ .close ∧ os.nonblock = true)
    (hs' : (Lifetime.trySendData impl more os s).2 = s') :
    Tracked impl s' ∧ s'.phase = s.phase ∧
      ((s.svc.socks impl).epoll ≠ none → (s'.svc.socks impl).epoll ≠ none) := by
  unfold Lifetime.trySendData at hs'
  split at hs'
  · cases hs'
    exact ⟨h, rfl, id⟩
  split at hs'
  · have hsection : Service.Section .write impl s.svc (s.svc.asyncSendSome impl 0 0 impl os 0).1 :=
      Service.section_asyncSome .write s.svc impl 0 0 impl os 0
    have hepoll : ((s.svc.asyncSendSome impl 0 0 impl os 0).1.socks impl).epoll ≠ none := by
      by_cases hepoll : (s.svc.socks impl).epoll ≠ none
      · exact hsection.posting.chosen.ne_none hepoll
      · obtain ⟨hflag, hnonblock⟩ := hbound.resolve_left hepoll
        apply Service.asyncSome_bound
        · exact (h.opened hlate hflag).1
        · exact fun hempty ↦ h.running (congrArg (List.map _) hempty)
        · exact h.flagsBound
        · exact Or.inl hnonblock
    generalize s.svc.asyncSendSome impl 0 0 impl os 0 = p at hsection hepoll hs'
    have hposted := h.posted hlate hsection fun _ ↦ hepoll
    dsimp only at hs'
    split at hs'
    · subst hs'
      obtain ⟨hkeep, hphase⟩ := close_keeps impl { s with svc := p.1 }
      refine ⟨hposted.close hlate (Or.inr hepoll), hphase, fun _ ↦ ?_⟩
      rw [hkeep]
      exact hepoll
    · subst hs'
      exact ⟨⟨hposted.running, hposted.epoll_mem, hposted.flagsBound, hposted.cop_eq,
        fun hearly ↦ absurd hearly (Bool.eq_false_iff.mp hlate), hposted.opened,
        hposted.closed_of_closereqs, hposted.served, fun _ ↦ hepoll⟩, rfl, fun _ ↦ hepoll⟩
  · cases hs'
    exact ⟨h, rfl, id⟩

theorem send (h : Tracked impl s) (hlate : s.phase.early = false) (os : Os)
    (hbound : s.flag ≠ .start ∨ (s.svc.socks impl).epoll ≠ none ∨ os.nonblock = true) :
    Tracked impl (s.send impl os) := by
  unfold Lifetime.send
  split
  · exact h
  · rename_i hstart
    have hflag : s.flag ≠ .close := by
      rw [not_not.mp hstart]
      decide
    refine (h.trySendData hlate true os ?_ rfl).1
    rcases hbound.resolve_left hstart with hepoll | hnonblock
    · exact Or.inl hepoll
    · exact Or.inr ⟨hflag, hnonblock⟩

theorem writeHandler (h : Tracked impl s) (hlate : s.phase.early = false)
    (hepoll : (s.svc.socks impl).epoll ≠ none) (good more : Bool) (os : Os) :
    Tracked impl (writeHandler impl good more os { s with writer := none }) := by
  have hwritten : Tracked impl { s with writer := none, writing := false } :=
    ⟨h.running, h.epoll_mem, h.flagsBound, h.cop_eq,
      fun hearly ↦ absurd hearly (Bool.eq_false_iff.mp hlate), h.opened, h.closed_of_closereqs,
      h.served, fun _ ↦ hepoll⟩
  unfold Lifetime.writeHandler
  dsimp only
  split
  · exact hwritten.close hlate (Or.inr hepoll)
  · obtain ⟨hsent, hphase, hkeep⟩ := hwritten.trySendData hlate more os (Or.inl hepoll) rfl
    split
    · refine hsent.close ?_ (Or.inr (hkeep hepoll))
      rw [hphase]
      exact hlate
    · exact hsent

theorem reading (h : Tracked impl s) (hlate : s.phase.early = false) {svc : Service}
    {reader : Reader} {phase : LifePhase} (hphase : phase.early = false)
    (hsection : Service.Section .read impl s.svc svc) :
    Tracked impl { s with svc := svc, reader := reader, phase := phase } := by
  have hwop : (svc.socks impl).wop.impl = true → (svc.socks impl).epoll ≠ none := by
    intro hwop
    apply hsection.posting.chosen.ne_none
    exact h.bound (Or.inr (Or.inr ((congrArg RwOperation.impl hsection.op_eq).symm.trans hwop)))
  have hposted := h.posted hlate hsection hwop
  exact ⟨hposted.running, hposted.epoll_mem, hposted.flagsBound, hposted.cop_eq,
    fun hearly ↦ absurd hearly (Bool.eq_false_iff.mp hphase), fun _ ↦ hposted.opened hlate,
    hposted.closed_of_closereqs, hposted.served, hposted.bound⟩

theorem tryRecvData (h : Tracked impl s) (hlate : s.phase.early = false) {phase : LifePhase}
    (hphase : phase.early = false) (os : Os) :
    Tracked impl (tryRecvData impl os { s with phase := phase }) :=
  h.reading hlate hphase (Service.section_asyncSome .read s.svc impl 0 0 impl os 0)

theorem accept (h : Tracked impl s) (hphase : s.phase = .idle) (fd : ℕ) (v6 endpoint : Bool) :
    Tracked impl (accept impl fd v6 endpoint s) := by
  have hunborn : Unborn impl s := by
    apply h.unborn
    rw [hphase]
    rfl
  unfold Lifetime.accept
  dsimp only
  generalize hstate : (if v6 then insert StateBit.v6 (s.svc.socks impl).state
    else (s.svc.socks impl).state.erase StateBit.v6) = state
  have hmem : ∀ b, b ≠ .v6 → (b ∈ state ↔ b ∈ (s.svc.socks impl).state) := by
    intro b hb
    rw [← hstate]
    split <;> simp [hb]
  generalize hsvc : s.svc.setSock impl
    { s.svc.socks impl with fd := some fd, state := state } = svc
  have hsock : svc.socks impl = { s.svc.socks impl with fd := some fd, state := state } := by
    rw [← hsvc, Service.setSock_same]
  have hhandlers : svc.handlers = s.svc.handlers := by
    rw [← hsvc]
    rfl
  have hclose : .close ∉ (svc.socks impl).state := by
    rw [hsock]
    exact fun hc ↦ hunborn.close_notMem ((hmem .close (by decide)).mp hc)
  have hop : ∀ d, (svc.socks impl).op d = (s.svc.socks impl).op d := by
    intro d
    rw [hsock]
    cases d <;> rfl
  have hepoll : (svc.socks impl).epoll = (s.svc.socks impl).epoll := by rw [hsock]
  have hrunning : svc.handlers ≠ [] := by
    rw [hhandlers]
    exact h.running
  have hepoll_mem : ∀ k, (svc.socks impl).epoll = some k → k ∈ svc.handlers := by
    rw [hepoll, hhandlers]
    exact h.epoll_mem
  have hflags : (svc.socks impl).FlagsBound := by
    rw [hsock]
    intro hflags
    apply h.flagsBound
    rcases hflags with hb | hb | hb
    · exact Or.inl ((hmem .bind (by decide)).mp hb)
    · exact Or.inr (Or.inl ((hmem .read (by decide)).mp hb))
    · exact Or.inr (Or.inr ((hmem .write (by decide)).mp hb))
  have hcop : (svc.socks impl).cop.impl = false := by
    rw [hsock]
    exact h.cop_eq
  have hclosereqs : s.closereqs = [] := by
    refine not_not.mp fun hne ↦ ?_
    have hflag := h.closed_of_closereqs hne
    rw [hunborn.flag_eq] at hflag
    cases hflag
  have hbound : s.writing = true ∨ s.writer ≠ none ∨ (svc.socks impl).wop.impl = true →
      (svc.socks impl).epoll ≠ none := by
    rw [hepoll, show (svc.socks impl).wop = (s.svc.socks impl).wop from hop .write]
    exact h.bound
  split
  · exact ⟨hrunning, hepoll_mem, hflags, hcop, fun hearly ↦ Bool.noConfusion hearly,
      fun _ _ ↦ ⟨by rw [hsock]; exact Option.some_ne_none fd, hclose⟩,
      fun hne ↦ absurd hclosereqs hne, SocketState.noConfusion, hbound⟩
  · refine ⟨hrunning, hepoll_mem, hflags, hcop, fun _ ↦ ?_, fun hlate ↦ Bool.noConfusion hlate,
      fun hne ↦ absurd hclosereqs hne, ?_, hbound⟩
    · exact ⟨Or.inr rfl, hunborn.flag_eq, hunborn.reader_eq, hunborn.writer_eq,
        fun d ↦ (congrArg RwOperation.impl (hop d)).trans (hunborn.op_eq d), hclose⟩
    · intro hflag
      have hstop : s.flag = .close := hflag
      rw [hunborn.flag_eq] at hstop
      cases hstop

theorem late_of_closed (h : Tracked impl s) (hflag : s.flag = .close) : s.phase.early = false := by
  refine Bool.eq_false_iff.mpr fun hearly ↦ ?_
  rw [(h.unborn hearly).flag_eq] at hflag
  cases hflag

/-- A change of the socket that keeps the `epoll` instance and the posted operations. -/
theorem resock (h : Tracked impl s) {svc : Service} {sock : Sock}
    (hhandlers : svc.handlers = s.svc.handlers) (hsock : svc.socks impl = sock)
    (hepoll : sock.epoll = (s.svc.socks impl).epoll) (hcop : sock.cop = (s.svc.socks impl).cop)
    (hwop : sock.wop = (s.svc.socks impl).wop) (hflags : sock.FlagsBound)
    (hunborn : s.phase.early = true → Unborn impl { s with svc := svc })
    (hopened : s.phase.early = false → s.flag ≠ .close → sock.fd ≠ none ∧ .close ∉ sock.state) :
    Tracked impl { s with svc := svc } := by
  subst hsock
  constructor
  · change svc.handlers ≠ []
    rw [hhandlers]
    exact h.running
  · change ∀ k, (svc.socks impl).epoll = some k → k ∈ svc.handlers
    rw [hepoll, hhandlers]
    exact h.epoll_mem
  · exact hflags
  · change (svc.socks impl).cop.impl = false
    rw [hcop]
    exact h.cop_eq
  · exact hunborn
  · exact hopened
  · exact h.closed_of_closereqs
  · intro hflag
    change (∃ k ∈ svc.handlers, k ∈ s.closereqs) ∨ .onDisconnected ∈ s.log
    rw [hhandlers]
    exact h.served hflag
  · change s.writing = true ∨ s.writer ≠ none ∨ (svc.socks impl).wop.impl = true →
      (svc.socks impl).epoll ≠ none
    rw [hepoll, hwop]
    exact h.bound

theorem doClose (h : Tracked impl s) (hne : s.closereqs ≠ []) : Tracked impl (doClose impl s) := by
  have hflag := h.closed_of_closereqs hne
  have hlate := h.late_of_closed hflag
  have hsock := h.resock
    (show (s.svc.setSock impl { s.svc.socks impl with fd := none, state := ∅ }).handlers =
      s.svc.handlers from rfl)
    (Service.setSock_same ..) rfl rfl rfl
    (by rintro (hb | hb | hb) <;> exact absurd hb (Finset.notMem_empty _))
    (fun hearly ↦ absurd hearly (Bool.eq_false_iff.mp hlate)) (fun _ hc ↦ absurd hflag hc)
  exact ⟨hsock.running, hsock.epoll_mem, hsock.flagsBound, hsock.cop_eq,
    fun hearly ↦ absurd hearly (Bool.eq_false_iff.mp hlate), hsock.opened,
    hsock.closed_of_closereqs, hsock.served, hsock.bound⟩

theorem closeHandler (h : Tracked impl s) : Tracked impl (closeHandler s) where
  running := h.running
  epoll_mem := h.epoll_mem
  flagsBound := h.flagsBound
  cop_eq := h.cop_eq
  unborn hearly :=
    have hunborn := h.unborn hearly
    ⟨hunborn.phase_eq, hunborn.flag_eq, hunborn.reader_eq, hunborn.writer_eq, hunborn.op_eq,
      hunborn.close_notMem⟩
  opened := h.opened
  closed_of_closereqs hne := by
    apply h.closed_of_closereqs
    rintro hnil
    apply hne
    change s.closereqs.tail = []
    rw [hnil]
    rfl
  served _ := Or.inr (List.mem_append_right _ (List.mem_singleton_self _))
  bound := h.bound

theorem others (h : Tracked impl s) (socks : ℕ → Sock) (implidx : UInt32) :
    Tracked impl (others impl socks implidx s) := by
  refine h.resock rfl (Function.update_self ..) rfl rfl rfl h.flagsBound ?_ h.opened
  intro hearly
  obtain ⟨hphase, hflag, hreader, hwriter, hop, hclose⟩ := h.unborn hearly
  refine ⟨hphase, hflag, hreader, hwriter, ?_, ?_⟩
  · intro d
    dsimp only
    rw [Function.update_self]
    exact hop d
  · dsimp only
    rw [Function.update_self]
    exact hclose

end Tracked

theorem Tracked.late_of_reader (h : Tracked impl s) (hreader : s.reader ≠ .away) :
    s.phase.early = false :=
  Bool.eq_false_iff.mpr fun hearly ↦ hreader (h.unborn hearly).reader_eq

theorem Tracked.late_of_op (h : Tracked impl s) (d : Dir)
    (hop : ((s.svc.socks impl).op d).impl = true) : s.phase.early = false := by
  refine Bool.eq_false_iff.mpr fun hearly ↦ ?_
  rw [(h.unborn hearly).op_eq d] at hop
  cases hop

theorem Tracked.later (h : Tracked impl s) (hlate : s.phase.early = false) {phase : LifePhase}
    (hphase : phase.early = false) (reader : Reader) (log : List NetCallback) :
    Tracked impl { s with phase := phase, reader := reader, log := s.log ++ log } where
  running := h.running
  epoll_mem := h.epoll_mem
  flagsBound := h.flagsBound
  cop_eq := h.cop_eq
  unborn hearly := absurd hearly (Bool.eq_false_iff.mp hphase)
  opened _ := h.opened hlate
  closed_of_closereqs := h.closed_of_closereqs
  served hflag := by
    rcases h.served hflag with hqueued | hlog
    · exact Or.inl hqueued
    · exact Or.inr (List.mem_append_left _ hlog)
  bound := h.bound

theorem system_tracked {a : LifeMove} (h : Tracked impl s)
    (henabled : (system impl .tcpSocket isco).enabled s a) (hbound : ClosedBound impl s a) :
    ∃ s', (system impl .tcpSocket isco).step s a = some s' ∧ Tracked impl s' := by
  have hused : SocketKind.tcpSocket = .tcpConnector ∨ s.phase = .announced ∨ s.phase = .running →
      s.phase.early = false := by
    rintro (hkind | hphase | hphase)
    · cases hkind
    · rw [hphase]
      rfl
    · rw [hphase]
      rfl
  cases a with
  | asyncConnect fd v6 valid connected os error => cases henabled
  | connectDone error =>
      have hcop : (s.svc.socks impl).cop.impl = true := henabled
      rw [h.cop_eq] at hcop
      cases hcop
  | connectHandler endpoint =>
      have hearly : s.phase.early = true := by
        rcases henabled with hphase | hphase <;> rw [hphase] <;> rfl
      have hphase := (h.unborn hearly).phase_eq
      rcases henabled with hc | hc <;> rw [hc] at hphase <;> rcases hphase with hp | hp <;> cases hp
  | accept fd v6 endpoint => exact ⟨_, rfl, h.accept henabled.2 fd v6 endpoint⟩
  | announce =>
      have hlate : s.phase.early = false := by
        rw [show s.phase = .announcing from henabled]
        rfl
      exact ⟨_, rfl, h.later hlate rfl s.reader [.onConnected]⟩
  | proceed os =>
      have hlate : s.phase.early = false := by
        rw [show s.phase = .announced from henabled]
        rfl
      exact ⟨_, rfl, h.tryRecvData hlate rfl os⟩
  | readDone good os =>
      have hlate := h.late_of_op .read henabled
      obtain ⟨svc, reader, hstep, hsection, -⟩ := step_readDone impl .tcpSocket good os henabled
      exact ⟨_, hstep, h.reading hlate hlate hsection⟩
  | readHandler =>
      have hlate : s.phase.early = false := by
        apply h.late_of_reader
        rcases henabled with hreader | hreader <;> rw [hreader] <;> decide
      refine ⟨_, rfl, ?_⟩
      exact h.reading hlate hlate (Service.Section.refl ..)
  | receive =>
      have hlate : s.phase.early = false := by
        apply h.late_of_reader
        rw [show s.reader = .cutting from henabled]
        decide
      exact ⟨_, rfl, h.later hlate hlate s.reader [.onReceiveData]⟩
  | readEnd good os =>
      have hlate : s.phase.early = false := by
        apply h.late_of_reader
        rw [show s.reader = .cutting from henabled]
        decide
      refine ⟨_, rfl, ?_⟩
      split
      · exact h.tryRecvData hlate hlate os
      · exact h.reading hlate hlate (Service.Section.refl ..)
  | readClose =>
      have hlate : s.phase.early = false := by
        apply h.late_of_reader
        rw [show s.reader = .closing from henabled]
        decide
      have hlate' : (close impl s).phase.early = false := by
        rw [(close_keeps impl s).2]
        exact hlate
      exact ⟨_, rfl, (h.close hlate hbound).reading hlate' hlate' (Service.Section.refl ..)⟩
  | writeDone good os =>
      have hlate := h.late_of_op .write henabled
      have hepoll := h.bound (Or.inr (Or.inr henabled))
      obtain ⟨svc, writer, hstep, hsection⟩ := step_writeDone impl .tcpSocket good os henabled
      have hepoll' := hsection.posting.chosen.ne_none hepoll
      have hposted := h.posted hlate hsection fun _ ↦ hepoll'
      exact ⟨_, hstep, hposted.running, hposted.epoll_mem, hposted.flagsBound, hposted.cop_eq,
        fun hearly ↦ absurd hearly (Bool.eq_false_iff.mp hlate), hposted.opened,
        hposted.closed_of_closereqs, hposted.served, fun _ ↦ hepoll'⟩
  | writeHandler more os =>
      obtain ⟨good, hgood⟩ := Option.ne_none_iff_exists'.mp henabled
      have hlate : s.phase.early = false := by
        refine Bool.eq_false_iff.mpr fun hearly ↦ ?_
        rw [(h.unborn hearly).writer_eq] at hgood
        cases hgood
      have hepoll := h.bound (Or.inr (Or.inl henabled))
      exact ⟨_, congrArg (Option.map _) hgood, h.writeHandler hlate hepoll good more os⟩
  | send os => exact ⟨_, rfl, h.send (hused henabled) os hbound⟩
  | close => exact ⟨_, rfl, h.close (hused henabled) hbound⟩
  | doClose => exact ⟨_, rfl, h.doClose henabled.1⟩
  | closeHandler => exact ⟨_, rfl, h.closeHandler⟩
  | others socks implidx => exact ⟨_, rfl, h.others socks implidx⟩

theorem Starts.tracked (h : s.Starts impl) (hrunning : s.svc.implvector ≠ []) :
    Tracked impl s := by
  have hsock := h.sock_eq
  have hflag : s.flag ≠ .close := by
    rw [h.flag_eq]
    decide
  constructor
  · exact fun hnil ↦ hrunning (List.map_eq_nil_iff.mp hnil)
  · intro k hk
    rw [hsock] at hk
    cases hk
  · rw [hsock]
    rintro (hb | hb | hb) <;> exact absurd hb (by decide)
  · rw [hsock]
    rfl
  · intro _
    refine ⟨Or.inl h.phase_eq, h.flag_eq, h.reader_eq, h.writer_eq, ?_, ?_⟩
    · intro d
      rw [hsock]
      cases d <;> rfl
    · rw [hsock]
      decide
  · intro hlate
    rw [h.phase_eq] at hlate
    cases hlate
  · exact fun hne ↦ absurd h.closereqs_eq hne
  · exact fun hc ↦ absurd hc hflag
  · rintro (hwriting | hwriter | hwop)
    · rw [h.writing_eq] at hwriting
      cases hwriting
    · exact absurd h.writer_eq hwriter
    · rw [hsock] at hwop
      cases hwop

/-- Once an accepted socket is closed, its close handler is queued or was called. -/
theorem closed_served {moves : List LifeMove} (hstarts : s.Starts impl)
    (hrunning : s.svc.implvector ≠ [])
    (hallowed : (system impl .tcpSocket isco).Allowed (ClosedBound impl) s moves) :
    ∃ s', (system impl .tcpSocket isco).run s moves = some s' ∧
      (.onConnected ∈ s'.log → s'.flag = .close → Served s') := by
  obtain ⟨s', hrun, h⟩ := System.run_invariant (I := Tracked impl)
    (fun _ _ ht henabled hbound ↦ system_tracked ht henabled hbound) (hstarts.tracked hrunning)
    hallowed
  exact ⟨s', hrun, fun _ ↦ h.served⟩

/-- A new socket and one running thread. -/
def sampleAccepted : Lifetime where
  svc := { socks := fun _ ↦ newSock, implvector := [⟨3, 0⟩], implidx := 0 }
  flag := .stop
  writing := false
  phase := .idle
  reader := .away
  writer := none
  closereqs := []
  closing := false
  log := []

/-- A `Send` and `Close` from inside `OnConnected`; the write completes after both. -/
def sampleGreeting : List LifeMove :=
  [.accept 7 false true, .announce, .send .good, .close, .proceed .good, .writeDone true .good,
    .writeHandler false .good]

theorem closed_served_sampleGreeting :
    ∃ s', (system 0 .tcpSocket false).run sampleAccepted sampleGreeting = some s' ∧
      (.onConnected ∈ s'.log → s'.flag = .close → Served s') :=
  closed_served ⟨rfl, rfl, rfl, rfl, rfl, rfl, rfl, rfl, rfl⟩ (by decide) (by decide)

/-- `Close` from inside `OnConnected` of a socket that is not bound yet. -/
theorem not_closed_served :
    ∃ s', sampleAccepted.Starts 0 ∧ sampleAccepted.svc.implvector ≠ [] ∧
      (system 0 .tcpSocket false).Allowed System.anyStep sampleAccepted
        [.accept 7 false true, .announce, .close] ∧
      (system 0 .tcpSocket false).run sampleAccepted [.accept 7 false true, .announce, .close] =
        some s' ∧
      .onConnected ∈ s'.log ∧ s'.flag = .close ∧ ¬ Served s' := by
  refine ⟨_, ⟨rfl, rfl, rfl, rfl, rfl, rfl, rfl, rfl, rfl⟩, by decide, by decide, rfl,
    List.mem_singleton_self _, rfl, ?_⟩
  rintro (⟨h, -, hmem⟩ | hmem)
  · cases hmem
  · exact absurd hmem (by decide)

end Lifetime

end Slience
