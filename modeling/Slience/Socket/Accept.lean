import Slience.Socket.Interest

/-!
# The chain of accepts

`ListenOne` posts the first accept of a listener and its handler posts every further one,
from inside the completion of the one before.  The handler passes on the error it was
called with as the place for the error of the new post, and `AsyncAccept` takes back a post
whose error is set, whoever set it.

The acceptor is only known to the handler of the accept that is posted on it, and so is the socket
that waits for the next client.  A handler that posts no other one is the last to know it: the
destructor of the acceptor then calls `Close`, and `_DoClose`, which comes before the next events,
closes the descriptor.  What happens to all other sockets between two completions, and inside
`Init` of the socket just accepted, is left open.
-/

namespace Slience

namespace Epoll

/-- `ConstructImpl` -/
def newSock : Sock := ⟨none, none, {.block}, ∅, .clear, .clear, .clear, .clear, none⟩

/-- The service, the number of the next socket that is created, and whether `_closereqs` holds a
request for the acceptor. -/
structure Listener where
  svc : Service
  fresh : ℕ
  asked : Bool

/-- One completion on the listener, `_DoClose`, or what the rest of the program does: the other
sockets change and `created` new ones appear. -/
inductive AcceptMove
  | accept (r : AcceptResult) (os : Os) (socks : ℕ → Sock) (created : ℕ)
  | doClose
  | others (socks : ℕ → Sock) (created : ℕ)

namespace Service

/-- `g_closesocket`, `fd = M_INVALID_SOCKET`, `state = 0`.  With the descriptor its registration
in `epoll` goes. -/
def closeSocket (e : Service) (i : ℕ) : Service :=
  e.setSock i { e.socks i with fd := none, state := ∅, interest := none }

/-- `IoAccess::Close` without a handler.  The second component is `true` where a request is
queued. -/
def close (e : Service) (i : ℕ) : Service × Bool :=
  let s := e.socks i
  if s.fd ≠ none ∧ StateBit.close ∉ s.state then
    let found : Bool := s.epoll ∈ e.implvector.map fun p ↦ some p.handler
    let e := { e with
      implvector := e.implvector.map fun p : IoServiceImpl ↦
        if s.epoll = some p.handler then { p with fdcnt := p.fdcnt - 1 } else p }
    if StateBit.block ∈ s.state then (e.closeSocket i, found)
    else (e.setSock i { s with state := insert StateBit.close s.state }, found)
  else (e, false)

end Service

namespace Listener

/-- Neither the acceptor `a` nor the socket that waits for its next client changes. -/
def others (a : ℕ) (l : Listener) (socks : ℕ → Sock) (created : ℕ) : Listener where
  svc := { l.svc with
    socks := fun j ↦
      if j = a ∨ (l.svc.socks a).aop.cliImpl = some j then l.svc.socks j else socks j }
  fresh := l.fresh + created
  asked := l.asked

/-- `_AcceptHandler`, `_AcceptHttpHandler`.  The handler that is posted has the number of the
socket it is bound to. -/
def acceptHandler (a : ℕ) (l : Listener) (error : SocketError) (os : Os) (socks : ℕ → Sock)
    (created : ℕ) : Listener × SocketError :=
  -- `clisock->Init()`
  let l := if error ≠ 0 then l else l.others a socks created
  let newclisock := l.fresh
  let (svc, error) :=
    (l.svc.setSock newclisock newSock).asyncAccept a newclisock newclisock os error
  (⟨svc, newclisock + 1, l.asked⟩, error)

/-- `ListenOne`, `ListenOneHttp` for a new acceptor on `fd`. -/
def listenOne (l : Listener) (fd : ℕ) (v6 : Bool) (os : Os) : Option Listener :=
  let acceptor := l.fresh
  let clisock := l.fresh + 1
  let state : Finset StateBit := if v6 then {.block, .v6} else {.block}
  let svc := (l.svc.setSock acceptor { newSock with fd := some fd, state := state }).setSock
    clisock newSock
  let (svc, error) := svc.asyncAccept acceptor clisock clisock os 0
  if error ≠ 0 then none else some ⟨svc, clisock + 1, false⟩

/-- The handler that was called goes, and where it is the last that knows the acceptor, the
acceptor goes with it. -/
def release (a : ℕ) (l : Listener) : Listener :=
  if (l.svc.socks a).aop.handler = none then
    let (svc, queued) := l.svc.close a
    { l with svc := svc, asked := queued || l.asked }
  else l

/-- `_DoClose`, as far as it is about the acceptor. -/
def doClose (a : ℕ) (l : Listener) : Listener :=
  if l.asked then { l with svc := l.svc.closeSocket a, asked := false } else l

def step (a : ℕ) (l : Listener) : AcceptMove → Option Listener
  | .accept r os socks created => do
      let (svc, _) ← l.svc.acceptComplete a r
      return (acceptHandler a { l with svc := svc } r.error os socks created).1.release a
  | .doClose => some (l.doClose a)
  | .others socks created => some (l.others a socks created)

/-- An accept is posted on the open acceptor `a`, for a new socket. -/
structure Accepting (a : ℕ) (l : Listener) : Prop where
  lt_fresh : a < l.fresh
  not_asked : l.asked = false
  fd_ne : (l.svc.socks a).fd ≠ none
  flags : .accept ∈ (l.svc.socks a).state ∧ .bind ∈ (l.svc.socks a).state ∧
    .block ∉ (l.svc.socks a).state
  type_eq : (l.svc.socks a).type = {.accept}
  interest_eq : (l.svc.socks a).interest = some (a, {.epollin})
  aop_eq : ∃ c, a ≠ c ∧ c < l.fresh ∧ l.svc.socks c = newSock ∧
    (l.svc.socks a).aop = ⟨true, some c, some c⟩

/-- Along these moves an accept is posted after each of them, and none meets a cleared
operation. -/
def Survives (a : ℕ) : Listener → List AcceptMove → Prop
  | _, [] => True
  | l, m :: moves => ∃ l', l.step a m = some l' ∧ Accepting a l' ∧ Survives a l' moves

end Listener

/-- The accept has not failed with an error. -/
def AcceptMove.Clean : AcceptMove → Prop
  | accept r _ _ _ => r.error = 0
  | doClose => True
  | others _ _ => True

/-! ## One completion -/

namespace Service

/-- The acceptor as a new accept leaves it. -/
def accepting (s : Sock) (cli handler : ℕ) : Sock :=
  { s with
    state := insert .accept (s.state.erase .block)
    type := {.accept}
    aop := ⟨true, some cli, some handler⟩ }

theorem asyncAccept_bound {e : Service} {i : ℕ} (cli handler : ℕ) (os : Os) (error : SocketError)
    (hfd : (e.socks i).fd ≠ none) (haccept : .accept ∉ (e.socks i).state)
    (hblock : .block ∉ (e.socks i).state) (hbind : .bind ∈ (e.socks i).state) :
    e.asyncAccept i cli handler os error =
      if error ≠ 0 then
        (e.setSock i { accepting (e.socks i) cli handler with
          state := ((accepting (e.socks i) cli handler).state.erase .accept).erase .bind
          aop := .clear }, error)
      else (e.setSock i (accepting (e.socks i) cli handler), error) := by
  have hbind' : StateBit.bind ∈ insert StateBit.accept ((e.socks i).state.erase .block) := by
    simp [hbind]
  rw [asyncAccept, if_neg hfd, if_neg haccept, if_neg (fun h ↦ hblock h.1)]
  simp only [setSock_same, setSock_setSock, if_pos hbind']
  rfl

theorem socks_ctlEpoll {e : Service} {i opset : ℕ} {events : Finset EventBit} {os : Os}
    (h : (e.ctlEpoll i opset .add events os 0).2 = 0) :
    ∃ epoll, (e.ctlEpoll i opset .add events os 0).1.socks = Function.update e.socks i
      { e.socks i with epoll := epoll, interest := some (opset, events) } := by
  have hfirst : ∃ epoll,
      (if Ctl.add = .add ∧ (e.socks i).epoll = none then e.chooseImpl i else e).socks =
        Function.update e.socks i { e.socks i with epoll := epoll } := by
    split
    · unfold chooseImpl
      split
      · exact ⟨(e.socks i).epoll, (Function.update_eq_self i e.socks).symm⟩
      · exact ⟨_, rfl⟩
    · exact ⟨(e.socks i).epoll, (Function.update_eq_self i e.socks).symm⟩
  obtain ⟨epoll, hsocks⟩ := hfirst
  unfold ctlEpoll at h ⊢
  generalize (if Ctl.add = .add ∧ (e.socks i).epoll = none then e.chooseImpl i else e) = e₁
    at h hsocks ⊢
  dsimp only at h ⊢
  split at h
  · exact absurd h (show ¬ SocketError.notService = 0 by decide)
  · rename_i hepoll
    split at h
    · rename_i hos
      rw [if_neg hepoll, if_pos hos]
      refine ⟨epoll, ?_⟩
      rw [setSock, hsocks]
      simp
    · exact absurd h os.last_ne

theorem asyncAccept_first {e : Service} {i cli handler : ℕ} {os : Os}
    (hbind : .bind ∉ (e.socks i).state) (h : (e.asyncAccept i cli handler os 0).2 = 0) :
    (e.socks i).fd ≠ none ∧ ∃ epoll, (e.asyncAccept i cli handler os 0).1.socks =
      Function.update e.socks i { accepting (e.socks i) cli handler with
        state := insert .bind (accepting (e.socks i) cli handler).state
        epoll := epoll
        interest := some (i, {.epollin}) } := by
  have hbind' : StateBit.bind ∉ insert StateBit.accept ((e.socks i).state.erase .block) := by
    simp [hbind]
  unfold asyncAccept at h ⊢
  dsimp only at h ⊢
  split at h
  · exact absurd h (show ¬ SocketError.badDescriptor = 0 by decide)
  · rename_i hfd
    split at h
    · exact absurd h (show ¬ SocketError.postedAccept = 0 by decide)
    · rename_i haccept
      split at h
      · exact absurd h os.last_ne
      · rename_i hblock
        refine ⟨hfd, ?_⟩
        rw [if_neg hfd, if_neg haccept, if_neg hblock]
        simp only [setSock_same, setSock_setSock, if_neg hbind'] at h ⊢
        generalize hctl : ctlEpoll _ _ _ _ _ _ _ = p at h ⊢
        by_cases herror : p.2 ≠ 0
        · rw [if_pos herror] at h
          exact absurd h herror
        · rw [not_not] at herror
          rw [if_neg (not_not.mpr herror)]
          subst hctl
          obtain ⟨epoll, hsocks⟩ := socks_ctlEpoll herror
          refine ⟨epoll, ?_⟩
          rw [hsocks]
          simp [setSock, accepting]

theorem acceptComplete_spec {e : Service} {i c : ℕ} (r : AcceptResult) (hfd : (e.socks i).fd ≠ none)
    (hne : i ≠ c) (haop : (e.socks i).aop = ⟨true, some c, some c⟩) :
    ∃ e', e.acceptComplete i r = some (e', c) ∧
      e'.socks i = { e.socks i with state := (e.socks i).state.erase .accept, aop := .clear } := by
  simp only [acceptComplete, haop, if_true, if_pos hfd, Option.bind_eq_bind, Option.bind_some]
  refine ⟨_, rfl, ?_⟩
  rw [setSock_same]
  cases r.fd with
  | none => simp
  | some fd => simp [setSock_of_ne _ _ hne]

end Service

namespace Listener

variable {a : ℕ} {l : Listener}

theorem others_acceptor (socks : ℕ → Sock) (created : ℕ) :
    (l.others a socks created).svc.socks a = l.svc.socks a :=
  if_pos (Or.inl rfl)

theorem others_waiting {c : ℕ} (socks : ℕ → Sock) (created : ℕ)
    (h : (l.svc.socks a).aop.cliImpl = some c) :
    (l.others a socks created).svc.socks c = l.svc.socks c :=
  if_pos (Or.inr h)

theorem Accepting.others (h : Accepting a l) (socks : ℕ → Sock) (created : ℕ) :
    Accepting a (l.others a socks created) := by
  have hacceptor : (l.others a socks created).svc.socks a = l.svc.socks a :=
    others_acceptor socks created
  have hfresh : (l.others a socks created).fresh = l.fresh + created := rfl
  have hlt := h.lt_fresh
  obtain ⟨c, hne, hc, hnew, haop⟩ := h.aop_eq
  refine ⟨by omega, h.not_asked, ?_, ?_, ?_, ?_, c, hne, by omega, ?_, ?_⟩
  · rw [hacceptor]
    exact h.fd_ne
  · rw [hacceptor]
    exact h.flags
  · rw [hacceptor]
    exact h.type_eq
  · rw [hacceptor]
    exact h.interest_eq
  · rw [others_waiting socks created (by rw [haop]), hnew]
  · rw [hacceptor, haop]

/-- The acceptor inside the completion of an accept. -/
structure Completing (a : ℕ) (l : Listener) : Prop where
  lt_fresh : a < l.fresh
  not_asked : l.asked = false
  fd_ne : (l.svc.socks a).fd ≠ none
  flags : .accept ∉ (l.svc.socks a).state ∧ .bind ∈ (l.svc.socks a).state ∧
    .block ∉ (l.svc.socks a).state
  interest_eq : (l.svc.socks a).interest = some (a, {.epollin})

theorem Completing.others (h : Completing a l) (socks : ℕ → Sock) (created : ℕ) :
    Completing a (l.others a socks created) := by
  have hacceptor : (l.others a socks created).svc.socks a = l.svc.socks a :=
    others_acceptor socks created
  refine ⟨Nat.lt_add_right created h.lt_fresh, h.not_asked, ?_, ?_, ?_⟩ <;> rw [hacceptor]
  · exact h.fd_ne
  · exact h.flags
  · exact h.interest_eq

theorem Accepting.complete (h : Accepting a l) (r : AcceptResult) :
    ∃ svc c, l.svc.acceptComplete a r = some (svc, c) ∧ Completing a { l with svc := svc } := by
  obtain ⟨c, hne, -, -, haop⟩ := h.aop_eq
  obtain ⟨svc, hcomplete, hacceptor⟩ := Service.acceptComplete_spec r h.fd_ne hne haop
  obtain ⟨-, hbind, hblock⟩ := h.flags
  refine ⟨svc, c, hcomplete, h.lt_fresh, h.not_asked, ?_, ?_, ?_⟩ <;> dsimp only <;>
    rw [hacceptor]
  · exact h.fd_ne
  · simp [hbind, hblock]
  · exact h.interest_eq

/-- Where the post stays, the new handler knows the acceptor. -/
theorem release_of_handler {c : ℕ} (h : (l.svc.socks a).aop.handler = some c) :
    l.release a = l :=
  if_neg (by rw [h]; exact Option.some_ne_none c)

theorem doClose_of_not_asked (h : l.asked = false) : l.doClose a = l :=
  if_neg (by rw [h]; exact Bool.false_ne_true)

/-- `Close` does not post anything. -/
theorem accept_notMem_release (h : .accept ∉ (l.svc.socks a).state) :
    .accept ∉ ((l.release a).svc.socks a).state := by
  unfold release
  split
  · dsimp only [Service.close]
    split
    · split
      · simp [Service.closeSocket]
      · simpa using h
    · exact h
  · exact h

theorem Completing.post (h : Completing a l) (os : Os) (error : SocketError) :
    Accepting a ((⟨((l.svc.setSock l.fresh newSock).asyncAccept a l.fresh l.fresh os error).1,
      l.fresh + 1, l.asked⟩ : Listener).release a) ↔ error = 0 := by
  have hne : a ≠ l.fresh := h.lt_fresh.ne
  obtain ⟨haccept, hbind, hblock⟩ := h.flags
  have hacceptor : (l.svc.setSock l.fresh newSock).socks a = l.svc.socks a :=
    Service.setSock_of_ne _ _ hne
  have hpost := Service.asyncAccept_bound (e := l.svc.setSock l.fresh newSock) (i := a) l.fresh
    l.fresh os error (by rw [hacceptor]; exact h.fd_ne) (by rw [hacceptor]; exact haccept)
    (by rw [hacceptor]; exact hblock) (by rw [hacceptor]; exact hbind)
  rw [hpost, hacceptor]
  constructor
  · intro haccepting
    by_contra herror
    rw [if_pos herror] at haccepting
    exact accept_notMem_release (by simp) haccepting.flags.1
  · rintro rfl
    rw [if_neg (by simp), release_of_handler (c := l.fresh) (by simp [Service.accepting])]
    have hlt := h.lt_fresh
    refine ⟨by dsimp only; omega, h.not_asked, ?_, ?_, ?_, ?_, l.fresh, hne, by dsimp only; omega,
      ?_, ?_⟩
    · simpa [Service.accepting] using h.fd_ne
    · simp [Service.accepting, hbind]
    · simp [Service.accepting]
    · simpa [Service.accepting] using h.interest_eq
    · simp [Service.setSock_of_ne _ _ hne.symm]
    · simp [Service.accepting]

/-- After a completion an accept is posted if and only if the completed one had no error. -/
theorem Accepting.step_iff (h : Accepting a l) (m : AcceptMove) :
    ∃ l', l.step a m = some l' ∧ (Accepting a l' ↔ m.Clean) := by
  cases m with
  | others socks created =>
      exact ⟨_, rfl, iff_of_true (h.others socks created) trivial⟩
  | doClose =>
      refine ⟨l.doClose a, rfl, ?_⟩
      rw [doClose_of_not_asked h.not_asked]
      exact iff_of_true h trivial
  | accept r os socks created =>
      obtain ⟨svc, c, hcomplete, hcompleting⟩ := h.complete r
      refine ⟨(acceptHandler a { l with svc := svc } r.error os socks created).1.release a, ?_, ?_⟩
      · rw [step, hcomplete]
        rfl
      · by_cases herror : r.error = 0
        · simp only [acceptHandler, if_neg (not_not.mpr herror)]
          exact (hcompleting.others socks created).post os r.error
        · simp only [acceptHandler, if_pos herror]
          exact hcompleting.post os r.error

/-! ## The chain -/

theorem survives_iff {moves : List AcceptMove} (h : Accepting a l) :
    Survives a l moves ↔ ∀ m ∈ moves, m.Clean := by
  induction moves generalizing l with
  | nil => exact iff_of_true trivial (by simp)
  | cons m moves ih =>
      obtain ⟨l', hstep, hiff⟩ := h.step_iff m
      rw [List.forall_mem_cons, Survives]
      constructor
      · rintro ⟨l'', hstep', haccepting, hrest⟩
        cases hstep.symm.trans hstep'
        exact ⟨hiff.mp haccepting, (ih haccepting).mp hrest⟩
      · rintro ⟨hclean, hrest⟩
        have haccepting := hiff.mpr hclean
        exact ⟨l', hstep, haccepting, (ih haccepting).mpr hrest⟩

theorem listenOne_accepting {l' : Listener} {fd : ℕ} {v6 : Bool} {os : Os}
    (h : l.listenOne fd v6 os = some l') : Accepting l.fresh l' := by
  have hne : l.fresh ≠ l.fresh + 1 := by omega
  unfold listenOne at h
  dsimp only at h
  generalize hsvc : (l.svc.setSock _ _).setSock _ _ = svc at h
  have hacceptor : svc.socks l.fresh = { newSock with
      fd := some fd, state := if v6 then {.block, .v6} else {.block} } := by
    rw [← hsvc, Service.setSock_of_ne _ _ hne, Service.setSock_same]
  have hclisock : svc.socks (l.fresh + 1) = newSock := by
    rw [← hsvc, Service.setSock_same]
  have hbind : .bind ∉ (svc.socks l.fresh).state := by
    rw [hacceptor]
    cases v6 <;> simp
  split at h
  · cases h
  · rename_i herror
    cases h
    obtain ⟨hfd, epoll, hsocks⟩ := Service.asyncAccept_first hbind (not_not.mp herror)
    refine ⟨by dsimp only; omega, rfl, ?_, ?_, ?_, ?_, l.fresh + 1, hne, by dsimp only; omega,
      ?_, ?_⟩ <;> dsimp only <;> rw [hsocks]
    · rw [Function.update_self]
      exact hfd
    · rw [Function.update_self]
      simp [Service.accepting]
    · rw [Function.update_self]
      rfl
    · rw [Function.update_self]
    · rw [Function.update_of_ne hne.symm]
      exact hclisock
    · rw [Function.update_self]
      rfl

/-- The chain that `ListenOne` starts goes on as long as no accept fails with an error. -/
theorem listenOne_survives_iff {l' : Listener} {fd : ℕ} {v6 : Bool} {os : Os}
    {moves : List AcceptMove} (h : l.listenOne fd v6 os = some l') :
    Survives l.fresh l' moves ↔ ∀ m ∈ moves, m.Clean :=
  survives_iff (listenOne_accepting h)

/-- One thread and no socket. -/
def sample : Listener := ⟨⟨fun _ ↦ newSock, [⟨3, 0⟩], 0⟩, 0, false⟩

/-- `accept` gives a descriptor. -/
def sampleAccept : AcceptMove := .accept ⟨some 7, none⟩ .good (fun _ ↦ newSock) 0

/-- `accept` fails and `SO_ERROR` is `ECONNABORTED`. -/
def sampleFailure : AcceptMove := .accept ⟨none, some 103⟩ .good (fun _ ↦ newSock) 0

theorem listenOne_survives_iff_sample :
    ∃ l, sample.listenOne 6 false .good = some l ∧
      (Survives 0 l [sampleAccept, sampleAccept] ↔
        ∀ m ∈ [sampleAccept, sampleAccept], m.Clean) := by
  obtain ⟨l, hl⟩ : ∃ l, sample.listenOne 6 false .good = some l := ⟨_, rfl⟩
  exact ⟨l, hl, listenOne_survives_iff hl⟩

/-- After a failed accept nothing is posted on the acceptor, which is still open and registered;
as nobody else knows it, it has asked for its own end, and `_DoClose` closes it. -/
theorem listenOne_survives_fails :
    ∃ l l', sample.listenOne 6 false .good = some l ∧ l.step 0 sampleFailure = some l' ∧
      .accept ∉ (l'.svc.socks 0).state ∧ (l'.svc.socks 0).aop = .clear ∧
      (l'.svc.socks 0).fd = some 6 ∧ l'.asked = true ∧
      ((l'.doClose 0).svc.socks 0).fd = none ∧ ((l'.doClose 0).svc.socks 0).interest = none ∧
      ¬ Survives 0 l [sampleFailure] := by
  refine ⟨_, _, rfl, rfl, by decide, by decide, by decide, by decide, by decide, by decide, ?_⟩
  rintro ⟨l', hstep, haccepting, -⟩
  cases hstep
  exact absurd haccepting.flags.1 (by decide)

end Listener

end Epoll

end Slience
