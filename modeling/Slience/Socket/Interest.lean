import Slience.Lib.Run
import Slience.Socket.Epoll

/-!
# What is posted and what is waited for

The flags of a socket, the `_type` of its operations and the events registered for it
are rebuilt from one another by every post and every completion.  Whatever the order of
the locked sections, they agree, as long as `epoll_ctl` succeeds.

Outside of the lock the functions write to the operation only (its buffer, its handler
and its `_impl`), and a completion that meets a cleared operation goes wrong.
-/

namespace Slience

namespace Epoll

/-- The events that the posted operations of a socket wait for. -/
def postedEvents (s : Sock) : Finset EventBit :=
  (if .read ∈ s.state then {.epollin} else ∅) ∪ if .write ∈ s.state then {.epollout} else ∅

/-- The three places say the same. -/
structure Agrees (i : ℕ) (s : Sock) : Prop where
  read_iff : .read ∈ s.type ↔ .read ∈ s.state
  write_iff : .write ∈ s.type ↔ .write ∈ s.state
  interest_eq : .bind ∈ s.state → s.interest = some (i, postedEvents s)

/-- An open socket that is not bound and has nothing posted. -/
structure Starts (s : Sock) : Prop where
  fd_ne : s.fd ≠ none
  bind_notMem : .bind ∉ s.state
  flags : .read ∉ s.state ∧ .write ∉ s.state
  bits : .read ∉ s.type ∧ .write ∉ s.type

/-- What the posts and completions of an open socket keep. -/
structure Sound (i : ℕ) (s : Sock) : Prop extends Agrees i s where
  fd_ne : s.fd ≠ none
  epoll_ne : .bind ∈ s.state → s.epoll ≠ none
  bind_of_read : .read ∈ s.state → .bind ∈ s.state
  bind_of_write : .write ∈ s.state → .bind ∈ s.state

theorem Starts.sound {s : Sock} (h : Starts s) (i : ℕ) : Sound i s where
  read_iff := iff_of_false h.bits.1 h.flags.1
  write_iff := iff_of_false h.bits.2 h.flags.2
  interest_eq hb := absurd hb h.bind_notMem
  fd_ne := h.fd_ne
  epoll_ne hb := absurd hb h.bind_notMem
  bind_of_read hr := absurd hr h.flags.1
  bind_of_write hw := absurd hw h.flags.2

namespace Service

@[simp] theorem setSock_same (e : Service) (i : ℕ) (s : Sock) : (e.setSock i s).socks i = s :=
  Function.update_self ..

theorem setSock_of_ne (e : Service) {i j : ℕ} (s : Sock) (h : j ≠ i) :
    (e.setSock i s).socks j = e.socks j :=
  Function.update_of_ne h ..

@[simp] theorem setSock_setSock (e : Service) (i : ℕ) (s t : Sock) :
    (e.setSock i s).setSock i t = e.setSock i t := by
  simp [setSock]

theorem chooseImpl_spec {e : Service} (i : ℕ) (h : e.implvector ≠ []) :
    ∃ handler, (e.chooseImpl i).socks =
        Function.update e.socks i { e.socks i with epoll := some handler } ∧
      (e.chooseImpl i).implvector ≠ [] := by
  have hpos := List.length_pos_of_ne_nil h
  have hlt := Nat.mod_lt (e.implidx + 1).toNat hpos
  rw [chooseImpl, if_neg h]
  refine ⟨(e.implvector[(e.implidx + 1).toNat % e.implvector.length]).handler, ?_, ?_⟩
  · simp only [setSock, List.getElem?_eq_getElem hlt, Option.map_some]
  · apply List.ne_nil_of_length_pos
    rw [List.length_modify]
    exact hpos

theorem ctlEpoll_spec {e : Service} {i : ℕ} {flag : Ctl} {os : Os} (opset : ℕ)
    (events : Finset EventBit) (error : SocketError) (hos : os.ctl = true) (hflag : flag ≠ .del)
    (himpl : e.implvector ≠ []) (h : flag = .add ∨ (e.socks i).epoll ≠ none) :
    ∃ handler, (e.ctlEpoll i opset flag events os error).2 = error ∧
      (e.ctlEpoll i opset flag events os error).1.implvector ≠ [] ∧
      (e.ctlEpoll i opset flag events os error).1.socks = Function.update e.socks i
        { e.socks i with epoll := some handler, interest := some (opset, events) } := by
  rw [ctlEpoll, if_pos hos, if_neg hflag]
  by_cases hepoll : (e.socks i).epoll = none
  · have hadd : flag = .add := h.resolve_right (not_not.mpr hepoll)
    obtain ⟨handler, hsocks, himpl'⟩ := chooseImpl_spec i himpl
    have hsome : ((e.chooseImpl i).socks i).epoll ≠ none := by
      rw [hsocks, Function.update_self]
      exact Option.some_ne_none handler
    rw [if_pos (show flag = .add ∧ (e.socks i).epoll = none from ⟨hadd, hepoll⟩), if_neg hsome]
    refine ⟨handler, rfl, himpl', ?_⟩
    rw [setSock, hsocks, Function.update_self]
    simp
  · obtain ⟨handler, hhandler⟩ := Option.ne_none_iff_exists'.mp hepoll
    rw [if_neg (show ¬ (flag = .add ∧ (e.socks i).epoll = none) from fun hc ↦ hepoll hc.2),
      if_neg hepoll]
    refine ⟨handler, rfl, himpl, ?_⟩
    rw [setSock, ← hhandler]

/-- Another socket, and that some thread runs, are left as they were. -/
structure Frame (j : ℕ) (e e' : Service) : Prop where
  socks_eq (k : ℕ) : k ≠ j → e'.socks k = e.socks k
  implvector_ne : e.implvector ≠ [] → e'.implvector ≠ []

theorem Frame.refl (j : ℕ) (e : Service) : Frame j e e := ⟨fun _ _ ↦ rfl, id⟩

theorem Frame.trans {j : ℕ} {e₁ e₂ e₃ : Service} (h₁ : Frame j e₁ e₂) (h₂ : Frame j e₂ e₃) :
    Frame j e₁ e₃ :=
  ⟨fun k hk ↦ (h₂.socks_eq k hk).trans (h₁.socks_eq k hk),
    fun h ↦ h₂.implvector_ne (h₁.implvector_ne h)⟩

theorem setSock_frame (e : Service) (j : ℕ) (s : Sock) : Frame j e (e.setSock j s) :=
  ⟨fun _ hk ↦ e.setSock_of_ne s hk, id⟩

theorem ctlEpoll_frame (e : Service) (j opset : ℕ) (flag : Ctl) (events : Finset EventBit) (os : Os)
    (error : SocketError) : Frame j e (e.ctlEpoll j opset flag events os error).1 := by
  have hchoose : Frame j e (e.chooseImpl j) := by
    unfold chooseImpl
    split
    · exact Frame.refl j e
    · refine ⟨fun k hk ↦ e.setSock_of_ne _ hk, ?_⟩
      intro h
      apply List.ne_nil_of_length_pos
      rw [List.length_modify]
      exact List.length_pos_of_ne_nil h
  have hfirst :
      Frame j e (if flag = .add ∧ (e.socks j).epoll = none then e.chooseImpl j else e) := by
    split
    · exact hchoose
    · exact Frame.refl j e
  unfold ctlEpoll
  generalize (if flag = .add ∧ (e.socks j).epoll = none then e.chooseImpl j else e) = e₁
    at hfirst ⊢
  dsimp only
  split
  · exact hfirst
  · split
    · exact hfirst.trans (setSock_frame _ _ _)
    · exact hfirst

theorem postSection_frame (d : Dir) (e : Service) (j : ℕ) (os : Os) (error : SocketError) :
    Frame j e (e.postSection d j os error).1 := by
  unfold postSection
  dsimp only
  split
  · exact Frame.refl j e
  · split
    · exact Frame.refl j e
    · split
      · exact Frame.refl j e
      · have hctl := (setSock_frame e j (markPosted d (e.socks j))).trans
          (ctlEpoll_frame _ j j (if .bind ∈ (e.socks j).state then .mod else .add)
            (postEvents d (e.socks j)) os error)
        generalize (e.setSock j (markPosted d (e.socks j))).ctlEpoll j j
          (if .bind ∈ (e.socks j).state then .mod else .add) (postEvents d (e.socks j)) os error = p
          at hctl ⊢
        split
        · exact hctl.trans (setSock_frame _ _ _)
        · exact hctl

theorem readSection_frame {e e' : Service} {j : ℕ} {os : Os} (h : e.readSection j j os = some e') :
    Frame j e e' := by
  unfold readSection at h
  split at h
  · split at h
    · cases h
      exact ((setSock_frame e j _).trans (setSock_frame _ j _)).trans (ctlEpoll_frame ..)
    · cases h
      exact Frame.refl j e
  · cases h

theorem writeSection_frame {e e' : Service} {j : ℕ} {os : Os}
    (h : e.writeSection j j os = some e') :
    Frame j e e' := by
  unfold writeSection at h
  split at h
  · dsimp only at h
    split at h
    · cases h
      exact ((setSock_frame e j _).trans (setSock_frame _ j _)).trans (ctlEpoll_frame ..)
    · cases h
      exact setSock_frame e j _
  · cases h

end Service

/-! ## One step -/

theorem Sound.post {i : ℕ} {s : Sock} (h : Sound i s) (d : Dir) (handler : ℕ) :
    Sound i { Service.markPosted d s with
      epoll := some handler, interest := some (i, Service.postEvents d s) } := by
  have hfd := h.fd_ne
  cases d with
  | read =>
      by_cases hother : .write ∈ s.state
      · refine ⟨⟨?_, ?_, ?_⟩, ?_, ?_, ?_, ?_⟩ <;>
          simp [Service.markPosted, Service.postEvents, Dir.other, Dir.flag, Dir.bit, Dir.event,
            postedEvents, hother, hfd]
      · refine ⟨⟨?_, ?_, ?_⟩, ?_, ?_, ?_, ?_⟩ <;>
          simp [Service.markPosted, Service.postEvents, Dir.other, Dir.flag, Dir.bit, Dir.event,
            postedEvents, hother, hfd]
  | write =>
      by_cases hother : .read ∈ s.state
      · refine ⟨⟨?_, ?_, ?_⟩, ?_, ?_, ?_, ?_⟩ <;>
          simp [Service.markPosted, Service.postEvents, Dir.other, Dir.flag, Dir.bit, Dir.event,
            postedEvents, hother, hfd]
        exact Finset.pair_comm _ _
      · refine ⟨⟨?_, ?_, ?_⟩, ?_, ?_, ?_, ?_⟩ <;>
          simp [Service.markPosted, Service.postEvents, Dir.other, Dir.flag, Dir.bit, Dir.event,
            postedEvents, hother, hfd]

theorem Sound.readComplete {i : ℕ} {s : Sock} (h : Sound i s) (handler : ℕ) :
    Sound i { s with
      state := s.state.erase .read
      type := s.type.erase .read
      epoll := some handler
      interest := some (i, if .write ∈ s.type.erase .read then {.epollout} else ∅) } := by
  have hfd := h.fd_ne
  have hwrite := h.write_iff
  have hbind := h.bind_of_write
  refine ⟨⟨?_, ?_, ?_⟩, ?_, ?_, ?_, ?_⟩ <;> simp [postedEvents, hwrite, hfd]
  exact hbind

theorem Sound.writeComplete {i : ℕ} {s : Sock} (h : Sound i s) (handler : ℕ) :
    Sound i { s with
      state := s.state.erase .write
      type := s.type.erase .write
      epoll := some handler
      interest := some (i, if .read ∈ s.type.erase .write then {.epollin} else ∅) } := by
  have hfd := h.fd_ne
  have hread := h.read_iff
  have hbind := h.bind_of_read
  refine ⟨⟨?_, ?_, ?_⟩, ?_, ?_, ?_, ?_⟩ <;> simp [postedEvents, hread, hfd]
  exact hbind

theorem Sound.setOp {i : ℕ} {s : Sock} (h : Sound i s) (op : RwOperation) (d : Dir) :
    Sound i (s.setOp op d) := by
  cases d <;> exact ⟨⟨h.1.1, h.1.2, h.1.3⟩, h.2, h.3, h.4, h.5⟩

/-- The socket `i` and the threads that run. -/
def SoundAt (i : ℕ) (e : Service) : Prop := e.implvector ≠ [] ∧ Sound i (e.socks i)

namespace SoundAt

variable {i : ℕ} {e e' : Service}

theorem of_frame {j : ℕ} (h : SoundAt i e) (hj : i ≠ j) (hframe : Service.Frame j e e') :
    SoundAt i e' := by
  refine ⟨hframe.implvector_ne h.1, ?_⟩
  rw [hframe.socks_eq i hj]
  exact h.2

theorem touch (h : SoundAt i e) (d : Dir) (j : ℕ) (op : RwOperation) :
    SoundAt i (e.setOp d j op) := by
  by_cases hj : i = j
  · subst hj
    refine ⟨h.1, ?_⟩
    rw [Service.setOp, Service.setSock_same]
    exact h.2.setOp op d
  · exact h.of_frame hj (Service.setSock_frame ..)

theorem post (h : SoundAt i e) (d : Dir) (j : ℕ) {os : Os} (hos : os.ctl = true) :
    SoundAt i (e.postSection d j os 0).1 := by
  by_cases hj : i = j
  · subst hj
    unfold Service.postSection
    dsimp only
    split
    · exact h
    · split
      · exact h
      · split
        · exact h
        · rename_i hflag _
          have hne : (if .bind ∈ (e.socks i).state then Ctl.mod else Ctl.add) ≠ .del := by
            split <;> decide
          have hepoll : (if .bind ∈ (e.socks i).state then Ctl.mod else Ctl.add) = .add ∨
              ((e.setSock i (Service.markPosted d (e.socks i))).socks i).epoll ≠ none := by
            rw [Service.setSock_same]
            split
            · rename_i hbind
              exact Or.inr (h.2.epoll_ne hbind)
            · exact Or.inl rfl
          have himpl : (e.setSock i (Service.markPosted d (e.socks i))).implvector ≠ [] := h.1
          obtain ⟨handler, herror, himpl', hsocks⟩ := Service.ctlEpoll_spec i
            (Service.postEvents d (e.socks i)) 0 hos hne himpl hepoll
          rw [if_neg (not_not.mpr herror)]
          refine ⟨himpl', ?_⟩
          rw [hsocks, Function.update_self, Service.setSock_same]
          exact h.2.post d handler
  · exact h.of_frame hj (Service.postSection_frame ..)

theorem readComplete {j : ℕ} {os : Os} (h : SoundAt i e) (hos : os.ctl = true)
    (hbit : .read ∈ (e.socks j).type) (hstep : e.readSection j j os = some e') : SoundAt i e' := by
  by_cases hj : i = j
  · subst hj
    have hbind := h.2.bind_of_read (h.2.read_iff.mp hbit)
    unfold Service.readSection at hstep
    split at hstep
    · rw [if_pos h.2.fd_ne] at hstep
      cases hstep
      simp only [Service.setSock_same, Service.setSock_setSock]
      obtain ⟨handler, -, himpl, hsocks⟩ := Service.ctlEpoll_spec i
        (if .write ∈ (e.socks i).type.erase .read then {.epollout} else ∅) 0 hos
        (show Ctl.mod ≠ .del by decide) (e := e.setSock i { e.socks i with
          state := (e.socks i).state.erase .read, type := (e.socks i).type.erase .read }) h.1
        (Or.inr (by rw [Service.setSock_same]; exact h.2.epoll_ne hbind))
      refine ⟨himpl, ?_⟩
      rw [hsocks, Function.update_self, Service.setSock_same]
      exact h.2.readComplete handler
    · cases hstep
  · exact h.of_frame hj (Service.readSection_frame hstep)

theorem writeComplete {j : ℕ} {os : Os} (h : SoundAt i e) (hos : os.ctl = true)
    (hbit : .write ∈ (e.socks j).type) (hstep : e.writeSection j j os = some e') :
    SoundAt i e' := by
  by_cases hj : i = j
  · subst hj
    have hbind := h.2.bind_of_write (h.2.write_iff.mp hbit)
    unfold Service.writeSection at hstep
    split at hstep
    · simp only [Service.setSock_same, Service.setSock_setSock] at hstep
      rw [if_pos h.2.fd_ne] at hstep
      cases hstep
      obtain ⟨handler, -, himpl, hsocks⟩ := Service.ctlEpoll_spec i
        (if .read ∈ (e.socks i).type.erase .write then {.epollin} else ∅) 0 hos
        (show Ctl.mod ≠ .del by decide) (e := e.setSock i { e.socks i with
          state := (e.socks i).state.erase .write, type := (e.socks i).type.erase .write }) h.1
        (Or.inr (by rw [Service.setSock_same]; exact h.2.epoll_ne hbind))
      refine ⟨himpl, ?_⟩
      rw [hsocks, Function.update_self, Service.setSock_same]
      exact h.2.writeComplete handler
    · cases hstep
  · exact h.of_frame hj (Service.writeSection_frame hstep)

end SoundAt

/-! ## Every interleaving -/

/-- The steps of all threads: a locked section, a write to an operation outside of the
lock, and threads that enter and leave `Run`. -/
inductive Move
  | post (d : Dir) (i : ℕ) (os : Os)
  | readComplete (i : ℕ) (os : Os)
  | writeComplete (i : ℕ) (os : Os)
  | touch (d : Dir) (i : ℕ) (op : RwOperation)
  | threads (implvector : List IoServiceImpl)

/-- Every `SocketError` passed to a post is a new one, `epoll_ctl` succeeds, a completion runs when
`_DoExecOp` finds its bit, and some thread is always running. -/
def system : System Service Move where
  enabled e
    | .post _ _ os => os.ctl = true
    | .readComplete i os => .read ∈ (e.socks i).type ∧ os.ctl = true
    | .writeComplete i os => .write ∈ (e.socks i).type ∧ os.ctl = true
    | .touch _ _ _ => True
    | .threads implvector => implvector ≠ []
  step e
    | .post d i os => some (e.postSection d i os 0).1
    | .readComplete i os => e.readSection i i os
    | .writeComplete i os => e.writeSection i i os
    | .touch d i op => some (e.setOp d i op)
    | .threads implvector => some { e with implvector := implvector }

instance (e : Service) (a : Move) : Decidable (system.enabled e a) :=
  match a with
  | .post _ _ os => inferInstanceAs (Decidable (os.ctl = true))
  | .readComplete i os => inferInstanceAs (Decidable (.read ∈ (e.socks i).type ∧ os.ctl = true))
  | .writeComplete i os => inferInstanceAs (Decidable (.write ∈ (e.socks i).type ∧ os.ctl = true))
  | .touch _ _ _ => isTrue trivial
  | .threads implvector => inferInstanceAs (Decidable (implvector ≠ []))

theorem system_soundAt {i : ℕ} {e e' : Service} {a : Move} (h : SoundAt i e)
    (henabled : system.enabled e a) (hstep : system.step e a = some e') : SoundAt i e' := by
  cases a with
  | post d j os =>
      cases hstep
      exact h.post d j henabled
  | readComplete j os => exact h.readComplete henabled.2 henabled.1 hstep
  | writeComplete j os => exact h.writeComplete henabled.2 henabled.1 hstep
  | touch d j op =>
      cases hstep
      exact h.touch d j op
  | threads implvector =>
      cases hstep
      exact ⟨henabled, h.2⟩

/-- What is posted, what `_type` says and what is waited for agree in every reachable state. -/
theorem agrees_of_run {i : ℕ} {e e' : Service} {moves : List Move} (hthreads : e.implvector ≠ [])
    (hstart : Starts (e.socks i)) (hallowed : system.Allowed System.anyStep e moves)
    (hrun : system.run e moves = some e') : Agrees i (e'.socks i) := by
  have hsound : SoundAt i e' := by
    apply System.invariant_of_run (I := SoundAt i) _ ⟨hthreads, hstart.sound i⟩ hallowed hrun
    intro s a s' h henabled _ hstep
    exact system_soundAt h henabled hstep
  exact hsound.2.toAgrees

/-- An accepted socket and one running thread. -/
def sampleService : Service where
  socks _ := ⟨none, some 5, {.block}, ∅, .clear, .clear, .clear, .clear, none⟩
  implvector := [⟨3, 0⟩]
  implidx := 0

/-- A read and a write are posted, a second read is refused, both complete. -/
def sampleMoves : List Move :=
  [.touch .read 0 ⟨1, 8, true, some 1⟩, .post .read 0 .good, .touch .write 0 ⟨2, 8, true, some 2⟩,
    .post .write 0 .good, .post .read 0 .good, .readComplete 0 .good, .writeComplete 0 .good,
    .post .read 0 .good]

theorem agrees_of_run_sampleMoves :
    ∃ e', system.run sampleService sampleMoves = some e' ∧ Agrees 0 (e'.socks 0) := by
  obtain ⟨e', hrun⟩ : ∃ e', system.run sampleService sampleMoves = some e' := ⟨_, rfl⟩
  refine ⟨e', hrun, agrees_of_run (by decide) ?_ (by decide) hrun⟩
  exact ⟨by decide, by decide, by decide, by decide⟩

end Epoll

end Slience
