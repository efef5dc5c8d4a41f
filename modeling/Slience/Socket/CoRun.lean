import Slience.Lib.Run
import Slience.Socket.Epoll

/-!
# Completions in coroutines

In coroutine mode every event of a round is handled by a coroutine of its own, which
holds a pointer to the record of the event in the array `events`.  A handler that yields
gives control back to the loop, and the next `epoll_wait` fills the same array again,
while the suspended coroutine still has a write completion before it.

A task is one run of `_DoExecOp`.  Its round and the record it was started for are
kept beside it for the statements only; so is the list of all calls of `Complete`.
-/

namespace Slience

namespace Epoll

/-- `epoll_event_t` -/
structure Event where
  ptr : ℕ
  events : Finset EventBit
  deriving DecidableEq

/-- `event->events & (bit | EPOLLERR | EPOLLHUP)`, for a record that may be zeroed. -/
def ready (bit : EventBit) : Option Event → Prop
  | none => False
  | some event => bit ∈ event.events ∨ .epollerr ∈ event.events ∨ .epollhup ∈ event.events

instance (bit : EventBit) (event : Option Event) : Decidable (ready bit event) :=
  match event with
  | none => isFalse id
  | some event => inferInstanceAs (Decidable
      (bit ∈ event.events ∨ .epollerr ∈ event.events ∨ .epollhup ∈ event.events))

/-- Where `_DoExecOp` is: before its first test, in the handler of a read, or in the handler
of its last completion. -/
inductive ExecPhase
  | start
  | reading
  | last
  deriving DecidableEq

structure ExecTask where
  opset : ℕ
  slot : ℕ
  phase : ExecPhase
  reported : Event
  round : ℕ
  deriving DecidableEq

/-- A call of `Complete` for `opset`, the record behind its event pointer at that moment and the
one that was reported. -/
structure CompleteCall where
  opset : ℕ
  event : Event
  reported : Event
  deriving DecidableEq

/-- A thread in `CoRun`.  The array `events` holds the records of the last round, with `idx` of
them dispatched, and is zero behind them. -/
structure CoLoop where
  svc : Service
  events : List Event
  idx : ℕ
  brk : Bool
  running : Option ExecTask
  parked : List ExecTask
  round : ℕ
  calls : List CompleteCall

inductive CoMove
  /-- `epoll_wait` -/
  | wait (events : List Event)
  /-- the next turn of the loop over `events` -/
  | dispatch
  /-- the running coroutine goes on to its next handler or to its end -/
  | exec (os : Os) (r : AcceptResult)
  | yield
  /-- `doThrResume` -/
  | resume (k : ℕ)
  /-- what handlers and other threads do to the sockets -/
  | post (d : Dir) (i buf len handler : ℕ) (os : Os)
  | others (svc : Service)

namespace CoLoop

/-- The record behind the event pointer of a task. -/
def record (s : CoLoop) (t : ExecTask) : Option Event := s.events[t.slot]?

/-- A call of `Complete`, and what the task does behind it: its handler runs, if it is called. -/
def called (s : CoLoop) (t : ExecTask) (event : Event) (svc : Service) (running : Option ExecTask) :
    CoLoop :=
  { s with
    svc := svc
    running := running
    calls := s.calls ++ [⟨t.opset, event, t.reported⟩] }

/-- The end of `_DoExecOp`, from the test for a write on. -/
def execWrite (s : CoLoop) (t : ExecTask) (os : Os) : Option CoLoop :=
  if .write ∈ (s.svc.socks t.opset).type ∧ ready .epollout (s.record t) then do
    let event ← s.record t
    let (svc, notify) ← s.svc.writeComplete t.opset event.ptr os
    return s.called t event svc (if notify then some { t with phase := .last } else none)
  else some { s with running := none }

/-- `_DoExecOp` from its beginning. -/
def execStart (s : CoLoop) (t : ExecTask) (os : Os) (r : AcceptResult) : Option CoLoop :=
  if .accept ∈ (s.svc.socks t.opset).type then do
    let event ← s.record t
    let (svc, _) ← s.svc.acceptComplete t.opset r
    return s.called t event svc (some { t with phase := .last })
  else if .connect ∈ (s.svc.socks t.opset).type then do
    let event ← s.record t
    let (svc, notify) ← s.svc.connectComplete t.opset event.ptr
    return s.called t event svc (if notify then some { t with phase := .last } else none)
  else if .read ∈ (s.svc.socks t.opset).type ∧ ready .epollin (s.record t) then do
    let event ← s.record t
    let (svc, notify) ← s.svc.readComplete t.opset event.ptr os
    let s := s.called t event svc (some { t with phase := .reading })
    if notify then return s else s.execWrite t os
  else s.execWrite t os

def exec (s : CoLoop) (t : ExecTask) (os : Os) (r : AcceptResult) : Option CoLoop :=
  match t.phase with
  | .start => s.execStart t os r
  | .reading => s.execWrite t os
  | .last => some { s with running := none }

/-- One turn of the loop in `_DoRun`. -/
def dispatch (s : CoLoop) : Option CoLoop := do
  let event ← s.events[s.idx]?
  if .finish ∈ (s.svc.socks event.ptr).type then
    return { s with idx := s.idx + 1, brk := true }
  else
    return { s with
      idx := s.idx + 1
      running := some ⟨event.ptr, s.idx, .start, event, s.round⟩ }

/-- No coroutine runs and all events are dispatched. -/
def AtTop (s : CoLoop) : Prop := s.running = none ∧ s.events.length ≤ s.idx ∧ s.brk = false

instance (s : CoLoop) : Decidable s.AtTop := inferInstanceAs (Decidable (_ ∧ _ ∧ _))

/-- The most events one `epoll_wait` gives. -/
def maxEvents : ℕ := 128

def system : System CoLoop CoMove where
  enabled s
    | .wait events => s.AtTop ∧ events.length ≤ maxEvents
    | .dispatch => s.running = none ∧ s.idx < s.events.length
    | .exec _ _ => s.running.isSome
    | .yield => ∃ t ∈ s.running, t.phase ≠ .start
    | .resume k => s.AtTop ∧ k < s.parked.length
    | .post _ _ _ _ _ _ => True
    | .others _ => True
  step s
    | .wait events => some { s with events := events, idx := 0, round := s.round + 1 }
    | .dispatch => s.dispatch
    | .exec os r => s.running.bind fun t ↦ s.exec t os r
    | .yield => some { s with running := none, parked := s.parked ++ s.running.toList }
    | .resume k => some { s with running := s.parked[k]?, parked := s.parked.eraseIdx k }
    | .post d i buf len handler os =>
        some { s with svc := (s.svc.asyncSome d i buf len handler os 0).1 }
    | .others svc => some { s with svc := svc }

instance (s : CoLoop) (a : CoMove) : Decidable (system.enabled s a) :=
  match a with
  | .wait events => inferInstanceAs (Decidable (s.AtTop ∧ events.length ≤ maxEvents))
  | .dispatch => inferInstanceAs (Decidable (s.running = none ∧ s.idx < s.events.length))
  | .exec _ _ => inferInstanceAs (Decidable (s.running.isSome = true))
  | .yield => inferInstanceAs (Decidable (∃ t ∈ s.running, t.phase ≠ .start))
  | .resume k => inferInstanceAs (Decidable (s.AtTop ∧ k < s.parked.length))
  | .post _ _ _ _ _ _ => isTrue trivial
  | .others _ => isTrue trivial

/-- Every `Complete` was called with the record that was reported for its socket. -/
def OwnEvents (s : CoLoop) : Prop :=
  ∀ c ∈ s.calls, c.event.ptr = c.opset ∧ c.event = c.reported

/-- A read handler returns to `_DoExecOp` in the round it was called in, or finds no write
posted. -/
def InRound (s : CoLoop) : CoMove → Prop
  | .exec _ _ => ∀ t ∈ s.running, t.phase = .reading →
      t.round = s.round ∨ .write ∉ (s.svc.socks t.opset).type
  | _ => True

instance (s : CoLoop) (a : CoMove) : Decidable (s.InRound a) :=
  match a with
  | .exec _ _ => inferInstanceAs (Decidable (∀ t ∈ s.running, t.phase = .reading →
      t.round = s.round ∨ .write ∉ (s.svc.socks t.opset).type))
  | .wait _ => isTrue trivial
  | .dispatch => isTrue trivial
  | .yield => isTrue trivial
  | .resume _ => isTrue trivial
  | .post _ _ _ _ _ _ => isTrue trivial
  | .others _ => isTrue trivial

/-! ## What a step keeps -/

/-- In its own round a task finds the record it was started for. -/
structure TaskOk (s : CoLoop) (t : ExecTask) : Prop where
  ptr_eq : t.reported.ptr = t.opset
  round_le : t.round ≤ s.round
  record_eq : t.round = s.round → s.record t = some t.reported

structure Kept (s : CoLoop) : Prop where
  own : s.OwnEvents
  running : ∀ t ∈ s.running, s.TaskOk t ∧ (t.phase = .start → t.round = s.round)
  parked : ∀ t ∈ s.parked, s.TaskOk t ∧ t.phase ≠ .start

variable {s s' : CoLoop} {t : ExecTask}

theorem TaskOk.of_eq {t' : ExecTask} (h : s.TaskOk t) (hevents : s'.events = s.events)
    (hround : s'.round = s.round) (hopset : t'.opset = t.opset) (hslot : t'.slot = t.slot)
    (hreported : t'.reported = t.reported) (hround' : t'.round = t.round) : s'.TaskOk t' := by
  constructor
  · rw [hreported, hopset]
    exact h.ptr_eq
  · rw [hround', hround]
    exact h.round_le
  · intro heq
    rw [record, hevents, hslot, hreported]
    exact h.record_eq (by rw [← hround', heq, hround])

theorem OwnEvents.called {event : Event} {svc : Service} {running : Option ExecTask}
    (h : s.OwnEvents) (ht : s.TaskOk t) (hround : t.round = s.round)
    (hevent : s.record t = some event) : (s.called t event svc running).OwnEvents := by
  have hreported : event = t.reported := by
    rw [ht.record_eq hround] at hevent
    cases hevent
    rfl
  intro c hc
  rw [CoLoop.called, List.mem_append, List.mem_singleton] at hc
  rcases hc with hc | rfl
  · exact h c hc
  · refine ⟨?_, hreported⟩
    rw [hreported]
    exact ht.ptr_eq

theorem Kept.called {event : Event} {svc : Service} {phase : ExecPhase} (notify : Bool)
    (h : s.OwnEvents) (hparked : ∀ t ∈ s.parked, s.TaskOk t ∧ t.phase ≠ .start) (ht : s.TaskOk t)
    (hround : t.round = s.round) (hphase : phase ≠ .start) (hevent : s.record t = some event) :
    (s.called t event svc (if notify then some { t with phase := phase } else none)).Kept := by
  refine ⟨h.called ht hround hevent, ?_, ?_⟩
  · intro t' ht'
    cases notify with
    | false => cases ht'
    | true =>
        cases ht'
        exact ⟨ht.of_eq rfl rfl rfl rfl rfl rfl, fun heq ↦ absurd heq hphase⟩
  · intro t' ht'
    obtain ⟨hok, hne⟩ := hparked t' ht'
    exact ⟨hok.of_eq rfl rfl rfl rfl rfl rfl, hne⟩

theorem execWrite_kept {os : Os} (h : s.OwnEvents)
    (hparked : ∀ t ∈ s.parked, s.TaskOk t ∧ t.phase ≠ .start) (ht : s.TaskOk t)
    (hround : t.round = s.round ∨ .write ∉ (s.svc.socks t.opset).type)
    (hstep : s.execWrite t os = some s') : s'.Kept := by
  unfold execWrite at hstep
  split at hstep
  · rename_i hwrite
    have hround := hround.resolve_right (not_not.mpr hwrite.1)
    obtain ⟨event, hevent, hstep⟩ := Option.bind_eq_some_iff.mp hstep
    obtain ⟨⟨svc, notify⟩, -, hstep⟩ := Option.bind_eq_some_iff.mp hstep
    cases hstep
    exact Kept.called notify h hparked ht hround (by decide) hevent
  · cases hstep
    refine ⟨h, by simp, ?_⟩
    intro t' ht'
    obtain ⟨hok, hne⟩ := hparked t' ht'
    exact ⟨hok.of_eq rfl rfl rfl rfl rfl rfl, hne⟩

theorem execStart_kept {os : Os} {r : AcceptResult} (h : s.OwnEvents)
    (hparked : ∀ t ∈ s.parked, s.TaskOk t ∧ t.phase ≠ .start) (ht : s.TaskOk t)
    (hround : t.round = s.round) (hstep : s.execStart t os r = some s') : s'.Kept := by
  unfold execStart at hstep
  split at hstep
  · obtain ⟨event, hevent, hstep⟩ := Option.bind_eq_some_iff.mp hstep
    obtain ⟨⟨svc, handler⟩, -, hstep⟩ := Option.bind_eq_some_iff.mp hstep
    cases hstep
    exact Kept.called true h hparked ht hround (by decide) hevent
  · split at hstep
    · obtain ⟨event, hevent, hstep⟩ := Option.bind_eq_some_iff.mp hstep
      obtain ⟨⟨svc, notify⟩, -, hstep⟩ := Option.bind_eq_some_iff.mp hstep
      cases hstep
      exact Kept.called notify h hparked ht hround (by decide) hevent
    · split at hstep
      · obtain ⟨event, hevent, hstep⟩ := Option.bind_eq_some_iff.mp hstep
        obtain ⟨⟨svc, notify⟩, -, hstep⟩ := Option.bind_eq_some_iff.mp hstep
        dsimp only at hstep
        have hkept : (s.called t event svc (some { t with phase := .reading })).Kept :=
          Kept.called true h hparked ht hround (by decide) hevent
        cases notify with
        | false =>
            exact execWrite_kept hkept.own hkept.parked (ht.of_eq rfl rfl rfl rfl rfl rfl)
              (Or.inl hround) hstep
        | true =>
            cases hstep
            exact hkept
      · exact execWrite_kept h hparked ht (Or.inl hround) hstep

theorem Kept.exec {os : Os} {r : AcceptResult} (h : s.Kept) (ht : t ∈ s.running)
    (hround : t.phase = .reading → t.round = s.round ∨ .write ∉ (s.svc.socks t.opset).type)
    (hstep : s.exec t os r = some s') : s'.Kept := by
  obtain ⟨hok, hstart⟩ := h.running t ht
  unfold CoLoop.exec at hstep
  split at hstep
  · rename_i hphase
    exact execStart_kept h.own h.parked hok (hstart hphase) hstep
  · rename_i hphase
    exact execWrite_kept h.own h.parked hok (hround hphase) hstep
  · cases hstep
    refine ⟨h.own, by simp, ?_⟩
    intro t' ht'
    obtain ⟨hok', hne⟩ := h.parked t' ht'
    exact ⟨hok'.of_eq rfl rfl rfl rfl rfl rfl, hne⟩

theorem Kept.wait (h : s.Kept) (htop : s.AtTop) (events : List Event) :
    Kept { s with events := events, idx := 0, round := s.round + 1 } := by
  refine ⟨h.own, ?_, ?_⟩
  · intro t ht
    rw [htop.1] at ht
    cases ht
  · intro t ht
    obtain ⟨hok, hne⟩ := h.parked t ht
    have hle := hok.round_le
    refine ⟨⟨hok.ptr_eq, Nat.le_succ_of_le hle, ?_⟩, hne⟩
    intro heq
    dsimp only at heq
    omega

theorem Kept.dispatch (h : s.Kept) (hrunning : s.running = none) (hstep : s.dispatch = some s') :
    s'.Kept := by
  unfold CoLoop.dispatch at hstep
  obtain ⟨event, hevent, hstep⟩ := Option.bind_eq_some_iff.mp hstep
  have hparked : ∀ (idx : ℕ) (brk : Bool) (running : Option ExecTask), ∀ t ∈ s.parked,
      TaskOk { s with idx := idx, brk := brk, running := running } t ∧ t.phase ≠ .start := by
    intro idx brk running t ht
    obtain ⟨hok, hne⟩ := h.parked t ht
    exact ⟨hok.of_eq rfl rfl rfl rfl rfl rfl, hne⟩
  split at hstep
  · cases hstep
    refine ⟨h.own, ?_, hparked _ _ _⟩
    intro t ht
    rw [hrunning] at ht
    cases ht
  · cases hstep
    refine ⟨h.own, ?_, hparked _ _ _⟩
    intro t ht
    cases ht
    exact ⟨⟨rfl, le_rfl, fun _ ↦ hevent⟩, fun _ ↦ rfl⟩

theorem Kept.yield (h : s.Kept) (hyield : ∃ t ∈ s.running, t.phase ≠ .start) :
    Kept { s with running := none, parked := s.parked ++ s.running.toList } := by
  obtain ⟨t, ht, hphase⟩ := hyield
  refine ⟨h.own, by simp, ?_⟩
  intro t' ht'
  rw [List.mem_append, Option.mem_toList] at ht'
  rcases ht' with ht' | ht'
  · obtain ⟨hok, hne⟩ := h.parked t' ht'
    exact ⟨hok.of_eq rfl rfl rfl rfl rfl rfl, hne⟩
  · cases Option.mem_unique ht ht'
    exact ⟨(h.running t ht).1.of_eq rfl rfl rfl rfl rfl rfl, hphase⟩

theorem Kept.resume (h : s.Kept) (k : ℕ) :
    Kept { s with running := s.parked[k]?, parked := s.parked.eraseIdx k } := by
  refine ⟨h.own, ?_, ?_⟩
  · intro t ht
    obtain ⟨hok, hne⟩ := h.parked t (List.mem_of_getElem? ht)
    exact ⟨hok.of_eq rfl rfl rfl rfl rfl rfl, fun heq ↦ absurd heq hne⟩
  · intro t ht
    obtain ⟨hok, hne⟩ := h.parked t (List.mem_of_mem_eraseIdx ht)
    exact ⟨hok.of_eq rfl rfl rfl rfl rfl rfl, hne⟩

theorem Kept.others (h : s.Kept) (svc : Service) : Kept { s with svc := svc } := by
  refine ⟨h.own, ?_, ?_⟩
  · intro t ht
    obtain ⟨hok, hstart⟩ := h.running t ht
    exact ⟨hok.of_eq rfl rfl rfl rfl rfl rfl, hstart⟩
  · intro t ht
    obtain ⟨hok, hne⟩ := h.parked t ht
    exact ⟨hok.of_eq rfl rfl rfl rfl rfl rfl, hne⟩

theorem Kept.step {a : CoMove} (h : s.Kept) (henabled : system.enabled s a) (hcond : s.InRound a)
    (hstep : system.step s a = some s') : s'.Kept := by
  cases a with
  | wait events =>
      cases hstep
      exact h.wait henabled.1 events
  | dispatch => exact h.dispatch henabled.1 hstep
  | exec os r =>
      obtain ⟨t, ht, hstep⟩ := Option.bind_eq_some_iff.mp hstep
      exact h.exec ht (hcond t ht) hstep
  | yield =>
      cases hstep
      exact h.yield henabled
  | resume k =>
      cases hstep
      exact h.resume k
  | post d i buf len handler os =>
      cases hstep
      exact h.others _
  | others svc =>
      cases hstep
      exact h.others svc

/-- A thread that enters `CoRun`. -/
def initial (svc : Service) : CoLoop := ⟨svc, [], 0, false, none, [], 0, []⟩

/-- In a run whose read handlers return in their round or find no write posted, every
completion gets its own event. -/
theorem ownEvents_of_inRound {svc : Service} {moves : List CoMove}
    (hallowed : system.Allowed InRound (initial svc) moves)
    (hrun : system.run (initial svc) moves = some s') : s'.OwnEvents := by
  have hstart : (initial svc).Kept := by
    constructor
    · intro c hc
      cases hc
    · intro t ht
      cases ht
    · intro t ht
      cases ht
  have hkept : s'.Kept := by
    apply System.invariant_of_run (I := Kept) _ hstart hallowed hrun
    intro s a s' h henabled hcond hstep
    exact h.step henabled hcond hstep
  exact hkept.own

/-- Accepted sockets and one thread. -/
def sampleService : Service where
  socks i := ⟨none, some (i + 5), {.block}, ∅, .clear, .clear, .clear, .clear, none⟩
  implvector := [⟨3, 0⟩]
  implidx := 0

/-- A read and a write of one socket in one round, with a yield between them. -/
def sampleMoves : List CoMove :=
  [.post .read 0 1 8 1 .good, .post .write 0 2 8 2 .good, .wait [⟨0, {.epollin, .epollout}⟩],
    .dispatch, .exec .good ⟨none, none⟩, .yield, .resume 0, .exec .good ⟨none, none⟩,
    .exec .good ⟨none, none⟩]

theorem ownEvents_of_inRound_sampleMoves :
    ∃ s', system.run (initial sampleService) sampleMoves = some s' ∧ s'.OwnEvents := by
  obtain ⟨s', hrun⟩ : ∃ s', system.run (initial sampleService) sampleMoves = some s' := ⟨_, rfl⟩
  exact ⟨s', hrun, ownEvents_of_inRound (by decide) hrun⟩

/-- The handler of a read of socket `0` yields, socket `1` gets the slot in the next round,
and the handler returns then. -/
def mixedMoves : List CoMove :=
  [.post .read 0 1 8 1 .good, .post .write 0 2 8 2 .good, .post .write 1 3 8 3 .good,
    .wait [⟨0, {.epollin}⟩], .dispatch, .exec .good ⟨none, none⟩, .yield,
    .wait [⟨1, {.epollout}⟩], .dispatch, .exec .good ⟨none, none⟩, .post .write 1 3 8 3 .good,
    .exec .good ⟨none, none⟩, .resume 0, .exec .good ⟨none, none⟩]

/-- The write of socket `0` completes with the event of socket `1`, whose own write stays
posted without its bit. -/
theorem ownEvents_fails : system.Allowed System.anyStep (initial sampleService) mixedMoves ∧
    ∃ s', system.run (initial sampleService) mixedMoves = some s' ∧
      ⟨0, ⟨1, {.epollout}⟩, ⟨0, {.epollin}⟩⟩ ∈ s'.calls ∧ ¬ s'.OwnEvents ∧
      .write ∈ (s'.svc.socks 1).state ∧ .write ∉ (s'.svc.socks 1).type := by
  refine ⟨by decide, _, rfl, by decide, ?_, by decide, by decide⟩
  intro hown
  have hcall := hown ⟨0, ⟨1, {.epollout}⟩, ⟨0, {.epollin}⟩⟩ (by decide)
  exact absurd hcall.1 (by decide)

end CoLoop

end Epoll

end Slience
