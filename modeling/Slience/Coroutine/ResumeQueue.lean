import Slience.Base.CircularQueue
import Slience.Coroutine.ThrResume

/-!
# The queue of wake-ups of a thread

`addResume(id)` and `doResume()` of `CoroutineTask` (`coroutine.hpp`) on the `gresumetaskque` of
the thread, a circular queue with room for 1024 ids.  `addResume` does not look at the result of
`push_back`: an id for which there is no room is dropped.

A step of the system records the ids in the order in which they were given to `addResume`.  What
the thread does with its coroutines is a log: the calls of its own, and the ids that `doResume`
passes to `Coroutine::resume`.
-/

namespace Slience

namespace Coroutine

structure ResumeQueue (F D : Type) where
  idqueue : CircularQueue CircularQueue.defaultCapacity ℤ
  thread : Thread F D
  added : List ℤ
  events : List (CoEvent F D)

inductive ResumeMove (F D : Type) where
  | addResume (id : ℤ)
  | doResume
  | co (c : CoCall F D)
  deriving DecidableEq

variable {F D : Type}

def ResumeMove.addedId : ResumeMove F D → Option ℤ
  | addResume id => some id
  | doResume | co _ => none

def ResumeMove.ownCall : ResumeMove F D → Option (CoCall F D)
  | co c => some c
  | addResume _ | doResume => none

namespace ResumeQueue

def initial : ResumeQueue F D := ⟨CircularQueue.initial, Thread.initial, [], []⟩

def addResume (s : ResumeQueue F D) (id : ℤ) : ResumeQueue F D :=
  { s with idqueue := (s.idqueue.pushBack id).2 }

/-- `doResume` up to the switch; its result is `true` when the coroutine has switched back. -/
def doResume (s : ResumeQueue F D) : Option (ResumeQueue F D × Bool) := do
  if (← s.thread.sched.curid) = invalidCoroutineId then
    if !s.idqueue.empty then do
      -- `M_INVALID_COROUTINE_ID` as an `int`
      let (_, id, idqueue) ← s.idqueue.popFront (-1)
      let thread ← s.thread.step (.resume id)
      some ({ s with
        idqueue := idqueue, thread := thread, events := s.events ++ [.resumed id] }, true)
    else some (s, false)
  else some (s, false)

def step (s : ResumeQueue F D) : ResumeMove F D → Option (ResumeQueue F D)
  | .addResume id => some { s.addResume id with added := s.added ++ [id] }
  | .doResume => s.doResume.map Prod.fst
  | .co c => do
      let thread ← s.thread.step c
      some { s with thread := thread, events := s.events ++ [.called c] }

def CanMove (s : ResumeQueue F D) : ResumeMove F D → Prop
  | .addResume _ | .doResume => True
  | .co c => s.thread.CanCall c

instance (s : ResumeQueue F D) (m : ResumeMove F D) : Decidable (s.CanMove m) :=
  match m with
  | .addResume _ | .doResume => isTrue trivial
  | .co c => inferInstanceAs (Decidable (s.thread.CanCall c))

def system (F D : Type) : System (ResumeQueue F D) (ResumeMove F D) where
  enabled := CanMove
  step := step

instance (s : ResumeQueue F D) (m : ResumeMove F D) : Decidable ((system F D).enabled s m) :=
  inferInstanceAs (Decidable (s.CanMove m))

/-- The ids that `doResume` has passed to `resume`. -/
def resumed (s : ResumeQueue F D) : List ℤ := s.events.filterMap CoEvent.resumedId

/-- The ids passed to `resume` and those in the queue are the ids added, in this order. -/
def Kept (s : ResumeQueue F D) : Prop :=
  s.resumed.map some ++ s.idqueue.contents = s.added.map some

def ownCalls (s : ResumeQueue F D) : List (CoCall F D) := s.events.filterMap CoEvent.ownCall

/-- After these moves every id that was given to `addResume` is in the queue or was passed to
`resume`, in this order, and the coroutines of the thread are as these calls of `resume` and its
own calls, and no others, leave them. -/
structure InOrder (ms : List (ResumeMove F D)) (s : ResumeQueue F D) : Prop where
  kept : s.resumed.map some ++ s.idqueue.contents = (ms.filterMap ResumeMove.addedId).map some
  replayed : CoEvent.replay s.events = some s.thread
  own : s.ownCalls = ms.filterMap ResumeMove.ownCall

/-- An `addResume` finds room in the queue. -/
def HasRoom (s : ResumeQueue F D) : ResumeMove F D → Prop
  | .addResume _ => s.idqueue.full = false
  | .doResume | .co _ => True

instance (s : ResumeQueue F D) (m : ResumeMove F D) : Decidable (s.HasRoom m) :=
  match m with
  | .addResume _ => inferInstanceAs (Decidable (s.idqueue.full = false))
  | .doResume | .co _ => isTrue trivial

variable {s s' : ResumeQueue F D}

theorem kept_initial : (initial : ResumeQueue F D).Kept := by
  have hcontents : (initial : ResumeQueue F D).idqueue.contents = [] :=
    CircularQueue.contents_initial
  rw [Kept, hcontents]
  rfl

/-! ## The moves -/

theorem Kept.addResume (h : s.Kept) (hroom : s.idqueue.full = false) (id : ℤ) :
    Kept { s.addResume id with added := s.added ++ [id] } := by
  unfold Kept at h ⊢
  change s.resumed.map some ++ (s.idqueue.pushBack id).2.contents = (s.added ++ [id]).map some
  rw [CircularQueue.contents_pushBack hroom, ← List.append_assoc, h, List.map_append]
  rfl

/-- An id that finds no room is in no place any more. -/
theorem Kept.not_kept_of_full (h : s.Kept) (hfull : s.idqueue.full = true) (id : ℤ) :
    ¬ Kept { s.addResume id with added := s.added ++ [id] } := by
  intro hkept
  unfold Kept at h hkept
  change s.resumed.map some ++ (s.idqueue.pushBack id).2.contents =
    (s.added ++ [id]).map some at hkept
  rw [CircularQueue.pushBack_full hfull, h, List.map_append] at hkept
  simpa using congrArg List.length hkept

/-- What `doResume` does in a thread whose tables are sound. -/
theorem doResume_cases (h : s.Kept) (hsound : s.thread.Sound) :
    (∃ id ids thread, s.idqueue.contents = some id :: ids ∧ thread.Sound ∧
      ∃ idqueue, idqueue.contents = ids ∧ s.doResume = some ({ s with
        idqueue := idqueue, thread := thread, events := s.events ++ [.resumed id] }, true)) ∨
      s.doResume = some (s, false) := by
  obtain ⟨cur, hcur, -⟩ := Schedule.Sound.curid_eq hsound
  by_cases hcheck : cur = invalidCoroutineId
  · cases hcontents : s.idqueue.contents with
    | nil =>
        right
        have hempty : s.idqueue.empty = true := CircularQueue.empty_iff.mpr hcontents
        rw [doResume, hcur, Option.bind_eq_bind, Option.bind_some, if_pos hcheck, hempty]
        rfl
    | cons x ids =>
        left
        have hne : s.idqueue.empty = false := by
          rw [Bool.eq_false_iff, ne_eq, CircularQueue.empty_iff, hcontents]
          exact List.cons_ne_nil x ids
        have hx : x ∈ s.added.map some := by
          rw [← h, hcontents]
          exact List.mem_append_right _ List.mem_cons_self
        obtain ⟨id, -, rfl⟩ := List.mem_map.mp hx
        obtain ⟨idqueue, hpop, hrest⟩ := CircularQueue.popFront_cons hcontents (-1)
        obtain ⟨thread, hthread, hsound'⟩ := hsound.resume_step id
        refine ⟨id, ids, thread, rfl, hsound', idqueue, hrest, ?_⟩
        rw [doResume, hcur, Option.bind_eq_bind, Option.bind_some, if_pos hcheck, hne, hpop]
        change (s.thread.step (.resume id)).bind _ = _
        rw [hthread]
        rfl
  · right
    rw [doResume, hcur, Option.bind_eq_bind, Option.bind_some, if_neg hcheck]

theorem Kept.doResume (h : s.Kept) (hsound : s.thread.Sound)
    (hstep : s.step .doResume = some s') : s'.Kept ∧ s'.thread.Sound := by
  change s.doResume.map Prod.fst = some s' at hstep
  rcases doResume_cases h hsound with
    ⟨id, ids, thread, hcontents, hsound', idqueue, hrest, hresume⟩ | hresume
  · rw [hresume] at hstep
    cases hstep
    refine ⟨?_, hsound'⟩
    unfold Kept resumed at h ⊢
    dsimp only
    rw [hcontents] at h
    rw [hrest, List.filterMap_append, List.map_append, List.append_assoc]
    exact h
  · rw [hresume] at hstep
    cases hstep
    exact ⟨h, hsound⟩

theorem Kept.co (h : s.Kept) (hsound : s.thread.Sound) {c : CoCall F D}
    (hcan : s.thread.CanCall c) (hstep : s.step (.co c) = some s') :
    s'.Kept ∧ s'.thread.Sound := by
  change (s.thread.step c).bind _ = some s' at hstep
  obtain ⟨thread, hthread, hs'⟩ := Option.bind_eq_some_iff.mp hstep
  cases hs'
  rcases hsound.step_cases hcan with ⟨t, ht, hsound'⟩ | ⟨hnone, -⟩
  · rw [hthread] at ht
    cases ht
    refine ⟨?_, hsound'⟩
    have hsame : (s.events ++ [CoEvent.called c]).filterMap CoEvent.resumedId =
        s.events.filterMap CoEvent.resumedId := by
      rw [List.filterMap_append]
      exact List.append_nil _
    unfold Kept resumed at h ⊢
    dsimp only
    rw [hsame]
    exact h
  · rw [hthread] at hnone
    cases hnone

/-! ## Runs -/

theorem sound_of_step (h : s.Kept) (hsound : s.thread.Sound) {m : ResumeMove F D}
    (hcan : s.CanMove m) (hstep : s.step m = some s') : s'.thread.Sound := by
  cases m with
  | addResume id =>
      cases hstep
      exact hsound
  | doResume => exact (h.doResume hsound hstep).2
  | co c => exact (h.co hsound hcan hstep).2

theorem kept_step_iff (h : s.Kept) (hsound : s.thread.Sound) {m : ResumeMove F D}
    (hcan : s.CanMove m) : (∀ s', s.step m = some s' → s'.Kept) ↔ s.HasRoom m := by
  cases m with
  | addResume id =>
      constructor
      · intro hkept
        by_contra hfull
        exact h.not_kept_of_full (Bool.of_not_eq_false hfull) id (hkept _ rfl)
      · rintro hroom s' hstep
        cases hstep
        exact h.addResume hroom id
  | doResume => exact iff_of_true (fun s' hstep ↦ (h.doResume hsound hstep).1) trivial
  | co c => exact iff_of_true (fun s' hstep ↦ (h.co hsound hcan hstep).1) trivial

/-- What `doResume` leaves on record. -/
theorem records_doResume (h : s.step .doResume = some s') :
    s'.added = s.added ∧ s'.ownCalls = s.ownCalls ∧
      (CoEvent.replay s.events = some s.thread → CoEvent.replay s'.events = some s'.thread) := by
  obtain ⟨r, hresume, rfl⟩ := Option.map_eq_some_iff.mp h
  obtain ⟨cur, -, hresume⟩ := Option.bind_eq_some_iff.mp hresume
  split at hresume
  · split at hresume
    · obtain ⟨⟨_, id, idqueue⟩, -, hresume⟩ := Option.bind_eq_some_iff.mp hresume
      dsimp only at hresume
      obtain ⟨thread, hthread, hresume⟩ := Option.bind_eq_some_iff.mp hresume
      cases hresume
      refine ⟨rfl, ?_, fun hreplay ↦ ?_⟩
      · simp [ownCalls, CoEvent.ownCall]
      · exact CoEvent.replay_append (e := .resumed id) hreplay hthread
    · cases hresume
      exact ⟨rfl, rfl, id⟩
  · cases hresume
    exact ⟨rfl, rfl, id⟩

theorem added_of_step {m : ResumeMove F D} (h : s.step m = some s') :
    s'.added = s.added ++ m.addedId.toList := by
  cases m with
  | addResume id =>
      cases h
      rfl
  | doResume =>
      rw [(records_doResume h).1]
      exact (List.append_nil _).symm
  | co c =>
      obtain ⟨thread, -, h⟩ := Option.bind_eq_some_iff.mp h
      cases h
      exact (List.append_nil _).symm

theorem ownCalls_of_step {m : ResumeMove F D} (h : s.step m = some s') :
    s'.ownCalls = s.ownCalls ++ m.ownCall.toList := by
  cases m with
  | addResume id =>
      cases h
      exact (List.append_nil _).symm
  | doResume =>
      rw [(records_doResume h).2.1]
      exact (List.append_nil _).symm
  | co c =>
      obtain ⟨thread, -, h⟩ := Option.bind_eq_some_iff.mp h
      cases h
      exact List.filterMap_append

theorem replayed_of_step {m : ResumeMove F D} (h : s.step m = some s')
    (hreplay : CoEvent.replay s.events = some s.thread) :
    CoEvent.replay s'.events = some s'.thread := by
  cases m with
  | addResume id =>
      cases h
      exact hreplay
  | doResume => exact (records_doResume h).2.2 hreplay
  | co c =>
      obtain ⟨thread, hthread, h⟩ := Option.bind_eq_some_iff.mp h
      cases h
      exact CoEvent.replay_append (e := .called c) hreplay hthread

/-- Of what is claimed of the states of a run only that no id is dropped depends on the run. -/
theorem inOrder_iff {ms : List (ResumeMove F D)}
    (hallowed : (system F D).Allowed System.anyStep initial ms)
    (hrun : (system F D).run initial ms = some s) : s.InOrder ms ↔ s.Kept := by
  have hadded := System.record_of_run (fun (s : ResumeQueue F D) m s'
    (hstep : (system F D).step s m = some s') ↦ added_of_step hstep) hrun
  have hown := System.record_of_run (fun (s : ResumeQueue F D) m s'
    (hstep : (system F D).step s m = some s') ↦ ownCalls_of_step hstep) hrun
  have hreplay := System.invariant_of_run (fun (s : ResumeQueue F D) m s' hreplay _ _
    (hstep : (system F D).step s m = some s') ↦ replayed_of_step hstep hreplay) rfl hallowed hrun
  rw [show (initial : ResumeQueue F D).added = [] from rfl, List.nil_append] at hadded
  rw [Kept, hadded]
  exact ⟨InOrder.kept, fun hkept ↦ ⟨hkept, hreplay, hown⟩⟩

/-- No id is dropped and all are resumed in the order of the calls, in every state of a run,
exactly if every `addResume` finds fewer than 1024 ids in the queue. -/
theorem kept_iff {moves : List (ResumeMove F D)}
    (hmoves : (system F D).Allowed System.anyStep initial moves) :
    (∀ ms, ms <+: moves → ∀ s', (system F D).run initial ms = some s' → s'.InOrder ms) ↔
      (system F D).Allowed HasRoom initial moves := by
  have hkept : (∀ ms, ms <+: moves → ∀ s', (system F D).run initial ms = some s' → s'.Kept) ↔
      (system F D).Allowed HasRoom initial moves := by
    refine System.reached_iff_allowed (I := fun s ↦ s.thread.Sound) ?_ ?_ Schedule.Sound.initial
      kept_initial hmoves
    · intro s m s' hsound hkept hcan hstep _
      exact sound_of_step hkept hsound hcan hstep
    · intro s m hsound hkept hcan
      exact kept_step_iff hkept hsound hcan
  rw [← hkept]
  refine forall_congr' fun ms ↦ forall_congr' fun hms ↦ forall₂_congr fun s' hrun ↦ ?_
  obtain ⟨rest, rfl⟩ := hms
  exact inOrder_iff (hmoves.append hrun).1 hrun

/-- Two ids are added, also by the coroutine that the first one has woken. -/
def wakeMoves : List (ResumeMove ℕ ℕ) :=
  [.co .initEnv, .co (.create 1 2), .addResume 0, .addResume 7, .doResume, .addResume 0,
    .doResume, .co .yield, .doResume, .doResume, .co .finish, .doResume]

theorem kept_iff_wakeMoves :
    (∀ ms, ms <+: wakeMoves → ∀ s', (system ℕ ℕ).run initial ms = some s' → s'.InOrder ms) ∧
      (system ℕ ℕ).Allowed HasRoom initial wakeMoves :=
  ⟨(kept_iff (by decide +kernel)).mpr (by decide +kernel), by decide +kernel⟩

theorem run_adds (s : ResumeQueue F D) (id : ℤ) (n : ℕ) :
    (system F D).Allowed System.anyStep s (List.replicate n (.addResume id)) ∧
      ∃ s', (system F D).run s (List.replicate n (.addResume id)) = some s' ∧
        s'.resumed = s.resumed := by
  induction n generalizing s with
  | zero => exact ⟨trivial, s, rfl, rfl⟩
  | succ n ih =>
      obtain ⟨hallowed, s', hrun, hresumed⟩ := ih { s.addResume id with added := s.added ++ [id] }
      rw [List.replicate_succ]
      refine ⟨⟨trivial, trivial, ?_⟩, s', hrun, hresumed⟩
      rintro _ ⟨⟩
      exact hallowed

/-- One id more than the queue has room for. -/
def floodMoves : List (ResumeMove ℕ ℕ) := List.replicate 1025 (.addResume 0)

theorem dropped_in_floodMoves :
    (system ℕ ℕ).Allowed System.anyStep initial floodMoves ∧
      ¬ ∀ ms, ms <+: floodMoves → ∀ s', (system ℕ ℕ).run initial ms = some s' →
        s'.InOrder ms := by
  obtain ⟨hallowed, s, hrun, hresumed⟩ := run_adds (initial : ResumeQueue ℕ ℕ) 0 1025
  refine ⟨hallowed, ?_⟩
  intro hkept
  have hlen := congrArg List.length (hkept _ List.prefix_rfl s hrun).kept
  have hle : s.idqueue.size ≤ 1024 := s.idqueue.size_le
  have hnil : (initial : ResumeQueue ℕ ℕ).resumed = [] := rfl
  have hadded : (floodMoves.filterMap ResumeMove.addedId).length = 1025 := by
    rw [floodMoves, List.filterMap_replicate]
    exact List.length_replicate
  rw [hnil] at hresumed
  rw [List.length_append, List.length_map, List.length_map, CircularQueue.length_contents, hresumed,
    hadded] at hlen
  simp only [List.length_nil] at hlen
  omega

end ResumeQueue

end Coroutine

end Slience
