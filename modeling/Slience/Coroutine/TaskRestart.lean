import Slience.Coroutine.TaskRuns

/-!
# A thread is restarted

`CoroutineTask::clrTask` with `Coroutine::close` and `Coroutine::initEnv`, which come between two
run loops on one thread.  `clrTask` frees the tasks and the wrappers and destroys the coroutines
of the wrappers; the vector `gfreecovec` is not touched.  A coroutine that is destroyed loses its
place in its function.  The queues of ids that `clrTask` empties too are left out here.
-/

namespace Slience

namespace Coroutine

variable {G P : Type}

namespace CoroutineTask

/-- `free` of every task in `gfreetaskvec`, from its end. -/
def freeTasks : List ℕ → Heap (CoTask G P) → Option (Heap (CoTask G P))
  | [], h => some h
  | t :: ts, h => (h.free t).bind fun h' ↦ freeTasks ts h'

/-- The loop over `gworktasklist`; the list has `n` elements. -/
def clearWork : ℕ → CoroutineTask G P → Option (CoroutineTask G P)
  | 0, s => some s
  | n + 1, s => do
      let task ← (s.lists .work).front s.nodes
      let tasks ← s.tasks.free task
      let (list, nodes) ← (s.lists .work).popFront s.nodes
      clearWork n { s with
        tasks := tasks, lists := Function.update s.lists .work list, nodes := nodes }

/-- The places of the coroutines without the one of this id. -/
def pointsWithout (s : CoroutineTask G P) (coId : ℤ) : ℕ → CoPoint :=
  match (s.sched.slot coId).join with
  | some co => Function.update s.points co .entry
  | none => s.points

/-- `Coroutine::destroy`, called by the scheduler. -/
def destroy (s : CoroutineTask G P) (coId : ℤ) : Option (CoroutineTask G P) := do
  let sched ← s.sched.destroy coId
  some { s with sched := sched, points := s.pointsWithout coId }

/-- The loop over `gallcolist`; the list has `n` elements. -/
def clearCo : ℕ → CoroutineTask G P → Option (CoroutineTask G P)
  | 0, s => some s
  | n + 1, s => do
      let wrapper ← (s.lists .all).front s.nodes
      let w ← s.wrappers.read wrapper
      let s ← s.destroy w.coId
      let wrappers ← s.wrappers.free wrapper
      let (list, nodes) ← (s.lists .all).popFront s.nodes
      clearCo n { s with
        wrappers := wrappers, lists := Function.update s.lists .all list, nodes := nodes }

def clrTask (s : CoroutineTask G P) : Option (CoroutineTask G P) :=
  match s.sched.curco with
  | some _ => some s
  | none => do
      let tasks ← freeTasks s.freetask.reverse s.tasks
      let s ← clearWork (s.lists .work).count.toNat { s with tasks := tasks, freetask := [] }
      clearCo (s.lists .all).count.toNat s

/-- `Coroutine::close`, called by the scheduler: all coroutines are freed. -/
def close (s : CoroutineTask G P) : Option (CoroutineTask G P) := do
  let sched ← s.sched.close
  some { s with sched := sched, points := fun _ ↦ .entry }

/-- `Coroutine::initEnv` -/
def initEnv (s : CoroutineTask G P) : CoroutineTask G P := { s with sched := s.sched.initEnv.1 }

/-- What `gfreecovec` promises of a wrapper: it is allocated, it is in `gallcolist`, and its
coroutine exists and is parked in `_co_task_func_`. -/
def Parked (s : CoroutineTask G P) (w : ℕ) : Prop :=
  ∃ wrapper co c W, s.wrappers.read w = some wrapper ∧
    Slist.Models s.nodes s.lists W ∧ w ∈ W .all ∧
    s.sched.slot wrapper.coId = some (some co) ∧ s.sched.objs.read co = some c ∧
    s.points co = .parked w

def FreeParked (s : CoroutineTask G P) : Prop := ∀ w ∈ s.freeco, s.Parked w

variable {s s' : CoroutineTask G P} {W : TaskList → List ℕ} {L : List TaskCo}

/-! ## The loops of `clrTask` -/

theorem freeTasks_spec {ts : List ℕ} {h : Heap (CoTask G P)} (hnodup : ts.Nodup)
    (halive : ∀ t ∈ ts, ∃ c, h.read t = some c) :
    ∃ h', freeTasks ts h = some h' ∧ ∀ q, q ∉ ts → h'.read q = h.read q := by
  induction ts generalizing h with
  | nil => exact ⟨h, rfl, fun _ _ ↦ rfl⟩
  | cons t ts ih =>
      rw [List.nodup_cons] at hnodup
      rw [List.forall_mem_cons] at halive
      obtain ⟨c, hc⟩ := halive.1
      obtain ⟨h₁, hfree, -, hother⟩ := Heap.free_spec hc
      have halive' : ∀ q ∈ ts, ∃ c, h₁.read q = some c := by
        intro q hq
        rw [hother q (fun heq ↦ hnodup.1 (heq ▸ hq))]
        exact halive.2 q hq
      obtain ⟨h', hrest, hsame⟩ := ih hnodup.2 halive'
      refine ⟨h', ?_, ?_⟩
      · rw [freeTasks, hfree, Option.bind_some, hrest]
      · intro q hq
        rw [List.mem_cons, not_or] at hq
        rw [hsame q hq.2, hother q hq.1]

theorem clearWork_spec {ts : List ℕ} (hmodels : Slist.Models s.nodes s.lists W)
    (hts : W .work = ts) (hsmall : ts.length < 2 ^ 31) (hnodup : ts.Nodup)
    (halive : ∀ t ∈ ts, ∃ c, s.tasks.read t = some c) :
    ∃ tasks nodes lists,
      clearWork ts.length s = some { s with tasks := tasks, nodes := nodes, lists := lists } ∧
      Slist.Models nodes lists (Function.update W .work []) := by
  induction ts generalizing s W with
  | nil =>
      refine ⟨s.tasks, s.nodes, s.lists, rfl, ?_⟩
      rw [← hts, Function.update_eq_self]
      exact hmodels
  | cons t ts ih =>
      rw [List.nodup_cons] at hnodup
      rw [List.forall_mem_cons] at halive
      rw [List.length_cons] at hsmall
      obtain ⟨c, hc⟩ := halive.1
      obtain ⟨tasks₁, hfree, -, hother⟩ := Heap.free_spec hc
      obtain ⟨l, nodes₁, hpop, hmodels₁⟩ :=
        hmodels.popFront hts (by rw [hts, List.length_cons]; omega)
      have halive' : ∀ q ∈ ts, ∃ c, tasks₁.read q = some c := by
        intro q hq
        rw [hother q (fun heq ↦ hnodup.1 (heq ▸ hq))]
        exact halive.2 q hq
      obtain ⟨tasks, nodes, lists, hrest, hmodels'⟩ := ih
        (s := { s with
          tasks := tasks₁, lists := Function.update s.lists .work l, nodes := nodes₁ })
        hmodels₁ (Function.update_self ..) (by omega) hnodup.2 halive'
      refine ⟨tasks, nodes, lists, ?_, ?_⟩
      · simp only [List.length_cons, clearWork, hmodels.front_eq hts, hfree, hpop,
          Option.bind_eq_bind, Option.bind_some]
        exact hrest
      · rw [Function.update_idem] at hmodels'
        exact hmodels'

/-- The coroutines `L` are known by their wrappers, which are among `ws`. -/
structure Wraps (s : CoroutineTask G P) (L : List TaskCo) (ws : List ℕ) : Prop where
  sound : s.sched.Sound L none
  wrapper : ∀ e ∈ L, e.data ∈ ws ∧ ∃ task, s.wrappers.read e.data = some ⟨e.id, task⟩
  entry : ∀ p, (∀ e ∈ L, e.co ≠ p) → s.points p = .entry

theorem Wraps.destroy {ws : List ℕ} (h : s.Wraps L ws) (id : ℤ) :
    ∃ sched, s.destroy id = some { s with sched := sched, points := s.pointsWithout id } ∧
      Wraps { s with sched := sched, points := s.pointsWithout id } (Thread.without L id) ws := by
  obtain ⟨sched, hdestroy, hsound⟩ := h.sound.destroy_other (Option.some_ne_none id).symm
  refine ⟨sched, ?_, hsound, ?_, ?_⟩
  · rw [CoroutineTask.destroy, hdestroy]
    rfl
  · intro e he
    exact h.wrapper e (mem_without.mp he).1
  · intro p hp
    change s.pointsWithout id p = .entry
    unfold pointsWithout
    cases hslot : (s.sched.slot id).join with
    | none =>
        apply h.entry
        intro e he
        apply hp e
        refine mem_without.mpr ⟨he, ?_⟩
        rintro rfl
        rw [h.sound.slots.slot_of_mem he] at hslot
        cases hslot
    | some co =>
        obtain ⟨e, he, rfl, rfl⟩ :=
          (h.sound.slots.slot_iff id co).mp (Option.join_eq_some_iff.mp hslot)
        dsimp only
        by_cases hco : p = e.co
        · rw [hco, Function.update_self]
        · rw [Function.update_of_ne hco]
          apply h.entry
          intro e' he'
          by_cases hid : e'.id = e.id
          · rw [h.sound.slots.eq_of_id_eq he' he hid]
            exact fun heq ↦ hco heq.symm
          · exact hp e' (mem_without.mpr ⟨he', hid⟩)

/-- Every wrapper is freed, and with the wrappers go all coroutines. -/
theorem clearCo_spec {ws : List ℕ} (hwraps : s.Wraps L ws)
    (hmodels : Slist.Models s.nodes s.lists W) (hws : W .all = ws) (hsmall : ws.length < 2 ^ 31)
    (hnodup : ws.Nodup) (halive : ∀ w ∈ ws, ∃ c, s.wrappers.read w = some c) :
    ∃ sched points wrappers nodes lists,
      clearCo ws.length s = some { s with
        sched := sched, points := points, wrappers := wrappers, nodes := nodes, lists := lists } ∧
      sched.Sound [] none ∧ (∀ p, points p = .entry) ∧
      Slist.Models nodes lists (Function.update W .all []) ∧
      (∀ w ∈ ws, wrappers.read w = none) ∧
      ∀ w, w ∉ ws → wrappers.read w = s.wrappers.read w := by
  induction ws generalizing s W L with
  | nil =>
      have hL : L = [] := by
        rw [List.eq_nil_iff_forall_not_mem]
        intro e he
        exact absurd (hwraps.wrapper e he).1 List.not_mem_nil
      subst hL
      refine ⟨s.sched, s.points, s.wrappers, s.nodes, s.lists, rfl, hwraps.sound,
        fun p ↦ hwraps.entry p (by simp), ?_, by simp, fun _ _ ↦ rfl⟩
      rw [← hws, Function.update_eq_self]
      exact hmodels
  | cons w ws ih =>
      rw [List.nodup_cons] at hnodup
      rw [List.forall_mem_cons] at halive
      rw [List.length_cons] at hsmall
      obtain ⟨c, hc⟩ := halive.1
      obtain ⟨sched₁, hdestroy, hwraps₁⟩ := hwraps.destroy c.coId
      obtain ⟨wrappers₁, hfree, hgone, hother⟩ := Heap.free_spec hc
      obtain ⟨l, nodes₁, hpop, hmodels₁⟩ :=
        hmodels.popFront hws (by rw [hws, List.length_cons]; omega)
      have hne {q : ℕ} (hq : q ∈ ws) : q ≠ w := fun heq ↦ hnodup.1 (heq ▸ hq)
      have hwraps₂ : Wraps { s with
          sched := sched₁, points := s.pointsWithout c.coId, wrappers := wrappers₁,
          lists := Function.update s.lists .all l, nodes := nodes₁ }
          (Thread.without L c.coId) ws := by
        refine ⟨hwraps₁.sound, ?_, hwraps₁.entry⟩
        intro e he
        obtain ⟨hmem, task, hread⟩ := hwraps₁.wrapper e he
        have hread' : s.wrappers.read e.data = some ⟨e.id, task⟩ := hread
        have hdata : e.data ≠ w := by
          intro heq
          rw [heq, hc] at hread'
          cases hread'
          exact (mem_without.mp he).2 rfl
        refine ⟨(List.mem_cons.mp hmem).resolve_left hdata, task, ?_⟩
        exact (hother _ hdata).trans hread'
      have halive' : ∀ q ∈ ws, ∃ c, wrappers₁.read q = some c := by
        intro q hq
        rw [hother q (hne hq)]
        exact halive.2 q hq
      obtain ⟨sched, points, wrappers, nodes, lists, hrest, hsound, hentry, hmodels', hnone,
        hsame⟩ := ih hwraps₂ hmodels₁ (Function.update_self ..) (by omega) hnodup.2 halive'
      refine ⟨sched, points, wrappers, nodes, lists, ?_, hsound, hentry, ?_, ?_, ?_⟩
      · simp only [List.length_cons, clearCo, hmodels.front_eq hws, hc, hdestroy, hfree, hpop,
          Option.bind_eq_bind, Option.bind_some]
        exact hrest
      · rw [Function.update_idem] at hmodels'
        exact hmodels'
      · rw [List.forall_mem_cons]
        refine ⟨?_, hnone⟩
        rw [hsame w hnodup.1]
        exact hgone
      · intro q hq
        rw [List.mem_cons, not_or] at hq
        rw [hsame q hq.2]
        exact hother q hq.1

end CoroutineTask

end Coroutine

end Slience
