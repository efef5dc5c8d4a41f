import Slience.Coroutine.Resume
import Slience.Coroutine.Task

/-!
# Where the tasks and the wrappers are

A task object is in `gfreetaskvec`, in `gworktasklist`, in the body of one coroutine or in the
hands of the function that is about to store it, and in one of these places only.  A wrapper is
in `gfreecovec` when its coroutine is parked, unless it has just been taken out.  `Inv` says
this of a state inside of a function, with the task `hand` and the wrapper `out` that the
function holds; between two calls it holds none.
-/

namespace Slience

namespace Coroutine

variable {G P : Type}

abbrev TaskCo := LiveCo CoFunc ℕ

def taskOf : CoPoint → Option ℕ
  | .body _ task => some task
  | .entry | .parked _ => none

/-- The tasks whose functions have been called and have not returned. -/
def bodies (points : ℕ → CoPoint) (L : List TaskCo) : List ℕ :=
  L.filterMap fun e ↦ taskOf (points e.co)

namespace CoroutineTask

def places (s : CoroutineTask G P) (work : List ℕ) (L : List TaskCo) (hand : List ℕ) : List ℕ :=
  s.freetask ++ work ++ bodies s.points L ++ hand

structure Stored (s : CoroutineTask G P) (work : List ℕ) (L : List TaskCo) (hand : List ℕ)
    (waiting : List (CoTask G P)) : Prop where
  nodup : (s.places work L hand).Nodup
  alive : ∀ t ∈ s.places work L hand, ∃ c, s.tasks.read t = some c
  waiting : work.map s.tasks.read = waiting.map some

/-- The points a coroutine may stand at between two calls, or when its wrapper is out. -/
def PointOk (out : Option ℕ) (e : TaskCo) : CoPoint → Prop
  | .entry => out = some e.data
  | .parked wrapper => wrapper = e.data
  | .body wrapper _ => wrapper = e.data ∧ out ≠ some e.data

structure Wrapped (s : CoroutineTask G P) (L : List TaskCo) (out : Option ℕ) : Prop where
  wrapper : ∀ e ∈ L, ∃ task, s.wrappers.read e.data = some ⟨e.id, task⟩
  free_nodup : s.freeco.Nodup
  free_iff (w : ℕ) : w ∈ s.freeco ↔
    out ≠ some w ∧ ∃ e ∈ L, e.data = w ∧ s.points e.co = .parked w
  point : ∀ e ∈ L, PointOk out e (s.points e.co)
  entry (p : ℕ) : (∀ e ∈ L, e.co ≠ p) → s.points p = .entry

/-- The variable of the `doTask` that waits exists. -/
structure Framed (s : CoroutineTask G P) (L : List TaskCo) (running : Option ℤ) : Prop where
  idle : running = none → s.frame = none
  alive (v : ℕ) : s.frame = some v → ∃ x, s.vars.read v = some x
  body : ∀ e ∈ L, running = some e.id → ∃ t, s.points e.co = .body e.data t

structure Inv (s : CoroutineTask G P) (W : TaskList → List ℕ) (L : List TaskCo)
    (running : Option ℤ) (hand : List ℕ) (out : Option ℕ) (waiting : List (CoTask G P)) :
    Prop where
  sound : s.sched.Sound L running
  env : s.sched.co ≠ none
  models : Slist.Models s.nodes s.lists W
  small (l : TaskList) : (W l).length < 2 ^ 31
  stored : s.Stored (W .work) L hand waiting
  wrapped : s.Wrapped L out
  framed : s.Framed L running

end CoroutineTask

/-! ## The tasks in bodies -/

theorem bodies_append (points : ℕ → CoPoint) (L L' : List TaskCo) :
    bodies points (L ++ L') = bodies points L ++ bodies points L' :=
  List.filterMap_append

theorem bodies_congr {points points' : ℕ → CoPoint} {L : List TaskCo}
    (h : ∀ e ∈ L, points' e.co = points e.co) : bodies points' L = bodies points L := by
  apply List.filterMap_congr
  intro e he
  rw [h e he]

theorem mem_bodies {points : ℕ → CoPoint} {L : List TaskCo} {t : ℕ} :
    t ∈ bodies points L ↔ ∃ e ∈ L, taskOf (points e.co) = some t := by
  rw [bodies, List.mem_filterMap]

theorem bodies_update (points : ℕ → CoPoint) {L : List TaskCo} (hL : (L.map (·.co)).Nodup)
    {e : TaskCo} (he : e ∈ L) :
    ∃ B, (bodies points L).Perm ((taskOf (points e.co)).toList ++ B) ∧
      ∀ point,
        (bodies (Function.update points e.co point) L).Perm ((taskOf point).toList ++ B) := by
  obtain ⟨l₁, l₂, rfl⟩ := List.append_of_mem he
  rw [List.map_append, List.map_cons, List.nodup_append, List.nodup_cons] at hL
  obtain ⟨-, ⟨hright, -⟩, hleft⟩ := hL
  have hcons (f : ℕ → CoPoint) :
      bodies f (e :: l₂) = (taskOf (f e.co)).toList ++ bodies f l₂ := by
    rw [bodies, List.filterMap_cons]
    cases taskOf (f e.co) <;> rfl
  refine ⟨bodies points l₁ ++ bodies points l₂, ?_, ?_⟩
  · rw [bodies_append, hcons]
    exact List.perm_append_comm_assoc ..
  · intro point
    have hl₁ : bodies (Function.update points e.co point) l₁ = bodies points l₁ := by
      apply bodies_congr
      intro e' he'
      apply Function.update_of_ne
      exact hleft e'.co (List.mem_map_of_mem he') e.co List.mem_cons_self
    have hl₂ : bodies (Function.update points e.co point) l₂ = bodies points l₂ := by
      apply bodies_congr
      intro e' he'
      apply Function.update_of_ne
      rintro heq
      exact hright (heq ▸ List.mem_map_of_mem he')
    rw [bodies_append, hcons, Function.update_self, hl₁, hl₂]
    exact List.perm_append_comm_assoc ..

theorem Slots.nodup_co {F D : Type} {s : Schedule F D} {L : List (LiveCo F D)} (h : Slots s L) :
    (L.map (·.co)).Nodup := by
  have hnodup : L.Nodup := List.Nodup.of_map _ h.nodup
  apply hnodup.map_on
  intro e he e' he' hco
  exact h.eq_of_id_eq he he' (h.id_eq_of_co_eq he he' hco)

namespace Schedule

theorem Sound.co_ne_none {F D : Type} {s : Schedule F D} {L : List (LiveCo F D)}
    {running : Option ℤ} (h : s.Sound L running) {e : LiveCo F D} (he : e ∈ L) : s.co ≠ none := by
  rintro hco
  obtain ⟨-, -, -, rfl⟩ := h.nil_of_co_none hco
  cases he

end Schedule

namespace CoroutineTask

variable {s s' : CoroutineTask G P} {W : TaskList → List ℕ} {L : List TaskCo}
  {running : Option ℤ} {hand : List ℕ} {out : Option ℕ} {waiting : List (CoTask G P)}

theorem Stored.move {work work' hand' : List ℕ} {waiting' : List (CoTask G P)}
    (h : s.Stored work L hand waiting) {L' : List TaskCo}
    (hperm : (s'.places work' L' hand').Perm (s.places work L hand)) (htasks : s'.tasks = s.tasks)
    (hwaiting : work'.map s.tasks.read = waiting'.map some) :
    s'.Stored work' L' hand' waiting' := by
  refine ⟨hperm.nodup_iff.mpr h.nodup, ?_, ?_⟩
  · intro t ht
    rw [htasks]
    exact h.alive t (hperm.mem_iff.mp ht)
  · rw [htasks]
    exact hwaiting

/-! ## `addTask` and `_get_task` -/

theorem Inv.fill (h : s.Inv W L running [] out waiting) {t : ℕ} {c : CoTask G P} {fs : List ℕ}
    {tasks : Heap (CoTask G P)} (hself : tasks.read t = some c)
    (hother : ∀ q, q ≠ t → tasks.read q = s.tasks.read q)
    (ht : t ∉ fs ++ W .work ++ bodies s.points L) (hfs : (fs ++ W .work ++ bodies s.points L).Nodup)
    (hsub : ∀ q ∈ fs, q ∈ s.freetask) :
    { s with tasks := tasks, freetask := fs }.Inv W L running [t] out waiting := by
  have hne (q : ℕ) (hq : q ∈ fs ++ W .work ++ bodies s.points L) : q ≠ t :=
    fun heq ↦ ht (heq ▸ hq)
  refine ⟨h.sound, h.env, h.models, h.small, ⟨?_, ?_, ?_⟩,
    ⟨h.wrapped.wrapper, h.wrapped.free_nodup, h.wrapped.free_iff, h.wrapped.point,
      h.wrapped.entry⟩, ⟨h.framed.idle, h.framed.alive, h.framed.body⟩⟩
  · change (fs ++ W .work ++ bodies s.points L ++ [t]).Nodup
    rw [List.nodup_append]
    refine ⟨hfs, List.nodup_singleton t, ?_⟩
    intro q hq r hr
    rw [List.mem_singleton] at hr
    rw [hr]
    exact hne q hq
  · intro q hq
    change q ∈ fs ++ W .work ++ bodies s.points L ++ [t] at hq
    change ∃ c, tasks.read q = some c
    rw [List.mem_append, List.mem_singleton] at hq
    rcases hq with hq | rfl
    · rw [hother q (hne q hq)]
      apply h.stored.alive
      simp only [places, List.mem_append] at hq ⊢
      rcases hq with (hq | hq) | hq
      · exact Or.inl (Or.inl (Or.inl (hsub q hq)))
      · exact Or.inl (Or.inl (Or.inr hq))
      · exact Or.inl (Or.inr hq)
    · exact ⟨c, hself⟩
  · rw [← h.stored.waiting]
    apply List.map_congr_left
    intro q hq
    apply hother
    apply hne
    simp [hq]

theorem newTask_spec (h : s.Inv W L running [] out waiting) (func : G) (p : P) :
    ∃ s' t, s.newTask func p = some (s', t) ∧ s'.Inv W L running [t] out waiting ∧
      s'.tasks.read t = some ⟨func, p⟩ ∧
      s' = { s with tasks := s'.tasks, freetask := s'.freetask } := by
  have hnodup := h.stored.nodup
  rw [places, List.append_nil] at hnodup
  unfold newTask
  cases hlast : s.freetask.getLast? with
  | some t =>
      have hfs : s.freetask = s.freetask.dropLast ++ [t] :=
        (List.dropLast_append_getLast? t hlast).symm
      obtain ⟨old, hold⟩ := h.stored.alive t (by
        simp [places, List.mem_of_getLast? hlast])
      obtain ⟨tasks, hwrite, hself, hother⟩ := Heap.write_spec ⟨func, p⟩ hold
      -- the object leaves the end of the vector
      have hperm : (s.freetask ++ W .work ++ bodies s.points L).Perm
          (t :: (s.freetask.dropLast ++ W .work ++ bodies s.points L)) := by
        rw [hfs]
        simp only [List.append_assoc, List.dropLast_concat]
        exact List.perm_middle
      rw [hperm.nodup_iff, List.nodup_cons] at hnodup
      refine ⟨_, t, ?_, h.fill hself hother hnodup.1 hnodup.2 ?_, hself, rfl⟩
      · change (s.tasks.write t ⟨func, p⟩).bind _ = _
        rw [hwrite]
        rfl
      · intro q hq
        exact List.mem_of_mem_dropLast hq
  | none =>
      have hfree : s.freetask = [] := List.getLast?_eq_none_iff.mp hlast
      have hself : (s.tasks.alloc ⟨func, p⟩).read s.tasks.fresh = some ⟨func, p⟩ :=
        Heap.read_alloc_fresh ..
      refine ⟨_, _, rfl, h.fill hself ?_ ?_ hnodup ?_, hself, rfl⟩
      · intro q hq
        exact Heap.read_alloc_of_ne _ hq
      · intro hmem
        obtain ⟨c, hc⟩ := h.stored.alive s.tasks.fresh (by rw [places, List.append_nil]; exact hmem)
        simp at hc
      · exact fun q hq ↦ hq

theorem Inv.relist (h : s.Inv W L running hand out waiting) {W' : TaskList → List ℕ}
    {hand' : List ℕ} {waiting' : List (CoTask G P)} {nodes : Heap (Node ℕ)}
    {lists : TaskList → Slist} (hmodels : Slist.Models nodes lists W')
    (hsmall : ∀ l, (W' l).length < 2 ^ 31)
    (hperm : (W' .work ++ hand').Perm (W .work ++ hand))
    (hwaiting : (W' .work).map s.tasks.read = waiting'.map some) :
    { s with nodes := nodes, lists := lists }.Inv W' L running hand' out waiting' := by
  refine ⟨h.sound, h.env, hmodels, hsmall, h.stored.move ?_ rfl hwaiting,
    ⟨h.wrapped.wrapper, h.wrapped.free_nodup, h.wrapped.free_iff, h.wrapped.point,
      h.wrapped.entry⟩, ⟨h.framed.idle, h.framed.alive, h.framed.body⟩⟩
  change (s.freetask ++ W' .work ++ bodies s.points L ++ hand').Perm
    (s.freetask ++ W .work ++ bodies s.points L ++ hand)
  rw [← Multiset.coe_eq_coe] at hperm ⊢
  simp only [← Multiset.coe_add] at hperm ⊢
  calc (s.freetask + W' .work + bodies s.points L + hand' : Multiset ℕ)
      = s.freetask + bodies s.points L + (W' .work + hand') := by abel
    _ = s.freetask + bodies s.points L + (W .work + hand) := by rw [hperm]
    _ = s.freetask + W .work + bodies s.points L + hand := by abel

theorem length_update_lt (h : s.Inv W L running hand out waiting) {l : TaskList} {ts : List ℕ}
    (hts : ts.length < 2 ^ 31) (k : TaskList) : (Function.update W l ts k).length < 2 ^ 31 := by
  by_cases hk : k = l
  · subst hk
    rw [Function.update_self]
    exact hts
  · rw [Function.update_of_ne hk]
    exact h.small k

theorem addTask_spec (h : s.Inv W L running [] out waiting) (func : G) (p : P) :
    (∃ s' W', s.addTask func p = some s' ∧
      s'.Inv W' L running [] out (waiting ++ [⟨func, p⟩]) ∧ s'.calls = s.calls) ∨
    (s.addTask func p = none ∧ (s.lists .work).count = 2 ^ 31 - 1) := by
  obtain ⟨s₁, t, hnew, h₁, hread, hsame⟩ := newTask_spec h func p
  have hadd : s.addTask func p = s₁.pushBack .work t := by
    unfold addTask
    rw [hnew]
    rfl
  rw [hadd]
  have hlen := h.small .work
  by_cases hroom : (W .work).length + 1 < 2 ^ 31
  · left
    obtain ⟨l', nodes, hpush, hmodels⟩ := h₁.models.pushBack .work t hroom
    refine ⟨_, Function.update W .work (W .work ++ [t]), ?_, h₁.relist hmodels ?_ ?_ ?_, ?_⟩
    · unfold pushBack
      rw [hpush]
      rfl
    · apply length_update_lt h
      simpa using hroom
    · rw [Function.update_self, List.append_nil]
    · rw [Function.update_self, List.map_append, List.map_append, h₁.stored.waiting,
        List.map_singleton, List.map_singleton, hread]
    · rw [hsame]
  · right
    have hcount := h.models.count_eq .work
    refine ⟨?_, by omega⟩
    unfold pushBack
    rw [h₁.models.pushBack_full .work t (by omega)]
    rfl

theorem getTask_nil (h : s.Inv W L running hand out waiting) (hwork : W .work = []) :
    s.getTask = some (s, none) := by
  unfold getTask
  have hcount := h.models.count_eq .work
  rw [hwork] at hcount
  rw [if_pos (by rw [hcount]; rfl)]

theorem getTask_cons (h : s.Inv W L running [] out waiting) {t : ℕ} {ts : List ℕ}
    (hwork : W .work = t :: ts) :
    ∃ s' c rest, s.getTask = some (s', some t) ∧ waiting = c :: rest ∧
      s'.Inv (Function.update W .work ts) L running [t] out rest ∧ s'.tasks.read t = some c ∧
      s' = { s with nodes := s'.nodes, lists := s'.lists } := by
  have hmap := h.stored.waiting
  rw [hwork, List.map_cons] at hmap
  cases waiting with
  | nil => cases hmap
  | cons c rest =>
      rw [List.map_cons] at hmap
      obtain ⟨hread, hrest⟩ := List.cons.inj hmap
      obtain ⟨l', nodes, hpop, hmodels⟩ := h.models.popFront hwork (h.small .work)
      have hcount := h.models.count_eq .work
      have hlen := h.small .work
      rw [hwork, List.length_cons] at hlen
      refine ⟨_, c, rest, ?_, rfl, h.relist hmodels ?_ ?_ ?_, hread, rfl⟩
      · unfold getTask
        rw [if_neg (by rw [hcount, hwork, List.length_cons]; omega), h.models.front_eq hwork]
        change ((s.lists .work).popFront s.nodes).bind _ = _
        rw [hpop]
        rfl
      · apply length_update_lt h
        omega
      · rw [Function.update_self, hwork, List.append_nil]
        exact List.perm_append_singleton t ts
      · rw [Function.update_self]
        exact hrest

end CoroutineTask

end Coroutine

end Slience
