import Slience.Base.SlistModel
import Slience.Coroutine.Resume

/-!
# Wake-ups from other threads

`addResume(thrid, co_id)` and `doThrResume` of `CoroutineTask` (`coroutine.hpp`): any thread puts
an id into the list that `_queue_map` has for a thread, and this thread takes the whole list over
into its variable `tmp` and resumes the ids one after the other.  What is done under `_mutex` is
one move.  While a coroutine runs, the `doThrResume` that has resumed it waits; the coroutine may
call every function, also `addResume` for its own thread.

A step of the system records the ids in the order in which they were added under the mutex.  What
a thread does with its coroutines is a log: the calls of its own, and the ids that `doThrResume`
passes to `Coroutine::resume`.
-/

namespace Slience

namespace Slist

variable {α : Type}

/-- `slist::~slist`; there are no more nodes than were ever allocated. -/
def destruct (l : Slist) (h : Heap (Node α)) : Option (Heap (Node α)) :=
  freeNodes h.fresh l.head h

variable {h : Heap (Node α)} {l : Slist}

theorem destruct_nil (hl : Rep h l []) : l.destruct h = some h := by
  have hhead : l.head = none := hl.chain
  rw [destruct, hhead, freeNodes.eq_def]

/-- A list without nodes has the null pointers of a new one. -/
theorem Rep.eq_empty (hl : Rep h l []) : l = empty := by
  have hhead : l.head = none := hl.chain
  have hcount := hl.count_eq
  have htail := hl.tail_eq
  rcases l with ⟨count, head, tail⟩
  dsimp only at hhead hcount htail
  subst hhead hcount htail
  rfl

end Slist

namespace Coroutine

variable {F D : Type}

/-- `M_INVALID_COROUTINE_ID` -/
def invalidCoroutineId : ℤ := 0xFFFFFFFF

/-- `Coroutine::curid`, an `unsigned int`. -/
def Schedule.curid (s : Schedule F D) : Option ℤ :=
  match s.curco with
  | some p => (s.objs.read p).map fun c ↦ c.id % 2 ^ 32
  | none => some invalidCoroutineId

theorem Schedule.Sound.curid_eq {s : Schedule F D} {L : List (LiveCo F D)} {running : Option ℤ}
    (h : s.Sound L running) :
    ∃ id, s.curid = some id ∧ (id = invalidCoroutineId ↔ s.curco = none) := by
  cases running with
  | none =>
      have hcurco := h.current.1
      refine ⟨invalidCoroutineId, ?_, by simp [hcurco]⟩
      rw [Schedule.curid, hcurco]
  | some run =>
      obtain ⟨e, he, -, hcurco, -⟩ := h.current
      obtain ⟨status, hread⟩ := h.slots.object e he
      have hrange := h.slots.inRange he
      have hcap := h.ids.cap_eq
      have hlt := h.ids.cap_lt
      refine ⟨e.id % 2 ^ 32, ?_, ?_⟩
      · rw [Schedule.curid, hcurco]
        change (s.objs.read e.co).map _ = _
        rw [hread]
        rfl
      · rw [hcurco, invalidCoroutineId]
        refine iff_of_false ?_ (Option.some_ne_none _)
        omega

/-- What a thread does with its coroutines: it passes an id that was added for it to `resume`, or
calls a function of its own accord. -/
inductive CoEvent (F D : Type) where
  | resumed (coId : ℤ)
  | called (c : CoCall F D)
  deriving DecidableEq

namespace CoEvent

def call : CoEvent F D → CoCall F D
  | resumed coId => .resume coId
  | called c => c

def resumedId : CoEvent F D → Option ℤ
  | resumed coId => some coId
  | called _ => none

def ownCall : CoEvent F D → Option (CoCall F D)
  | resumed _ => none
  | called c => some c

/-- The thread that has done this. -/
def replay (events : List (CoEvent F D)) : Option (Thread F D) :=
  (Thread.system F D).run Thread.initial (events.map call)

theorem replay_append {events : List (CoEvent F D)} {t t' : Thread F D} {e : CoEvent F D}
    (h : replay events = some t) (hstep : t.step e.call = some t') :
    replay (events ++ [e]) = some t' := by
  unfold replay at h ⊢
  rw [List.map_append, System.run_append, h, Option.bind_some, List.map_singleton,
    System.run_cons]
  change (t.step e.call).bind _ = _
  rw [hstep]
  rfl

end CoEvent

/-- The lists of ids that a thread has: the one in `_queue_map`, and the variable `tmp` of its
`doThrResume`. -/
inductive IdList where
  | queue
  | tmp
  deriving DecidableEq

structure ThrTasks (F D : Type) where
  queueMap : ℤ → Option Slist
  /-- The variable `tmp` of the `doThrResume` that a thread is in. -/
  tmp : ℤ → Option Slist
  nodes : Heap (Node ℤ)
  threads : ℤ → Thread F D
  added : ℤ → List ℤ
  events : ℤ → List (CoEvent F D)

namespace ThrTasks

def initial : ThrTasks F D where
  queueMap := fun _ ↦ none
  tmp := fun _ ↦ none
  nodes := Heap.empty
  threads := fun _ ↦ Thread.initial
  added := fun _ ↦ []
  events := fun _ ↦ []

def setTmp (s : ThrTasks F D) (thrid : ℤ) (tmp : Option Slist) (nodes : Heap (Node ℤ)) :
    ThrTasks F D :=
  { s with tmp := Function.update s.tmp thrid tmp, nodes := nodes }

def setQueue (s : ThrTasks F D) (thrid : ℤ) (list : Slist) (nodes : Heap (Node ℤ)) :
    ThrTasks F D :=
  { s with queueMap := Function.update s.queueMap thrid (some list), nodes := nodes }

/-- A thread has done something with its coroutines. -/
def setThread (s : ThrTasks F D) (thrid : ℤ) (thread : Thread F D) (e : CoEvent F D) :
    ThrTasks F D :=
  { s with
    threads := Function.update s.threads thrid thread
    events := Function.update s.events thrid (s.events thrid ++ [e]) }

def addResume (s : ThrTasks F D) (thrid coId : ℤ) : Option (ThrTasks F D) :=
  match s.queueMap thrid with
  | some list => do
      let (list, nodes) ← list.pushBack s.nodes coId
      some (s.setQueue thrid list nodes)
  | none => do
      let (pslist, nodes) ← Slist.empty.pushBack s.nodes coId
      some (s.setQueue thrid pslist nodes)

/-- `doThrResume` of the thread `thrid` up to its loop. -/
def doThrResume (s : ThrTasks F D) (thrid : ℤ) : Option (ThrTasks F D) := do
  if (← (s.threads thrid).sched.curid) = invalidCoroutineId then
    match s.queueMap thrid with
    | some list => do
        let (tmp, nodes) ← Slist.empty.join list s.nodes
        some ((s.setQueue thrid Slist.empty nodes).setTmp thrid (some tmp) nodes)
    | none => some (s.setTmp thrid (some Slist.empty) s.nodes)
  else some s

/-- One turn of the loop of `doThrResume` up to the switch, or its end. -/
def turn (s : ThrTasks F D) (thrid : ℤ) : Option (ThrTasks F D) := do
  let tmp ← s.tmp thrid
  if tmp.count = 0 then do
    let nodes ← tmp.destruct s.nodes
    some (s.setTmp thrid none nodes)
  else do
    let coId ← tmp.front s.nodes
    let (tmp, nodes) ← tmp.popFront s.nodes
    let thread ← (s.threads thrid).step (.resume coId)
    some ((s.setTmp thrid (some tmp) nodes).setThread thrid thread (.resumed coId))

/-- A call of a thread to `Coroutine`. -/
def coCall (s : ThrTasks F D) (thrid : ℤ) (c : CoCall F D) : Option (ThrTasks F D) := do
  let thread ← (s.threads thrid).step c
  some (s.setThread thrid thread (.called c))

end ThrTasks

/-- `addResume` names the thread that the id is for; any thread may call it at any time. -/
inductive ThrMove (F D : Type) where
  | addResume (thrid coId : ℤ)
  | doThrResume (thrid : ℤ)
  | turn (thrid : ℤ)
  | co (thrid : ℤ) (c : CoCall F D)
  deriving DecidableEq

namespace ThrMove

/-- The id that is added for the thread `thrid`. -/
def addedId (thrid : ℤ) : ThrMove F D → Option ℤ
  | addResume t coId => if t = thrid then some coId else none
  | _ => none

/-- What the thread `thrid` calls of its own accord. -/
def ownCall (thrid : ℤ) : ThrMove F D → Option (CoCall F D)
  | co t c => if t = thrid then some c else none
  | _ => none

end ThrMove

namespace ThrTasks

def step (s : ThrTasks F D) : ThrMove F D → Option (ThrTasks F D)
  | .addResume thrid coId => do
      let s ← s.addResume thrid coId
      return { s with added := Function.update s.added thrid (s.added thrid ++ [coId]) }
  | .doThrResume thrid => s.doThrResume thrid
  | .turn thrid => s.turn thrid
  | .co thrid c => s.coCall thrid c

/-- A thread is in the loop of `doThrResume`, and no coroutine of it runs. -/
def Draining (s : ThrTasks F D) (thrid : ℤ) : Prop :=
  s.tmp thrid ≠ none ∧ (s.threads thrid).sched.curco = none

/-- A thread that is in the loop of `doThrResume` makes no other move until a coroutine of it
runs. -/
def CanMove (s : ThrTasks F D) : ThrMove F D → Prop
  | .addResume _ _ => True
  | .doThrResume thrid => ¬ s.Draining thrid
  | .turn thrid => s.Draining thrid
  | .co thrid c => ¬ s.Draining thrid ∧ (s.threads thrid).CanCall c

instance (s : ThrTasks F D) (thrid : ℤ) : Decidable (s.Draining thrid) :=
  inferInstanceAs (Decidable (_ ∧ _))

instance (s : ThrTasks F D) (m : ThrMove F D) : Decidable (s.CanMove m) :=
  match m with
  | .addResume _ _ => isTrue trivial
  | .doThrResume thrid => inferInstanceAs (Decidable (¬ s.Draining thrid))
  | .turn thrid => inferInstanceAs (Decidable (s.Draining thrid))
  | .co thrid c => inferInstanceAs (Decidable (¬ s.Draining thrid ∧ (s.threads thrid).CanCall c))

def system (F D : Type) : System (ThrTasks F D) (ThrMove F D) where
  enabled := CanMove
  step := step

instance (s : ThrTasks F D) (m : ThrMove F D) : Decidable ((system F D).enabled s m) :=
  inferInstanceAs (Decidable (s.CanMove m))

/-- A list of ids of a thread; one that is not there is empty. -/
def list (s : ThrTasks F D) : ℤ × IdList → Slist
  | (thrid, .queue) => (s.queueMap thrid).getD Slist.empty
  | (thrid, .tmp) => (s.tmp thrid).getD Slist.empty

/-- The ids that `doThrResume` of a thread has passed to `resume`. -/
def resumed (s : ThrTasks F D) (thrid : ℤ) : List ℤ := (s.events thrid).filterMap CoEvent.resumedId

/-- What holds between any two moves, with the ids `W` that the lists hold. -/
structure Inv (s : ThrTasks F D) (W : ℤ × IdList → List ℤ) : Prop where
  models : Slist.Models s.nodes s.list W
  small : ∀ i, (W i).length < 2 ^ 31
  sound : ∀ thrid, (s.threads thrid).Sound
  replayed : ∀ thrid, CoEvent.replay (s.events thrid) = some (s.threads thrid)
  order : ∀ thrid, s.added thrid = s.resumed thrid ++ W (thrid, .tmp) ++ W (thrid, .queue)

/-- The ids in the lists when the thread has taken those in `_queue_map` over. -/
def taken (W : ℤ × IdList → List ℤ) (thrid : ℤ) : ℤ × IdList → List ℤ :=
  Function.update (Function.update W (thrid, .queue) []) (thrid, .tmp) (W (thrid, .queue))

variable {s s' : ThrTasks F D} {W : ℤ × IdList → List ℤ} {thrid coId : ℤ}

/-! ## The lists -/

theorem list_setQueue (list : Slist) (nodes : Heap (Node ℤ)) :
    (s.setQueue thrid list nodes).list = Function.update s.list (thrid, .queue) list := by
  funext ⟨t, k⟩
  by_cases ht : t = thrid
  · subst ht
    cases k <;> simp [setQueue, ThrTasks.list]
  · cases k <;> simp [setQueue, ThrTasks.list, ht]

theorem list_setTmp (tmp : Option Slist) (nodes : Heap (Node ℤ)) :
    (s.setTmp thrid tmp nodes).list =
      Function.update s.list (thrid, .tmp) (tmp.getD Slist.empty) := by
  funext ⟨t, k⟩
  by_cases ht : t = thrid
  · subst ht
    cases k <;> simp [setTmp, ThrTasks.list]
  · cases k <;> simp [setTmp, ThrTasks.list, ht]

theorem addResume_eq (s : ThrTasks F D) (thrid coId : ℤ) :
    s.addResume thrid coId = ((s.list (thrid, .queue)).pushBack s.nodes coId).map fun r ↦
      s.setQueue thrid r.1 r.2 := by
  cases hmap : s.queueMap thrid with
  | some list =>
      have hlist : s.list (thrid, .queue) = list := by simp [ThrTasks.list, hmap]
      rw [addResume, hmap, hlist]
      exact Option.map_eq_bind.symm
  | none =>
      have hlist : s.list (thrid, .queue) = Slist.empty := by simp [ThrTasks.list, hmap]
      rw [addResume, hmap, hlist]
      exact Option.map_eq_bind.symm

theorem forall_small_update (hW : ∀ i, (W i).length < 2 ^ 31) {i : ℤ × IdList} {ids : List ℤ}
    (hids : ids.length < 2 ^ 31) (j : ℤ × IdList) :
    (Function.update W i ids j).length < 2 ^ 31 := by
  revert j
  rw [Function.forall_update_iff W fun _ xs ↦ xs.length < 2 ^ 31]
  exact ⟨hids, fun j _ ↦ hW j⟩

/-! ## The threads -/

theorem sound_setThread {thread : Thread F D} {e : CoEvent F D}
    (h : ∀ t, (s.threads t).Sound) (hthread : thread.Sound) (t : ℤ) :
    ((s.setThread thrid thread e).threads t).Sound := by
  change (Function.update s.threads thrid thread t).Sound
  by_cases ht : t = thrid
  · subst ht
    rw [Function.update_self]
    exact hthread
  · rw [Function.update_of_ne ht]
    exact h t

theorem replayed_setThread {thread : Thread F D} {e : CoEvent F D}
    (h : ∀ t, CoEvent.replay (s.events t) = some (s.threads t))
    (hstep : (s.threads thrid).step e.call = some thread) (t : ℤ) :
    CoEvent.replay ((s.setThread thrid thread e).events t) =
      some ((s.setThread thrid thread e).threads t) := by
  change CoEvent.replay (Function.update s.events thrid (s.events thrid ++ [e]) t) =
    some (Function.update s.threads thrid thread t)
  by_cases ht : t = thrid
  · subst ht
    rw [Function.update_self, Function.update_self]
    exact CoEvent.replay_append (h t) hstep
  · rw [Function.update_of_ne ht, Function.update_of_ne ht]
    exact h t

theorem resumed_setThread (thread : Thread F D) (e : CoEvent F D) (t : ℤ) :
    (s.setThread thrid thread e).resumed t =
      s.resumed t ++ if t = thrid then e.resumedId.toList else [] := by
  unfold resumed
  change List.filterMap _ (Function.update s.events thrid (s.events thrid ++ [e]) t) = _
  by_cases ht : t = thrid
  · subst ht
    rw [Function.update_self, if_pos rfl, List.filterMap_append]
    cases hid : e.resumedId <;> simp [hid]
  · rw [Function.update_of_ne ht, if_neg ht, List.append_nil]

namespace Inv

theorem initial : (initial : ThrTasks F D).Inv fun _ ↦ [] where
  models := by
    have hlist : (ThrTasks.initial : ThrTasks F D).list = fun _ ↦ Slist.empty := by
      funext ⟨t, k⟩
      cases k with
      | queue => rfl
      | tmp => rfl
    rw [hlist]
    exact Slist.Models.empty
  small := fun _ ↦ Nat.two_pow_pos 31
  sound := fun _ ↦ Schedule.Sound.initial
  replayed := fun _ ↦ rfl
  order := fun _ ↦ rfl

/-- A thread that is not in the loop of `doThrResume` has no ids in `tmp`. -/
theorem tmp_eq_nil (h : s.Inv W) (htmp : s.tmp thrid = none) : W (thrid, .tmp) = [] := by
  have hcount := h.models.count_eq (thrid, .tmp)
  have hlist : s.list (thrid, .tmp) = Slist.empty := by simp [ThrTasks.list, htmp]
  rw [hlist] at hcount
  exact List.length_eq_zero_iff.mp (Int.natCast_eq_zero.mp hcount.symm)

theorem list_eq_empty (h : s.Inv W) {i : ℤ × IdList} (hi : W i = []) : s.list i = Slist.empty := by
  obtain ⟨V, -, hrep, hW⟩ := h.models.nodes
  have hV : V i = [] := by
    rw [hW] at hi
    exact List.map_eq_nil_iff.mp hi
  have hnil := hrep i
  rw [hV] at hnil
  exact hnil.eq_empty

theorem addResume_step (h : s.Inv W) (thrid coId : ℤ) :
    (∃ s' W', s.step (.addResume thrid coId) = some s' ∧ s'.Inv W') ∨
      (s.step (.addResume thrid coId) = none ∧ (W (thrid, .queue)).length + 1 = 2 ^ 31) := by
  have hsmall := h.small (thrid, .queue)
  by_cases hroom : (W (thrid, .queue)).length + 1 < 2 ^ 31
  · left
    obtain ⟨list, nodes, hpush, hmodels⟩ := h.models.pushBack (thrid, .queue) coId hroom
    refine ⟨{ s.setQueue thrid list nodes with
        added := Function.update s.added thrid (s.added thrid ++ [coId]) },
      Function.update W (thrid, .queue) (W (thrid, .queue) ++ [coId]), ?_, ?_, ?_, h.sound,
      h.replayed, ?_⟩
    · rw [step, addResume_eq, hpush]
      rfl
    · change Slist.Models nodes (s.setQueue thrid list nodes).list _
      rw [list_setQueue]
      exact hmodels
    · exact forall_small_update h.small (by rw [List.length_append]; exact hroom)
    · intro t
      have horder := h.order t
      change Function.update s.added thrid (s.added thrid ++ [coId]) t = s.resumed t ++ _ ++ _
      by_cases ht : t = thrid
      · subst ht
        simp [horder, Function.update_of_ne]
      · simp [horder, Function.update_of_ne, ht]
  · right
    refine ⟨?_, by omega⟩
    rw [step, addResume_eq, h.models.pushBack_full _ _ (by omega)]
    rfl

/-- The list in `_queue_map` goes to the variable `tmp` of its thread as it is. -/
theorem join_queue (h : s.Inv W) (htmp : s.tmp thrid = none) :
    ∃ tmp nodes, Slist.empty.join (s.list (thrid, .queue)) s.nodes = some (tmp, nodes) ∧
      Slist.Models nodes
        (Function.update (Function.update s.list (thrid, .queue) Slist.empty) (thrid, .tmp) tmp)
        (taken W thrid) := by
  have hnil := h.tmp_eq_nil htmp
  have hlist := h.list_eq_empty hnil
  by_cases hqueue : W (thrid, .queue) = []
  · have hempty := h.list_eq_empty hqueue
    refine ⟨Slist.empty, s.nodes, by rw [hempty]; rfl, ?_⟩
    have hl : Function.update s.list (thrid, .queue) Slist.empty = s.list :=
      Function.update_eq_self_iff.mpr hempty.symm
    have hW : Function.update W (thrid, .queue) [] = W :=
      Function.update_eq_self_iff.mpr hqueue.symm
    rw [taken, hl, hW, hqueue, Function.update_eq_self_iff.mpr hlist.symm,
      Function.update_eq_self_iff.mpr hnil.symm]
    exact h.models
  · have hne : (thrid, IdList.tmp) ≠ (thrid, IdList.queue) := by simp
    obtain ⟨tmp, nodes, hjoin, hmodels⟩ := h.models.join hne hqueue
      (by rw [hnil, List.length_nil, Nat.zero_add]; exact h.small _)
    rw [hlist] at hjoin
    rw [hnil, List.nil_append] at hmodels
    exact ⟨tmp, nodes, hjoin, hmodels⟩

theorem curid_eq (h : s.Inv W) (thrid : ℤ) :
    ∃ id, (s.threads thrid).sched.curid = some id ∧
      (id = invalidCoroutineId ↔ (s.threads thrid).sched.curco = none) :=
  Schedule.Sound.curid_eq (h.sound thrid)

theorem doThrResume_step (h : s.Inv W) (hcan : ¬ s.Draining thrid) :
    ∃ s' W', s.doThrResume thrid = some s' ∧ s'.Inv W' := by
  obtain ⟨id, hid, hnone⟩ := h.curid_eq thrid
  by_cases hcurco : (s.threads thrid).sched.curco = none
  · have htmp : s.tmp thrid = none := by
      by_contra htmp
      exact hcan ⟨htmp, hcurco⟩
    have hcheck : id = invalidCoroutineId := hnone.mpr hcurco
    have hnil := h.tmp_eq_nil htmp
    cases hmap : s.queueMap thrid with
    | none =>
        refine ⟨s.setTmp thrid (some Slist.empty) s.nodes, W, ?_, ?_, h.small, h.sound,
          h.replayed, h.order⟩
        · rw [doThrResume, hid, hmap]
          exact if_pos hcheck
        · have hlist : (s.setTmp thrid (some Slist.empty) s.nodes).list = s.list := by
            rw [list_setTmp]
            exact Function.update_eq_self_iff.mpr (h.list_eq_empty hnil).symm
          rw [hlist]
          exact h.models
    | some list =>
        obtain ⟨tmp, nodes, hjoin, hmodels⟩ := h.join_queue htmp
        have hlist : s.list (thrid, .queue) = list := by simp [ThrTasks.list, hmap]
        rw [hlist] at hjoin
        refine ⟨(s.setQueue thrid Slist.empty nodes).setTmp thrid (some tmp) nodes, taken W thrid,
          ?_, ?_, ?_, h.sound, h.replayed, ?_⟩
        · rw [doThrResume, hid, hmap]
          change (if id = invalidCoroutineId then (Slist.empty.join list s.nodes).bind _ else _) = _
          rw [if_pos hcheck, hjoin]
          rfl
        · rw [list_setTmp, list_setQueue]
          exact hmodels
        · unfold taken
          refine forall_small_update ?_ (h.small _)
          exact forall_small_update h.small (Nat.two_pow_pos 31)
        · intro t
          have horder := h.order t
          change s.added t = s.resumed t ++ taken W thrid (t, .tmp) ++ taken W thrid (t, .queue)
          by_cases ht : t = thrid
          · subst ht
            rw [hnil, List.append_nil] at horder
            simpa [taken, Function.update_of_ne] using horder
          · simpa [taken, Function.update_of_ne, ht] using horder
  · refine ⟨s, W, ?_, h⟩
    rw [doThrResume, hid]
    exact if_neg fun hcheck ↦ hcurco (hnone.mp hcheck)

theorem turn_step (h : s.Inv W) (hdrain : s.Draining thrid) :
    ∃ s' W', s.turn thrid = some s' ∧ s'.Inv W' := by
  obtain ⟨tmp, htmp⟩ := Option.ne_none_iff_exists'.mp hdrain.1
  have hlist : s.list (thrid, .tmp) = tmp := by simp [ThrTasks.list, htmp]
  have hcount := h.models.count_eq (thrid, .tmp)
  rw [hlist] at hcount
  cases hids : W (thrid, .tmp) with
  | nil =>
      rw [hids] at hcount
      have hempty := h.list_eq_empty hids
      rw [hlist] at hempty
      subst hempty
      refine ⟨s.setTmp thrid none s.nodes, W, ?_, ?_, h.small, h.sound, h.replayed, h.order⟩
      · have hzero : Slist.empty.count = 0 := rfl
        rw [turn, htmp, Option.bind_eq_bind, Option.bind_some, if_pos hzero,
          Slist.destruct_nil (Slist.rep_empty _)]
        rfl
      · have hsame : (s.setTmp thrid none s.nodes).list = s.list := by
          rw [list_setTmp]
          exact Function.update_eq_self_iff.mpr hlist.symm
        rw [hsame]
        exact h.models
  | cons coId ids =>
      have hne : tmp.count ≠ 0 := by
        rw [hcount, hids]
        exact Int.natCast_ne_zero.mpr (Nat.succ_ne_zero _)
      have hfront := h.models.front_eq hids
      obtain ⟨rest, nodes, hpop, hmodels⟩ := h.models.popFront hids (h.small _)
      rw [hlist] at hfront hpop
      obtain ⟨thread, hthread, hsound⟩ := (h.sound thrid).resume_step coId
      refine ⟨(s.setTmp thrid (some rest) nodes).setThread thrid thread (.resumed coId),
        Function.update W (thrid, .tmp) ids, ?_, ?_, ?_, ?_, ?_, ?_⟩
      · rw [turn, htmp]
        change (if tmp.count = 0 then _ else (tmp.front s.nodes).bind _) = _
        rw [if_neg hne, hfront, Option.bind_some, hpop]
        change ((s.threads thrid).step (.resume coId)).bind _ = _
        rw [hthread]
        rfl
      · change Slist.Models nodes (s.setTmp thrid (some rest) nodes).list _
        rw [list_setTmp]
        exact hmodels
      · refine forall_small_update h.small ?_
        have hsmall := h.small (thrid, .tmp)
        rw [hids, List.length_cons] at hsmall
        omega
      · exact sound_setThread h.sound hsound
      · exact replayed_setThread (e := .resumed coId) h.replayed hthread
      · intro t
        have horder := h.order t
        change s.added t = resumed (s.setThread thrid thread (.resumed coId)) t ++ _ ++ _
        rw [resumed_setThread]
        by_cases ht : t = thrid
        · subst ht
          rw [hids] at horder
          simpa [CoEvent.resumedId, Function.update_of_ne] using horder
        · simpa [Function.update_of_ne, ht] using horder

theorem coCall_step (h : s.Inv W) {c : CoCall F D} (hcan : (s.threads thrid).CanCall c) :
    (∃ s', s.coCall thrid c = some s' ∧ s'.Inv W) ∨
      (s.coCall thrid c = none ∧ (∃ f d, c = .create f d) ∧ (s.threads thrid).sched.Full) := by
  rcases (h.sound thrid).step_cases hcan with ⟨thread, hthread, hsound⟩ | ⟨hnone, hfull⟩
  · left
    refine ⟨s.setThread thrid thread (.called c), ?_, h.models, h.small,
      sound_setThread h.sound hsound, replayed_setThread (e := .called c) h.replayed hthread, ?_⟩
    · rw [coCall, hthread]
      rfl
    · intro t
      change s.added t = resumed (s.setThread thrid thread (.called c)) t ++ _ ++ _
      rw [resumed_setThread]
      simpa [CoEvent.resumedId] using h.order t
  · right
    refine ⟨?_, hfull⟩
    rw [coCall, hnone]
    rfl

end Inv

/-- What a move may find no room for: the `int` count of a list, or the table of coroutines. -/
def NoRoom (s : ThrTasks F D) (W : ℤ × IdList → List ℤ) : ThrMove F D → Prop
  | .addResume thrid _ => (W (thrid, .queue)).length + 1 = 2 ^ 31
  | .co thrid (.create _ _) => (s.threads thrid).sched.Full
  | _ => False

theorem Inv.step_cases (h : s.Inv W) {m : ThrMove F D} (hcan : s.CanMove m) :
    (∃ s' W', s.step m = some s' ∧ s'.Inv W') ∨ (s.step m = none ∧ s.NoRoom W m) := by
  cases m with
  | addResume thrid coId => exact h.addResume_step thrid coId
  | doThrResume thrid => exact Or.inl (h.doThrResume_step hcan)
  | turn thrid => exact Or.inl (h.turn_step hcan)
  | co thrid c =>
      rcases h.coCall_step hcan.2 with ⟨s', hs', hinv⟩ | ⟨hnone, ⟨f, d, rfl⟩, hfull⟩
      · exact Or.inl ⟨s', W, hs', hinv⟩
      · exact Or.inr ⟨hnone, hfull⟩

theorem inv_of_run {moves : List (ThrMove F D)}
    (hmoves : (system F D).Allowed System.anyStep initial moves)
    (hrun : (system F D).run initial moves = some s) : ∃ W, s.Inv W := by
  refine System.invariant_of_run (I := fun s ↦ ∃ W, s.Inv W) ?_ ⟨_, Inv.initial⟩ hmoves hrun
  rintro s m s' ⟨W, h⟩ hcan - hstep
  have hstep' : s.step m = some s' := hstep
  rcases h.step_cases hcan with ⟨t, W', ht, hinv⟩ | ⟨hnone, -⟩
  · rw [ht] at hstep'
    cases hstep'
    exact ⟨W', hinv⟩
  · rw [hnone] at hstep'
    cases hstep'

/-! ## The records -/

/-- What a thread has called of its own accord. -/
def ownCalls (s : ThrTasks F D) (thrid : ℤ) : List (CoCall F D) :=
  (s.events thrid).filterMap CoEvent.ownCall

theorem ownCalls_setThread (thread : Thread F D) (e : CoEvent F D) (t : ℤ) :
    (s.setThread thrid thread e).ownCalls t =
      s.ownCalls t ++ if t = thrid then e.ownCall.toList else [] := by
  unfold ownCalls
  change List.filterMap _ (Function.update s.events thrid (s.events thrid ++ [e]) t) = _
  by_cases ht : t = thrid
  · subst ht
    rw [Function.update_self, if_pos rfl, List.filterMap_append]
    cases hcall : e.ownCall <;> simp [hcall]
  · rw [Function.update_of_ne ht, if_neg ht, List.append_nil]

theorem records_addResume (h : s.addResume thrid coId = some s') :
    s'.added = s.added ∧ s'.events = s.events := by
  rw [addResume_eq] at h
  obtain ⟨r, -, rfl⟩ := Option.map_eq_some_iff.mp h
  exact ⟨rfl, rfl⟩

theorem records_doThrResume (h : s.doThrResume thrid = some s') :
    s'.added = s.added ∧ s'.events = s.events := by
  obtain ⟨id, -, h⟩ := Option.bind_eq_some_iff.mp h
  split at h
  · split at h
    · obtain ⟨r, -, h⟩ := Option.bind_eq_some_iff.mp h
      cases h
      exact ⟨rfl, rfl⟩
    · cases h
      exact ⟨rfl, rfl⟩
  · cases h
    exact ⟨rfl, rfl⟩

theorem records_turn (h : s.turn thrid = some s') (t : ℤ) :
    s'.added = s.added ∧ s'.ownCalls t = s.ownCalls t := by
  obtain ⟨tmp, -, h⟩ := Option.bind_eq_some_iff.mp h
  split at h
  · obtain ⟨nodes, -, h⟩ := Option.bind_eq_some_iff.mp h
    cases h
    exact ⟨rfl, rfl⟩
  · obtain ⟨coId, -, h⟩ := Option.bind_eq_some_iff.mp h
    obtain ⟨r, -, h⟩ := Option.bind_eq_some_iff.mp h
    obtain ⟨thread, -, h⟩ := Option.bind_eq_some_iff.mp h
    cases h
    refine ⟨rfl, ?_⟩
    rw [ownCalls_setThread]
    simp [CoEvent.ownCall, ownCalls, setTmp]

theorem records_coCall {c : CoCall F D} (h : s.coCall thrid c = some s') (t : ℤ) :
    s'.added = s.added ∧ s'.ownCalls t = s.ownCalls t ++ if t = thrid then [c] else [] := by
  obtain ⟨thread, -, h⟩ := Option.bind_eq_some_iff.mp h
  cases h
  exact ⟨rfl, ownCalls_setThread thread (.called c) t⟩

theorem added_of_step {m : ThrMove F D} (h : s.step m = some s') (t : ℤ) :
    s'.added t = s.added t ++ (m.addedId t).toList := by
  cases m with
  | addResume thrid coId =>
      obtain ⟨s₁, hadd, h⟩ := Option.bind_eq_some_iff.mp h
      cases h
      rw [← (records_addResume hadd).1]
      by_cases ht : t = thrid
      · subst ht
        simp [ThrMove.addedId]
      · simp [ThrMove.addedId, ht, Ne.symm ht]
  | doThrResume thrid =>
      rw [(records_doThrResume h).1]
      exact (List.append_nil _).symm
  | turn thrid =>
      rw [(records_turn h t).1]
      exact (List.append_nil _).symm
  | co thrid c =>
      rw [(records_coCall h t).1]
      exact (List.append_nil _).symm

theorem ownCalls_of_step {m : ThrMove F D} (h : s.step m = some s') (t : ℤ) :
    s'.ownCalls t = s.ownCalls t ++ (m.ownCall t).toList := by
  cases m with
  | addResume thrid coId =>
      obtain ⟨s₁, hadd, h⟩ := Option.bind_eq_some_iff.mp h
      cases h
      have hevents := (records_addResume hadd).2
      simp [ownCalls, hevents, ThrMove.ownCall]
  | doThrResume thrid =>
      have hevents := (records_doThrResume h).2
      simp [ownCalls, hevents, ThrMove.ownCall]
  | turn thrid =>
      rw [(records_turn h t).2]
      exact (List.append_nil _).symm
  | co thrid c =>
      rw [(records_coCall h t).2]
      by_cases ht : t = thrid
      · subst ht
        simp [ThrMove.ownCall]
      · simp [ThrMove.ownCall, ht, Ne.symm ht]

/-- Whatever the threads and coroutines do and in whatever order: the ids that `doThrResume` of a
thread has passed to `resume`, those left in its `tmp` and those in its list are the ids added for
it, in this order, and the coroutines of the thread are as these calls of `resume` and its own
calls, and no others, leave them.  Only a list of `2 ^ 31 - 1` ids cannot take another one. -/
theorem resumed_in_order {moves : List (ThrMove F D)}
    (hmoves : (system F D).Allowed System.anyStep initial moves)
    (hrun : (system F D).run initial moves = some s) :
    ∃ W, Slist.Models s.nodes s.list W ∧
      (∀ thrid, moves.filterMap (ThrMove.addedId thrid) =
        s.resumed thrid ++ W (thrid, .tmp) ++ W (thrid, .queue)) ∧
      (∀ thrid, CoEvent.replay (s.events thrid) = some (s.threads thrid) ∧
        s.ownCalls thrid = moves.filterMap (ThrMove.ownCall thrid)) ∧
      ∀ m, s.CanMove m → s.step m = none → s.NoRoom W m := by
  obtain ⟨W, h⟩ := inv_of_run hmoves hrun
  refine ⟨W, h.models, ?_, ?_, ?_⟩
  · intro thrid
    have hadded := System.record_of_run (fun (s : ThrTasks F D) m s'
      (hstep : (system F D).step s m = some s') ↦ added_of_step hstep thrid) hrun
    rw [← h.order thrid, hadded]
    rfl
  · intro thrid
    have hcalls := System.record_of_run (fun (s : ThrTasks F D) m s'
      (hstep : (system F D).step s m = some s') ↦ ownCalls_of_step hstep thrid) hrun
    refine ⟨h.replayed thrid, ?_⟩
    rw [hcalls]
    rfl
  · intro m hcan hnone
    rcases h.step_cases hcan with ⟨t, W', ht, -⟩ | ⟨-, hroom⟩
    · rw [hnone] at ht
      cases ht
    · exact hroom

/-- The coroutine `0` of thread `7` is woken by another thread; while it runs it adds itself
again, and another id is still in `tmp`. -/
def sampleMoves : List (ThrMove ℕ ℕ) :=
  [.co 7 .initEnv, .co 7 (.create 1 2), .addResume 7 0, .doThrResume 8, .addResume 7 5,
    .doThrResume 7, .turn 8, .turn 7, .addResume 7 0, .doThrResume 7, .addResume 8 3, .co 7 .yield]

theorem resumed_in_order_sampleMoves :
    ∃ s, (system ℕ ℕ).run initial sampleMoves = some s ∧
      (s.resumed 7 = [0] ∧ CoEvent.replay (s.events 7) = some (s.threads 7)) ∧
      ∃ W, Slist.Models s.nodes s.list W ∧
        [0, 5, 0] = s.resumed 7 ++ W (7, .tmp) ++ W (7, .queue) := by
  have hmap : ((system ℕ ℕ).run initial sampleMoves).map (fun s ↦ s.resumed 7) = some [0] := by
    decide +kernel
  obtain ⟨s, hs, hvalue⟩ := Option.map_eq_some_iff.mp hmap
  obtain ⟨W, hmodels, horder, hthreads, -⟩ := resumed_in_order (by decide +kernel) hs
  exact ⟨s, hs, ⟨hvalue, (hthreads 7).1⟩, W, hmodels, horder 7⟩

end ThrTasks

end Coroutine

end Slience
