import Slience.Base.SlistModel
import Slience.Coroutine.Schedule

/-!
# Tasks on coroutines

`CoroutineTask` of `coroutine.hpp`: a task is run by a coroutine whose function
`_co_task_func_` loops over the tasks it is given.  `doTask` hands it the address of its local
variable `task`; such a variable is a cell that is allocated by the call and freed when the
call returns, so that reading it later has no result.  Where a coroutine stands in its function,
with the local variables it still needs, is its `CoPoint`.

A body is a sequence of steps between the call of `task->func` and its return; the steps are
those of a run.
-/

namespace Slience

namespace Coroutine

structure CoTask (G P : Type) where
  func : G
  p : P
  deriving DecidableEq

/-- `co_task_wrapper`; `task` is the address of a variable of `doTask`. -/
structure CoTaskWrapper where
  coId : ℤ
  task : Option ℕ

/-- The only function that coroutines are created with here. -/
inductive CoFunc where
  | coTaskFunc
  deriving DecidableEq

/-- Where a coroutine stands: it has not started, it is inside of `task->func(task->p)`, or it is
parked in the `yield` at the end of the loop. -/
inductive CoPoint where
  | entry
  | body (wrapper task : ℕ)
  | parked (wrapper : ℕ)
  deriving DecidableEq

/-- `gworktasklist` and `gallcolist`. -/
inductive TaskList where
  | work
  | all
  deriving DecidableEq

structure CoroutineTask (G P : Type) where
  sched : Schedule CoFunc ℕ
  points : ℕ → CoPoint
  tasks : Heap (CoTask G P)
  wrappers : Heap CoTaskWrapper
  freetask : List ℕ
  freeco : List ℕ
  nodes : Heap (Node ℕ)
  lists : TaskList → Slist
  /-- The variables `task` of the calls of `doTask`; null is `none`. -/
  vars : Heap (Option ℕ)
  /-- The variable of the `doTask` that waits for its coroutine. -/
  frame : Option ℕ
  /-- The calls `task->func(task->p)` so far. -/
  calls : List (CoTask G P)

variable {G P : Type}

namespace CoroutineTask

/-- A thread with an environment and no tasks. -/
def initial : CoroutineTask G P where
  sched := Schedule.initial.initEnv.1
  points := fun _ ↦ .entry
  tasks := Heap.empty
  wrappers := Heap.empty
  freetask := []
  freeco := []
  nodes := Heap.empty
  lists := fun _ ↦ Slist.empty
  vars := Heap.empty
  frame := none
  calls := []

def pushBack (s : CoroutineTask G P) (l : TaskList) (p : ℕ) : Option (CoroutineTask G P) := do
  let (list, nodes) ← (s.lists l).pushBack s.nodes p
  some { s with lists := Function.update s.lists l list, nodes := nodes }

/-- A task object from `gfreetaskvec` or a new one, with `func` and `p`. -/
def newTask (s : CoroutineTask G P) (func : G) (p : P) : Option (CoroutineTask G P × ℕ) :=
  match s.freetask.getLast? with
  | some task => do
      let tasks ← s.tasks.write task ⟨func, p⟩
      some ({ s with tasks := tasks, freetask := s.freetask.dropLast }, task)
  | none => some ({ s with tasks := s.tasks.alloc ⟨func, p⟩ }, s.tasks.fresh)

def addTask (s : CoroutineTask G P) (func : G) (p : P) : Option (CoroutineTask G P) := do
  let (s, task) ← s.newTask func p
  s.pushBack .work task

/-- `_get_task` -/
def getTask (s : CoroutineTask G P) : Option (CoroutineTask G P × Option ℕ) :=
  if (s.lists .work).count = 0 then some (s, none)
  else do
    let task ← (s.lists .work).front s.nodes
    let (list, nodes) ← (s.lists .work).popFront s.nodes
    some ({ s with lists := Function.update s.lists .work list, nodes := nodes }, some task)

/-- A new wrapper and its coroutine. -/
def newWrapper (s : CoroutineTask G P) : Option (CoroutineTask G P × ℕ) := do
  let wrapper := s.wrappers.fresh
  let (sched, coId) ← s.sched.create .coTaskFunc wrapper
  let s ← { s with sched := sched, wrappers := s.wrappers.alloc ⟨coId, none⟩ }.pushBack .all wrapper
  some (s, wrapper)

/-- `wrapper->task = var` -/
def setVar (s : CoroutineTask G P) (wrapper : ℕ) (var : Option ℕ) : Option (CoroutineTask G P) := do
  let w ← s.wrappers.read wrapper
  let wrappers ← s.wrappers.write wrapper { w with task := var }
  some { s with wrappers := wrappers }

/-- `_get_co_task_wrapper` -/
def getCoTaskWrapper (s : CoroutineTask G P) : Option (CoroutineTask G P × ℕ) := do
  let (s, wrapper) ←
    match s.freeco.getLast? with
    | some wrapper => some ({ s with freeco := s.freeco.dropLast }, wrapper)
    | none => s.newWrapper
  let s ← s.setVar wrapper none
  some (s, wrapper)

/-- The `doTask` whose `resume` has returned returns too. -/
def returned (s : CoroutineTask G P) : Option (CoroutineTask G P) :=
  match s.frame with
  | none => some s
  | some var => do
      let vars ← s.vars.free var
      some { s with vars := vars, frame := none }

/-- The coroutine `co` yields; it continues at `point`. -/
def yieldAt (s : CoroutineTask G P) (co : ℕ) (point : CoPoint) : Option (CoroutineTask G P) := do
  let sched ← s.sched.yield
  { s with sched := sched, points := Function.update s.points co point }.returned

/-- The end of the loop of `_co_task_func_`. -/
def park (s : CoroutineTask G P) (co wrapper : ℕ) : Option (CoroutineTask G P) :=
  { s with freeco := s.freeco ++ [wrapper] }.yieldAt co (.parked wrapper)

/-- The loop of `_co_task_func_` up to the call of `task->func`. -/
def loop (s : CoroutineTask G P) (co wrapper : ℕ) : Option (CoroutineTask G P) := do
  let w ← s.wrappers.read wrapper
  match w.task with
  | none => do
      let wrappers ← s.wrappers.free wrapper
      let sched ← s.sched.finish
      { s with wrappers := wrappers, sched := sched }.returned
  | some var =>
      match ← s.vars.read var with
      | some task => do
          let t ← s.tasks.read task
          some { s with
            points := Function.update s.points co (.body wrapper task)
            calls := s.calls ++ [t] }
      | none => s.park co wrapper

/-- What a coroutine does when it is switched to. -/
def proceed (s : CoroutineTask G P) (co : ℕ) : Option (CoroutineTask G P) :=
  match s.points co with
  | .entry => do
      let c ← s.sched.objs.read co
      s.loop co c.data
  | .body _ _ => some s
  | .parked wrapper => s.loop co wrapper

/-- `Coroutine::resume`, called by a `doTask` with the variable `frame` or by nobody's. -/
def resume (s : CoroutineTask G P) (coId : ℤ) (frame : Option ℕ) : Option (CoroutineTask G P) := do
  let sched ← s.sched.resume coId
  match s.sched.curco, sched.curco with
  | none, some co => ({ s with sched := sched, frame := frame } : CoroutineTask G P).proceed co
  | none, none => ({ s with sched := sched, frame := frame } : CoroutineTask G P).returned
  | some _, _ => some { s with sched := sched }

/-- The rest of `doTask` when it has a task. -/
def launch (s : CoroutineTask G P) (task : ℕ) : Option (CoroutineTask G P) := do
  let (s, wrapper) ← s.getCoTaskWrapper
  let var := s.vars.fresh
  let s ← { s with vars := s.vars.alloc (some task) }.setVar wrapper (some var)
  let w ← s.wrappers.read wrapper
  s.resume w.coId (some var)

/-- `doTask()` -/
def doTask (s : CoroutineTask G P) : Option (CoroutineTask G P) :=
  match s.sched.curco with
  | some _ => some s
  | none => do
      match ← s.getTask with
      | (s, none) => some s
      | (s, some task) => s.launch task

/-- `doTask(func, p)` -/
def doTaskOf (s : CoroutineTask G P) (func : G) (p : P) : Option (CoroutineTask G P) :=
  match s.sched.curco with
  | some _ => some s
  | none => do
      let (s, task) ← s.newTask func p
      s.launch task

/-- The function of the running task calls `Coroutine::yield`. -/
def bodyYield (s : CoroutineTask G P) : Option (CoroutineTask G P) := do
  let co ← s.sched.curco
  s.yieldAt co (s.points co)

/-- The function of the running task returns. -/
def bodyReturn (s : CoroutineTask G P) : Option (CoroutineTask G P) := do
  let co ← s.sched.curco
  match s.points co with
  | .body wrapper task =>
      ({ s with freetask := s.freetask ++ [task] } : CoroutineTask G P).park co wrapper
  | .entry | .parked _ => none

end CoroutineTask

/-! ## Runs -/

inductive TaskCall (G P : Type) where
  | addTask (func : G) (p : P)
  | doTask
  | doTaskOf (func : G) (p : P)
  | resume (coId : ℤ)
  | bodyYield
  | bodyReturn
  deriving DecidableEq

/-- A thread with what its program has asked for: the tasks queued so far, those that wait, and
those that a `doTask` has taken, with the flag of those it took from the queue. -/
structure TaskThread (G P : Type) where
  co : CoroutineTask G P
  added : List (CoTask G P)
  waiting : List (CoTask G P)
  taken : List (Bool × CoTask G P)

namespace TaskThread

def initial : TaskThread G P := ⟨CoroutineTask.initial, [], [], []⟩

/-- The first task of the queue is taken. -/
def takeFirst (s : TaskThread G P) : TaskThread G P :=
  match s.waiting with
  | [] => s
  | t :: ts => { s with waiting := ts, taken := s.taken ++ [(true, t)] }

def step (s : TaskThread G P) : TaskCall G P → Option (TaskThread G P)
  | .addTask func p => do
      let co ← s.co.addTask func p
      some { s with co := co, added := s.added ++ [⟨func, p⟩], waiting := s.waiting ++ [⟨func, p⟩] }
  | .doTask => do
      let co ← s.co.doTask
      some { s.takeFirst with co := co }
  | .doTaskOf func p => do
      let co ← s.co.doTaskOf func p
      some { s with co := co, taken := s.taken ++ [(false, ⟨func, p⟩)] }
  | .resume coId => do
      let co ← s.co.resume coId none
      some { s with co := co }
  | .bodyYield => do
      let co ← s.co.bodyYield
      some { s with co := co }
  | .bodyReturn => do
      let co ← s.co.bodyReturn
      some { s with co := co }

def InBody : CoPoint → Prop
  | .body _ _ => True
  | .entry | .parked _ => False

/-- `doTask` is called by the scheduler, `resume` for coroutines that are suspended inside of a
body, and the function of a task yields or returns while it runs. -/
def CanCall (s : TaskThread G P) : TaskCall G P → Prop
  | .addTask _ _ => True
  | .doTask | .doTaskOf _ _ => s.co.sched.curco = none
  | .resume coId => ∃ co ∈ (s.co.sched.slot coId).join,
      InBody (s.co.points co) ∧ s.co.sched.curco ≠ some co
  | .bodyYield | .bodyReturn => ∃ co ∈ s.co.sched.curco, InBody (s.co.points co)

instance (point : CoPoint) : Decidable (InBody point) :=
  match point with
  | .body _ _ => isTrue trivial
  | .entry | .parked _ => isFalse not_false

instance {o : Option ℕ} {q : ℕ → Prop} [DecidablePred q] : Decidable (∃ co ∈ o, q co) :=
  match o with
  | none => isFalse (by simp)
  | some co => decidable_of_iff (q co) (by simp)

instance (s : TaskThread G P) (c : TaskCall G P) : Decidable (s.CanCall c) :=
  match c with
  | .addTask _ _ => isTrue trivial
  | .doTask | .doTaskOf _ _ => inferInstanceAs (Decidable (s.co.sched.curco = none))
  | .resume coId => inferInstanceAs (Decidable (∃ co ∈ (s.co.sched.slot coId).join,
      InBody (s.co.points co) ∧ s.co.sched.curco ≠ some co))
  | .bodyYield | .bodyReturn =>
      inferInstanceAs (Decidable (∃ co ∈ s.co.sched.curco, InBody (s.co.points co)))

def system (G P : Type) : System (TaskThread G P) (TaskCall G P) where
  enabled := CanCall
  step := step

instance (s : TaskThread G P) (c : TaskCall G P) : Decidable ((system G P).enabled s c) :=
  inferInstanceAs (Decidable (s.CanCall c))

end TaskThread

end Coroutine

end Slience
