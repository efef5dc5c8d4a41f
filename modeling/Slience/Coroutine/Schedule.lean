import Slience.Lib.Bytes
import Slience.Lib.Heap
import Slience.Lib.Run

/-!
# The coroutines of one thread

The `_schedule_` of a thread and the functions of `basecoroutine` on it (`coroutine.hpp` and
`co_linux_impl.hpp`).  Coroutine objects are cells of a heap; a pointer that is null, an index
outside of `_co` and an `int` that overflows have no result.  Stacks and machine contexts are
left out: a coroutine that is switched to is the one in `_curco`, and the two local variables of
`resume` that are read after the switch are kept in `frame`.
-/

namespace Slience

namespace Coroutine

inductive CoStatus where
  | ready
  | running
  | suspend
  | dead
  deriving DecidableEq, Repr

structure Co (F D : Type) where
  id : ℤ
  status : CoStatus
  function : F
  data : D

structure Schedule (F D : Type) where
  cap : ℤ
  nco : ℤ
  co : Option (List (Option ℕ))
  curco : Option ℕ
  freeid : List ℤ
  objs : Heap (Co F D)
  /-- The variables `co` and `co_id` of the `resume` that waits for its coroutine. -/
  frame : Option (ℕ × ℤ)

variable {F D : Type}

namespace Schedule

def initial : Schedule F D := ⟨0, 0, none, none, [], Heap.empty, none⟩

/-- The number of pointers that `_co` has room for. -/
def size (s : Schedule F D) : ℕ := (s.co.getD []).length

def slot (s : Schedule F D) (id : ℤ) : Option (Option ℕ) :=
  if 0 ≤ id then (s.co.getD [])[id.toNat]? else none

def setSlot (s : Schedule F D) (id : ℤ) (p : Option ℕ) : Option (Schedule F D) :=
  if (s.slot id).isSome then some { s with co := s.co.map (·.set id.toNat p) } else none

/-- `co->_status = status`. -/
def setStatus (s : Schedule F D) (p : ℕ) (status : CoStatus) : Option (Schedule F D) := do
  let c ← s.objs.read p
  let objs ← s.objs.write p { c with status := status }
  some { s with objs := objs }

def defaultCoroutine : ℕ := 1024

def initEnv (s : Schedule F D) : Schedule F D × Bool :=
  match s.co with
  | none =>
      ({ s with
          curco := none
          cap := defaultCoroutine
          co := some (List.replicate defaultCoroutine none) }, true)
  | some _ => (s, false)

/-- A new object under the id `id`, its address in `_co[id]`. -/
def place (s : Schedule F D) (id : ℤ) (routine : F) (data : D) : Option (Schedule F D) := do
  let s ← s.setSlot id (some s.objs.fresh)
  some { s with objs := s.objs.alloc ⟨id, .ready, routine, data⟩ }

/-- `realloc` of `_co` to twice its size, the new half set to null. -/
def grow (s : Schedule F D) : Option (Schedule F D) := do
  let cap ← addInt s.cap s.cap
  some { s with
    co := s.co.map (· ++ List.replicate s.cap.toNat none)
    cap := cap }

/-- `_alloc_co_`, with the id of the object. -/
def allocCo (s : Schedule F D) (routine : F) (data : D) : Option (Schedule F D × ℤ) :=
  match s.freeid.getLast? with
  | some id => do
      let s ← { s with freeid := s.freeid.dropLast }.place id routine data
      some (s, id)
  | none =>
      if s.cap ≤ s.nco then do
        let grown ← s.grow
        let nco ← addInt s.nco 1
        -- the pointer goes to `_co[_cap]`, the id is `_nco`
        let placed ← grown.setSlot s.cap (some s.objs.fresh)
        some ({ placed with
          objs := s.objs.alloc ⟨s.nco, .ready, routine, data⟩
          nco := nco }, s.nco)
      else do
        let nco ← addInt s.nco 1
        let placed ← { s with nco := nco }.place s.nco routine data
        some (placed, s.nco)

def create (s : Schedule F D) (routine : F) (data : D) : Option (Schedule F D × ℤ) :=
  match s.co with
  | none => some (s, -1)
  | some _ => s.allocCo routine data

/-- What `resume` and `destroy` do with a coroutine that is done. -/
def release (s : Schedule F D) (p : ℕ) (id : ℤ) : Option (Schedule F D) := do
  let objs ← s.objs.free p
  let s ← { s with objs := objs }.setSlot id none
  some { s with freeid := s.freeid ++ [id] }

/-- `resume` up to the switch. -/
def resume (s : Schedule F D) (coId : ℤ) : Option (Schedule F D) :=
  match s.curco with
  | some _ => some s
  | none =>
      if coId < 0 ∨ s.cap ≤ coId then some s
      else do
        match ← s.slot coId with
        | none => some s
        | some p => do
            let c ← s.objs.read p
            match c.status with
            | .suspend | .ready => do
                let s ← s.setStatus p .running
                some { s with curco := some p, frame := some (p, coId) }
            | .running | .dead => some s

/-- `resume` after the switch back. -/
def resumed (s : Schedule F D) : Option (Schedule F D) := do
  let (p, coId) ← s.frame
  let c ← s.objs.read p
  let s ← if c.status = .dead then s.release p coId else some s
  some { s with curco := none, frame := none }

def yield (s : Schedule F D) : Option (Schedule F D) :=
  match s.curco with
  | none => some s
  | some p => do
      let s ← s.setStatus p .suspend
      s.resumed

/-- The end of `pub_coroutine`: the function of the running coroutine has returned. -/
def finish (s : Schedule F D) : Option (Schedule F D) :=
  match s.curco with
  | none => some s
  | some p => do
      let s ← s.setStatus p .dead
      s.resumed

/-- Whether `_curco->_id == co_id`. -/
def isCurrent (s : Schedule F D) (coId : ℤ) : Option Bool :=
  match s.curco with
  | none => some false
  | some p => (s.objs.read p).map fun c ↦ decide (c.id = coId)

def destroy (s : Schedule F D) (coId : ℤ) : Option (Schedule F D) := do
  if ← s.isCurrent coId then some s
  else if 0 ≤ coId ∧ coId < s.cap then
    match ← s.slot coId with
    | none => some s
    | some p => s.release p coId
  else some s

/-- The loop of `close` over the first `n` pointers. -/
def freeSlots (t : List (Option ℕ)) : ℕ → Heap (Co F D) → Option (Heap (Co F D))
  | 0, h => some h
  | n + 1, h => do
      let h ← freeSlots t n h
      match ← t[n]? with
      | none => some h
      | some p => h.free p

def close (s : Schedule F D) : Option (Schedule F D) := do
  let objs ←
    match s.curco with
    | none => freeSlots (s.co.getD []) s.cap.toNat s.objs
    | some _ => some s.objs
  some { s with
    freeid := []
    nco := 0
    cap := 0
    curco := none
    co := none
    objs := objs }

end Schedule

/-! ## Runs -/

inductive CoCall (F D : Type) where
  | initEnv
  | create (routine : F) (data : D)
  | resume (coId : ℤ)
  | yield
  | finish
  | destroy (coId : ℤ)
  | close
  deriving DecidableEq

/-- A coroutine that was created and is neither finished nor destroyed: the id that `create`
returned for it, its object and what it was created with. -/
structure LiveCo (F D : Type) where
  id : ℤ
  co : ℕ
  function : F
  data : D

/-- A thread with the coroutines its program has, as the results of its calls tell: this is
what the tables of the schedule are compared with. -/
structure Thread (F D : Type) where
  sched : Schedule F D
  live : List (LiveCo F D)
  running : Option ℤ

namespace Thread

def initial : Thread F D := ⟨Schedule.initial, [], none⟩

def ids (L : List (LiveCo F D)) : List ℤ := L.map (·.id)

/-- The coroutines without the one of this id. -/
def without (L : List (LiveCo F D)) (id : ℤ) : List (LiveCo F D) := L.filter (·.id ≠ id)

/-- `create` returns a negative number when there is no environment. -/
def created (s : Thread F D) (routine : F) (data : D) (sched : Schedule F D) (id : ℤ) :
    Thread F D :=
  if id < 0 then { s with sched := sched }
  else { s with sched := sched, live := s.live ++ [⟨id, s.sched.objs.fresh, routine, data⟩] }

/-- The coroutine that runs after a `resume`. -/
def resumedId (s : Thread F D) (coId : ℤ) : Option ℤ :=
  match s.running with
  | some id => some id
  | none => if coId ∈ ids s.live then some coId else none

/-- The coroutines that are left when the running one has finished. -/
def finished (s : Thread F D) : List (LiveCo F D) :=
  match s.running with
  | some id => without s.live id
  | none => s.live

def step (s : Thread F D) : CoCall F D → Option (Thread F D)
  | .initEnv => some { s with sched := s.sched.initEnv.1 }
  | .create routine data => do
      let (sched, id) ← s.sched.create routine data
      some (s.created routine data sched id)
  | .resume coId => do
      let sched ← s.sched.resume coId
      some { s with sched := sched, running := s.resumedId coId }
  | .yield => do
      let sched ← s.sched.yield
      some { s with sched := sched, running := none }
  | .finish => do
      let sched ← s.sched.finish
      some { s with sched := sched, live := s.finished, running := none }
  | .destroy coId => do
      let sched ← s.sched.destroy coId
      some { s with
        sched := sched
        live := if s.running = some coId then s.live else without s.live coId }
  | .close => do
      let sched ← s.sched.close
      some { s with sched := sched, live := [] }

/-- A function can only return in a coroutine that runs, and `close` is called when none
does. -/
def CanCall (s : Thread F D) : CoCall F D → Prop
  | .finish => s.sched.curco ≠ none
  | .close => s.sched.curco = none
  | _ => True

instance (s : Thread F D) (c : CoCall F D) : Decidable (s.CanCall c) :=
  match c with
  | .finish => inferInstanceAs (Decidable (s.sched.curco ≠ none))
  | .close => inferInstanceAs (Decidable (s.sched.curco = none))
  | .initEnv | .create _ _ | .resume _ | .yield | .destroy _ => isTrue trivial

def system (F D : Type) : System (Thread F D) (CoCall F D) where
  enabled := CanCall
  step := step

instance (s : Thread F D) (c : CoCall F D) : Decidable ((system F D).enabled s c) :=
  inferInstanceAs (Decidable (s.CanCall c))

end Thread

end Coroutine

end Slience
