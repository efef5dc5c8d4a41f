import Slience.Lib.Circular

/-!
# The circular queue

`base::circular_queue` (`circular_queue.hpp`) keeps its elements in `_cap` places, one more than
it can hold: `_head` is the place of the first and `_tail` the place behind the last.  A place
that no element was assigned to yet is `none`; reading it has no result.  An element that was
popped leaves its place as it was.

The elements that a queue holds, in the order in which they come out, are its `contents`; each
operation is described by what it does to them.
-/

namespace Slience

/-- A queue that was constructed for `cap` elements; `_cap` is `cap + 1`. -/
structure CircularQueue (cap : ℕ) (α : Type) where
  head : Fin (cap + 1)
  tail : Fin (cap + 1)
  element : Fin (cap + 1) → Option α

namespace CircularQueue

variable {cap : ℕ} {α : Type}

/-- `circular_queue::circular_queue` -/
def initial : CircularQueue cap α := ⟨0, 0, fun _ ↦ none⟩

/-- What the constructor without an argument makes room for. -/
def defaultCapacity : ℕ := 1024

def size (q : CircularQueue cap α) : ℕ := (cap + 1 - q.head + q.tail) % (cap + 1)

def full (q : CircularQueue cap α) : Bool := q.size = cap + 1 - 1

def empty (q : CircularQueue cap α) : Bool := q.head = q.tail

/-- `circular_queue::pop_front(T& t)`, with the new value of `t`. -/
def popFront (q : CircularQueue cap α) (t : α) : Option (Bool × α × CircularQueue cap α) :=
  if q.head ≠ q.tail then do
    let t ← q.element q.head
    some (true, t, { q with head := q.head + 1 })
  else some (false, t, q)

/-- `circular_queue::push_back` -/
def pushBack (q : CircularQueue cap α) (t : α) : Bool × CircularQueue cap α :=
  if q.full then (false, q)
  else
    (true, { q with
      element := Function.update q.element q.tail (some t)
      tail := q.tail + 1 })

def front (q : CircularQueue cap α) : Option α := q.element q.head

def back (q : CircularQueue cap α) : Option α := q.element (q.tail - 1)

/-- `circular_queue::pop_front()` -/
def popFrontVoid (q : CircularQueue cap α) : CircularQueue cap α :=
  if q.head ≠ q.tail then { q with head := q.head + 1 } else q

/-- `circular_queue::pop_back()` -/
def popBackVoid (q : CircularQueue cap α) : CircularQueue cap α :=
  if q.head ≠ q.tail then { q with tail := q.tail - 1 } else q

/-- `circular_queue::pop_back(T& t)`, with the new value of `t`.  Only the queue without elements
comes to a `return`. -/
def popBack (q : CircularQueue cap α) (t : α) :
    Option (Option Bool × α × CircularQueue cap α) :=
  if q.head ≠ q.tail then do
    let t ← q.element (q.tail - 1)
    some (none, t, { q with tail := q.tail - 1 })
  else some (some false, t, q)

/-- The loop of `clear`, as long as `n` rounds are enough. -/
def clearLoop : ℕ → CircularQueue cap α → Option (CircularQueue cap α)
  | 0, _ => none
  | n + 1, q => if q.head = q.tail then some q else clearLoop n { q with head := q.head + 1 }

/-- `circular_queue::clear`, whose loop ends after a round for each place. -/
def clear (q : CircularQueue cap α) : Option (CircularQueue cap α) := q.clearLoop (cap + 1)

/-- The places from `_head` up to `_tail`. -/
def contents (q : CircularQueue cap α) : List (Option α) :=
  (Circular.toList q.element q.head).take q.size

variable {q q' : CircularQueue cap α} {t : α} {xs : List (Option α)}

theorem size_eq (q : CircularQueue cap α) : q.size = (q.tail - q.head).val := by
  rw [size, Fin.val_sub]

theorem tail_eq (q : CircularQueue cap α) : q.tail = q.head + (q.tail - q.head) := by
  rw [add_sub_cancel]

theorem size_le (q : CircularQueue cap α) : q.size ≤ cap := by
  rw [size_eq]
  exact Nat.lt_succ_iff.mp (q.tail - q.head).isLt

@[simp] theorem length_contents (q : CircularQueue cap α) : q.contents.length = q.size := by
  have hle := q.size_le
  rw [contents, List.length_take, Circular.length_toList]
  omega

theorem full_iff : q.full = true ↔ q.contents.length = cap := by
  rw [length_contents, full, decide_eq_true_iff, Nat.add_sub_cancel]

theorem empty_iff : q.empty = true ↔ q.contents = [] := by
  rw [← List.length_eq_zero_iff, length_contents, size_eq, empty, decide_eq_true_iff,
    Fin.val_eq_zero_iff, sub_eq_zero]
  exact eq_comm

@[simp] theorem contents_initial : (initial : CircularQueue cap α).contents = [] := by
  rw [← empty_iff, empty, decide_eq_true_iff]
  rfl

/-- A full queue is left as it was, and the caller is told so by the result alone. -/
theorem pushBack_full (hfull : q.full = true) (t : α) : q.pushBack t = (false, q) := by
  rw [pushBack, if_pos hfull]

theorem contents_pushBack (hroom : q.full = false) (t : α) :
    (q.pushBack t).2.contents = q.contents ++ [some t] := by
  have hlt : (q.tail - q.head).val < cap := by
    have hle := q.size_le
    have hne : q.size ≠ cap := by
      rw [← length_contents]
      exact fun h ↦ Bool.noConfusion (hroom.symm.trans (full_iff.mpr h))
    rw [size_eq] at hle hne
    omega
  rw [pushBack, if_neg (by rw [hroom]; exact Bool.noConfusion), contents, contents, size_eq,
    size_eq]
  dsimp only
  rw [add_sub_right_comm, Fin.val_add_one_of_lt (Fin.lt_def.mpr hlt), q.tail_eq,
    Circular.toList_update, add_sub_cancel_left, List.take_add_one, List.take_set_of_le le_rfl,
    List.getElem?_set_self (by rw [Circular.length_toList]; omega)]
  rfl

theorem popFront_cons {x : α} (hcons : q.contents = some x :: xs) (t : α) :
    ∃ q', q.popFront t = some (true, x, q') ∧ q'.contents = xs := by
  have hne : q.head ≠ q.tail := by
    intro heq
    have hnil : q.contents = [] := by rw [← empty_iff, empty, decide_eq_true_iff, heq]
    rw [hnil] at hcons
    cases hcons
  have hpos : q.tail - q.head ≠ 0 := sub_ne_zero.mpr hne.symm
  have hsize : ({ q with head := q.head + 1 } : CircularQueue cap α).size + 1 = q.size := by
    rw [size_eq, size_eq]
    dsimp only
    rw [sub_add_eq_sub_sub, Fin.val_sub_one_of_ne_zero hpos]
    exact Nat.sub_add_cancel (Nat.one_le_iff_ne_zero.mpr (Fin.val_ne_zero_iff.mpr hpos))
  rw [contents, Circular.toList_eq_cons, ← hsize, List.take_succ_cons, List.cons.injEq] at hcons
  obtain ⟨hfirst, hrest⟩ := hcons
  refine ⟨{ q with head := q.head + 1 }, ?_, ?_⟩
  · rw [popFront, if_pos hne, hfirst]
    rfl
  · rw [contents, Circular.toList_add_one, List.take_append_of_le_length, hrest]
    rw [List.length_tail, Circular.length_toList]
    have hle := q.size_le
    omega

end CircularQueue

end Slience
