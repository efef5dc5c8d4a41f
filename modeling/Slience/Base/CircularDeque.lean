import Slience.Base.CircularQueue
import Slience.Lib.Run

/-!
# The circular queue as a deque

All operations of `base::circular_queue`, at both ends, on a family of queues on which they are
called in any order; `swap` exchanges two queues together with their capacities.  A result that
the caller gets is appended to `results`, for the forms that take a variable with the value that
the variable has then.  A way through a function without a `return` has no result.
-/

namespace Slience

/-- The operations on a family of queues. -/
inductive CircularQueueMove (ι α : Type)
  | pushBack (i : ι) (t : α)
  | popFrontVoid (i : ι)
  | popFront (i : ι) (t : α)
  | popBackVoid (i : ι)
  | popBack (i : ι) (t : α)
  | clear (i : ι)
  | swap (i j : ι)
  deriving DecidableEq

structure CircularQueues (ι α : Type) where
  queue : ι → Σ cap, CircularQueue cap α
  results : List (Bool × Option α)

/-- At most `cap` elements in their order. -/
structure Deque (α : Type) where
  cap : ℕ
  elements : List α
  deriving DecidableEq

structure Deques (ι α : Type) where
  deque : ι → Deque α
  results : List (Bool × Option α)

namespace Deques

variable {ι α : Type} [DecidableEq ι]

def initial (caps : ι → ℕ) : Deques ι α := ⟨fun i ↦ ⟨caps i, []⟩, []⟩

def set (d : Deques ι α) (i : ι) (xs : List α) : ι → Deque α :=
  Function.update d.deque i ⟨(d.deque i).cap, xs⟩

def step (d : Deques ι α) : CircularQueueMove ι α → Deques ι α
  | .pushBack i t =>
      let xs := (d.deque i).elements
      if xs.length < (d.deque i).cap then ⟨d.set i (xs ++ [t]), d.results ++ [(true, none)]⟩
      else ⟨d.deque, d.results ++ [(false, none)]⟩
  | .popFrontVoid i => ⟨d.set i (d.deque i).elements.tail, d.results⟩
  | .popFront i t =>
      let xs := (d.deque i).elements
      ⟨d.set i xs.tail, d.results ++ [(!xs.isEmpty, some (xs.head?.getD t))]⟩
  | .popBackVoid i => ⟨d.set i (d.deque i).elements.dropLast, d.results⟩
  | .popBack i t =>
      let xs := (d.deque i).elements
      ⟨d.set i xs.dropLast, d.results ++ [(!xs.isEmpty, some (xs.getLast?.getD t))]⟩
  | .clear i => ⟨d.set i [], d.results⟩
  | .swap i j => ⟨d.deque ∘ Equiv.swap i j, d.results⟩

end Deques

namespace CircularQueues

variable {ι α : Type}

/-- A queue for each capacity, as the constructor leaves it. -/
def initial (caps : ι → ℕ) : CircularQueues ι α :=
  ⟨fun i ↦ ⟨caps i, CircularQueue.initial⟩, []⟩

def set [DecidableEq ι] (s : CircularQueues ι α) (i : ι)
    (q : CircularQueue (s.queue i).1 α) : ι → Σ cap, CircularQueue cap α :=
  Function.update s.queue i ⟨(s.queue i).1, q⟩

def step [DecidableEq ι] (s : CircularQueues ι α) :
    CircularQueueMove ι α → Option (CircularQueues ι α)
  | .pushBack i t =>
      let pushed := (s.queue i).2.pushBack t
      some ⟨s.set i pushed.2, s.results ++ [(pushed.1, none)]⟩
  | .popFrontVoid i => some ⟨s.set i (s.queue i).2.popFrontVoid, s.results⟩
  | .popFront i t =>
      ((s.queue i).2.popFront t).map fun popped ↦
        ⟨s.set i popped.2.2, s.results ++ [(popped.1, some popped.2.1)]⟩
  | .popBackVoid i => some ⟨s.set i (s.queue i).2.popBackVoid, s.results⟩
  | .popBack i t =>
      ((s.queue i).2.popBack t).bind fun popped ↦
        popped.1.map fun result ↦
          ⟨s.set i popped.2.2, s.results ++ [(result, some popped.2.1)]⟩
  | .clear i => (s.queue i).2.clear.map fun q ↦ ⟨s.set i q, s.results⟩
  | .swap i j => some ⟨s.queue ∘ Equiv.swap i j, s.results⟩

def system (ι α : Type) [DecidableEq ι] : System (CircularQueues ι α) (CircularQueueMove ι α) where
  enabled := fun _ _ ↦ True
  step := step

/-- What a caller sees of a queue is what the deque has. -/
structure Shows (q : Σ cap, CircularQueue cap α) (d : Deque α) : Prop where
  cap_eq : q.1 = d.cap
  contents_eq : q.2.contents = d.elements.map some
  head_lt : q.2.head.val < d.cap + 1
  tail_lt : q.2.tail.val < d.cap + 1
  size_eq : q.2.size = d.elements.length
  size_le : q.2.size ≤ d.cap
  empty_iff : q.2.empty = true ↔ d.elements = []
  full_iff : q.2.full = true ↔ d.elements.length = d.cap
  front : d.elements ≠ [] → q.2.front = d.elements.head?
  back : d.elements ≠ [] → q.2.back = d.elements.getLast?

def Agrees (s : CircularQueues ι α) (d : Deques ι α) : Prop :=
  (∀ i, Shows (s.queue i) (d.deque i)) ∧ s.results = d.results

/-- No element is asked for with `pop_back(T& t)` where there is one. -/
def NoneAtBack (s : CircularQueues ι α) : CircularQueueMove ι α → Prop
  | .popBack i _ => (s.queue i).2.empty = true
  | _ => True

instance (s : CircularQueues ι α) (m : CircularQueueMove ι α) : Decidable (NoneAtBack s m) :=
  match m with
  | .popBack i _ => inferInstanceAs (Decidable ((s.queue i).2.empty = true))
  | .pushBack _ _ | .popFrontVoid _ | .popFront _ _ | .popBackVoid _ | .clear _ | .swap _ _ =>
      isTrue trivial

end CircularQueues

namespace CircularQueue

variable {cap : ℕ} {α : Type} {q q' : CircularQueue cap α} {x t : α} {xs : List α}

theorem head_ne_tail (hcontents : q.contents = xs.map some) (hxs : xs ≠ []) : q.head ≠ q.tail := by
  intro heq
  have hnil : q.contents = [] := by rw [← empty_iff, empty, decide_eq_true_iff, heq]
  rw [hcontents, List.map_eq_nil_iff] at hnil
  exact hxs hnil

theorem head_eq_tail (hcontents : q.contents = []) : q.head = q.tail := by
  rw [← empty_iff, empty, decide_eq_true_iff] at hcontents
  exact hcontents

theorem front_eq (hcontents : q.contents = (x :: xs).map some) : q.front = some x := by
  have hpos : 0 < q.contents.length := by
    rw [hcontents]
    exact Nat.succ_pos _
  rw [length_contents] at hpos
  obtain ⟨n, hn⟩ := Nat.exists_eq_succ_of_ne_zero hpos.ne'
  rw [contents, hn, Circular.toList_eq_cons, List.take_succ_cons, List.map_cons,
    List.cons.injEq] at hcontents
  exact hcontents.1

theorem size_tail_sub (hne : q.head ≠ q.tail) :
    ({ q with tail := q.tail - 1 } : CircularQueue cap α).size + 1 = q.size := by
  have hpos : q.tail - q.head ≠ 0 := sub_ne_zero.mpr hne.symm
  rw [size_eq, size_eq]
  dsimp only
  rw [sub_right_comm, Fin.val_sub_one_of_ne_zero hpos]
  exact Nat.sub_add_cancel (Nat.one_le_iff_ne_zero.mpr (Fin.val_ne_zero_iff.mpr hpos))

theorem contents_tail_sub (hne : q.head ≠ q.tail) :
    q.contents = ({ q with tail := q.tail - 1 } : CircularQueue cap α).contents ++ [q.back] := by
  have hsize := size_tail_sub hne
  have hlast : (Circular.toList q.element q.head)[q.size - 1]? = some q.back := by
    have hindex : q.size - 1 = (q.tail - 1 - q.head).val := by
      rw [← hsize, size_eq, Nat.add_sub_cancel]
    rw [hindex, Circular.getElem?_toList, add_sub_cancel]
    rfl
  rw [contents, contents, ← hsize, List.take_add_one, ← Option.toList_some, ← hlast, ← hsize,
    Nat.add_sub_cancel]

theorem back_eq (hcontents : q.contents = xs.map some) (hxs : xs ≠ []) :
    q.back = xs.getLast? := by
  have hlast := contents_tail_sub (head_ne_tail hcontents hxs)
  rw [hcontents] at hlast
  have hsome : (xs.map some).getLast? = some q.back := by rw [hlast, List.getLast?_concat]
  rw [List.getLast?_map, List.getLast?_eq_some_getLast hxs, Option.map_some,
    Option.some.injEq] at hsome
  rw [← hsome, List.getLast?_eq_some_getLast hxs]

theorem contents_popBackVoid (hcontents : q.contents = xs.map some) :
    q.popBackVoid.contents = xs.dropLast.map some := by
  have hmap : xs.dropLast.map some = (xs.map some).dropLast := List.map_dropLast
  rcases eq_or_ne xs [] with rfl | hxs
  · have heq := head_eq_tail hcontents
    rw [popBackVoid, if_neg (not_not_intro heq), hcontents]
    rfl
  · have hne := head_ne_tail hcontents hxs
    rw [popBackVoid, if_pos hne, hmap, ← hcontents, contents_tail_sub hne, List.dropLast_concat]

/-- The form with a variable removes the same element. -/
theorem popFront_eq (hcontents : q.contents = xs.map some) (t : α) :
    q.popFront t = some (!xs.isEmpty, xs.head?.getD t, q.popFrontVoid) := by
  cases xs with
  | nil =>
      have heq := head_eq_tail hcontents
      rw [popFront, if_neg (not_not_intro heq), popFrontVoid, if_neg (not_not_intro heq)]
      rfl
  | cons x xs =>
      have hne := head_ne_tail hcontents (List.cons_ne_nil x xs)
      have hfront : q.element q.head = some x := front_eq hcontents
      rw [popFront, if_pos hne, popFrontVoid, if_pos hne, hfront]
      rfl

theorem contents_popFrontVoid (hcontents : q.contents = xs.map some) :
    q.popFrontVoid.contents = xs.tail.map some := by
  cases xs with
  | nil =>
      have heq := head_eq_tail hcontents
      rw [popFrontVoid, if_neg (not_not_intro heq), hcontents]
      rfl
  | cons x xs =>
      obtain ⟨q', hpop, hrest⟩ := popFront_cons hcontents x
      rw [popFront_eq hcontents] at hpop
      cases hpop
      exact hrest

theorem popBack_nil (hcontents : q.contents = []) (t : α) :
    q.popBack t = some (some false, t, q) := by
  rw [popBack, if_neg (not_not_intro (head_eq_tail hcontents))]

/-- Where there is an element, it is taken out, but there is no result. -/
theorem popBack_ne_nil (hcontents : q.contents = xs.map some) (hxs : xs ≠ []) (t : α) :
    ∃ x, q.popBack t = some (none, x, q.popBackVoid) := by
  have hne := head_ne_tail hcontents hxs
  have hback : q.element (q.tail - 1) = some (xs.getLast hxs) := by
    rw [← List.getLast?_eq_some_getLast hxs]
    exact back_eq hcontents hxs
  refine ⟨xs.getLast hxs, ?_⟩
  rw [popBack, if_pos hne, popBackVoid, if_pos hne, hback]
  rfl

theorem clearLoop_eq {n : ℕ} (hcontents : q.contents = xs.map some) (hn : xs.length < n) :
    ∃ q', q.clearLoop n = some q' ∧ q'.contents = [] := by
  induction n generalizing q xs with
  | zero => omega
  | succ n ih =>
      rw [clearLoop]
      cases xs with
      | nil => exact ⟨q, if_pos (head_eq_tail hcontents), hcontents⟩
      | cons x xs =>
          have hne := head_ne_tail hcontents (List.cons_ne_nil x xs)
          have hrest := contents_popFrontVoid hcontents
          rw [popFrontVoid, if_pos hne] at hrest
          rw [if_neg hne]
          exact ih hrest (Nat.lt_of_succ_lt_succ hn)

theorem clear_eq (hcontents : q.contents = xs.map some) :
    ∃ q', q.clear = some q' ∧ q'.contents = [] := by
  have hle := q.size_le
  have hlen : xs.length = q.size := by rw [← length_contents, hcontents, List.length_map]
  exact clearLoop_eq hcontents (by omega)

end CircularQueue

namespace CircularQueues

open CircularQueue

variable {ι α : Type} {q : Σ cap, CircularQueue cap α} {d : Deque α} {s : CircularQueues ι α}
  {D : Deques ι α} {m : CircularQueueMove ι α}

theorem shows_of_contents (hcap : q.1 = d.cap) (hcontents : q.2.contents = d.elements.map some) :
    Shows q d := by
  have hlen : q.2.size = d.elements.length := by
    rw [← length_contents, hcontents, List.length_map]
  have hle := q.2.size_le
  refine ⟨hcap, hcontents, hcap ▸ q.2.head.isLt, hcap ▸ q.2.tail.isLt, hlen, hcap ▸ hle, ?_, ?_,
    ?_, back_eq hcontents⟩
  · rw [empty_iff, hcontents, List.map_eq_nil_iff]
  · rw [full_iff, hcontents, List.length_map, hcap]
  · intro hxs
    obtain ⟨x, xs, heq⟩ := List.exists_cons_of_ne_nil hxs
    rw [heq] at hcontents ⊢
    exact front_eq hcontents

theorem agrees_initial (caps : ι → ℕ) :
    Agrees (initial caps : CircularQueues ι α) (Deques.initial caps) :=
  ⟨fun _ ↦ shows_of_contents rfl contents_initial, rfl⟩

variable [DecidableEq ι]

theorem agrees_set {i : ι} {q : CircularQueue (s.queue i).1 α} {xs : List α}
    {results results' : List (Bool × Option α)} (h : Agrees s D)
    (hcontents : q.contents = xs.map some) (hresults : results = results') :
    Agrees ⟨s.set i q, results⟩ ⟨D.set i xs, results'⟩ := by
  refine ⟨?_, hresults⟩
  intro k
  change Shows (Function.update s.queue i _ k) (Function.update D.deque i _ k)
  rcases eq_or_ne k i with rfl | hk
  · rw [Function.update_self, Function.update_self]
    exact shows_of_contents (h.1 k).cap_eq hcontents
  · rw [Function.update_of_ne hk, Function.update_of_ne hk]
    exact h.1 k

theorem agrees_pushBack (h : Agrees s D) (i : ι) (t : α) :
    ∃ s', step s (.pushBack i t) = some s' ∧ Agrees s' (D.step (.pushBack i t)) := by
  have hi := h.1 i
  refine ⟨_, rfl, ?_⟩
  by_cases hroom : (D.deque i).elements.length < (D.deque i).cap
  · have hfull : (s.queue i).2.full = false := by
      rw [Bool.eq_false_iff, ne_eq, hi.full_iff]
      omega
    have hpush : ((s.queue i).2.pushBack t).1 = true := by
      rw [pushBack, if_neg (by rw [hfull]; exact Bool.noConfusion)]
    rw [Deques.step, hpush]
    simp only [if_pos hroom]
    refine agrees_set h ?_ (by rw [h.2])
    rw [contents_pushBack hfull, hi.contents_eq, List.map_append]
    rfl
  · have hle := hi.size_le
    have hsize := hi.size_eq
    have hfull : (s.queue i).2.full = true := hi.full_iff.mpr (by omega)
    have hself : (⟨(s.queue i).1, (s.queue i).2⟩ : Σ cap, CircularQueue cap α) = s.queue i := rfl
    rw [Deques.step, pushBack_full hfull, set, hself, Function.update_eq_self]
    simp only [if_neg hroom]
    exact ⟨h.1, by rw [h.2]⟩

theorem agrees_swap (h : Agrees s D) (i j : ι) :
    Agrees ⟨s.queue ∘ Equiv.swap i j, s.results⟩ ⟨D.deque ∘ Equiv.swap i j, D.results⟩ :=
  ⟨fun k ↦ h.1 (Equiv.swap i j k), h.2⟩

theorem agrees_step (h : Agrees s D) :
    (∃ s', step s m = some s' ∧ Agrees s' (D.step m)) ↔ NoneAtBack s m := by
  cases m with
  | pushBack i t => exact iff_of_true (agrees_pushBack h i t) trivial
  | popFrontVoid i =>
      have hrest := contents_popFrontVoid (h.1 i).contents_eq
      exact iff_of_true ⟨_, rfl, agrees_set h hrest h.2⟩ trivial
  | popFront i t =>
      have hcontents := (h.1 i).contents_eq
      refine iff_of_true ⟨_, congrArg (Option.map _) (popFront_eq hcontents t), ?_⟩ trivial
      exact agrees_set h (contents_popFrontVoid hcontents) (by rw [h.2])
  | popBackVoid i =>
      have hrest := contents_popBackVoid (h.1 i).contents_eq
      exact iff_of_true ⟨_, rfl, agrees_set h hrest h.2⟩ trivial
  | popBack i t =>
      have hcontents := (h.1 i).contents_eq
      rw [NoneAtBack, (h.1 i).empty_iff]
      by_cases hxs : (D.deque i).elements = []
      · refine iff_of_true ?_ hxs
        rw [hxs] at hcontents
        refine ⟨_, congrArg (Option.bind · _) (popBack_nil hcontents t), ?_⟩
        rw [Deques.step, hxs]
        exact agrees_set h hcontents (by rw [h.2]; rfl)
      · refine iff_of_false ?_ hxs
        rintro ⟨s', hs', -⟩
        obtain ⟨x, hpop⟩ := popBack_ne_nil hcontents hxs t
        rw [step, hpop] at hs'
        cases hs'
  | clear i =>
      obtain ⟨q', hclear, hempty⟩ := clear_eq (h.1 i).contents_eq
      exact iff_of_true ⟨_, congrArg (Option.map _) hclear, agrees_set h hempty h.2⟩ trivial
  | swap i j => exact iff_of_true ⟨_, rfl, agrees_swap h i j⟩ trivial

/-- The queues are deques exactly as long as `pop_back(T& t)` is only called on empty ones. -/
theorem deques_iff_noneAtBack (caps : ι → ℕ) (moves : List (CircularQueueMove ι α)) :
    (∀ before, before <+: moves → ∃ s', (system ι α).run (initial caps) before = some s' ∧
        Agrees s' (before.foldl Deques.step (Deques.initial caps))) ↔
      (system ι α).Allowed NoneAtBack (initial caps) moves := by
  have hstep (s : CircularQueues ι α) (D : Deques ι α) (m : CircularQueueMove ι α) (_ : True)
      (h : Agrees s D) (_ : (system ι α).enabled s m) :
      (∃ s', (system ι α).step s m = some s' ∧ Agrees s' (D.step m)) ↔ NoneAtBack s m :=
    agrees_step h
  exact System.simulates_iff (fun _ _ _ _ _ _ _ _ _ ↦ trivial) hstep trivial (agrees_initial caps)
    (System.allowed_anyStep (fun _ _ ↦ trivial) _ _)

/-- The last element that was pushed is taken out without a result. -/
theorem popBack_no_result :
    ¬ ∀ before, before <+: [.pushBack () 7, .popBack () 0] →
      ∃ s', (system Unit ℕ).run (initial fun _ ↦ 2) before = some s' ∧
        Agrees s' (before.foldl Deques.step (Deques.initial fun _ ↦ 2)) := by
  intro h
  obtain ⟨s', hs', -⟩ := h _ (List.prefix_refl _)
  cases hs'

end CircularQueues

end Slience
