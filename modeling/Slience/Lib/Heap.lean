import Mathlib.Data.List.Basic
import Mathlib.Data.List.Nodup
import Mathlib.Tactic

/-!
# Allocated cells and chains of nodes

A heap is the list of all cells ever allocated, with `none` where a cell was
freed; addresses are positions and are never handed out twice.  Reading, writing
and freeing a cell that is not there have no result.

`Segment h p xs q` says that the pointer `p` leads through the nodes `xs`, each
given with its address, to the pointer `q`; a `Chain` is a segment that ends in the
null pointer.
-/

namespace Slience

structure Heap (α : Type*) where
  cells : List (Option α)

namespace Heap

variable {α : Type*}

def empty : Heap α := ⟨[]⟩

def read (h : Heap α) (p : ℕ) : Option α := h.cells[p]?.join

/-- The address of a new cell. -/
def fresh (h : Heap α) : ℕ := h.cells.length

def alloc (h : Heap α) (v : α) : Heap α := ⟨h.cells ++ [some v]⟩

def write (h : Heap α) (p : ℕ) (v : α) : Option (Heap α) :=
  if (h.read p).isSome then some ⟨h.cells.set p (some v)⟩ else none

def free (h : Heap α) (p : ℕ) : Option (Heap α) :=
  if (h.read p).isSome then some ⟨h.cells.set p none⟩ else none

@[simp] theorem read_empty (p : ℕ) : (empty : Heap α).read p = none := rfl

@[simp] theorem read_fresh (h : Heap α) : h.read h.fresh = none := by
  simp [read, fresh]

theorem ne_fresh_of_read {h : Heap α} {p : ℕ} {v : α} (hp : h.read p = some v) :
    p ≠ h.fresh := by
  rintro rfl
  simp at hp

@[simp] theorem read_alloc_fresh (h : Heap α) (v : α) : (h.alloc v).read h.fresh = some v := by
  simp [read, alloc, fresh]

theorem read_alloc_of_ne {h : Heap α} {p : ℕ} (v : α) (hp : p ≠ h.fresh) :
    (h.alloc v).read p = h.read p := by
  simp only [read, alloc, fresh] at *
  rcases Nat.lt_or_gt_of_ne hp with hlt | hgt
  · rw [List.getElem?_append_left hlt]
  · have hout : (h.cells ++ [some v]).length ≤ p := by simpa using hgt
    rw [List.getElem?_eq_none hout, List.getElem?_eq_none (by omega)]

theorem lt_length_of_read {h : Heap α} {p : ℕ} {v : α} (hp : h.read p = some v) :
    p < h.cells.length := by
  by_contra hout
  simp [read, List.getElem?_eq_none (not_lt.mp hout)] at hp

theorem write_spec {h : Heap α} {p : ℕ} {u : α} (v : α) (hp : h.read p = some u) :
    ∃ h', h.write p v = some h' ∧ h'.read p = some v ∧ ∀ q, q ≠ p → h'.read q = h.read q := by
  refine ⟨⟨h.cells.set p (some v)⟩, by simp [write, hp], ?_, ?_⟩
  · simp [read, List.getElem?_set_self (lt_length_of_read hp)]
  · intro q hq
    simp [read, List.getElem?_set_ne hq.symm]

theorem free_spec {h : Heap α} {p : ℕ} {u : α} (hp : h.read p = some u) :
    ∃ h', h.free p = some h' ∧ h'.read p = none ∧ ∀ q, q ≠ p → h'.read q = h.read q := by
  refine ⟨⟨h.cells.set p none⟩, by simp [free, hp], ?_, ?_⟩
  · simp [read, List.getElem?_set_self (lt_length_of_read hp)]
  · intro q hq
    simp [read, List.getElem?_set_ne hq.symm]

theorem fresh_alloc (h : Heap α) (v : α) : (h.alloc v).fresh = h.fresh + 1 := by
  rw [fresh, alloc, List.length_append, List.length_singleton]
  rfl

theorem fresh_of_write {h h' : Heap α} {p : ℕ} {v : α} (hw : h.write p v = some h') :
    h'.fresh = h.fresh := by
  unfold write at hw
  split at hw
  · cases hw
    exact List.length_set
  · cases hw

theorem fresh_of_free {h h' : Heap α} {p : ℕ} (hf : h.free p = some h') :
    h'.fresh = h.fresh := by
  unfold free at hf
  split at hf
  · cases hf
    exact List.length_set
  · cases hf

theorem read_of_free {h h' : Heap α} {p : ℕ} (hf : h.free p = some h') :
    ∃ u, h.read p = some u := by
  by_contra hp
  have hnone : h.read p = none := by
    rw [Option.eq_none_iff_forall_not_mem]
    exact fun u hu ↦ hp ⟨u, hu⟩
  simp [free, hnone] at hf

end Heap

/-! ## Linked nodes -/

structure Node (α : Type*) where
  val : α
  next : Option ℕ

variable {α : Type*}

def Segment (h : Heap (Node α)) : Option ℕ → List (ℕ × α) → Option ℕ → Prop
  | p, [], q => p = q
  | p, (a, v) :: xs, q => p = some a ∧ ∃ r, h.read a = some ⟨v, r⟩ ∧ Segment h r xs q

/-- The nodes `xs` are reached from the pointer `p`, and no others. -/
def Chain (h : Heap (Node α)) (p : Option ℕ) (xs : List (ℕ × α)) : Prop :=
  Segment h p xs none

namespace Segment

variable {h h' : Heap (Node α)} {p q r : Option ℕ} {xs ys : List (ℕ × α)}

theorem append (hxs : Segment h p xs q) (hys : Segment h q ys r) : Segment h p (xs ++ ys) r := by
  induction xs generalizing p with
  | nil =>
      cases hxs
      exact hys
  | cons x xs ih =>
      obtain ⟨hp, s, hread, hrest⟩ := hxs
      exact ⟨hp, s, hread, ih hrest⟩

theorem split (hxs : Segment h p (xs ++ ys) r) : ∃ q, Segment h p xs q ∧ Segment h q ys r := by
  induction xs generalizing p with
  | nil => exact ⟨p, rfl, hxs⟩
  | cons x xs ih =>
      obtain ⟨hp, s, hread, hrest⟩ := hxs
      obtain ⟨q, hfirst, hlast⟩ := ih hrest
      exact ⟨q, ⟨hp, s, hread, hfirst⟩, hlast⟩

theorem frame (hxs : Segment h p xs q)
    (hsame : ∀ a ∈ xs.map Prod.fst, h'.read a = h.read a) : Segment h' p xs q := by
  induction xs generalizing p with
  | nil => exact hxs
  | cons x xs ih =>
      obtain ⟨hp, s, hread, hrest⟩ := hxs
      refine ⟨hp, s, ?_, ?_⟩
      · rw [hsame x.1 (by simp), hread]
      · apply ih hrest
        intro a ha
        exact hsame a (by simp [ha])

theorem read_of_mem (hxs : Segment h p xs q) {a : ℕ} (ha : a ∈ xs.map Prod.fst) :
    ∃ n, h.read a = some n := by
  induction xs generalizing p with
  | nil => simp at ha
  | cons x xs ih =>
      obtain ⟨-, s, hread, hrest⟩ := hxs
      rw [List.map_cons, List.mem_cons] at ha
      rcases ha with rfl | ha
      · exact ⟨_, hread⟩
      · exact ih hrest ha

end Segment

namespace Chain

variable {h h' : Heap (Node α)} {p : Option ℕ} {xs ys : List (ℕ × α)}

@[simp] theorem nil_iff : Chain h p ([] : List (ℕ × α)) ↔ p = none := Iff.rfl

theorem frame (hxs : Chain h p xs) (hsame : ∀ a ∈ xs.map Prod.fst, h'.read a = h.read a) :
    Chain h' p xs :=
  Segment.frame hxs hsame

theorem read_of_mem (hxs : Chain h p xs) {a : ℕ} (ha : a ∈ xs.map Prod.fst) :
    ∃ n, h.read a = some n :=
  Segment.read_of_mem hxs ha

theorem unique (hxs : Chain h p xs) (hys : Chain h p ys) : xs = ys := by
  induction xs generalizing p ys with
  | nil =>
      cases hxs
      cases ys with
      | nil => rfl
      | cons y ys => cases hys.1
  | cons x xs ih =>
      obtain ⟨hp, s, hread, hrest⟩ := hxs
      cases ys with
      | nil =>
          rw [nil_iff, hp] at hys
          cases hys
      | cons y ys =>
          obtain ⟨hp', s', hread', hrest'⟩ := hys
          obtain ⟨a, v⟩ := x
          obtain ⟨a', v'⟩ := y
          rw [hp] at hp'
          cases hp'
          rw [hread] at hread'
          cases hread'
          rw [ih hrest hrest']

theorem concat_iff {a : ℕ} {v : α} :
    Chain h p (xs ++ [(a, v)]) ↔ Segment h p xs (some a) ∧ h.read a = some ⟨v, none⟩ := by
  constructor
  · intro hxs
    obtain ⟨q, hfirst, hq, r, hread, hr⟩ := Segment.split hxs
    cases hq
    cases hr
    exact ⟨hfirst, hread⟩
  · rintro ⟨hfirst, hread⟩
    exact hfirst.append ⟨rfl, none, hread, rfl⟩

/-- No chain visits an address twice: what follows the address is determined by the
cell there. -/
theorem nodup (hxs : Chain h p xs) : (xs.map Prod.fst).Nodup := by
  induction xs generalizing p with
  | nil => exact List.nodup_nil
  | cons x xs ih =>
      obtain ⟨a, v⟩ := x
      obtain ⟨hp, s, hread, hrest⟩ := hxs
      rw [List.map_cons, List.nodup_cons]
      refine ⟨?_, ih hrest⟩
      intro hmem
      obtain ⟨y, hy, hya⟩ := List.mem_map.mp hmem
      obtain ⟨us, vs, rfl⟩ := List.append_of_mem hy
      obtain ⟨q, -, hlast⟩ := Segment.split hrest
      -- the rest after the second visit equals the rest after the first, which contains it
      obtain ⟨b, w⟩ := y
      cases hya
      obtain ⟨-, s', hread', hrest'⟩ := hlast
      rw [hread] at hread'
      cases hread'
      have hlen := congrArg List.length (unique hrest hrest')
      simp at hlen
      omega

theorem link {a : ℕ} {v : α} {q : Option ℕ} (hxs : Chain h p (xs ++ [(a, v)]))
    (hsame : ∀ b ∈ (xs ++ [(a, v)]).map Prod.fst, b ≠ a → h'.read b = h.read b)
    (ha : h'.read a = some ⟨v, q⟩) (hys : Chain h' q ys) :
    Chain h' p (xs ++ [(a, v)] ++ ys) := by
  have hnodup := hxs.nodup
  rw [List.map_append, List.map_singleton, List.nodup_append] at hnodup
  have hfirst : Segment h' p xs (some a) := by
    apply (concat_iff.mp hxs).1.frame
    intro b hb
    apply hsame b
    · rw [List.map_append]
      exact List.mem_append_left _ hb
    · exact hnodup.2.2 b hb a (List.mem_singleton_self a)
  rw [List.append_assoc]
  exact hfirst.append ⟨rfl, q, ha, hys⟩

end Chain

end Slience
