import Slience.Base.Slist
import Slience.Lib.Run
import Mathlib.Logic.Equiv.Basic

/-!
# Lists used in any order

All operations of `base::slist` on the lists of a family, in any order.  `clear` frees the nodes
and leaves `_tail` as it was, and `join` takes over `_tail` from the other list, so that after
either of them the tail of a list can be null or the address of a freed node while its nodes are
all there.  An element is only appended where the tail is `Attached`.
-/

namespace Slience

namespace Slist

variable {α : Type}

def size (l : Slist) : ℤ := l.count

/-- `slist::empty` -/
def isEmpty (l : Slist) : Bool := l.count = 0

/-- `slist::clear`; each round of its loop frees one of the cells that were ever allocated. -/
def clear (l : Slist) (h : Heap (Node α)) : Option (Slist × Heap (Node α)) :=
  (freeNodes h.fresh l.head h).map fun h ↦ (⟨0, none, l.tail⟩, h)

/-- The tail can be used: it is a node, or null in a list without nodes. -/
def Attached (h : Heap (Node α)) (l : Slist) : Prop :=
  match l.tail with
  | some t => (h.read t).isSome = true
  | none => l.head = none

instance (h : Heap (Node α)) (l : Slist) : Decidable (Attached h l) :=
  match htail : l.tail with
  | some t => decidable_of_iff ((h.read t).isSome = true) (by rw [Attached, htail])
  | none => decidable_of_iff (l.head = none) (by rw [Attached, htail])

end Slist

/-- The operations on a family of lists. -/
inductive SlistMove (ι α : Type)
  | pushBack (i : ι) (t : α)
  | popFront (i : ι)
  | clear (i : ι)
  | swap (i j : ι)
  | join (i j : ι)
  deriving DecidableEq

structure Slists (ι α : Type) where
  heap : Heap (Node α)
  list : ι → Slist

namespace Slists

variable {ι α : Type}

def initial : Slists ι α := ⟨Heap.empty, fun _ ↦ Slist.empty⟩

def set [DecidableEq ι] (s : Slists ι α) (i : ι) (r : Slist × Heap (Node α)) : Slists ι α :=
  ⟨r.2, Function.update s.list i r.1⟩

/-- `slist::join`, with the other list as it leaves it. -/
def join [DecidableEq ι] (s : Slists ι α) (i j : ι) : Option (Slists ι α) :=
  if i = j then some s
  else ((s.list i).join (s.list j) s.heap).map fun r ↦
    ⟨r.2, Function.update (Function.update s.list j Slist.empty) i r.1⟩

def step [DecidableEq ι] (s : Slists ι α) : SlistMove ι α → Option (Slists ι α)
  | .pushBack i t => ((s.list i).pushBack s.heap t).map (s.set i)
  | .popFront i => ((s.list i).popFront s.heap).map (s.set i)
  | .clear i => ((s.list i).clear s.heap).map (s.set i)
  | .swap i j => some ⟨s.heap, s.list ∘ Equiv.swap i j⟩
  | .join i j => s.join i j

def system (ι α : Type) [DecidableEq ι] : System (Slists ι α) (SlistMove ι α) where
  enabled := fun _ _ ↦ True
  step := step

/-- The same operations on lists of values. -/
def listStep [DecidableEq ι] (W : ι → List α) : SlistMove ι α → ι → List α
  | .pushBack i t => Function.update W i (W i ++ [t])
  | .popFront i => Function.update W i (W i).tail
  | .clear i => Function.update W i []
  | .swap i j => W ∘ Equiv.swap i j
  | .join i j =>
      if i = j then W else Function.update (Function.update W j []) i (W i ++ W j)

/-- The lists consist of the nodes `V`, of which none is shared, and there are no others. -/
structure Consist (s : Slists ι α) (V : ι → List (ℕ × α)) : Prop where
  chain : ∀ i, Chain s.heap (s.list i).head (V i)
  count_eq : ∀ i, (s.list i).count = (V i).length
  apart : ∀ i j, i ≠ j → ∀ a ∈ (V i).map Prod.fst, a ∉ (V j).map Prod.fst
  owned : ∀ a n, s.heap.read a = some n → ∃ i, a ∈ (V i).map Prod.fst

/-- The lists hold the values `W`. -/
structure Agrees (s : Slists ι α) (W : ι → List α) : Prop where
  nodes : ∃ V, Consist s V ∧ ∀ i, W i = (V i).map Prod.snd
  size_eq : ∀ i, (s.list i).size = (W i).length
  isEmpty_iff : ∀ i, (s.list i).isEmpty = true ↔ W i = []
  front : ∀ i, 0 < (s.list i).size → (s.list i).front s.heap = (W i).head?

/-- What is appended, is appended where the tail can be used, and is counted in an `int`. -/
def Appends (s : Slists ι α) : SlistMove ι α → Prop
  | .pushBack i _ => (s.list i).Attached s.heap ∧ (s.list i).size + 1 < 2 ^ 31
  | .join i j =>
      i = j ∨ (s.list i).Attached s.heap ∧ (s.list i).size + (s.list j).size < 2 ^ 31
  | _ => True

instance [DecidableEq ι] (s : Slists ι α) (m : SlistMove ι α) : Decidable (Appends s m) :=
  match m with
  | .pushBack _ _ => inferInstanceAs (Decidable (_ ∧ _))
  | .join _ _ => inferInstanceAs (Decidable (_ ∨ _))
  | .popFront _ | .clear _ | .swap _ _ => isTrue trivial

/-- A tail is the address of a freed node or of the last one. -/
def TailOf (h : Heap (Node α)) (l : Slist) (xs : List (ℕ × α)) : Prop :=
  ∀ t, l.tail = some t → t < h.fresh ∧ (h.read t = none ∨ Slist.lastAddr xs = some t)

/-- The nodes of the lists, with what their tails and counts can be. -/
structure Whole (s : Slists ι α) (V : ι → List (ℕ × α)) : Prop extends Consist s V where
  tail : ∀ i, TailOf s.heap (s.list i) (V i)
  small : ∀ i, (V i).length < 2 ^ 31

/-- Cells that were freed stay so. -/
structure Later (h h' : Heap (Node α)) : Prop where
  fresh_le : h.fresh ≤ h'.fresh
  freed : ∀ a, a < h.fresh → h.read a = none → h'.read a = none

variable {s s' : Slists ι α} {V : ι → List (ℕ × α)} {W : ι → List α} {h h' : Heap (Node α)}
  {l l' other : Slist} {xs ys : List (ℕ × α)} {i j : ι} {t : α}

/-! ## Tails -/

theorem TailOf.later (ht : TailOf h l xs) (hlater : Later h h') : TailOf h' l xs := by
  intro a ha
  obtain ⟨hlt, hfreed | hlast⟩ := ht a ha
  · exact ⟨hlt.trans_le hlater.fresh_le, Or.inl (hlater.freed a hlt hfreed)⟩
  · exact ⟨hlt.trans_le hlater.fresh_le, Or.inr hlast⟩

/-- Where the tail can be used, it is the last node. -/
theorem rep_of_attached (hchain : Chain h l.head xs) (hcount : l.count = xs.length)
    (ht : TailOf h l xs) (hattached : l.Attached h) : Slist.Rep h l xs := by
  refine ⟨hchain, hcount, ?_⟩
  unfold Slist.Attached at hattached
  split at hattached
  · rename_i a ha
    obtain ⟨-, hfreed | hlast⟩ := ht a ha
    · rw [hfreed] at hattached
      cases hattached
    · rw [ha, hlast]
  · rename_i hnone
    rw [hattached] at hchain
    have hnil : xs = [] := hchain.unique (Chain.nil_iff.mpr rfl)
    rw [hnone, hnil]
    rfl

/-! ## Cells -/

theorem later_of_write {p : ℕ} {n : Node α} (hwrite : h.write p n = some h') : Later h h' := by
  refine ⟨(Heap.fresh_of_write hwrite).ge, ?_⟩
  intro a _ ha
  unfold Heap.write at hwrite
  split at hwrite
  case isFalse => cases hwrite
  case isTrue hlive =>
    obtain ⟨u, hu⟩ := Option.isSome_iff_exists.mp hlive
    obtain ⟨h₁, hwrite', -, hsame⟩ := Heap.write_spec n hu
    rw [Heap.write, if_pos hlive] at hwrite'
    rw [hwrite] at hwrite'
    cases hwrite'
    rw [hsame a (by rintro rfl; rw [ha] at hu; cases hu), ha]

theorem later_of_free {p : ℕ} (hfree : h.free p = some h') : Later h h' := by
  refine ⟨(Heap.fresh_of_free hfree).ge, ?_⟩
  intro a _ ha
  obtain ⟨u, hu⟩ := Heap.read_of_free hfree
  obtain ⟨h₁, hfree', -, hsame⟩ := Heap.free_spec hu
  rw [hfree] at hfree'
  cases hfree'
  rw [hsame a (by rintro rfl; rw [ha] at hu; cases hu), ha]

theorem later_alloc (h : Heap (Node α)) (n : Node α) : Later h (h.alloc n) := by
  refine ⟨by rw [Heap.fresh_alloc]; exact Nat.le_succ _, ?_⟩
  intro a hlt ha
  rw [Heap.read_alloc_of_ne _ hlt.ne, ha]

theorem Later.trans {h₁ h₂ : Heap (Node α)} (h₁' : Later h h₁) (h₂' : Later h₁ h₂) :
    Later h h₂ where
  fresh_le := h₁'.fresh_le.trans h₂'.fresh_le
  freed := by
    intro a hlt ha
    exact h₂'.freed a (hlt.trans_le h₁'.fresh_le) (h₁'.freed a hlt ha)

theorem later_of_pushBack (hpush : l.pushBack h t = some (l', h')) : Later h h' := by
  unfold Slist.pushBack at hpush
  obtain ⟨count, -, hpush⟩ := Option.bind_eq_some_iff.mp hpush
  cases htail : l.tail with
  | none =>
      simp only [htail, Option.some.injEq, Prod.mk.injEq] at hpush
      exact hpush.2 ▸ later_alloc h _
  | some last =>
      simp only [htail] at hpush
      obtain ⟨n, -, hpush⟩ := Option.bind_eq_some_iff.mp hpush
      obtain ⟨h₂, hwrite, hpush⟩ := Option.bind_eq_some_iff.mp hpush
      cases hpush
      exact (later_alloc h _).trans (later_of_write hwrite)

theorem later_of_popFront (hpop : l.popFront h = some (l', h')) : Later h h' := by
  unfold Slist.popFront at hpop
  split at hpop
  · cases hpop
    exact ⟨le_rfl, fun _ _ ha ↦ ha⟩
  · obtain ⟨n, -, hpop⟩ := Option.bind_eq_some_iff.mp hpop
    obtain ⟨h₁, hfree, hpop⟩ := Option.bind_eq_some_iff.mp hpop
    obtain ⟨count, -, hpop⟩ := Option.bind_eq_some_iff.mp hpop
    cases hpop
    exact later_of_free hfree

theorem later_of_join (hjoin : l.join other h = some (l', h')) : Later h h' := by
  unfold Slist.join at hjoin
  obtain ⟨count, -, hjoin⟩ := Option.bind_eq_some_iff.mp hjoin
  cases htail : l.tail with
  | none =>
      simp only [htail, Option.some.injEq, Prod.mk.injEq] at hjoin
      exact hjoin.2 ▸ ⟨le_rfl, fun _ _ ha ↦ ha⟩
  | some last =>
      simp only [htail] at hjoin
      obtain ⟨n, -, hjoin⟩ := Option.bind_eq_some_iff.mp hjoin
      obtain ⟨h₂, hwrite, hjoin⟩ := Option.bind_eq_some_iff.mp hjoin
      cases hjoin
      exact later_of_write hwrite

/-- The loop of `clear` frees all nodes and nothing else. -/
theorem freeNodes_spec {n : ℕ} {p : Option ℕ} (hchain : Chain h p xs) (hn : xs.length ≤ n) :
    ∃ h', Slist.freeNodes n p h = some h' ∧ Later h h' ∧
      (∀ a ∈ xs.map Prod.fst, h'.read a = none) ∧
      ∀ a, a ∉ xs.map Prod.fst → h'.read a = h.read a := by
  induction xs generalizing n p h with
  | nil =>
      have hnone : p = none := hchain
      subst hnone
      refine ⟨h, ?_, ⟨le_rfl, fun _ _ ha ↦ ha⟩, fun _ ha ↦ absurd ha List.not_mem_nil,
        fun _ _ ↦ rfl⟩
      cases n <;> rfl
  | cons x xs ih =>
      have hnodup := hchain.nodup
      rw [List.map_cons, List.nodup_cons] at hnodup
      obtain ⟨rfl, r, hread, hrest⟩ := hchain
      obtain ⟨n, rfl⟩ : ∃ m, n = m + 1 := Nat.exists_eq_succ_of_ne_zero (by
        rw [List.length_cons] at hn
        omega)
      obtain ⟨h₁, hfree, hfreed, hsame⟩ := Heap.free_spec hread
      have hrest' : Chain h₁ r xs := by
        refine Segment.frame hrest ?_
        intro a ha
        exact hsame a (by rintro rfl; exact hnodup.1 ha)
      obtain ⟨h', hloop, hlater, hgone, hkept⟩ := ih hrest' (Nat.le_of_succ_le_succ hn)
      refine ⟨h', ?_, (later_of_free hfree).trans hlater, ?_, ?_⟩
      · rw [Slist.freeNodes, hread, Option.bind_eq_bind, Option.bind_some, hfree]
        exact hloop
      · intro a ha
        rw [List.map_cons, List.mem_cons] at ha
        rcases ha with rfl | ha
        · rw [hkept x.1 hnodup.1, hfreed]
        · exact hgone a ha
      · intro a ha
        rw [List.map_cons, List.mem_cons, not_or] at ha
        rw [hkept a ha.2, hsame a ha.1]

/-- A chain has no more nodes than cells were ever allocated. -/
theorem length_le_fresh {p : Option ℕ} (hchain : Chain h p xs) : xs.length ≤ h.fresh := by
  have hsubset : (xs.map Prod.fst) ⊆ List.range h.fresh := by
    intro a ha
    obtain ⟨n, hn⟩ := hchain.read_of_mem ha
    exact List.mem_range.mpr (Heap.lt_length_of_read hn)
  have hle := (List.subperm_of_subset hchain.nodup hsubset).length_le
  rwa [List.length_map, List.length_range] at hle

/-! ## One list of the family -/

theorem apart_of_far [DecidableEq ι] (hapart : ∀ k k', k ≠ k' → ∀ a ∈ (V k).map Prod.fst,
      a ∉ (V k').map Prod.fst)
    (hfar : ∀ k, k ≠ i → ∀ a ∈ xs.map Prod.fst, a ∉ (V k).map Prod.fst) :
    ∀ k k', k ≠ k' → ∀ a ∈ (Function.update V i xs k).map Prod.fst,
      a ∉ (Function.update V i xs k').map Prod.fst := by
  intro k k' hne a ha
  by_cases hk : k = i
  · subst hk
    rw [Function.update_self] at ha
    rw [Function.update_of_ne hne.symm]
    exact hfar k' hne.symm a ha
  · rw [Function.update_of_ne hk] at ha
    by_cases hk' : k' = i
    · subst hk'
      rw [Function.update_self]
      exact fun hmem ↦ hfar k hk a hmem ha
    · rw [Function.update_of_ne hk']
      exact hapart k k' hne a ha

/-- What has to be known about an operation on one list: where its nodes are, and that the cells
of no other list changed. -/
structure Replaces (s : Slists ι α) (V : ι → List (ℕ × α)) (i : ι) (h' : Heap (Node α))
    (l' : Slist) (xs : List (ℕ × α)) : Prop where
  later : Later s.heap h'
  chain : Chain h' l'.head xs
  count_eq : l'.count = xs.length
  small : xs.length < 2 ^ 31
  tail : TailOf h' l' xs
  same : ∀ k, k ≠ i → ∀ a ∈ (V k).map Prod.fst, h'.read a = s.heap.read a
  far : ∀ k, k ≠ i → ∀ a ∈ xs.map Prod.fst, a ∉ (V k).map Prod.fst
  owned : ∀ a n, h'.read a = some n →
    a ∈ xs.map Prod.fst ∨ ∃ k, k ≠ i ∧ a ∈ (V k).map Prod.fst

/-- What relates two families still does when both are changed at one place. -/
theorem update_pair [DecidableEq ι] {β γ : Type} {P : β → γ → Prop} {f : ι → β} {g : ι → γ} {b : β}
    {c : γ} (hi : P b c) (hk : ∀ k, k ≠ i → P (f k) (g k)) (k : ι) :
    P (Function.update f i b k) (Function.update g i c k) := by
  by_cases h : k = i
  · subst h
    rw [Function.update_self, Function.update_self]
    exact hi
  · rw [Function.update_of_ne h, Function.update_of_ne h]
    exact hk k h

theorem Replaces.whole [DecidableEq ι] (hr : Replaces s V i h' l' xs) (hw : Whole s V) :
    Whole (s.set i (l', h')) (Function.update V i xs) := by
  refine ⟨⟨?_, ?_, apart_of_far hw.apart hr.far, ?_⟩, ?_, ?_⟩
  · exact update_pair (P := fun l xs ↦ Chain h' (Slist.head l) xs) hr.chain
      fun k hk ↦ (hw.chain k).frame (hr.same k hk)
  · exact update_pair (P := fun l xs ↦ Slist.count l = List.length xs) hr.count_eq
      fun k _ ↦ hw.count_eq k
  · intro a n ha
    rcases hr.owned a n ha with hxs | ⟨k, hk, hmem⟩
    · exact ⟨i, by rw [Function.update_self]; exact hxs⟩
    · exact ⟨k, by rw [Function.update_of_ne hk]; exact hmem⟩
  · exact update_pair hr.tail fun k _ ↦ (hw.tail k).later hr.later
  · exact (Function.forall_update_iff V fun _ xs ↦ xs.length < 2 ^ 31).mpr
      ⟨hr.small, fun k _ ↦ hw.small k⟩

theorem Whole.read_of_mem (hw : Whole s V) {k : ι} {a : ℕ} (ha : a ∈ (V k).map Prod.fst) :
    ∃ n, s.heap.read a = some n :=
  (hw.chain k).read_of_mem ha

theorem Whole.rep (hw : Whole s V) (hattached : (s.list i).Attached s.heap) :
    Slist.Rep s.heap (s.list i) (V i) :=
  rep_of_attached (hw.chain i) (hw.count_eq i) (hw.tail i) hattached

theorem lastAddr_mem (hrep : Slist.Rep h l xs) {a : ℕ} (ha : l.tail = some a) :
    a ∈ xs.map Prod.fst :=
  Slist.mem_of_lastAddr (hrep.tail_eq.symm.trans ha)

theorem replaces_pushBack (hw : Whole s V) (hattached : (s.list i).Attached s.heap)
    (hsmall : (V i).length + 1 < 2 ^ 31)
    (hpush : (s.list i).pushBack s.heap t = some (l', h')) :
    Replaces s V i h' l' (V i ++ [(s.heap.fresh, t)]) := by
  have hrep := hw.rep hattached
  have hrep' := Slist.rep_of_pushBack hrep hpush
  have hmem {a : ℕ} (ha : a ∈ (V i ++ [(s.heap.fresh, t)]).map Prod.fst) :
      a ∈ (V i).map Prod.fst ∨ a = s.heap.fresh := by
    rw [List.map_append, List.mem_append, List.map_singleton, List.mem_singleton] at ha
    exact ha
  have hold {k : ι} {a : ℕ} (hk : k ≠ i) (ha : a ∈ (V k).map Prod.fst) :
      h'.read a = s.heap.read a := by
    obtain ⟨n, hn⟩ := hw.read_of_mem ha
    refine Slist.read_of_pushBack hpush (Heap.ne_fresh_of_read hn) ?_
    intro htail
    exact hw.apart k i hk a ha (lastAddr_mem hrep htail)
  refine ⟨later_of_pushBack hpush, hrep'.chain, hrep'.count_eq, ?_, ?_, fun k hk a ha ↦ hold hk ha,
    ?_, ?_⟩
  · rw [List.length_append, List.length_singleton]
    exact hsmall
  · intro a ha
    obtain ⟨n, hn⟩ := hrep'.loose.tail_read a ha
    exact ⟨Heap.lt_length_of_read hn, Or.inr (hrep'.tail_eq.symm.trans ha)⟩
  · intro k hk a ha hk'
    rcases hmem ha with hi | rfl
    · exact hw.apart i k hk.symm a hi hk'
    · obtain ⟨n, hn⟩ := hw.read_of_mem hk'
      exact Heap.ne_fresh_of_read hn rfl
  · intro a n ha
    by_cases hfresh : a = s.heap.fresh
    · refine Or.inl ?_
      rw [List.map_append, hfresh]
      exact List.mem_append_right _ (List.mem_singleton_self _)
    · by_cases hlast : (s.list i).tail = some a
      · refine Or.inl ?_
        rw [List.map_append]
        exact List.mem_append_left _ (lastAddr_mem hrep hlast)
      · rw [Slist.read_of_pushBack hpush hfresh hlast] at ha
        obtain ⟨k, hk⟩ := hw.owned a n ha
        by_cases hki : k = i
        · subst hki
          refine Or.inl ?_
          rw [List.map_append]
          exact List.mem_append_left _ hk
        · exact Or.inr ⟨k, hki, hk⟩

theorem popFront_of_nil (hchain : Chain h l.head []) : l.popFront h = some (l, h) := by
  rw [Slist.popFront, Chain.nil_iff.mp hchain]

/-- The tail is freed with the last node, or stays what it was. -/
theorem tailOf_popFront {x : ℕ × α} (hchain : Chain h l.head (x :: xs)) (ht : TailOf h l (x :: xs))
    (hpop : l.popFront h = some (l', h')) : TailOf h' l' xs := by
  obtain ⟨a, v⟩ := x
  obtain ⟨-, hrest, htail', -⟩ := Slist.popFront_cases hchain hpop
  have hlater := later_of_popFront hpop
  have hhead : l.head = some a := hchain.1
  intro b hb
  rw [htail'] at hb
  split at hb
  · -- the head is the tail, the only node
    rename_i heq
    obtain ⟨-, hfreed | hlast⟩ := ht a (heq.symm.trans hhead)
    · obtain ⟨n, hn⟩ := hchain.read_of_mem (a := a) List.mem_cons_self
      rw [hfreed] at hn
      cases hn
    · have hnodup := hchain.nodup
      rw [List.map_cons, List.nodup_cons] at hnodup
      cases xs with
      | nil =>
          rw [Chain.nil_iff] at hrest
          rw [hrest] at hb
          cases hb
      | cons y ys =>
          have hmem := Slist.mem_of_lastAddr
            ((Slist.lastAddr_append_of_ne_nil [(a, v)] (List.cons_ne_nil y ys)).symm.trans hlast)
          exact absurd hmem hnodup.1
  · rename_i hne
    obtain ⟨hlt, hfreed | hlast⟩ := ht b hb
    · exact ⟨hlt.trans_le hlater.fresh_le, Or.inl (hlater.freed b hlt hfreed)⟩
    · refine ⟨hlt.trans_le hlater.fresh_le, Or.inr ?_⟩
      cases xs with
      | nil =>
          cases hlast
          exact absurd (hhead.trans hb.symm) hne
      | cons y ys =>
          rw [← hlast]
          exact (Slist.lastAddr_append_of_ne_nil [(a, v)] (List.cons_ne_nil y ys)).symm

/-- The cell of the first node is freed. -/
theorem read_first_of_popFront {x : ℕ × α} (hchain : Chain h l.head (x :: xs))
    (hpop : l.popFront h = some (l', h')) : h'.read x.1 = none := by
  obtain ⟨a, v⟩ := x
  obtain ⟨hhead, r, hread, -⟩ := hchain
  obtain ⟨h₁, hfree, hfreed, -⟩ := Heap.free_spec hread
  simp only [Slist.popFront, hhead, hread, hfree, Option.bind_eq_bind, Option.bind_some] at hpop
  obtain ⟨count, -, hpop⟩ := Option.bind_eq_some_iff.mp hpop
  cases hpop
  exact hfreed

theorem replaces_popFront (hw : Whole s V) {x : ℕ × α} (hV : V i = x :: xs)
    (hpop : (s.list i).popFront s.heap = some (l', h')) : Replaces s V i h' l' xs := by
  have hchain := hw.chain i
  have hcount := hw.count_eq i
  have hsmall := hw.small i
  have htail := hw.tail i
  rw [hV] at hchain hcount hsmall htail
  rw [List.length_cons] at hcount hsmall
  obtain ⟨hcount', -, -, hsame⟩ := Slist.popFront_cases hchain hpop
  have hgone := read_first_of_popFront hchain hpop
  have hfirst : ∀ k, k ≠ i → ∀ b ∈ (V k).map Prod.fst, b ≠ x.1 := by
    rintro k hk b hb rfl
    refine hw.apart k i hk x.1 hb ?_
    rw [hV]
    exact List.mem_cons_self
  refine ⟨later_of_popFront hpop, Slist.chain_of_popFront hchain hpop, ?_, by omega,
    tailOf_popFront hchain htail hpop, fun k hk b hb ↦ hsame b (hfirst k hk b hb), ?_, ?_⟩
  · rw [hcount', hcount, Nat.cast_add_one, add_sub_cancel_right]
  · intro k hk b hb
    refine hw.apart i k hk.symm b ?_
    rw [hV]
    exact List.mem_cons_of_mem _ hb
  · intro b n hb
    have hne : b ≠ x.1 := by
      rintro rfl
      rw [hgone] at hb
      cases hb
    rw [hsame b hne] at hb
    obtain ⟨k, hk⟩ := hw.owned b n hb
    by_cases hki : k = i
    · subst hki
      rw [hV, List.map_cons, List.mem_cons] at hk
      exact Or.inl (hk.resolve_left hne)
    · exact Or.inr ⟨k, hki, hk⟩

theorem replaces_clear (hw : Whole s V) (i : ι) :
    ∃ l' h', (s.list i).clear s.heap = some (l', h') ∧ Replaces s V i h' l' [] := by
  obtain ⟨h', hfree, hlater, hgone, hkept⟩ :=
    freeNodes_spec (hw.chain i) (length_le_fresh (hw.chain i))
  refine ⟨⟨0, none, (s.list i).tail⟩, h', ?_, hlater, rfl, rfl, Nat.two_pow_pos 31, ?_, ?_,
    fun _ _ _ ha ↦ absurd ha List.not_mem_nil, ?_⟩
  · rw [Slist.clear, hfree, Option.map_some]
  · intro a ha
    obtain ⟨hlt, hfreed | hlast⟩ := hw.tail i a ha
    · exact ⟨hlt.trans_le hlater.fresh_le, Or.inl (hlater.freed a hlt hfreed)⟩
    · exact ⟨hlt.trans_le hlater.fresh_le, Or.inl (hgone a (Slist.mem_of_lastAddr hlast))⟩
  · intro k hk a ha
    exact hkept a (hw.apart k i hk a ha)
  · intro a n ha
    have hout : a ∉ (V i).map Prod.fst := by
      intro hmem
      rw [hgone a hmem] at ha
      cases ha
    rw [hkept a hout] at ha
    obtain ⟨k, hk⟩ := hw.owned a n ha
    exact Or.inr ⟨k, by rintro rfl; exact hout hk, hk⟩

/-! ## Joining two lists -/

/-- The tail of the other list is the tail of the joined one. -/
theorem tailOf_join (hlater : Later h h') (ht : TailOf h other ys) (htail : l'.tail = other.tail)
    (xs : List (ℕ × α)) : TailOf h' l' (xs ++ ys) := by
  intro a ha
  rw [htail] at ha
  obtain ⟨hlt, hfreed | hlast⟩ := ht.later hlater a ha
  · exact ⟨hlt, Or.inl hfreed⟩
  · have hne : ys ≠ [] := by
      intro hnil
      rw [hnil] at hlast
      cases hlast
    exact ⟨hlt, Or.inr ((Slist.lastAddr_append_of_ne_nil xs hne).trans hlast)⟩

theorem mem_joined {a : ℕ} :
    a ∈ (xs ++ ys).map Prod.fst ↔ a ∈ xs.map Prod.fst ∨ a ∈ ys.map Prod.fst := by
  rw [List.map_append, List.mem_append]

/-- After a join every cell is a node of one of the lists. -/
theorem owned_join [DecidableEq ι] (hw : Whole s V)
    (hlast : ∀ a, (s.list i).tail = some a → a ∈ (V i).map Prod.fst)
    (hjoin : (s.list i).join (s.list j) s.heap = some (l', h')) {a : ℕ} {n : Node α}
    (ha : h'.read a = some n) :
    ∃ k, a ∈ (Function.update (Function.update V j []) i (V i ++ V j) k).map Prod.fst := by
  have hjoined {k : ι} (hk : k = i ∨ k = j) (hin : a ∈ (V k).map Prod.fst) :
      ∃ k', a ∈ (Function.update (Function.update V j []) i (V i ++ V j) k').map Prod.fst := by
    refine ⟨i, ?_⟩
    rw [Function.update_self, mem_joined]
    rcases hk with rfl | rfl
    · exact Or.inl hin
    · exact Or.inr hin
  by_cases htail : (s.list i).tail = some a
  · exact hjoined (Or.inl rfl) (hlast a htail)
  · rw [Slist.read_of_join hjoin htail] at ha
    obtain ⟨k, hk⟩ := hw.owned a n ha
    by_cases hkij : k = i ∨ k = j
    · exact hjoined hkij hk
    · rw [not_or] at hkij
      refine ⟨k, ?_⟩
      rw [Function.update_of_ne hkij.1, Function.update_of_ne hkij.2]
      exact hk

theorem whole_join [DecidableEq ι] (hw : Whole s V) (hij : i ≠ j)
    (hattached : (s.list i).Attached s.heap)
    (hsmall : (V i).length + (V j).length < 2 ^ 31)
    (hjoin : (s.list i).join (s.list j) s.heap = some (l', h')) :
    Whole ⟨h', Function.update (Function.update s.list j Slist.empty) i l'⟩
      (Function.update (Function.update V j []) i (V i ++ V j)) := by
  have hrep := hw.rep hattached
  have hlater := later_of_join hjoin
  have hdisj : ∀ a ∈ (s.list i).footprint (V i), a ∉ (V j).map Prod.fst := by
    intro a ha
    rcases Slist.mem_footprint.mp ha with ha | ha
    · exact hw.apart i j hij a ha
    · exact hw.apart i j hij a (lastAddr_mem hrep ha)
  have hchain : Chain h' l'.head (V i ++ V j) :=
    Slist.chain_of_join hrep.loose hrep.tail_eq (hw.chain j) hdisj hjoin
  obtain ⟨hcount, htail, -⟩ := Slist.join_cases hjoin
  have hsame : ∀ k, k ≠ i → ∀ a ∈ (V k).map Prod.fst, h'.read a = s.heap.read a := by
    intro k hk a ha
    refine Slist.read_of_join hjoin ?_
    intro hlast
    exact hw.apart k i hk a ha (lastAddr_mem hrep hlast)
  have hcases {P : Slist → List (ℕ × α) → Prop} (hi : P l' (V i ++ V j)) (hj : P Slist.empty [])
      (hk : ∀ k, k ≠ i → P (s.list k) (V k)) (k : ι) :
      P (Function.update (Function.update s.list j Slist.empty) i l' k)
        (Function.update (Function.update V j []) i (V i ++ V j) k) := by
    refine update_pair hi (fun k hki ↦ ?_) k
    by_cases hkj : k = j
    · subst hkj
      rw [Function.update_self, Function.update_self]
      exact hj
    · rw [Function.update_of_ne hkj, Function.update_of_ne hkj]
      exact hk k hki
  have hapart : ∀ k k', k ≠ k' → ∀ a ∈ (Function.update V j [] k).map Prod.fst,
      a ∉ (Function.update V j [] k').map Prod.fst :=
    apart_of_far hw.apart fun _ _ a ha ↦ absurd ha List.not_mem_nil
  refine ⟨⟨?_, ?_, apart_of_far hapart ?_, ?_⟩, ?_, ?_⟩
  · exact hcases (P := fun l xs ↦ Chain h' l.head xs) hchain rfl
      fun k hk ↦ (hw.chain k).frame (hsame k hk)
  · refine hcases (P := fun l xs ↦ l.count = xs.length) ?_ rfl fun k _ ↦ hw.count_eq k
    rw [hcount, hw.count_eq, hw.count_eq, List.length_append, Nat.cast_add]
  · intro k hk a ha
    by_cases hkj : k = j
    · subst hkj
      rw [Function.update_self]
      exact List.not_mem_nil
    · rw [Function.update_of_ne hkj]
      rcases mem_joined.mp ha with ha | ha
      · exact hw.apart i k (Ne.symm hk) a ha
      · exact hw.apart j k (Ne.symm hkj) a ha
  · exact fun a n ha ↦ owned_join hw (fun a ↦ lastAddr_mem hrep) hjoin ha
  · exact hcases (P := TailOf h') (tailOf_join hlater (hw.tail j) htail (V i))
      (by intro a ha; cases ha) fun k _ ↦ (hw.tail k).later hlater
  · refine hcases (P := fun _ xs ↦ xs.length < 2 ^ 31) ?_ (Nat.two_pow_pos 31)
      fun k _ ↦ hw.small k
    rw [List.length_append]
    exact hsmall

/-! ## Swapping two lists -/

theorem Whole.swap [DecidableEq ι] (hw : Whole s V) (i j : ι) :
    Whole ⟨s.heap, s.list ∘ Equiv.swap i j⟩ (V ∘ Equiv.swap i j) := by
  refine ⟨⟨?_, ?_, ?_, ?_⟩, ?_, ?_⟩
  · exact fun k ↦ hw.chain _
  · exact fun k ↦ hw.count_eq _
  · exact fun k k' hne ↦ hw.apart _ _ ((Equiv.swap i j).injective.ne hne)
  · intro a n ha
    obtain ⟨k, hk⟩ := hw.owned a n ha
    refine ⟨Equiv.swap i j k, ?_⟩
    rw [Function.comp_apply, Equiv.swap_apply_self]
    exact hk
  · exact fun k ↦ hw.tail _
  · exact fun k ↦ hw.small _

/-! ## The family as lists of values -/

theorem Whole.agrees (hw : Whole s V) (hW : ∀ i, W i = (V i).map Prod.snd) : Agrees s W := by
  have hlen (i : ι) : (s.list i).size = (W i).length := by
    rw [hW, List.length_map]
    exact hw.count_eq i
  refine ⟨⟨V, hw.toConsist, hW⟩, hlen, ?_, ?_⟩
  · intro i
    have hi := hlen i
    unfold Slist.size at hi
    rw [Slist.isEmpty, decide_eq_true_iff, hi, Nat.cast_eq_zero, List.length_eq_zero_iff]
  · intro i hpos
    have hchain := hw.chain i
    rw [hlen, hW] at hpos
    rw [hW]
    cases hV : V i with
    | nil =>
        rw [hV] at hpos
        cases hpos
    | cons x xs =>
        rw [hV] at hchain
        exact Slist.front_of_chain hchain

theorem Agrees.consist_unique (h : Agrees s W) (hchain : ∀ i, Chain s.heap (s.list i).head (V i)) :
    Consist s V ∧ ∀ i, W i = (V i).map Prod.snd := by
  obtain ⟨V', hV', hW⟩ := h.nodes
  have heq : V' = V := by
    funext i
    exact (hV'.chain i).unique (hchain i)
  subst heq
  exact ⟨hV', hW⟩

theorem map_update [DecidableEq ι] {ts : List α} (hW : ∀ k, W k = (V k).map Prod.snd)
    (hts : ts = xs.map Prod.snd) (k : ι) :
    Function.update W i ts k = (Function.update V i xs k).map Prod.snd :=
  update_pair (P := fun ts xs ↦ ts = List.map Prod.snd xs) hts (fun k _ ↦ hW k) k

/-- A step under the condition does to the values what it should. -/
theorem whole_step [DecidableEq ι] (hw : Whole s V) (hW : ∀ i, W i = (V i).map Prod.snd)
    {m : SlistMove ι α} (hm : Appends s m) :
    ∃ s' V', step s m = some s' ∧ Whole s' V' ∧ ∀ i, listStep W m i = (V' i).map Prod.snd := by
  cases m with
  | pushBack i t =>
      have hroom : (V i).length + 1 < 2 ^ 31 := by
        have hcount := hw.count_eq i
        have hlt : (s.list i).count + 1 < 2 ^ 31 := hm.2
        omega
      obtain ⟨l', h', hpush⟩ := Slist.pushBack_isSome (hw.rep hm.1) hroom t
      refine ⟨_, _, congrArg (Option.map (s.set i)) hpush,
        (replaces_pushBack hw hm.1 hroom hpush).whole hw, ?_⟩
      refine map_update hW ?_
      rw [hW, List.map_append]
      rfl
  | popFront i =>
      cases hV : V i with
      | nil =>
          have hpop := popFront_of_nil (hV ▸ hw.chain i : Chain s.heap (s.list i).head [])
          refine ⟨s, V, ?_, hw, ?_⟩
          · rw [step, hpop, Option.map_some, set, Function.update_eq_self]
          · have hWi : (W i).tail = W i := by
              rw [hW, hV]
              rfl
            intro k
            rw [listStep, hWi, Function.update_eq_self]
            exact hW k
      | cons x xs =>
          have hchain := hw.chain i
          have hcount := hw.count_eq i
          have hsmall := hw.small i
          rw [hV] at hchain hcount hsmall
          obtain ⟨l', h', hpop⟩ := Slist.popFront_isSome hchain hcount hsmall
          refine ⟨_, _, congrArg (Option.map (s.set i)) hpop,
            (replaces_popFront hw hV hpop).whole hw, ?_⟩
          refine map_update hW ?_
          rw [hW, hV]
          rfl
  | clear i =>
      obtain ⟨l', h', hclear, hr⟩ := replaces_clear hw i
      exact ⟨_, _, congrArg (Option.map (s.set i)) hclear, hr.whole hw, map_update hW rfl⟩
  | swap i j =>
      refine ⟨_, _, rfl, hw.swap i j, ?_⟩
      exact fun k ↦ hW _
  | join i j =>
      by_cases hij : i = j
      · refine ⟨s, V, ?_, hw, ?_⟩
        · rw [step, join, if_pos hij]
        · intro k
          rw [listStep, if_pos hij]
          exact hW k
      · obtain ⟨hattached, hsum⟩ := Or.resolve_left hm hij
        have hroom : (V i).length + (V j).length < 2 ^ 31 := by
          have hcount := hw.count_eq i
          have hcount' := hw.count_eq j
          have hlt : (s.list i).count + (s.list j).count < 2 ^ 31 := hsum
          omega
        obtain ⟨l', h', hjoin⟩ := Slist.join_isSome (hw.rep hattached) (hw.count_eq j) hroom
        refine ⟨_, _, ?_, whole_join hw hij hattached hroom hjoin, ?_⟩
        · rw [step, join, if_neg hij, hjoin, Option.map_some]
        · rw [listStep, if_neg hij]
          refine map_update (map_update hW rfl) ?_
          rw [hW, hW, List.map_append]

/-! ## Where an element is lost or a freed node is used -/

theorem add_lt_of_addInt {a b c : ℤ} (h : addInt a b = some c) : a + b < 2 ^ 31 := by
  unfold addInt at h
  split at h
  · rename_i hbounds
    exact hbounds.2
  · cases h

theorem count_of_pushBack (hpush : l.pushBack h t = some (l', h')) : l.count + 1 < 2 ^ 31 := by
  obtain ⟨count, hcount, -⟩ := Option.bind_eq_some_iff.mp hpush
  exact add_lt_of_addInt hcount

theorem count_of_join (hjoin : l.join other h = some (l', h')) :
    l.count + other.count < 2 ^ 31 := by
  obtain ⟨count, hcount, -⟩ := Option.bind_eq_some_iff.mp hjoin
  exact add_lt_of_addInt hcount

theorem of_not_attached (hchain : Chain h l.head xs) (ht : TailOf h l xs)
    (hnot : ¬ l.Attached h) :
    l.tail = none ∧ xs ≠ [] ∨ ∃ a, l.tail = some a ∧ a < h.fresh ∧ h.read a = none := by
  unfold Slist.Attached at hnot
  split at hnot
  · rename_i a ha
    obtain ⟨hlt, -⟩ := ht a ha
    exact Or.inr ⟨a, ha, hlt, Option.not_isSome_iff_eq_none.mp hnot⟩
  · rename_i hnone
    refine Or.inl ⟨hnone, ?_⟩
    rintro rfl
    exact hnot hchain

/-- Pushed to a list with nodes and a null tail, an element is not reached from the head. -/
theorem pushBack_lost [DecidableEq ι] (hw : Whole s V) (hW : ∀ k, W k = (V k).map Prod.snd)
    (hnot : ¬ (s.list i).Attached s.heap)
    (hpush : (s.list i).pushBack s.heap t = some (l', h')) :
    ¬ Agrees (s.set i (l', h')) (Function.update W i (W i ++ [t])) := by
  intro hagrees
  have hold {k : ι} {a : ℕ} (n : Node α) (ha : a ∈ (V k).map Prod.fst) :
      (s.heap.alloc n).read a = s.heap.read a := by
    obtain ⟨m, hm⟩ := hw.read_of_mem ha
    exact Heap.read_alloc_of_ne _ (Heap.ne_fresh_of_read hm)
  obtain ⟨rfl, hcases⟩ := Slist.pushBack_cases hpush
  rcases of_not_attached (hw.chain i) (hw.tail i) hnot with ⟨hnone, hne⟩ | ⟨a, ha, hlt, hfreed⟩
  · obtain ⟨-, rfl⟩ | ⟨last, n, hlast, -⟩ := hcases
    · have hchain : ∀ k, Chain (s.heap.alloc ⟨t, none⟩)
          (Function.update s.list i ⟨(s.list i).count + 1, (s.list i).head.or (some s.heap.fresh),
            some s.heap.fresh⟩ k).head (V k) := by
        intro k
        have hframe := (hw.chain k).frame fun a ha ↦ hold (⟨t, none⟩ : Node α) ha
        by_cases hk : k = i
        · subst hk
          have hhead : (s.list k).head.or (some s.heap.fresh) = (s.list k).head := by
            cases hhd : (s.list k).head with
            | some p => rfl
            | none =>
                have hempty := hw.chain k
                rw [hhd] at hempty
                exact absurd (hempty.unique (Chain.nil_iff.mpr rfl)) hne
          rw [Function.update_self]
          dsimp only
          rw [hhead]
          exact hframe
        · rw [Function.update_of_ne hk]
          exact hframe
      have hlen := congrArg List.length ((hagrees.consist_unique hchain).2 i)
      rw [Function.update_self, hW, List.length_append, List.length_singleton] at hlen
      omega
    · rw [hnone] at hlast
      cases hlast
  · obtain ⟨hnone, -⟩ | ⟨last, n, hlast, hread, -⟩ := hcases
    · rw [ha] at hnone
      cases hnone
    · rw [ha] at hlast
      cases hlast
      rw [Heap.read_alloc_of_ne _ hlt.ne, hfreed] at hread
      cases hread

/-- Joined to a list with nodes and a null tail, the other list takes their place. -/
theorem join_lost [DecidableEq ι] (hw : Whole s V) (hW : ∀ k, W k = (V k).map Prod.snd)
    (hij : i ≠ j) (hnot : ¬ (s.list i).Attached s.heap)
    (hjoin : (s.list i).join (s.list j) s.heap = some (l', h')) :
    ¬ Agrees ⟨h', Function.update (Function.update s.list j Slist.empty) i l'⟩
      (Function.update (Function.update W j []) i (W i ++ W j)) := by
  intro hagrees
  obtain ⟨-, -, hcases⟩ := Slist.join_cases hjoin
  rcases of_not_attached (hw.chain i) (hw.tail i) hnot with ⟨hnone, hne⟩ | ⟨a, ha, hlt, hfreed⟩
  · obtain ⟨-, hhead, rfl⟩ | ⟨last, n, hlast, -⟩ := hcases
    · have hchain : ∀ k, Chain s.heap
          (Function.update (Function.update s.list j Slist.empty) i l' k).head
          (Function.update (Function.update V j []) i (V j) k) := by
        intro k
        by_cases hk : k = i
        · subst hk
          rw [Function.update_self, Function.update_self, hhead]
          exact hw.chain j
        · rw [Function.update_of_ne hk, Function.update_of_ne hk]
          by_cases hkj : k = j
          · subst hkj
            rw [Function.update_self, Function.update_self]
            exact rfl
          · rw [Function.update_of_ne hkj, Function.update_of_ne hkj]
            exact hw.chain k
      have hlen := congrArg List.length ((hagrees.consist_unique hchain).2 i)
      rw [Function.update_self, Function.update_self, hW, hW, List.length_append, List.length_map,
        List.length_map] at hlen
      have hpos := List.length_pos_of_ne_nil hne
      omega
    · rw [hnone] at hlast
      cases hlast
  · obtain ⟨hnone, -⟩ | ⟨last, n, hlast, -, hread, -⟩ := hcases
    · rw [ha] at hnone
      cases hnone
    · rw [ha] at hlast
      cases hlast
      rw [hfreed] at hread
      cases hread

theorem appends_of_agrees [DecidableEq ι] (hw : Whole s V) (hW : ∀ k, W k = (V k).map Prod.snd)
    {m : SlistMove ι α} (hstep : step s m = some s') (hagrees : Agrees s' (listStep W m)) :
    Appends s m := by
  cases m with
  | pushBack i t =>
      obtain ⟨⟨l', h'⟩, hpush, rfl⟩ := Option.map_eq_some_iff.mp hstep
      refine ⟨?_, count_of_pushBack hpush⟩
      by_contra hnot
      exact pushBack_lost hw hW hnot hpush hagrees
  | join i j =>
      by_cases hij : i = j
      · exact Or.inl hij
      · rw [step, join, if_neg hij] at hstep
        obtain ⟨⟨l', h'⟩, hjoin, rfl⟩ := Option.map_eq_some_iff.mp hstep
        refine Or.inr ⟨?_, count_of_join hjoin⟩
        rw [listStep, if_neg hij] at hagrees
        by_contra hnot
        exact join_lost hw hW hij hnot hjoin hagrees
  | popFront i => trivial
  | clear i => trivial
  | swap i j => trivial

/-! ## Runs -/

theorem whole_initial : Whole (initial : Slists ι α) fun _ ↦ [] where
  chain := fun _ ↦ rfl
  count_eq := fun _ ↦ rfl
  apart := fun _ _ _ _ ha ↦ absurd ha List.not_mem_nil
  owned := by
    intro a n ha
    cases ha
  tail := by
    intro i a ha
    cases ha
  small := fun _ ↦ Nat.two_pow_pos 31

/-- Nodes that values are made of, when the tails of the lists are known to be usable or freed. -/
theorem whole_of_agrees (hs : ∃ V, Whole s V) (hagrees : Agrees s W) :
    ∃ V, Whole s V ∧ ∀ i, W i = (V i).map Prod.snd := by
  obtain ⟨V, hw⟩ := hs
  exact ⟨V, hw, (hagrees.consist_unique hw.chain).2⟩

theorem agrees_step_iff [DecidableEq ι] (hs : ∃ V, Whole s V) (hagrees : Agrees s W)
    (m : SlistMove ι α) :
    (∃ s', step s m = some s' ∧ Agrees s' (listStep W m)) ↔ Appends s m := by
  obtain ⟨V, hw, hW⟩ := whole_of_agrees hs hagrees
  constructor
  · rintro ⟨s', hstep, hagrees'⟩
    exact appends_of_agrees hw hW hstep hagrees'
  · intro hm
    obtain ⟨s', V', hstep, hw', hW'⟩ := whole_step hw hW hm
    exact ⟨s', hstep, hw'.agrees hW'⟩

/-- The lists hold what lists hold, and no node is lost, shared or used after it was freed,
exactly as long as elements and lists are only appended where the tail can be used. -/
theorem lists_iff_appends [DecidableEq ι] (moves : List (SlistMove ι α)) :
    (∀ before, before <+: moves → ∃ s', (system ι α).run initial before = some s' ∧
        Agrees s' (before.foldl listStep fun _ ↦ [])) ↔
      (system ι α).Allowed Appends initial moves := by
  have hinv (s : Slists ι α) (W : ι → List α) (m : SlistMove ι α) (s' : Slists ι α)
      (hs : ∃ V, Whole s V) (hagrees : Agrees s W) (_ : (system ι α).enabled s m)
      (hstep : (system ι α).step s m = some s') (hagrees' : Agrees s' (listStep W m)) :
      ∃ V, Whole s' V := by
    obtain ⟨V, hw, hW⟩ := whole_of_agrees hs hagrees
    obtain ⟨s₁, V', hstep', hw', -⟩ := whole_step hw hW (appends_of_agrees hw hW hstep hagrees')
    have heq : s₁ = s' := Option.some.inj (hstep'.symm.trans hstep)
    exact ⟨V', heq ▸ hw'⟩
  have hstep (s : Slists ι α) (W : ι → List α) (m : SlistMove ι α) (hs : ∃ V, Whole s V)
      (hagrees : Agrees s W) (_ : (system ι α).enabled s m) :
      (∃ s', (system ι α).step s m = some s' ∧ Agrees s' (listStep W m)) ↔ Appends s m :=
    agrees_step_iff hs hagrees m
  exact System.simulates_iff hinv hstep ⟨_, whole_initial⟩
    (whole_initial.agrees fun _ ↦ rfl) (System.allowed_anyStep (fun _ _ ↦ trivial) _ _)

/-- After `clear` the next element is written behind a node that was freed. -/
theorem pushBack_after_clear :
    ¬ ∀ before, before <+: [.pushBack () 1, .clear (), .pushBack () 2] →
      ∃ s', (system Unit ℕ).run initial before = some s' ∧
        Agrees s' (before.foldl listStep fun _ ↦ []) := by
  intro h
  obtain ⟨s', hs', -⟩ := h _ (List.prefix_refl _)
  cases hs'

end Slists

end Slience
