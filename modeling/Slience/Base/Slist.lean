import Slience.Lib.Heap
import Slience.Lib.Bytes

/-!
# The singly linked list

`base::slist` keeps a count and two pointers, to its first and to its last node.
The nodes of all lists of one element type live in one heap.  Following a null or
dangling pointer has no result, and neither has an `int` that overflows.

`Rep h l xs` says that the list is well formed: the nodes `xs` are those reached from
`_head`, the count is their number and `_tail` is the last of them.  `Loose h l xs` keeps
of this only what `join` with an empty list leaves: the nodes `xs` are those reached from
`_head`, and the tail is null, or the last of them, or some node off the chain.
-/

namespace Slience

structure Slist where
  count : ℤ
  head : Option ℕ
  tail : Option ℕ
  deriving DecidableEq

namespace Slist

variable {α : Type}

/-- `slist::slist()` -/
def empty : Slist := ⟨0, none, none⟩

/-- `slist::push_back` -/
def pushBack (l : Slist) (h : Heap (Node α)) (t : α) : Option (Slist × Heap (Node α)) := do
  let pnode := h.fresh
  let h := h.alloc ⟨t, none⟩
  let count ← addInt l.count 1
  match l.tail with
  | some last =>
      let n ← h.read last
      let h ← h.write last ⟨n.val, some pnode⟩
      some (⟨count, l.head.or (some pnode), some pnode⟩, h)
  | none => some (⟨count, l.head.or (some pnode), some pnode⟩, h)

/-- `slist::front` -/
def front (l : Slist) (h : Heap (Node α)) : Option α := do
  let p ← l.head
  let n ← h.read p
  some n.val

/-- `slist::pop_front` -/
def popFront (l : Slist) (h : Heap (Node α)) : Option (Slist × Heap (Node α)) :=
  match l.head with
  | none => some (l, h)
  | some p => do
      let n ← h.read p
      let h ← h.free p
      let count ← addInt l.count (-1)
      some (⟨count, n.next, if l.head = l.tail then n.next else l.tail⟩, h)

/-- `slist::join` of two different lists; the other list is empty afterwards. -/
def join (l other : Slist) (h : Heap (Node α)) : Option (Slist × Heap (Node α)) := do
  let count ← addInt l.count other.count
  match l.tail with
  | some last =>
      let n ← h.read last
      let h ← h.write last ⟨n.val, other.head⟩
      some (⟨count, l.head, other.tail⟩, h)
  | none => some (⟨count, other.head, other.tail⟩, h)

/-- The loop of `slist::~slist` and of `slist::clear` over at most `n` nodes. -/
def freeNodes : ℕ → Option ℕ → Heap (Node α) → Option (Heap (Node α))
  | _, none, h => some h
  | 0, some _, _ => none
  | n + 1, some p, h => do
      let node ← h.read p
      let h ← h.free p
      freeNodes n node.next h

/-- The address of the last node. -/
def lastAddr (xs : List (ℕ × α)) : Option ℕ := (xs.map Prod.fst).getLast?

@[simp] theorem lastAddr_nil : lastAddr ([] : List (ℕ × α)) = none := rfl

@[simp] theorem lastAddr_concat (xs : List (ℕ × α)) (x : ℕ × α) :
    lastAddr (xs ++ [x]) = some x.1 := by
  simp [lastAddr]

theorem lastAddr_append_of_ne_nil (xs : List (ℕ × α)) {ys : List (ℕ × α)} (hys : ys ≠ []) :
    lastAddr (xs ++ ys) = lastAddr ys := by
  rw [lastAddr, lastAddr, List.map_append, List.getLast?_append_of_ne_nil]
  simpa using hys

theorem lastAddr_eq_none_iff {xs : List (ℕ × α)} : lastAddr xs = none ↔ xs = [] := by
  simp [lastAddr]

theorem eq_concat_of_lastAddr {xs : List (ℕ × α)} {t : ℕ} (h : lastAddr xs = some t) :
    ∃ init v, xs = init ++ [(t, v)] := by
  induction xs using List.reverseRecOn with
  | nil => cases h
  | append_singleton init x _ =>
      rw [lastAddr_concat] at h
      cases h
      exact ⟨init, x.2, rfl⟩

theorem mem_of_lastAddr {xs : List (ℕ × α)} {t : ℕ} (h : lastAddr xs = some t) :
    t ∈ xs.map Prod.fst := by
  obtain ⟨init, v, rfl⟩ := eq_concat_of_lastAddr h
  simp

/-- The list is well formed and consists of the nodes `xs`. -/
structure Rep (h : Heap (Node α)) (l : Slist) (xs : List (ℕ × α)) : Prop where
  chain : Chain h l.head xs
  count_eq : l.count = xs.length
  tail_eq : l.tail = lastAddr xs

/-- The nodes `xs` are reached from the head, and the tail is a node that is not inside of
them. -/
structure Loose (h : Heap (Node α)) (l : Slist) (xs : List (ℕ × α)) : Prop where
  chain : Chain h l.head xs
  tail_read : ∀ t, l.tail = some t → ∃ n, h.read t = some n
  tail_last : ∀ t, l.tail = some t → t ∈ xs.map Prod.fst → lastAddr xs = some t

/-- The addresses a list depends on: its nodes and its tail. -/
def footprint (l : Slist) (xs : List (ℕ × α)) : List ℕ := xs.map Prod.fst ++ l.tail.toList

variable {h h' : Heap (Node α)} {l l' other : Slist} {xs ys : List (ℕ × α)} {t : α}

@[simp] theorem mem_footprint {a : ℕ} :
    a ∈ l.footprint xs ↔ a ∈ xs.map Prod.fst ∨ l.tail = some a := by
  simp [footprint, eq_comm]

theorem rep_empty (h : Heap (Node α)) : Rep h empty [] := ⟨rfl, rfl, rfl⟩

theorem Rep.loose (hl : Rep h l xs) : Loose h l xs where
  chain := hl.chain
  tail_read := by
    intro t ht
    rw [hl.tail_eq] at ht
    exact hl.chain.read_of_mem (mem_of_lastAddr ht)
  tail_last := by
    intro t ht _
    rw [← hl.tail_eq, ht]

theorem Rep.frame (hl : Rep h l xs) (hsame : ∀ a ∈ xs.map Prod.fst, h'.read a = h.read a) :
    Rep h' l xs :=
  ⟨hl.chain.frame hsame, hl.count_eq, hl.tail_eq⟩

theorem Loose.read_of_mem (hl : Loose h l xs) {a : ℕ} (ha : a ∈ l.footprint xs) :
    ∃ n, h.read a = some n := by
  rcases mem_footprint.mp ha with ha | ha
  · exact hl.chain.read_of_mem ha
  · exact hl.tail_read a ha

theorem Loose.frame (hl : Loose h l xs) (hsame : ∀ a ∈ l.footprint xs, h'.read a = h.read a) :
    Loose h' l xs where
  chain := hl.chain.frame fun a ha ↦ hsame a (mem_footprint.mpr (Or.inl ha))
  tail_read := by
    intro t ht
    rw [hsame t (mem_footprint.mpr (Or.inr ht))]
    exact hl.tail_read t ht
  tail_last := hl.tail_last

/-- A list whose chain is empty has a null head, and one with a node has that node as
head. -/
theorem Rep.eq_nil_of_count (hl : Rep h l xs) (hcount : l.count = 0) : xs = [] := by
  have hlen := hl.count_eq
  rw [hcount] at hlen
  exact List.length_eq_zero_iff.mp (by exact_mod_cast hlen.symm)

theorem Rep.exists_cons_of_count (hl : Rep h l xs) (hcount : l.count ≠ 0) :
    ∃ a v rest, xs = (a, v) :: rest := by
  cases xs with
  | nil => exact absurd hl.count_eq hcount
  | cons x rest => exact ⟨x.1, x.2, rest, rfl⟩

/-! ## The operations on well-formed lists -/

theorem front_of_chain {a : ℕ} (hl : Chain h l.head ((a, t) :: xs)) : l.front h = some t := by
  obtain ⟨hhead, r, hread, -⟩ := hl
  simp [front, hhead, hread]

theorem chain_of_front (hl : Chain h l.head xs) (hfront : l.front h = some t) :
    ∃ a rest, xs = (a, t) :: rest := by
  cases xs with
  | nil =>
      rw [Chain.nil_iff] at hl
      simp [front, hl] at hfront
  | cons x rest =>
      rw [front_of_chain hl] at hfront
      cases hfront
      exact ⟨x.1, rest, rfl⟩

theorem pushBack_cases (hpush : l.pushBack h t = some (l', h')) :
    l' = ⟨l.count + 1, l.head.or (some h.fresh), some h.fresh⟩ ∧
      (l.tail = none ∧ h' = h.alloc ⟨t, none⟩ ∨
        ∃ last n, l.tail = some last ∧ (h.alloc ⟨t, none⟩).read last = some n ∧
          h'.read last = some ⟨n.val, some h.fresh⟩ ∧
          ∀ a, a ≠ last → h'.read a = (h.alloc ⟨t, none⟩).read a) := by
  unfold pushBack at hpush
  obtain ⟨count, hcount, hpush⟩ := Option.bind_eq_some_iff.mp hpush
  cases eq_of_addInt hcount
  cases htl : l.tail with
  | none =>
      simp only [htl, Option.some.injEq, Prod.mk.injEq] at hpush
      exact ⟨hpush.1.symm, Or.inl ⟨rfl, hpush.2.symm⟩⟩
  | some last =>
      simp only [htl] at hpush
      obtain ⟨n, hread, hpush⟩ := Option.bind_eq_some_iff.mp hpush
      obtain ⟨h₂, hwrite, hpush⟩ := Option.bind_eq_some_iff.mp hpush
      obtain ⟨h₃, hwrite', hlast, hsame⟩ := Heap.write_spec ⟨n.val, some h.fresh⟩ hread
      rw [hwrite] at hwrite'
      cases hwrite'
      cases hpush
      exact ⟨rfl, Or.inr ⟨last, n, rfl, hread, hlast, hsame⟩⟩

theorem read_of_pushBack (hpush : l.pushBack h t = some (l', h')) {a : ℕ}
    (hfresh : a ≠ h.fresh) (htail : l.tail ≠ some a) : h'.read a = h.read a := by
  obtain ⟨-, ⟨-, rfl⟩ | ⟨last, n, hlast, -, -, hsame⟩⟩ := pushBack_cases hpush
  · exact Heap.read_alloc_of_ne _ hfresh
  · rw [hsame a (by rintro rfl; exact htail hlast), Heap.read_alloc_of_ne _ hfresh]

theorem read_fresh_of_pushBack (hl : Loose h l xs) (hpush : l.pushBack h t = some (l', h')) :
    h'.read h.fresh = some ⟨t, none⟩ := by
  obtain ⟨-, ⟨-, rfl⟩ | ⟨last, n, hlast, -, -, hsame⟩⟩ := pushBack_cases hpush
  · exact Heap.read_alloc_fresh h _
  · obtain ⟨m, hm⟩ := hl.tail_read last hlast
    rw [hsame _ (Heap.ne_fresh_of_read hm).symm, Heap.read_alloc_fresh]

theorem chain_of_pushBack (hl : Loose h l xs) (htail : l.tail = lastAddr xs)
    (hpush : l.pushBack h t = some (l', h')) : Chain h' l'.head (xs ++ [(h.fresh, t)]) := by
  have hnew : Chain h' (some h.fresh) [(h.fresh, t)] :=
    ⟨rfl, none, read_fresh_of_pushBack hl hpush, rfl⟩
  obtain ⟨rfl, hcases⟩ := pushBack_cases hpush
  rcases hcases with ⟨hnone, -⟩ | ⟨last, n, hlast, hread, hlast', hsame⟩
  · rw [hnone, eq_comm, lastAddr_eq_none_iff] at htail
    subst htail
    have hhead : l.head = none := hl.chain
    rw [hhead]
    exact hnew
  · rw [hlast] at htail
    obtain ⟨init, v, rfl⟩ := eq_concat_of_lastAddr htail.symm
    obtain ⟨m, hm⟩ := hl.tail_read last hlast
    have hval : h.read last = some ⟨v, none⟩ := (Chain.concat_iff.mp hl.chain).2
    rw [Heap.read_alloc_of_ne _ (Heap.ne_fresh_of_read hm), hval] at hread
    cases hread
    have hhead : l.head.or (some h.fresh) = l.head := by
      cases hhd : l.head with
      | some p => rfl
      | none =>
          have hnil : init ++ [(last, v)] = [] := (hl.chain).unique (hhd ▸ Chain.nil_iff.mpr rfl)
          simp at hnil
    rw [hhead]
    refine hl.chain.link ?_ hlast' hnew
    intro b hb hne
    obtain ⟨m', hm'⟩ := hl.chain.read_of_mem hb
    rw [hsame b hne, Heap.read_alloc_of_ne _ (Heap.ne_fresh_of_read hm')]

theorem rep_of_pushBack (hl : Rep h l xs) (hpush : l.pushBack h t = some (l', h')) :
    Rep h' l' (xs ++ [(h.fresh, t)]) where
  chain := chain_of_pushBack hl.loose hl.tail_eq hpush
  count_eq := by
    rw [(pushBack_cases hpush).1, List.length_append, Nat.cast_add, hl.count_eq]
    rfl
  tail_eq := by rw [(pushBack_cases hpush).1, lastAddr_concat]

theorem pushBack_isSome (hl : Rep h l xs) (hlen : xs.length + 1 < 2 ^ 31) (t : α) :
    ∃ l' h', l.pushBack h t = some (l', h') := by
  have hcount : addInt l.count 1 = some (l.count + 1) := by
    have hc := hl.count_eq
    apply addInt_of_bounds <;> omega
  unfold pushBack
  rw [hcount]
  cases htl : l.tail with
  | none => exact ⟨_, _, rfl⟩
  | some last =>
      obtain ⟨n, hn⟩ := hl.loose.tail_read last htl
      have hread : (h.alloc ⟨t, none⟩).read last = some n := by
        rw [Heap.read_alloc_of_ne _ (Heap.ne_fresh_of_read hn), hn]
      obtain ⟨h₃, hwrite, -, -⟩ := Heap.write_spec ⟨n.val, some h.fresh⟩ hread
      refine ⟨⟨l.count + 1, l.head.or (some h.fresh), some h.fresh⟩, h₃, ?_⟩
      simp [hread, hwrite]

theorem popFront_cases {a : ℕ} (hl : Chain h l.head ((a, t) :: xs))
    (hpop : l.popFront h = some (l', h')) :
    l'.count = l.count - 1 ∧ Chain h l'.head xs ∧
      l'.tail = (if l.head = l.tail then l'.head else l.tail) ∧
      ∀ b, b ≠ a → h'.read b = h.read b := by
  obtain ⟨hhead, r, hread, hrest⟩ := hl
  obtain ⟨h₂, hfree, -, hsame⟩ := Heap.free_spec hread
  simp only [popFront, hhead, hread, hfree, Option.bind_eq_bind, Option.bind_some] at hpop
  obtain ⟨count, hcount, hpop⟩ := Option.bind_eq_some_iff.mp hpop
  cases eq_of_addInt hcount
  cases hpop
  refine ⟨rfl, hrest, ?_, hsame⟩
  rw [hhead]

theorem chain_of_popFront {a : ℕ} (hl : Chain h l.head ((a, t) :: xs))
    (hpop : l.popFront h = some (l', h')) : Chain h' l'.head xs := by
  have hnodup := hl.nodup
  rw [List.map_cons, List.nodup_cons] at hnodup
  obtain ⟨-, hrest, -, hsame⟩ := popFront_cases hl hpop
  apply hrest.frame
  intro b hb
  apply hsame
  rintro rfl
  exact hnodup.1 hb

theorem loose_of_popFront {a : ℕ} (hl : Loose h l ((a, t) :: xs))
    (hpop : l.popFront h = some (l', h')) : Loose h' l' xs := by
  have hchain := chain_of_popFront hl.chain hpop
  obtain ⟨-, hrest, htail, hsame⟩ := popFront_cases hl.chain hpop
  have hhead : l.head = some a := hl.chain.1
  rw [hhead] at htail
  by_cases heq : some a = l.tail
  · -- the popped node was the last one
    have hnil : xs = [] := by
      have hlast := hl.tail_last a heq.symm (by simp)
      cases xs with
      | nil => rfl
      | cons x xs =>
          have hnodup := hl.chain.nodup
          rw [show (a, t) :: x :: xs = [(a, t)] ++ x :: xs from rfl,
            lastAddr_append_of_ne_nil _ (by simp)] at hlast
          rw [List.map_cons, List.nodup_cons] at hnodup
          exact absurd (mem_of_lastAddr hlast) hnodup.1
    subst hnil
    have hnone : l'.head = none := hchain
    rw [if_pos heq, hnone] at htail
    exact ⟨hchain, by simp [htail], by simp [htail]⟩
  · rw [if_neg heq] at htail
    refine ⟨hchain, ?_, ?_⟩
    · intro u hu
      rw [htail] at hu
      obtain ⟨n, hn⟩ := hl.tail_read u hu
      exact ⟨n, by rw [hsame u (by rintro rfl; exact heq hu.symm), hn]⟩
    · intro u hu hmem
      rw [htail] at hu
      have hlast := hl.tail_last u hu (by rw [List.map_cons]; exact List.mem_cons_of_mem _ hmem)
      have hne : xs ≠ [] := by
        rintro rfl
        simp at hmem
      rwa [show (a, t) :: xs = [(a, t)] ++ xs from rfl, lastAddr_append_of_ne_nil _ hne] at hlast

theorem rep_of_popFront {a : ℕ} (hl : Rep h l ((a, t) :: xs))
    (hpop : l.popFront h = some (l', h')) : Rep h' l' xs := by
  have hchain := chain_of_popFront hl.chain hpop
  obtain ⟨hcount, hrest, htail, -⟩ := popFront_cases hl.chain hpop
  refine ⟨hchain, ?_, ?_⟩
  · rw [hcount, hl.count_eq]
    simp
  · rw [htail, hl.tail_eq, (hl.chain.1 : l.head = some a)]
    cases xs with
    | nil =>
        have hnone : l'.head = none := hchain
        simp [lastAddr, hnone]
    | cons x xs =>
        have hnodup := hl.chain.nodup
        rw [List.map_cons, List.nodup_cons] at hnodup
        rw [show (a, t) :: x :: xs = [(a, t)] ++ x :: xs from rfl,
          lastAddr_append_of_ne_nil _ (by simp), if_neg]
        intro heq
        exact hnodup.1 (mem_of_lastAddr heq.symm)

theorem popFront_isSome {a : ℕ} (hl : Chain h l.head ((a, t) :: xs))
    (hc : l.count = ((a, t) :: xs).length) (hlen : xs.length + 1 < 2 ^ 31) :
    ∃ l' h', l.popFront h = some (l', h') := by
  obtain ⟨hhead, r, hread, -⟩ := hl
  obtain ⟨h₂, hfree, -, -⟩ := Heap.free_spec hread
  have hcount : addInt l.count (-1) = some (l.count + -1) := by
    rw [List.length_cons] at hc
    apply addInt_of_bounds <;> omega
  refine ⟨⟨l.count + -1, r, if l.head = l.tail then r else l.tail⟩, h₂, ?_⟩
  simp [popFront, hhead, hread, hfree, hcount]

theorem join_cases (hjoin : l.join other h = some (l', h')) :
    l'.count = l.count + other.count ∧ l'.tail = other.tail ∧
      (l.tail = none ∧ l'.head = other.head ∧ h' = h ∨
        ∃ last n, l.tail = some last ∧ l'.head = l.head ∧ h.read last = some n ∧
          h'.read last = some ⟨n.val, other.head⟩ ∧
          ∀ a, a ≠ last → h'.read a = h.read a) := by
  unfold join at hjoin
  obtain ⟨count, hcount, hjoin⟩ := Option.bind_eq_some_iff.mp hjoin
  cases eq_of_addInt hcount
  cases htl : l.tail with
  | none =>
      simp only [htl] at hjoin
      cases hjoin
      exact ⟨rfl, rfl, Or.inl ⟨rfl, rfl, rfl⟩⟩
  | some last =>
      simp only [htl] at hjoin
      obtain ⟨n, hread, hjoin⟩ := Option.bind_eq_some_iff.mp hjoin
      obtain ⟨h₂, hwrite, hjoin⟩ := Option.bind_eq_some_iff.mp hjoin
      obtain ⟨h₃, hwrite', hlast, hsame⟩ := Heap.write_spec ⟨n.val, other.head⟩ hread
      rw [hwrite] at hwrite'
      cases hwrite'
      cases hjoin
      exact ⟨rfl, rfl, Or.inr ⟨last, n, rfl, rfl, hread, hlast, hsame⟩⟩

theorem read_of_join (hjoin : l.join other h = some (l', h')) {a : ℕ} (htail : l.tail ≠ some a) :
    h'.read a = h.read a := by
  obtain ⟨-, -, ⟨-, -, rfl⟩ | ⟨last, n, hlast, -, -, -, hsame⟩⟩ := join_cases hjoin
  · rfl
  · apply hsame
    rintro rfl
    exact htail hlast

theorem chain_other_of_join (ho : Chain h other.head ys)
    (hdisj : ∀ a ∈ l.footprint xs, a ∉ ys.map Prod.fst)
    (hjoin : l.join other h = some (l', h')) : Chain h' other.head ys := by
  apply ho.frame
  intro a ha
  apply read_of_join hjoin
  intro htail
  exact hdisj a (mem_footprint.mpr (Or.inr htail)) ha

theorem chain_of_join (hl : Loose h l xs) (htail : l.tail = lastAddr xs)
    (ho : Chain h other.head ys)
    (hdisj : ∀ a ∈ l.footprint xs, a ∉ ys.map Prod.fst)
    (hjoin : l.join other h = some (l', h')) : Chain h' l'.head (xs ++ ys) := by
  have hother := chain_other_of_join ho hdisj hjoin
  obtain ⟨-, -, ⟨hnone, hhead, -⟩ | ⟨last, n, hlast, hhead, hread, hlast', hsame⟩⟩ :=
    join_cases hjoin
  · rw [hnone, eq_comm, lastAddr_eq_none_iff] at htail
    subst htail
    rw [hhead]
    exact hother
  · rw [hlast] at htail
    obtain ⟨init, v, rfl⟩ := eq_concat_of_lastAddr htail.symm
    have hval : h.read last = some ⟨v, none⟩ := (Chain.concat_iff.mp hl.chain).2
    rw [hval] at hread
    cases hread
    rw [hhead]
    exact hl.chain.link (fun b _ hne ↦ hsame b hne) hlast' hother

/-- Specification of `join`.  An empty list must not be joined to a list with nodes: the
tail becomes null. -/
theorem rep_of_join (hl : Rep h l xs) (ho : Rep h other ys)
    (hdisj : ∀ a ∈ l.footprint xs, a ∉ ys.map Prod.fst) (hne : ys ≠ [] ∨ xs = [])
    (hjoin : l.join other h = some (l', h')) : Rep h' l' (xs ++ ys) where
  chain := chain_of_join hl.loose hl.tail_eq ho.chain hdisj hjoin
  count_eq := by
    rw [(join_cases hjoin).1, hl.count_eq, ho.count_eq, List.length_append, Nat.cast_add]
  tail_eq := by
    rw [(join_cases hjoin).2.1, ho.tail_eq]
    rcases hne with hne | rfl
    · rw [lastAddr_append_of_ne_nil _ hne]
    · rw [List.nil_append]

theorem join_isSome (hl : Rep h l xs) (hc' : other.count = ys.length)
    (hlen : xs.length + ys.length < 2 ^ 31) : ∃ l' h', l.join other h = some (l', h') := by
  have hcount : addInt l.count other.count = some (l.count + other.count) := by
    have hc := hl.count_eq
    apply addInt_of_bounds <;> omega
  unfold join
  rw [hcount]
  cases htl : l.tail with
  | none => exact ⟨_, _, rfl⟩
  | some last =>
      obtain ⟨n, hread⟩ := hl.loose.tail_read last htl
      obtain ⟨h₃, hwrite, -, -⟩ := Heap.write_spec ⟨n.val, other.head⟩ hread
      refine ⟨⟨l.count + other.count, l.head, other.tail⟩, h₃, ?_⟩
      simp [hread, hwrite]

/-! ## The operations on loose lists -/

/-- A list joined to a loose list adds its nodes, or replaces the chain, or is lost. -/
theorem loose_of_join (hl : Loose h l xs) (ho : Rep h other ys)
    (hdisj : ∀ a ∈ l.footprint xs, a ∉ ys.map Prod.fst)
    (hjoin : l.join other h = some (l', h')) :
    ∃ zs, Loose h' l' zs ∧ zs.Sublist (xs ++ ys) := by
  have hother := chain_other_of_join ho.chain hdisj hjoin
  have htail' : l'.tail = lastAddr ys := by rw [(join_cases hjoin).2.1, ho.tail_eq]
  have hread' : ∀ t, l'.tail = some t → ∃ n, h'.read t = some n := by
    intro t ht
    rw [htail'] at ht
    exact hother.read_of_mem (mem_of_lastAddr ht)
  by_cases htail : l.tail = lastAddr xs
  · refine ⟨xs ++ ys, ⟨chain_of_join hl htail ho.chain hdisj hjoin, hread', ?_⟩,
      List.Sublist.refl _⟩
    intro t ht _
    rw [htail'] at ht
    have hne : ys ≠ [] := by
      rintro rfl
      cases ht
    rw [lastAddr_append_of_ne_nil _ hne, ht]
  · obtain ⟨-, -, ⟨hnone, hhead, -⟩ | ⟨last, n, hlast, hhead, -, -, hsame⟩⟩ := join_cases hjoin
    · refine ⟨ys, ⟨hhead ▸ hother, hread', ?_⟩, List.sublist_append_right xs ys⟩
      intro t ht _
      rw [← htail', ht]
    · have hoff : last ∉ xs.map Prod.fst := by
        intro hmem
        rw [hl.tail_last last hlast hmem] at htail
        exact htail hlast
      refine ⟨xs, ⟨?_, hread', ?_⟩, List.sublist_append_left xs ys⟩
      · rw [hhead]
        apply hl.chain.frame
        intro a ha
        apply hsame
        rintro rfl
        exact hoff ha
      · intro t ht hmem
        rw [htail'] at ht
        exact absurd (mem_of_lastAddr ht) (hdisj t (mem_footprint.mpr (Or.inl hmem)))

/-- A value pushed to a loose list is added at the end, or replaces the empty chain, or is
lost. -/
theorem loose_of_pushBack (hl : Loose h l xs) (hpush : l.pushBack h t = some (l', h')) :
    ∃ zs, Loose h' l' zs ∧ zs.Sublist (xs ++ [(h.fresh, t)]) := by
  have hfresh := read_fresh_of_pushBack hl hpush
  have htail' : l'.tail = some h.fresh := by rw [(pushBack_cases hpush).1]
  have hhead' : l'.head = l.head.or (some h.fresh) := by rw [(pushBack_cases hpush).1]
  have hread' : ∀ u, l'.tail = some u → ∃ n, h'.read u = some n := by
    intro u hu
    rw [htail'] at hu
    cases hu
    exact ⟨_, hfresh⟩
  by_cases htail : l.tail = lastAddr xs
  · refine ⟨xs ++ [(h.fresh, t)], ⟨chain_of_pushBack hl htail hpush, hread', ?_⟩,
      List.Sublist.refl _⟩
    intro u hu _
    rw [lastAddr_concat, ← hu, htail']
  · cases hhd : l.head with
    | none =>
        refine ⟨[(h.fresh, t)], ⟨?_, hread', ?_⟩, List.sublist_append_right xs _⟩
        · rw [hhead', hhd]
          exact ⟨rfl, none, hfresh, rfl⟩
        · intro u hu _
          rw [← hu, htail']
          rfl
    | some p =>
        have hne : ∀ a ∈ xs.map Prod.fst, a ≠ h.fresh := by
          intro a ha
          obtain ⟨n, hn⟩ := hl.chain.read_of_mem ha
          exact Heap.ne_fresh_of_read hn
        refine ⟨xs, ⟨?_, hread', ?_⟩, List.sublist_append_left xs _⟩
        · rw [hhead', hhd, Option.some_or, ← hhd]
          apply hl.chain.frame
          intro a ha
          apply read_of_pushBack hpush (hne a ha)
          intro hlast
          exact htail (hlast.trans (hl.tail_last a hlast ha).symm)
        · intro u hu hmem
          rw [htail'] at hu
          cases hu
          exact absurd rfl (hne _ hmem)

end Slist

end Slience
