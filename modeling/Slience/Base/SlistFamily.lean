import Slience.Base.Slist
import Mathlib.Logic.Equiv.Basic

/-!
# Several lists over one heap

The lists of a family are separate when no cell belongs to two of them.  The rules of
this module say for each operation on one list of a family what it does to that list and
that all others stay what they were.
-/

namespace Slience

namespace Slist

variable {α ι : Type}

/-- The lists `l i` have the nodes `V i` and share no cell. -/
structure Separate (h : Heap (Node α)) (l : ι → Slist) (V : ι → List (ℕ × α)) : Prop where
  loose : ∀ i, Loose h (l i) (V i)
  apart : ∀ i j, i ≠ j → ∀ a ∈ (l i).footprint (V i), a ∉ (l j).footprint (V j)

namespace Separate

variable {h h' : Heap (Node α)} {l : ι → Slist} {V : ι → List (ℕ × α)} {i j : ι} {l' : Slist}
  {xs : List (ℕ × α)} {t : α}

/-- The cells in use by no other list than `l i` may change. -/
def OnlyAt (l : ι → Slist) (V : ι → List (ℕ × α)) (i : ι) (h h' : Heap (Node α)) : Prop :=
  ∀ a n, a ∉ (l i).footprint (V i) → h.read a = some n → h'.read a = some n

theorem same_of_onlyAt (hs : Separate h l V) (honly : OnlyAt l V i h h') (hij : j ≠ i) {a : ℕ}
    (ha : a ∈ (l j).footprint (V j)) : h'.read a = h.read a := by
  obtain ⟨n, hn⟩ := (hs.loose j).read_of_mem ha
  rw [hn, honly a n (hs.apart j i hij a ha) hn]

theorem rep_of_onlyAt (hs : Separate h l V) (honly : OnlyAt l V i h h') (hij : j ≠ i)
    (hj : Rep h (l j) (V j)) : Rep h' (l j) (V j) := by
  apply hj.frame
  intro a ha
  exact hs.same_of_onlyAt honly hij (mem_footprint.mpr (Or.inl ha))

/-- Replacing one list by another one that uses its cells and cells of no list. -/
theorem update [DecidableEq ι] (hs : Separate h l V) (honly : OnlyAt l V i h h')
    (hl' : Loose h' l' xs)
    (hfoot : ∀ a ∈ l'.footprint xs,
      a ∈ (l i).footprint (V i) ∨ ∀ j, a ∉ (l j).footprint (V j)) :
    Separate h' (Function.update l i l') (Function.update V i xs) := by
  have hfar : ∀ j, j ≠ i → ∀ a ∈ l'.footprint xs, a ∉ (l j).footprint (V j) := by
    intro j hji a ha hmem
    rcases hfoot a ha with hold | hnone
    · exact hs.apart j i hji a hmem hold
    · exact hnone j hmem
  constructor
  · intro j
    by_cases hji : j = i
    · subst hji
      simpa using hl'
    · rw [Function.update_of_ne hji, Function.update_of_ne hji]
      apply (hs.loose j).frame
      intro a ha
      exact hs.same_of_onlyAt honly hji ha
  · intro j k hjk a ha
    by_cases hji : j = i
    · subst hji
      rw [Function.update_self, Function.update_self] at ha
      rw [Function.update_of_ne hjk.symm, Function.update_of_ne hjk.symm]
      exact hfar k hjk.symm a ha
    · rw [Function.update_of_ne hji, Function.update_of_ne hji] at ha
      by_cases hki : k = i
      · subst hki
        rw [Function.update_self, Function.update_self]
        intro hmem
        exact hfar j hji a hmem ha
      · rw [Function.update_of_ne hki, Function.update_of_ne hki]
        exact hs.apart j k hjk a ha

theorem notMem_of_read_eq_none (hs : Separate h l V) {a : ℕ} (ha : h.read a = none) (j : ι) :
    a ∉ (l j).footprint (V j) := by
  intro hmem
  obtain ⟨n, hn⟩ := (hs.loose j).read_of_mem hmem
  rw [hn] at ha
  cases ha

theorem reindex (hs : Separate h l V) (e : ι ≃ ι) : Separate h (l ∘ e) (V ∘ e) where
  loose i := hs.loose (e i)
  apart i j hij := hs.apart (e i) (e j) (e.injective.ne hij)

theorem onlyAt_of_pushBack (hpush : (l i).pushBack h t = some (l', h')) :
    OnlyAt l V i h h' := by
  intro a n ha hn
  rw [read_of_pushBack hpush (Heap.ne_fresh_of_read hn), hn]
  intro htail
  exact ha (mem_footprint.mpr (Or.inr htail))

theorem pushBack [DecidableEq ι] (hs : Separate h l V)
    (hpush : (l i).pushBack h t = some (l', h')) :
    ∃ xs, Separate h' (Function.update l i l') (Function.update V i xs) ∧
      xs.Sublist (V i ++ [(h.fresh, t)]) ∧
      (Rep h (l i) (V i) → xs = V i ++ [(h.fresh, t)] ∧ Rep h' l' xs) := by
  obtain ⟨xs, hl', hsub⟩ := loose_of_pushBack (hs.loose i) hpush
  refine ⟨xs, hs.update (onlyAt_of_pushBack hpush) hl' ?_, hsub, ?_⟩
  · intro a ha
    rcases mem_footprint.mp ha with ha | ha
    · have hmem := (hsub.map Prod.fst).subset ha
      rw [List.map_append, List.mem_append] at hmem
      rcases hmem with hmem | hmem
      · exact Or.inl (mem_footprint.mpr (Or.inl hmem))
      · rw [List.map_singleton, List.mem_singleton] at hmem
        rw [hmem]
        exact Or.inr (hs.notMem_of_read_eq_none (Heap.read_fresh h))
    · rw [(pushBack_cases hpush).1] at ha
      cases ha
      exact Or.inr (hs.notMem_of_read_eq_none (Heap.read_fresh h))
  · intro hi
    have hrep := rep_of_pushBack hi hpush
    cases hl'.chain.unique hrep.chain
    exact ⟨rfl, hrep⟩

theorem onlyAt_of_popFront {a : ℕ} (hxs : V i = (a, t) :: xs) (hs : Separate h l V)
    (hpop : (l i).popFront h = some (l', h')) : OnlyAt l V i h h' := by
  have hchain := (hs.loose i).chain
  rw [hxs] at hchain
  intro b n hb hn
  rw [(popFront_cases hchain hpop).2.2.2 b, hn]
  rintro rfl
  exact hb (mem_footprint.mpr (Or.inl (by simp [hxs])))

theorem popFront [DecidableEq ι] {a : ℕ} (hxs : V i = (a, t) :: xs) (hs : Separate h l V)
    (hpop : (l i).popFront h = some (l', h')) :
    Separate h' (Function.update l i l') (Function.update V i xs) ∧
      (Rep h (l i) (V i) → Rep h' l' xs) := by
  have hloose := hs.loose i
  rw [hxs] at hloose
  refine ⟨hs.update (onlyAt_of_popFront hxs hs hpop) (loose_of_popFront hloose hpop) ?_, ?_⟩
  · intro b hb
    refine Or.inl (mem_footprint.mpr ?_)
    obtain ⟨-, hrest, htail, -⟩ := popFront_cases hloose.chain hpop
    rcases mem_footprint.mp hb with hb | hnew
    · exact Or.inl (by simp [hxs, hb])
    · rw [htail] at hnew
      split at hnew
      · -- the new tail is the new head
        cases xs with
        | nil =>
            rw [Chain.nil_iff] at hrest
            rw [hrest] at hnew
            cases hnew
        | cons x xs =>
            rw [hrest.1] at hnew
            cases hnew
            exact Or.inl (by simp [hxs])
      · exact Or.inr hnew
  · intro hi
    rw [hxs] at hi
    exact rep_of_popFront hi hpop

theorem onlyAt_of_join {other : Slist} (hjoin : (l i).join other h = some (l', h')) :
    OnlyAt l V i h h' := by
  intro a n ha hn
  rw [read_of_join hjoin, hn]
  intro htail
  exact ha (mem_footprint.mpr (Or.inr htail))

theorem clear [DecidableEq ι] (hs : Separate h l V) (i : ι) :
    Separate h (Function.update l i Slist.empty) (Function.update V i []) := by
  apply hs.update (fun a n _ hn ↦ hn) (rep_empty h).loose
  intro a ha
  simp [Slist.empty] at ha

theorem join [DecidableEq ι] (hs : Separate h l V) (hij : i ≠ j) (hj : Rep h (l j) (V j))
    (hjoin : (l i).join (l j) h = some (l', h')) :
    ∃ xs, Separate h' (Function.update (Function.update l j Slist.empty) i l')
        (Function.update (Function.update V j []) i xs) ∧
      xs.Sublist (V i ++ V j) ∧
      (Rep h (l i) (V i) → V j ≠ [] ∨ V i = [] → xs = V i ++ V j ∧ Rep h' l' xs) := by
  have hdisj : ∀ a ∈ (l i).footprint (V i), a ∉ (V j).map Prod.fst := by
    intro a ha hmem
    exact hs.apart i j hij a ha (mem_footprint.mpr (Or.inl hmem))
  obtain ⟨xs, hl', hsub⟩ := loose_of_join (hs.loose i) hj hdisj hjoin
  refine ⟨xs, ?_, hsub, ?_⟩
  · apply (hs.clear j).update _ hl'
    · -- the cells of the emptied list belong to no list now
      have hfree : ∀ a ∈ (l j).footprint (V j), ∀ k,
          a ∉ (Function.update l j Slist.empty k).footprint (Function.update V j [] k) := by
        intro a ha k
        by_cases hkj : k = j
        · subst hkj
          simp [Slist.empty]
        · rw [Function.update_of_ne hkj, Function.update_of_ne hkj]
          exact hs.apart j k (Ne.symm hkj) a ha
      intro a ha
      rw [Function.update_of_ne hij, Function.update_of_ne hij]
      rcases mem_footprint.mp ha with ha | ha
      · have hmem := (hsub.map Prod.fst).subset ha
        rw [List.map_append, List.mem_append] at hmem
        rcases hmem with hmem | hmem
        · exact Or.inl (mem_footprint.mpr (Or.inl hmem))
        · exact Or.inr (hfree a (mem_footprint.mpr (Or.inl hmem)))
      · rw [(join_cases hjoin).2.1] at ha
        exact Or.inr (hfree a (mem_footprint.mpr (Or.inr ha)))
    · intro a n ha
      rw [Function.update_of_ne hij, Function.update_of_ne hij] at ha
      exact onlyAt_of_join hjoin a n ha
  · intro hi hne
    have hrep := rep_of_join hi hj hdisj hne hjoin
    cases hl'.chain.unique hrep.chain
    exact ⟨rfl, hrep⟩

end Separate

end Slist

end Slience
