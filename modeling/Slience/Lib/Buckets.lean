import Mathlib.Data.List.Perm.Basic
import Mathlib.Tactic

/-!
# Lists in buckets

A table holds the elements of a set in buckets, each element in the bucket that `slot` names.
What the table holds is told up to the order of its elements; a lookup needs one bucket only.
-/

namespace Slience

namespace Buckets

variable {α : Type*} {slot : α → ℕ} {t : List (List α)} {i : ℕ} {chain : List α} {e : α}

/-- Every element is in its bucket. -/
def Placed (slot : α → ℕ) (t : List (List α)) : Prop :=
  ∀ i chain, t[i]? = some chain → ∀ e ∈ chain, slot e = i

theorem placed_replicate (slot : α → ℕ) (n : ℕ) : Placed slot (List.replicate n []) := by
  intro i chain hi e he
  rw [List.getElem?_replicate] at hi
  split at hi
  · cases hi
    cases he
  · cases hi

/-- One bucket and the others. -/
theorem perm_set (hi : i < t.length) (chain : List α) :
    (t.set i chain).flatten.Perm (chain ++ (t.set i []).flatten) := by
  rw [List.set_eq_take_append_cons_drop, if_pos hi, List.set_eq_take_append_cons_drop, if_pos hi,
    List.flatten_append, List.flatten_append, List.flatten_cons, List.flatten_cons,
    List.nil_append]
  exact List.perm_append_comm_assoc _ _ _

theorem perm_of_getElem? (hi : t[i]? = some chain) :
    t.flatten.Perm (chain ++ (t.set i []).flatten) := by
  obtain ⟨hlt, hget⟩ := List.getElem?_eq_some_iff.mp hi
  have hset : t.set i chain = t := by rw [← hget, List.set_getElem_self]
  conv_lhs => rw [← hset]
  exact perm_set hlt chain

theorem perm_push (hi : t[i]? = some chain) (e : α) :
    (t.set i (e :: chain)).flatten.Perm (e :: t.flatten) := by
  obtain ⟨hlt, -⟩ := List.getElem?_eq_some_iff.mp hi
  exact (perm_set hlt _).trans ((perm_of_getElem? hi).symm.cons e)

theorem mem_flatten_of_getElem? (hi : t[i]? = some chain) (he : e ∈ chain) : e ∈ t.flatten :=
  List.mem_flatten.mpr ⟨chain, List.mem_of_getElem? hi, he⟩

/-- An element is in its own bucket only. -/
theorem Placed.mem_iff (h : Placed slot t) (hi : t[slot e]? = some chain) :
    e ∈ t.flatten ↔ e ∈ chain := by
  refine ⟨fun he ↦ ?_, mem_flatten_of_getElem? hi⟩
  obtain ⟨chain', hchain', he⟩ := List.mem_flatten.mp he
  obtain ⟨j, hj⟩ := List.getElem?_of_mem hchain'
  have hslot := h j chain' hj e he
  rw [hslot, hj] at hi
  cases hi
  exact he

theorem Placed.set (h : Placed slot t) (hchain : ∀ e ∈ chain, slot e = i) :
    Placed slot (t.set i chain) := by
  intro j chain' hj e he
  rw [List.getElem?_set] at hj
  split at hj
  · rename_i hij
    split at hj
    · cases hj
      rw [← hij]
      exact hchain e he
    · cases hj
  · exact h j chain' hj e he

end Buckets

end Slience
