import Mathlib.Data.Fin.Basic
import Mathlib.Data.List.OfFn
import Mathlib.Tactic

/-!
# Nodes in a circle

`toList f c` are the values of the `n` nodes of a circle, in order from the node `c` on.
Changing a node changes one element of the list, and going one node further moves the first
element to the end.
-/

namespace Slience

namespace Circular

variable {α : Type*} {n : ℕ}

def toList (f : Fin n → α) (c : Fin n) : List α := List.ofFn fun k ↦ f (c + k)

@[simp] theorem length_toList (f : Fin n → α) (c : Fin n) : (toList f c).length = n :=
  List.length_ofFn

theorem getElem?_toList (f : Fin n → α) (c k : Fin n) :
    (toList f c)[k.val]? = some (f (c + k)) := by
  rw [toList, List.getElem?_ofFn, dif_pos k.isLt]

theorem toList_update (f : Fin n → α) (c k : Fin n) (x : α) :
    toList (Function.update f (c + k) x) c = (toList f c).set k.val x := by
  apply List.ext_getElem
  · simp
  · intro i hi hi'
    simp only [toList, List.getElem_ofFn, List.getElem_set]
    by_cases h : k.val = i
    · subst h
      rw [if_pos rfl]
      exact Function.update_self ..
    · rw [if_neg h]
      apply Function.update_of_ne
      intro heq
      apply h
      rw [← add_left_cancel heq]

variable [NeZero n]

theorem val_add_one (k : Fin n) : (k + 1).val = (k.val + 1) % n := by
  rw [Fin.val_add, Fin.val_one', Nat.add_mod_mod]

theorem toList_eq_cons (f : Fin n → α) (c : Fin n) : toList f c = f c :: (toList f c).tail := by
  obtain ⟨m, rfl⟩ := Nat.exists_eq_succ_of_ne_zero (NeZero.ne n)
  rw [toList, List.ofFn_succ, List.tail_cons, add_zero]

theorem toList_add_one (f : Fin n → α) (c : Fin n) :
    toList f (c + 1) = (toList f c).tail ++ [f c] := by
  obtain ⟨m, rfl⟩ := Nat.exists_eq_succ_of_ne_zero (NeZero.ne n)
  have htail : (toList f c).tail = List.ofFn fun k : Fin m ↦ f (c + k.succ) := by
    rw [toList, List.ofFn_succ, List.tail_cons]
  have hlast : c + 1 + Fin.last m = c := by
    rw [add_assoc, add_comm (1 : Fin (m + 1)), Fin.last_add_one, add_zero]
  rw [htail, toList, List.ofFn_succ', List.concat_eq_append, hlast]
  congr 2
  funext k
  rw [add_assoc, add_comm (1 : Fin (m + 1)), Fin.coeSucc_eq_succ]

end Circular

end Slience
