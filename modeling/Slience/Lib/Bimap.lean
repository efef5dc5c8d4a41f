import Mathlib.Logic.Function.Basic
import Mathlib.Tactic

/-!
# Two maps that are inverse to each other

A table that is searched both ways is a pair of partial maps.  An entry is added for two
keys that have none, and taken out of both maps at once.
-/

namespace Slience

section Inverses

variable {α β : Type*} {f : α → Option β} {g : β → Option α} {a : α} {b : β}

/-- The maps contain the same pairs. -/
def Inverses (f : α → Option β) (g : β → Option α) : Prop := ∀ a b, f a = some b ↔ g b = some a

namespace Inverses

theorem empty : Inverses (fun _ : α ↦ (none : Option β)) (fun _ : β ↦ (none : Option α)) := by
  intro a b
  simp

theorem inj (h : Inverses f g) {a' : α} (ha : f a = some b) (ha' : f a' = some b) : a = a' :=
  Option.some.inj (((h a b).mp ha).symm.trans ((h a' b).mp ha'))

variable [DecidableEq α] [DecidableEq β]

theorem insert (h : Inverses f g) (ha : f a = none) (hb : g b = none) :
    Inverses (Function.update f a (some b)) (Function.update g b (some a)) := by
  intro a' b'
  by_cases haa : a' = a
  · subst haa
    by_cases hbb : b' = b
    · simp [hbb]
    · have hne : g b' ≠ some a' := by
        intro hg
        rw [(h a' b').mpr hg] at ha
        cases ha
      simp [Function.update_of_ne hbb, hne, Ne.symm hbb]
  · rw [Function.update_of_ne haa]
    by_cases hbb : b' = b
    · subst hbb
      have hne : f a' ≠ some b' := by
        intro hf
        rw [(h a' b').mp hf] at hb
        cases hb
      simp [hne, Ne.symm haa]
    · rw [Function.update_of_ne hbb]
      exact h a' b'

theorem erase (h : Inverses f g) (hab : f a = some b) :
    Inverses (Function.update f a none) (Function.update g b none) := by
  intro a' b'
  by_cases haa : a' = a
  · subst haa
    by_cases hbb : b' = b
    · simp [hbb]
    · have hne : g b' ≠ some a' := by
        intro hg
        exact hbb (Option.some.inj (((h a' b').mpr hg).symm.trans hab))
      simp [Function.update_of_ne hbb, hne]
  · rw [Function.update_of_ne haa]
    by_cases hbb : b' = b
    · subst hbb
      have hne : f a' ≠ some b' := fun hf ↦ haa (h.inj hf hab)
      simp [hne]
    · rw [Function.update_of_ne hbb]
      exact h a' b'

end Inverses

end Inverses

end Slience
