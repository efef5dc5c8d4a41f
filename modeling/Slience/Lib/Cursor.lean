import Mathlib.Data.List.Basic
import Mathlib.Data.List.Forall2
import Mathlib.Tactic

/-!
# Reading from a cursor

A reader takes a value from the front of a list and leaves the rest, or has no result; what it
reads is said by an item.  A reader has an arity if it always leaves what stands behind so many
elements.  Where a list of items is read twice, the second time from where the first one stopped,
the two lists of values can be compared item by item.
-/

namespace Slience

section Cursor

variable {α β γ δ : Type*} {read : α → List β → Option (γ × List β)} {arity : α → ℕ}
  {as : List α} {xs ys rest : List β} {cs : List γ}

/-- One value for each item. -/
def readAll (read : α → List β → Option (γ × List β)) :
    List α → List β → Option (List γ × List β)
  | [], xs => some ([], xs)
  | a :: as, xs =>
      (read a xs).bind fun r ↦ (readAll read as r.2).bind fun r' ↦ some (r.1 :: r'.1, r'.2)

theorem readAll_cons_eq_some {a : α} :
    readAll read (a :: as) xs = some (cs, rest) ↔
      ∃ c xs' cs', read a xs = some (c, xs') ∧ readAll read as xs' = some (cs', rest) ∧
        cs = c :: cs' := by
  rw [readAll, Option.bind_eq_some_iff]
  constructor
  · rintro ⟨⟨c, xs'⟩, hc, hbind⟩
    obtain ⟨⟨cs', rest'⟩, hcs, heq⟩ := Option.bind_eq_some_iff.mp hbind
    cases heq
    exact ⟨c, xs', cs', hc, hcs, rfl⟩
  · rintro ⟨c, xs', cs', hc, hcs, rfl⟩
    exact ⟨(c, xs'), hc, Option.bind_eq_some_iff.mpr ⟨(cs', rest), hcs, rfl⟩⟩

/-- What a reader leaves is what stands behind `arity a` elements; it reads nothing where this
is 0. -/
structure HasArity (read : α → List β → Option (γ × List β)) (arity : α → ℕ) : Prop where
  rest_eq {a : α} {xs rest : List β} {c : γ} (h : read a xs = some (c, rest)) :
    arity a ≤ xs.length ∧ rest = xs.drop (arity a)
  of_zero {a : α} (h : arity a = 0) : ∃ c, ∀ xs, read a xs = some (c, xs)

theorem HasArity.map (h : HasArity read arity) (f : γ → δ) :
    HasArity (fun a xs ↦ (read a xs).map (Prod.map f id)) arity where
  rest_eq hread := by
    obtain ⟨⟨c, rest⟩, hc, heq⟩ := Option.map_eq_some_iff.mp hread
    cases heq
    exact h.rest_eq hc
  of_zero hzero := by
    obtain ⟨c, hc⟩ := h.of_zero hzero
    refine ⟨f c, ?_⟩
    intro xs
    rw [hc]
    rfl

theorem HasArity.readAll (h : HasArity read arity) :
    HasArity (readAll read) fun as ↦ (as.map arity).sum where
  rest_eq := by
    intro as xs rest cs hread
    induction as generalizing xs cs with
    | nil =>
        cases hread
        simp
    | cons a as ih =>
        obtain ⟨c, xs', cs', hc, hcs, rfl⟩ := readAll_cons_eq_some.mp hread
        obtain ⟨hle, rfl⟩ := h.rest_eq hc
        obtain ⟨hle', hrest⟩ := ih hcs
        rw [List.length_drop] at hle'
        rw [List.drop_drop] at hrest
        rw [List.map_cons, List.sum_cons]
        exact ⟨by omega, hrest⟩
  of_zero := by
    intro as hzero
    induction as with
    | nil => exact ⟨[], fun _ ↦ rfl⟩
    | cons a as ih =>
        rw [List.map_cons, List.sum_cons] at hzero
        obtain ⟨c, hc⟩ := h.of_zero (show arity a = 0 by omega)
        obtain ⟨cs, hcs⟩ := ih (by omega)
        refine ⟨c :: cs, ?_⟩
        intro xs
        exact readAll_cons_eq_some.mpr ⟨c, xs, cs, hc xs, hcs xs, rfl⟩

/-- The items can be read from both lists, with values in the relation `R`. -/
def ReadsBoth (read : α → List β → Option (γ × List β)) (R : γ → γ → Prop) :
    List α → List β → List β → Prop
  | [], _, _ => True
  | a :: as, xs, ys => ∃ c xs' d ys', read a xs = some (c, xs') ∧ read a ys = some (d, ys') ∧
      R c d ∧ ReadsBoth read R as xs' ys'

theorem readsBoth_iff {R : γ → γ → Prop} (h : readAll read as xs = some (cs, rest)) :
    ReadsBoth read R as xs ys ↔
      ∃ ds rest', readAll read as ys = some (ds, rest') ∧ List.Forall₂ R cs ds := by
  induction as generalizing xs ys cs with
  | nil =>
      cases h
      exact ⟨fun _ ↦ ⟨[], ys, rfl, .nil⟩, fun _ ↦ trivial⟩
  | cons a as ih =>
      obtain ⟨c, xs', cs', hc, hcs, rfl⟩ := readAll_cons_eq_some.mp h
      constructor
      · rintro ⟨c', xs'', d, ys', hc', hd, hR, hboth⟩
        cases hc.symm.trans hc'
        obtain ⟨ds, rest', hds, hall⟩ := (ih hcs).mp hboth
        exact ⟨d :: ds, rest', readAll_cons_eq_some.mpr ⟨d, ys', ds, hd, hds, rfl⟩,
          .cons hR hall⟩
      · rintro ⟨ds', rest', hds', hall⟩
        obtain ⟨d, ys', ds, hd, hds, rfl⟩ := readAll_cons_eq_some.mp hds'
        obtain ⟨hR, hall⟩ := List.forall₂_cons.mp hall
        exact ⟨c, xs', d, ys', hc, hd, hR, (ih hcs).mpr ⟨ds, rest', hds, hall⟩⟩

theorem length_of_readAll (h : readAll read as xs = some (cs, rest)) : cs.length = as.length := by
  induction as generalizing xs cs with
  | nil =>
      cases h
      rfl
  | cons a as ih =>
      obtain ⟨c, xs', cs', -, hcs, rfl⟩ := readAll_cons_eq_some.mp h
      rw [List.length_cons, List.length_cons, ih hcs]

/-- What is read again from where the first reading stopped: either nothing was read, or there
are more elements, and these are read alike. -/
theorem readAgain_iff {R : γ → γ → Prop} (hR : ∀ c, R c c) (harity : HasArity read arity)
    (h : readAll read as xs = some (cs, rest)) :
    (∃ ds rest', readAll read as rest = some (ds, rest') ∧ List.Forall₂ R cs ds) ↔
      (as.map arity).sum = 0 ∨ (as.map arity).sum < xs.length ∧
        ReadsBoth read R as xs (xs.drop (as.map arity).sum) := by
  obtain ⟨hle, rfl⟩ := harity.readAll.rest_eq h
  constructor
  · rintro ⟨ds, rest', hds, hall⟩
    obtain ⟨hle', -⟩ := harity.readAll.rest_eq hds
    rw [List.length_drop] at hle'
    by_cases hzero : (as.map arity).sum = 0
    · exact Or.inl hzero
    · exact Or.inr ⟨by omega, (readsBoth_iff h).mpr ⟨ds, rest', hds, hall⟩⟩
  · rintro (hzero | ⟨-, hboth⟩)
    · rw [hzero, List.drop_zero]
      exact ⟨cs, _, h, List.forall₂_same.mpr fun c _ ↦ hR c⟩
    · exact (readsBoth_iff h).mp hboth

end Cursor

end Slience
