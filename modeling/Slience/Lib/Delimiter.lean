import Mathlib.Data.List.Basic
import Mathlib.Data.List.Forall2
import Mathlib.Tactic

/-!
# Cutting a text at a delimiter

`cutAt` cuts a list behind the first occurrence of one element and `cutPair`
behind the first occurrence of two adjacent ones.  A text that arrives in pieces
can be searched piece by piece: what was searched in vain matters only through
its last element, which may be the first half of a pair.

The last section compares two ways to cut one list into pieces.
-/

namespace Slience

variable {α : Type*} [DecidableEq α]

def cutAt (x : α) : List α → Option (List α × List α)
  | [] => none
  | a :: l => if a = x then some ([], l) else (cutAt x l).map (Prod.map (a :: ·) id)

def cutPair (x y : α) : List α → Option (List α × List α)
  | [] => none
  | [_] => none
  | a :: b :: l =>
      if a = x ∧ b = y then some ([], l)
      else (cutPair x y (b :: l)).map (Prod.map (a :: ·) id)

section Single

variable {x : α}

theorem cutAt_append_of_none {t : List α} (h : x ∉ t) (c : List α) :
    cutAt x (t ++ c) = (cutAt x c).map (Prod.map (t ++ ·) id) := by
  induction t with
  | nil =>
      cases hc : cutAt x c with
      | none => simp [hc]
      | some p => simp [hc, Prod.map]
  | cons a t ih =>
      have hne : a ≠ x := fun ha ↦ h (by simp [ha])
      rw [List.cons_append, cutAt, if_neg hne, ih (fun hx ↦ h (List.mem_cons_of_mem a hx))]
      cases cutAt x c <;> rfl

theorem cutAt_of_notMem {t : List α} (h : x ∉ t) : cutAt x t = none := by
  have hcut := cutAt_append_of_none h []
  rwa [List.append_nil] at hcut

theorem cutAt_append_cons {t : List α} (h : x ∉ t) (r : List α) :
    cutAt x (t ++ x :: r) = some (t, r) := by
  rw [cutAt_append_of_none h]
  simp [cutAt]

theorem cutAt_split {l a r : List α} (h : cutAt x l = some (a, r)) :
    l = a ++ x :: r ∧ x ∉ a := by
  induction l generalizing a with
  | nil => cases h
  | cons b l ih =>
      rw [cutAt] at h
      split at h
      · rename_i hb
        cases h
        simp [hb]
      · rename_i hb
        obtain ⟨⟨a', r'⟩, hcut, hpair⟩ := Option.map_eq_some_iff.mp h
        cases hpair
        obtain ⟨hl, hx⟩ := ih hcut
        refine ⟨by rw [hl]; rfl, ?_⟩
        rintro (_ | ⟨_, hmem⟩)
        · exact hb rfl
        · exact hx hmem

theorem notMem_of_cutAt {l : List α} (h : cutAt x l = none) : x ∉ l := by
  intro hmem
  obtain ⟨a, r, rfl, ha⟩ := List.eq_append_cons_of_mem hmem
  rw [cutAt_append_cons ha] at h
  cases h

end Single

section Pair

variable {x y : α}

theorem cutPair_append_of_some {l a r : List α} (h : cutPair x y l = some (a, r))
    (c : List α) : cutPair x y (l ++ c) = some (a, r ++ c) := by
  induction l using cutPair.induct x y generalizing a with
  | case1 => cases h
  | case2 => cases h
  | case3 a' b l hab =>
      rw [cutPair, if_pos hab] at h
      cases h
      simp [cutPair, hab]
  | case4 a' b l hab ih =>
      rw [cutPair, if_neg hab] at h
      obtain ⟨⟨a'', r'⟩, hcut, hpair⟩ := Option.map_eq_some_iff.mp h
      cases hpair
      have htail := ih hcut
      rw [List.cons_append] at htail
      rw [List.cons_append, List.cons_append, cutPair, if_neg hab, htail]
      rfl

theorem cutPair_append_of_none {t : List α} (h : cutPair x y t = none) (c : List α) :
    cutPair x y (t ++ c) =
      if t.getLast? = some x ∧ c.head? = some y then some (t.dropLast, c.tail)
      else (cutPair x y c).map (Prod.map (t ++ ·) id) := by
  induction t using cutPair.induct x y with
  | case1 =>
      cases hc : cutPair x y c with
      | none => simp [hc]
      | some p => simp [hc, Prod.map]
  | case2 a =>
      cases c with
      | nil => simp [cutPair]
      | cons b c =>
          by_cases hab : a = x ∧ b = y
          · simp [cutPair, hab]
          · have hseam : ¬ (([a] : List α).getLast? = some x ∧ (b :: c).head? = some y) := by
              simpa using hab
            rw [List.singleton_append, cutPair, if_neg hab, if_neg hseam]
            rfl
  | case3 a b l hab =>
      rw [cutPair, if_pos hab] at h
      cases h
  | case4 a b l hab ih =>
      rw [cutPair, if_neg hab, Option.map_eq_none_iff] at h
      have htail := ih h
      rw [List.cons_append] at htail
      rw [List.cons_append, List.cons_append, cutPair, if_neg hab, htail,
        List.getLast?_cons_cons]
      split
      · rfl
      · cases cutPair x y c <;> rfl

theorem cutPair_append_pair (hne : x ≠ y) {t : List α} (h : cutPair x y t = none)
    (r : List α) : cutPair x y (t ++ x :: y :: r) = some (t, r) := by
  rw [cutPair_append_of_none h, if_neg (by simp [hne])]
  simp [cutPair]

theorem cutPair_split {l a r : List α} (h : cutPair x y l = some (a, r)) :
    l = a ++ x :: y :: r := by
  induction l using cutPair.induct x y generalizing a with
  | case1 => cases h
  | case2 => cases h
  | case3 a' b l hab =>
      rw [cutPair, if_pos hab] at h
      cases h
      simp [hab]
  | case4 a' b l hab ih =>
      rw [cutPair, if_neg hab] at h
      obtain ⟨⟨a'', r'⟩, hcut, hpair⟩ := Option.map_eq_some_iff.mp h
      cases hpair
      rw [ih hcut]
      rfl

theorem cutPair_of_notMem {t : List α} (h : x ∉ t) : cutPair x y t = none := by
  cases ht : cutPair x y t with
  | none => rfl
  | some p => exact absurd (by rw [cutPair_split ht]; simp) h

theorem length_lt_of_cutPair {l a r : List α} (h : cutPair x y l = some (a, r)) :
    r.length < l.length := by
  rw [cutPair_split h, List.length_append, List.length_cons, List.length_cons]
  omega

end Pair

section Pieces

variable {α β : Type*}

theorem length_flatten_le {xs ys : List (List α)}
    (h : List.Forall₂ (fun x y ↦ x.length ≤ y.length) xs ys) :
    xs.flatten.length ≤ ys.flatten.length := by
  induction h with
  | nil => exact le_rfl
  | cons hxy _ ih =>
      rw [List.flatten_cons, List.flatten_cons, List.length_append, List.length_append]
      omega

/-- Pieces that are nowhere longer than those of another cut of the same list are
those pieces. -/
theorem eq_of_flatten_eq {xs ys : List (List α)}
    (h : List.Forall₂ (fun x y ↦ x.length ≤ y.length) xs ys)
    (hflat : xs.flatten = ys.flatten) : xs = ys := by
  induction h with
  | nil => rfl
  | @cons x y xs ys hxy hrest ih =>
      have hle := length_flatten_le hrest
      have hlen := congrArg List.length hflat
      rw [List.flatten_cons, List.flatten_cons, List.length_append, List.length_append] at hlen
      rw [List.flatten_cons, List.flatten_cons] at hflat
      obtain ⟨hx, hxs⟩ := List.append_inj hflat (by omega)
      rw [hx, ih hxs]

theorem forall₂_flatten {r : α → β → Prop} {l : List α} {ls : List (List β)}
    (h : List.Forall₂ r l ls.flatten) :
    ∃ gs : List (List α), gs.flatten = l ∧ List.Forall₂ (List.Forall₂ r) gs ls := by
  induction ls generalizing l with
  | nil =>
      cases h
      exact ⟨[], rfl, List.Forall₂.nil⟩
  | cons b ls ih =>
      rw [List.flatten_cons] at h
      obtain ⟨gs, hgs, hrel⟩ := ih (List.forall₂_drop_append _ _ _ h)
      refine ⟨l.take b.length :: gs, ?_, ?_⟩
      · rw [List.flatten_cons, hgs, List.take_append_drop]
      · exact List.Forall₂.cons (List.forall₂_take_append _ _ _ h) hrel

end Pieces

end Slience
