import Slience.Base.SlistFamily

/-!
# A family of lists as a family of sequences

`Models h l W` says that the lists `l i` are all well formed, share no cell and hold the
values `W i`.  The rules give for each operation its result and the values of the family
afterwards; only the `int` counts bound the lengths.
-/

namespace Slience

namespace Slist

variable {α ι : Type}

/-- The values of separate and well formed lists. -/
structure Models (h : Heap (Node α)) (l : ι → Slist) (W : ι → List α) : Prop where
  nodes : ∃ V : ι → List (ℕ × α), Separate h l V ∧ (∀ i, Rep h (l i) (V i)) ∧
    ∀ i, W i = (V i).map Prod.snd

namespace Models

variable {h : Heap (Node α)} {l : ι → Slist} {W : ι → List α} {i j : ι} {t : α} {ts : List α}

theorem empty : Models (Heap.empty : Heap (Node α)) (fun _ : ι ↦ Slist.empty) (fun _ ↦ []) := by
  refine ⟨fun _ ↦ [], ⟨fun _ ↦ (rep_empty _).loose, ?_⟩, fun _ ↦ rep_empty _, fun _ ↦ rfl⟩
  intro i j _ a ha
  simp [Slist.empty] at ha

theorem count_eq (hm : Models h l W) (i : ι) : (l i).count = (W i).length := by
  obtain ⟨V, -, hrep, hW⟩ := hm.nodes
  rw [hW, List.length_map]
  exact (hrep i).count_eq

theorem front_eq (hm : Models h l W) (hi : W i = t :: ts) : (l i).front h = some t := by
  obtain ⟨V, -, hrep, hW⟩ := hm.nodes
  have hchain := (hrep i).chain
  rw [hW] at hi
  cases hV : V i with
  | nil => simp [hV] at hi
  | cons x xs =>
      obtain ⟨a, v⟩ := x
      rw [hV] at hchain hi
      have hv : v = t := by
        rw [List.map_cons] at hi
        exact (List.cons.inj hi).1
      rw [front_of_chain hchain, hv]

theorem swap (hm : Models h l W) (e : ι ≃ ι) : Models h (l ∘ e) (W ∘ e) := by
  obtain ⟨V, hs, hrep, hW⟩ := hm.nodes
  exact ⟨V ∘ e, hs.reindex e, fun i ↦ hrep (e i), fun i ↦ hW (e i)⟩

theorem pushBack_full (hm : Models h l W) (i : ι) (t : α) (hlen : (W i).length + 1 = 2 ^ 31) :
    (l i).pushBack h t = none := by
  have hcount := hm.count_eq i
  have hadd : addInt (l i).count 1 = none := by
    unfold addInt
    rw [if_neg (by omega)]
  unfold Slist.pushBack
  rw [hadd]
  rfl

theorem room_of_pushBack (hm : Models h l W) {r : Slist × Heap (Node α)}
    (hpush : (l i).pushBack h t = some r) : (W i).length + 1 < 2 ^ 31 := by
  have hcount := hm.count_eq i
  by_contra hfull
  have hadd : addInt (l i).count 1 = none := by
    unfold addInt
    rw [if_neg (by omega)]
  unfold Slist.pushBack at hpush
  rw [hadd] at hpush
  cases hpush

/-- The values are determined by the lists. -/
theorem unique (hm : Models h l W) {W' : ι → List α} (hm' : Models h l W') : W = W' := by
  obtain ⟨V, -, hrep, hW⟩ := hm.nodes
  obtain ⟨V', -, hrep', hW'⟩ := hm'.nodes
  funext i
  rw [hW, hW', (hrep i).chain.unique (hrep' i).chain]

variable [DecidableEq ι]

theorem rep_update {h' : Heap (Node α)} {l' : Slist} {V : ι → List (ℕ × α)} {xs : List (ℕ × α)}
    (hs : Separate h l V) (hrep : ∀ k, Rep h (l k) (V k)) (honly : Separate.OnlyAt l V i h h')
    (hl' : Rep h' l' xs) (k : ι) :
    Rep h' (Function.update l i l' k) (Function.update V i xs k) := by
  by_cases hk : k = i
  · subst hk
    simpa using hl'
  · rw [Function.update_of_ne hk, Function.update_of_ne hk]
    exact hs.rep_of_onlyAt honly hk (hrep k)

theorem map_update {V : ι → List (ℕ × α)} {xs : List (ℕ × α)} {ys : List α}
    (hW : ∀ k, W k = (V k).map Prod.snd) (hys : ys = xs.map Prod.snd) (k : ι) :
    Function.update W i ys k = (Function.update V i xs k).map Prod.snd := by
  by_cases hk : k = i
  · subst hk
    rw [Function.update_self, Function.update_self, hys]
  · rw [Function.update_of_ne hk, Function.update_of_ne hk, hW]

theorem pushBack (hm : Models h l W) (i : ι) (t : α) (hlen : (W i).length + 1 < 2 ^ 31) :
    ∃ l' h', (l i).pushBack h t = some (l', h') ∧
      Models h' (Function.update l i l') (Function.update W i (W i ++ [t])) := by
  obtain ⟨V, hs, hrep, hW⟩ := hm.nodes
  rw [hW, List.length_map] at hlen
  obtain ⟨l', h', hpush⟩ := pushBack_isSome (hrep i) hlen t
  obtain ⟨xs, hs', -, hxs⟩ := hs.pushBack hpush
  obtain ⟨rfl, hl'⟩ := hxs (hrep i)
  refine ⟨l', h', hpush, _, hs', ?_, ?_⟩
  · exact rep_update hs hrep (Separate.onlyAt_of_pushBack hpush) hl'
  · apply map_update hW
    rw [hW, List.map_append]
    rfl

/-- A push that has a result found room. -/
theorem of_pushBack (hm : Models h l W) {i : ι} {t : α} {l' : Slist} {h' : Heap (Node α)}
    (hpush : (l i).pushBack h t = some (l', h')) :
    (W i).length + 1 < 2 ^ 31 ∧
      Models h' (Function.update l i l') (Function.update W i (W i ++ [t])) := by
  have hroom := hm.room_of_pushBack hpush
  obtain ⟨l'', h'', hpush', hm'⟩ := hm.pushBack i t hroom
  rw [hpush] at hpush'
  cases hpush'
  exact ⟨hroom, hm'⟩

theorem popFront (hm : Models h l W) (hi : W i = t :: ts) (hlen : (W i).length < 2 ^ 31) :
    ∃ l' h', (l i).popFront h = some (l', h') ∧
      Models h' (Function.update l i l') (Function.update W i ts) := by
  obtain ⟨V, hs, hrep, hW⟩ := hm.nodes
  rw [hW] at hi hlen
  cases hV : V i with
  | nil => simp [hV] at hi
  | cons x xs =>
      obtain ⟨a, v⟩ := x
      rw [hV, List.map_cons] at hi
      obtain ⟨rfl, rfl⟩ := List.cons.inj hi
      have hi' : Rep h (l i) ((a, v) :: xs) := hV ▸ hrep i
      rw [hV, List.length_map, List.length_cons] at hlen
      obtain ⟨l', h', hpop⟩ := popFront_isSome hi'.chain hi'.count_eq hlen
      obtain ⟨hs', hl'⟩ := hs.popFront hV hpop
      refine ⟨l', h', hpop, _, hs', ?_, ?_⟩
      · exact rep_update hs hrep (Separate.onlyAt_of_popFront hV hs hpop) (hl' (hrep i))
      · exact map_update hW rfl

theorem join (hm : Models h l W) (hij : i ≠ j) (hj : W j ≠ [])
    (hlen : (W i).length + (W j).length < 2 ^ 31) :
    ∃ l' h', (l i).join (l j) h = some (l', h') ∧
      Models h' (Function.update (Function.update l j Slist.empty) i l')
        (Function.update (Function.update W j []) i (W i ++ W j)) := by
  obtain ⟨V, hs, hrep, hW⟩ := hm.nodes
  rw [hW, hW, List.length_map, List.length_map] at hlen
  have hVj : V j ≠ [] := by
    rintro hnil
    rw [hW, hnil] at hj
    exact hj rfl
  obtain ⟨l', h', hjoin⟩ := join_isSome (hrep i) (hrep j).count_eq hlen
  obtain ⟨xs, hs', -, hxs⟩ := hs.join hij (hrep j) hjoin
  obtain ⟨rfl, hl'⟩ := hxs (hrep i) (Or.inl hVj)
  refine ⟨l', h', hjoin, _, hs', ?_, ?_⟩
  · intro k
    by_cases hki : k = i
    · subst hki
      simpa using hl'
    · rw [Function.update_of_ne hki, Function.update_of_ne hki]
      by_cases hkj : k = j
      · subst hkj
        rw [Function.update_self, Function.update_self]
        exact rep_empty h'
      · rw [Function.update_of_ne hkj, Function.update_of_ne hkj]
        exact hs.rep_of_onlyAt (Separate.onlyAt_of_join hjoin) hki (hrep k)
  · apply map_update
    · exact map_update hW rfl
    · rw [hW, hW, List.map_append]

end Models

end Slist

end Slience
