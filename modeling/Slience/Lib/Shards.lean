import Mathlib.Data.List.Range
import Mathlib.Data.List.Perm.Basic
import Mathlib.Tactic

/-!
# Work that is split over shards

A list of items is split over shards; each shard keeps the order of its own items.  `gather` puts
the results together again, for each item the last result of its shard that is left, from the last
item to the first.  The second part is a map that is asked for many keys at once: what it does
with the shards one after the other is what it does with the whole list.
-/

namespace Slience

section Shards

variable {α β : Type*}

/-- The items of the shard `i`. -/
def shard (slot : α → ℕ) (l : List α) (i : ℕ) : List α := l.filter fun a ↦ slot a = i

/-- The items of all shards below `n`, one shard behind the other. -/
def shards (slot : α → ℕ) (n : ℕ) (l : List α) : List α :=
  (List.range n).flatMap (shard slot l)

variable {slot : α → ℕ} {n : ℕ} {l : List α}

@[simp] theorem shard_nil (i : ℕ) : shard slot [] i = [] := rfl

theorem shard_cons (a : α) (l : List α) (i : ℕ) :
    shard slot (a :: l) i = if slot a = i then a :: shard slot l i else shard slot l i := by
  simp [shard, List.filter_cons]

theorem shard_concat (l : List α) (a : α) (i : ℕ) :
    shard slot (l ++ [a]) i = if slot a = i then shard slot l i ++ [a] else shard slot l i := by
  rw [shard, List.filter_append, List.filter_singleton]
  split <;> simp_all [shard]

theorem shard_map (f : β → α) (l : List β) (i : ℕ) :
    shard slot (l.map f) i = (shard (slot ∘ f) l i).map f := by
  rw [shard, List.filter_map]
  rfl

theorem mem_shard {a : α} {i : ℕ} : a ∈ shard slot l i ↔ a ∈ l ∧ slot a = i := by
  simp [shard]

/-- Items that all belong to the same shard keep their order. -/
theorem filter_shards (hslot : ∀ a ∈ l, slot a < n) {p : α → Bool} {i : ℕ}
    (hp : ∀ a ∈ l, p a → slot a = i) : (shards slot n l).filter p = l.filter p := by
  have hother : ∀ j, j ≠ i → (shard slot l j).filter p = [] := by
    intro j hj
    rw [List.filter_eq_nil_iff]
    intro a ha hpa
    obtain ⟨hal, hslot⟩ := mem_shard.mp ha
    exact hj (hslot ▸ hp a hal hpa)
  have hown : (shard slot l i).filter p = l.filter p := by
    rw [shard, List.filter_filter]
    refine List.filter_congr fun a ha ↦ ?_
    cases hpa : p a with
    | false => simp
    | true => simp [hp a ha hpa]
  have hrange : ∀ m, ((List.range m).flatMap (shard slot l)).filter p =
      if i < m then l.filter p else [] := by
    intro m
    induction m with
    | zero => simp
    | succ m ih =>
        rw [List.range_succ, List.flatMap_append, List.filter_append, ih, List.flatMap_singleton]
        rcases Nat.lt_trichotomy i m with h | h | h
        · rw [if_pos h, hother m (by omega), if_pos (by omega), List.append_nil]
        · rw [h] at hown
          rw [if_neg (by omega), h, hown, if_pos (by omega), List.nil_append]
        · rw [if_neg (by omega), hother m (by omega), if_neg (by omega), List.nil_append]
  rw [shards, hrange]
  split
  · rfl
  · next hi =>
      symm
      rw [List.filter_eq_nil_iff]
      intro a ha hpa
      exact hi (hp a ha hpa ▸ hslot a ha)

/-- Nothing is lost and nothing comes twice. -/
theorem perm_shards [DecidableEq α] (hslot : ∀ a ∈ l, slot a < n) : (shards slot n l).Perm l := by
  rw [List.perm_iff_count]
  intro a
  have hfilter : (shards slot n l).filter (· == a) = l.filter (· == a) :=
    filter_shards (i := slot a) hslot fun b _ hb ↦ by rw [eq_of_beq hb]
  rw [List.count_eq_length_filter, List.count_eq_length_filter, hfilter]

/-- The shards below `n` that are not empty. -/
def usedShards (slot : α → ℕ) (n : ℕ) (l : List α) : List ℕ :=
  (List.range n).filter fun i ↦ !(shard slot l i).isEmpty

theorem mem_usedShards {i : ℕ} : i ∈ usedShards slot n l ↔ i < n ∧ ∃ a ∈ l, slot a = i := by
  simp [usedShards, shard, List.filter_eq_nil_iff]

theorem usedShards_map (f : β → α) (l : List β) :
    usedShards slot n (l.map f) = usedShards (slot ∘ f) n l := by
  simp only [usedShards, shard_map, List.isEmpty_map]

/-- The other shards have nothing. -/
theorem flatMap_usedShards : (usedShards slot n l).flatMap (shard slot l) = shards slot n l := by
  rw [usedShards, shards]
  induction List.range n with
  | nil => rfl
  | cons i is ih =>
      rw [List.flatMap_cons, ← ih, List.filter_cons]
      cases hi : shard slot l i with
      | nil => simp
      | cons a as => simp [hi]

theorem shards_map (f : β → α) (l : List β) :
    shards slot n (l.map f) = (shards (slot ∘ f) n l).map f := by
  rw [shards, shards, List.map_flatMap]
  exact congrArg (List.flatMap · (List.range n)) (funext fun i ↦ shard_map f l i)

/-- There is one shard exactly if all items belong to it. -/
theorem length_usedShards_eq_one_iff (hslot : ∀ a ∈ l, slot a < n) {b : α} (hb : b ∈ l) :
    (usedShards slot n l).length = 1 ↔ ∀ a ∈ l, slot a = slot b := by
  have hmem {a : α} (ha : a ∈ l) : slot a ∈ usedShards slot n l :=
    mem_usedShards.mpr ⟨hslot a ha, a, ha, rfl⟩
  constructor
  · intro h a ha
    obtain ⟨i, hi⟩ := List.length_eq_one_iff.mp h
    have hbi := hmem hb
    have hai := hmem ha
    rw [hi, List.mem_singleton] at hai hbi
    rw [hai, hbi]
  · intro h
    have hnodup : (usedShards slot n l).Nodup := List.nodup_range.filter _
    have hall : ∀ i ∈ usedShards slot n l, i = slot b := by
      intro i hi
      obtain ⟨-, a, ha, rfl⟩ := mem_usedShards.mp hi
      exact h a ha
    have hpos := List.length_pos_of_mem (hmem hb)
    rw [List.eq_replicate_of_mem hall] at hnodup
    have hle := List.nodup_replicate.mp hnodup
    omega

/-- For each item the last result of its shard, from the last item to the first. -/
def gather : List ℕ → (ℕ → List β) → Option (List β × (ℕ → List β))
  | [], results => some ([], results)
  | i :: is, results => do
      let (xs, results) ← gather is results
      let x ← (results i).getLast?
      some (x :: xs, Function.update results i (results i).dropLast)

/-- The results come back in the order of the items, and none is left. -/
theorem gather_shards (f : α → β) (l : List α) (rest : ℕ → List β) :
    gather (l.map slot) (fun i ↦ rest i ++ (shard slot l i).map f) = some (l.map f, rest) := by
  induction l generalizing rest with
  | nil => simp [gather]
  | cons a l ih =>
      have hresults : (fun i ↦ rest i ++ (shard slot (a :: l) i).map f) = fun i ↦
          Function.update rest (slot a) (rest (slot a) ++ [f a]) i ++ (shard slot l i).map f := by
        funext i
        rw [shard_cons]
        by_cases h : i = slot a
        · subst h
          simp
        · simp [Function.update_of_ne h, Ne.symm h]
      rw [List.map_cons, gather, hresults, ih]
      simp

end Shards

section Maps

variable {K V : Type*} [DecidableEq K]

/-- The keys are removed one after the other; those that were there are counted. -/
def eraseAll : (K → Option V) → List K → (K → Option V) × ℕ
  | db, [] => (db, 0)
  | db, k :: ks =>
      let (db', count) := eraseAll (Function.update db k none) ks
      (db', count + if (db k).isSome then 1 else 0)

/-- The keys are set one after the other. -/
def insertAll (db : K → Option V) (pairs : List (K × V)) : K → Option V :=
  pairs.foldl (fun db p ↦ Function.update db p.1 (some p.2)) db

theorem eraseAll_cons (db : K → Option V) (k : K) (ks : List K) :
    eraseAll db (k :: ks) = ((eraseAll (Function.update db k none) ks).1,
      (eraseAll (Function.update db k none) ks).2 + if (db k).isSome then 1 else 0) := rfl

theorem eraseAll_append (db : K → Option V) (xs ys : List K) :
    eraseAll db (xs ++ ys) = ((eraseAll (eraseAll db xs).1 ys).1,
      (eraseAll db xs).2 + (eraseAll (eraseAll db xs).1 ys).2) := by
  induction xs generalizing db with
  | nil => simp [eraseAll]
  | cons k xs ih =>
      rw [List.cons_append, eraseAll_cons, ih, eraseAll_cons]
      simp
      omega

/-- The order of the keys does not matter, also where a key comes more than once. -/
theorem eraseAll_perm {xs ys : List K} (h : xs.Perm ys) (db : K → Option V) :
    eraseAll db xs = eraseAll db ys := by
  induction h generalizing db with
  | nil => rfl
  | cons k _ ih => rw [eraseAll_cons, eraseAll_cons, ih]
  | swap k k' xs =>
      by_cases h : k = k'
      · rw [h]
      · rw [eraseAll_cons, eraseAll_cons, eraseAll_cons, eraseAll_cons, Function.update_of_ne h,
          Function.update_of_ne (Ne.symm h), Function.update_comm h, Nat.add_right_comm]
  | trans _ _ ih₁ ih₂ => exact (ih₁ db).trans (ih₂ db)

/-- What a key holds depends on its own pairs only. -/
theorem insertAll_filter {db db' : K → Option V} {k : K} (hdb : db k = db' k)
    (pairs : List (K × V)) :
    insertAll db pairs k = insertAll db' (pairs.filter fun p ↦ p.1 = k) k := by
  induction pairs generalizing db db' with
  | nil => exact hdb
  | cons p pairs ih =>
      by_cases h : p.1 = k
      · rw [List.filter_cons_of_pos (by simpa using h)]
        have hp : Function.update db p.1 (some p.2) k = Function.update db' p.1 (some p.2) k := by
          rw [h, Function.update_self, Function.update_self]
        exact ih hp
      · rw [List.filter_cons_of_neg (by simpa using h)]
        have hp : Function.update db p.1 (some p.2) k = db' k := by
          rw [Function.update_of_ne (Ne.symm h), hdb]
        exact ih hp

theorem insertAll_congr {xs ys : List (K × V)}
    (h : ∀ k, (xs.filter fun p ↦ p.1 = k) = ys.filter fun p ↦ p.1 = k) (db : K → Option V) :
    insertAll db xs = insertAll db ys := by
  funext k
  rw [insertAll_filter (rfl : db k = db k), h, ← insertAll_filter rfl]

/-- Keys that are erased shard by shard, and how many of them were there. -/
theorem eraseAll_shards {slot : K → ℕ} {n : ℕ} {keys : List K} (hslot : ∀ k ∈ keys, slot k < n)
    (db : K → Option V) : eraseAll db (shards slot n keys) = eraseAll db keys :=
  eraseAll_perm (perm_shards hslot) db

/-- Keys that are set shard by shard. -/
theorem insertAll_shards {slot : K → ℕ} {n : ℕ} {pairs : List (K × V)}
    (hslot : ∀ p ∈ pairs, slot p.1 < n) (db : K → Option V) :
    insertAll db (shards (fun p ↦ slot p.1) n pairs) = insertAll db pairs := by
  refine insertAll_congr (fun k ↦ ?_) db
  exact filter_shards (i := slot k) hslot fun p _ hp ↦ by rw [of_decide_eq_true hp]

end Maps

end Slience
