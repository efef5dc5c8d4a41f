import Slience.Lib.Run

/-!
# The vector

`base::svector` (`svector.hpp`) for elements of `width` bytes.  `_cap` says how many elements the
first block has room for; a block for twice as many is asked for with every `push_back` from
there on, but `_cap` stays what it was.  A place of a block where no element lives is `none`.
Constructing an element outside of the block, and destroying one that does not live, have no
result.  The vectors of a family can be swapped with each other.
-/

namespace Slience

structure Svector (α : Type) where
  cap : ℕ
  size : ℕ
  head : List (Option α)
  deriving DecidableEq

namespace Svector

variable {α ι : Type}

/-- How many elements of `width` bytes fit into a block of `n` bytes, a `size_t`. -/
def room (width n : ℕ) : ℕ := n % 2 ^ 64 / width

def malloc (width n : ℕ) : List (Option α) := List.replicate (room width n) none

def realloc (width : ℕ) (block : List (Option α)) (n : ℕ) : List (Option α) :=
  (block ++ malloc width n).take (room width n)

/-- `svector::svector(size_t)`; without an argument, `svector` makes room for 100 elements. -/
def new (width cap : ℕ) : Svector α := ⟨cap, 0, malloc width (width * cap)⟩

/-- `svector::back`; the index of an empty vector wraps around. -/
def back (v : Svector α) : Option α := v.head[(v.size + 2 ^ 64 - 1) % 2 ^ 64]?.join

/-- `svector::pop_back` -/
def popBack (v : Svector α) : Option (Svector α) :=
  if v.size > 0 then
    match v.head[v.size - 1]? with
    | some (some _) => some ⟨v.cap, v.size - 1, v.head.set (v.size - 1) none⟩
    | _ => none
  else some v

def newcap (v : Svector α) : ℕ := v.cap * 2 % 2 ^ 64

/-- The block in which `push_back` constructs its element. -/
def grow (width : ℕ) (v : Svector α) : List (Option α) :=
  if v.size ≥ v.cap then realloc width v.head (width * v.newcap) else v.head

/-- `svector::push_back` -/
def pushBack (width : ℕ) (v : Svector α) (t : α) : Option (Svector α) :=
  if v.size < (v.grow width).length then
    some ⟨v.cap, v.size + 1, (v.grow width).set v.size (some t)⟩
  else none

/-- The loop of `clear` over the first `n` places. -/
def destroy : ℕ → List (Option α) → Option (List (Option α))
  | 0, block => some block
  | n + 1, some _ :: block => (destroy n block).map (none :: ·)
  | _ + 1, _ => none

/-- `svector::clear` -/
def clear (v : Svector α) : Option (Svector α) :=
  (destroy v.size v.head).map fun head ↦ ⟨v.cap, 0, head⟩

end Svector

/-- The operations on a family of vectors. -/
inductive SvectorMove (ι α : Type)
  | pushBack (i : ι) (t : α)
  | popBack (i : ι)
  | clear (i : ι)
  | swap (i j : ι)
  deriving DecidableEq

namespace Svector

variable {α ι : Type} {width : ℕ}

def step [DecidableEq ι] (width : ℕ) (s : ι → Svector α) : SvectorMove ι α → Option (ι → Svector α)
  | .pushBack i t => ((s i).pushBack width t).map (Function.update s i)
  | .popBack i => (s i).popBack.map (Function.update s i)
  | .clear i => (s i).clear.map (Function.update s i)
  | .swap i j => some (s ∘ Equiv.swap i j)

def system (ι α : Type) [DecidableEq ι] (width : ℕ) : System (ι → Svector α) (SvectorMove ι α) where
  enabled := fun _ _ ↦ True
  step := step width

/-- The same operations on lists. -/
def listStep [DecidableEq ι] (W : ι → List α) : SvectorMove ι α → ι → List α
  | .pushBack i t => Function.update W i (W i ++ [t])
  | .popBack i => Function.update W i (W i).dropLast
  | .clear i => Function.update W i []
  | .swap i j => W ∘ Equiv.swap i j

/-- The vector holds the elements `xs`, inside of its block. -/
structure Holds (v : Svector α) (xs : List α) : Prop where
  size_eq : v.size = xs.length
  room : v.size ≤ v.head.length
  elements : v.head.take v.size = xs.map some
  back : xs ≠ [] → v.back = xs.getLast?

/-- The place of an element that is pushed lies in a block for `cap` elements while there are
fewer, and in one for twice as many from there on. -/
def HasRoom (width : ℕ) (s : ι → Svector α) : SvectorMove ι α → Prop
  | .pushBack i _ =>
      (s i).size < room width (width * if (s i).size < (s i).cap then (s i).cap else (s i).newcap)
  | _ => True

instance (s : ι → Svector α) (m : SvectorMove ι α) : Decidable (HasRoom width s m) :=
  match m with
  | .pushBack i _ => inferInstanceAs (Decidable ((s i).size < room width (width * ite _ _ _)))
  | .popBack _ | .clear _ | .swap _ _ => isTrue trivial

/-- The elements lie inside of the block, which is the first one or one that has grown. -/
structure Sized (width : ℕ) (v : Svector α) : Prop where
  width_pos : 0 < width
  size_le : v.size ≤ v.head.length
  length_head : v.head.length = room width (width * v.cap) ∨
    v.head.length = room width (width * v.newcap) ∧ v.cap ≤ v.head.length ∧
      v.cap ≤ room width (width * v.cap)

variable {v v' : Svector α} {xs : List α} {t : α}

/-! ## Blocks -/

theorem room_lt (width n : ℕ) : room width n < 2 ^ 64 :=
  (Nat.div_le_self _ _).trans_lt (Nat.mod_lt _ (Nat.two_pow_pos 64))

theorem room_mul (hwidth : 0 < width) {n : ℕ} (hn : width * n < 2 ^ 64) :
    room width (width * n) = n := by
  rw [room, Nat.mod_eq_of_lt hn, Nat.mul_div_cancel_left n hwidth]

/-- Where a block for twice the first capacity has a size at all, an element is pushed in vain
only when there are twice as many as the vector was made for. -/
theorem hasRoom_iff {s : ι → Svector α} {i : ι} (hwidth : 0 < width)
    (hfits : width * (2 * (s i).cap) < 2 ^ 64) (t : α) :
    HasRoom width s (.pushBack i t) ↔ (s i).size < 2 * (s i).cap := by
  have hdouble : 2 * (s i).cap < 2 ^ 64 :=
    (Nat.le_mul_of_pos_left _ hwidth).trans_lt hfits
  have hfirst : width * (s i).cap < 2 ^ 64 :=
    (Nat.mul_le_mul_left width (by omega)).trans_lt hfits
  have hnew : (s i).newcap = 2 * (s i).cap := by
    rw [newcap, Nat.mul_comm, Nat.mod_eq_of_lt hdouble]
  rw [HasRoom, hnew]
  split
  · rw [room_mul hwidth hfirst]
    omega
  · rw [room_mul hwidth hfits]

theorem length_malloc (width n : ℕ) : (malloc width n : List (Option α)).length = room width n :=
  List.length_replicate

theorem length_realloc (block : List (Option α)) (n : ℕ) :
    (realloc width block n).length = room width n := by
  rw [realloc, List.length_take, List.length_append, length_malloc]
  omega

theorem take_realloc {block : List (Option α)} {n k : ℕ} (hblock : k ≤ block.length)
    (hn : k ≤ room width n) : (realloc width block n).take k = block.take k := by
  rw [realloc, List.take_take, Nat.min_eq_left hn, List.take_append_of_le_length hblock]

theorem grow_of_lt (hroom : v.size < v.cap) : v.grow width = v.head := by
  rw [grow, if_neg (by omega)]

theorem grow_of_le (hfull : v.cap ≤ v.size) :
    v.grow width = realloc width v.head (width * v.newcap) := by
  rw [grow, if_pos hfull]

theorem Sized.new {cap : ℕ} (hwidth : 0 < width) : Sized width (new width cap : Svector α) where
  width_pos := hwidth
  size_le := Nat.zero_le _
  length_head := Or.inl (length_malloc width _)

theorem Sized.lt_length_grow (h : Sized width v) :
    v.size < (v.grow width).length ↔
      v.size < room width (width * if v.size < v.cap then v.cap else v.newcap) := by
  rcases Nat.lt_or_ge v.size v.cap with hroom | hfull
  · rw [grow_of_lt hroom, if_pos hroom]
    rcases h.length_head with hfirst | ⟨-, hcap, hfits⟩
    · rw [hfirst]
    · exact iff_of_true (hroom.trans_le hcap) (hroom.trans_le hfits)
  · rw [grow_of_le hfull, length_realloc, if_neg (by omega)]

/-- Growing keeps what the block holds. -/
theorem Sized.take_grow (h : Sized width v) (hlt : v.size < (v.grow width).length) :
    (v.grow width).take v.size = v.head.take v.size := by
  rcases Nat.lt_or_ge v.size v.cap with hroom | hfull
  · rw [grow_of_lt hroom]
  · rw [grow_of_le hfull] at hlt ⊢
    rw [length_realloc] at hlt
    exact take_realloc h.size_le hlt.le

theorem Sized.length_grow (h : Sized width v) (hlt : v.size < (v.grow width).length) :
    (v.grow width).length = room width (width * v.cap) ∨
      (v.grow width).length = room width (width * v.newcap) ∧ v.cap ≤ (v.grow width).length ∧
        v.cap ≤ room width (width * v.cap) := by
  rcases Nat.lt_or_ge v.size v.cap with hroom | hfull
  · rw [grow_of_lt hroom]
    exact h.length_head
  · rw [grow_of_le hfull] at hlt ⊢
    refine Or.inr ⟨length_realloc _ _, hfull.trans hlt.le, ?_⟩
    rcases h.length_head with hfirst | ⟨-, -, hfits⟩
    · exact hfull.trans (h.size_le.trans_eq hfirst)
    · exact hfits

/-! ## What the operations keep -/

theorem Sized.pushBack (h : Sized width v) (hpush : v.pushBack width t = some v') :
    Sized width v' := by
  unfold Svector.pushBack at hpush
  split at hpush
  case isFalse => cases hpush
  case isTrue hlt =>
    cases hpush
    refine ⟨h.width_pos, ?_, ?_⟩
    · rw [List.length_set]
      exact hlt
    · rw [List.length_set]
      exact h.length_grow hlt

theorem Sized.popBack (h : Sized width v) (hpop : v.popBack = some v') : Sized width v' := by
  unfold Svector.popBack at hpop
  split at hpop
  · split at hpop
    · cases hpop
      refine ⟨h.width_pos, ?_, ?_⟩
      · rw [List.length_set]
        exact (Nat.sub_le _ _).trans h.size_le
      · rw [List.length_set]
        exact h.length_head
    · cases hpop
  · cases hpop
    exact h

theorem length_destroy {n : ℕ} {block block' : List (Option α)}
    (h : destroy n block = some block') : block'.length = block.length := by
  induction n generalizing block block' with
  | zero =>
      cases h
      rfl
  | succ n ih =>
      cases block with
      | nil => cases h
      | cons c block =>
          cases c with
          | none => cases h
          | some x =>
              obtain ⟨rest, hrest, rfl⟩ := Option.map_eq_some_iff.mp h
              rw [List.length_cons, List.length_cons, ih hrest]

theorem Sized.clear (h : Sized width v) (hclear : v.clear = some v') : Sized width v' := by
  obtain ⟨block, hblock, rfl⟩ := Option.map_eq_some_iff.mp hclear
  refine ⟨h.width_pos, Nat.zero_le _, ?_⟩
  rw [length_destroy hblock]
  exact h.length_head

/-! ## What the operations do -/

theorem Sized.size_lt (h : Sized width v) : v.size < 2 ^ 64 := by
  rcases h.length_head with hlen | ⟨hlen, -⟩
  · exact h.size_le.trans_lt (hlen ▸ room_lt width _)
  · exact h.size_le.trans_lt (hlen ▸ room_lt width _)

theorem Sized.back_eq (h : Sized width v) (hpos : 0 < v.size) :
    v.back = v.head[v.size - 1]?.join := by
  have hlt := h.size_lt
  have hindex : (v.size + 2 ^ 64 - 1) % 2 ^ 64 = v.size - 1 := by omega
  rw [back, hindex]

theorem getElem?_last (hsize : v.size = xs.length) (helements : v.head.take v.size = xs.map some)
    (hxs : xs ≠ []) : v.head[v.size - 1]? = some xs.getLast? := by
  have hpos : 0 < xs.length := List.length_pos_of_ne_nil hxs
  have hlast : v.size - 1 < v.size := by omega
  rw [← List.getElem?_take_of_lt hlast, helements, hsize, List.getElem?_map,
    ← List.getLast?_eq_getElem?, List.getLast?_eq_some_getLast hxs]
  rfl

theorem Sized.holds (h : Sized width v) (hsize : v.size = xs.length)
    (helements : v.head.take v.size = xs.map some) :
    Holds v xs where
  size_eq := hsize
  room := h.size_le
  elements := helements
  back := by
    intro hxs
    have hpos : 0 < xs.length := List.length_pos_of_ne_nil hxs
    rw [h.back_eq (by omega), getElem?_last hsize helements hxs]
    rfl

theorem Sized.holds_new {cap : ℕ} (h : Sized width (Svector.new width cap : Svector α)) :
    Holds (Svector.new width cap : Svector α) [] :=
  h.holds rfl rfl

theorem Sized.holds_pushBack (h : Sized width v) (hv : Holds v xs)
    (hpush : v.pushBack width t = some v') : Holds v' (xs ++ [t]) := by
  have hsized := h.pushBack hpush
  unfold Svector.pushBack at hpush
  split at hpush
  case isFalse => cases hpush
  case isTrue hlt =>
    cases hpush
    refine hsized.holds ?_ ?_
    · rw [List.length_append, ← hv.size_eq]
      rfl
    · have hset : ((v.grow width).set v.size (some t))[v.size]? = some (some t) :=
        List.getElem?_set_self hlt
      rw [List.take_add_one, hset, List.take_set_of_le (Nat.le_refl _), h.take_grow hlt,
        hv.elements, List.map_append]
      rfl

theorem Sized.pushBack_isSome (h : Sized width v) :
    (∃ v', v.pushBack width t = some v') ↔
      v.size < room width (width * if v.size < v.cap then v.cap else v.newcap) := by
  rw [← h.lt_length_grow, Svector.pushBack]
  split
  · rename_i hlt
    exact iff_of_true ⟨_, rfl⟩ hlt
  · rename_i hlt
    exact iff_of_false (by rintro ⟨v', hv'⟩; cases hv') hlt

theorem Sized.holds_popBack (h : Sized width v) (hv : Holds v xs) :
    ∃ v', v.popBack = some v' ∧ Holds v' xs.dropLast := by
  rcases Nat.eq_zero_or_pos v.size with hzero | hpos
  · have hxs : xs = [] := List.length_eq_zero_iff.mp (hv.size_eq.symm.trans hzero)
    refine ⟨v, by rw [Svector.popBack, if_neg (by omega)], ?_⟩
    subst hxs
    exact hv
  · have hsize := hv.size_eq
    have hxs : xs ≠ [] := List.ne_nil_of_length_pos (by omega)
    have hlast : v.head[v.size - 1]? = some (some (xs.getLast hxs)) := by
      rw [getElem?_last hv.size_eq hv.elements hxs, List.getLast?_eq_some_getLast hxs]
    have hpop : v.popBack = some ⟨v.cap, v.size - 1, v.head.set (v.size - 1) none⟩ := by
      simp only [Svector.popBack, if_pos hpos, hlast]
    refine ⟨_, hpop, (h.popBack hpop).holds ?_ ?_⟩
    · rw [List.length_dropLast, ← hv.size_eq]
    · have hmap : xs.dropLast.map some = (xs.map some).dropLast := List.map_dropLast
      rw [List.take_set_of_le (Nat.le_refl _), hmap, ← hv.elements, List.dropLast_eq_take,
        List.length_take, Nat.min_eq_left hv.room, List.take_take, Nat.min_eq_left (Nat.sub_le _ _)]

theorem destroy_of_take {n : ℕ} {block : List (Option α)} (hn : n = xs.length)
    (h : block.take n = xs.map some) : ∃ block', destroy n block = some block' := by
  induction xs generalizing n block with
  | nil =>
      subst hn
      exact ⟨block, rfl⟩
  | cons x xs ih =>
      subst hn
      cases block with
      | nil => cases h
      | cons c block =>
          obtain ⟨rfl, hrest⟩ := List.cons_eq_cons.mp h
          obtain ⟨block', hblock'⟩ := ih rfl hrest
          exact ⟨none :: block', congrArg (Option.map (none :: ·)) hblock'⟩

theorem Sized.holds_clear (h : Sized width v) (hv : Holds v xs) :
    ∃ v', v.clear = some v' ∧ Holds v' [] := by
  obtain ⟨block, hblock⟩ := destroy_of_take hv.size_eq hv.elements
  have hclear : v.clear = some ⟨v.cap, 0, block⟩ := by rw [Svector.clear, hblock, Option.map_some]
  exact ⟨_, hclear, (h.clear hclear).holds rfl rfl⟩

/-! ## A family of vectors -/

variable [DecidableEq ι] {s s' : ι → Svector α} {W : ι → List α} {m : SvectorMove ι α}

theorem sized_step (h : ∀ i, Sized width (s i)) (hstep : step width s m = some s') :
    ∀ i, Sized width (s' i) := by
  have hupdate {i : ι} {v' : Svector α} (hv' : Sized width v') :
      ∀ k, Sized width (Function.update s i v' k) :=
    Function.forall_update_iff s _ |>.mpr ⟨hv', fun k _ ↦ h k⟩
  cases m with
  | pushBack i t =>
      obtain ⟨v', hv', rfl⟩ := Option.map_eq_some_iff.mp hstep
      exact hupdate ((h i).pushBack hv')
  | popBack i =>
      obtain ⟨v', hv', rfl⟩ := Option.map_eq_some_iff.mp hstep
      exact hupdate ((h i).popBack hv')
  | clear i =>
      obtain ⟨v', hv', rfl⟩ := Option.map_eq_some_iff.mp hstep
      exact hupdate ((h i).clear hv')
  | swap i j =>
      cases hstep
      exact fun k ↦ h (Equiv.swap i j k)

theorem holds_update (hW : ∀ i, Holds (s i) (W i)) {i : ι} {v' : Svector α} {xs : List α}
    (hv' : Holds v' xs) (k : ι) : Holds (Function.update s i v' k) (Function.update W i xs k) := by
  rcases eq_or_ne k i with rfl | hk
  · rw [Function.update_self, Function.update_self]
    exact hv'
  · rw [Function.update_of_ne hk, Function.update_of_ne hk]
    exact hW k

theorem holds_step (h : ∀ i, Sized width (s i)) (hW : ∀ i, Holds (s i) (W i)) :
    (∃ s', step width s m = some s' ∧ ∀ i, Holds (s' i) (listStep W m i)) ↔ HasRoom width s m := by
  cases m with
  | pushBack i t =>
      rw [HasRoom, ← (h i).pushBack_isSome (t := t)]
      constructor
      · rintro ⟨s', hs', -⟩
        obtain ⟨v', hv', -⟩ := Option.map_eq_some_iff.mp hs'
        exact ⟨v', hv'⟩
      · rintro ⟨v', hv'⟩
        exact ⟨Function.update s i v', congrArg (Option.map (Function.update s i)) hv',
          holds_update hW ((h i).holds_pushBack (hW i) hv')⟩
  | popBack i =>
      obtain ⟨v', hv', hholds⟩ := (h i).holds_popBack (hW i)
      exact iff_of_true ⟨Function.update s i v', congrArg (Option.map (Function.update s i)) hv',
        holds_update hW hholds⟩ trivial
  | clear i =>
      obtain ⟨v', hv', hholds⟩ := (h i).holds_clear (hW i)
      exact iff_of_true ⟨Function.update s i v', congrArg (Option.map (Function.update s i)) hv',
        holds_update hW hholds⟩ trivial
  | swap i j => exact iff_of_true ⟨s ∘ Equiv.swap i j, rfl, fun k ↦ hW (Equiv.swap i j k)⟩ trivial

/-- The vectors are lists, and no element lies outside of a block, exactly as long as every
element that is pushed has a place. -/
theorem lists_iff_hasRoom (hwidth : 0 < width) (caps : ι → ℕ) (moves : List (SvectorMove ι α)) :
    (∀ before, before <+: moves → ∃ s',
        (system ι α width).run (fun i ↦ new width (caps i)) before = some s' ∧
          ∀ i, Holds (s' i) (before.foldl listStep (fun _ ↦ []) i)) ↔
      (system ι α width).Allowed (HasRoom width) (fun i ↦ new width (caps i)) moves := by
  have hsized (i : ι) : Sized width (new width (caps i) : Svector α) := Sized.new hwidth
  have hallowed := System.allowed_anyStep (S := system ι α width) (fun _ _ ↦ trivial)
    (fun i ↦ new width (caps i)) moves
  have hinv (s : ι → Svector α) (W : ι → List α) (m : SvectorMove ι α) (s' : ι → Svector α)
      (h : ∀ i, Sized width (s i)) (_ : ∀ i, Holds (s i) (W i))
      (_ : (system ι α width).enabled s m) (hs' : (system ι α width).step s m = some s')
      (_ : ∀ i, Holds (s' i) (listStep W m i)) : ∀ i, Sized width (s' i) :=
    sized_step h hs'
  have hstep (s : ι → Svector α) (W : ι → List α) (m : SvectorMove ι α)
      (h : ∀ i, Sized width (s i)) (hW : ∀ i, Holds (s i) (W i))
      (_ : (system ι α width).enabled s m) :
      (∃ s', (system ι α width).step s m = some s' ∧ ∀ i, Holds (s' i) (listStep W m i)) ↔
        HasRoom width s m :=
    holds_step h hW
  exact System.simulates_iff
    (R := fun (s : ι → Svector α) (W : ι → List α) ↦ ∀ i, Holds (s i) (W i))
    hinv hstep hsized (fun i ↦ (hsized i).holds_new) hallowed

/-- A vector made for one element, with another one that it is swapped with. -/
theorem lists_iff_hasRoom_swapped :
    (∀ before, before <+: [.pushBack true 1, .pushBack true 2, .swap true false,
        .pushBack true 3, .popBack false, .clear true] →
      ∃ s', (system Bool ℕ 8).run (fun i ↦ new 8 (if i then 1 else 3)) before = some s' ∧
        ∀ i, Holds (s' i) (before.foldl listStep (fun _ ↦ []) i)) ↔
      (system Bool ℕ 8).Allowed (HasRoom 8) (fun i ↦ new 8 (if i then 1 else 3))
        [.pushBack true 1, .pushBack true 2, .swap true false, .pushBack true 3, .popBack false,
          .clear true] :=
  lists_iff_hasRoom (by decide) _ _

/-- The third element of a vector made for one is constructed outside of the block. -/
theorem pushBack_outside :
    ¬ ∀ before, before <+: [.pushBack true 1, .pushBack true 2, .pushBack true 3] →
      ∃ s', (system Bool ℕ 8).run (fun _ ↦ new 8 1) before = some s' ∧
        ∀ i, Holds (s' i) (before.foldl listStep (fun _ ↦ []) i) := by
  intro h
  obtain ⟨s', hs', -⟩ := h _ (List.prefix_refl _)
  have hnone : (system Bool ℕ 8).run (fun _ ↦ new 8 1)
      [.pushBack true 1, .pushBack true 2, .pushBack true 3] = none := by decide +kernel
  rw [hnone] at hs'
  cases hs'

end Svector

end Slience
