import Slience.Redis.Dict

/-!
# The hash table is a map

An entry is in the chain of its key's slot, no key is in the table twice, and there are as many
entries as `used` says.  Up to their order the operations change the entries as those of a map
from keys to values do; `dictExpand` only changes the order.  The table is taken to stay below
`2 ^ 30` chains, so that an index of it is an `int`.
-/

namespace Slience

namespace Redis

namespace Dict

variable {K V : Type} {hashFunction : K → UInt32}

def entries (ht : Dict K V) : List (DictEntry K V) := ht.table.flatten

/-- The greatest size of a table here. -/
def sizeLimit : ℕ := 2 ^ 30

/-- No table yet, or one whose size is a power of two. -/
structure Sized (ht : Dict K V) : Prop where
  length_eq : ht.table.length = ht.size
  size_eq : ht.size = 0 ∨ ∃ j, 2 ≤ j ∧ j ≤ 30 ∧ ht.size = 2 ^ j
  mask_eq : ht.sizemask = ht.size - 1

structure Inv (hashFunction : K → UInt32) (ht : Dict K V) : Prop extends Sized ht where
  placed : Buckets.Placed (fun e ↦ slot hashFunction ht.sizemask e.key) ht.table
  keys : (ht.entries.map (·.key)).Nodup
  used_eq : ht.used = ht.entries.length
  used_le : ht.used ≤ ht.size
  ids : (ht.entries.map (·.id)).Nodup
  allocated : ∀ e ∈ ht.entries, e.id < ht.fresh

/-! ## Sizes and slots -/

theorem slot_lt (hashFunction : K → UInt32) {j : ℕ} (key : K) :
    slot hashFunction (2 ^ j - 1) key < 2 ^ j := by
  rw [slot, Nat.and_two_pow_sub_one_eq_mod]
  exact Nat.mod_lt _ (Nat.two_pow_pos j)

theorem nextPowerLoop_eq {size : ℕ} (hsize : size ≤ sizeLimit) {fuel j : ℕ} (hj : j ≤ 30)
    (hfuel : 30 - j < fuel) :
    ∃ k, j ≤ k ∧ k ≤ 30 ∧ size ≤ 2 ^ k ∧ nextPowerLoop size fuel (2 ^ j) = some (2 ^ k) := by
  induction fuel generalizing j with
  | zero => omega
  | succ fuel ih =>
      rw [nextPowerLoop]
      split
      · rename_i hle
        exact ⟨j, le_rfl, hj, hle, rfl⟩
      · rename_i hgt
        have hlt : j < 30 := by
          rcases Nat.lt_or_ge j 30 with h | h
          · exact h
          · have : j = 30 := by omega
            rw [this] at hgt
            exact absurd hsize hgt
        have hdouble : 2 ^ j * 2 % 2 ^ 64 = 2 ^ (j + 1) := by
          rw [← pow_succ]
          exact Nat.mod_eq_of_lt (Nat.pow_lt_pow_right (by omega) (by omega))
        obtain ⟨k, hjk, hk, hle, hloop⟩ := ih (j := j + 1) (by omega) (by omega)
        exact ⟨k, by omega, hk, hle, by rw [hdouble, hloop]⟩

theorem dictNextPower_eq {size : ℕ} (hsize : size ≤ sizeLimit) :
    ∃ k, 2 ≤ k ∧ k ≤ 30 ∧ size ≤ 2 ^ k ∧ dictNextPower size = some (2 ^ k) := by
  have hsmall : ¬ longMax ≤ size := by
    unfold longMax
    unfold sizeLimit at hsize
    omega
  obtain ⟨k, hk, hk', hle, hloop⟩ := nextPowerLoop_eq hsize (j := 2) (by omega)
    (show 30 - 2 < 64 by omega)
  exact ⟨k, hk, hk', hle, by rw [dictNextPower, if_neg hsmall, ← hloop]; rfl⟩

/-! ## Moving the entries -/

section Move

variable {j : ℕ} {table : List (List (DictEntry K V))}

/-- A new table that is being filled. -/
structure Filling (hashFunction : K → UInt32) (j : ℕ) (table : List (List (DictEntry K V))) :
    Prop where
  length_eq : table.length = 2 ^ j
  placed : Buckets.Placed (fun e ↦ slot hashFunction (2 ^ j - 1) e.key) table

theorem decrement_eq {used : ℕ} (h : used < 2 ^ 64) (hpos : 0 < used) :
    decrement used = used - 1 := by
  unfold decrement
  omega

theorem Filling.push (h : Filling hashFunction j table) (he : DictEntry K V) :
    ∃ old, table[slot hashFunction (2 ^ j - 1) he.key]? = some old ∧
      Filling hashFunction j (table.set (slot hashFunction (2 ^ j - 1) he.key) (he :: old)) := by
  have hlt : slot hashFunction (2 ^ j - 1) he.key < table.length := by
    rw [h.length_eq]
    exact slot_lt hashFunction he.key
  refine ⟨table[slot hashFunction (2 ^ j - 1) he.key], List.getElem?_eq_getElem hlt, ?_, ?_⟩
  · rw [List.length_set, h.length_eq]
  · refine h.placed.set fun e hmem ↦ ?_
    rcases List.mem_cons.mp hmem with rfl | hmem
    · rfl
    · exact h.placed _ _ (List.getElem?_eq_getElem hlt) e hmem

theorem moveChain_eq (h : Filling hashFunction j table) (chain : List (DictEntry K V)) {used : ℕ}
    (hused : used < 2 ^ 64) (hlen : chain.length ≤ used) :
    ∃ table', moveChain hashFunction (2 ^ j - 1) chain (table, used) =
        some (table', used - chain.length) ∧ Filling hashFunction j table' ∧
      table'.flatten.Perm (chain ++ table.flatten) := by
  induction chain generalizing table used with
  | nil => exact ⟨table, rfl, h, .rfl⟩
  | cons he chain ih =>
      rw [List.length_cons] at hlen
      obtain ⟨old, hold, hpush⟩ := h.push he
      have hdecrement := decrement_eq hused (by omega)
      obtain ⟨table', hmove, htable', hperm⟩ :=
        ih hpush (show used - 1 < 2 ^ 64 by omega) (by omega)
      refine ⟨table', ?_, htable', ?_⟩
      · rw [moveChain]
        simp only [hold, Option.bind_eq_bind, Option.bind_some, hdecrement, hmove]
        rw [List.length_cons, Nat.sub_sub, Nat.add_comm 1]
      · have hpushed := (Buckets.perm_push hold he).append_left chain
        exact hperm.trans (hpushed.trans List.perm_middle)

theorem moveTable_eq (h : Filling hashFunction j table) (old : List (List (DictEntry K V)))
    (hlen : old.flatten.length < 2 ^ 64) :
    ∃ table', moveTable hashFunction (2 ^ j - 1) old (table, old.flatten.length) =
        some (table', 0) ∧ Filling hashFunction j table' ∧
      table'.flatten.Perm (old.flatten ++ table.flatten) := by
  induction old generalizing table with
  | nil => exact ⟨table, rfl, h, .rfl⟩
  | cons chain old ih =>
      rw [List.flatten_cons, List.length_append] at hlen ⊢
      rw [moveTable]
      split
      · rename_i hzero
        have hnil := List.eq_nil_of_length_eq_zero (Nat.add_eq_zero_iff.mp hzero).1
        have hnil' := List.eq_nil_of_length_eq_zero (Nat.add_eq_zero_iff.mp hzero).2
        exact ⟨table, by rw [show chain.length + old.flatten.length = 0 from hzero], h, by
          rw [hnil, hnil']; exact .rfl⟩
      · obtain ⟨table₁, hmove, htable₁, hperm₁⟩ := moveChain_eq h chain hlen (Nat.le_add_right _ _)
        rw [Nat.add_sub_cancel_left] at hmove
        obtain ⟨table', hmove', htable', hperm⟩ := ih htable₁ (by omega)
        refine ⟨table', by rw [hmove, Option.bind_some, hmove'], htable', hperm.trans ?_⟩
        rw [List.append_assoc]
        exact (hperm₁.append_left _).trans (List.perm_append_comm_assoc _ _ _)

end Move

/-! ## The operations -/

variable {ht : Dict K V}

theorem inv_create : Inv hashFunction (create : Dict K V) where
  length_eq := rfl
  size_eq := Or.inl rfl
  mask_eq := rfl
  placed i chain hi := by cases hi
  keys := List.nodup_nil
  used_eq := rfl
  used_le := le_rfl
  ids := List.nodup_nil
  allocated e he := by cases he

theorem Inv.size_le (h : Inv hashFunction ht) : ht.size ≤ sizeLimit := by
  rcases h.size_eq with hzero | ⟨j, -, hj, hsize⟩
  · rw [hzero]
    exact Nat.zero_le _
  · rw [hsize]
    exact Nat.pow_le_pow_right (by omega) hj

theorem Inv.eq_of_key (h : Inv hashFunction ht) {e e' : DictEntry K V} (he : e ∈ ht.entries)
    (he' : e' ∈ ht.entries) (hkey : e.key = e'.key) : e = e' :=
  List.inj_on_of_nodup_map h.keys he he' hkey

/-- The same entries in another order. -/
structure Reordered (ht ht' : Dict K V) : Prop where
  perm : ht'.entries.Perm ht.entries
  fresh_eq : ht'.fresh = ht.fresh
  used_eq : ht'.used = ht.used

theorem Reordered.inv {ht' : Dict K V} (h : Reordered ht ht') (hinv : Inv hashFunction ht)
    (hsized : Sized ht')
    (hplaced : Buckets.Placed (fun e ↦ slot hashFunction ht'.sizemask e.key) ht'.table)
    (hused : ht'.used ≤ ht'.size) : Inv hashFunction ht' where
  toSized := hsized
  placed := hplaced
  keys := (h.perm.map _).nodup_iff.mpr hinv.keys
  used_eq := by rw [h.used_eq, hinv.used_eq, h.perm.length_eq]
  used_le := hused
  ids := (h.perm.map _).nodup_iff.mpr hinv.ids
  allocated e he := by
    rw [h.fresh_eq]
    exact hinv.allocated e (h.perm.mem_iff.mp he)

theorem dictExpand_eq (h : Inv hashFunction ht) {size : ℕ} (hsize : size ≤ sizeLimit)
    (hused : ht.used ≤ size) :
    ∃ ht', ht.dictExpand hashFunction size = some (ht', true) ∧ Inv hashFunction ht' ∧
      Reordered ht ht' ∧ size ≤ ht'.size ∧ ht'.size ≠ 0 := by
  obtain ⟨j, hj, hj', hle, hpower⟩ := dictNextPower_eq hsize
  have hnew : Filling hashFunction j (List.replicate (2 ^ j) ([] : List (DictEntry K V))) :=
    ⟨List.length_replicate, Buckets.placed_replicate _ _⟩
  have hlen : ht.table.flatten.length = ht.used := h.used_eq.symm
  obtain ⟨table, hmove, htable, hperm⟩ := moveTable_eq hnew ht.table (by
    rw [hlen]
    unfold sizeLimit at hsize
    omega)
  rw [hlen] at hmove
  rw [List.flatten_replicate_nil, List.append_nil] at hperm
  have hreordered : Reordered ht
      { ht with table, size := 2 ^ j, sizemask := 2 ^ j - 1 } := ⟨hperm, rfl, rfl⟩
  refine ⟨_, ?_, hreordered.inv h ⟨htable.length_eq, Or.inr ⟨j, hj, hj', rfl⟩, rfl⟩ htable.placed
    (hused.trans hle), hreordered, hle, (Nat.two_pow_pos j).ne'⟩
  rw [dictExpand]
  simp only [hpower, Option.bind_eq_bind, Option.bind_some, if_neg (not_lt.mpr hused), hmove,
    if_true]

/-- Behind `_dictExpandIfNeeded` there is room for one more entry. -/
theorem dictExpandIfNeeded_eq (h : Inv hashFunction ht) (hused : ht.used < sizeLimit) :
    ∃ ht', ht.dictExpandIfNeeded hashFunction = some (ht', true) ∧ Inv hashFunction ht' ∧
      Reordered ht ht' ∧ ht'.used < ht'.size := by
  unfold dictExpandIfNeeded
  split
  · rename_i hzero
    have hempty : ht.used = 0 := Nat.le_zero.mp (hzero ▸ h.used_le)
    obtain ⟨ht', hexpand, hinv, hsame, hle, hne⟩ := dictExpand_eq h
      (show initialSize ≤ sizeLimit by decide) (by rw [hempty]; exact Nat.zero_le _)
    refine ⟨ht', hexpand, hinv, hsame, ?_⟩
    rw [hsame.used_eq, hempty]
    exact Nat.pos_of_ne_zero hne
  · rename_i hne
    split
    · rename_i hfull
      obtain ⟨j, hj, -, hsize⟩ := h.size_eq.resolve_left hne
      have hj' : j < 30 := by
        rw [hfull, hsize] at hused
        exact (Nat.pow_lt_pow_iff_right (by omega)).mp hused
      have hdouble : ht.size * 2 = 2 ^ (j + 1) := by rw [hsize, pow_succ]
      have hle : 2 ^ (j + 1) ≤ sizeLimit := Nat.pow_le_pow_right (by omega) hj'
      have hmod : ht.size * 2 % 2 ^ 64 = ht.size * 2 := by
        rw [hdouble]
        unfold sizeLimit at hle
        omega
      obtain ⟨ht', hexpand, hinv, hsame, hsize', -⟩ := dictExpand_eq h
        (show ht.size * 2 ≤ sizeLimit by rw [hdouble]; exact hle) (by omega)
      rw [hmod]
      refine ⟨ht', hexpand, hinv, hsame, ?_⟩
      rw [hsame.used_eq]
      omega
    · rename_i hfull
      exact ⟨ht, rfl, h, ⟨.rfl, rfl, rfl⟩, lt_of_le_of_ne h.used_le hfull⟩

/-- A table has a chain for every key, which has all entries of the key. -/
theorem chainOf_eq (h : Inv hashFunction ht) (hne : ht.size ≠ 0) (key : K) :
    ∃ chain, ht.chainOf hashFunction key = some chain ∧
      slot hashFunction ht.sizemask key < sizeLimit ∧
        ∀ e, e.key = key → (e ∈ ht.entries ↔ e ∈ chain) := by
  obtain ⟨j, -, hj, hsize⟩ := h.size_eq.resolve_left hne
  have hslot : slot hashFunction ht.sizemask key < 2 ^ j := by
    rw [h.mask_eq, hsize]
    exact slot_lt hashFunction key
  have hlt : slot hashFunction ht.sizemask key < ht.table.length := by
    rw [h.length_eq, hsize]
    exact hslot
  have hget := List.getElem?_eq_getElem hlt
  refine ⟨_, hget, hslot.trans_le (Nat.pow_le_pow_right (by omega) hj), ?_⟩
  rintro e rfl
  exact h.placed.mem_iff hget

/-- An entry that was added. -/
theorem Inv.add (h : Inv hashFunction ht) (hroom : ht.used < ht.size) {key : K}
    (hnew : ∀ e ∈ ht.entries, e.key ≠ key) (val : V) {chain : List (DictEntry K V)}
    (hchain : ht.table[slot hashFunction ht.sizemask key]? = some chain) :
    Inv hashFunction { ht with
      table := ht.table.set (slot hashFunction ht.sizemask key) (⟨ht.fresh, key, val⟩ :: chain)
      used := ht.used + 1
      fresh := ht.fresh + 1 } := by
  have hperm := Buckets.perm_push hchain ⟨ht.fresh, key, val⟩
  refine ⟨⟨?_, h.size_eq, h.mask_eq⟩, ?_, ?_, ?_, hroom, ?_, ?_⟩
  · rw [List.length_set, h.length_eq]
  · refine h.placed.set fun e he ↦ ?_
    rcases List.mem_cons.mp he with rfl | he
    · rfl
    · exact h.placed _ _ hchain e he
  · rw [entries, (hperm.map _).nodup_iff, List.map_cons, List.nodup_cons]
    refine ⟨fun hmem ↦ ?_, h.keys⟩
    obtain ⟨e, he, hkey⟩ := List.mem_map.mp hmem
    exact hnew e he hkey
  · rw [entries, hperm.length_eq, List.length_cons, ← entries, h.used_eq]
  · rw [entries, (hperm.map _).nodup_iff, List.map_cons, List.nodup_cons]
    refine ⟨fun hmem ↦ ?_, h.ids⟩
    obtain ⟨e, he, hid⟩ := List.mem_map.mp hmem
    exact (h.allocated e he).ne hid
  · intro e he
    rcases List.mem_cons.mp (hperm.mem_iff.mp he) with rfl | he
    · exact Nat.lt_succ_self _
    · exact (h.allocated e he).trans (Nat.lt_succ_self _)

theorem Inv.setVal (h : Inv hashFunction ht) (id : ℕ) (val : V) :
    Inv hashFunction (ht.setVal id val) ∧ (ht.setVal id val).entries =
      ht.entries.map fun e ↦ if e.id = id then { e with val } else e := by
  have hentries : (ht.setVal id val).entries =
      ht.entries.map fun e ↦ if e.id = id then { e with val } else e :=
    List.map_flatten.symm
  have hkey (e : DictEntry K V) : (if e.id = id then { e with val } else e).key = e.key := by
    split <;> rfl
  have hid (e : DictEntry K V) : (if e.id = id then { e with val } else e).id = e.id := by
    split <;> rfl
  refine ⟨⟨⟨?_, h.size_eq, h.mask_eq⟩, ?_, ?_, ?_, h.used_le, ?_, ?_⟩, hentries⟩
  · rw [Dict.setVal, List.length_map, h.length_eq]
  · intro i chain hi e he
    rw [Dict.setVal, List.getElem?_map] at hi
    obtain ⟨chain', hchain', rfl⟩ := Option.map_eq_some_iff.mp hi
    obtain ⟨e', he', rfl⟩ := List.mem_map.mp he
    exact (congrArg (slot hashFunction ht.sizemask) (hkey e')).trans
      (h.placed i chain' hchain' e' he')
  · rw [hentries, List.map_map]
    simp only [Function.comp_def, hkey]
    exact h.keys
  · rw [hentries, List.length_map]
    exact h.used_eq
  · rw [hentries, List.map_map]
    simp only [Function.comp_def, hid]
    exact h.ids
  · intro e he
    rw [hentries] at he
    obtain ⟨e', he', rfl⟩ := List.mem_map.mp he
    rw [hid]
    exact h.allocated e' he'

/-- An entry that was taken out. -/
theorem Inv.remove (h : Inv hashFunction ht) {key : K} {chain rest : List (DictEntry K V)}
    {e : DictEntry K V} (hchain : ht.table[slot hashFunction ht.sizemask key]? = some chain)
    (hperm : chain.Perm (e :: rest)) :
    Inv hashFunction { ht with
      table := ht.table.set (slot hashFunction ht.sizemask key) rest
      used := ht.used - 1 } ∧
      ht.entries.Perm (e :: (ht.table.set (slot hashFunction ht.sizemask key) rest).flatten) := by
  obtain ⟨hlt, -⟩ := List.getElem?_eq_some_iff.mp hchain
  have hall : ht.entries.Perm
      (e :: (ht.table.set (slot hashFunction ht.sizemask key) rest).flatten) :=
    (Buckets.perm_of_getElem? hchain).trans
      ((hperm.append_right _).trans ((Buckets.perm_set hlt rest).symm.cons e))
  refine ⟨⟨⟨?_, h.size_eq, h.mask_eq⟩, ?_, ?_, ?_, ?_, ?_, ?_⟩, hall⟩
  · rw [List.length_set, h.length_eq]
  · exact h.placed.set fun e' he' ↦
      h.placed _ _ hchain e' (hperm.mem_iff.mpr (List.mem_cons_of_mem e he'))
  · have hkeys := (hall.map (·.key)).nodup_iff.mp h.keys
    exact (List.nodup_cons.mp hkeys).2
  · have hlen := hall.length_eq
    rw [List.length_cons, ← h.used_eq] at hlen
    change ht.used - 1 = (ht.table.set _ rest).flatten.length
    omega
  · exact (Nat.sub_le _ _).trans h.used_le
  · have hids := (hall.map (·.id)).nodup_iff.mp h.ids
    exact (List.nodup_cons.mp hids).2
  · exact fun e' he' ↦ h.allocated e' (hall.mem_iff.mpr (List.mem_cons_of_mem e he'))

variable [DecidableEq K]

theorem dictFind_eq (h : Inv hashFunction ht) (key : K) :
    ∃ r, ht.dictFind hashFunction key = some r ∧
      ∀ e, r = some e ↔ e ∈ ht.entries ∧ e.key = key := by
  unfold dictFind
  split
  · rename_i hzero
    have hnil : ht.entries = [] := by
      apply List.eq_nil_of_length_eq_zero
      have := h.used_le
      rw [← h.used_eq]
      omega
    refine ⟨none, rfl, fun e ↦ iff_of_false (Option.some_ne_none e).symm ?_⟩
    rintro ⟨he, -⟩
    rw [hnil] at he
    cases he
  · rename_i hne
    obtain ⟨chain, hchain, -, hmem⟩ := chainOf_eq h hne key
    refine ⟨_, by rw [hchain]; rfl, fun e ↦ ⟨fun he ↦ ?_, fun ⟨he, hkey⟩ ↦ ?_⟩⟩
    · have hkey : e.key = key := by simpa using List.find?_some he
      exact ⟨(hmem e hkey).mpr (List.mem_of_find?_eq_some he), hkey⟩
    · have hin := (hmem e hkey).mp he
      cases hfind : chain.find? fun he ↦ he.key = key with
      | none => exact absurd hkey (by simpa using List.find?_eq_none.mp hfind e hin)
      | some e' =>
          have hkey' : e'.key = key := by simpa using List.find?_some hfind
          have he' := (hmem e' hkey').mpr (List.mem_of_find?_eq_some hfind)
          rw [h.eq_of_key he' he (hkey'.trans hkey.symm)] at hfind
          exact hfind

theorem dictKeyIndex_eq (h : Inv hashFunction ht) (hused : ht.used < sizeLimit) (key : K) :
    ∃ ht', Inv hashFunction ht' ∧ Reordered ht ht' ∧ ht'.used < ht'.size ∧
      ((∃ e ∈ ht.entries, e.key = key) ∧ ht.dictKeyIndex hashFunction key = some (ht', -1) ∨
        (∀ e ∈ ht.entries, e.key ≠ key) ∧
          ht.dictKeyIndex hashFunction key =
            some (ht', (slot hashFunction ht'.sizemask key : ℤ))) := by
  obtain ⟨ht', hexpand, hinv, hsame, hroom⟩ := dictExpandIfNeeded_eq h hused
  obtain ⟨chain, hchain, hslot, hmem⟩ := chainOf_eq hinv (by omega) key
  refine ⟨ht', hinv, hsame, hroom, ?_⟩
  rw [dictKeyIndex]
  simp only [hexpand, Option.bind_eq_bind, Option.bind_some, hchain, if_true]
  split
  · rename_i hany
    obtain ⟨e, he, hkey⟩ := List.any_eq_true.mp hany
    have hkey : e.key = key := by simpa using hkey
    exact Or.inl ⟨⟨e, hsame.perm.mem_iff.mp ((hmem e hkey).mpr he), hkey⟩, rfl⟩
  · rename_i hany
    refine Or.inr ⟨fun e he hkey ↦ hany ?_, ?_⟩
    · exact List.any_eq_true.mpr
        ⟨e, (hmem e hkey).mp (hsame.perm.mem_iff.mpr he), by simpa using hkey⟩
    · rw [Int32.toInt_ofNat_of_lt (hslot.trans (by decide))]

theorem dictAdd_eq (h : Inv hashFunction ht) (hused : ht.used < sizeLimit) (key : K) (val : V) :
    ∃ ht', Inv hashFunction ht' ∧
      ((∃ e ∈ ht.entries, e.key = key) ∧ ht.dictAdd hashFunction key val = some (ht', false) ∧
          ht'.entries.Perm ht.entries ∨
        (∀ e ∈ ht.entries, e.key ≠ key) ∧ ht.dictAdd hashFunction key val = some (ht', true) ∧
          ht'.entries.Perm (⟨ht.fresh, key, val⟩ :: ht.entries)) := by
  obtain ⟨ht', hinv, hsame, hroom, hkey⟩ := dictKeyIndex_eq h hused key
  rcases hkey with ⟨hold, hindex⟩ | ⟨hnew, hindex⟩
  · refine ⟨ht', hinv, Or.inl ⟨hold, ?_, hsame.perm⟩⟩
    rw [dictAdd]
    simp only [hindex, Option.bind_eq_bind, Option.bind_some, if_true]
  · have hnew' : ∀ e ∈ ht'.entries, e.key ≠ key := fun e he ↦ hnew e (hsame.perm.mem_iff.mp he)
    obtain ⟨chain, hchain, hslot, -⟩ := chainOf_eq hinv (by omega) key
    have hadd := hinv.add hroom hnew' val hchain
    have hperm := Buckets.perm_push hchain ⟨ht'.fresh, key, val⟩
    rw [hsame.fresh_eq] at hperm hadd
    have hmod : (ht'.used + 1) % 2 ^ 64 = ht'.used + 1 := by
      have := hinv.size_le
      unfold sizeLimit at this
      omega
    refine ⟨_, hadd, Or.inr ⟨hnew, ?_, hperm.trans (hsame.perm.cons _)⟩⟩
    rw [dictAdd]
    simp only [hindex, Option.bind_eq_bind, Option.bind_some, hsame.fresh_eq]
    rw [if_neg (by omega), if_neg (by omega), Int.toNat_natCast, ← chainOf, hchain]
    simp only [Option.bind_some, hmod]

theorem unlink_eq (key : K) (chain : List (DictEntry K V)) :
    unlink key chain = none ∧ (∀ e ∈ chain, e.key ≠ key) ∨
      ∃ e rest, unlink key chain = some rest ∧ e.key = key ∧ chain.Perm (e :: rest) := by
  induction chain with
  | nil => exact Or.inl ⟨rfl, fun e he ↦ by cases he⟩
  | cons de chain ih =>
      rw [unlink]
      by_cases hkey : de.key = key
      · rw [if_pos hkey]
        exact Or.inr ⟨de, chain, rfl, hkey, .rfl⟩
      · rw [if_neg hkey]
        rcases ih with ⟨hnone, hne⟩ | ⟨e, rest, hrest, he, hperm⟩
        · rw [hnone]
          exact Or.inl ⟨rfl, List.forall_mem_cons.mpr ⟨hkey, hne⟩⟩
        · rw [hrest]
          exact Or.inr ⟨e, de :: rest, rfl, he, (hperm.cons de).trans (List.Perm.swap ..)⟩

theorem dictDelete_eq (h : Inv hashFunction ht) (key : K) :
    ∃ ht', Inv hashFunction ht' ∧
      ((∀ e ∈ ht.entries, e.key ≠ key) ∧ ht.dictDelete hashFunction key = some (ht', false) ∧
          ht' = ht ∨
        ∃ e, e.key = key ∧ ht.dictDelete hashFunction key = some (ht', true) ∧
          ht.entries.Perm (e :: ht'.entries)) := by
  unfold dictDelete
  by_cases hzero : ht.size = 0
  · rw [if_pos hzero]
    obtain ⟨r, hr, hmem⟩ := dictFind_eq h key
    rw [dictFind, if_pos hzero] at hr
    cases hr
    refine ⟨ht, h, Or.inl ⟨fun e he hkey ↦ ?_, rfl, rfl⟩⟩
    exact Option.some_ne_none e ((hmem e).mpr ⟨he, hkey⟩).symm
  · rw [if_neg hzero]
    obtain ⟨chain, hchain, -, hmem⟩ := chainOf_eq h hzero key
    simp only [hchain, Option.bind_eq_bind, Option.bind_some]
    rcases unlink_eq key chain with ⟨hnone, hne⟩ | ⟨e, rest, hrest, hkey, hperm⟩
    · rw [hnone]
      exact ⟨ht, h, Or.inl ⟨fun e he hkey ↦ hne e ((hmem e hkey).mp he) hkey, rfl, rfl⟩⟩
    · rw [hrest]
      obtain ⟨hinv, hall⟩ := h.remove hchain hperm
      have hpos : 0 < ht.used := by
        have hlen := hall.length_eq
        rw [List.length_cons, ← h.used_eq] at hlen
        omega
      have hsmall := h.used_le.trans h.size_le
      have hdecrement := decrement_eq (show ht.used < 2 ^ 64 by
        unfold sizeLimit at hsmall
        omega) hpos
      exact ⟨_, hinv, Or.inr ⟨e, hkey, by rw [hdecrement], hall⟩⟩

/-! ## Runs -/

/-- The calls. -/
inductive Op (K V : Type) where
  | add (key : K) (val : V)
  | replace (key : K) (val : V)
  | delete (key : K)
  | find (key : K)
  | clear
  deriving DecidableEq

/-- What a call returns. -/
inductive Answer (V : Type) where
  | status (ok : Bool)
  | found (val : Option V)
  deriving DecidableEq

def call (hashFunction : K → UInt32) (ht : Dict K V) : Op K V → Option (Dict K V × Answer V)
  | .add key val => (ht.dictAdd hashFunction key val).map fun r ↦ (r.1, .status r.2)
  | .replace key val => (ht.dictReplace hashFunction key val).map fun r ↦ (r.1, .status r.2)
  | .delete key => (ht.dictDelete hashFunction key).map fun r ↦ (r.1, .status r.2)
  | .find key => (ht.dictFind hashFunction key).map fun r ↦ (ht, .found (r.map (·.val)))
  | .clear => some (ht.dictClear, .status true)

/-- A map from keys to values, and what the calls do to it. -/
def mapCall (m : K → Option V) : Op K V → (K → Option V) × Answer V
  | .add key val =>
      if (m key).isSome then (m, .status false)
      else (Function.update m key (some val), .status true)
  | .replace key val => (Function.update m key (some val), .status (m key).isNone)
  | .delete key => (Function.update m key none, .status (m key).isSome)
  | .find key => (m, .found (m key))
  | .clear => (fun _ ↦ none, .status true)

/-- The entries of the table are the pairs of the map. -/
def Represents (ht : Dict K V) (m : K → Option V) : Prop :=
  ∀ k v, m k = some v ↔ ∃ e ∈ ht.entries, e.key = k ∧ e.val = v

variable {m : K → Option V}

omit [DecidableEq K] in
theorem Represents.eq_none_iff (h : Represents ht m) (key : K) :
    m key = none ↔ ∀ e ∈ ht.entries, e.key ≠ key := by
  constructor
  · intro hnone e he hkey
    have hsome := (h key e.val).mpr ⟨e, he, hkey, rfl⟩
    rw [hnone] at hsome
    cases hsome
  · intro hne
    cases hm : m key with
    | none => rfl
    | some v =>
        obtain ⟨e, he, hkey, -⟩ := (h key v).mp hm
        exact absurd hkey (hne e he)

omit [DecidableEq K] in
theorem Represents.perm (h : Represents ht m) {ht' : Dict K V}
    (hperm : ht'.entries.Perm ht.entries) : Represents ht' m := by
  intro k v
  rw [h k v]
  simp only [hperm.mem_iff]

theorem Represents.insert (h : Represents ht m) {ht' : Dict K V} {key : K} {val : V} {id : ℕ}
    (hnew : ∀ e ∈ ht.entries, e.key ≠ key)
    (hperm : ht'.entries.Perm (⟨id, key, val⟩ :: ht.entries)) :
    Represents ht' (Function.update m key (some val)) := by
  intro k v
  simp only [hperm.mem_iff, List.mem_cons, exists_eq_or_imp]
  by_cases hk : k = key
  · subst hk
    rw [Function.update_self, Option.some_inj]
    refine ⟨fun hv ↦ Or.inl ⟨rfl, hv⟩, ?_⟩
    rintro (⟨-, hv⟩ | ⟨e, he, hkey, -⟩)
    · exact hv
    · exact absurd hkey (hnew e he)
  · rw [Function.update_of_ne hk, h k v]
    refine ⟨Or.inr, ?_⟩
    rintro (⟨hkey, -⟩ | hold)
    · exact absurd hkey.symm hk
    · exact hold

theorem Represents.modify (h : Represents ht m) (hinv : Inv hashFunction ht)
    {entry : DictEntry K V} (hentry : entry ∈ ht.entries) (val : V) :
    Represents (ht.setVal entry.id val) (Function.update m entry.key (some val)) := by
  have hid : ∀ e ∈ ht.entries, e.id = entry.id → e = entry := fun e he ↦
    List.inj_on_of_nodup_map hinv.ids he hentry
  intro k v
  rw [(hinv.setVal entry.id val).2]
  simp only [List.mem_map, exists_exists_and_eq_and]
  by_cases hk : k = entry.key
  · subst hk
    rw [Function.update_self, Option.some_inj]
    constructor
    · rintro rfl
      exact ⟨entry, hentry, by rw [if_pos rfl], by rw [if_pos rfl]⟩
    · rintro ⟨e, he, hkey, hval⟩
      have hsame : e.key = entry.key := by
        rw [← hkey]
        split <;> rfl
      rwa [hinv.eq_of_key he hentry hsame, if_pos rfl] at hval
  · rw [Function.update_of_ne hk, h k v]
    refine exists_congr fun e ↦ and_congr_right fun he ↦ ?_
    by_cases heid : e.id = entry.id
    · rw [if_pos heid, hid e he heid]
      exact iff_of_false (fun h ↦ hk h.1.symm) fun h ↦ hk h.1.symm
    · rw [if_neg heid]

theorem Represents.remove (h : Represents ht m) (hinv : Inv hashFunction ht) {ht' : Dict K V}
    {e : DictEntry K V} (hperm : ht.entries.Perm (e :: ht'.entries)) :
    Represents ht' (Function.update m e.key none) := by
  have hkeys := (hperm.map (·.key)).nodup_iff.mp hinv.keys
  rw [List.map_cons, List.nodup_cons] at hkeys
  have hne : ∀ e' ∈ ht'.entries, e'.key ≠ e.key := fun e' he' hkey ↦
    hkeys.1 (List.mem_map.mpr ⟨e', he', hkey⟩)
  intro k v
  by_cases hk : k = e.key
  · subst hk
    rw [Function.update_self]
    refine iff_of_false (Option.some_ne_none v).symm ?_
    rintro ⟨e', he', hkey, -⟩
    exact hne e' he' hkey
  · rw [Function.update_of_ne hk, h k v]
    simp only [hperm.mem_iff, List.mem_cons, exists_eq_or_imp]
    refine ⟨?_, Or.inr⟩
    rintro (⟨hkey, -⟩ | hold)
    · exact absurd hkey.symm hk
    · exact hold

theorem dictReplace_eq (h : Inv hashFunction ht) (hm : Represents ht m)
    (hused : ht.used < sizeLimit) (key : K) (val : V) :
    ∃ ht', ht.dictReplace hashFunction key val = some (ht', (m key).isNone) ∧
      Inv hashFunction ht' ∧ Represents ht' (Function.update m key (some val)) := by
  obtain ⟨ht', hinv, hadd⟩ := dictAdd_eq h hused key val
  rw [dictReplace]
  rcases hadd with ⟨⟨e, he, hkey⟩, hadd, hperm⟩ | ⟨hnew, hadd, hperm⟩
  · obtain ⟨r, hfind, hr⟩ := dictFind_eq hinv key
    have hentry := (hr e).mpr ⟨hperm.mem_iff.mpr he, hkey⟩
    have hsome : m key = some e.val := (hm key e.val).mpr ⟨e, he, hkey, rfl⟩
    refine ⟨ht'.setVal e.id val, ?_, (hinv.setVal e.id val).1, ?_⟩
    · simp only [hadd, Option.bind_eq_bind, Option.bind_some, hfind, hentry, hsome,
        Option.isNone_some, if_neg Bool.false_ne_true]
    · rw [← hkey]
      exact (hm.perm hperm).modify hinv (hperm.mem_iff.mpr he) val
  · have hnone := (hm.eq_none_iff key).mpr hnew
    refine ⟨ht', ?_, hinv, hm.insert hnew hperm⟩
    simp only [hadd, Option.bind_eq_bind, Option.bind_some, hnone, Option.isNone_none, if_true]

/-- There is room for what a call may add. -/
def Fits (ht : Dict K V) : Op K V → Prop
  | .add _ _ | .replace _ _ => ht.used < sizeLimit
  | .delete _ | .find _ | .clear => True

/-- A call does to the table what it does to the map. -/
theorem call_eq (h : Inv hashFunction ht) (hm : Represents ht m) {op : Op K V}
    (hfits : Fits ht op) :
    ∃ ht', call hashFunction ht op = some (ht', (mapCall m op).2) ∧ Inv hashFunction ht' ∧
      Represents ht' (mapCall m op).1 := by
  cases op with
  | add key val =>
      obtain ⟨ht', hinv, ⟨⟨e, he, hkey⟩, hadd, hperm⟩ | ⟨hnew, hadd, hperm⟩⟩ :=
        dictAdd_eq h hfits key val
      · have hsome : (m key).isSome = true := by
          rw [(hm key e.val).mpr ⟨e, he, hkey, rfl⟩]
          rfl
        rw [call, mapCall, if_pos hsome, hadd]
        exact ⟨ht', rfl, hinv, hm.perm hperm⟩
      · have hnone : ¬ (m key).isSome = true := by
          rw [(hm.eq_none_iff key).mpr hnew]
          exact Bool.false_ne_true
        rw [call, mapCall, if_neg hnone, hadd]
        exact ⟨ht', rfl, hinv, hm.insert hnew hperm⟩
  | replace key val =>
      obtain ⟨ht', hreplace, hinv, hm'⟩ := dictReplace_eq h hm hfits key val
      rw [call, hreplace]
      exact ⟨ht', rfl, hinv, hm'⟩
  | delete key =>
      obtain ⟨ht', hinv, ⟨hnew, hdelete, rfl⟩ | ⟨e, rfl, hdelete, hperm⟩⟩ := dictDelete_eq h key
      · have hnone := (hm.eq_none_iff key).mpr hnew
        rw [call, mapCall, hdelete, hnone]
        have hsame : Function.update m key none = m := by
          conv_rhs => rw [← Function.update_eq_self key m, hnone]
        refine ⟨ht', rfl, hinv, ?_⟩
        change Represents ht' (Function.update m key none)
        rwa [hsame]
      · have hsome : m e.key = some e.val :=
          (hm e.key e.val).mpr ⟨e, hperm.mem_iff.mpr List.mem_cons_self, rfl, rfl⟩
        rw [call, mapCall, hdelete, hsome]
        exact ⟨ht', rfl, hinv, hm.remove h hperm⟩
  | find key =>
      obtain ⟨r, hfind, hr⟩ := dictFind_eq h key
      rw [call, mapCall, hfind]
      refine ⟨ht, ?_, h, hm⟩
      have hval : r.map (·.val) = m key := by
        cases r with
        | none =>
            refine ((hm.eq_none_iff key).mpr fun e he hkey ↦ ?_).symm
            cases (hr e).mpr ⟨he, hkey⟩
        | some e =>
            obtain ⟨he, hkey⟩ := (hr e).mp rfl
            exact ((hm key e.val).mpr ⟨e, he, hkey, rfl⟩).symm
      rw [Option.map_some, hval]
  | clear =>
      refine ⟨_, rfl, ?_, ?_⟩
      · have hinv : Inv hashFunction (create : Dict K V) := inv_create
        exact ⟨⟨rfl, Or.inl rfl, rfl⟩, hinv.placed, hinv.keys, rfl, le_rfl, hinv.ids,
          fun e he ↦ by cases he⟩
      · refine fun k v ↦ iff_of_false (Option.some_ne_none v).symm ?_
        rintro ⟨e, he, -⟩
        cases he

/-- A table and what its calls returned. -/
def system (hashFunction : K → UInt32) : System (Dict K V × List (Answer V)) (Op K V) where
  enabled _ _ := True
  step s op := (call hashFunction s.1 op).map fun r ↦ (r.1, s.2 ++ [r.2])

instance (hashFunction : K → UInt32) (s : Dict K V × List (Answer V)) (op : Op K V) :
    Decidable ((system hashFunction).enabled s op) :=
  inferInstanceAs (Decidable True)

instance (ht : Dict K V) (op : Op K V) : Decidable (ht.Fits op) :=
  match op with
  | .add _ _ | .replace _ _ => inferInstanceAs (Decidable (ht.used < sizeLimit))
  | .delete _ | .find _ | .clear => inferInstanceAs (Decidable True)

def mapRun (m : K → Option V) : List (Op K V) → (K → Option V) × List (Answer V)
  | [] => (m, [])
  | op :: ops =>
      let r := mapRun (mapCall m op).1 ops
      (r.1, (mapCall m op).2 :: r.2)

theorem run_from (h : Inv hashFunction ht) (hm : Represents ht m) (answers : List (Answer V))
    {ops : List (Op K V)}
    (hfits : (system hashFunction).Allowed (fun s op ↦ s.1.Fits op) (ht, answers) ops) :
    ∃ ht', (system hashFunction).run (ht, answers) ops =
        some (ht', answers ++ (mapRun m ops).2) ∧ Inv hashFunction ht' ∧
      Represents ht' (mapRun m ops).1 := by
  induction ops generalizing ht m answers with
  | nil => exact ⟨ht, by rw [mapRun, List.append_nil]; rfl, h, hm⟩
  | cons op ops ih =>
      obtain ⟨-, hfit, hrest⟩ := hfits
      obtain ⟨ht₁, hcall, h₁, hm₁⟩ := call_eq h hm hfit
      have hstep : (system hashFunction).step (ht, answers) op =
          some (ht₁, answers ++ [(mapCall m op).2]) := by
        change (call hashFunction ht op).map _ = _
        rw [hcall]
        rfl
      obtain ⟨ht', hrun, h', hm'⟩ := ih h₁ hm₁ _ (hrest _ hstep)
      refine ⟨ht', ?_, h', hm'⟩
      rw [System.run_cons, hstep, Option.bind_some, hrun, mapRun, List.append_assoc]
      rfl

omit [DecidableEq K] in
theorem represents_create : Represents (create : Dict K V) fun _ ↦ none := by
  refine fun k v ↦ iff_of_false (Option.some_ne_none v).symm ?_
  rintro ⟨e, he, -⟩
  cases he

omit [DecidableEq K] in
theorem used_of_represents (h : Inv hashFunction ht) (hm : Represents ht m) :
    ∃ keys : List K, keys.Nodup ∧ (∀ k, k ∈ keys ↔ m k ≠ none) ∧ ht.used = keys.length := by
  refine ⟨ht.entries.map (·.key), h.keys, fun k ↦ ?_, by rw [List.length_map, h.used_eq]⟩
  simp only [ne_eq, hm.eq_none_iff k, List.mem_map, not_forall, not_not, exists_prop]

/-- Every sequence of calls returns what it returns on a map from keys to values, also where the
table is created, grows or is cleared between them, and whatever slots the keys have; `used` is
the number of keys. -/
theorem run_calls (hashFunction : K → UInt32) {ops : List (Op K V)}
    (hfits : (system hashFunction).Allowed (fun s op ↦ s.1.Fits op) (create, []) ops) :
    ∃ ht, (system hashFunction).run (create, []) ops =
        some (ht, (mapRun (fun _ ↦ none) ops).2) ∧
      Represents ht (mapRun (fun _ ↦ none) ops).1 ∧
        ∃ keys : List K, keys.Nodup ∧
          (∀ k, k ∈ keys ↔ (mapRun (fun _ ↦ none) ops).1 k ≠ none) ∧ ht.used = keys.length := by
  obtain ⟨ht, hrun, hinv, hm⟩ := run_from inv_create represents_create [] hfits
  exact ⟨ht, hrun, hm, used_of_represents hinv hm⟩

/-- A key that was there, keys in one slot, and a table that grows. -/
def sampleOps : List (Op ℕ ℕ) :=
  [.add 1 10, .add 5 50, .add 1 11, .replace 5 55, .add 9 90, .add 2 20, .add 13 130, .delete 9,
    .find 5, .find 9]

theorem run_calls_sampleOps :
    ∃ ht, (system fun k : ℕ ↦ UInt32.ofNat (k % 4)).run (create, []) sampleOps =
        some (ht, (mapRun (fun _ ↦ none) sampleOps).2) ∧
      Represents ht (mapRun (fun _ ↦ none) sampleOps).1 ∧
        ∃ keys : List ℕ, keys.Nodup ∧
          (∀ k, k ∈ keys ↔ (mapRun (fun _ ↦ none) sampleOps).1 k ≠ none) ∧
            ht.used = keys.length :=
  run_calls _ (by decide +kernel)

end Dict

end Redis

end Slience
