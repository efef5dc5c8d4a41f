import Slience.Redis.DictMap

/-!
# Going through the hash table

An iterator keeps the address of the entry behind the one that it returned, so that the caller may
delete the entry that was returned.  Whatever is deleted so, the iterator returns every entry of
the table once.
-/

namespace Slience

namespace Redis

namespace Dict

variable {K V : Type}

/-- `while ((de = dictNext(it)) != NULL)` with a body that deletes the entries of `del`. -/
def visitAll [DecidableEq K] (hashFunction : K → UInt32) (del : K → V → Bool) :
    ℕ → Dict K V → Iterator → Option (List (K × V) × Dict K V)
  | 0, _, _ => none
  | fuel + 1, ht, it => do
      let (de, it) ← ht.dictNext it
      match de with
      | none => some ([], ht)
      | some de =>
          let ht ←
            if del de.key de.val then (ht.dictDelete hashFunction de.key).map Prod.fst
            else some ht
          let (visited, ht) ← visitAll hashFunction del fuel ht it
          some ((de.key, de.val) :: visited, ht)

variable {hashFunction : K → UInt32} {ht : Dict K V}

/-! ## Addresses -/

theorem fromAddress_of_notMem {id : ℕ} {chain : List (DictEntry K V)}
    (h : id ∉ chain.map (·.id)) : fromAddress id chain = none := by
  induction chain with
  | nil => rfl
  | cons he chain ih =>
      rw [List.map_cons, List.mem_cons, not_or] at h
      rw [fromAddress, if_neg (Ne.symm h.1), ih h.2]

theorem fromAddress_append {before chain : List (DictEntry K V)} {he : DictEntry K V}
    (h : he.id ∉ before.map (·.id)) :
    fromAddress he.id (before ++ he :: chain) = some (he, chain) := by
  induction before with
  | nil => rw [List.nil_append, fromAddress, if_pos rfl]
  | cons he' before ih =>
      rw [List.map_cons, List.mem_cons, not_or] at h
      rw [List.cons_append, fromAddress, if_neg (Ne.symm h.1), ih h.2]

/-- An address points to the entry that has it. -/
theorem deref_eq (h : (ht.entries.map (·.id)).Nodup) {i : ℕ} {before chain : List (DictEntry K V)}
    {he : DictEntry K V} (hi : ht.table[i]? = some (before ++ he :: chain)) :
    ht.deref he.id = some (he, chain) := by
  obtain ⟨hlt, hget⟩ := List.getElem?_eq_some_iff.mp hi
  have htable : ht.table = ht.table.take i ++ (before ++ he :: chain) :: ht.table.drop (i + 1) := by
    rw [← hget, ← List.drop_eq_getElem_cons hlt, List.take_append_drop]
  rw [entries, htable, List.flatten_append, List.flatten_cons, List.map_append, List.map_append,
    List.map_append, List.map_cons] at h
  have hbefore : he.id ∉ before.map (·.id) := by
    have hchain := (List.nodup_append.mp (List.nodup_append.mp h).2.1).1
    intro hmem
    exact (List.nodup_append.mp hchain).2.2 _ hmem _ List.mem_cons_self rfl
  have hothers : ∀ c ∈ ht.table.take i, fromAddress he.id c = none := by
    intro c hc
    apply fromAddress_of_notMem
    intro hmem
    have hflat : he.id ∈ (ht.table.take i).flatten.map (·.id) := by
      obtain ⟨e, he', hid⟩ := List.mem_map.mp hmem
      exact List.mem_map.mpr ⟨e, List.mem_flatten.mpr ⟨c, hc, he'⟩, hid⟩
    refine (List.nodup_append.mp h).2.2 _ hflat he.id ?_ rfl
    exact List.mem_append_left _ (List.mem_append_right _ List.mem_cons_self)
  rw [deref, htable, List.findSome?_append, List.findSome?_eq_none_iff.mpr hothers,
    Option.none_or, List.findSome?_cons, fromAddress_append hbefore]

/-! ## Where an iterator is -/

/-- The entries that an iterator has before it. -/
inductive At (ht : Dict K V) : Iterator → List (DictEntry K V) → Prop
  | between {i : ℕ} {next : Option ℕ} :
      At ht ⟨(i : ℤ) - 1, none, next⟩ (ht.table.drop i).flatten
  | inside {i id : ℕ} {before chain : List (DictEntry K V)}
      (hi : ht.table[i]? = some (before ++ chain)) :
      At ht ⟨i, some id, chain.head?.map (·.id)⟩ (chain ++ (ht.table.drop (i + 1)).flatten)

theorem at_getIterator (ht : Dict K V) : At ht getIterator ht.entries :=
  At.between (i := 0)

/-- The entry that was returned is in a chain, and the iterator is behind it. -/
def Returned (ht : Dict K V) (it : Iterator) (he : DictEntry K V) (rest : List (DictEntry K V)) :
    Prop :=
  ∃ (i : ℕ) (before chain : List (DictEntry K V)),
    ht.table[i]? = some (before ++ he :: chain) ∧
      it = ⟨i, some he.id, chain.head?.map (·.id)⟩ ∧
        rest = chain ++ (ht.table.drop (i + 1)).flatten

theorem Returned.at {it : Iterator} {he : DictEntry K V} {rest : List (DictEntry K V)}
    (h : Returned ht it he rest) : At ht it rest := by
  obtain ⟨i, before, chain, hi, rfl, rfl⟩ := h
  have hi' : ht.table[i]? = some ((before ++ [he]) ++ chain) := by
    rw [List.append_assoc]
    exact hi
  exact At.inside hi'

/-- What `dictNext` returns of the entries that are before the iterator. -/
inductive Yields (ht : Dict K V) : List (DictEntry K V) → Option (DictEntry K V) × Iterator → Prop
  | last (it : Iterator) : Yields ht [] (none, it)
  | next {he : DictEntry K V} {rest : List (DictEntry K V)} {it : Iterator}
      (h : Returned ht it he rest) : Yields ht (he :: rest) (some he, it)

theorem nextLoop_between (h : Inv hashFunction ht) {i fuel : ℕ} (next : Option ℕ)
    (hfuel : ht.size < i + fuel) (hpos : 0 < fuel) :
    ∃ r, nextLoop ht fuel ⟨(i : ℤ) - 1, none, next⟩ = some r ∧
      Yields ht (ht.table.drop i).flatten r := by
  have hsize : (Int32.ofNat ht.size).toInt = ht.size :=
    Int32.toInt_ofNat_of_lt (h.size_le.trans_lt (by decide))
  induction fuel generalizing i next with
  | zero => omega
  | succ fuel ih =>
      rw [nextLoop]
      simp only [sub_add_cancel, hsize]
      rcases Nat.lt_or_ge i ht.size with hlt | hge
      · rw [if_neg (by omega), Int.toNat_natCast]
        rw [← h.length_eq] at hlt
        rw [List.drop_eq_getElem_cons hlt, List.flatten_cons]
        simp only [List.getElem?_eq_getElem hlt, Option.bind_eq_bind, Option.bind_some]
        cases hchain : ht.table[i] with
        | nil =>
            have hidx : ((i : ℤ)) = ((i + 1 : ℕ) : ℤ) - 1 := by omega
            rw [List.nil_append, hidx]
            have hlen := h.length_eq
            exact ih next (by omega) (by omega)
        | cons he chain =>
            have hget : ht.table[i]? = some ([] ++ he :: chain) := by
              rw [List.getElem?_eq_getElem hlt, hchain]
              rfl
            exact ⟨_, rfl, Yields.next ⟨i, [], chain, hget, rfl, rfl⟩⟩
      · rw [if_pos (by omega), List.drop_eq_nil_of_le (h.length_eq.trans_le hge)]
        exact ⟨_, rfl, Yields.last _⟩

theorem dictNext_yields (h : Inv hashFunction ht) {it : Iterator} {rest : List (DictEntry K V)}
    (hat : At ht it rest) : ∃ r, ht.dictNext it = some r ∧ Yields ht rest r := by
  cases hat with
  | @between i next => exact nextLoop_between h next (by omega) (by omega)
  | @inside i id before chain hi =>
      rw [dictNext, nextLoop]
      cases chain with
      | nil =>
          have hidx : ((i : ℤ)) = ((i + 1 : ℕ) : ℤ) - 1 := by omega
          rw [List.nil_append, hidx]
          exact nextLoop_between h none (by omega) (by omega)
      | cons he chain =>
          have hderef := deref_eq h.ids hi
          simp only [List.head?_cons, Option.map_some, hderef, Option.bind_eq_bind,
            Option.bind_some]
          exact ⟨_, rfl, Yields.next ⟨i, before, chain, hi, rfl, rfl⟩⟩

/-! ## Deleting what was returned -/

variable [DecidableEq K]

theorem unlink_append {before chain : List (DictEntry K V)} {he : DictEntry K V}
    (h : he.key ∉ before.map (·.key)) :
    unlink he.key (before ++ he :: chain) = some (before ++ chain) := by
  induction before with
  | nil => rw [List.nil_append, unlink, if_pos rfl, List.nil_append]
  | cons he' before ih =>
      rw [List.map_cons, List.mem_cons, not_or] at h
      rw [List.cons_append, unlink, if_neg (Ne.symm h.1), ih h.2]
      rfl

/-- Deleting the entry that was returned leaves what is before the iterator as it was. -/
theorem Returned.delete {it : Iterator} {he : DictEntry K V} {rest : List (DictEntry K V)}
    (hret : Returned ht it he rest) (h : Inv hashFunction ht) :
    ∃ ht', ht.dictDelete hashFunction he.key = some (ht', true) ∧ Inv hashFunction ht' ∧
      At ht' it rest ∧ ht.entries.Perm (he :: ht'.entries) := by
  obtain ⟨i, before, chain, hi, rfl, rfl⟩ := hret
  have hmem : he ∈ before ++ he :: chain := List.mem_append_right _ List.mem_cons_self
  have hslot : slot hashFunction ht.sizemask he.key = i := h.placed i _ hi he hmem
  have hkeys : ((before ++ he :: chain).map (·.key)).Nodup :=
    h.keys.sublist ((List.sublist_flatten_of_mem (List.mem_of_getElem? hi)).map _)
  have hbefore : he.key ∉ before.map (·.key) := by
    rw [List.map_append, List.nodup_append] at hkeys
    exact fun hin ↦ hkeys.2.2 _ hin _ List.mem_cons_self rfl
  obtain ⟨hlt, -⟩ := List.getElem?_eq_some_iff.mp hi
  have hsize : ht.size ≠ 0 := by
    rw [h.length_eq] at hlt
    omega
  have hdelete : ht.dictDelete hashFunction he.key = some ({ ht with
      table := ht.table.set i (before ++ chain), used := decrement ht.used }, true) := by
    rw [dictDelete, if_neg hsize, chainOf, hslot]
    simp only [hi, Option.bind_eq_bind, Option.bind_some, unlink_append hbefore]
  obtain ⟨ht', hinv, ⟨hnew, -, -⟩ | ⟨e, hkey, hdelete', hperm⟩⟩ := dictDelete_eq h he.key
  · exact absurd rfl (hnew he (Buckets.mem_flatten_of_getElem? hi hmem))
  · have he' : e = he := h.eq_of_key (hperm.mem_iff.mpr List.mem_cons_self)
      (Buckets.mem_flatten_of_getElem? hi hmem) hkey
    rw [hdelete, Option.some_inj, Prod.mk.injEq] at hdelete'
    obtain ⟨rfl, -⟩ := hdelete'
    refine ⟨_, hdelete, hinv, ?_, he' ▸ hperm⟩
    have hset : (ht.table.set i (before ++ chain))[i]? = some (before ++ chain) :=
      List.getElem?_set_self hlt
    have hdrop : (ht.table.set i (before ++ chain)).drop (i + 1) = ht.table.drop (i + 1) :=
      List.drop_set_of_lt (Nat.lt_succ_self i)
    rw [← hdrop]
    exact At.inside hset

/-! ## All entries -/

theorem visitAll_eq (h : Inv hashFunction ht) (del : K → V → Bool) {it : Iterator}
    {rest : List (DictEntry K V)} (hat : At ht it rest) (hin : ∀ e ∈ rest, e ∈ ht.entries)
    (hnodup : rest.Nodup) {fuel : ℕ} (hfuel : rest.length < fuel) :
    ∃ ht', visitAll hashFunction del fuel ht it =
        some (rest.map fun e ↦ (e.key, e.val), ht') ∧ Inv hashFunction ht' ∧
      ∀ e, e ∈ ht'.entries ↔ e ∈ ht.entries ∧ (e ∈ rest → del e.key e.val = false) := by
  induction rest generalizing ht it fuel with
  | nil =>
      obtain ⟨fuel, rfl⟩ := Nat.exists_eq_succ_of_ne_zero (Nat.ne_of_gt hfuel)
      obtain ⟨r, hnext, hyields⟩ := dictNext_yields h hat
      cases hyields with
      | last it' =>
          refine ⟨ht, ?_, h, fun e ↦ by simp⟩
          rw [visitAll]
          simp only [hnext, Option.bind_eq_bind, Option.bind_some, List.map_nil]
  | cons he rest ih =>
      obtain ⟨fuel, rfl⟩ := Nat.exists_eq_succ_of_ne_zero (Nat.ne_of_gt (Nat.zero_lt_of_lt hfuel))
      rw [List.length_cons] at hfuel
      rw [List.nodup_cons] at hnodup
      obtain ⟨r, hnext, hyields⟩ := dictNext_yields h hat
      cases hyields with
      | @next he rest it' hret =>
          rw [visitAll]
          simp only [hnext, Option.bind_eq_bind, Option.bind_some]
          cases hdel : del he.key he.val with
          | false =>
              obtain ⟨ht', hvisit, hinv, hmem⟩ := ih h hret.at
                (fun e hmem ↦ hin e (List.mem_cons_of_mem he hmem)) hnodup.2
                (show rest.length < fuel by omega)
              simp only [hvisit, Option.bind_some, if_neg Bool.false_ne_true]
              refine ⟨ht', rfl, hinv, fun e ↦ ?_⟩
              rw [hmem e, List.mem_cons]
              refine and_congr_right fun _ ↦ ⟨?_, fun hall hrest ↦ hall (Or.inr hrest)⟩
              rintro hall (rfl | hrest)
              · exact hdel
              · exact hall hrest
          | true =>
              obtain ⟨ht₁, hdelete, h₁, hat₁, hperm⟩ := hret.delete h
              have hentries := (hperm.nodup_iff.mp (h.keys.of_map _))
              rw [List.nodup_cons] at hentries
              have hin₁ : ∀ e ∈ rest, e ∈ ht₁.entries := by
                intro e hmem
                have hold := hperm.mem_iff.mp (hin e (List.mem_cons_of_mem he hmem))
                refine (List.mem_cons.mp hold).resolve_left ?_
                rintro rfl
                exact hnodup.1 hmem
              obtain ⟨ht', hvisit, hinv, hmem⟩ := ih h₁ hat₁ hin₁ hnodup.2
                (show rest.length < fuel by omega)
              simp only [hdelete, Option.map_some, if_true, Option.bind_some, hvisit]
              refine ⟨ht', rfl, hinv, fun e ↦ ?_⟩
              rw [hmem e, hperm.mem_iff, List.mem_cons, List.mem_cons]
              constructor
              · rintro ⟨hold, hall⟩
                refine ⟨Or.inr hold, ?_⟩
                rintro (rfl | hrest)
                · exact absurd hold hentries.1
                · exact hall hrest
              · rintro ⟨rfl | hold, hall⟩
                · rw [hall (Or.inl rfl)] at hdel
                  cases hdel
                · exact ⟨hold, fun hrest ↦ hall (Or.inr hrest)⟩

/-- In every table that calls have made, an iterator returns each key with its value once, also
when the caller deletes some of the entries as they are returned; what it keeps is left. -/
theorem visitAll_of_run {ops : List (Op K V)} {answers : List (Answer V)}
    (hfits : (system hashFunction).Allowed (fun s op ↦ s.1.Fits op) (create, []) ops)
    (hrun : (system hashFunction).run (create, []) ops = some (ht, answers))
    (del : K → V → Bool) :
    let m := (mapRun (fun _ ↦ none) ops).1
    ∃ visited ht', visitAll hashFunction del (ht.used + 1) ht getIterator = some (visited, ht') ∧
      (visited.map Prod.fst).Nodup ∧ (∀ k v, (k, v) ∈ visited ↔ m k = some v) ∧
        Represents ht' fun k ↦ (m k).filter fun v ↦ !del k v := by
  intro m
  obtain ⟨ht₁, hrun₁, h, hm⟩ := run_from inv_create represents_create [] hfits
  rw [hrun, Option.some_inj, Prod.mk.injEq] at hrun₁
  obtain ⟨rfl, -⟩ := hrun₁
  obtain ⟨ht', hvisit, -, hmem⟩ := visitAll_eq h del (at_getIterator ht) (fun e he ↦ he)
    (h.keys.of_map _) (show ht.entries.length < ht.used + 1 by rw [h.used_eq]; omega)
  refine ⟨_, ht', hvisit, ?_, ?_, ?_⟩
  · rw [List.map_map]
    exact h.keys
  · intro k v
    rw [hm k v, List.mem_map]
    simp only [Prod.mk.injEq]
  · intro k v
    rw [Option.filter_eq_some_iff, hm k v]
    constructor
    · rintro ⟨⟨e, he, rfl, rfl⟩, hkeep⟩
      exact ⟨e, (hmem e).mpr ⟨he, fun _ ↦ by simpa using hkeep⟩, rfl, rfl⟩
    · rintro ⟨e, he, rfl, rfl⟩
      obtain ⟨hold, hkeep⟩ := (hmem e).mp he
      exact ⟨⟨e, hold, rfl, rfl⟩, by simpa using hkeep hold⟩

/-- Even keys are deleted, of which two are in one chain. -/
theorem visitAll_of_run_sampleOps :
    ∃ ht answers, (system fun k : ℕ ↦ UInt32.ofNat (k / 2)).run (create, [])
        [.add 4 1, .add 12 2, .add 3 3] = some (ht, answers) ∧
      ∃ visited ht', visitAll (fun k : ℕ ↦ UInt32.ofNat (k / 2)) (fun k (_ : ℕ) ↦ k % 2 == 0)
          (ht.used + 1) ht getIterator = some (visited, ht') ∧
        (visited.map Prod.fst).Nodup ∧
          (∀ k v, (k, v) ∈ visited ↔
            (mapRun (fun _ ↦ none) [.add 4 1, .add 12 2, .add 3 3]).1 k = some v) ∧
            Represents ht' fun k ↦
              ((mapRun (fun _ ↦ none) [.add 4 1, .add 12 2, .add 3 3]).1 k).filter
                fun _ ↦ !(k % 2 == 0) := by
  have hrun : ((system fun k : ℕ ↦ UInt32.ofNat (k / 2)).run ((create : Dict ℕ ℕ), [])
      [.add 4 1, .add 12 2, .add 3 3]).isSome := by
    decide +kernel
  obtain ⟨⟨ht, answers⟩, hr⟩ := Option.isSome_iff_exists.mp hrun
  exact ⟨ht, answers, hr, visitAll_of_run (by decide +kernel) hr _⟩

end Dict

end Redis

end Slience
