import Slience.Coroutine.Schedule

/-!
# Every id belongs to one coroutine

`Slots` says that `_co` holds the live coroutines, each under the id that `create` returned for
it, and `Ids` that the free ids and the ids of the live coroutines are the numbers below `_nco`,
each once.  Both are kept by every function of the schedule, whoever calls it, so an id that is
handed out again belongs to no other coroutine.
-/

namespace Slience

namespace Coroutine

variable {F D : Type}

/-! ## The slots of the table -/

namespace Schedule

variable {s : Schedule F D} {id : ℤ}

theorem slot_isSome_iff : (s.slot id).isSome ↔ 0 ≤ id ∧ id < s.size := by
  unfold slot size
  split
  · rw [isSome_getElem?, Int.toNat_lt ‹_›]
    simp [*]
  · simp [*]

theorem slot_inRange {x : Option ℕ} (h : s.slot id = some x) : 0 ≤ id ∧ id < s.size := by
  apply slot_isSome_iff.mp
  rw [h]
  rfl

/-- The schedule with another pointer in one slot. -/
def putSlot (s : Schedule F D) (id : ℤ) (p : Option ℕ) : Schedule F D :=
  { s with co := s.co.map (·.set id.toNat p) }

theorem setSlot_eq (p : Option ℕ) (h : 0 ≤ id ∧ id < s.size) :
    s.setSlot id p = some (s.putSlot id p) :=
  if_pos (slot_isSome_iff.mpr h)

@[simp] theorem size_putSlot (s : Schedule F D) (id : ℤ) (p : Option ℕ) :
    (s.putSlot id p).size = s.size := by
  unfold size putSlot
  cases s.co <;> simp

theorem slot_putSlot_self (p : Option ℕ) (h : 0 ≤ id ∧ id < s.size) :
    (s.putSlot id p).slot id = some p := by
  obtain ⟨h0, hlt⟩ := h
  unfold size at hlt
  unfold slot putSlot
  rw [if_pos h0]
  cases hco : s.co with
  | none =>
      rw [hco] at hlt
      simp only [Option.getD_none, List.length_nil] at hlt
      omega
  | some t =>
      rw [hco, Option.getD_some] at hlt
      simp only [Option.map_some, Option.getD_some]
      rw [List.getElem?_set_self]
      omega

theorem slot_putSlot_of_ne (p : Option ℕ) {j : ℤ} (h0 : 0 ≤ id) (h : j ≠ id) :
    (s.putSlot id p).slot j = s.slot j := by
  unfold slot putSlot
  split
  · cases s.co with
    | none => rfl
    | some t =>
        simp only [Option.map_some, Option.getD_some]
        rw [List.getElem?_set_ne]
        omega
  · rfl

end Schedule

/-! ## What the tables hold -/

open Schedule Thread

/-- The slots hold the live coroutines, and nothing else. -/
structure Slots (s : Schedule F D) (L : List (LiveCo F D)) : Prop where
  nodup : (ids L).Nodup
  slot_iff (id : ℤ) (p : ℕ) : s.slot id = some (some p) ↔ ∃ e ∈ L, e.id = id ∧ e.co = p
  object : ∀ e ∈ L, ∃ status, s.objs.read e.co = some ⟨e.id, status, e.function, e.data⟩

/-- The free ids and the live ids are the ids handed out so far. -/
structure Ids (s : Schedule F D) (L : List (LiveCo F D)) : Prop where
  cap_eq : s.cap = s.size
  cap_pos : s.co ≠ none → 0 < s.cap
  cap_lt : s.cap < 2 ^ 31
  nco_nonneg : 0 ≤ s.nco
  nco_le : s.nco ≤ s.cap
  free_nodup : s.freeid.Nodup
  disjoint : ∀ id ∈ s.freeid, id ∉ ids L
  partition (id : ℤ) : id ∈ s.freeid ∨ id ∈ ids L ↔ 0 ≤ id ∧ id < s.nco

theorem mem_ids {L : List (LiveCo F D)} {id : ℤ} : id ∈ ids L ↔ ∃ e ∈ L, e.id = id := by
  rw [ids, List.mem_map]

theorem mem_without {L : List (LiveCo F D)} {id : ℤ} {e : LiveCo F D} :
    e ∈ without L id ↔ e ∈ L ∧ e.id ≠ id := by
  simp [without]

theorem mem_ids_without {L : List (LiveCo F D)} {id j : ℤ} :
    j ∈ ids (without L id) ↔ j ∈ ids L ∧ j ≠ id := by
  constructor
  · intro hj
    obtain ⟨e, he, rfl⟩ := mem_ids.mp hj
    obtain ⟨heL, hne⟩ := mem_without.mp he
    exact ⟨mem_ids.mpr ⟨e, heL, rfl⟩, hne⟩
  · rintro ⟨hj, hne⟩
    obtain ⟨e, he, rfl⟩ := mem_ids.mp hj
    exact mem_ids.mpr ⟨e, mem_without.mpr ⟨he, hne⟩, rfl⟩

theorem without_of_notMem {L : List (LiveCo F D)} {id : ℤ} (h : id ∉ ids L) :
    without L id = L := by
  rw [without, List.filter_eq_self]
  intro e he
  rw [decide_eq_true_eq]
  rintro rfl
  exact h (mem_ids.mpr ⟨e, he, rfl⟩)

namespace Slots

variable {s s' : Schedule F D} {L : List (LiveCo F D)}

theorem slot_of_mem (h : Slots s L) {e : LiveCo F D} (he : e ∈ L) :
    s.slot e.id = some (some e.co) :=
  (h.slot_iff e.id e.co).mpr ⟨e, he, rfl, rfl⟩

theorem inRange (h : Slots s L) {e : LiveCo F D} (he : e ∈ L) : 0 ≤ e.id ∧ e.id < s.size :=
  slot_inRange (h.slot_of_mem he)

theorem id_eq_of_co_eq (h : Slots s L) {e e' : LiveCo F D} (he : e ∈ L) (he' : e' ∈ L)
    (hco : e.co = e'.co) : e.id = e'.id := by
  obtain ⟨status, hread⟩ := h.object e he
  obtain ⟨status', hread'⟩ := h.object e' he'
  rw [hco, hread'] at hread
  exact (congrArg Co.id (Option.some.inj hread)).symm

theorem eq_of_id_eq (h : Slots s L) {e e' : LiveCo F D} (he : e ∈ L) (he' : e' ∈ L)
    (hid : e.id = e'.id) : e = e' :=
  List.inj_on_of_nodup_map h.nodup he he' hid

theorem slot_eq_none (h : Slots s L) {id : ℤ} {x : Option ℕ} (hx : s.slot id = some x)
    (hid : id ∉ ids L) : x = none := by
  cases x with
  | none => rfl
  | some p =>
      obtain ⟨e, he, hid', -⟩ := (h.slot_iff id p).mp hx
      exact absurd (mem_ids.mpr ⟨e, he, hid'⟩) hid

theorem congr (h : Slots s L)
    (hslot : ∀ id p, s'.slot id = some (some p) ↔ s.slot id = some (some p))
    (hobjs : ∀ e ∈ L, s'.objs.read e.co = s.objs.read e.co) : Slots s' L := by
  refine ⟨h.nodup, ?_, ?_⟩
  · intro id p
    rw [hslot, h.slot_iff]
  · intro e he
    rw [hobjs e he]
    exact h.object e he

theorem place (h : Slots s L) {id : ℤ} (hid : id ∉ ids L) (hrange : 0 ≤ id ∧ id < s.size)
    (f : F) (d : D) (hco : s'.co = (s.putSlot id (some s.objs.fresh)).co)
    (hobjs : s'.objs = s.objs.alloc ⟨id, .ready, f, d⟩) :
    Slots s' (L ++ [⟨id, s.objs.fresh, f, d⟩]) := by
  have hslot (j : ℤ) : s'.slot j = (s.putSlot id (some s.objs.fresh)).slot j := by
    rw [slot, hco, slot]
  refine ⟨?_, ?_, ?_⟩
  · rw [ids, List.map_append, List.nodup_append]
    refine ⟨h.nodup, List.nodup_singleton _, ?_⟩
    rintro i hi j hj rfl
    rw [List.map_singleton, List.mem_singleton] at hj
    subst hj
    exact hid hi
  · intro j p
    rw [hslot]
    by_cases hj : j = id
    · subst hj
      rw [slot_putSlot_self _ hrange]
      constructor
      · rintro hp
        cases hp
        exact ⟨⟨j, s.objs.fresh, f, d⟩, by simp, rfl, rfl⟩
      · rintro ⟨e, he, hej, rfl⟩
        rw [List.mem_append, List.mem_singleton] at he
        rcases he with he | rfl
        · exact absurd (mem_ids.mpr ⟨e, he, hej⟩) hid
        · rfl
    · rw [slot_putSlot_of_ne _ hrange.1 hj, h.slot_iff]
      constructor
      · rintro ⟨e, he, hej⟩
        exact ⟨e, List.mem_append_left _ he, hej⟩
      · rintro ⟨e, he, hej, hp⟩
        rw [List.mem_append, List.mem_singleton] at he
        rcases he with he | rfl
        · exact ⟨e, he, hej, hp⟩
        · exact absurd hej.symm hj
  · intro e he
    rw [List.mem_append, List.mem_singleton] at he
    rw [hobjs]
    rcases he with he | rfl
    · obtain ⟨status, hread⟩ := h.object e he
      exact ⟨status, by rw [Heap.read_alloc_of_ne _ (Heap.ne_fresh_of_read hread), hread]⟩
    · exact ⟨.ready, Heap.read_alloc_fresh ..⟩

theorem release (h : Slots s L) {e : LiveCo F D} (he : e ∈ L) :
    ∃ s', s.release e.co e.id = some s' ∧ Slots s' (without L e.id) ∧
      s' = { s.putSlot e.id none with objs := s'.objs, freeid := s.freeid ++ [e.id] } ∧
      ∀ q, q ≠ e.co → s'.objs.read q = s.objs.read q := by
  obtain ⟨status, hread⟩ := h.object e he
  obtain ⟨objs, hfree, -, hother⟩ := Heap.free_spec hread
  have hrange : 0 ≤ e.id ∧ e.id < { s with objs := objs }.size := h.inRange he
  refine ⟨{ s.putSlot e.id none with objs := objs, freeid := s.freeid ++ [e.id] }, ?_,
    ⟨?_, ?_, ?_⟩, rfl, hother⟩
  · unfold Schedule.release
    rw [hfree, Option.bind_eq_bind, Option.bind_some, setSlot_eq none hrange]
    rfl
  · exact h.nodup.sublist ((List.filter_sublist).map _)
  · intro j p
    change (s.putSlot e.id none).slot j = some (some p) ↔ _
    by_cases hj : j = e.id
    · subst hj
      rw [slot_putSlot_self none (h.inRange he)]
      constructor
      · intro hp
        cases hp
      · rintro ⟨e', he', hid, -⟩
        exact absurd hid (mem_without.mp he').2
    · rw [slot_putSlot_of_ne none (h.inRange he).1 hj, h.slot_iff]
      constructor
      · rintro ⟨e', he', rfl, hp⟩
        exact ⟨e', mem_without.mpr ⟨he', hj⟩, rfl, hp⟩
      · rintro ⟨e', he', hid, hp⟩
        exact ⟨e', (mem_without.mp he').1, hid, hp⟩
  · intro e' he'
    obtain ⟨heL, hne⟩ := mem_without.mp he'
    have hco : e'.co ≠ e.co := fun hco ↦ hne (h.id_eq_of_co_eq heL he hco)
    change ∃ status, objs.read e'.co = _
    rw [hother _ hco]
    exact h.object e' heL

theorem setStatus (h : Slots s L) {e : LiveCo F D} (he : e ∈ L) (status : CoStatus) :
    ∃ s', s.setStatus e.co status = some s' ∧ Slots s' L ∧ s' = { s with objs := s'.objs } ∧
      s'.objs.read e.co = some ⟨e.id, status, e.function, e.data⟩ ∧
      ∀ q, q ≠ e.co → s'.objs.read q = s.objs.read q := by
  obtain ⟨old, hread⟩ := h.object e he
  obtain ⟨objs, hwrite, hself, hother⟩ :=
    Heap.write_spec ⟨e.id, status, e.function, e.data⟩ hread
  refine ⟨{ s with objs := objs }, ?_, ⟨h.nodup, h.slot_iff, ?_⟩, rfl, hself, hother⟩
  · unfold Schedule.setStatus
    rw [hread, Option.bind_eq_bind, Option.bind_some, hwrite]
    rfl
  · intro e' he'
    by_cases hco : e'.co = e.co
    · obtain rfl := h.eq_of_id_eq he' he (h.id_eq_of_co_eq he' he hco)
      exact ⟨status, hself⟩
    · change ∃ status, objs.read e'.co = _
      rw [hother _ hco]
      exact h.object e' he'

end Slots

namespace Ids

variable {s s' : Schedule F D} {L : List (LiveCo F D)}

theorem lt_size (h : Ids s L) {id : ℤ} (hid : id ∈ s.freeid ∨ id ∈ ids L) :
    0 ≤ id ∧ id < s.size := by
  obtain ⟨h0, hlt⟩ := (h.partition id).mp hid
  have := h.nco_le
  rw [h.cap_eq] at this
  exact ⟨h0, by omega⟩

theorem congr (h : Ids s L) (hcap : s'.cap = s.cap) (hco : s'.co = s.co) (hnco : s'.nco = s.nco)
    (hfree : s'.freeid = s.freeid) : Ids s' L := by
  obtain ⟨cap, nco, co, curco, freeid, objs, frame⟩ := s'
  subst hcap hco hnco hfree
  exact ⟨h.cap_eq, h.cap_pos, h.cap_lt, h.nco_nonneg, h.nco_le, h.free_nodup, h.disjoint,
    h.partition⟩

theorem release (h : Ids s L) {e : LiveCo F D} (he : e ∈ L)
    (hs' : s' = { s.putSlot e.id none with objs := s'.objs, freeid := s.freeid ++ [e.id] }) :
    Ids s' (without L e.id) := by
  have hlive : e.id ∈ ids L := mem_ids.mpr ⟨e, he, rfl⟩
  rw [hs']
  refine ⟨?_, ?_, h.cap_lt, h.nco_nonneg, h.nco_le, ?_, ?_, ?_⟩
  · change s.cap = (s.putSlot e.id none).size
    rw [size_putSlot]
    exact h.cap_eq
  · rintro hco
    apply h.cap_pos
    rintro hnone
    exact hco (by simp [putSlot, hnone])
  · rw [List.nodup_append]
    refine ⟨h.free_nodup, List.nodup_singleton _, ?_⟩
    rintro i hi j hj rfl
    rw [List.mem_singleton] at hj
    subst hj
    exact h.disjoint e.id hi hlive
  · intro id hid hwithout
    obtain ⟨hidL, hne⟩ := mem_ids_without.mp hwithout
    rw [List.mem_append, List.mem_singleton] at hid
    rcases hid with hid | hid
    · exact h.disjoint id hid hidL
    · exact hne hid
  · intro id
    change id ∈ s.freeid ++ [e.id] ∨ _ ↔ 0 ≤ id ∧ id < s.nco
    rw [← h.partition id, List.mem_append, List.mem_singleton, mem_ids_without]
    by_cases hid : id = e.id
    · subst hid
      simp [hlive]
    · simp [hid]

theorem reuse (h : Ids s L) {fs : List ℤ} {id : ℤ} (hfree : s.freeid = fs ++ [id]) {e : LiveCo F D}
    (he : e.id = id) (hpos : 0 < s.cap) (hcap : s'.cap = s.cap) (hsize : s'.size = s.size)
    (hnco : s'.nco = s.nco) (hfree' : s'.freeid = fs) : Ids s' (L ++ [e]) := by
  have hids (j : ℤ) : j ∈ ids (L ++ [e]) ↔ j ∈ ids L ∨ j = id := by
    simp [ids, he]
  have hnodup := h.free_nodup
  rw [hfree, List.nodup_append] at hnodup
  obtain ⟨hfs, -, hne⟩ := hnodup
  refine ⟨?_, ?_, ?_, ?_, ?_, ?_, ?_, ?_⟩
  · rw [hcap, hsize, h.cap_eq]
  · rw [hcap]
    exact fun _ ↦ hpos
  · rw [hcap]
    exact h.cap_lt
  · rw [hnco]
    exact h.nco_nonneg
  · rw [hnco, hcap]
    exact h.nco_le
  · rw [hfree']
    exact hfs
  · intro j hj hmem
    rw [hfree'] at hj
    rcases (hids j).mp hmem with hmem | rfl
    · apply h.disjoint j _ hmem
      rw [hfree]
      exact List.mem_append_left _ hj
    · exact hne j hj j (List.mem_singleton_self j) rfl
  · intro j
    rw [hnco, ← h.partition j, hids, hfree', hfree, List.mem_append, List.mem_singleton]
    tauto

theorem next (h : Ids s L) (hfree : s.freeid = []) {e : LiveCo F D} (he : e.id = s.nco)
    (hcap : s'.cap = s'.size) (hint : s'.cap < 2 ^ 31) (hlt : s.nco < s'.cap)
    (hnco : s'.nco = s.nco + 1) (hfree' : s'.freeid = []) : Ids s' (L ++ [e]) := by
  have hids (j : ℤ) : j ∈ ids (L ++ [e]) ↔ j ∈ ids L ∨ j = s.nco := by
    simp [ids, he]
  have hnonneg := h.nco_nonneg
  refine ⟨hcap, by omega, hint, by omega, by omega, ?_, ?_, ?_⟩
  · rw [hfree']
    exact List.nodup_nil
  · intro j hj
    rw [hfree'] at hj
    cases hj
  · intro j
    have hpart := h.partition j
    rw [hfree] at hpart
    rw [hids, hfree', hnco]
    constructor
    · rintro (hj | hj | rfl)
      · cases hj
      · have := hpart.mp (Or.inr hj)
        omega
      · omega
    · rintro ⟨h0, hj⟩
      by_cases heq : j = s.nco
      · exact Or.inr (Or.inr heq)
      · rcases hpart.mpr ⟨h0, by omega⟩ with hj | hj
        · exact Or.inl hj
        · exact Or.inr (Or.inl hj)

end Ids

/-! ## `create` -/

namespace Schedule

variable {s s' : Schedule F D} {L : List (LiveCo F D)}

/-- All ids are in use and twice the capacity is no `int`. -/
def Full (s : Schedule F D) : Prop := s.freeid = [] ∧ s.nco = s.cap ∧ 2 ^ 30 ≤ s.cap

/-- A coroutine was created under the id `id`, and nothing else has changed. -/
structure Created (s s' : Schedule F D) (L : List (LiveCo F D)) (f : F) (d : D) (id : ℤ) :
    Prop where
  nonneg : 0 ≤ id
  slots : Slots s' (L ++ [⟨id, s.objs.fresh, f, d⟩])
  ids : Ids s' (L ++ [⟨id, s.objs.fresh, f, d⟩])
  curco_eq : s'.curco = s.curco
  frame_eq : s'.frame = s.frame
  objs_eq : s'.objs = s.objs.alloc ⟨id, .ready, f, d⟩

theorem place_eq {id : ℤ} (f : F) (d : D) (h : 0 ≤ id ∧ id < s.size) :
    s.place id f d = some { s.putSlot id (some s.objs.fresh) with
      objs := s.objs.alloc ⟨id, .ready, f, d⟩ } := by
  unfold place
  rw [setSlot_eq _ h]
  rfl

theorem allocCo_reuse (hslots : Slots s L) (hids : Ids s L) (f : F) (d : D) {id : ℤ}
    (hpos : 0 < s.cap) (hfree : s.freeid.getLast? = some id) :
    ∃ s', s.allocCo f d = some (s', id) ∧ Created s s' L f d id := by
  have hfs : s.freeid = s.freeid.dropLast ++ [id] := (List.dropLast_append_getLast? id hfree).symm
  have hmem : id ∈ s.freeid := List.mem_of_getLast? hfree
  have hrange := hids.lt_size (Or.inl hmem)
  refine ⟨{ s.putSlot id (some s.objs.fresh) with
    freeid := s.freeid.dropLast, objs := s.objs.alloc ⟨id, .ready, f, d⟩ },
    ?_, hrange.1, ?_, ?_, rfl, rfl, rfl⟩
  · unfold allocCo
    rw [hfree]
    have hplace := place_eq (s := { s with freeid := s.freeid.dropLast }) f d hrange
    change ({ s with freeid := s.freeid.dropLast }.place id f d).bind _ = _
    rw [hplace]
    rfl
  · exact hslots.place (hids.disjoint id hmem) hrange f d rfl rfl
  · exact hids.reuse hfs rfl hpos rfl (size_putSlot s id _) rfl rfl

theorem nco_notMem (hids : Ids s L) : s.nco ∉ Thread.ids L := by
  intro hmem
  have := (hids.partition s.nco).mp (Or.inr hmem)
  omega

theorem allocCo_next (hslots : Slots s L) (hids : Ids s L) (f : F) (d : D)
    (hfree : s.freeid = []) (hlt : s.nco < s.cap) :
    ∃ s', s.allocCo f d = some (s', s.nco) ∧ Created s s' L f d s.nco := by
  have hnonneg := hids.nco_nonneg
  have hcap := hids.cap_eq
  have hint := hids.cap_lt
  have hrange : 0 ≤ s.nco ∧ s.nco < s.size := by omega
  refine ⟨{ s.putSlot s.nco (some s.objs.fresh) with
    nco := s.nco + 1, objs := s.objs.alloc ⟨s.nco, .ready, f, d⟩ },
    ?_, hnonneg, ?_, ?_, rfl, rfl, rfl⟩
  · have hlast : s.freeid.getLast? = none := by
      rw [hfree]
      rfl
    unfold allocCo
    rw [hlast]
    change (if s.cap ≤ s.nco then _ else _) = _
    rw [if_neg (by omega), addInt_of_bounds (by omega) (by omega)]
    have hplace := place_eq (s := { s with nco := s.nco + 1 }) f d hrange
    change ({ s with nco := s.nco + 1 }.place s.nco f d).bind _ = _
    rw [hplace]
    rfl
  · exact hslots.place (nco_notMem hids) hrange f d rfl rfl
  · refine hids.next hfree rfl ?_ hint hlt rfl hfree
    change s.cap = (s.putSlot s.nco _).size
    rw [size_putSlot]
    exact hcap

/-- The schedule with the table of twice the size. -/
def grown (s : Schedule F D) : Schedule F D :=
  { s with co := s.co.map (· ++ List.replicate s.cap.toNat none), cap := s.cap + s.cap }

theorem size_grown {t : List (Option ℕ)} (hco : s.co = some t) :
    s.grown.size = s.size + s.cap.toNat := by
  simp [size, grown, hco]

theorem slot_grown (s : Schedule F D) (id : ℤ) (p : ℕ) :
    s.grown.slot id = some (some p) ↔ s.slot id = some (some p) := by
  unfold slot grown
  split
  · cases s.co with
    | none => rfl
    | some t =>
        simp only [Option.map_some, Option.getD_some, List.getElem?_append]
        split
        · rfl
        · rw [List.getElem?_eq_none (by omega : t.length ≤ id.toNat)]
          simp [List.getElem?_replicate]
  · rfl

theorem allocCo_grow (hslots : Slots s L) (hids : Ids s L) (f : F) (d : D)
    {t : List (Option ℕ)} (hco : s.co = some t) (hpos : 0 < s.cap) (hfree : s.freeid = [])
    (hge : s.nco = s.cap) (hint : s.cap < 2 ^ 30) :
    ∃ s', s.allocCo f d = some (s', s.nco) ∧ Created s s' L f d s.nco := by
  have hnonneg := hids.nco_nonneg
  have hcap := hids.cap_eq
  have hsize := size_grown hco
  have hrange : 0 ≤ s.nco ∧ s.nco < s.grown.size := by omega
  have hgrow : s.grow = some s.grown := by
    unfold grow
    rw [addInt_of_bounds (by omega) (by omega)]
    rfl
  have hgrown : Slots s.grown L := hslots.congr s.slot_grown fun _ _ ↦ rfl
  refine ⟨{ s.grown.putSlot s.nco (some s.objs.fresh) with
    nco := s.nco + 1, objs := s.objs.alloc ⟨s.nco, .ready, f, d⟩ },
    ?_, hnonneg, ?_, ?_, rfl, rfl, rfl⟩
  · have hlast : s.freeid.getLast? = none := by
      rw [hfree]
      rfl
    unfold allocCo
    rw [hlast]
    change (if s.cap ≤ s.nco then _ else _) = _
    rw [if_pos (by omega), hgrow, addInt_of_bounds (by omega) (by omega), ← hge]
    change (s.grown.setSlot s.nco (some s.objs.fresh)).bind _ = _
    rw [setSlot_eq _ hrange]
    rfl
  · exact hgrown.place (nco_notMem hids) hrange f d rfl rfl
  · refine hids.next hfree rfl ?_ ?_ ?_ rfl hfree
    · change s.cap + s.cap = (s.grown.putSlot s.nco _).size
      rw [size_putSlot]
      omega
    · change s.cap + s.cap < 2 ^ 31
      omega
    · change s.nco < s.cap + s.cap
      omega

theorem create_cases (hslots : Slots s L) (hids : Ids s L) (f : F) (d : D) :
    (s.co = none ∧ s.create f d = some (s, -1)) ∨
    (∃ s' id, s.create f d = some (s', id) ∧ Created s s' L f d id) ∨
    (s.create f d = none ∧ s.Full) := by
  have hle := hids.nco_le
  cases hco : s.co with
  | none =>
      left
      unfold create
      rw [hco]
      exact ⟨rfl, rfl⟩
  | some t =>
      right
      have hcreate : s.create f d = s.allocCo f d := by
        unfold create
        rw [hco]
      have hpos := hids.cap_pos (by rw [hco]; exact Option.some_ne_none t)
      rw [hcreate]
      cases hlast : s.freeid.getLast? with
      | some id =>
          obtain ⟨s', h⟩ := allocCo_reuse hslots hids f d hpos hlast
          exact Or.inl ⟨s', id, h⟩
      | none =>
          have hfree : s.freeid = [] := List.getLast?_eq_none_iff.mp hlast
          by_cases hlt : s.nco < s.cap
          · obtain ⟨s', h⟩ := allocCo_next hslots hids f d hfree hlt
            exact Or.inl ⟨s', s.nco, h⟩
          · have hge : s.nco = s.cap := by omega
            by_cases hint : s.cap < 2 ^ 30
            · obtain ⟨s', h⟩ := allocCo_grow hslots hids f d hco hpos hfree hge hint
              exact Or.inl ⟨s', s.nco, h⟩
            · right
              refine ⟨?_, hfree, hge, by omega⟩
              have hgrow : s.grow = none := by
                unfold grow addInt
                rw [if_neg (by omega)]
                rfl
              unfold allocCo
              rw [hlast]
              change (if s.cap ≤ s.nco then _ else _) = _
              rw [if_pos hge.ge, hgrow]
              rfl

end Schedule

end Coroutine

end Slience
