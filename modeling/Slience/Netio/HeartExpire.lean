import Slience.Netio.HeartBeat

/-!
# Closing what is over time

An entry is over time by the clock of the sweep that last applied an event of its socket.  This is
the time of an event only while each event is applied, in the slot of the entry, by a sweep that
began after it: an event that the sweep has just taken is applied behind the test, one that comes
while a sweep is under way counts for the beginning of the sweep, and one that goes to another slot
does not reach the entry.
-/

namespace Slience

namespace HeartBeatMng

/-- The event is in a list of slot `idx`. -/
def Beat.Listed (s : Beat) (idx : ℕ) (type : SocketType) (e : Event) : Prop :=
  e ∈ (s.slots idx).co type ∨ e ∈ (s.slots idx).data type

/-- The event is in the list it was put into. -/
def Beat.Waits (s : Beat) (e : Event) : Prop := s.Listed e.slot e.type e

/-- The sweep has just taken the event. -/
def RunPhase.Holds (e : Event) : RunPhase → Prop
  | testing _ _ co data => e ∈ co e.type ∨ e ∈ data e.type
  | _ => False

/-- The clock of the sweep that is under way. -/
def RunPhase.now : RunPhase → Option ℕ
  | idle => none
  | taking now _ => some now
  | testing now _ _ _ => some now

theorem Beat.mem_types (type : SocketType) : type ∈ types := by
  cases type <;> decide

/-- An entry of slot `idx` does not tell of the event: it is in a list, or was applied in another
slot, or by a sweep that had begun before it. -/
def Beat.Missed (s : Beat) (idx : ℕ) (e : Event) : Prop :=
  s.Waits e ∨ s.phase.Holds e ∨ ∃ now, (e, now) ∈ s.applied ∧ (e.slot ≠ idx ∨ now < e.time)

/-- The sweep misses no recent event of what it closes. -/
def Beat.Hears (beat : ℕ) (s : Beat) : BeatMove → Prop
  | .test connected =>
      match s.phase with
      | .testing now idx _ data => ∀ type, ∀ x ∈ (s.slots idx).info type, Due beat now x →
          connected type x.1 = true → (∀ e ∈ data type, e.ptr ≠ x.1) ∧
            ∀ e ∈ s.history, e.type = type → e.ptr = x.1 → e.Recent beat now → ¬ s.Missed idx e
      | _ => True
  | _ => True

section

variable (beat svrCnt : ℕ) (s : Beat)

instance (e : Event) : (phase : RunPhase) → Decidable (phase.Holds e)
  | .testing _ _ co data => inferInstanceAs (Decidable (e ∈ co e.type ∨ e ∈ data e.type))
  | .idle => isFalse not_false
  | .taking _ _ => isFalse not_false

instance (now : ℕ) (e : Event) : Decidable (e.Recent beat now) :=
  inferInstanceAs (Decidable (_ ∧ _))

instance (c : Closing) : Decidable (c.Justified beat) := inferInstanceAs (Decidable (_ ∧ _))

instance : Decidable (s.AllJustified beat) :=
  inferInstanceAs (Decidable (∀ c ∈ s.closings, c.Justified beat))

instance (e : Event) : Decidable (s.Waits e) :=
  inferInstanceAs (Decidable (e ∈ (s.slots e.slot).co e.type ∨ e ∈ (s.slots e.slot).data e.type))

instance (idx : ℕ) (e : Event) : Decidable (s.Missed idx e) :=
  letI : Decidable (∃ now, (e, now) ∈ s.applied ∧ (e.slot ≠ idx ∨ now < e.time)) :=
    decidable_of_iff (∃ a ∈ s.applied, a.1 = e ∧ (e.slot ≠ idx ∨ a.2 < e.time))
      ⟨fun ⟨a, ha, he, hmissed⟩ ↦ ⟨a.2, he ▸ ha, hmissed⟩,
        fun ⟨now, ha, hmissed⟩ ↦ ⟨(e, now), ha, rfl, hmissed⟩⟩
  inferInstanceAs (Decidable (_ ∨ _ ∨ _))

instance : (move : BeatMove) → Decidable (s.Hears beat move)
  | .test connected =>
      match h : s.phase with
      | .testing now idx _ data =>
          decidable_of_iff (∀ type ∈ Beat.types, ∀ x ∈ (s.slots idx).info type, Due beat now x →
            connected type x.1 = true → (∀ e ∈ data type, e.ptr ≠ x.1) ∧
              ∀ e ∈ s.history, e.type = type → e.ptr = x.1 → e.Recent beat now →
                ¬ s.Missed idx e) (by
            rw [Beat.Hears]
            simp only [h]
            exact ⟨fun hall type ↦ hall type (Beat.mem_types type), fun hall type _ ↦ hall type⟩)
      | .idle => isTrue (by simp only [Beat.Hears, h])
      | .taking _ _ => isTrue (by simp only [Beat.Hears, h])
  | .onConnected _ _ _ _ _ => isTrue trivial
  | .onReceiveData _ _ _ _ => isTrue trivial
  | .begin _ => isTrue trivial
  | .take => isTrue trivial

instance : (move : BeatMove) → Decidable ((system beat svrCnt).enabled s move)
  | .onConnected _ _ _ _ _ => inferInstanceAs (Decidable (_ ∧ _))
  | .onReceiveData _ _ _ _ => inferInstanceAs (Decidable (_ ∧ _))
  | .begin _ => inferInstanceAs (Decidable (_ ≤ _))
  | .take => isTrue trivial
  | .test _ => isTrue trivial

end

/-! ## A sweep of a map -/

/-- The entry of the socket is of the sweep. -/
def IsNow (now p : ℕ) (m : List (ℕ × Info)) : Prop := ∀ x ∈ m, x.1 = p → x.2.time = now

/-- Each entry is of the sweep, or has the time that it had. -/
def KeepsTimes (now : ℕ) (m m' : List (ℕ × Info)) : Prop :=
  ∀ x ∈ m', x.2.time = now ∨ ∃ y ∈ m, y.1 = x.1 ∧ y.2.time = x.2.time

theorem KeepsTimes.trans {now : ℕ} {m m' m'' : List (ℕ × Info)} (h : KeepsTimes now m m')
    (h' : KeepsTimes now m' m'') : KeepsTimes now m m'' := by
  intro x hx
  rcases h' x hx with hnow | ⟨y, hy, hptr, htime⟩
  · exact Or.inl hnow
  · rcases h y hy with hnow | ⟨z, hz, hptr', htime'⟩
    · exact Or.inl (htime ▸ hnow)
    · exact Or.inr ⟨z, hz, hptr'.trans hptr, htime'.trans htime⟩

theorem keepsTimes_setInfo (now : ℕ) (m : List (ℕ × Info)) (e : Event) :
    KeepsTimes now m (setInfo now m e) := by
  intro x hx
  rcases List.mem_cons.mp hx with rfl | hold
  · exact Or.inl rfl
  · exact Or.inr ⟨x, (List.mem_filter.mp hold).1, rfl, rfl⟩

theorem keepsTimes_touchInfo (now : ℕ) (m : List (ℕ × Info)) (e : Event) :
    KeepsTimes now m (touchInfo now m e) := by
  intro x hx
  obtain ⟨y, hy, rfl⟩ := List.mem_map.mp hx
  split
  · exact Or.inl rfl
  · exact Or.inr ⟨y, hy, rfl, rfl⟩

theorem keepsTimes_foldl {now : ℕ} {f : List (ℕ × Info) → Event → List (ℕ × Info)}
    (hf : ∀ m e, KeepsTimes now m (f m e)) (m : List (ℕ × Info)) (es : List Event) :
    KeepsTimes now m (es.foldl f m) := by
  induction es generalizing m with
  | nil => exact fun x hx ↦ Or.inr ⟨x, hx, rfl, rfl⟩
  | cons e es ih => exact (hf m e).trans (ih (f m e))

theorem keepsTimes_sweep (beat now : ℕ) (m : List (ℕ × Info)) (co data : List Event) :
    KeepsTimes now m (sweep beat now m co data) := by
  refine KeepsTimes.trans ?_ ((keepsTimes_foldl (keepsTimes_setInfo now) _ co).trans
    (keepsTimes_foldl (keepsTimes_touchInfo now) _ data))
  intro x hx
  obtain ⟨y, hy, rfl⟩ := List.mem_map.mp hx
  refine Or.inr ⟨y, (List.mem_filter.mp hy).1, rfl, ?_⟩
  dsimp only
  rw [Info.keepAlive]
  split <;> rfl

theorem IsNow.setInfo {now p : ℕ} {m : List (ℕ × Info)} {e : Event}
    (h : e.ptr = p ∨ IsNow now p m) : IsNow now p (setInfo now m e) := by
  intro x hx hptr
  rcases List.mem_cons.mp hx with rfl | hold
  · rfl
  · obtain ⟨hmem, hne⟩ := List.mem_filter.mp hold
    rcases h with heq | hall
    · exact absurd (hptr.trans heq.symm) (of_decide_eq_true hne)
    · exact hall x hmem hptr

theorem IsNow.touchInfo {now p : ℕ} {m : List (ℕ × Info)} {e : Event}
    (h : e.ptr = p ∨ IsNow now p m) : IsNow now p (touchInfo now m e) := by
  intro x hx hptr
  obtain ⟨y, hy, rfl⟩ := List.mem_map.mp hx
  split at hptr
  · rw [if_pos ‹_›]
    rfl
  · rename_i hne
    rw [if_neg hne]
    rcases h with heq | hall
    · exact absurd (hptr.trans heq.symm) hne
    · exact hall y hy hptr

theorem IsNow.foldl {now p : ℕ} {f : List (ℕ × Info) → Event → List (ℕ × Info)}
    (hf : ∀ m (e : Event), e.ptr = p ∨ IsNow now p m → IsNow now p (f m e)) {es : List Event}
    {m : List (ℕ × Info)} (h : (∃ e ∈ es, e.ptr = p) ∨ IsNow now p m) :
    IsNow now p (es.foldl f m) := by
  induction es generalizing m with
  | nil => exact h.resolve_left fun ⟨e, he, _⟩ ↦ absurd he List.not_mem_nil
  | cons e es ih =>
      apply ih
      rcases h with ⟨e', he', hptr⟩ | hall
      · rcases List.mem_cons.mp he' with rfl | hrest
        · exact Or.inr (hf m e' (Or.inl hptr))
        · exact Or.inl ⟨e', hrest, hptr⟩
      · exact Or.inr (hf m e (Or.inr hall))

/-- Whatever the sweep took of a socket makes its entry one of the sweep. -/
theorem isNow_sweep {beat now p : ℕ} {m : List (ℕ × Info)} {co data : List Event}
    (h : (∃ e ∈ co, e.ptr = p) ∨ ∃ e ∈ data, e.ptr = p) :
    IsNow now p (sweep beat now m co data) := by
  refine IsNow.foldl (fun m e ↦ IsNow.touchInfo) ?_
  rcases h with hco | hdata
  · exact Or.inr (IsNow.foldl (fun m e ↦ IsNow.setInfo) (Or.inl hco))
  · exact Or.inl hdata

/-! ## Where the events are -/

/-- Every event is in a list, taken or applied; an entry is no older than what was applied to it. -/
structure Beat.Tracks (s : Beat) : Prop where
  placed : ∀ e ∈ s.history, s.Waits e ∨ s.phase.Holds e ∨ ∃ now, (e, now) ∈ s.applied
  timely : ∀ e t, (e, t) ∈ s.applied → ∀ x ∈ (s.slots e.slot).info e.type, x.1 = e.ptr →
    t ≤ x.2.time
  past : ∀ e t, (e, t) ∈ s.applied → t ≤ s.clock ∧ ∀ now, s.phase.now = some now → t ≤ now
  began : ∀ now, s.phase.now = some now → now ≤ s.clock
  filed : ∀ idx type e, s.Listed idx type e → e.slot = idx ∧ e.type = type
  held : ∀ now idx co data, s.phase = .testing now idx co data → ∀ type e,
    e ∈ co type ∨ e ∈ data type → e.slot = idx ∧ e.type = type

namespace Beat

variable {s : Beat}

theorem slots_setSlot (s : Beat) (idx i : ℕ) (h : HeartInfo) :
    (s.setSlot idx h).slots i = if i = idx then h else s.slots i :=
  Function.update_apply s.slots idx h i

theorem info_enqueue (s : Beat) (e : Event) (idx : ℕ) :
    ((s.enqueue e).slots idx).info = (s.slots idx).info := by
  rw [enqueue]
  dsimp only
  rw [slots_setSlot]
  split
  · rename_i hidx
    rw [hidx]
    split <;> rfl
  · rfl

theorem listed_enqueue (s : Beat) (e e' : Event) (idx : ℕ) (type : SocketType) :
    (s.enqueue e).Listed idx type e' ↔
      s.Listed idx type e' ∨ (e' = e ∧ idx = e.slot ∧ type = e.type) := by
  rw [Listed, Listed, enqueue]
  dsimp only
  rw [slots_setSlot]
  by_cases hidx : idx = e.slot
  · subst hidx
    by_cases htype : type = e.type
    · subst htype
      by_cases hdata : e.data <;> simp [hdata, or_assoc, or_comm, or_left_comm]
    · by_cases hdata : e.data <;> simp [hdata, htype]
  · simp [hidx]

theorem Tracks.enqueue (h : s.Tracks) {e : Event} (htime : s.clock ≤ e.time) :
    (s.enqueue e).Tracks where
  placed e' he' := by
    rcases List.mem_append.mp he' with hold | hnew
    · rcases h.placed e' hold with hwaits | hheld | happlied
      · exact Or.inl ((listed_enqueue ..).mpr (Or.inl hwaits))
      · exact Or.inr (Or.inl hheld)
      · exact Or.inr (Or.inr happlied)
    · cases List.mem_singleton.mp hnew
      exact Or.inl ((listed_enqueue ..).mpr (Or.inr ⟨rfl, rfl, rfl⟩))
  timely e' t he' x hx := by
    rw [info_enqueue] at hx
    exact h.timely e' t he' x hx
  past e' t he' := ⟨(h.past e' t he').1.trans htime, (h.past e' t he').2⟩
  began now hnow := (h.began now hnow).trans htime
  filed idx type e' he' := by
    rcases (listed_enqueue ..).mp he' with hold | ⟨rfl, rfl, rfl⟩
    · exact h.filed idx type e' hold
    · exact ⟨rfl, rfl⟩
  held := h.held

theorem Tracks.begin (h : s.Tracks) {now : ℕ} (hnow : s.clock ≤ now) (hidle : s.phase = .idle)
    (svrCnt : ℕ) : Tracks { s with
      phase := if 0 < svrCnt then .taking now 0 else .idle
      clock := now } where
  placed e he := by
    rcases h.placed e he with hwaits | hheld | happlied
    · exact Or.inl hwaits
    · rw [hidle] at hheld
      exact absurd hheld not_false
    · exact Or.inr (Or.inr happlied)
  timely := h.timely
  past e t he := by
    refine ⟨(h.past e t he).1.trans hnow, fun now' hnow' ↦ ?_⟩
    dsimp only at hnow'
    split at hnow'
    · cases hnow'
      exact (h.past e t he).1.trans hnow
    · cases hnow'
  began now' hnow' := by
    dsimp only at hnow' ⊢
    split at hnow'
    · cases hnow'
      exact le_rfl
    · cases hnow'
  filed := h.filed
  held now' idx co data hphase := by
    dsimp only at hphase
    split at hphase <;> cases hphase

theorem info_take (s : Beat) (now idx i : ℕ) :
    ((s.take now idx).slots i).info = (s.slots i).info := by
  rw [take]
  dsimp only
  rw [slots_setSlot]
  split
  · rename_i hidx
    rw [hidx]
  · rfl

theorem listed_take (s : Beat) (now idx i : ℕ) (type : SocketType) (e : Event) :
    (s.take now idx).Listed i type e ↔ i ≠ idx ∧ s.Listed i type e := by
  rw [Listed, Listed, take]
  dsimp only
  rw [slots_setSlot]
  by_cases hidx : i = idx <;> simp [hidx]

/-- What waited in the slot is what the sweep has in hand. -/
theorem Tracks.take (h : s.Tracks) {now idx : ℕ} (hphase : s.phase = .taking now idx) :
    (s.take now idx).Tracks where
  placed e he := by
    rcases h.placed e he with hwaits | hheld | happlied
    · by_cases hidx : e.slot = idx
      · subst hidx
        exact Or.inr (Or.inl hwaits)
      · exact Or.inl ((listed_take ..).mpr ⟨hidx, hwaits⟩)
    · rw [hphase] at hheld
      exact absurd hheld not_false
    · exact Or.inr (Or.inr happlied)
  timely e t he x hx := by
    rw [info_take] at hx
    exact h.timely e t he x hx
  past e t he := by
    obtain ⟨hclock, hnow⟩ := h.past e t he
    rw [hphase] at hnow
    exact ⟨hclock, hnow⟩
  began now' hnow := h.began now' (by rw [hphase]; exact hnow)
  filed i type e he := h.filed i type e ((listed_take ..).mp he).2
  held now' i co data hphase' type e he := by
    cases hphase'
    exact h.filed idx type e he

theorem mem_applied_test {s : Beat} {beat svrCnt now idx : ℕ} {co data : SocketType → List Event}
    {connected : SocketType → ℕ → Bool} {e : Event} {t : ℕ} :
    (e, t) ∈ (s.test beat svrCnt now idx co data connected).applied ↔
      (e, t) ∈ s.applied ∨ (t = now ∧ ∃ type, e ∈ co type ∨ e ∈ data type) := by
  refine List.mem_append.trans (or_congr_right ?_)
  rw [List.mem_flatMap]
  constructor
  · rintro ⟨type, -, hmem⟩
    obtain ⟨e', he', heq⟩ := List.mem_map.mp hmem
    cases heq
    exact ⟨rfl, type, List.mem_append.mp he'⟩
  · rintro ⟨rfl, type, he⟩
    exact ⟨type, mem_types type, List.mem_map.mpr ⟨e, List.mem_append.mpr he, rfl⟩⟩

theorem now_test {s : Beat} {beat svrCnt now idx : ℕ} {co data : SocketType → List Event}
    {connected : SocketType → ℕ → Bool} {now' : ℕ}
    (h : (s.test beat svrCnt now idx co data connected).phase.now = some now') : now' = now := by
  rw [test] at h
  dsimp only at h
  split at h
  · cases h
    rfl
  · cases h

theorem listed_test (s : Beat) (beat svrCnt now idx i : ℕ) (co data : SocketType → List Event)
    (connected : SocketType → ℕ → Bool) (type : SocketType) (e : Event) :
    (s.test beat svrCnt now idx co data connected).Listed i type e ↔ s.Listed i type e := by
  rw [Listed, Listed, test]
  dsimp only
  rw [slots_setSlot]
  by_cases hidx : i = idx <;> simp [hidx]

theorem info_test (s : Beat) (beat svrCnt now idx i : ℕ) (co data : SocketType → List Event)
    (connected : SocketType → ℕ → Bool) (type : SocketType) :
    ((s.test beat svrCnt now idx co data connected).slots i).info type =
      if i = idx then sweep beat now ((s.slots idx).info type) (co type) (data type)
      else (s.slots i).info type := by
  rw [test]
  dsimp only
  rw [slots_setSlot]
  split <;> rfl

/-- What the sweep had in hand is applied with its clock. -/
theorem Tracks.test (h : s.Tracks) {now idx : ℕ} {co data : SocketType → List Event}
    (hphase : s.phase = .testing now idx co data) (beat svrCnt : ℕ)
    (connected : SocketType → ℕ → Bool) :
    (s.test beat svrCnt now idx co data connected).Tracks where
  placed e he := by
    rcases h.placed e he with hwaits | hheld | ⟨t, happlied⟩
    · exact Or.inl ((listed_test ..).mpr hwaits)
    · rw [hphase] at hheld
      exact Or.inr (Or.inr ⟨now, mem_applied_test.mpr (Or.inr ⟨rfl, e.type, hheld⟩)⟩)
    · exact Or.inr (Or.inr ⟨t, mem_applied_test.mpr (Or.inl happlied)⟩)
  timely e t he x hx hptr := by
    rw [info_test] at hx
    rcases mem_applied_test.mp he with hold | ⟨rfl, type, hmem⟩
    · split at hx
      · rename_i hidx
        rcases keepsTimes_sweep _ _ _ _ _ x hx with hnow | ⟨y, hy, hptr', htime⟩
        · rw [hnow]
          exact (h.past e t hold).2 now (by rw [hphase]; rfl)
        · rw [← htime]
          exact h.timely e t hold y (by rw [hidx]; exact hy) (hptr'.trans hptr)
      · exact h.timely e t hold x hx hptr
    · obtain ⟨hidx, rfl⟩ := h.held _ _ _ _ hphase type e hmem
      rw [if_pos hidx] at hx
      have hnow := isNow_sweep (hmem.imp (⟨e, ·, hptr.symm⟩) (⟨e, ·, hptr.symm⟩)) x hx rfl
      exact hnow.ge
  past e t he := by
    have hbegan := h.began now (by rw [hphase]; rfl)
    rcases mem_applied_test.mp he with hold | ⟨rfl, -⟩
    · obtain ⟨hclock, hpast⟩ := h.past e t hold
      refine ⟨hclock, fun now' hnow' ↦ ?_⟩
      rw [now_test hnow']
      exact hpast now (by rw [hphase]; rfl)
    · exact ⟨hbegan, fun now' hnow' ↦ (now_test hnow').ge⟩
  began now' hnow' := by
    rw [now_test hnow']
    exact h.began now (by rw [hphase]; rfl)
  filed i type e he := h.filed i type e ((listed_test ..).mp he)
  held now' i co' data' hphase' := by
    rw [Beat.test] at hphase'
    dsimp only at hphase'
    split at hphase' <;> cases hphase'

/-! ## What a sweep closes -/

theorem mem_closings_test {s : Beat} {beat svrCnt now idx : ℕ} {co data : SocketType → List Event}
    {connected : SocketType → ℕ → Bool} {c : Closing} :
    c ∈ (s.test beat svrCnt now idx co data connected).closings ↔
      c ∈ s.closings ∨ ∃ type, ∃ x ∈ (s.slots idx).info type,
        (Due beat now x ∧ connected type x.1 = true) ∧
          c = ⟨type, x.1, now, s.history, data type⟩ := by
  refine List.mem_append.trans (or_congr_right ?_)
  rw [List.mem_flatMap]
  constructor
  · rintro ⟨type, -, hmem⟩
    obtain ⟨x, hx, rfl⟩ := List.mem_map.mp hmem
    obtain ⟨hinfo, hdue⟩ := List.mem_filter.mp hx
    exact ⟨type, x, hinfo, of_decide_eq_true hdue, rfl⟩
  · rintro ⟨type, x, hx, hdue, rfl⟩
    exact ⟨type, mem_types type,
      List.mem_map.mpr ⟨x, List.mem_filter.mpr ⟨hx, decide_eq_true hdue⟩, rfl⟩⟩

/-- Where the entry of a socket is over time, a recent event of the socket did not reach it. -/
theorem Tracks.missed (h : s.Tracks) {beat now idx : ℕ} {type : SocketType} {x : ℕ × Info}
    (hx : x ∈ (s.slots idx).info type) (hdue : Due beat now x) {e : Event} (he : e ∈ s.history)
    (htype : e.type = type) (hptr : e.ptr = x.1) (hrecent : e.Recent beat now) :
    s.Missed idx e := by
  rcases h.placed e he with hwaits | hheld | ⟨t, happlied⟩
  · exact Or.inl hwaits
  · exact Or.inr (Or.inl hheld)
  · by_cases hidx : e.slot = idx
    · refine Or.inr (Or.inr ⟨t, happlied, Or.inr ?_⟩)
      have htimely : t ≤ x.2.time :=
        h.timely e t happlied x (by rw [hidx, htype]; exact hx) hptr.symm
      have hlate : x.2.time + beat < now := hdue
      have hnow : now ≤ e.time + beat := hrecent.2
      omega
    · exact Or.inr (Or.inr ⟨t, happlied, Or.inl hidx⟩)

/-- A sweep of a slot keeps all closings justified exactly where it hears of what it closes. -/
theorem Tracks.allJustified_test_iff (h : s.Tracks) {beat now idx : ℕ}
    {co data : SocketType → List Event} (hphase : s.phase = .testing now idx co data)
    (hjust : s.AllJustified beat) (svrCnt : ℕ) (connected : SocketType → ℕ → Bool) :
    (s.test beat svrCnt now idx co data connected).AllJustified beat ↔
      s.Hears beat (.test connected) := by
  rw [Hears]
  simp only [hphase]
  constructor
  · intro hall type x hx hdue hconnected
    obtain ⟨hquiet, htaken⟩ := hall ⟨type, x.1, now, s.history, data type⟩
      (mem_closings_test.mpr (Or.inr ⟨type, x, hx, ⟨hdue, hconnected⟩, rfl⟩))
    exact ⟨htaken, fun e he htype hptr hrecent ↦ absurd hrecent (hquiet e he htype hptr)⟩
  · intro hhears c hc
    rcases mem_closings_test.mp hc with hold | ⟨type, x, hx, ⟨hdue, hconnected⟩, rfl⟩
    · exact hjust c hold
    · obtain ⟨htaken, hheard⟩ := hhears type x hx hdue hconnected
      refine ⟨fun e he htype hptr hrecent ↦ ?_, htaken⟩
      exact hheard e he htype hptr hrecent (h.missed hx hdue he htype hptr hrecent)

/-! ## Runs -/

theorem tracks_start : start.Tracks where
  placed _ he := absurd he List.not_mem_nil
  timely _ _ he := absurd he List.not_mem_nil
  past _ _ he := absurd he List.not_mem_nil
  began _ hnow := by cases hnow
  filed _ _ _ he := he.elim (absurd · List.not_mem_nil) (absurd · List.not_mem_nil)
  held _ _ _ _ hphase := by cases hphase

theorem tracks_step {beat svrCnt : ℕ} {move : BeatMove} {s' : Beat} (h : s.Tracks)
    (henabled : (system beat svrCnt).enabled s move)
    (hstep : (system beat svrCnt).step s move = some s') : s'.Tracks := by
  cases move with
  | onConnected type ptr fd idle time =>
      cases hstep
      exact h.enqueue henabled.2
  | onReceiveData type ptr fd time =>
      cases hstep
      exact h.enqueue henabled.2
  | begin now =>
      cases hphase : s.phase <;> simp only [system, hphase, Option.some.injEq] at hstep
      · subst hstep
        exact h.begin henabled hphase svrCnt
      · exact hstep ▸ h
      · exact hstep ▸ h
  | take =>
      cases hphase : s.phase <;> simp only [system, hphase, Option.some.injEq] at hstep
      · exact hstep ▸ h
      · subst hstep
        exact h.take hphase
      · exact hstep ▸ h
  | test connected =>
      cases hphase : s.phase <;> simp only [system, hphase, Option.some.injEq] at hstep
      · exact hstep ▸ h
      · exact hstep ▸ h
      · subst hstep
        exact h.test hphase beat svrCnt connected

theorem allJustified_step_iff {beat svrCnt : ℕ} {move : BeatMove} (h : s.Tracks)
    (hjust : s.AllJustified beat) :
    (∀ s', (system beat svrCnt).step s move = some s' → s'.AllJustified beat) ↔
      s.Hears beat move := by
  cases move with
  | onConnected type ptr fd idle time =>
      refine iff_of_true (fun s' hstep ↦ ?_) trivial
      cases hstep
      exact hjust
  | onReceiveData type ptr fd time =>
      refine iff_of_true (fun s' hstep ↦ ?_) trivial
      cases hstep
      exact hjust
  | begin now =>
      refine iff_of_true (fun s' hstep ↦ ?_) trivial
      cases hphase : s.phase <;> simp only [system, hphase, Option.some.injEq] at hstep <;>
        exact hstep ▸ hjust
  | take =>
      refine iff_of_true (fun s' hstep ↦ ?_) trivial
      cases hphase : s.phase <;> simp only [system, hphase, Option.some.injEq] at hstep <;>
        exact hstep ▸ hjust
  | test connected =>
      cases hphase : s.phase with
      | testing now idx co data =>
          rw [← h.allJustified_test_iff hphase hjust svrCnt connected]
          simp only [system, hphase, Option.some.injEq, forall_eq']
      | _ => simpa only [system, hphase, Option.some.injEq, forall_eq', Hears, iff_true] using hjust

/-- In an interleaving, all closings are justified exactly where each sweep hears of what it
closes. -/
theorem allJustified_reached_iff (beat svrCnt : ℕ) {moves : List BeatMove}
    (h : (system beat svrCnt).Allowed System.anyStep start moves) :
    (∀ before, before <+: moves → ∀ s, (system beat svrCnt).run start before = some s →
      s.AllJustified beat) ↔ (system beat svrCnt).Allowed (Hears beat) start moves := by
  refine System.reached_iff_allowed (I := Tracks) ?_ ?_ tracks_start ?_ h
  · intro s move s' htracks _ henabled hstep _
    exact tracks_step htracks henabled hstep
  · intro s move htracks hjust _
    exact allJustified_step_iff htracks hjust
  · exact fun c hc ↦ absurd hc List.not_mem_nil

/-- Two sockets connect and one of them goes on to send. -/
def oneSilent : List BeatMove :=
  [.onConnected .tcp 0 5 none 0, .onConnected .tcp 1 7 none 0,
    .begin 0, .take, .test fun _ _ ↦ true,
    .onReceiveData .tcp 0 5 20, .begin 20, .take, .test fun _ _ ↦ true,
    .begin 31, .take, .test fun _ _ ↦ true]

theorem allJustified_oneSilent :
    ((∃ s, (system 30 1).run start oneSilent = some s ∧ s.closings.map (·.ptr) = [1]) ∧
      ∀ before, before <+: oneSilent → ∀ s, (system 30 1).run start before = some s →
        s.AllJustified 30) :=
  ⟨⟨_, rfl, by decide +kernel⟩,
    (allJustified_reached_iff 30 1 (by decide +kernel)).mpr (by decide +kernel)⟩

/-- The socket sends just in time for a sweep. -/
def answering : List BeatMove :=
  [.onConnected .tcp 0 5 none 0, .begin 0, .take, .test fun _ _ ↦ true,
    .onReceiveData .tcp 0 5 31, .begin 31, .take, .test fun _ _ ↦ true]

/-- The socket sends between the clock and the lists of a sweep. -/
def betweenSweeps : List BeatMove :=
  [.onConnected .tcp 0 5 none 0, .begin 0, .take, .test fun _ _ ↦ true,
    .begin 1, .onReceiveData .tcp 0 5 2, .take, .test fun _ _ ↦ true,
    .begin 3, .take, .test fun _ _ ↦ true]

/-- Both sockets are closed, the second with `_beat` at one second. -/
theorem allJustified_reached_fails :
    ((system 30 1).Allowed System.anyStep start answering ∧
        ∃ s, (system 30 1).run start answering = some s ∧ ¬ s.AllJustified 30) ∧
      (system 1 1).Allowed System.anyStep start betweenSweeps ∧
        ∃ s, (system 1 1).run start betweenSweeps = some s ∧ ¬ s.AllJustified 1 :=
  ⟨⟨by decide +kernel, _, rfl, by decide +kernel⟩, by decide +kernel, _, rfl,
    by decide +kernel⟩

end Beat

end HeartBeatMng

end Slience
