import Slience.Coroutine.Ids

/-!
# The coroutine that an id runs

At most one coroutine runs: it is in `_curco`, its id is in the frame of `resume`, and all
others are ready or suspended.  With the tables of `Slots` and `Ids` this is the invariant
`Sound` that every call keeps.  The only call that may find no room is `create`, when `_cap`
cannot be doubled any more.
-/

namespace Slience

namespace Coroutine

open Thread

variable {F D : Type}

namespace Schedule

/-- A coroutine that `resume` switches to. -/
def Waiting (s : Schedule F D) (e : LiveCo F D) : Prop :=
  ∃ c, s.objs.read e.co = some c ∧ (c.status = .ready ∨ c.status = .suspend)

def Current (s : Schedule F D) (L : List (LiveCo F D)) : Option ℤ → Prop
  | none => s.curco = none ∧ s.frame = none ∧ ∀ e ∈ L, s.Waiting e
  | some id => ∃ e ∈ L, e.id = id ∧ s.curco = some e.co ∧ s.frame = some (e.co, id) ∧
      ∀ e' ∈ L, e'.id ≠ id → s.Waiting e'

structure Sound (s : Schedule F D) (L : List (LiveCo F D)) (running : Option ℤ) : Prop where
  slots : Slots s L
  ids : Ids s L
  current : s.Current L running

variable {s s' : Schedule F D} {L : List (LiveCo F D)} {running : Option ℤ}

theorem Waiting.congr {e : LiveCo F D} (h : s.Waiting e)
    (hobjs : s'.objs.read e.co = s.objs.read e.co) : s'.Waiting e := by
  obtain ⟨c, hread, hstatus⟩ := h
  exact ⟨c, by rw [hobjs, hread], hstatus⟩

namespace Sound

theorem initial : (Schedule.initial : Schedule F D).Sound [] none := by
  refine ⟨⟨List.nodup_nil, ?_, ?_⟩,
    ⟨rfl, ?_, by norm_num [Schedule.initial], le_rfl, le_rfl, List.nodup_nil, ?_, ?_⟩,
    rfl, rfl, ?_⟩
  · intro id p
    simp [slot, Schedule.initial]
  · simp
  · rintro hco
    exact absurd rfl hco
  · simp [Schedule.initial]
  · intro id
    simp only [Schedule.initial, Thread.ids, List.map_nil, List.not_mem_nil, or_false, false_iff]
    omega
  · simp

theorem nil_of_co_none (h : s.Sound L running) (hco : s.co = none) :
    s.cap = 0 ∧ s.nco = 0 ∧ s.freeid = [] ∧ L = [] := by
  have hcap : s.cap = 0 := by
    rw [h.ids.cap_eq, size, hco]
    rfl
  have hnco : s.nco = 0 := by
    have := h.ids.nco_nonneg
    have := h.ids.nco_le
    omega
  have hnone (id : ℤ) : ¬ (id ∈ s.freeid ∨ id ∈ Thread.ids L) := by
    rw [h.ids.partition id]
    omega
  refine ⟨hcap, hnco, ?_, ?_⟩
  · rw [List.eq_nil_iff_forall_not_mem]
    intro id hid
    exact hnone id (Or.inl hid)
  · rw [List.eq_nil_iff_forall_not_mem]
    intro e he
    exact hnone e.id (Or.inr (mem_ids.mpr ⟨e, he, rfl⟩))

theorem initEnv (h : s.Sound L running) : s.initEnv.1.Sound L running := by
  cases hco : s.co with
  | some t =>
      have hsame : s.initEnv = (s, false) := by
        unfold Schedule.initEnv
        rw [hco]
      rw [hsame]
      exact h
  | none =>
      obtain ⟨-, hnco, hfree, rfl⟩ := h.nil_of_co_none hco
      have hinit : s.initEnv.1 = { s with
          curco := none
          cap := defaultCoroutine
          co := some (List.replicate defaultCoroutine none) } := by
        unfold Schedule.initEnv
        rw [hco]
      rw [hinit]
      refine ⟨⟨List.nodup_nil, ?_, by simp⟩, ⟨?_, ?_, by norm_num [defaultCoroutine], ?_, ?_,
        h.ids.free_nodup, h.ids.disjoint, h.ids.partition⟩, ?_⟩
      · intro id p
        unfold slot
        simp [List.getElem?_replicate]
      · simp [size]
      · intro _
        norm_num [defaultCoroutine]
      · exact h.ids.nco_nonneg
      · simp [hnco]
      · cases running with
        | none => exact ⟨rfl, h.current.2.1, by simp⟩
        | some id =>
            obtain ⟨e, he, -⟩ := h.current
            cases he

theorem created {f : F} {d : D} {id : ℤ} (h : s.Sound L running) (hc : Created s s' L f d id) :
    s'.Sound (L ++ [⟨id, s.objs.fresh, f, d⟩]) running := by
  refine ⟨hc.slots, hc.ids, ?_⟩
  have hnew : s'.Waiting ⟨id, s.objs.fresh, f, d⟩ := by
    refine ⟨⟨id, .ready, f, d⟩, ?_, Or.inl rfl⟩
    rw [hc.objs_eq]
    exact Heap.read_alloc_fresh ..
  have hold : ∀ e ∈ L, s.Waiting e → s'.Waiting e := by
    intro e he hwait
    apply hwait.congr
    obtain ⟨status, hread⟩ := h.slots.object e he
    rw [hc.objs_eq, Heap.read_alloc_of_ne _ (Heap.ne_fresh_of_read hread)]
  cases running with
  | none =>
      obtain ⟨hcurco, hframe, hwait⟩ := h.current
      refine ⟨by rw [hc.curco_eq, hcurco], by rw [hc.frame_eq, hframe], ?_⟩
      intro e he
      rw [List.mem_append, List.mem_singleton] at he
      rcases he with he | rfl
      · exact hold e he (hwait e he)
      · exact hnew
  | some run =>
      obtain ⟨e, he, hid, hcurco, hframe, hwait⟩ := h.current
      refine ⟨e, List.mem_append_left _ he, hid, by rw [hc.curco_eq, hcurco],
        by rw [hc.frame_eq, hframe], ?_⟩
      intro e' he' hne
      rw [List.mem_append, List.mem_singleton] at he'
      rcases he' with he' | rfl
      · exact hold e' he' (hwait e' he' hne)
      · exact hnew

/-! ## `resume` and the switch back -/

theorem resume_live (h : s.Sound L none) {e : LiveCo F D} (he : e ∈ L) :
    ∃ s', s.resume e.id = some s' ∧ s'.Sound L (some e.id) ∧ s'.curco = some e.co := by
  obtain ⟨hcurco, hframe, hwait⟩ := h.current
  obtain ⟨c, hread, hstatus⟩ := hwait e he
  obtain ⟨t, ht, hslots, hsame, hself, hother⟩ := h.slots.setStatus he .running
  have hrange := h.slots.inRange he
  have hcap := h.ids.cap_eq
  refine ⟨{ t with curco := some e.co, frame := some (e.co, e.id) }, ?_, ⟨?_, ?_, ?_⟩, rfl⟩
  · unfold Schedule.resume
    rw [hcurco]
    change (if e.id < 0 ∨ s.cap ≤ e.id then _ else _) = _
    rw [if_neg (by omega), h.slots.slot_of_mem he]
    change (s.objs.read e.co).bind _ = _
    rw [hread, Option.bind_some]
    rcases hstatus with hstatus | hstatus
    all_goals
      rw [hstatus]
      change (s.setStatus e.co .running).bind _ = _
      rw [ht]
      rfl
  · exact hslots.congr (fun _ _ ↦ Iff.rfl) fun _ _ ↦ rfl
  · apply h.ids.congr
    all_goals
      rw [hsame]
  · refine ⟨e, he, rfl, rfl, rfl, ?_⟩
    intro e' he' hne
    apply (hwait e' he').congr
    apply hother
    exact fun hco ↦ hne (h.slots.id_eq_of_co_eq he' he hco)

/-- `resume` does nothing when a coroutine runs, and for an id that is not live. -/
theorem resume_idle (h : s.Sound L running) {id : ℤ} (hid : running ≠ none ∨ id ∉ Thread.ids L) :
    s.resume id = some s := by
  unfold Schedule.resume
  cases running with
  | some run =>
      obtain ⟨e, -, -, hcurco, -⟩ := h.current
      rw [hcurco]
  | none =>
      have hlive : id ∉ Thread.ids L := hid.resolve_left (fun hne ↦ hne rfl)
      rw [h.current.1]
      change (if id < 0 ∨ s.cap ≤ id then _ else _) = _
      split
      · rfl
      · have hcap := h.ids.cap_eq
        have hrange : (s.slot id).isSome := slot_isSome_iff.mpr (by omega)
        obtain ⟨x, hx⟩ := Option.isSome_iff_exists.mp hrange
        rw [hx, h.slots.slot_eq_none hx hlive]
        rfl

theorem resumed_eq {t : Schedule F D} {p : ℕ} {co : ℤ} {c : Co F D}
    (hframe : t.frame = some (p, co)) (hread : t.objs.read p = some c) :
    t.resumed = (if c.status = .dead then t.release p co else some t).map
      ({ · with curco := none, frame := none }) := by
  rw [resumed, hframe]
  change (t.objs.read p).bind _ = _
  rw [hread, Option.bind_some]
  by_cases hdead : c.status = .dead
  · rw [if_pos hdead, if_pos hdead]
    cases t.release p co <;> rfl
  · rw [if_neg hdead, if_neg hdead]
    rfl

theorem yield_running {id : ℤ} (h : s.Sound L (some id)) :
    ∃ s', s.yield = some s' ∧ s'.Sound L none := by
  obtain ⟨e, he, rfl, hcurco, hframe, hwait⟩ := h.current
  obtain ⟨t, ht, hslots, hsame, hself, hother⟩ := h.slots.setStatus he .suspend
  refine ⟨{ t with curco := none, frame := none }, ?_, ⟨?_, ?_, rfl, rfl, ?_⟩⟩
  · unfold Schedule.yield
    rw [hcurco]
    change (s.setStatus e.co .suspend).bind _ = _
    rw [ht, Option.bind_some, resumed_eq (by rw [hsame, ← hframe]) hself]
    rfl
  · exact hslots.congr (fun _ _ ↦ Iff.rfl) fun _ _ ↦ rfl
  · apply h.ids.congr
    all_goals
      rw [hsame]
  · intro e' he'
    by_cases hid : e'.id = e.id
    · obtain rfl := h.slots.eq_of_id_eq he' he hid
      exact ⟨_, hself, Or.inr rfl⟩
    · apply (hwait e' he' hid).congr
      apply hother
      exact fun hco ↦ hid (h.slots.id_eq_of_co_eq he' he hco)

theorem finish_running {id : ℤ} (h : s.Sound L (some id)) :
    ∃ s', s.finish = some s' ∧ s'.Sound (without L id) none := by
  obtain ⟨e, he, rfl, hcurco, hframe, hwait⟩ := h.current
  obtain ⟨t, ht, htslots, hsame, hself, hother⟩ := h.slots.setStatus he .dead
  have htids : Ids t L := by
    apply h.ids.congr
    all_goals
      rw [hsame]
  obtain ⟨u, hu, huslots, hurest, huother⟩ := htslots.release he
  refine ⟨{ u with curco := none, frame := none }, ?_, ⟨?_, ?_, rfl, rfl, ?_⟩⟩
  · unfold Schedule.finish
    rw [hcurco]
    change (s.setStatus e.co .dead).bind _ = _
    rw [ht, Option.bind_some, resumed_eq (by rw [hsame, ← hframe]) hself, if_pos rfl, hu]
    rfl
  · exact huslots.congr (fun _ _ ↦ Iff.rfl) fun _ _ ↦ rfl
  · exact (htids.release he hurest).congr rfl rfl rfl rfl
  · intro e' he'
    obtain ⟨heL, hid⟩ := mem_without.mp he'
    have hco : e'.co ≠ e.co := fun hco ↦ hid (h.slots.id_eq_of_co_eq heL he hco)
    apply (hwait e' heL hid).congr
    change u.objs.read e'.co = _
    rw [huother _ hco, hother _ hco]

theorem running_eq_none_iff (h : s.Sound L running) : running = none ↔ s.curco = none := by
  cases running with
  | none => simp [h.current.1]
  | some id =>
      obtain ⟨e, -, -, hcurco, -⟩ := h.current
      simp [hcurco]

/-! ## `destroy` and `close` -/

theorem isCurrent_eq (h : s.Sound L running) (id : ℤ) :
    s.isCurrent id = some (decide (running = some id)) := by
  unfold isCurrent
  cases running with
  | none =>
      rw [h.current.1]
      rfl
  | some run =>
      obtain ⟨e, he, rfl, hcurco, -⟩ := h.current
      obtain ⟨status, hread⟩ := h.slots.object e he
      rw [hcurco]
      change (s.objs.read e.co).map _ = _
      rw [hread]
      simp

theorem destroy_running {id : ℤ} (h : s.Sound L (some id)) : s.destroy id = some s := by
  unfold Schedule.destroy
  rw [h.isCurrent_eq]
  simp

theorem destroy_other {id : ℤ} (h : s.Sound L running) (hne : running ≠ some id) :
    ∃ s', s.destroy id = some s' ∧ s'.Sound (without L id) running := by
  have hcap := h.ids.cap_eq
  unfold Schedule.destroy
  rw [h.isCurrent_eq, Option.bind_eq_bind, Option.bind_some, if_neg (by simpa using hne)]
  by_cases hlive : id ∈ Thread.ids L
  · obtain ⟨e, he, rfl⟩ := mem_ids.mp hlive
    obtain ⟨u, hu, huslots, hurest, huother⟩ := h.slots.release he
    have hrange := h.slots.inRange he
    refine ⟨u, ?_, huslots, h.ids.release he hurest, ?_⟩
    · rw [if_pos (by omega), h.slots.slot_of_mem he]
      exact hu
    · have hwaiting : ∀ e' ∈ without L e.id, s.Waiting e' → u.Waiting e' := by
        intro e' he' hwait
        obtain ⟨heL, hid⟩ := mem_without.mp he'
        apply hwait.congr
        exact huother _ fun hco ↦ hid (h.slots.id_eq_of_co_eq heL he hco)
      have hcurco : u.curco = s.curco := by rw [hurest]; rfl
      have hframe : u.frame = s.frame := by rw [hurest]; rfl
      cases running with
      | none =>
          refine ⟨by rw [hcurco, h.current.1], by rw [hframe, h.current.2.1], ?_⟩
          intro e' he'
          exact hwaiting e' he' (h.current.2.2 e' (mem_without.mp he').1)
      | some run =>
          obtain ⟨r, hr, rfl, hr1, hr2, hwait⟩ := h.current
          have hrun : r.id ≠ e.id := fun heq ↦ hne (congrArg some heq)
          refine ⟨r, mem_without.mpr ⟨hr, hrun⟩, rfl, by rw [hcurco, hr1], by rw [hframe, hr2], ?_⟩
          intro e' he' hid
          exact hwaiting e' he' (hwait e' (mem_without.mp he').1 hid)
  · rw [without_of_notMem hlive]
    refine ⟨s, ?_, h⟩
    split
    · have hrange : (s.slot id).isSome := slot_isSome_iff.mpr (by omega)
      obtain ⟨x, hx⟩ := Option.isSome_iff_exists.mp hrange
      rw [hx, h.slots.slot_eq_none hx hlive]
      rfl
    · rfl

theorem freeSlots_isSome {t : List (Option ℕ)} {objs : Heap (Co F D)}
    (halive : ∀ (i p : ℕ), t[i]? = some (some p) → ∃ c, objs.read p = some c)
    (hinj : ∀ i j p : ℕ, t[i]? = some (some p) → t[j]? = some (some p) → i = j) (n : ℕ)
    (hn : n ≤ t.length) :
    ∃ objs', freeSlots t n objs = some objs' ∧
      ∀ i p : ℕ, n ≤ i → t[i]? = some (some p) → objs'.read p = objs.read p := by
  induction n with
  | zero => exact ⟨objs, rfl, fun _ _ _ _ ↦ rfl⟩
  | succ n ih =>
      obtain ⟨objs', hfreed, hrest⟩ := ih (by omega)
      have hget : t[n]? = some t[n] := List.getElem?_eq_getElem (by omega)
      rw [freeSlots, hfreed, Option.bind_eq_bind, Option.bind_some]
      cases hp : t[n] with
      | none =>
          rw [hp] at hget
          rw [hget]
          exact ⟨objs', rfl, fun i p hi ↦ hrest i p (by omega)⟩
      | some p =>
          rw [hp] at hget
          rw [hget]
          obtain ⟨c, hc⟩ := halive n p hget
          rw [← hrest n p le_rfl hget] at hc
          obtain ⟨objs'', hfree, -, hother⟩ := Heap.free_spec hc
          refine ⟨objs'', hfree, ?_⟩
          intro i q hi hq
          have hne : q ≠ p := by
            rintro rfl
            have := hinj i n q hq hget
            omega
          rw [hother q hne, hrest i q (by omega) hq]

theorem close_idle (h : s.Sound L none) : ∃ s', s.close = some s' ∧ s'.Sound [] none := by
  have hslot (i : ℕ) (p : ℕ) (hp : (s.co.getD [])[i]? = some (some p)) :
      ∃ e ∈ L, e.id = i ∧ e.co = p := by
    apply (h.slots.slot_iff i p).mp
    rw [slot, if_pos (by omega), Int.toNat_natCast, hp]
  have hlen : s.cap.toNat ≤ (s.co.getD []).length := by
    rw [h.ids.cap_eq]
    exact le_of_eq (Int.toNat_natCast _)
  have halive (i p : ℕ) (hp : (s.co.getD [])[i]? = some (some p)) :
      ∃ c, s.objs.read p = some c := by
    obtain ⟨e, he, -, rfl⟩ := hslot i p hp
    obtain ⟨status, hread⟩ := h.slots.object e he
    exact ⟨_, hread⟩
  have hinj (i j p : ℕ) (hi : (s.co.getD [])[i]? = some (some p))
      (hj : (s.co.getD [])[j]? = some (some p)) : i = j := by
    obtain ⟨e, he, hei, hep⟩ := hslot i p hi
    obtain ⟨e', he', hej, hep'⟩ := hslot j p hj
    have hid := h.slots.id_eq_of_co_eq he he' (hep.trans hep'.symm)
    omega
  obtain ⟨objs, hobjs, -⟩ := freeSlots_isSome halive hinj s.cap.toNat hlen
  refine ⟨{ s with freeid := [], nco := 0, cap := 0, curco := none, co := none, objs := objs },
    ?_, ?_⟩
  · unfold Schedule.close
    rw [h.current.1]
    change (freeSlots (s.co.getD []) s.cap.toNat s.objs).bind _ = _
    rw [hobjs]
    rfl
  · have hinit : (Schedule.initial : Schedule F D).Sound [] none := Sound.initial
    refine ⟨?_, hinit.ids.congr rfl rfl rfl rfl, rfl, h.current.2.1, by simp⟩
    exact hinit.slots.congr (fun _ _ ↦ Iff.rfl) (by simp)

end Sound

end Schedule

/-! ## Runs -/

namespace Thread

variable {s s' : Thread F D}

/-- What holds between any two calls. -/
def Sound (s : Thread F D) : Prop := s.sched.Sound s.live s.running

theorem Sound.create_step (h : s.Sound) (f : F) (d : D) :
    (∃ s', s.step (.create f d) = some s' ∧ s'.Sound) ∨
      (s.step (.create f d) = none ∧ s.sched.Full) := by
  rcases Schedule.create_cases h.slots h.ids f d with ⟨-, hc⟩ | ⟨t, id, hc, hcreated⟩ | ⟨hc, hfull⟩
  · left
    refine ⟨s.created f d s.sched (-1), ?_, ?_⟩
    · rw [step, hc]
      rfl
    · rw [created, if_pos (by decide)]
      exact h
  · left
    refine ⟨s.created f d t id, ?_, ?_⟩
    · rw [step, hc]
      rfl
    · rw [created, if_neg (not_lt.mpr hcreated.nonneg)]
      exact Schedule.Sound.created h hcreated
  · right
    refine ⟨?_, hfull⟩
    rw [step, hc]
    rfl

theorem Sound.resume_step (h : s.Sound) (id : ℤ) :
    ∃ s', s.step (.resume id) = some s' ∧ s'.Sound := by
  unfold Sound at h
  cases hrunning : s.running with
  | some run =>
      refine ⟨s, ?_, h⟩
      have hidle : s.sched.resume id = some s.sched := by
        apply h.resume_idle
        left
        rw [hrunning]
        exact Option.some_ne_none run
      rw [step, hidle]
      simp [resumedId, hrunning]
      rw [← hrunning]
  | none =>
      rw [hrunning] at h
      by_cases hlive : id ∈ ids s.live
      · obtain ⟨e, he, rfl⟩ := mem_ids.mp hlive
        obtain ⟨t, ht, hsound, -⟩ := h.resume_live he
        refine ⟨{ s with sched := t, running := some e.id }, ?_, hsound⟩
        rw [step, ht]
        simp [resumedId, hrunning, hlive]
      · refine ⟨s, ?_, by rw [Sound, hrunning]; exact h⟩
        rw [step, h.resume_idle (Or.inr hlive)]
        simp [resumedId, hrunning, hlive]
        rw [← hrunning]

theorem Sound.yield_step (h : s.Sound) : ∃ s', s.step .yield = some s' ∧ s'.Sound := by
  unfold Sound at h
  cases hrunning : s.running with
  | none =>
      rw [hrunning] at h
      refine ⟨{ s with running := none }, ?_, h⟩
      have hyield : s.sched.yield = some s.sched := by
        unfold Schedule.yield
        rw [h.current.1]
      rw [step, hyield]
      rfl
  | some id =>
      rw [hrunning] at h
      obtain ⟨t, ht, hsound⟩ := h.yield_running
      refine ⟨{ s with sched := t, running := none }, ?_, hsound⟩
      rw [step, ht]
      rfl

theorem Sound.finish_step (h : s.Sound) (hcan : s.CanCall .finish) :
    ∃ s', s.step .finish = some s' ∧ s'.Sound := by
  unfold Sound at h
  cases hrunning : s.running with
  | none =>
      rw [hrunning] at h
      exact absurd h.current.1 hcan
  | some id =>
      rw [hrunning] at h
      obtain ⟨t, ht, hsound⟩ := h.finish_running
      refine ⟨{ s with sched := t, live := without s.live id, running := none }, ?_, hsound⟩
      rw [step, ht, finished, hrunning]
      rfl

theorem Sound.destroy_step (h : s.Sound) (id : ℤ) :
    ∃ s', s.step (.destroy id) = some s' ∧ s'.Sound := by
  unfold Sound at h
  by_cases hrunning : s.running = some id
  · refine ⟨s, ?_, h⟩
    rw [hrunning] at h
    rw [step, h.destroy_running]
    simp [hrunning]
    rw [← hrunning]
  · obtain ⟨t, ht, hsound⟩ := h.destroy_other hrunning
    refine ⟨{ s with sched := t, live := without s.live id }, ?_, hsound⟩
    rw [step, ht]
    simp [hrunning]

theorem Sound.close_step (h : s.Sound) (hcan : s.CanCall .close) :
    ∃ s', s.step .close = some s' ∧ s'.Sound := by
  unfold Sound at h
  cases hrunning : s.running with
  | none =>
      rw [hrunning] at h
      obtain ⟨t, ht, hsound⟩ := h.close_idle
      refine ⟨{ s with sched := t, live := [] }, ?_, ?_⟩
      · rw [step, ht]
        rfl
      · rw [Sound, hrunning]
        exact hsound
  | some id =>
      rw [hrunning] at h
      obtain ⟨e, -, -, hcurco, -⟩ := h.current
      have hnone : s.sched.curco = none := hcan
      rw [hnone] at hcurco
      cases hcurco

/-- Every call has a result and leaves the tables sound, unless it is a `create` that would have
to double a table of `2 ^ 30` pointers that are all in use. -/
theorem Sound.step_cases (h : s.Sound) {c : CoCall F D} (hcan : s.CanCall c) :
    (∃ s', s.step c = some s' ∧ s'.Sound) ∨
      (s.step c = none ∧ (∃ f d, c = .create f d) ∧ s.sched.Full) := by
  cases c with
  | create f d =>
      rcases h.create_step f d with hs' | ⟨hnone, hfull⟩
      · exact Or.inl hs'
      · exact Or.inr ⟨hnone, ⟨f, d, rfl⟩, hfull⟩
  | initEnv => exact Or.inl ⟨_, rfl, Schedule.Sound.initEnv h⟩
  | resume id => exact Or.inl (h.resume_step id)
  | yield => exact Or.inl h.yield_step
  | finish => exact Or.inl (h.finish_step hcan)
  | destroy id => exact Or.inl (h.destroy_step id)
  | close => exact Or.inl (h.close_step hcan)

theorem sound_of_run {calls : List (CoCall F D)}
    (hcalls : (system F D).Allowed System.anyStep initial calls)
    (hrun : (system F D).run initial calls = some s) : s.Sound := by
  have hinit : (initial : Thread F D).Sound := Schedule.Sound.initial
  refine System.invariant_of_run (I := Sound) ?_ hinit hcalls hrun
  intro s c s' hs hcan _ hstep
  have hstep' : s.step c = some s' := hstep
  rcases hs.step_cases hcan with ⟨t, ht, hsound⟩ | ⟨hnone, -⟩
  · rw [ht] at hstep'
    cases hstep'
    exact hsound
  · rw [hnone] at hstep'
    cases hstep'

/-- In every state that is reached, whoever made the calls: the live ids are distinct, `_co`
holds the live coroutines under their ids, the free ids and the live ids are the numbers below
`_nco`, and `resume` runs the coroutine of the id, or nothing. -/
theorem ids_of_run {calls : List (CoCall F D)}
    (hcalls : (system F D).Allowed System.anyStep initial calls)
    (hrun : (system F D).run initial calls = some s) :
    Slots s.sched s.live ∧ Ids s.sched s.live ∧
      (∀ e ∈ s.live, s.sched.curco = none →
        ∃ t, s.sched.resume e.id = some t ∧ t.curco = some e.co) ∧
      (∀ id, id ∉ ids s.live ∨ s.sched.curco ≠ none → s.sched.resume id = some s.sched) ∧
      ∀ c, s.CanCall c → s.step c = none → (∃ f d, c = .create f d) ∧ s.sched.Full := by
  have h := sound_of_run hcalls hrun
  have hidle := Schedule.Sound.running_eq_none_iff h
  refine ⟨h.slots, h.ids, ?_, ?_, ?_⟩
  · intro e he hcurco
    have hnone : s.sched.Sound s.live none := by
      rw [← hidle.mpr hcurco]
      exact h
    obtain ⟨t, ht, -, hrun⟩ := hnone.resume_live he
    exact ⟨t, ht, hrun⟩
  · rintro id (hid | hcurco)
    · exact Schedule.Sound.resume_idle h (Or.inr hid)
    · exact Schedule.Sound.resume_idle h (Or.inl fun hnone ↦ hcurco (hidle.mp hnone))
  · intro c hcan hnone
    rcases h.step_cases hcan with ⟨t, ht, -⟩ | ⟨-, hfull⟩
    · rw [hnone] at ht
      cases ht
    · exact hfull

/-- A coroutine creates and destroys others while it runs, an id is handed out again, and
another coroutine finishes. -/
def sampleCalls : List (CoCall ℕ ℕ) :=
  [.initEnv, .create 7 0, .create 8 1, .resume 1, .create 9 2, .destroy 0, .resume 2, .yield,
    .create 5 3, .resume 1, .finish, .resume 0, .yield, .create 6 4]

theorem ids_of_run_sampleCalls :
    ∃ s, (system ℕ ℕ).run initial sampleCalls = some s ∧ Slots s.sched s.live ∧
      ids s.live = [2, 0, 1] := by
  have hsome : ((system ℕ ℕ).run initial sampleCalls).isSome := by decide +kernel
  obtain ⟨s, hs⟩ := Option.isSome_iff_exists.mp hsome
  have hids : ((system ℕ ℕ).run initial sampleCalls).map (fun s ↦ ids s.live) = some [2, 0, 1] := by
    decide +kernel
  refine ⟨s, hs, (ids_of_run (by decide +kernel) hs).1, ?_⟩
  rw [hs] at hids
  exact Option.some.inj hids

end Thread

end Coroutine

end Slience
