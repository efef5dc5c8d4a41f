import Slience.Coroutine.TaskPlaces

/-!
# A task gets its coroutine

`doTask` takes a wrapper out of `gfreecovec`, or makes one with a new coroutine, and switches to
its coroutine.  The variable of `doTask` is read by the coroutine right after the switch, while
the call still waits.
-/

namespace Slience

namespace Coroutine

variable {G P : Type}

namespace CoroutineTask

variable {s s' : CoroutineTask G P} {W : TaskList → List ℕ} {L : List TaskCo}
  {running : Option ℤ} {hand : List ℕ} {out : Option ℕ} {waiting : List (CoTask G P)} {e : TaskCo}
  {t : ℕ}

/-! ## `_get_co_task_wrapper` -/

theorem Inv.eq_of_data_eq (h : s.Inv W L running hand out waiting) {e e' : TaskCo} (he : e ∈ L)
    (he' : e' ∈ L) (hdata : e.data = e'.data) : e = e' := by
  obtain ⟨task, hread⟩ := h.wrapped.wrapper e he
  obtain ⟨task', hread'⟩ := h.wrapped.wrapper e' he'
  rw [hdata, hread'] at hread
  apply h.sound.slots.eq_of_id_eq he he'
  exact (congrArg CoTaskWrapper.coId (Option.some.inj hread)).symm

theorem setVar_spec (h : s.Inv W L running hand out waiting) {e : TaskCo} (he : e ∈ L)
    (var : Option ℕ) :
    ∃ wrappers, s.setVar e.data var = some { s with wrappers := wrappers } ∧
      wrappers.read e.data = some ⟨e.id, var⟩ ∧
      { s with wrappers := wrappers }.Inv W L running hand out waiting := by
  obtain ⟨old, hold⟩ := h.wrapped.wrapper e he
  obtain ⟨wrappers, hwrite, hself, hother⟩ := Heap.write_spec ⟨e.id, var⟩ hold
  refine ⟨wrappers, ?_, hself, h.sound, h.env, h.models, h.small,
    ⟨h.stored.nodup, h.stored.alive, h.stored.waiting⟩,
    ⟨?_, h.wrapped.free_nodup, h.wrapped.free_iff, h.wrapped.point, h.wrapped.entry⟩,
    ⟨h.framed.idle, h.framed.alive, h.framed.body⟩⟩
  · unfold setVar
    rw [hold]
    change (s.wrappers.write e.data ⟨e.id, var⟩).bind _ = _
    rw [hwrite]
    rfl
  · intro e' he'
    by_cases hdata : e'.data = e.data
    · obtain rfl := h.eq_of_data_eq he' he hdata
      exact ⟨var, hself⟩
    · change ∃ task, wrappers.read e'.data = _
      rw [hother _ hdata]
      exact h.wrapped.wrapper e' he'

theorem Inv.takeOut (h : s.Inv W L none hand none waiting) {w : ℕ}
    (hw : s.freeco.getLast? = some w) :
    ∃ e ∈ L, e.data = w ∧
      { s with freeco := s.freeco.dropLast }.Inv W L none hand (some w) waiting := by
  have hsplit : s.freeco = s.freeco.dropLast ++ [w] := (List.dropLast_append_getLast? w hw).symm
  obtain ⟨-, e, he, hdata, hparked⟩ := (h.wrapped.free_iff w).mp (List.mem_of_getLast? hw)
  have hnodup := h.wrapped.free_nodup
  rw [hsplit, List.nodup_append] at hnodup
  refine ⟨e, he, hdata, h.sound, h.env, h.models, h.small,
    ⟨h.stored.nodup, h.stored.alive, h.stored.waiting⟩,
    ⟨h.wrapped.wrapper, hnodup.1, ?_, ?_, h.wrapped.entry⟩,
    ⟨h.framed.idle, h.framed.alive, h.framed.body⟩⟩
  · intro v
    have hiff := h.wrapped.free_iff v
    rw [hsplit, List.mem_append, List.mem_singleton] at hiff
    constructor
    · intro hv
      refine ⟨?_, (hiff.mp (Or.inl hv)).2⟩
      rintro heq
      cases heq
      exact hnodup.2.2 w hv w (List.mem_singleton_self w) rfl
    · rintro ⟨hne, hv⟩
      rcases hiff.mpr ⟨Option.some_ne_none v |>.symm, hv⟩ with hv | rfl
      · exact hv
      · exact absurd rfl hne
  · intro e' he'
    have hpoint := h.wrapped.point e' he'
    cases hp : s.points e'.co with
    | entry =>
        rw [hp] at hpoint
        cases hpoint
    | parked v =>
        rw [hp] at hpoint
        exact hpoint
    | body v t =>
        rw [hp] at hpoint
        refine ⟨hpoint.1, ?_⟩
        intro heq
        have hdata' : e'.data = e.data := (Option.some.inj heq).symm.trans hdata.symm
        obtain rfl := h.eq_of_data_eq he' he hdata'
        rw [hparked] at hp
        cases hp

/-- A new coroutine is needed, and there is no room for its id or for its wrapper in
`gallcolist`. -/
def NoRoom (s : CoroutineTask G P) : Prop :=
  s.freeco = [] ∧ (s.sched.Full ∨ (s.lists .all).count = 2 ^ 31 - 1)

/-- What `_get_co_task_wrapper` hands out. -/
def HandsOut (s : CoroutineTask G P) (hand : List ℕ) (waiting : List (CoTask G P))
    (s' : CoroutineTask G P) (w : ℕ) : Prop :=
  ∃ W L, ∃ e ∈ L, e.data = w ∧ s'.Inv W L none hand (some w) waiting ∧ s'.tasks = s.tasks ∧
    s'.calls = s.calls

theorem newWrapper_spec (h : s.Inv W L none hand none waiting) (hfree : s.freeco = []) :
    (∃ s' w, s.newWrapper = some (s', w) ∧ s.HandsOut hand waiting s' w) ∨
    (s.newWrapper = none ∧ s.NoRoom) := by
  have hlen := h.small .all
  have hcount := h.models.count_eq .all
  rcases Schedule.create_cases h.sound.slots h.sound.ids .coTaskFunc s.wrappers.fresh with
    ⟨hco, -⟩ | ⟨sched, id, hcreate, hcreated⟩ | ⟨hnone, hfull⟩
  · exact absurd hco h.env
  · have hnew : s.newWrapper =
        ({ s with sched := sched, wrappers := s.wrappers.alloc ⟨id, none⟩ }
          : CoroutineTask G P).pushBack .all s.wrappers.fresh >>= fun s' ↦
            some (s', s.wrappers.fresh) := by
      unfold newWrapper
      change (s.sched.create .coTaskFunc s.wrappers.fresh).bind _ = _
      rw [hcreate]
      rfl
    rw [hnew]
    by_cases hall : (W .all).length + 1 = 2 ^ 31
    · right
      refine ⟨?_, hfree, Or.inr (by omega)⟩
      unfold pushBack
      dsimp only
      rw [h.models.pushBack_full .all s.wrappers.fresh hall]
      rfl
    left
    obtain ⟨l', nodes, hpush, hmodels⟩ := h.models.pushBack .all s.wrappers.fresh (by omega)
    have hsound := h.sound.created hcreated
    -- the object is new, so that the coroutine stands at the entry of its function
    have hco : ∀ e ∈ L, e.co ≠ s.sched.objs.fresh := by
      intro e he
      obtain ⟨status, hread⟩ := h.sound.slots.object e he
      exact Heap.ne_fresh_of_read hread
    have hdata : ∀ e ∈ L, e.data ≠ s.wrappers.fresh := by
      intro e he
      obtain ⟨task, hread⟩ := h.wrapped.wrapper e he
      exact Heap.ne_fresh_of_read hread
    have hentry := h.wrapped.entry s.sched.objs.fresh hco
    refine ⟨{ s with
        sched := sched, wrappers := s.wrappers.alloc ⟨id, none⟩, nodes := nodes,
        lists := Function.update s.lists .all l' }, s.wrappers.fresh, ?_,
      Function.update W .all (W .all ++ [s.wrappers.fresh]),
      L ++ [⟨id, s.sched.objs.fresh, .coTaskFunc, s.wrappers.fresh⟩],
      ⟨id, s.sched.objs.fresh, .coTaskFunc, s.wrappers.fresh⟩, by simp, rfl, ?_, rfl, rfl⟩
    · unfold pushBack
      dsimp only
      rw [hpush]
      rfl
    · have hwork : Function.update W .all (W .all ++ [s.wrappers.fresh]) .work = W .work :=
        Function.update_of_ne (by decide) ..
      refine ⟨hsound, hsound.co_ne_none (List.mem_append_right _ (List.mem_singleton_self _)),
        hmodels, ?_, ?_, ⟨?_, ?_, ?_, ?_, ?_⟩, ⟨h.framed.idle, h.framed.alive, ?_⟩⟩
      · apply length_update_lt h
        rw [List.length_append, List.length_singleton]
        omega
      · rw [hwork]
        refine h.stored.move ?_ rfl h.stored.waiting
        simp only [places, bodies_append]
        have hnone : bodies s.points
            [⟨id, s.sched.objs.fresh, .coTaskFunc, s.wrappers.fresh⟩] = [] := by
          simp [bodies, hentry, taskOf]
        rw [hnone, List.append_nil]
      · intro e he
        rw [List.mem_append, List.mem_singleton] at he
        rcases he with he | rfl
        · obtain ⟨task, hread⟩ := h.wrapped.wrapper e he
          exact ⟨task, by rw [Heap.read_alloc_of_ne _ (hdata e he), hread]⟩
        · exact ⟨none, Heap.read_alloc_fresh ..⟩
      · exact h.wrapped.free_nodup
      · intro w
        change w ∈ s.freeco ↔ _
        rw [hfree]
        constructor
        · intro hw
          cases hw
        · rintro ⟨hne, e, he, rfl, hparked⟩
          rw [List.mem_append, List.mem_singleton] at he
          rcases he with he | rfl
          · rw [← hfree]
            exact (h.wrapped.free_iff e.data).mpr ⟨by simp, e, he, rfl, hparked⟩
          · exact absurd rfl hne
      · intro e he
        rw [List.mem_append, List.mem_singleton] at he
        rcases he with he | rfl
        · have hpoint := h.wrapped.point e he
          change PointOk _ e (s.points e.co)
          cases hp : s.points e.co with
          | entry =>
              rw [hp] at hpoint
              cases hpoint
          | parked v =>
              rw [hp] at hpoint
              exact hpoint
          | body v t =>
              rw [hp] at hpoint
              exact ⟨hpoint.1, fun heq ↦ hdata e he (Option.some.inj heq).symm⟩
        · change PointOk _ _ (s.points s.sched.objs.fresh)
          rw [hentry]
          rfl
      · intro p hp
        apply h.wrapped.entry p
        intro e he
        exact hp e (List.mem_append_left _ he)
      · intro e _ hrun
        cases hrun
  · right
    refine ⟨?_, hfree, Or.inl hfull⟩
    unfold newWrapper
    change (s.sched.create .coTaskFunc s.wrappers.fresh).bind _ = _
    rw [hnone]
    rfl

theorem getCoTaskWrapper_spec (h : s.Inv W L none hand none waiting) :
    (∃ s' w, s.getCoTaskWrapper = some (s', w) ∧ s.HandsOut hand waiting s' w) ∨
    (s.getCoTaskWrapper = none ∧ s.NoRoom) := by
  unfold getCoTaskWrapper
  cases hlast : s.freeco.getLast? with
  | some w =>
      left
      obtain ⟨e, he, rfl, hinv⟩ := h.takeOut hlast
      obtain ⟨wrappers, hset, -, hinv'⟩ := setVar_spec hinv he none
      refine ⟨_, e.data, ?_, W, L, e, he, rfl, hinv', rfl, rfl⟩
      change
        (({ s with freeco := s.freeco.dropLast } : CoroutineTask G P).setVar e.data none).bind _ = _
      rw [hset]
      rfl
  | none =>
      have hfree : s.freeco = [] := List.getLast?_eq_none_iff.mp hlast
      rcases newWrapper_spec h hfree with
        ⟨t, w, hnew, W', L', e, he, rfl, hinv, hsame⟩ | ⟨hnone, hroom⟩
      · left
        obtain ⟨wrappers, hset, -, hinv'⟩ := setVar_spec hinv he none
        refine ⟨_, e.data, ?_, W', L', e, he, rfl, hinv', hsame⟩
        change s.newWrapper.bind _ = _
        rw [hnew]
        change (t.setVar e.data none).bind _ = _
        rw [hset]
        rfl
      · right
        refine ⟨?_, hroom⟩
        change s.newWrapper.bind _ = _
        rw [hnone]
        rfl

/-! ## `doTask` -/

/-- The coroutine of the wrapper that is out starts the task in the hands of `doTask`. -/
theorem Inv.enter (h : s.Inv W L none [t] (some e.data) waiting) (he : e ∈ L)
    {sched : Schedule CoFunc ℕ} (hsound : sched.Sound L (some e.id))
    {vars : Heap (Option ℕ)} {v : ℕ} (hv : ∃ x, vars.read v = some x) (calls : List (CoTask G P)) :
    { s with
      sched := sched
      vars := vars
      frame := some v
      points := Function.update s.points e.co (.body e.data t)
      calls := calls }.Inv W L (some e.id) [] none waiting := by
  have hne {e' : TaskCo} (he' : e' ∈ L) (hid : e'.data ≠ e.data) : e'.co ≠ e.co := by
    intro hco
    have hid' := h.sound.slots.id_eq_of_co_eq he' he hco
    exact hid (congrArg LiveCo.data (h.sound.slots.eq_of_id_eq he' he hid'))
  have hpoint := h.wrapped.point e he
  have hnone : taskOf (s.points e.co) = none := by
    cases hp : s.points e.co with
    | entry => rfl
    | parked w => rfl
    | body w t =>
        rw [hp] at hpoint
        exact absurd rfl hpoint.2
  refine ⟨hsound, hsound.co_ne_none he, h.models, h.small, ?_, ⟨h.wrapped.wrapper,
    h.wrapped.free_nodup, ?_, ?_, ?_⟩, ⟨?_, ?_, ?_⟩⟩
  · refine h.stored.move ?_ rfl h.stored.waiting
    obtain ⟨B, hold, hnew⟩ := bodies_update s.points h.sound.slots.nodup_co he
    rw [hnone] at hold
    have hnew' := hnew (.body e.data t)
    change (s.freetask ++ W .work ++ bodies (Function.update s.points e.co _) L ++ []).Perm
      (s.freetask ++ W .work ++ bodies s.points L ++ [t])
    rw [← Multiset.coe_eq_coe] at hold hnew' ⊢
    simp only [taskOf, Option.toList, ← Multiset.coe_add] at hold hnew' ⊢
    rw [hold, hnew']
    simp only [Multiset.coe_nil]
    abel
  · intro w
    change w ∈ s.freeco ↔ _
    rw [h.wrapped.free_iff w]
    constructor
    · rintro ⟨hout, e', he', rfl, hparked⟩
      refine ⟨by simp, e', he', rfl, ?_⟩
      have hdata : e'.data ≠ e.data := fun heq ↦ hout (congrArg some heq.symm)
      change Function.update s.points e.co _ e'.co = _
      rw [Function.update_of_ne (hne he' hdata), hparked]
    · rintro ⟨-, e', he', rfl, hparked⟩
      change Function.update s.points e.co _ e'.co = _ at hparked
      by_cases hdata : e'.data = e.data
      · obtain rfl := h.eq_of_data_eq he' he hdata
        rw [Function.update_self] at hparked
        cases hparked
      · rw [Function.update_of_ne (hne he' hdata)] at hparked
        exact ⟨fun heq ↦ hdata (Option.some.inj heq).symm, e', he', rfl, hparked⟩
  · intro e' he'
    change PointOk none e' (Function.update s.points e.co _ e'.co)
    by_cases hdata : e'.data = e.data
    · obtain rfl := h.eq_of_data_eq he' he hdata
      rw [Function.update_self]
      exact ⟨rfl, by simp⟩
    · rw [Function.update_of_ne (hne he' hdata)]
      have hpoint' := h.wrapped.point e' he'
      cases hp : s.points e'.co with
      | entry =>
          rw [hp] at hpoint'
          exact absurd (Option.some.inj hpoint').symm hdata
      | parked w =>
          rw [hp] at hpoint'
          exact hpoint'
      | body w t =>
          rw [hp] at hpoint'
          exact ⟨hpoint'.1, by simp⟩
  · intro p hp
    change Function.update s.points e.co _ p = _
    rw [Function.update_of_ne (hp e he).symm]
    exact h.wrapped.entry p hp
  · intro hrun
    cases hrun
  · intro v' hv'
    cases hv'
    exact hv
  · intro e' he' hrun
    obtain rfl := h.sound.slots.eq_of_id_eq he' he (Option.some.inj hrun).symm
    exact ⟨t, Function.update_self ..⟩

theorem proceed_eq_loop {status : CoStatus} (hpoint : PointOk (some e.data) e (s.points e.co))
    (hobj : s.sched.objs.read e.co = some ⟨e.id, status, e.function, e.data⟩) :
    s.proceed e.co = s.loop e.co e.data := by
  unfold proceed
  cases hp : s.points e.co with
  | entry =>
      dsimp only
      rw [hobj]
      rfl
  | parked w =>
      rw [hp] at hpoint
      dsimp only
      rw [show w = e.data from hpoint]
  | body w t =>
      rw [hp] at hpoint
      exact absurd rfl hpoint.2

theorem loop_eq {co w v : ℕ} {id : ℤ} {c : CoTask G P}
    (hw : s.wrappers.read w = some ⟨id, some v⟩) (hv : s.vars.read v = some (some t))
    (hc : s.tasks.read t = some c) :
    s.loop co w = some { s with
      points := Function.update s.points co (.body w t)
      calls := s.calls ++ [c] } := by
  unfold loop
  rw [hw, Option.bind_eq_bind, Option.bind_some]
  dsimp only
  rw [hv, Option.bind_eq_bind, Option.bind_some]
  dsimp only
  rw [hc]
  rfl

theorem launch_spec (h : s.Inv W L none [t] none waiting) {c : CoTask G P}
    (hc : s.tasks.read t = some c) :
    (∃ s' W' L' running, s.launch t = some s' ∧ s'.Inv W' L' running [] none waiting ∧
      s'.calls = s.calls ++ [c]) ∨
    (s.launch t = none ∧ s.NoRoom) := by
  rcases getCoTaskWrapper_spec h with
    ⟨s₁, w, hget, W', L', e, he, rfl, hinv, htasks, hcalls⟩ | ⟨hnone, hroom⟩
  rotate_left
  · right
    refine ⟨?_, hroom⟩
    unfold launch
    rw [hnone]
    rfl
  left
  have hinv₁ :
      { s₁ with vars := s₁.vars.alloc (some t) }.Inv W' L' none [t] (some e.data) waiting :=
    ⟨hinv.sound, hinv.env, hinv.models, hinv.small,
      ⟨hinv.stored.nodup, hinv.stored.alive, hinv.stored.waiting⟩,
      ⟨hinv.wrapped.wrapper, hinv.wrapped.free_nodup, hinv.wrapped.free_iff, hinv.wrapped.point,
        hinv.wrapped.entry⟩,
      ⟨hinv.framed.idle, by simp [hinv.framed.idle rfl], hinv.framed.body⟩⟩
  obtain ⟨wrappers, hset, hread, hinv₂⟩ := setVar_spec hinv₁ he (some s₁.vars.fresh)
  obtain ⟨sched, hresume, hsound, hcurco⟩ := hinv₂.sound.resume_live he
  have hvar : (s₁.vars.alloc (some t)).read s₁.vars.fresh = some (some t) :=
    Heap.read_alloc_fresh ..
  refine ⟨_, W', L', some e.id, ?_, hinv₂.enter he hsound ⟨_, hvar⟩ (s.calls ++ [c]), rfl⟩
  have hidle : s₁.sched.curco = none := hinv.sound.current.1
  unfold launch
  rw [hget]
  change (({ s₁ with vars := s₁.vars.alloc (some t) } : CoroutineTask G P).setVar e.data
    (some s₁.vars.fresh)).bind _ = _
  rw [hset, Option.bind_some]
  change (wrappers.read e.data).bind _ = _
  rw [hread, Option.bind_some]
  unfold resume
  change (s₁.sched.resume e.id).bind _ = _
  have hresume' : s₁.sched.resume e.id = some sched := hresume
  rw [hresume', Option.bind_some]
  dsimp only
  rw [hidle, hcurco]
  obtain ⟨status, hobj⟩ := hsound.slots.object e he
  have hc₁ : s₁.tasks.read t = some c := by rw [htasks, hc]
  refine Eq.trans (proceed_eq_loop ?_ hobj) (Eq.trans (loop_eq hread hvar hc₁) ?_)
  · exact hinv.wrapped.point e he
  · rw [hcalls]

end CoroutineTask

end Coroutine

end Slience
