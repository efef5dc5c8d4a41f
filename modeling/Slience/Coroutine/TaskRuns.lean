import Slience.Coroutine.TaskLaunch

/-!
# Every task is run once

While a body runs only the copies of `task` and `wrapper` on the stack of the coroutine are
used.  So the calls of task functions are those of the tasks that were taken, in this order, and
the queue is served from the front.
-/

namespace Slience

namespace Coroutine

variable {G P : Type}

namespace CoroutineTask

variable {s s' : CoroutineTask G P} {W : TaskList → List ℕ} {L : List TaskCo}
  {running : Option ℤ} {waiting : List (CoTask G P)} {e : TaskCo} {t : ℕ}

/-! ## The steps of a body -/

theorem returned_spec {u : CoroutineTask G P}
    (halive : ∀ v, u.frame = some v → ∃ x, u.vars.read v = some x) :
    ∃ vars, u.returned = some { u with vars := vars, frame := none } := by
  rcases u with ⟨sched, points, tasks, wrappers, freetask, freeco, nodes, lists, vars, frame, calls⟩
  cases frame with
  | none => exact ⟨vars, rfl⟩
  | some v =>
      obtain ⟨x, hx⟩ := halive v rfl
      obtain ⟨vars', hfree, -⟩ := Heap.free_spec hx
      refine ⟨vars', ?_⟩
      unfold returned
      dsimp only
      rw [hfree]
      rfl

theorem yieldAt_spec {u : CoroutineTask G P} {id : ℤ} (hsound : u.sched.Sound L (some id))
    (halive : ∀ v, u.frame = some v → ∃ x, u.vars.read v = some x) (co : ℕ) (point : CoPoint) :
    ∃ sched vars, sched.Sound L none ∧
      u.yieldAt co point = some { u with
        sched := sched, points := Function.update u.points co point, vars := vars,
        frame := none } := by
  obtain ⟨sched, hyield, hsound'⟩ := hsound.yield_running
  obtain ⟨vars, hvars⟩ := returned_spec
    (u := { u with sched := sched, points := Function.update u.points co point }) halive
  refine ⟨sched, vars, hsound', ?_⟩
  unfold yieldAt
  rw [hyield]
  exact hvars

theorem bodyYield_spec (h : s.Inv W L (some e.id) [] none waiting) (he : e ∈ L) :
    ∃ s', s.bodyYield = some s' ∧ s'.Inv W L none [] none waiting ∧ s'.calls = s.calls := by
  obtain ⟨e', he', hid, hcurco, -⟩ := h.sound.current
  obtain rfl := h.sound.slots.eq_of_id_eq he' he hid
  obtain ⟨sched, vars, hsound, hyield⟩ :=
    yieldAt_spec h.sound h.framed.alive e'.co (s.points e'.co)
  rw [Function.update_eq_self] at hyield
  refine ⟨{ s with sched := sched, vars := vars, frame := none }, ?_, ?_, rfl⟩
  · unfold bodyYield
    rw [hcurco]
    exact hyield
  · exact ⟨hsound, hsound.co_ne_none he, h.models, h.small,
      ⟨h.stored.nodup, h.stored.alive, h.stored.waiting⟩,
      ⟨h.wrapped.wrapper, h.wrapped.free_nodup, h.wrapped.free_iff, h.wrapped.point,
        h.wrapped.entry⟩, ⟨fun _ ↦ rfl, by simp, by simp⟩⟩

theorem bodyReturn_spec (h : s.Inv W L (some e.id) [] none waiting) (he : e ∈ L) :
    ∃ s', s.bodyReturn = some s' ∧ s'.Inv W L none [] none waiting ∧ s'.calls = s.calls := by
  obtain ⟨e', he', hid, hcurco, -⟩ := h.sound.current
  obtain rfl := h.sound.slots.eq_of_id_eq he' he hid
  obtain ⟨t, hbody⟩ := h.framed.body e' he rfl
  have hne {e : TaskCo} (he : e ∈ L) (hid : e ≠ e') : e.co ≠ e'.co := by
    intro hco
    exact hid (h.sound.slots.eq_of_id_eq he he' (h.sound.slots.id_eq_of_co_eq he he' hco))
  obtain ⟨sched, vars, hsound, hyield⟩ := yieldAt_spec
    (u := { s with freetask := s.freetask ++ [t], freeco := s.freeco ++ [e'.data] })
    h.sound h.framed.alive e'.co (.parked e'.data)
  refine ⟨{ s with
      freetask := s.freetask ++ [t]
      freeco := s.freeco ++ [e'.data]
      sched := sched
      points := Function.update s.points e'.co (.parked e'.data)
      vars := vars
      frame := none }, ?_, ?_, rfl⟩
  · unfold bodyReturn
    rw [hcurco, Option.bind_eq_bind, Option.bind_some, hbody]
    exact hyield
  · refine ⟨hsound, hsound.co_ne_none he, h.models, h.small, ?_,
      ⟨h.wrapped.wrapper, ?_, ?_, ?_, ?_⟩, ⟨fun _ ↦ rfl, by simp, by simp⟩⟩
    · refine h.stored.move ?_ rfl h.stored.waiting
      obtain ⟨B, hold, hnew⟩ := bodies_update s.points h.sound.slots.nodup_co he
      have hnew' := hnew (.parked e'.data)
      change
        ((s.freetask ++ [t]) ++ W .work ++ bodies (Function.update s.points e'.co _) L ++ []).Perm
        (s.freetask ++ W .work ++ bodies s.points L ++ [])
      rw [hbody] at hold
      rw [← Multiset.coe_eq_coe] at hold hnew' ⊢
      simp only [taskOf, Option.toList, ← Multiset.coe_add] at hold hnew' ⊢
      rw [hold, hnew']
      simp only [Multiset.coe_nil]
      abel
    · change (s.freeco ++ [e'.data]).Nodup
      rw [List.nodup_append]
      refine ⟨h.wrapped.free_nodup, List.nodup_singleton _, ?_⟩
      rintro w hw w' hw' rfl
      rw [List.mem_singleton] at hw'
      subst hw'
      obtain ⟨-, e, heL, hdata, hparked⟩ := (h.wrapped.free_iff _).mp hw
      obtain rfl := h.eq_of_data_eq heL he hdata
      rw [hbody] at hparked
      cases hparked
    · intro w
      change w ∈ s.freeco ++ [e'.data] ↔ none ≠ some w ∧
        ∃ e ∈ L, e.data = w ∧ Function.update s.points e'.co (.parked e'.data) e.co = .parked w
      rw [List.mem_append, List.mem_singleton, h.wrapped.free_iff w]
      constructor
      · rintro (⟨hw, e, heL, rfl, hparked⟩ | rfl)
        · refine ⟨hw, e, heL, rfl, ?_⟩
          by_cases heq : e = e'
          · subst heq
            exact Function.update_self ..
          · rw [Function.update_of_ne (hne heL heq), hparked]
        · exact ⟨by simp, e', he, rfl, Function.update_self ..⟩
      · rintro ⟨hw, e, heL, rfl, hparked⟩
        by_cases heq : e = e'
        · exact Or.inr (congrArg LiveCo.data heq)
        · rw [Function.update_of_ne (hne heL heq)] at hparked
          exact Or.inl ⟨hw, e, heL, rfl, hparked⟩
    · intro e heL
      change PointOk none e (Function.update s.points e'.co (.parked e'.data) e.co)
      by_cases heq : e = e'
      · subst heq
        rw [Function.update_self]
        rfl
      · rw [Function.update_of_ne (hne heL heq)]
        exact h.wrapped.point e heL
    · intro p hp
      change Function.update s.points e'.co _ p = _
      rw [Function.update_of_ne (hp e' he).symm]
      exact h.wrapped.entry p hp

theorem resume_spec (h : s.Inv W L running [] none waiting) (he : e ∈ L) {w : ℕ}
    (hbody : s.points e.co = .body w t) :
    ∃ s' running', s.resume e.id none = some s' ∧ s'.Inv W L running' [] none waiting ∧
      s'.calls = s.calls := by
  have hwrapper : w = e.data := by
    have hpoint := h.wrapped.point e he
    rw [hbody] at hpoint
    exact hpoint.1
  subst hwrapper
  unfold resume
  cases running with
  | some id =>
      obtain ⟨e', -, -, hcurco, -⟩ := h.sound.current
      refine ⟨s, some id, ?_, h, rfl⟩
      rw [h.sound.resume_idle (Or.inl (Option.some_ne_none id)), Option.bind_eq_bind,
        Option.bind_some, hcurco]
  | none =>
      obtain ⟨sched, hresume, hsound, hcurco⟩ := h.sound.resume_live he
      refine ⟨{ s with sched := sched, frame := none }, some e.id, ?_, ?_, rfl⟩
      · rw [hresume, Option.bind_eq_bind, Option.bind_some, h.sound.current.1, hcurco]
        unfold proceed
        dsimp only
        rw [hbody]
      · refine ⟨hsound, hsound.co_ne_none he, h.models, h.small,
          ⟨h.stored.nodup, h.stored.alive, h.stored.waiting⟩,
          ⟨h.wrapped.wrapper, h.wrapped.free_nodup, h.wrapped.free_iff, h.wrapped.point,
            h.wrapped.entry⟩, ⟨fun _ ↦ rfl, by simp, ?_⟩⟩
        intro e' he' hrun
        obtain rfl := h.sound.slots.eq_of_id_eq he' he (Option.some.inj hrun).symm
        exact ⟨t, hbody⟩

end CoroutineTask

/-! ## Runs -/

namespace TaskThread

variable {s s' : TaskThread G P}

/-- What holds between any two calls. -/
def Inv (s : TaskThread G P) : Prop :=
  (∃ W L running, s.co.Inv W L running [] none s.waiting) ∧
    s.co.calls = s.taken.map Prod.snd ∧
    s.added = (s.taken.filter (·.1)).map Prod.snd ++ s.waiting

/-- The calls that find no room: the counts of the lists and the capacity are `int`s. -/
def NoRoom (s : TaskThread G P) : TaskCall G P → Prop
  | .addTask _ _ => (s.co.lists .work).count = 2 ^ 31 - 1
  | .doTask | .doTaskOf _ _ => s.co.NoRoom
  | .resume _ | .bodyYield | .bodyReturn => False

theorem inv_initial : (initial : TaskThread G P).Inv := by
  have hsound : (Schedule.initial.initEnv.1 : Schedule CoFunc ℕ).Sound [] none :=
    Schedule.Sound.initial.initEnv
  refine ⟨⟨fun _ ↦ [], [], none, hsound, ?_, Slist.Models.empty, ?_, ⟨?_, ?_, rfl⟩,
    ⟨?_, List.nodup_nil, ?_, ?_, fun _ _ ↦ rfl⟩, ⟨fun _ ↦ rfl, ?_, ?_⟩⟩, rfl, rfl⟩
  · exact Option.some_ne_none _
  · intro l
    exact Nat.two_pow_pos 31
  · exact List.nodup_nil
  all_goals
    simp [initial, CoroutineTask.initial, CoroutineTask.places, bodies]

/-- What a call leaves: a state that is as it should be, or nothing for want of room. -/
def Outcome (s : TaskThread G P) (c : TaskCall G P) : Prop :=
  (∃ s', s.step c = some s' ∧ s'.Inv) ∨ (s.step c = none ∧ s.NoRoom c)

theorem Inv.addTask (h : s.Inv) (func : G) (p : P) : s.Outcome (.addTask func p) := by
  obtain ⟨⟨W, L, running, hinv⟩, hcalls, hadded⟩ := h
  rcases CoroutineTask.addTask_spec hinv func p with ⟨co, W', hadd, hinv', hsame⟩ | ⟨hnone, hroom⟩
  · left
    refine ⟨{ s with
        co := co
        added := s.added ++ [⟨func, p⟩]
        waiting := s.waiting ++ [⟨func, p⟩] }, ?_, ⟨W', L, running, hinv'⟩, ?_, ?_⟩
    · rw [step, hadd]
      rfl
    · exact hsame.trans hcalls
    · change s.added ++ _ = _ ++ (s.waiting ++ _)
      rw [hadded, List.append_assoc]
  · right
    refine ⟨?_, hroom⟩
    rw [step, hnone]
    rfl

theorem Inv.doTaskOf (h : s.Inv) (func : G) (p : P) (hcan : s.CanCall (.doTaskOf func p)) :
    s.Outcome (.doTaskOf func p) := by
  obtain ⟨⟨W, L, running, hinv⟩, hcalls, hadded⟩ := h
  have hcurco : s.co.sched.curco = none := hcan
  obtain rfl := hinv.sound.running_eq_none_iff.mpr hcurco
  obtain ⟨co, t, hnew, hinv', hread, hsame⟩ := CoroutineTask.newTask_spec hinv func p
  have hdo : s.co.doTaskOf func p = co.launch t := by
    unfold CoroutineTask.doTaskOf
    rw [hcurco]
    change (s.co.newTask func p).bind _ = _
    rw [hnew]
    rfl
  rcases CoroutineTask.launch_spec hinv' hread with
    ⟨co', W', L', running, hlaunch, hinv'', hcalls'⟩ | ⟨hnone, hroom⟩
  · left
    refine ⟨{ s with co := co', taken := s.taken ++ [(false, ⟨func, p⟩)] }, ?_,
      ⟨W', L', running, hinv''⟩, ?_, ?_⟩
    · rw [step, hdo, hlaunch]
      rfl
    · rw [hcalls', hsame]
      change s.co.calls ++ _ = (s.taken ++ _).map Prod.snd
      rw [List.map_append, hcalls]
      rfl
    · rw [List.filter_append, List.map_append]
      simpa using hadded
  · right
    refine ⟨?_, ?_⟩
    · rw [step, hdo, hnone]
      rfl
    · rw [hsame] at hroom
      exact hroom

theorem Inv.doTask (h : s.Inv) (hcan : s.CanCall .doTask) : s.Outcome .doTask := by
  obtain ⟨⟨W, L, running, hinv⟩, hcalls, hadded⟩ := h
  have hcurco : s.co.sched.curco = none := hcan
  obtain rfl := hinv.sound.running_eq_none_iff.mpr hcurco
  cases hwork : W .work with
  | nil =>
      -- nothing is queued
      have hmap := hinv.stored.waiting
      rw [hwork] at hmap
      have hwaiting : s.waiting = [] := by simpa using hmap.symm
      have hdo : s.co.doTask = some s.co := by
        unfold CoroutineTask.doTask
        rw [hcurco]
        change s.co.getTask.bind _ = _
        rw [CoroutineTask.getTask_nil hinv hwork]
        rfl
      left
      have htake : s.takeFirst = s := by
        unfold takeFirst
        rw [hwaiting]
      refine ⟨s, ?_, ⟨W, L, none, hinv⟩, hcalls, hadded⟩
      rw [step, hdo, htake]
      rfl
  | cons t ts =>
      obtain ⟨co, c, rest, hget, hwaiting, hinv', hread, hsame⟩ :=
        CoroutineTask.getTask_cons hinv hwork
      have hdo : s.co.doTask = co.launch t := by
        unfold CoroutineTask.doTask
        rw [hcurco]
        change s.co.getTask.bind _ = _
        rw [hget]
        rfl
      rcases CoroutineTask.launch_spec hinv' hread with
        ⟨co', W', L', running, hlaunch, hinv'', hcalls'⟩ | ⟨hnone, hroom⟩
      · left
        refine ⟨{ s with co := co', waiting := rest, taken := s.taken ++ [(true, c)] }, ?_,
          ⟨W', L', running, hinv''⟩, ?_, ?_⟩
        · rw [step, hdo, hlaunch]
          simp [takeFirst, hwaiting]
        · rw [hcalls', hsame]
          change s.co.calls ++ _ = (s.taken ++ _).map Prod.snd
          rw [List.map_append, hcalls]
          rfl
        · change s.added = ((s.taken ++ [(true, c)]).filter (·.1)).map Prod.snd ++ rest
          rw [hadded, hwaiting, List.filter_append, List.map_append, List.append_assoc]
          rfl
      · right
        refine ⟨?_, ?_⟩
        · rw [step, hdo, hnone]
          rfl
        · have hall : (co.lists .all).count = (s.co.lists .all).count := by
            have hW : Function.update W .work ts .all = W .all :=
              Function.update_of_ne (by decide) ..
            rw [hinv'.models.count_eq .all, hinv.models.count_eq .all, hW]
          have hsched : co.sched = s.co.sched := by rw [hsame]
          have hfreeco : co.freeco = s.co.freeco := by rw [hsame]
          obtain ⟨hfree, hroom⟩ := hroom
          rw [hall, hsched] at hroom
          exact ⟨hfreeco ▸ hfree, hroom⟩

theorem Inv.resume (h : s.Inv) {coId : ℤ} (hcan : s.CanCall (.resume coId)) :
    s.Outcome (.resume coId) := by
  obtain ⟨⟨W, L, running, hinv⟩, hcalls, hadded⟩ := h
  obtain ⟨co, hco, hbody, -⟩ := hcan
  have hslot : s.co.sched.slot coId = some (some co) := Option.join_eq_some_iff.mp hco
  obtain ⟨e, he, rfl, rfl⟩ := (hinv.sound.slots.slot_iff coId co).mp hslot
  cases hp : s.co.points e.co with
  | entry =>
      rw [hp] at hbody
      cases hbody
  | parked w =>
      rw [hp] at hbody
      cases hbody
  | body w t =>
      obtain ⟨co', running', hresume, hinv', hsame⟩ := CoroutineTask.resume_spec hinv he hp
      left
      refine ⟨{ s with co := co' }, ?_, ⟨W, L, running', hinv'⟩, hsame.trans hcalls, hadded⟩
      rw [step, hresume]
      rfl

theorem exists_running {W : TaskList → List ℕ} {L : List TaskCo} {running : Option ℤ}
    (hinv : s.co.Inv W L running [] none s.waiting) {co : ℕ} (hco : co ∈ s.co.sched.curco) :
    ∃ e ∈ L, running = some e.id := by
  cases running with
  | none =>
      rw [hinv.sound.current.1] at hco
      cases hco
  | some id =>
      obtain ⟨e, he, rfl, -⟩ := hinv.sound.current
      exact ⟨e, he, rfl⟩

theorem Inv.bodyYield (h : s.Inv) (hcan : s.CanCall .bodyYield) : s.Outcome .bodyYield := by
  obtain ⟨⟨W, L, running, hinv⟩, hcalls, hadded⟩ := h
  obtain ⟨co, hco, -⟩ := hcan
  obtain ⟨e, he, rfl⟩ := exists_running hinv hco
  obtain ⟨co', hyield, hinv', hsame⟩ := CoroutineTask.bodyYield_spec hinv he
  left
  refine ⟨{ s with co := co' }, ?_, ⟨W, L, none, hinv'⟩, hsame.trans hcalls, hadded⟩
  rw [step, hyield]
  rfl

theorem Inv.bodyReturn (h : s.Inv) (hcan : s.CanCall .bodyReturn) : s.Outcome .bodyReturn := by
  obtain ⟨⟨W, L, running, hinv⟩, hcalls, hadded⟩ := h
  obtain ⟨co, hco, -⟩ := hcan
  obtain ⟨e, he, rfl⟩ := exists_running hinv hco
  obtain ⟨co', hreturn, hinv', hsame⟩ := CoroutineTask.bodyReturn_spec hinv he
  left
  refine ⟨{ s with co := co' }, ?_, ⟨W, L, none, hinv'⟩, hsame.trans hcalls, hadded⟩
  rw [step, hreturn]
  rfl

theorem Inv.outcome (h : s.Inv) {c : TaskCall G P} (hcan : s.CanCall c) : s.Outcome c := by
  cases c with
  | addTask func p => exact h.addTask func p
  | doTask => exact h.doTask hcan
  | doTaskOf func p => exact h.doTaskOf func p hcan
  | resume coId => exact h.resume hcan
  | bodyYield => exact h.bodyYield hcan
  | bodyReturn => exact h.bodyReturn hcan

theorem inv_of_run {calls : List (TaskCall G P)}
    (hcalls : (system G P).Allowed System.anyStep initial calls)
    (hrun : (system G P).run initial calls = some s) : s.Inv := by
  refine System.invariant_of_run (I := Inv) ?_ inv_initial hcalls hrun
  intro s c s' hs hcan _ hstep
  have hstep' : s.step c = some s' := hstep
  rcases hs.outcome hcan with ⟨t, ht, hinv⟩ | ⟨hnone, -⟩
  · rw [ht] at hstep'
    cases hstep'
    exact hinv
  · rw [hnone] at hstep'
    cases hstep'

/-- The task functions called are those of the tasks taken, in this order.  What was queued
was taken from the front, and the rest is in `gworktasklist`.  A task in `gfreetaskvec` is
neither queued nor in a body, and a wrapper is in `gfreecovec`, once, when its coroutine is
parked. -/
theorem tasks_of_run {calls : List (TaskCall G P)}
    (hcalls : (system G P).Allowed System.anyStep initial calls)
    (hrun : (system G P).run initial calls = some s) :
    s.co.calls = s.taken.map Prod.snd ∧
      s.added = (s.taken.filter (·.1)).map Prod.snd ++ s.waiting ∧
      (∃ W, Slist.Models s.co.nodes s.co.lists W ∧
        (W .work).map s.co.tasks.read = s.waiting.map some ∧
        s.co.freetask.Nodup ∧
        ∀ t ∈ s.co.freetask, t ∉ W .work ∧ ∀ co w, s.co.points co ≠ .body w t) ∧
      s.co.freeco.Nodup ∧
      (∀ w, w ∈ s.co.freeco ↔ ∃ wrapper co, s.co.wrappers.read w = some wrapper ∧
        s.co.sched.slot wrapper.coId = some (some co) ∧ s.co.points co = .parked w ∧
        s.co.sched.curco ≠ some co) ∧
      ∀ c, s.CanCall c → s.step c = none → s.NoRoom c := by
  have h := inv_of_run hcalls hrun
  obtain ⟨⟨W, L, running, hinv⟩, htaken, hadded⟩ := h
  refine ⟨htaken, hadded, ⟨W, hinv.models, hinv.stored.waiting, ?_, ?_⟩, hinv.wrapped.free_nodup,
    ?_, ?_⟩
  · have hnodup := hinv.stored.nodup
    rw [CoroutineTask.places, List.append_assoc, List.append_assoc, List.nodup_append] at hnodup
    exact hnodup.1
  · intro t ht
    have hnodup := hinv.stored.nodup
    rw [CoroutineTask.places, List.append_nil, List.append_assoc, List.nodup_append] at hnodup
    have hother := hnodup.2.2 t ht t
    constructor
    · intro hmem
      exact hother (List.mem_append_left _ hmem) rfl
    · intro co w hbody
      apply hother _ rfl
      apply List.mem_append_right
      rw [mem_bodies]
      by_contra hnone
      have hentry : s.co.points co = .entry := by
        apply hinv.wrapped.entry
        rintro e he rfl
        exact hnone ⟨e, he, by rw [hbody]; rfl⟩
      rw [hbody] at hentry
      cases hentry
  · intro w
    rw [hinv.wrapped.free_iff w]
    constructor
    · rintro ⟨-, e, he, rfl, hparked⟩
      obtain ⟨task, hread⟩ := hinv.wrapped.wrapper e he
      refine ⟨_, e.co, hread, hinv.sound.slots.slot_of_mem he, hparked, ?_⟩
      intro hcurco
      obtain ⟨e', he', rfl⟩ := exists_running hinv hcurco
      obtain ⟨t, hbody⟩ := hinv.framed.body e' he' rfl
      obtain ⟨r, hr, hid, hr', -⟩ := hinv.sound.current
      obtain rfl := hinv.sound.slots.eq_of_id_eq hr he' hid
      rw [hcurco] at hr'
      rw [Option.some.inj hr', hbody] at hparked
      cases hparked
    · rintro ⟨wrapper, co, hread, hslot, hparked, -⟩
      obtain ⟨e, he, hid, rfl⟩ := (hinv.sound.slots.slot_iff wrapper.coId co).mp hslot
      have hpoint := hinv.wrapped.point e he
      rw [hparked] at hpoint
      exact ⟨by simp, e, he, hpoint.symm, hparked⟩
  · intro c hcan hnone
    rcases (inv_of_run hcalls hrun).outcome hcan with ⟨t, ht, -⟩ | ⟨-, hroom⟩
    · rw [hnone] at ht
      cases ht
    · exact hroom

/-- Two tasks are queued; the first yields and adds a third before it is resumed. -/
def sampleCalls : List (TaskCall ℕ ℕ) :=
  [.addTask 7 1, .addTask 8 2, .doTask, .bodyYield, .doTask, .addTask 9 3, .bodyReturn,
    .resume 0, .bodyReturn, .doTaskOf 5 4, .bodyReturn, .doTask]

theorem tasks_of_run_sampleCalls :
    ∃ s, (system ℕ ℕ).run initial sampleCalls = some s ∧ s.co.freeco.Nodup ∧
      s.co.calls = [⟨7, 1⟩, ⟨8, 2⟩, ⟨5, 4⟩, ⟨9, 3⟩] := by
  have hcalls : ((system ℕ ℕ).run initial sampleCalls).map (fun s ↦ s.co.calls) =
      some [⟨7, 1⟩, ⟨8, 2⟩, ⟨5, 4⟩, ⟨9, 3⟩] := by
    decide +kernel
  obtain ⟨s, hs, heq⟩ := Option.map_eq_some_iff.mp hcalls
  exact ⟨s, hs, (tasks_of_run (by decide +kernel) hs).2.2.2.1, heq⟩

end TaskThread

end Coroutine

end Slience
