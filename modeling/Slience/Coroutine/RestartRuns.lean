import Slience.Coroutine.WrapperLists

/-!
# Wrappers over a restart

The invariant of a thread that is restarted holds with an environment and without one: it is
said of the thread with the environment it would get.  As long as `clrTask` and `close` find
`gfreecovec` empty, nothing of it is lost.
-/

namespace Slience

namespace Coroutine

variable {G P : Type}

inductive RestartCall (G P : Type) where
  | task (c : TaskCall G P)
  | clrTask
  | close
  | initEnv
  deriving DecidableEq

namespace CoroutineTask

/-- A thread that has no environment yet. -/
def newThread : CoroutineTask G P := { CoroutineTask.initial with sched := Schedule.initial }

def taskStep (s : CoroutineTask G P) : TaskCall G P → Option (CoroutineTask G P)
  | .addTask func p => s.addTask func p
  | .doTask => s.doTask
  | .doTaskOf func p => s.doTaskOf func p
  | .resume coId => s.resume coId none
  | .bodyYield => s.bodyYield
  | .bodyReturn => s.bodyReturn

def restartStep (s : CoroutineTask G P) : RestartCall G P → Option (CoroutineTask G P)
  | .task c => s.taskStep c
  | .clrTask => s.clrTask
  | .close => s.close
  | .initEnv => some s.initEnv

/-- The function of a task yields or returns while it runs, and `close` is called by the
scheduler. -/
def CanRestart (s : CoroutineTask G P) : RestartCall G P → Prop
  | .task c =>
      match c with
      | .bodyYield | .bodyReturn => ∃ co ∈ s.sched.curco, TaskThread.InBody (s.points co)
      | .addTask _ _ | .doTask | .doTaskOf _ _ | .resume _ => True
  | .close => s.sched.curco = none
  | .clrTask | .initEnv => True

instance (s : CoroutineTask G P) (c : RestartCall G P) : Decidable (s.CanRestart c) :=
  match c with
  | .task c =>
      match c with
      | .bodyYield | .bodyReturn =>
          inferInstanceAs (Decidable (∃ co ∈ s.sched.curco, TaskThread.InBody (s.points co)))
      | .addTask _ _ | .doTask | .doTaskOf _ _ | .resume _ => isTrue trivial
  | .close => inferInstanceAs (Decidable (s.sched.curco = none))
  | .clrTask | .initEnv => isTrue trivial

def restartSystem (G P : Type) : System (CoroutineTask G P) (RestartCall G P) where
  enabled := CanRestart
  step := restartStep

instance (s : CoroutineTask G P) (c : RestartCall G P) :
    Decidable ((restartSystem G P).enabled s c) :=
  inferInstanceAs (Decidable (s.CanRestart c))

/-- `clrTask`, where it does something, and `close` find no wrapper in `gfreecovec`. -/
def NoneFree (s : CoroutineTask G P) : RestartCall G P → Prop
  | .clrTask => s.sched.curco = none → s.freeco = []
  | .close => s.freeco = []
  | .task _ | .initEnv => True

instance (s : CoroutineTask G P) (c : RestartCall G P) : Decidable (s.NoneFree c) :=
  match c with
  | .clrTask => inferInstanceAs (Decidable (s.sched.curco = none → s.freeco = []))
  | .close => inferInstanceAs (Decidable (s.freeco = []))
  | .task _ | .initEnv => isTrue trivial

/-! ## What a thread keeps -/

structure Ready (s : CoroutineTask G P) : Prop where
  inv : ∃ W L running waiting, s.initEnv.Inv W L running [] none waiting ∧
    s.sched.Sound L running
  listed : s.Listed
  pointed : s.Pointed
  owned : s.Owned

variable {s s' : CoroutineTask G P} {W : TaskList → List ℕ} {L : List TaskCo}
  {running : Option ℤ} {waiting : List (CoTask G P)} {t : ℕ}

/-! ## Tasks are queued and taken -/

theorem newTask_sched (s : CoroutineTask G P) (sched : Schedule CoFunc ℕ) (func : G) (p : P) :
    ({ s with sched := sched } : CoroutineTask G P).newTask func p =
      (s.newTask func p).map fun r ↦ ({ r.1 with sched := sched }, r.2) := by
  unfold newTask
  dsimp only
  cases s.freetask.getLast? with
  | none => rfl
  | some t =>
      dsimp only
      cases s.tasks.write t ⟨func, p⟩ <;> rfl

theorem addTask_sched (s : CoroutineTask G P) (sched : Schedule CoFunc ℕ) (func : G) (p : P) :
    ({ s with sched := sched } : CoroutineTask G P).addTask func p =
      (s.addTask func p).map fun s' ↦ { s' with sched := sched } := by
  unfold addTask
  rw [newTask_sched]
  cases s.newTask func p with
  | none => rfl
  | some r =>
      change (({ r.1 with sched := sched } : CoroutineTask G P).pushBack .work r.2) =
        (r.1.pushBack .work r.2).map _
      unfold pushBack
      dsimp only
      cases (r.1.lists .work).pushBack r.1.nodes r.2 <;> rfl

theorem getTask_sched (s : CoroutineTask G P) (sched : Schedule CoFunc ℕ) :
    ({ s with sched := sched } : CoroutineTask G P).getTask =
      s.getTask.map fun r ↦ ({ r.1 with sched := sched }, r.2) := by
  unfold getTask
  dsimp only
  split
  · rfl
  · cases (s.lists .work).front s.nodes with
    | none => rfl
    | some t =>
        change ((s.lists .work).popFront s.nodes).bind _ =
          (((s.lists .work).popFront s.nodes).bind _).map _
        cases (s.lists .work).popFront s.nodes <;> rfl

theorem newTask_inv {func : G} {p : P} (h : s.newTask func p = some (s', t)) :
    s' = { s with tasks := s'.tasks, freetask := s'.freetask } := by
  unfold newTask at h
  split at h
  · obtain ⟨tasks, -, heq⟩ := Option.bind_eq_some_iff.mp h
    cases heq
    rfl
  · cases h
    rfl

theorem Ready.dead_vars (h : s.Ready) (hcurco : s.sched.curco = none) (v : ℕ) :
    s.vars.read v = none := by
  obtain ⟨W, L, running, waiting, hinv, hsound⟩ := h.inv
  obtain rfl := hsound.running_eq_none_iff.mpr hcurco
  have hframe : s.frame = none := hinv.framed.idle rfl
  rw [Option.eq_none_iff_forall_not_mem]
  intro x hx
  have hwaits := h.owned v x hx
  rw [hframe] at hwaits
  cases hwaits

theorem Ready.addTask (h : s.Ready) {func : G} {p : P} (hadd : s.addTask func p = some s') :
    s'.Ready := by
  obtain ⟨⟨W, L, running, waiting, hinv, hsound⟩, hlisted, hpointed, howned⟩ := h
  have hsched : s.addTask func p = (s.addTask func p).map _ := addTask_sched s s.sched func p
  rw [hadd, Option.map_some] at hsched
  have hsame : s'.sched = s.sched := by rw [Option.some.inj hsched]
  have hinit : s.initEnv.addTask func p = some s'.initEnv := by
    rw [initEnv, addTask_sched, hadd, Option.map_some, initEnv, hsame]
  obtain ⟨⟨s₁, t⟩, hnew, hwork⟩ := Option.bind_eq_some_iff.mp hadd
  obtain ⟨⟨l, nodes⟩, hpush, heq⟩ := Option.bind_eq_some_iff.mp hwork
  cases heq
  have hs₁ := newTask_inv hnew
  rw [hs₁] at hpush
  have hmodels : Slist.Models s.nodes s.lists W := hinv.models
  obtain ⟨hroom, hmodels'⟩ := hmodels.of_pushBack hpush
  refine ⟨?_, ?_, ?_, ?_⟩
  · rcases addTask_spec hinv func p with ⟨u, W', hu, hinv', -⟩ | ⟨hnone, -⟩
    · rw [hinit] at hu
      cases hu
      exact ⟨W', L, running, _, hinv', by rw [hsame]; exact hsound⟩
    · rw [hinit] at hnone
      cases hnone
  · have hrelist := hlisted.relist hmodels hmodels'
      (length_update_lt hinv (by rw [List.length_append]; exact hroom))
      (Function.update_of_ne (by decide) ..)
    refine hrelist.congr rfl ?_ ?_
    · rw [hs₁]
    · intro w
      rw [hs₁]
  · rw [hs₁]
    exact hpointed
  · rw [hs₁]
    exact howned

theorem initEnv_co_ne_none (s : CoroutineTask G P) : s.initEnv.sched.co ≠ none := by
  unfold initEnv Schedule.initEnv
  cases hco : s.sched.co with
  | none => exact Option.some_ne_none _
  | some t =>
      dsimp only
      rw [hco]
      exact Option.some_ne_none _

/-- A thread without coroutines. -/
theorem inv_of_nil (hsound : s.sched.Sound [] none) (hmodels : Slist.Models s.nodes s.lists W)
    (hsmall : ∀ l, (W l).length < 2 ^ 31) (hnodup : (s.freetask ++ W .work).Nodup)
    (halive : ∀ q ∈ s.freetask ++ W .work, ∃ c, s.tasks.read q = some c)
    (hwaiting : (W .work).map s.tasks.read = waiting.map some) (hfree : s.freeco = [])
    (hentry : ∀ p, s.points p = .entry) (hframe : s.frame = none) :
    s.initEnv.Inv W [] none [] none waiting := by
  have hplaces : s.initEnv.places (W .work) [] [] = s.freetask ++ W .work := by
    change s.freetask ++ W .work ++ [] ++ [] = _
    rw [List.append_nil, List.append_nil]
  refine ⟨hsound.initEnv, initEnv_co_ne_none s, hmodels, hsmall, ⟨?_, ?_, hwaiting⟩,
    ⟨by simp, ?_, ?_, by simp, fun p _ ↦ hentry p⟩, ⟨fun _ ↦ hframe, ?_, by simp⟩⟩
  · rw [hplaces]
    exact hnodup
  · rw [hplaces]
    exact halive
  · change s.freeco.Nodup
    rw [hfree]
    exact List.nodup_nil
  · intro w
    change w ∈ s.freeco ↔ _
    rw [hfree]
    simp
  · intro v hv
    rw [show s.frame = some v from hv] at hframe
    cases hframe

/-- A `doTask` that has taken its task comes to its end. -/
theorem Ready.of_launch {c : CoTask G P} (hinv : s.initEnv.Inv W L none [t] none waiting)
    (hsound : s.sched.Sound L none) (hread : s.tasks.read t = some c) (hlisted : s.Listed)
    (hpointed : s.Pointed) (hvars : ∀ v, s.vars.read v = none) (h : s.launch t = some s') :
    s'.Ready := by
  by_cases hco : s.sched.co = none
  · -- the task is lost, and the new wrapper names no coroutine
    obtain ⟨-, -, -, rfl⟩ := hsound.nil_of_co_none hco
    have hfree : s.freeco = [] := by
      rw [List.eq_nil_iff_forall_not_mem]
      intro w hw
      obtain ⟨-, e, he, -⟩ := (hinv.wrapped.free_iff w).mp hw
      cases he
    have hframe : s.frame = none := hinv.framed.idle rfl
    have hidle : ∀ s₁ w, s.getCoTaskWrapper = some (s₁, w) → s₁.sched.curco = none := by
      intro s₁ w hget
      obtain ⟨s₀, hset, ⟨hlast, -⟩ | ⟨-, hnew⟩⟩ := getCoTaskWrapper_inv hget
      · rw [hfree] at hlast
        cases hlast
      · obtain ⟨⟨sched, id⟩, hcreate, hnew⟩ := Option.bind_eq_some_iff.mp hnew
        obtain ⟨s₂, hpush, heq⟩ := Option.bind_eq_some_iff.mp hnew
        cases heq
        obtain ⟨⟨l, nodes⟩, -, heq⟩ := Option.bind_eq_some_iff.mp hpush
        cases heq
        obtain ⟨c, wrappers, -, rfl, -⟩ := setVar_inv hset
        unfold Schedule.create at hcreate
        rw [hco] at hcreate
        cases hcreate
        exact hsound.current.1
    obtain ⟨hlisted', hpointed', howned'⟩ := launch_rest hlisted hpointed hvars hidle h
    obtain ⟨l, nodes, wrappers, vars, hpush, rfl⟩ :=
      launch_no_env hco hsound.current.1 hfree hframe h
    have hmodels : Slist.Models s.nodes s.lists W := hinv.models
    obtain ⟨hroom, hmodels'⟩ := hmodels.of_pushBack hpush
    have hwork : Function.update W .all (W .all ++ [s.wrappers.fresh]) .work = W .work :=
      Function.update_of_ne (by decide) ..
    have hstored := hinv.stored
    refine ⟨⟨_, [], none, waiting, inv_of_nil hsound hmodels' ?_ ?_ ?_ ?_ hfree ?_ hframe, hsound⟩,
      hlisted', hpointed', howned'⟩
    · exact length_update_lt hinv (by rw [List.length_append]; exact hroom)
    · rw [hwork]
      exact hstored.nodup.of_append_left.of_append_left
    · rw [hwork]
      intro q hq
      apply hstored.alive
      exact List.mem_append_left _ (List.mem_append_left _ hq)
    · rw [hwork]
      exact hstored.waiting
    · exact fun p ↦ hinv.wrapped.entry p (by simp)
  · have henv := initEnv_of_env hco
    rw [henv] at hinv
    have hidle : ∀ s₁ w, s.getCoTaskWrapper = some (s₁, w) → s₁.sched.curco = none := by
      intro s₁ w hget
      rcases getCoTaskWrapper_spec hinv with
        ⟨s₁', w', hget', W', L', e, he, -, hinv', -⟩ | ⟨hnone, -⟩
      · rw [hget] at hget'
        cases hget'
        exact hinv'.sound.current.1
      · rw [hget] at hnone
        cases hnone
    obtain ⟨hlisted', hpointed', howned'⟩ := launch_rest hlisted hpointed hvars hidle h
    rcases launch_spec hinv hread with ⟨u, W', L', running, hu, hinv', -⟩ | ⟨hnone, -⟩
    · rw [h] at hu
      cases hu
      exact ⟨⟨W', L', running, waiting, by rw [initEnv_of_env hinv'.env]; exact hinv',
        hinv'.sound⟩, hlisted', hpointed', howned'⟩
    · rw [h] at hnone
      cases hnone

theorem Ready.doTask (h : s.Ready) (hdo : s.doTask = some s') : s'.Ready := by
  cases hcurco : s.sched.curco with
  | some co =>
      unfold CoroutineTask.doTask at hdo
      rw [hcurco] at hdo
      cases hdo
      exact h
  | none =>
      have hvars := h.dead_vars hcurco
      obtain ⟨⟨W, L, running, waiting, hinv, hsound⟩, hlisted, hpointed, howned⟩ := id h
      obtain rfl := hsound.running_eq_none_iff.mpr hcurco
      unfold CoroutineTask.doTask at hdo
      rw [hcurco] at hdo
      obtain ⟨r, hget, hdo⟩ := Option.bind_eq_some_iff.mp hdo
      have hinit : s.initEnv.getTask = some ({ r.1 with sched := s.sched.initEnv.1 }, r.2) := by
        rw [initEnv, getTask_sched, hget, Option.map_some]
      have hsched : s.getTask = s.getTask.map _ := getTask_sched s s.sched
      rw [hget, Option.map_some] at hsched
      have hsame : r.1.sched = s.sched := by rw [Option.some.inj hsched]
      cases hwork : W .work with
      | nil =>
          have hcount : (s.lists .work).count = (W .work).length := hinv.models.count_eq .work
          unfold getTask at hget
          rw [if_pos (by rw [hcount, hwork]; rfl)] at hget
          cases hget
          cases hdo
          exact h
      | cons t ts =>
          obtain ⟨u, c, rest, hget', -, hinv', hread, hu⟩ := getTask_cons hinv hwork
          rw [hinit] at hget'
          obtain ⟨s₁, o⟩ := r
          cases hget'
          have hs₁ : s₁ = { s with nodes := s₁.nodes, lists := s₁.lists } := by
            have hback := congrArg (fun u : CoroutineTask G P ↦ { u with sched := s.sched }) hu
            dsimp only [initEnv] at hback hsame
            rw [← hsame] at hback ⊢
            exact hback
          have hinit₁ : s₁.initEnv = { s₁ with sched := s.sched.initEnv.1 } := by
            rw [initEnv, hsame]
          have hmodels : Slist.Models s.nodes s.lists W := hinv.models
          have hmodels' : Slist.Models s₁.nodes s₁.lists (Function.update W .work ts) :=
            hinv'.models
          have hrelist := hlisted.relist hmodels hmodels' hinv'.small
            (Function.update_of_ne (by decide) ..)
          rw [← hs₁] at hrelist
          rw [← hinit₁] at hinv'
          refine Ready.of_launch hinv' (by rw [hsame]; exact hsound) hread hrelist ?_ ?_ hdo
          · rw [hs₁]
            exact hpointed
          · rw [hs₁]
            exact hvars

theorem Ready.doTaskOf (h : s.Ready) {func : G} {p : P} (hdo : s.doTaskOf func p = some s') :
    s'.Ready := by
  cases hcurco : s.sched.curco with
  | some co =>
      unfold CoroutineTask.doTaskOf at hdo
      rw [hcurco] at hdo
      cases hdo
      exact h
  | none =>
      have hvars := h.dead_vars hcurco
      obtain ⟨⟨W, L, running, waiting, hinv, hsound⟩, hlisted, hpointed, howned⟩ := h
      obtain rfl := hsound.running_eq_none_iff.mpr hcurco
      unfold CoroutineTask.doTaskOf at hdo
      rw [hcurco] at hdo
      obtain ⟨⟨s₁, t⟩, hnew, hlaunch⟩ := Option.bind_eq_some_iff.mp hdo
      have hs₁ := newTask_inv hnew
      have hinit : s.initEnv.newTask func p = some (s₁.initEnv, t) := by
        rw [initEnv, newTask_sched, hnew, Option.map_some, hs₁]
        rfl
      obtain ⟨u, t', hnew', hinv', hread, -⟩ := newTask_spec hinv func p
      rw [hinit] at hnew'
      cases hnew'
      refine Ready.of_launch hinv' (by rw [hs₁]; exact hsound) hread ?_ ?_ ?_ hlaunch
      · rw [hs₁]
        exact hlisted.congr rfl rfl fun _ ↦ Iff.rfl
      · rw [hs₁]
        exact hpointed
      · rw [hs₁]
        exact hvars

/-! ## The calls of a coroutine -/

/-- A parked coroutine that is resumed by its id finds that its task pointer dangles. -/
theorem Ready.resume_parked (h : s.Ready) {e : TaskCo} {w : ℕ} (hcurco : s.sched.curco = none)
    (hpoint : s.points e.co = .parked w) {sched : Schedule CoFunc ℕ}
    (hresume : s.sched.resume e.id = some sched) (hsched : sched.curco = some e.co) :
    s.resume e.id none = none := by
  have hvars := h.dead_vars hcurco
  have hproceed : s.resume e.id none =
      ({ s with sched := sched, frame := none } : CoroutineTask G P).loop e.co w := by
    unfold CoroutineTask.resume
    rw [hresume, Option.bind_eq_bind, Option.bind_some, hcurco, hsched]
    change ({ s with sched := sched, frame := none } : CoroutineTask G P).proceed e.co = _
    unfold proceed
    dsimp only
    rw [hpoint]
  rw [hproceed, Option.eq_none_iff_forall_not_mem]
  intro u hu
  obtain ⟨c, hread, hu⟩ := Option.bind_eq_some_iff.mp hu
  cases htask : c.task with
  | none => exact h.pointed w c hread htask
  | some var =>
      rw [htask] at hu
      obtain ⟨x, hx, -⟩ := Option.bind_eq_some_iff.mp hu
      rw [hvars] at hx
      cases hx

theorem Ready.resume (h : s.Ready) {coId : ℤ} (hresume : s.resume coId none = some s') :
    s'.Ready := by
  obtain ⟨⟨W, L, running, waiting, hinv, hsound⟩, hlisted, hpointed, howned⟩ := id h
  cases hcurco : s.sched.curco with
  | some co =>
      have hrun : running ≠ none := by
        rw [ne_eq, hsound.running_eq_none_iff, hcurco]
        exact Option.some_ne_none _
      unfold CoroutineTask.resume at hresume
      rw [hsound.resume_idle (Or.inl hrun), Option.bind_eq_bind, Option.bind_some,
        hcurco] at hresume
      cases hresume
      exact h
  | none =>
      obtain rfl := hsound.running_eq_none_iff.mpr hcurco
      have hdead := h.dead_vars hcurco
      obtain ⟨hquiet, howned'⟩ := resume_quiet hpointed hcurco
        (fun v x hread ↦ by rw [hdead] at hread; cases hread) hresume
      refine ⟨?_, hquiet.listed hlisted, hquiet.pointed hpointed, howned'⟩
      by_cases hlive : coId ∈ Thread.ids L
      · obtain ⟨e, he, rfl⟩ := mem_ids.mp hlive
        rw [initEnv_of_env (hsound.co_ne_none he)] at hinv
        have hpoint := hinv.wrapped.point e he
        cases hp : s.points e.co with
        | entry =>
            rw [hp] at hpoint
            cases hpoint
        | parked w =>
            obtain ⟨sched, hs, -, hco⟩ := hsound.resume_live he
            rw [h.resume_parked hcurco hp hs hco] at hresume
            cases hresume
        | body w t =>
            obtain ⟨u, running', hu, hinv', -⟩ := resume_spec hinv he hp
            rw [hresume] at hu
            cases hu
            exact ⟨W, L, running', waiting, by rw [initEnv_of_env hinv'.env]; exact hinv',
              hinv'.sound⟩
      · have hframe : s.frame = none := hinv.framed.idle rfl
        have hsame : s' = s := by
          unfold CoroutineTask.resume at hresume
          rw [hsound.resume_idle (Or.inr hlive), Option.bind_eq_bind, Option.bind_some,
            hcurco] at hresume
          cases hresume
          rw [← hframe]
        rw [hsame]
        exact ⟨W, L, none, waiting, hinv, hsound⟩

/-- The coroutine that runs, in a thread with an environment. -/
theorem Ready.exists_running (h : s.Ready) {co : ℕ} (hco : co ∈ s.sched.curco) :
    ∃ W L waiting, ∃ e ∈ L, s.Inv W L (some e.id) [] none waiting := by
  obtain ⟨⟨W, L, running, waiting, hinv, hsound⟩, -⟩ := h
  cases running with
  | none =>
      rw [hsound.current.1] at hco
      cases hco
  | some id =>
      have hcurrent := hsound.current
      obtain ⟨e, he, rfl, -⟩ := hcurrent
      rw [initEnv_of_env (hsound.co_ne_none he)] at hinv
      exact ⟨W, L, waiting, e, he, hinv⟩

theorem Ready.of_quiet (h : s.Ready) (hinv : s'.Inv W L none [] none waiting)
    (hquiet : s.Quiet s' ∧ (s.Owned → s'.Owned)) : s'.Ready :=
  ⟨⟨W, L, none, waiting, by rw [initEnv_of_env hinv.env]; exact hinv, hinv.sound⟩,
    hquiet.1.listed h.listed, hquiet.1.pointed h.pointed, hquiet.2 h.owned⟩

theorem Ready.bodyYield (h : s.Ready) {co : ℕ} (hco : co ∈ s.sched.curco)
    (hyield : s.bodyYield = some s') : s'.Ready := by
  obtain ⟨W, L, waiting, e, he, hinv⟩ := h.exists_running hco
  obtain ⟨u, hu, hinv', -⟩ := bodyYield_spec hinv he
  rw [hyield] at hu
  cases hu
  obtain ⟨co', -, hyieldAt⟩ := Option.bind_eq_some_iff.mp hyield
  exact h.of_quiet hinv' (yieldAt_quiet hyieldAt)

theorem Ready.bodyReturn (h : s.Ready) {co : ℕ} (hco : co ∈ s.sched.curco)
    (hreturn : s.bodyReturn = some s') : s'.Ready := by
  obtain ⟨W, L, waiting, e, he, hinv⟩ := h.exists_running hco
  obtain ⟨u, hu, hinv', -⟩ := bodyReturn_spec hinv he
  rw [hreturn] at hu
  cases hu
  obtain ⟨co', -, hpark⟩ := Option.bind_eq_some_iff.mp hreturn
  refine h.of_quiet hinv' ?_
  split at hpark
  · obtain ⟨hquiet, howned⟩ := park_quiet hpark
    exact ⟨⟨hquiet.nodes, hquiet.lists, hquiet.wrappers⟩, howned⟩
  · cases hpark
  · cases hpark

/-! ## `clrTask` and `close` -/

theorem Ready.clrTask_spec (h : s.Ready) (hcurco : s.sched.curco = none) :
    ∃ s', s.clrTask = some s' ∧ s'.freeco = s.freeco ∧ (∀ w ∈ s.freeco, s'.wrappers.read w = none) ∧
      (s.freeco = [] → s'.Ready) := by
  have hvars := h.dead_vars hcurco
  obtain ⟨⟨W, L, running, waiting, hinv, hsound⟩, ⟨W₀, hmodels₀, hsmall, hnodup, hmem⟩, -, -⟩ :=
    id h
  obtain rfl := hsound.running_eq_none_iff.mpr hcurco
  have hmodels : Slist.Models s.nodes s.lists W := hinv.models
  obtain rfl := hmodels.unique hmodels₀
  have hframe : s.frame = none := hinv.framed.idle rfl
  -- the tasks
  have hplaces := hinv.stored.nodup
  rw [places, List.append_nil] at hplaces
  obtain ⟨hqueued, -, -⟩ := List.nodup_append.mp hplaces
  obtain ⟨hfree, hwork, hdisjoint⟩ := List.nodup_append.mp hqueued
  have halive (q : ℕ) (hq : q ∈ s.freetask ++ W .work) : ∃ c, s.tasks.read q = some c := by
    apply hinv.stored.alive
    rw [places, List.append_nil]
    exact List.mem_append_left _ hq
  have hreverse : s.freetask.reverse.Nodup := List.nodup_reverse.mpr hfree
  obtain ⟨tasks, hfreed, hsame⟩ := freeTasks_spec hreverse
    (fun q hq ↦ halive q (List.mem_append_left _ (List.mem_reverse.mp hq)))
  have halive' : ∀ q ∈ W .work, ∃ c, tasks.read q = some c := by
    intro q hq
    rw [hsame q fun hmem ↦ hdisjoint q (List.mem_reverse.mp hmem) q hq rfl]
    exact halive q (List.mem_append_right _ hq)
  obtain ⟨tasks', nodes, lists, hcleared, hmodels'⟩ := clearWork_spec
    (s := { s with tasks := tasks, freetask := [] }) hmodels rfl (hsmall .work) hwork halive'
  -- the wrappers and their coroutines
  have hall : Function.update W .work [] .all = W .all := Function.update_of_ne (by decide) ..
  have hwraps : Wraps { s with tasks := tasks', freetask := [], nodes := nodes, lists := lists } L
      (W .all) := by
    refine ⟨hsound, ?_, hinv.wrapped.entry⟩
    intro e he
    obtain ⟨task, hread⟩ := hinv.wrapped.wrapper e he
    exact ⟨(hmem e.data).mpr ⟨_, hread⟩, task, hread⟩
  obtain ⟨sched, points, wrappers, nodes', lists', hdone, hsound', hentry, hmodels'', hgone,
    hkept⟩ := clearCo_spec hwraps hmodels' hall (hsmall .all) hnodup fun w hw ↦ (hmem w).mp hw
  have hnone (w : ℕ) : wrappers.read w = none := by
    by_cases hw : w ∈ W .all
    · exact hgone w hw
    · rw [hkept w hw, Option.eq_none_iff_forall_not_mem]
      exact fun c hc ↦ hw ((hmem w).mpr ⟨c, hc⟩)
  have hempty : Function.update (Function.update W .work []) .all [] = fun _ ↦ [] := by
    funext l
    cases l <;> rfl
  rw [hempty] at hmodels''
  refine ⟨{ s with
      sched := sched, points := points, tasks := tasks', wrappers := wrappers, freetask := [],
      nodes := nodes', lists := lists' }, ?_, rfl, fun w _ ↦ hnone w, ?_⟩
  · have hcount : (s.lists .work).count.toNat = (W .work).length := by
      rw [hmodels.count_eq, Int.toNat_natCast]
    have hcount' : (lists .all).count.toNat = (W .all).length := by
      rw [hmodels'.count_eq, Int.toNat_natCast, hall]
    unfold clrTask
    rw [hcurco]
    simp only [hfreed, hcount, hcleared, hcount', hdone, Option.bind_eq_bind, Option.bind_some]
  · intro hnil
    refine ⟨⟨fun _ ↦ [], [], none, [], inv_of_nil hsound' hmodels'' (fun _ ↦ Nat.two_pow_pos 31)
      List.nodup_nil (fun q hq ↦ by cases hq) rfl hnil hentry hframe, hsound'⟩, ?_, ?_, ?_⟩
    · refine ⟨fun _ ↦ [], hmodels'', fun _ ↦ Nat.two_pow_pos 31, List.nodup_nil, ?_⟩
      intro w
      dsimp only
      rw [hnone]
      simp
    · intro w c hread
      have hread' : wrappers.read w = some c := hread
      rw [hnone] at hread'
      cases hread'
    · intro v x hread
      have hread' : s.vars.read v = some x := hread
      rw [hvars] at hread'
      cases hread'

theorem Ready.close_spec (h : s.Ready) (hcurco : s.sched.curco = none) :
    ∃ s', s.close = some s' ∧ s'.freeco = s.freeco ∧ (∀ w ∈ s.freeco, ¬ s'.Parked w) ∧
      (s.freeco = [] → s'.Ready) := by
  obtain ⟨⟨W, L, running, waiting, hinv, hsound⟩, hlisted, hpointed, howned⟩ := h
  obtain rfl := hsound.running_eq_none_iff.mpr hcurco
  obtain ⟨sched, hclose, hsound'⟩ := hsound.close_idle
  have hframe : s.frame = none := hinv.framed.idle rfl
  refine ⟨{ s with sched := sched, points := fun _ ↦ .entry }, ?_, rfl, ?_, ?_⟩
  · unfold close
    rw [hclose]
    rfl
  · rintro w - ⟨wrapper, co, c, W', -, -, -, hslot, -⟩
    obtain ⟨e, he, -⟩ := (hsound'.slots.slot_iff wrapper.coId co).mp hslot
    cases he
  · intro hnil
    have hstored := hinv.stored
    refine ⟨⟨W, [], none, waiting, inv_of_nil hsound' hinv.models hinv.small ?_ ?_ hstored.waiting
      hnil (fun _ ↦ rfl) hframe, hsound'⟩, hlisted.congr rfl rfl fun _ ↦ Iff.rfl, hpointed, howned⟩
    · exact hstored.nodup.of_append_left.of_append_left
    · intro q hq
      apply hstored.alive
      exact List.mem_append_left _ (List.mem_append_left _ hq)

/-! ## Runs -/

theorem Ready.initEnv (h : s.Ready) : s.initEnv.Ready := by
  obtain ⟨⟨W, L, running, waiting, hinv, hsound⟩, hlisted, hpointed, howned⟩ := h
  refine ⟨⟨W, L, running, waiting, ?_, hsound.initEnv⟩, hlisted.congr rfl rfl fun _ ↦ Iff.rfl,
    hpointed, howned⟩
  rw [initEnv_of_env (initEnv_co_ne_none s)]
  exact hinv

theorem ready_newThread : (newThread : CoroutineTask G P).Ready := by
  have hsound : (newThread : CoroutineTask G P).sched.Sound [] none := Schedule.Sound.initial
  refine ⟨⟨fun _ ↦ [], [], none, [], inv_of_nil hsound Slist.Models.empty
    (fun _ ↦ Nat.two_pow_pos 31) List.nodup_nil (fun q hq ↦ by cases hq) rfl rfl (fun _ ↦ rfl) rfl,
    hsound⟩, ⟨fun _ ↦ [], Slist.Models.empty, fun _ ↦ Nat.two_pow_pos 31, List.nodup_nil, ?_⟩,
    ?_, ?_⟩
  · intro w
    simp [newThread, CoroutineTask.initial]
  · intro w c hread
    cases hread
  · intro v x hread
    cases hread

theorem Ready.freeParked (h : s.Ready) : s.FreeParked := by
  obtain ⟨⟨W, L, running, waiting, hinv, hsound⟩, ⟨W₀, hmodels₀, -, -, hmem⟩, -, -⟩ := h
  intro w hw
  obtain ⟨-, e, he, rfl, hpoint⟩ := (hinv.wrapped.free_iff w).mp hw
  obtain ⟨task, hread⟩ := hinv.wrapped.wrapper e he
  obtain ⟨status, hobj⟩ := hsound.slots.object e he
  exact ⟨_, e.co, _, W₀, hread, hmodels₀, (hmem e.data).mpr ⟨_, hread⟩,
    hsound.slots.slot_of_mem he, hobj, hpoint⟩

theorem Ready.taskStep (h : s.Ready) {c : TaskCall G P} (hcan : s.CanRestart (.task c))
    (hstep : s.taskStep c = some s') : s'.Ready := by
  cases c with
  | addTask func p => exact h.addTask hstep
  | doTask => exact h.doTask hstep
  | doTaskOf func p => exact h.doTaskOf hstep
  | resume coId => exact h.resume hstep
  | bodyYield =>
      obtain ⟨co, hco, -⟩ := hcan
      exact h.bodyYield hco hstep
  | bodyReturn =>
      obtain ⟨co, hco, -⟩ := hcan
      exact h.bodyReturn hco hstep

theorem Ready.restartStep (h : s.Ready) {c : RestartCall G P} (hcan : s.CanRestart c)
    (hcond : s.NoneFree c) (hstep : s.restartStep c = some s') : s'.Ready := by
  cases c with
  | task c => exact h.taskStep hcan hstep
  | initEnv =>
      cases hstep
      exact h.initEnv
  | close =>
      obtain ⟨u, hu, -, -, hready⟩ := h.close_spec hcan
      have hstep' : s.close = some s' := hstep
      rw [hu] at hstep'
      cases hstep'
      exact hready hcond
  | clrTask =>
      have hstep' : s.clrTask = some s' := hstep
      cases hcurco : s.sched.curco with
      | some co =>
          unfold clrTask at hstep'
          rw [hcurco] at hstep'
          cases hstep'
          exact h
      | none =>
          obtain ⟨u, hu, -, -, hready⟩ := h.clrTask_spec hcurco
          rw [hu] at hstep'
          cases hstep'
          exact hready (hcond hcurco)

/-- A wrapper that is in `gfreecovec` when the thread is torn down is left there. -/
theorem Ready.noneFree_of_freeParked (h : s.Ready) {c : RestartCall G P} (hcan : s.CanRestart c)
    (hkept : ∀ s', s.restartStep c = some s' → s'.FreeParked) : s.NoneFree c := by
  cases c with
  | task c => trivial
  | initEnv => trivial
  | close =>
      obtain ⟨u, hu, hfree, hnot, -⟩ := h.close_spec hcan
      change s.freeco = []
      rw [List.eq_nil_iff_forall_not_mem]
      intro w hw
      exact hnot w hw (hkept u hu w (by rw [hfree]; exact hw))
  | clrTask =>
      intro hcurco
      obtain ⟨u, hu, hfree, hgone, -⟩ := h.clrTask_spec hcurco
      rw [List.eq_nil_iff_forall_not_mem]
      intro w hw
      obtain ⟨wrapper, co, c, W, hread, -⟩ := hkept u hu w (by rw [hfree]; exact hw)
      rw [hgone w hw] at hread
      cases hread

/-- Every wrapper in `gfreecovec` is allocated and listed, with a live and parked coroutine, in
all states of a run exactly if `clrTask` and `close` never find a wrapper there. -/
theorem freeParked_iff {calls : List (RestartCall G P)}
    (hcalls : (restartSystem G P).Allowed System.anyStep newThread calls) :
    (∀ bs, bs <+: calls → ∀ s', (restartSystem G P).run newThread bs = some s' → s'.FreeParked) ↔
      (restartSystem G P).Allowed NoneFree newThread calls := by
  refine System.reached_iff_allowed (I := Ready) ?_ ?_ ready_newThread
    ready_newThread.freeParked hcalls
  · intro s c s' hs _ hcan hstep hkept
    refine hs.restartStep hcan ?_ hstep
    refine hs.noneFree_of_freeParked hcan ?_
    intro u hu
    have hstep' : s.restartStep c = some s' := hstep
    rw [hu] at hstep'
    cases hstep'
    exact hkept
  · intro s c hs _ hcan
    constructor
    · exact hs.noneFree_of_freeParked hcan
    · intro hcond s' hstep
      exact (hs.restartStep hcan hcond hstep).freeParked

/-- One task is run, and its coroutine parks. -/
def parkCalls : List (RestartCall ℕ ℕ) :=
  [.initEnv, .task (.addTask 7 1), .task .doTask, .task .bodyYield, .task (.resume 0),
    .task .bodyReturn, .task .doTask]

theorem freeParked_iff_parkCalls :
    (∀ bs, bs <+: parkCalls → ∀ s', (restartSystem ℕ ℕ).run newThread bs = some s' →
      s'.FreeParked) ∧ (restartSystem ℕ ℕ).Allowed NoneFree newThread parkCalls :=
  ⟨(freeParked_iff (by decide +kernel)).mpr (by decide +kernel), by decide +kernel⟩

/-- The run loop ends after the task of `parkCalls`, and `CoRun` calls `clrTask`. -/
def tearCalls : List (RestartCall ℕ ℕ) := parkCalls ++ [.clrTask]

theorem freed_wrapper_in_freeco :
    (restartSystem ℕ ℕ).Allowed System.anyStep newThread tearCalls ∧
      ¬ ∀ bs, bs <+: tearCalls → ∀ s',
        (restartSystem ℕ ℕ).run newThread bs = some s' → s'.FreeParked := by
  refine ⟨by decide +kernel, ?_⟩
  intro hkept
  have hrun : ((restartSystem ℕ ℕ).run newThread tearCalls).map
      (fun s ↦ (s.freeco, (s.wrappers.read 0).isNone)) = some ([0], true) := by
    decide +kernel
  obtain ⟨s, hs, heq⟩ := Option.map_eq_some_iff.mp hrun
  rw [Prod.mk.injEq] at heq
  obtain ⟨wrapper, co, c, W, hread, -⟩ :=
    hkept _ (List.prefix_refl _) s hs 0 (by rw [heq.1]; exact List.mem_singleton_self 0)
  rw [hread] at heq
  exact Bool.noConfusion heq.2

end CoroutineTask

end Coroutine

end Slience
