import Slience.Coroutine.TaskRestart

/-!
# Wrappers and variables

What the calls of a thread do to `gallcolist`, the wrappers and the variables of `doTask`, whether
or not there is an environment: only a new wrapper changes the list, and a coroutine that is
switched to leaves list and wrappers alone as long as no wrapper has a null task pointer.
-/

namespace Slience

namespace Coroutine

variable {G P : Type}

namespace CoroutineTask

/-- The wrappers that are allocated are those in `gallcolist`. -/
def Listed (s : CoroutineTask G P) : Prop :=
  ∃ W, Slist.Models s.nodes s.lists W ∧ (∀ l, (W l).length < 2 ^ 31) ∧ (W .all).Nodup ∧
    ∀ w, w ∈ W .all ↔ ∃ c, s.wrappers.read w = some c

def Pointed (s : CoroutineTask G P) : Prop := ∀ w c, s.wrappers.read w = some c → c.task ≠ none

/-- The only variable is that of the `doTask` that waits. -/
def Owned (s : CoroutineTask G P) : Prop := ∀ v x, s.vars.read v = some x → s.frame = some v

variable {s s' : CoroutineTask G P} {W : TaskList → List ℕ} {L : List TaskCo}
  {running : Option ℤ} {waiting : List (CoTask G P)} {t : ℕ}

theorem Listed.congr (h : s.Listed) (hnodes : s'.nodes = s.nodes) (hlists : s'.lists = s.lists)
    (hwrappers : ∀ w, (∃ c, s'.wrappers.read w = some c) ↔ ∃ c, s.wrappers.read w = some c) :
    s'.Listed := by
  obtain ⟨W, hmodels, hsmall, hnodup, hmem⟩ := h
  refine ⟨W, by rw [hnodes, hlists]; exact hmodels, hsmall, hnodup, ?_⟩
  intro w
  rw [hmem, hwrappers]

/-- A new variable of a `doTask` changes no list. -/
theorem Listed.allocVar (h : s.Listed) (var : Option ℕ) :
    Listed { s with vars := s.vars.alloc var } :=
  h.congr rfl rfl fun _ ↦ Iff.rfl

theorem Listed.relist (h : s.Listed) {nodes : Heap (Node ℕ)} {lists : TaskList → Slist}
    {W' : TaskList → List ℕ} (hmodels : Slist.Models s.nodes s.lists W)
    (hmodels' : Slist.Models nodes lists W') (hsmall : ∀ l, (W' l).length < 2 ^ 31)
    (hall : W' .all = W .all) : Listed { s with nodes := nodes, lists := lists } := by
  obtain ⟨W₀, hmodels₀, -, hnodup, hmem⟩ := h
  obtain rfl := hmodels.unique hmodels₀
  refine ⟨W', hmodels', hsmall, ?_, ?_⟩
  · rw [hall]
    exact hnodup
  · rw [hall]
    exact hmem

/-- The environment that an idle thread would get changes nothing for a thread that has one. -/
theorem initEnv_of_env (h : s.sched.co ≠ none) : s.initEnv = s := by
  cases hco : s.sched.co with
  | none => exact absurd hco h
  | some t =>
      unfold initEnv Schedule.initEnv
      rw [hco]

/-! ## Calls that leave the lists and the wrappers alone -/

structure Quiet (s s' : CoroutineTask G P) : Prop where
  nodes : s'.nodes = s.nodes
  lists : s'.lists = s.lists
  wrappers : s'.wrappers = s.wrappers

theorem Quiet.listed (h : s.Quiet s') (hs : s.Listed) : s'.Listed :=
  hs.congr h.nodes h.lists fun w ↦ by rw [h.wrappers]

theorem Quiet.pointed (h : s.Quiet s') (hs : s.Pointed) : s'.Pointed := by
  intro w c hread
  rw [h.wrappers] at hread
  exact hs w c hread

theorem returned_quiet (h : s.returned = some s') : s.Quiet s' ∧ (s.Owned → s'.Owned) := by
  unfold returned at h
  cases hframe : s.frame with
  | none =>
      rw [hframe] at h
      cases h
      exact ⟨⟨rfl, rfl, rfl⟩, id⟩
  | some var =>
      rw [hframe] at h
      obtain ⟨vars, hfree, heq⟩ := Option.bind_eq_some_iff.mp h
      cases heq
      refine ⟨⟨rfl, rfl, rfl⟩, ?_⟩
      intro howned v x hread
      obtain ⟨y, hy⟩ := Heap.read_of_free hfree
      obtain ⟨vars', hfree', hgone, hother⟩ := Heap.free_spec hy
      rw [hfree] at hfree'
      cases hfree'
      by_cases hv : v = var
      · rw [hv] at hread
        have hread' : vars.read var = some x := hread
        rw [hgone] at hread'
        cases hread'
      · have hread' : vars.read v = some x := hread
        rw [hother v hv] at hread'
        have hwaits := howned v x hread'
        rw [hframe] at hwaits
        exact absurd (Option.some.inj hwaits).symm hv

theorem yieldAt_quiet {co : ℕ} {point : CoPoint} (h : s.yieldAt co point = some s') :
    s.Quiet s' ∧ (s.Owned → s'.Owned) := by
  obtain ⟨sched, -, hreturned⟩ := Option.bind_eq_some_iff.mp h
  obtain ⟨hquiet, howned⟩ := returned_quiet hreturned
  exact ⟨⟨hquiet.nodes, hquiet.lists, hquiet.wrappers⟩, howned⟩

theorem park_quiet {co w : ℕ} (h : s.park co w = some s') :
    s.Quiet s' ∧ (s.Owned → s'.Owned) := by
  obtain ⟨hquiet, howned⟩ := yieldAt_quiet h
  exact ⟨⟨hquiet.nodes, hquiet.lists, hquiet.wrappers⟩, howned⟩

theorem loop_quiet {co w : ℕ} (hpointed : s.Pointed) (h : s.loop co w = some s') :
    s.Quiet s' ∧ (s.Owned → s'.Owned) := by
  obtain ⟨c, hread, h⟩ := Option.bind_eq_some_iff.mp h
  cases htask : c.task with
  | none => exact absurd htask (hpointed w c hread)
  | some var =>
      rw [htask] at h
      obtain ⟨x, -, h⟩ := Option.bind_eq_some_iff.mp h
      cases x with
      | none => exact park_quiet h
      | some task =>
          obtain ⟨t, -, heq⟩ := Option.bind_eq_some_iff.mp h
          cases heq
          exact ⟨⟨rfl, rfl, rfl⟩, id⟩

theorem proceed_quiet {co : ℕ} (hpointed : s.Pointed) (h : s.proceed co = some s') :
    s.Quiet s' ∧ (s.Owned → s'.Owned) := by
  unfold proceed at h
  split at h
  · obtain ⟨c, -, h⟩ := Option.bind_eq_some_iff.mp h
    exact loop_quiet hpointed h
  · cases h
    exact ⟨⟨rfl, rfl, rfl⟩, id⟩
  · exact loop_quiet hpointed h

/-- A coroutine is switched to by the scheduler, when no variables are left but `frame`. -/
theorem resume_quiet {coId : ℤ} {frame : Option ℕ} (hpointed : s.Pointed)
    (hidle : s.sched.curco = none) (hvars : ∀ v x, s.vars.read v = some x → frame = some v)
    (h : s.resume coId frame = some s') : s.Quiet s' ∧ s'.Owned := by
  obtain ⟨sched, -, h⟩ := Option.bind_eq_some_iff.mp h
  rw [hidle] at h
  cases hcurco : sched.curco with
  | none =>
      rw [hcurco] at h
      obtain ⟨hquiet, howned⟩ := returned_quiet h
      exact ⟨⟨hquiet.nodes, hquiet.lists, hquiet.wrappers⟩, howned hvars⟩
  | some co =>
      rw [hcurco] at h
      obtain ⟨hquiet, howned⟩ := proceed_quiet
        (s := { s with sched := sched, frame := frame }) hpointed h
      exact ⟨⟨hquiet.nodes, hquiet.lists, hquiet.wrappers⟩, howned hvars⟩

/-! ## A wrapper is handed out -/

theorem setVar_inv {w : ℕ} {var : Option ℕ} (h : s.setVar w var = some s') :
    ∃ c wrappers, s.wrappers.read w = some c ∧ s' = { s with wrappers := wrappers } ∧
      wrappers.read w = some { c with task := var } ∧
      ∀ q, q ≠ w → wrappers.read q = s.wrappers.read q := by
  obtain ⟨c, hread, h⟩ := Option.bind_eq_some_iff.mp h
  obtain ⟨wrappers, hwrite, heq⟩ := Option.bind_eq_some_iff.mp h
  cases heq
  obtain ⟨wrappers', hwrite', hself, hother⟩ := Heap.write_spec { c with task := var } hread
  rw [hwrite] at hwrite'
  cases hwrite'
  exact ⟨c, wrappers, hread, rfl, hself, hother⟩

theorem setVar_listed {w : ℕ} {var : Option ℕ} (hs : s.Listed) (h : s.setVar w var = some s') :
    s'.Listed := by
  obtain ⟨c, wrappers, hread, rfl, hself, hother⟩ := setVar_inv h
  refine hs.congr rfl rfl ?_
  intro q
  by_cases hq : q = w
  · subst hq
    exact ⟨fun _ ↦ ⟨c, hread⟩, fun _ ↦ ⟨_, hself⟩⟩
  · dsimp only
    rw [hother q hq]

theorem newWrapper_listed {w : ℕ} (hs : s.Listed) (h : s.newWrapper = some (s', w)) :
    s'.Listed ∧ s'.vars = s.vars ∧ ∀ q, q ≠ w → s'.wrappers.read q = s.wrappers.read q := by
  obtain ⟨⟨sched, id⟩, -, h⟩ := Option.bind_eq_some_iff.mp h
  obtain ⟨s₁, hpush, heq⟩ := Option.bind_eq_some_iff.mp h
  cases heq
  obtain ⟨⟨l, nodes⟩, hpush', heq⟩ := Option.bind_eq_some_iff.mp hpush
  cases heq
  obtain ⟨W, hmodels, hsmall, hnodup, hmem⟩ := hs
  obtain ⟨hroom, hmodels'⟩ := hmodels.of_pushBack hpush'
  have hnew : s.wrappers.fresh ∉ W .all := by
    rw [hmem]
    rintro ⟨c, hc⟩
    rw [Heap.read_fresh] at hc
    cases hc
  refine ⟨⟨_, hmodels', ?_, ?_, ?_⟩, rfl, fun q hq ↦ Heap.read_alloc_of_ne _ hq⟩
  · intro k
    by_cases hk : k = .all
    · subst hk
      rw [Function.update_self, List.length_append]
      exact hroom
    · rw [Function.update_of_ne hk]
      exact hsmall k
  · rw [Function.update_self, List.nodup_append]
    refine ⟨hnodup, List.nodup_singleton _, ?_⟩
    intro q hq q' hq' heq
    rw [List.mem_singleton] at hq'
    exact hnew (by rw [← hq', ← heq]; exact hq)
  · intro q
    rw [Function.update_self, List.mem_append, List.mem_singleton, hmem]
    by_cases hq : q = s.wrappers.fresh
    · subst hq
      exact ⟨fun _ ↦ ⟨_, Heap.read_alloc_fresh ..⟩, fun _ ↦ Or.inr rfl⟩
    · dsimp only
      rw [Heap.read_alloc_of_ne _ hq]
      exact or_iff_left hq

/-- The wrapper comes from the end of `gfreecovec` or is new. -/
theorem getCoTaskWrapper_inv {w : ℕ} (h : s.getCoTaskWrapper = some (s', w)) :
    ∃ s₁, s₁.setVar w none = some s' ∧
      ((s.freeco.getLast? = some w ∧ s₁ = { s with freeco := s.freeco.dropLast }) ∨
        (s.freeco.getLast? = none ∧ s.newWrapper = some (s₁, w))) := by
  unfold getCoTaskWrapper at h
  cases hlast : s.freeco.getLast? with
  | some w' =>
      rw [hlast] at h
      obtain ⟨⟨s₁, w₁⟩, hfirst, h⟩ := Option.bind_eq_some_iff.mp h
      obtain ⟨s₂, hset, heq⟩ := Option.bind_eq_some_iff.mp h
      cases hfirst
      cases heq
      exact ⟨_, hset, Or.inl ⟨rfl, rfl⟩⟩
  | none =>
      rw [hlast] at h
      obtain ⟨⟨s₁, w₁⟩, hnew, h⟩ := Option.bind_eq_some_iff.mp h
      obtain ⟨s₂, hset, heq⟩ := Option.bind_eq_some_iff.mp h
      cases heq
      exact ⟨s₁, hset, Or.inr ⟨rfl, hnew⟩⟩

theorem getCoTaskWrapper_listed {w : ℕ} (hs : s.Listed)
    (h : s.getCoTaskWrapper = some (s', w)) :
    s'.Listed ∧ s'.vars = s.vars ∧ ∀ q, q ≠ w → s'.wrappers.read q = s.wrappers.read q := by
  obtain ⟨s₁, hset, hfrom⟩ := getCoTaskWrapper_inv h
  have h₁ : s₁.Listed ∧ s₁.vars = s.vars ∧
      ∀ q, q ≠ w → s₁.wrappers.read q = s.wrappers.read q := by
    rcases hfrom with ⟨-, rfl⟩ | ⟨-, hnew⟩
    · exact ⟨hs.congr rfl rfl fun _ ↦ Iff.rfl, rfl, fun _ _ ↦ rfl⟩
    · exact newWrapper_listed hs hnew
  have hlisted := setVar_listed h₁.1 hset
  obtain ⟨c, wrappers, -, rfl, -, hother⟩ := setVar_inv hset
  exact ⟨hlisted, h₁.2.1, fun q hq ↦ (hother q hq).trans (h₁.2.2 q hq)⟩

/-- What `doTask` does with its task, in four parts. -/
theorem launch_inv (h : s.launch t = some s') :
    ∃ s₁ w s₂ c, s.getCoTaskWrapper = some (s₁, w) ∧
      { s₁ with vars := s₁.vars.alloc (some t) }.setVar w (some s₁.vars.fresh) = some s₂ ∧
      s₂.wrappers.read w = some c ∧ s₂.resume c.coId (some s₁.vars.fresh) = some s' := by
  obtain ⟨⟨s₁, w⟩, hget, h⟩ := Option.bind_eq_some_iff.mp h
  obtain ⟨s₂, hset, h⟩ := Option.bind_eq_some_iff.mp h
  obtain ⟨c, hread, h⟩ := Option.bind_eq_some_iff.mp h
  exact ⟨s₁, w, s₂, c, hget, hset, hread, h⟩

theorem launch_rest (hlisted : s.Listed) (hpointed : s.Pointed)
    (hvars : ∀ v, s.vars.read v = none)
    (hidle : ∀ s₁ w, s.getCoTaskWrapper = some (s₁, w) → s₁.sched.curco = none)
    (h : s.launch t = some s') : s'.Listed ∧ s'.Pointed ∧ s'.Owned := by
  obtain ⟨s₁, w, s₂, c, hget, hset, -, hresume⟩ := launch_inv h
  obtain ⟨hlisted₁, hvars₁, hother₁⟩ := getCoTaskWrapper_listed hlisted hget
  have hlisted₂ : s₂.Listed :=
    setVar_listed (hlisted₁.allocVar (some t)) hset
  obtain ⟨c', wrappers, -, rfl, hself, hother⟩ := setVar_inv hset
  have hpointed₂ : Pointed { s₁ with
      vars := s₁.vars.alloc (some t), wrappers := wrappers } := by
    intro q c hread
    have hread' : wrappers.read q = some c := hread
    by_cases hq : q = w
    · rw [hq, hself] at hread'
      cases hread'
      exact Option.some_ne_none _
    · rw [hother q hq] at hread'
      have hread'' : s₁.wrappers.read q = some c := hread'
      rw [hother₁ q hq] at hread''
      exact hpointed q c hread''
  have hvars₂ : ∀ v x, (s₁.vars.alloc (some t)).read v = some x → some s₁.vars.fresh = some v := by
    intro v x hread
    by_contra hne
    rw [Heap.read_alloc_of_ne _ (fun heq ↦ hne (congrArg some heq.symm)), hvars₁, hvars] at hread
    cases hread
  obtain ⟨hquiet, howned⟩ := resume_quiet hpointed₂ (hidle s₁ w hget) hvars₂ hresume
  exact ⟨hquiet.listed hlisted₂, hquiet.pointed hpointed₂, howned⟩

/-- Without an environment the new wrapper has the id -1, and nothing is resumed. -/
theorem launch_no_env (hco : s.sched.co = none) (hcurco : s.sched.curco = none)
    (hfree : s.freeco = []) (hframe : s.frame = none) (h : s.launch t = some s') :
    ∃ l nodes wrappers vars, (s.lists .all).pushBack s.nodes s.wrappers.fresh = some (l, nodes) ∧
      s' = { s with
        wrappers := wrappers, vars := vars, nodes := nodes,
        lists := Function.update s.lists .all l } := by
  obtain ⟨s₁, w, s₂, c, hget, hset, hread, hresume⟩ := launch_inv h
  obtain ⟨s₀, hset₁, ⟨hlast, -⟩ | ⟨-, hnew⟩⟩ := getCoTaskWrapper_inv hget
  · rw [hfree] at hlast
    cases hlast
  obtain ⟨⟨sched, id⟩, hcreate, hfirst⟩ := Option.bind_eq_some_iff.mp hnew
  have hcreate' : s.sched.create .coTaskFunc s.wrappers.fresh = some (s.sched, -1) := by
    unfold Schedule.create
    rw [hco]
  rw [hcreate'] at hcreate
  cases hcreate
  obtain ⟨s₀', hpush', heq⟩ := Option.bind_eq_some_iff.mp hfirst
  cases heq
  obtain ⟨⟨l, nodes⟩, hpush, heq⟩ := Option.bind_eq_some_iff.mp hpush'
  cases heq
  obtain ⟨c₁, wrappers₁, hread₁, rfl, hself₁, -⟩ := setVar_inv hset₁
  obtain ⟨c₂, wrappers₂, hread₂, rfl, hself₂, -⟩ := setVar_inv hset
  have hid : c.coId = -1 := by
    have h₁ : (s.wrappers.alloc ⟨-1, none⟩).read s.wrappers.fresh = some c₁ := hread₁
    have h₂ : wrappers₁.read s.wrappers.fresh = some c₂ := hread₂
    have h₃ : wrappers₂.read s.wrappers.fresh = some c := hread
    rw [Heap.read_alloc_fresh] at h₁
    cases h₁
    rw [hself₁] at h₂
    cases h₂
    rw [hself₂] at h₃
    cases h₃
    rfl
  obtain ⟨sched, hsched, hresume⟩ := Option.bind_eq_some_iff.mp hresume
  have hsame : s.sched.resume (-1) = some s.sched := by
    unfold Schedule.resume
    rw [hcurco]
    exact if_pos (Or.inl (by decide))
  rw [hid] at hsched
  rw [show s.sched.resume (-1) = some sched from hsched] at hsame
  cases hsame
  dsimp only at hresume
  rw [hcurco] at hresume
  obtain ⟨vars, -, heq⟩ := Option.bind_eq_some_iff.mp hresume
  cases heq
  refine ⟨l, nodes, wrappers₂, vars, hpush, ?_⟩
  rw [← hframe]

end CoroutineTask

end Coroutine

end Slience
