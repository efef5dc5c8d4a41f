import Slience.Socket.CloseQueue

/-!
# The loop that serves the requests

What each step of `_DoClose` does to the queue of requests, and from this what holds after
any interleaving with calls of `Close`: nothing goes wrong, the requests are served in the order
they were queued, and whatever is queued now is served when the loop goes on.
-/

namespace Slience

namespace Epoll

namespace Closer

variable {S : Set ℕ} {fd : ℕ → ℕ} {s s' : Closer} {W : CloseList → List ℕ}
  {done first second : List CloseRequest}

/-! ## The steps of `_DoClose` -/

theorem Queued.setPhase (h : s.Queued S fd W done first second) {phase : ClosePhase}
    (hold : ∀ rs, current s.phase rs = [] ∧ currentTrace fd s.phase rs = [])
    (hnew : ∀ rs, current phase rs = [] ∧ currentTrace fd phase rs = [])
    (hphase : PhaseOk W phase) :
    Queued S fd { s with phase := phase } W done first second := by
  obtain ⟨⟨hmodels, hnodup, hlive, hfew, hfirst, hsecond, -⟩, hasked, hmarked, henqueued,
    hlog⟩ := h
  rw [(hold first).1] at hmarked
  rw [(hold first).2] at hlog
  refine ⟨⟨hmodels, hnodup, hlive, hfew, hfirst, hsecond, hphase⟩,
    ⟨hasked.nodup, hasked.mem_iff, hasked.mem_set⟩, ?_, henqueued, ?_⟩
  · dsimp only
    rw [(hnew first).1]
    exact ⟨hmarked.fresh, hmarked.waiting, hmarked.closed⟩
  · dsimp only
    rw [(hnew first).2]
    exact hlog

theorem Queued.first_eq_nil (h : s.Queued S fd W done first second) (hW : W .local1 = []) :
    first = [] := by
  have hfirst := h.stored.first_asks
  rw [hW] at hfirst
  cases hfirst
  rfl

theorem Queued.first_cons (h : s.Queued S fd W done first second) {cls : ℕ} {rest : List ℕ}
    (hW : W .local1 = cls :: rest) :
    ∃ r rs, first = r :: rs ∧ s.objs.read cls = some ⟨some r.sock, r.handler⟩ ∧
      List.Forall₂ (Asks s.objs) rest rs := by
  have hfirst := h.stored.first_asks
  rw [hW] at hfirst
  cases hfirst with
  | cons hask hrest => exact ⟨_, _, rfl, hask, hrest⟩

theorem Queued.idle_step (h : s.Queued S fd W done first second) (hphase : s.phase = .idle) :
    ∃ s', s.doClose = some s' ∧ s'.Queued S fd W done first second ∧
      (s'.phase = .swapping ∨ s'.phase = .draining ∧ second = []) := by
  have hcount := h.stored.models.count_eq .closereqs
  have hlocal := h.stored.phase_ok
  have hold : ∀ rs, current s.phase rs = [] ∧ currentTrace fd s.phase rs = [] := by
    intro rs
    rw [hphase]
    exact ⟨rfl, rfl⟩
  rw [hphase] at hlocal
  unfold doClose
  rw [hphase]
  dsimp only
  split
  · exact ⟨_, rfl, h.setPhase hold (fun _ ↦ ⟨rfl, rfl⟩) hlocal, Or.inl rfl⟩
  · rename_i hzero
    refine ⟨_, rfl, h.setPhase hold (fun _ ↦ ⟨rfl, rfl⟩) trivial, Or.inr ⟨rfl, ?_⟩⟩
    have hW : W .closereqs = [] := by
      apply List.eq_nil_of_length_eq_zero
      omega
    have hsecond := h.stored.second_asks
    rw [hW] at hsecond
    cases hsecond
    rfl

theorem Queued.swap_step (h : s.Queued S fd W done first second) (hphase : s.phase = .swapping) :
    ∃ s', s.doClose = some s' ∧ s'.Queued S fd (W ∘ swapNames) done second [] ∧
      s'.phase = .draining ∧ first = [] := by
  have hlocal := h.stored.phase_ok
  rw [hphase] at hlocal
  have hnil := h.first_eq_nil hlocal.1
  subst hnil
  obtain ⟨⟨hmodels, hnodup, hlive, hfew, hfirst, hsecond, -⟩, hasked, hmarked, henqueued,
    hlog⟩ := h
  rw [hphase] at hmarked hlog
  have hlocal1 : (W ∘ swapNames) .local1 = W .closereqs := rfl
  have hclosereqs : (W ∘ swapNames) .closereqs = [] := hlocal.1
  have hperm : (objects (W ∘ swapNames)).Perm (objects W) := by
    have hsplit : objects (W ∘ swapNames) =
        W .local1 ++ W .closereqs2 ++ W .closereqs ++ W .local2 := rfl
    rw [hsplit, objects, hlocal.1, hlocal.2]
    simpa using List.perm_append_comm
  refine ⟨{ s with lists := s.lists ∘ swapNames, phase := .draining }, ?_, ⟨⟨?_, ?_, ?_, ?_, ?_, ?_,
    trivial⟩, ⟨hasked.nodup, hasked.mem_iff, hasked.mem_set⟩,
    ⟨hmarked.fresh, hmarked.waiting, hmarked.closed⟩, ?_, hlog⟩, rfl, rfl⟩
  · unfold doClose
    rw [hphase]
  · exact hmodels.swap swapNames
  · exact hperm.nodup_iff.mpr hnodup
  · intro o
    rw [hperm.mem_iff]
    exact hlive o
  · rw [hperm.length_eq]
    exact hfew
  · rw [hlocal1]
    exact hsecond
  · rw [hclosereqs]
    exact .nil
  · dsimp only
    rw [henqueued]
    simp

theorem Asked.eq_of_sock (h : s.Asked S) {r r' : CloseRequest} (hr : r ∈ s.requests)
    (hr' : r' ∈ s.requests) (heq : r.sock = r'.sock) : r = r' :=
  List.inj_on_of_nodup_map h.nodup hr hr' heq

theorem Marked.closeSocket {closed : List CloseRequest} (h : s.Marked S fd closed)
    (hasked : s.Asked S) {r : CloseRequest} (hr : r ∈ s.requests) (phase : ClosePhase) :
    Marked S fd { s.closeSocket r.sock with phase := phase } (closed ++ [r]) := by
  have hsocks {i : ℕ} (hne : i ≠ r.sock) :
      (s.closeSocket r.sock).socks i = s.socks i := Function.update_of_ne hne ..
  have hself : (s.closeSocket r.sock).socks r.sock =
      { s.socks r.sock with fd := none, state := ∅ } := Function.update_self ..
  refine ⟨?_, ?_, ?_⟩ <;> dsimp only
  · intro i hi hnew
    have hne : i ≠ r.sock := by
      rintro rfl
      exact hnew (List.mem_map_of_mem hr)
    rw [hsocks hne]
    exact h.fresh i hi hnew
  · intro r' hr' hopen
    rw [List.mem_append, List.mem_singleton, not_or] at hopen
    rw [hsocks fun heq ↦ hopen.2 (hasked.eq_of_sock hr' hr heq)]
    exact h.waiting r' hr' hopen.1
  · intro r' hr'
    by_cases heq : r'.sock = r.sock
    · rw [heq, hself]
      exact ⟨rfl, rfl⟩
    · rw [hsocks heq]
      rw [List.mem_append, List.mem_singleton] at hr'
      rcases hr' with hr' | rfl
      · exact h.closed r' hr'
      · exact absurd rfl heq

theorem Queued.nodup_enqueued (h : s.Queued S fd W done first second) :
    (done ++ (first ++ second)).Nodup := by
  have hnodup := h.asked.nodup.of_map
  rw [requests, List.nodup_append', h.enqueued_eq] at hnodup
  exact hnodup.2.1

theorem Queued.drain_step (h : s.Queued S fd W done first second) (hphase : s.phase = .draining)
    {r : CloseRequest} {rs : List CloseRequest} (hfirst : first = r :: rs) :
    ∃ s' cls, s.doClose = some s' ∧ s'.Queued S fd W done first second ∧
      s'.phase = .calling cls := by
  have hnodup := h.nodup_enqueued
  have hasks := h.stored.first_asks
  have hcount := h.stored.models.count_eq .local1
  cases hW : W .local1 with
  | nil =>
      rw [hW, hfirst] at hasks
      cases hasks
  | cons cls rest =>
      obtain ⟨r', rs', hfirst', hread, -⟩ := h.first_cons hW
      cases hfirst.symm.trans hfirst'
      have hmem : r ∈ s.requests := by
        rw [requests, List.mem_append, h.enqueued_eq, hfirst]
        simp
      have hopen : r ∉ done := by
        intro hdone
        rw [hfirst, List.nodup_append'] at hnodup
        exact hnodup.2.2 hdone (by simp)
      have hfront := h.stored.models.front_eq hW
      obtain ⟨hstored, hasked, hmarked, henqueued, hlog⟩ := h
      rw [hphase] at hmarked hlog
      rw [show current .draining first = [] from rfl, List.append_nil] at hmarked
      have hfd := (hmarked.waiting r hmem hopen).1
      refine ⟨{ s.closeSocket r.sock with phase := .calling cls }, cls, ?_,
        ⟨⟨hstored.models, hstored.nodup, hstored.live, hstored.few, hstored.first_asks,
          hstored.second_asks, ⟨rest, hW⟩⟩, ⟨hasked.nodup, hasked.mem_iff, hasked.mem_set⟩, ?_,
          henqueued, ?_⟩, rfl⟩
      · unfold doClose
        rw [hphase]
        dsimp only
        rw [if_pos (by rw [hcount, hW, List.length_cons]; omega), hfront]
        simp only [Option.bind_eq_bind, Option.bind_some, hread]
        rfl
      · have hcurrent : current (.calling cls) first = [r] := by
          rw [hfirst]
          rfl
        dsimp only
        rw [hcurrent]
        exact hmarked.closeSocket hasked hmem _
      · dsimp only [closeSocket]
        rw [hlog, hfd, hfirst]
        simp [currentTrace]

theorem Queued.drained_step (h : s.Queued S fd W done first second) (hphase : s.phase = .draining)
    (hfirst : first = []) :
    ∃ s', s.doClose = some s' ∧ s'.Queued S fd W done first second ∧ s'.phase = .finishing := by
  have hcount := h.stored.models.count_eq .local1
  have hasks := h.stored.first_asks
  have hW : W .local1 = [] := by
    rw [hfirst] at hasks
    cases hW : W .local1 with
    | nil => rfl
    | cons cls rest =>
        rw [hW] at hasks
        cases hasks
  refine ⟨{ s with phase := .finishing }, ?_, h.setPhase ?_ (fun _ ↦ ⟨rfl, rfl⟩) hW, rfl⟩
  · unfold doClose
    rw [hphase]
    dsimp only
    rw [if_neg (by rw [hcount, hW]; simp)]
  · intro rs
    rw [hphase]
    exact ⟨rfl, rfl⟩

theorem Queued.call_step (h : s.Queued S fd W done first second) {cls : ℕ}
    (hphase : s.phase = .calling cls) :
    ∃ s', s.doClose = some s' ∧ s'.Queued S fd W done first second ∧
      s'.phase = .returning cls := by
  have hlocal := h.stored.phase_ok
  rw [hphase] at hlocal
  obtain ⟨rest, hW⟩ := hlocal
  obtain ⟨r, rs, hfirst, hread, -⟩ := h.first_cons hW
  obtain ⟨hstored, hasked, hmarked, henqueued, hlog⟩ := h
  rw [hphase] at hmarked hlog
  refine ⟨{ s with
      log := s.log ++ r.handler.toList.map (.called r.sock)
      phase := .returning cls }, ?_,
    ⟨⟨hstored.models, hstored.nodup, hstored.live, hstored.few, hstored.first_asks,
      hstored.second_asks, ⟨rest, hW⟩⟩, ⟨hasked.nodup, hasked.mem_iff, hasked.mem_set⟩,
      ⟨hmarked.fresh, hmarked.waiting, hmarked.closed⟩, henqueued, ?_⟩, rfl⟩
  · unfold doClose
    rw [hphase]
    simp only [Option.bind_eq_bind, Option.bind_some, hread]
    rfl
  · dsimp only
    rw [hlog, hfirst]
    simp [currentTrace, trace]

theorem Queued.return_step (h : s.Queued S fd W done first second) {cls : ℕ}
    (hphase : s.phase = .returning cls) (hlen : s.enqueued.length < 2 ^ 31) :
    ∃ s' W' r rs, first = r :: rs ∧ s.doClose = some s' ∧
      s'.Queued S fd W' (done ++ [r]) rs second ∧ s'.phase = .draining := by
  have hlocal := h.stored.phase_ok
  rw [hphase] at hlocal
  obtain ⟨rest, hW⟩ := hlocal
  obtain ⟨r, rs, hfirst, hread, hrest⟩ := h.first_cons hW
  obtain ⟨⟨hmodels, hnodup, hlive, hfew, -, hsecond, -⟩, hasked, hmarked, henqueued, hlog⟩ := h
  rw [hphase, hfirst] at hmarked hlog
  have hsize : (W .closereqs).length + (W .closereqs2).length + (rest.length + 1) +
      (W .local2).length ≤ s.enqueued.length := by
    rw [objects, hW] at hfew
    simpa only [List.length_append, List.length_cons] using hfew
  obtain ⟨objs', hwrite, hcls, hothers⟩ := Heap.write_spec SocketClose.clear hread
  obtain ⟨l₂, nodes₂, hpush, hmodels₂⟩ := hmodels.pushBack .local2 cls (by omega)
  have hW₂ : Function.update W .local2 (W .local2 ++ [cls]) .local1 = cls :: rest := by
    rw [Function.update_of_ne (by decide), hW]
  obtain ⟨l₁, nodes₁, hpop, hmodels₁⟩ := hmodels₂.popFront hW₂ (by
    rw [hW₂, List.length_cons]
    omega)
  have hnodup' := hnodup
  rw [objects, hW, List.nodup_append', List.nodup_append'] at hnodup'
  obtain ⟨⟨-, hcons, hdisj⟩, -, -⟩ := hnodup'
  have hrestne : ∀ o ∈ rest, o ≠ cls := by
    rintro o ho rfl
    exact (List.nodup_cons.mp hcons).1 ho
  have hreqsne : ∀ o ∈ W .closereqs, o ≠ cls := by
    rintro o ho rfl
    exact hdisj (List.mem_append_left _ ho) List.mem_cons_self
  have hperm : (objects (Function.update (Function.update W .local2 (W .local2 ++ [cls]))
      .local1 rest)).Perm (objects W) := by
    have hsplit : objects (Function.update (Function.update W .local2 (W .local2 ++ [cls]))
        .local1 rest) = W .closereqs ++ W .closereqs2 ++ rest ++ (W .local2 ++ [cls]) := by
      simp [objects]
    rw [hsplit, objects, hW, ← List.append_assoc]
    refine List.perm_append_comm.trans ?_
    rw [List.singleton_append, List.append_assoc, List.append_assoc _ (cls :: rest)]
    exact List.perm_middle.symm
  refine ⟨{ s with
      objs := objs'
      lists := Function.update (Function.update s.lists .local2 l₂) .local1 l₁
      nodes := nodes₁
      phase := .draining }, _, r, rs, hfirst, ?_,
    ⟨⟨hmodels₁, ?_, ?_, ?_, ?_, ?_, trivial⟩, ⟨hasked.nodup, hasked.mem_iff, hasked.mem_set⟩, ?_,
      ?_, ?_⟩, rfl⟩
  · unfold doClose
    rw [hphase]
    have hlist : Function.update s.lists .local2 l₂ .local1 = s.lists .local1 :=
      Function.update_of_ne (by decide) ..
    rw [hlist] at hpop
    simp only [Option.bind_eq_bind, Option.bind_some, hwrite, pushClose, hpush, hlist, hpop,
      Option.pure_def]
  · exact hperm.nodup_iff.mpr hnodup
  · intro o
    rw [hperm.mem_iff, ← hlive]
    by_cases ho : o = cls
    · subst ho
      simp [hcls, hread]
    · rw [hothers o ho]
  · rw [hperm.length_eq]
    exact hfew
  · rw [Function.update_self]
    exact asks_of_read hrest fun o ho ↦ hothers o (hrestne o ho)
  · simp only [ne_eq, reduceCtorEq, not_false_eq_true, Function.update_of_ne]
    exact asks_of_read hsecond fun o ho ↦ hothers o (hreqsne o ho)
  · have hcurrent : done ++ [r] ++ current .draining rs = done ++ [r] := List.append_nil _
    dsimp only
    rw [hcurrent]
    exact ⟨hmarked.fresh, hmarked.waiting, hmarked.closed⟩
  · dsimp only
    rw [henqueued, hfirst]
    simp
  · dsimp only
    rw [hlog]
    simp [currentTrace, trace]

theorem Queued.finish_step (h : s.Queued S fd W done first second) (hphase : s.phase = .finishing)
    (hlen : s.enqueued.length < 2 ^ 31) :
    ∃ s' W', s.doClose = some s' ∧ s'.Queued S fd W' done first second ∧ s'.phase = .idle ∧
      first = [] := by
  have hlocal : W .local1 = [] := by
    have hlocal := h.stored.phase_ok
    rw [hphase] at hlocal
    exact hlocal
  have hnil := h.first_eq_nil hlocal
  have hcount := h.stored.models.count_eq
  have hsize : (W .closereqs2).length + (W .local2).length ≤ s.enqueued.length := by
    have hfew := h.stored.few
    simp only [objects, List.length_append] at hfew
    omega
  by_cases hW : W .local2 = []
  · refine ⟨{ s with phase := .idle }, W, ?_, h.setPhase ?_ (fun _ ↦ ⟨rfl, rfl⟩) ⟨hlocal, hW⟩, rfl,
      hnil⟩
    · have hzero₁ : (s.lists .local1).count = 0 := by rw [hcount, hlocal]; rfl
      have hzero₂ : (s.lists .local2).count = 0 := by rw [hcount, hW]; rfl
      unfold doClose
      rw [hphase]
      dsimp only
      rw [if_neg (not_not.mpr hzero₂)]
      simp only [Option.bind_eq_bind, Option.bind_some, hzero₁, hzero₂, and_self, if_true]
      rfl
    · intro rs
      rw [hphase]
      exact ⟨rfl, rfl⟩
  · obtain ⟨hstored, hasked, hmarked, henqueued, hlog⟩ := h
    rw [hphase] at hmarked hlog
    obtain ⟨l', nodes', hjoin, hmodels⟩ := hstored.models.join
      (show CloseList.closereqs2 ≠ .local2 by decide) hW (by omega)
    have hperm : (objects (Function.update (Function.update W .local2 []) .closereqs2
        (W .closereqs2 ++ W .local2))).Perm (objects W) := by
      have hsplit : objects (Function.update (Function.update W .local2 []) .closereqs2
          (W .closereqs2 ++ W .local2)) = objects W := by
        simp [objects, hlocal]
      rw [hsplit]
    refine ⟨{ s with
        lists := Function.update (Function.update s.lists .local2 Slist.empty) .closereqs2 l'
        nodes := nodes'
        phase := .idle }, _, ?_,
      ⟨⟨hmodels, ?_, ?_, ?_, ?_, ?_, ?_, ?_⟩, ⟨hasked.nodup, hasked.mem_iff, hasked.mem_set⟩,
        ⟨hmarked.fresh, hmarked.waiting, hmarked.closed⟩, henqueued, hlog⟩, rfl, hnil⟩
    · have hzero₁ : (s.lists .local1).count = 0 := by rw [hcount, hlocal]; rfl
      have hpos : (s.lists .local2).count ≠ 0 := by
        have := List.length_pos_of_ne_nil hW
        rw [hcount]
        omega
      have hlist₁ : Function.update (Function.update s.lists .local2 Slist.empty) .closereqs2 l'
          .local1 = s.lists .local1 := by
        rw [Function.update_of_ne (by decide), Function.update_of_ne (by decide)]
      have hlist₂ : Function.update (Function.update s.lists .local2 Slist.empty) .closereqs2 l'
          .local2 = Slist.empty := by
        rw [Function.update_of_ne (by decide), Function.update_self]
      have hempty : Slist.empty.count = 0 := rfl
      unfold doClose
      rw [hphase]
      dsimp only
      rw [if_pos hpos, hjoin]
      simp only [Option.bind_eq_bind, Option.bind_some, hlist₁, hlist₂, hzero₁, hempty, and_self,
        if_true]
      rfl
    · exact hperm.nodup_iff.mpr hstored.nodup
    · intro o
      rw [hperm.mem_iff]
      exact hstored.live o
    · rw [hperm.length_eq]
      exact hstored.few
    · simp only [ne_eq, reduceCtorEq, not_false_eq_true, Function.update_of_ne]
      exact hstored.first_asks
    · simp only [ne_eq, reduceCtorEq, not_false_eq_true, Function.update_of_ne]
      exact hstored.second_asks
    · simpa using hlocal
    · simp

/-! ## Going on to the end -/

/-- The loop thread gets from one state to the other by itself. -/
def Loops (S : Set ℕ) (s t : Closer) : Prop :=
  ∃ n, (system S).run s (List.replicate n .loop) = some t

theorem Loops.refl (s : Closer) : Loops S s s := ⟨0, rfl⟩

theorem Loops.head {t : Closer} (hstep : s.doClose = some s') (h : Loops S s' t) :
    Loops S s t := by
  obtain ⟨n, hrun⟩ := h
  refine ⟨n + 1, ?_⟩
  rw [List.replicate_succ, System.run_cons]
  have hfirst : (system S).step s .loop = some s' := hstep
  rw [hfirst]
  exact hrun

theorem Loops.trans {t : Closer} (h : Loops S s s') (h' : Loops S s' t) : Loops S s t := by
  obtain ⟨n, hrun⟩ := h
  obtain ⟨m, hrun'⟩ := h'
  refine ⟨n + m, ?_⟩
  rw [List.replicate_add, System.run_append, hrun]
  exact hrun'

theorem Queued.length_lt {s₀ : Closer} (hstart : s₀.Starts S fd)
    (h : s.Queued S fd W done first second) : s.requests.length < 2 ^ 31 := by
  have hlen := hstart.length_lt h.asked.nodup fun _ hi ↦ h.asked.mem_of_requests hi
  rwa [List.length_map] at hlen

theorem Queued.enqueued_lt {s₀ : Closer} (hstart : s₀.Starts S fd)
    (h : s.Queued S fd W done first second) : s.enqueued.length < 2 ^ 31 := by
  have hlen := h.length_lt hstart
  rw [requests, List.length_append] at hlen
  omega

theorem Queued.drain {s₀ : Closer} (hstart : s₀.Starts S fd)
    (h : s.Queued S fd W done first second) (hphase : s.phase = .draining) :
    ∃ t W', Loops S s t ∧ t.Queued S fd W' (done ++ first) [] second ∧ t.phase = .idle := by
  induction first generalizing s W done with
  | nil =>
      obtain ⟨s₁, hstep₁, h₁, hphase₁⟩ := h.drained_step hphase rfl
      obtain ⟨s₂, W₂, hstep₂, h₂, hphase₂, -⟩ := h₁.finish_step hphase₁ (h₁.enqueued_lt hstart)
      refine ⟨s₂, W₂, (Loops.refl s₂).head hstep₂ |>.head hstep₁, ?_, hphase₂⟩
      rw [List.append_nil]
      exact h₂
  | cons r rs ih =>
      obtain ⟨s₁, cls, hstep₁, h₁, hphase₁⟩ := h.drain_step hphase rfl
      obtain ⟨s₂, hstep₂, h₂, hphase₂⟩ := h₁.call_step hphase₁
      obtain ⟨s₃, W₃, r', rs', heq, hstep₃, h₃, hphase₃⟩ :=
        h₂.return_step hphase₂ (h₂.enqueued_lt hstart)
      cases heq
      obtain ⟨t, W', hloops, ht, hidle⟩ := ih h₃ hphase₃
      refine ⟨t, W', hloops.head hstep₃ |>.head hstep₂ |>.head hstep₁, ?_, hidle⟩
      rw [List.append_assoc] at ht
      exact ht

theorem Queued.iteration {s₀ : Closer} (hstart : s₀.Starts S fd)
    (h : s.Queued S fd W done first second) (hphase : s.phase = .idle) :
    ∃ t W', Loops S s t ∧ t.Queued S fd W' s.enqueued [] [] ∧ t.phase = .idle := by
  have hlocal := h.stored.phase_ok
  rw [hphase] at hlocal
  have hnil := h.first_eq_nil hlocal.1
  have henqueued := h.enqueued_eq
  rw [hnil, List.nil_append] at henqueued
  obtain ⟨s₁, hstep₁, h₁, hphase₁ | ⟨hphase₁, hsecond⟩⟩ := h.idle_step hphase
  · obtain ⟨s₂, hstep₂, h₂, hphase₂, -⟩ := h₁.swap_step hphase₁
    obtain ⟨t, W', hloops, ht, hidle⟩ := h₂.drain hstart hphase₂
    refine ⟨t, W', hloops.head hstep₂ |>.head hstep₁, ?_, hidle⟩
    rw [henqueued]
    exact ht
  · obtain ⟨t, W', hloops, ht, hidle⟩ := h₁.drain hstart hphase₁
    refine ⟨t, W', hloops.head hstep₁, ?_, hidle⟩
    rw [hnil, List.append_nil] at ht
    rw [henqueued, hsecond, List.append_nil]
    rw [hsecond] at ht
    exact ht

theorem Queued.drain_finishes {s₀ : Closer} (hstart : s₀.Starts S fd)
    (h : s.Queued S fd W done first second) (hphase : s.phase = .draining) :
    ∃ t W' done' second', Loops S s t ∧ t.Queued S fd W' done' [] second' ∧
      t.phase = .idle ∧ t.enqueued = s.enqueued := by
  obtain ⟨t, W', hloops, ht, hidle⟩ := h.drain hstart hphase
  refine ⟨t, W', done ++ first, second, hloops, ht, hidle, ?_⟩
  rw [ht.enqueued_eq, h.enqueued_eq, List.nil_append, List.append_assoc]

theorem Queued.return_finishes {s₀ : Closer} (hstart : s₀.Starts S fd)
    (h : s.Queued S fd W done first second) {cls : ℕ} (hphase : s.phase = .returning cls) :
    ∃ t W' done' second', Loops S s t ∧ t.Queued S fd W' done' [] second' ∧
      t.phase = .idle ∧ t.enqueued = s.enqueued := by
  obtain ⟨s₁, W₁, r, rs, hfirst, hstep, h₁, hphase₁⟩ :=
    h.return_step hphase (h.enqueued_lt hstart)
  obtain ⟨t, W', done', second', hloops, ht, hidle, heq⟩ := h₁.drain_finishes hstart hphase₁
  refine ⟨t, W', done', second', hloops.head hstep, ht, hidle, ?_⟩
  rw [heq, h₁.enqueued_eq, h.enqueued_eq, hfirst]
  simp

theorem Queued.finishes {s₀ : Closer} (hstart : s₀.Starts S fd)
    (h : s.Queued S fd W done first second) :
    ∃ t W' done' second', Loops S s t ∧ t.Queued S fd W' done' [] second' ∧
      t.phase = .idle ∧ t.enqueued = s.enqueued := by
  cases hphase : s.phase with
  | idle =>
      have hlocal := h.stored.phase_ok
      rw [hphase] at hlocal
      have hnil := h.first_eq_nil hlocal.1
      subst hnil
      exact ⟨s, W, done, second, Loops.refl s, h, hphase, rfl⟩
  | swapping =>
      obtain ⟨s₁, hstep, h₁, hphase₁, hnil⟩ := h.swap_step hphase
      obtain ⟨t, W', done', second', hloops, ht, hidle, heq⟩ := h₁.drain_finishes hstart hphase₁
      refine ⟨t, W', done', second', hloops.head hstep, ht, hidle, ?_⟩
      rw [heq, h₁.enqueued_eq, h.enqueued_eq, hnil]
      simp
  | draining => exact h.drain_finishes hstart hphase
  | calling cls =>
      obtain ⟨s₁, hstep, h₁, hphase₁⟩ := h.call_step hphase
      obtain ⟨t, W', done', second', hloops, ht, hidle, heq⟩ := h₁.return_finishes hstart hphase₁
      refine ⟨t, W', done', second', hloops.head hstep, ht, hidle, ?_⟩
      rw [heq, h₁.enqueued_eq, h.enqueued_eq]
  | returning cls => exact h.return_finishes hstart hphase
  | finishing =>
      obtain ⟨s₁, W₁, hstep, h₁, hphase₁, hnil⟩ := h.finish_step hphase (h.enqueued_lt hstart)
      subst hnil
      refine ⟨s₁, W₁, done, second, (Loops.refl s₁).head hstep, h₁, hphase₁, ?_⟩
      rw [h₁.enqueued_eq, h.enqueued_eq]

theorem Queued.served {s₀ : Closer} (hstart : s₀.Starts S fd)
    (h : s.Queued S fd W done first second) :
    ∃ t, Loops S s t ∧ t.phase = .idle ∧ t.log = trace fd s.enqueued := by
  obtain ⟨s₁, W₁, done₁, second₁, hloops₁, h₁, hphase₁, heq⟩ := h.finishes hstart
  obtain ⟨t, W', hloops, ht, hidle⟩ := h₁.iteration hstart hphase₁
  refine ⟨t, hloops₁.trans hloops, hidle, ?_⟩
  rw [ht.log_eq, hidle, heq]
  exact List.append_nil _

/-! ## Every interleaving -/

theorem descriptors_trace (rs : List CloseRequest) :
    (trace fd rs).filterMap CloseEvent.descriptor = rs.map fun r ↦ fd r.sock := by
  induction rs with
  | nil => rfl
  | cons r rs ih =>
      have hcalls : (r.handler.toList.map (CloseEvent.called r.sock)).filterMap
          CloseEvent.descriptor = [] := by
        cases r.handler <;> rfl
      rw [trace, List.flatMap_cons, List.filterMap_append,
        List.filterMap_cons_some
          (show CloseEvent.descriptor (.closed _ _) = some (fd r.sock) from rfl), hcalls]
      rw [trace] at ih
      rw [ih]
      rfl

theorem descriptors_currentTrace (phase : ClosePhase) (rs : List CloseRequest) :
    (currentTrace fd phase rs).filterMap CloseEvent.descriptor =
      (current phase rs).map fun r ↦ fd r.sock := by
  cases phase with
  | calling cls =>
      cases rs with
      | nil => rfl
      | cons r rs => rfl
  | returning cls => exact descriptors_trace (rs.take 1)
  | _ => rfl

theorem Queued.descriptors_nodup {s₀ : Closer} (hstart : s₀.Starts S fd)
    (h : s.Queued S fd W done first second) :
    (s.log.filterMap CloseEvent.descriptor).Nodup := by
  have hsub : (done ++ current s.phase first).Sublist s.requests := by
    rw [requests, h.enqueued_eq]
    refine List.Sublist.trans ?_ (List.sublist_append_right _ _)
    refine List.Sublist.append_left (List.Sublist.trans ?_ (List.sublist_append_left _ _)) _
    unfold current
    split
    · exact List.take_sublist _ _
    · exact List.take_sublist _ _
    · exact List.nil_sublist _
  have hnodup := h.asked.nodup.sublist (hsub.map (·.sock))
  rw [h.log_eq, List.filterMap_append, descriptors_trace, descriptors_currentTrace,
    ← List.map_append]
  have hmap : (done ++ current s.phase first).map (fun r ↦ fd r.sock) =
      ((done ++ current s.phase first).map (·.sock)).map fd := by
    rw [List.map_map]
    rfl
  rw [hmap]
  refine hnodup.map_on fun i hi j hj heq ↦ ?_
  have hmem : ∀ k ∈ (done ++ current s.phase first).map (·.sock), k ∈ S := by
    intro k hk
    exact h.asked.mem_of_requests ((hsub.map (·.sock)).subset hk)
  exact hstart.distinct (hmem i hi) (hmem j hj) heq

theorem Queued.loop_step {s₀ : Closer} (hstart : s₀.Starts S fd)
    (h : s.Queued S fd W done first second) :
    ∃ s' W' done' first' second', s.doClose = some s' ∧
      s'.Queued S fd W' done' first' second' := by
  cases hphase : s.phase with
  | idle =>
      obtain ⟨s', hstep, h', -⟩ := h.idle_step hphase
      exact ⟨s', _, _, _, _, hstep, h'⟩
  | swapping =>
      obtain ⟨s', hstep, h', -⟩ := h.swap_step hphase
      exact ⟨s', _, _, _, _, hstep, h'⟩
  | draining =>
      cases first with
      | nil =>
          obtain ⟨s', hstep, h', -⟩ := h.drained_step hphase rfl
          exact ⟨s', _, _, _, _, hstep, h'⟩
      | cons r rs =>
          obtain ⟨s', cls, hstep, h', -⟩ := h.drain_step hphase rfl
          exact ⟨s', _, _, _, _, hstep, h'⟩
  | calling cls =>
      obtain ⟨s', hstep, h', -⟩ := h.call_step hphase
      exact ⟨s', _, _, _, _, hstep, h'⟩
  | returning cls =>
      obtain ⟨s', W', r, rs, -, hstep, h', -⟩ := h.return_step hphase (h.enqueued_lt hstart)
      exact ⟨s', _, _, _, _, hstep, h'⟩
  | finishing =>
      obtain ⟨s', W', hstep, h', -⟩ := h.finish_step hphase (h.enqueued_lt hstart)
      exact ⟨s', _, _, _, _, hstep, h'⟩

/-- The queue is in order and holds for each socket what its first `Close` asked for, the local
lists are empty between two calls of `_DoClose`, no descriptor was closed twice, and what is
queued will be served. -/
structure Orderly (S : Set ℕ) (fd : ℕ → ℕ) (s : Closer) : Prop where
  queued : ∃ W done first second, s.Queued S fd W done first second
  local_empty : s.phase = .idle → (s.lists .local1).count = 0 ∧ (s.lists .local2).count = 0
  once : (s.log.filterMap CloseEvent.descriptor).Nodup
  served : ∃ t, Loops S s t ∧ t.phase = .idle ∧ t.log = trace fd s.enqueued

theorem Queued.orderly {s₀ : Closer} (hstart : s₀.Starts S fd)
    (h : s.Queued S fd W done first second) : s.Orderly S fd := by
  refine ⟨⟨W, done, first, second, h⟩, ?_, h.descriptors_nodup hstart, h.served hstart⟩
  intro hphase
  have hlocal := h.stored.phase_ok
  rw [hphase] at hlocal
  rw [h.stored.models.count_eq, h.stored.models.count_eq, hlocal.1, hlocal.2]
  exact ⟨rfl, rfl⟩

theorem system_queued {s₀ : Closer} {a : CloseMove} (hstart : s₀.Starts S fd)
    (h : ∃ W done first second, s.Queued S fd W done first second)
    (henabled : (system S).enabled s a) :
    ∃ s', (system S).step s a = some s' ∧
      ∃ W done first second, s'.Queued S fd W done first second := by
  obtain ⟨W, done, first, second, h⟩ := h
  cases a with
  | close i handler => exact ⟨_, rfl, W, done, first, second, h.close henabled handler⟩
  | enqueue k =>
      obtain ⟨t, W', r, hr, hstep, h'⟩ := h.enqueue henabled (h.length_lt hstart)
      refine ⟨{ t with enqueued := t.enqueued ++ [r] }, ?_, W', done, first, second ++ [r], h'⟩
      simp only [system, hr, Option.bind_eq_bind, Option.bind_some, hstep]
      rfl
  | loop =>
      obtain ⟨t, W', done', first', second', hstep, h'⟩ := h.loop_step hstart
      exact ⟨t, hstep, W', done', first', second', h'⟩

theorem calls_pushClose {w : CloseList} {cls : ℕ} (h : s.pushClose w cls = some s') :
    s'.calls = s.calls := by
  obtain ⟨_, -, h⟩ := Option.bind_eq_some_iff.mp h
  cases h
  rfl

theorem calls_takeClose {cls : ℕ} (h : s.takeClose = some (cls, s')) : s'.calls = s.calls := by
  unfold takeClose at h
  split at h
  · obtain ⟨_, -, h⟩ := Option.bind_eq_some_iff.mp h
    obtain ⟨_, -, h⟩ := Option.bind_eq_some_iff.mp h
    cases h
    rfl
  · cases h
    rfl

theorem calls_enqueue {r : CloseRequest} (h : s.enqueue r = some s') : s'.calls = s.calls := by
  obtain ⟨⟨cls, s₁⟩, htake, h⟩ := Option.bind_eq_some_iff.mp h
  obtain ⟨objs, -, h⟩ := Option.bind_eq_some_iff.mp h
  have hcalls := calls_takeClose htake
  rw [calls_pushClose h]
  exact hcalls

theorem calls_doClose (h : s.doClose = some s') : s'.calls = s.calls := by
  unfold doClose at h
  split at h
  · -- `idle`
    split at h <;> cases h <;> rfl
  · -- `swapping`
    cases h
    rfl
  · -- `draining`
    split at h
    · obtain ⟨_, -, h⟩ := Option.bind_eq_some_iff.mp h
      obtain ⟨_, -, h⟩ := Option.bind_eq_some_iff.mp h
      obtain ⟨_, -, h⟩ := Option.bind_eq_some_iff.mp h
      cases h
      rfl
    · cases h
      rfl
  · -- `calling`
    obtain ⟨_, -, h⟩ := Option.bind_eq_some_iff.mp h
    obtain ⟨_, -, h⟩ := Option.bind_eq_some_iff.mp h
    cases h
    rfl
  · -- `returning`
    obtain ⟨_, -, h⟩ := Option.bind_eq_some_iff.mp h
    obtain ⟨s₁, hpush, h⟩ := Option.bind_eq_some_iff.mp h
    obtain ⟨_, -, h⟩ := Option.bind_eq_some_iff.mp h
    cases h
    have hcalls := calls_pushClose hpush
    exact hcalls
  · -- `finishing`
    dsimp only at h
    split at h
    · obtain ⟨_, -, h⟩ := Option.bind_eq_some_iff.mp h
      simp only [Option.bind_eq_bind, Option.bind_some] at h
      split at h
      · cases h
        rfl
      · cases h
    · simp only [Option.bind_eq_bind, Option.bind_some] at h
      split at h
      · cases h
        rfl
      · cases h

/-- The calls on record are those among the moves. -/
theorem calls_of_step {a : CloseMove} (h : (system S).step s a = some s') :
    s'.calls = s.calls ++ a.call.toList := by
  cases a with
  | close i handler =>
      cases h
      rfl
  | enqueue k =>
      obtain ⟨r, -, h⟩ := Option.bind_eq_some_iff.mp h
      obtain ⟨s₁, henqueue, h⟩ := Option.bind_eq_some_iff.mp h
      cases h
      have hcalls := calls_enqueue henqueue
      simpa [CloseMove.call] using hcalls
  | loop =>
      have hcalls := calls_doClose h
      simpa [CloseMove.call] using hcalls

/-- Any number of calls of `Close`, from any thread and from inside the handlers. -/
theorem close_orderly {moves : List CloseMove} (hstart : s.Starts S fd)
    (hallowed : (system S).Allowed System.anyStep s moves) :
    ∃ s', (system S).run s moves = some s' ∧ s'.calls = moves.filterMap CloseMove.call ∧
      s'.Orderly S fd := by
  obtain ⟨s', hrun, W, done, first, second, h⟩ := System.run_invariant
    (I := fun s ↦ ∃ W done first second, s.Queued S fd W done first second)
    (fun t a ht henabled _ ↦ system_queued hstart ht henabled) ⟨_, _, _, _, hstart.queued⟩ hallowed
  have hcalls := System.record_of_run (fun _ _ _ hstep ↦ calls_of_step hstep) hrun
  rw [hstart.none_yet.2.1, List.nil_append] at hcalls
  exact ⟨s', hrun, hcalls, h.orderly hstart⟩

/-- Two accepted sockets. -/
def sampleCloser : Closer where
  socks i := ⟨some 3, some (i + 5), {.bind}, ∅, .clear, .clear, .clear, .clear, none⟩
  handler := 3
  fdcnt := 2
  nodes := Heap.empty
  objs := Heap.empty
  lists _ := Slist.empty
  phase := .idle
  pending := []
  calls := []
  enqueued := []
  log := []

/-- Socket `0` is closed, and its handler closes socket `1` and socket `0` once more. -/
def sampleMoves : List CloseMove :=
  [.close 0 (some 9), .enqueue 0, .loop, .loop, .loop, .loop, .close 1 none, .close 0 (some 8),
    .enqueue 0, .loop, .loop, .loop, .loop]

theorem starts_sampleCloser : sampleCloser.Starts {i | i < 2} (· + 5) where
  sock i _ := ⟨rfl, by simp [sampleCloser], by simp [sampleCloser], rfl⟩
  descriptors i hi := by
    have hlt : i < 2 := hi
    refine ⟨by omega, ?_⟩
    change i + 5 ≠ 3
    omega
  distinct := fun i _ j _ h ↦ Nat.add_right_cancel h
  handler_lt := by decide
  lists_eq := rfl
  heaps_eq := ⟨rfl, rfl⟩
  phase_eq := rfl
  none_yet := ⟨rfl, rfl, rfl, rfl⟩

theorem close_orderly_sampleMoves :
    ∃ s', (system {i | i < 2}).run sampleCloser sampleMoves = some s' ∧
      s'.calls = sampleMoves.filterMap CloseMove.call ∧ s'.Orderly {i | i < 2} (· + 5) :=
  close_orderly starts_sampleCloser (by decide)

end Closer

end Epoll

end Slience
