import Slience.Socket.Close

/-!
# Every request is served once

The requests queued so far are, in this order, those that were served, those in the local list
of the loop and those in `_closereqs`.  A socket appears in them once, because its first `Close`
leaves the close flag and serving it leaves no descriptor; every request object is in one list,
once.  As all these sockets were open together with the `epoll` instance there are fewer of
them than an `int` can count.
-/

namespace Slience

namespace Epoll

namespace Closer

/-- What serving these requests leaves in the log. -/
def trace (fd : ℕ → ℕ) (rs : List CloseRequest) : List CloseEvent :=
  rs.flatMap fun r ↦ .closed r.sock (fd r.sock) :: r.handler.toList.map (.called r.sock)

/-- The request whose descriptor is closed, but which still is in the list of the loop. -/
def current (phase : ClosePhase) (rs : List CloseRequest) : List CloseRequest :=
  match phase with
  | .calling _ => rs.take 1
  | .returning _ => rs.take 1
  | _ => []

/-- What the loop has done for the current request. -/
def currentTrace (fd : ℕ → ℕ) (phase : ClosePhase) (rs : List CloseRequest) : List CloseEvent :=
  match phase with
  | .calling _ => (rs.take 1).map fun r ↦ .closed r.sock (fd r.sock)
  | .returning _ => trace fd (rs.take 1)
  | _ => []

/-- The contents of the four lists. -/
def objects (W : CloseList → List ℕ) : List ℕ :=
  W .closereqs ++ W .closereqs2 ++ W .local1 ++ W .local2

def Asks (objs : Heap SocketClose) (cls : ℕ) (r : CloseRequest) : Prop :=
  objs.read cls = some ⟨some r.sock, r.handler⟩

def PhaseOk (W : CloseList → List ℕ) : ClosePhase → Prop
  | .idle => W .local1 = [] ∧ W .local2 = []
  | .swapping => W .local1 = [] ∧ W .local2 = []
  | .draining => True
  | .calling cls => ∃ rest, W .local1 = cls :: rest
  | .returning cls => ∃ rest, W .local1 = cls :: rest
  | .finishing => W .local1 = []

def requests (s : Closer) : List CloseRequest := s.pending ++ s.enqueued

/-- The lists hold the requests that are not served: `first` those of the loop, `second` those of
`_closereqs`. -/
structure Stored (s : Closer) (W : CloseList → List ℕ) (first second : List CloseRequest) :
    Prop where
  models : Slist.Models s.nodes s.lists W
  nodup : (objects W).Nodup
  live (o : ℕ) : (s.objs.read o).isSome ↔ o ∈ objects W
  few : (objects W).length ≤ s.enqueued.length
  first_asks : List.Forall₂ (Asks s.objs) (W .local1) first
  second_asks : List.Forall₂ (Asks s.objs) (W .closereqs) second
  phase_ok : PhaseOk W s.phase

/-- There is one request for each socket that `Close` was called for, that of the first call. -/
structure Asked (S : Set ℕ) (s : Closer) : Prop where
  nodup : (s.requests.map (·.sock)).Nodup
  mem_iff (r : CloseRequest) : r ∈ s.requests ↔ s.calls.find? (·.sock = r.sock) = some r
  mem_set : ∀ c ∈ s.calls, c.sock ∈ S

/-- What a socket looks like before its first `Close`, before it is served, and then. -/
structure Marked (S : Set ℕ) (fd : ℕ → ℕ) (s : Closer) (closed : List CloseRequest) : Prop where
  fresh : ∀ i ∈ S, i ∉ s.requests.map (·.sock) →
    (s.socks i).fd = some (fd i) ∧ .close ∉ (s.socks i).state ∧ .block ∉ (s.socks i).state ∧
      (s.socks i).epoll = some s.handler
  waiting : ∀ r ∈ s.requests, r ∉ closed →
    (s.socks r.sock).fd = some (fd r.sock) ∧ .close ∈ (s.socks r.sock).state
  closed : ∀ r ∈ closed, (s.socks r.sock).fd = none ∧ (s.socks r.sock).state = ∅

/-- The state between any two steps. -/
structure Queued (S : Set ℕ) (fd : ℕ → ℕ) (s : Closer) (W : CloseList → List ℕ)
    (done first second : List CloseRequest) : Prop where
  stored : s.Stored W first second
  asked : s.Asked S
  marked : s.Marked S fd (done ++ current s.phase first)
  enqueued_eq : s.enqueued = done ++ (first ++ second)
  log_eq : s.log = trace fd done ++ currentTrace fd s.phase first

/-- Open sockets that are bound to the running thread, and nothing queued. -/
structure Starts (S : Set ℕ) (fd : ℕ → ℕ) (s : Closer) : Prop where
  sock : ∀ i ∈ S, (s.socks i).fd = some (fd i) ∧ .close ∉ (s.socks i).state ∧
    .block ∉ (s.socks i).state ∧ (s.socks i).epoll = some s.handler
  descriptors : ∀ i ∈ S, fd i < 2 ^ 31 ∧ fd i ≠ s.handler
  distinct : Set.InjOn fd S
  handler_lt : s.handler < 2 ^ 31
  lists_eq : s.lists = fun _ ↦ Slist.empty
  heaps_eq : s.nodes = Heap.empty ∧ s.objs = Heap.empty
  phase_eq : s.phase = .idle
  none_yet : s.pending = [] ∧ s.calls = [] ∧ s.enqueued = [] ∧ s.log = []

theorem Starts.queued {S : Set ℕ} {fd : ℕ → ℕ} {s : Closer} (h : s.Starts S fd) :
    s.Queued S fd (fun _ ↦ []) [] [] [] := by
  obtain ⟨hpending, hcalls, henqueued, hlog⟩ := h.none_yet
  have hrequests : s.requests = [] := by rw [requests, hpending, henqueued]; rfl
  refine ⟨⟨?_, ?_, ?_, ?_, .nil, .nil, ?_⟩, ⟨?_, ?_, ?_⟩, ⟨?_, ?_, ?_⟩, henqueued, ?_⟩
  · rw [h.heaps_eq.1, h.lists_eq]
    exact Slist.Models.empty
  · exact List.nodup_nil
  · intro o
    simp [h.heaps_eq.2, objects]
  · simp [objects]
  · rw [h.phase_eq]
    exact ⟨rfl, rfl⟩
  · simp [hrequests]
  · simp [hrequests, hcalls]
  · simp [hcalls]
  · intro i hi _
    exact h.sock i hi
  · simp [hrequests]
  · simp [h.phase_eq, current]
  · rw [hlog, h.phase_eq]
    rfl

/-- The descriptors of the sockets and of the `epoll` instance are different numbers below
`2 ^ 31`. -/
theorem Starts.length_lt {S : Set ℕ} {fd : ℕ → ℕ} {s : Closer} (h : s.Starts S fd) {l : List ℕ}
    (hl : l.Nodup) (hS : ∀ i ∈ l, i ∈ S) : l.length < 2 ^ 31 := by
  have hnodup : (s.handler :: l.map fd).Nodup := by
    rw [List.nodup_cons]
    constructor
    · intro hmem
      obtain ⟨i, hi, heq⟩ := List.mem_map.mp hmem
      exact (h.descriptors i (hS i hi)).2 heq
    · exact hl.map_on fun i hi j hj heq ↦ h.distinct (hS i hi) (hS j hj) heq
  have hsub : (s.handler :: l.map fd).toFinset ⊆ Finset.range (2 ^ 31) := by
    intro x hx
    rw [List.mem_toFinset, List.mem_cons] at hx
    rw [Finset.mem_range]
    rcases hx with rfl | hx
    · exact h.handler_lt
    · obtain ⟨i, hi, rfl⟩ := List.mem_map.mp hx
      exact (h.descriptors i (hS i hi)).1
  have hcard := Finset.card_le_card hsub
  rw [List.toFinset_card_of_nodup hnodup, Finset.card_range, List.length_cons,
    List.length_map] at hcard
  exact hcard

variable {S : Set ℕ} {fd : ℕ → ℕ} {s s' : Closer} {W : CloseList → List ℕ}
  {done first second : List CloseRequest}

theorem Asked.mem_of_requests (h : s.Asked S) {i : ℕ} (hi : i ∈ s.requests.map (·.sock)) :
    i ∈ S := by
  obtain ⟨r, hr, rfl⟩ := List.mem_map.mp hi
  exact h.mem_set r (List.mem_of_find?_eq_some ((h.mem_iff r).mp hr))

theorem Asked.find?_isSome (h : s.Asked S) (i : ℕ) :
    (s.calls.find? (·.sock = i)).isSome ↔ i ∈ s.requests.map (·.sock) := by
  constructor
  · intro hfound
    obtain ⟨r, hr⟩ := Option.isSome_iff_exists.mp hfound
    have hsock := List.find?_some hr
    rw [decide_eq_true_eq] at hsock
    subst hsock
    exact List.mem_map_of_mem ((h.mem_iff r).mpr hr)
  · intro hi
    obtain ⟨r, hr, rfl⟩ := List.mem_map.mp hi
    rw [(h.mem_iff r).mp hr]
    rfl

/-! ## `Close` -/

/-- The close flag of one socket is set and its request is on the way. -/
def askClose (s : Closer) (i : ℕ) (handler : Option ℕ) : Closer :=
  { s with
    fdcnt := s.fdcnt - 1
    socks := Function.update s.socks i
      { s.socks i with state := insert .close (s.socks i).state }
    calls := s.calls ++ [⟨i, handler⟩]
    pending := s.pending ++ [⟨i, handler⟩] }

theorem close_first {i : ℕ} (handler : Option ℕ)
    (h : (s.socks i).fd = some (fd i) ∧ .close ∉ (s.socks i).state ∧ .block ∉ (s.socks i).state ∧
      (s.socks i).epoll = some s.handler) :
    { s.close i handler with calls := s.calls ++ [⟨i, handler⟩] } = s.askClose i handler := by
  obtain ⟨hfd, hclose, hblock, hepoll⟩ := h
  have hguard : (s.socks i).fd ≠ none ∧ .close ∉ (s.socks i).state :=
    ⟨by rw [hfd]; exact Option.some_ne_none _, hclose⟩
  unfold close
  dsimp only
  rw [if_pos hguard, if_pos hepoll, if_pos hepoll, if_neg hblock]
  rfl

theorem requests_askClose (s : Closer) (i : ℕ) (handler : Option ℕ) :
    (s.askClose i handler).requests.Perm (⟨i, handler⟩ :: s.requests) := by
  have hsplit : (s.askClose i handler).requests = s.pending ++ ⟨i, handler⟩ :: s.enqueued := by
    rw [requests, askClose, List.append_assoc]
    rfl
  rw [hsplit]
  exact List.perm_middle

theorem socks_askClose_of_ne (handler : Option ℕ) {i j : ℕ} (h : j ≠ i) :
    (s.askClose i handler).socks j = s.socks j :=
  Function.update_of_ne h ..

theorem close_again {i : ℕ} (handler : Option ℕ)
    (h : (s.socks i).fd = none ∨ .close ∈ (s.socks i).state) :
    s.close i handler = s := by
  unfold close
  dsimp only
  rw [if_neg]
  rintro ⟨hfd, hclose⟩
  rcases h with h | h
  · exact hfd h
  · exact hclose h

theorem Marked.asked {closed : List CloseRequest} (h : s.Marked S fd closed) {i : ℕ}
    (hi : i ∈ s.requests.map (·.sock)) :
    (s.socks i).fd = none ∨ .close ∈ (s.socks i).state := by
  obtain ⟨r, hr, rfl⟩ := List.mem_map.mp hi
  by_cases hclosed : r ∈ closed
  · exact Or.inl (h.closed r hclosed).1
  · exact Or.inr (h.waiting r hr hclosed).2

theorem Queued.closed_subset (h : s.Queued S fd W done first second) {r : CloseRequest}
    (hr : r ∈ done ++ current s.phase first) : r ∈ s.requests := by
  rw [requests, List.mem_append, h.enqueued_eq]
  refine Or.inr ?_
  rw [List.mem_append] at hr ⊢
  rcases hr with hr | hr
  · exact Or.inl hr
  · refine Or.inr (List.mem_append_left _ ?_)
    unfold current at hr
    split at hr
    · exact List.mem_of_mem_take hr
    · exact List.mem_of_mem_take hr
    · cases hr

/-- A further call of `Close` for a socket is not the first. -/
theorem Asked.call_again {calls : List CloseRequest} (h : s.Asked S) {i : ℕ}
    (hi : i ∈ s.requests.map (·.sock)) (handler : Option ℕ)
    (hcalls : calls = s.calls ++ [⟨i, handler⟩]) (j : ℕ) :
    calls.find? (·.sock = j) = s.calls.find? (·.sock = j) := by
  rw [hcalls, List.find?_append, List.find?_singleton]
  by_cases hj : i = j
  · subst hj
    obtain ⟨r, hr⟩ := Option.isSome_iff_exists.mp ((h.find?_isSome i).mpr hi)
    rw [hr]
    rfl
  · simp [hj]

/-- The first call of `Close` for a socket is found for it. -/
theorem Asked.call_first {calls : List CloseRequest} (h : s.Asked S) {i : ℕ}
    (hi : i ∉ s.requests.map (·.sock)) (handler : Option ℕ)
    (hcalls : calls = s.calls ++ [⟨i, handler⟩]) (r : CloseRequest) :
    calls.find? (·.sock = r.sock) = some r ↔ r = ⟨i, handler⟩ ∨ r ∈ s.requests := by
  rw [hcalls, List.find?_append, List.find?_singleton]
  by_cases hr : i = r.sock
  · subst hr
    have hnone : s.calls.find? (·.sock = r.sock) = none := by
      rw [← Option.not_isSome_iff_eq_none, h.find?_isSome]
      exact hi
    have hnot : r ∉ s.requests := fun hmem ↦ hi (List.mem_map_of_mem hmem)
    rw [hnone]
    simp [hnot, eq_comm]
  · have hne : r ≠ ⟨i, handler⟩ := by
      rintro rfl
      exact hr rfl
    simp [hr, hne, h.mem_iff]

theorem Queued.close (h : s.Queued S fd W done first second) {i : ℕ} (hi : i ∈ S)
    (handler : Option ℕ) :
    Queued S fd { s.close i handler with calls := s.calls ++ [⟨i, handler⟩] } W done first
      second := by
  have hclosed : ∀ r ∈ done ++ current s.phase first, r ∈ s.requests := fun r ↦ h.closed_subset
  obtain ⟨⟨hmodels, hnodup, hlive, hfew, hfirst, hsecond, hphase⟩, hasked, hmarked, henqueued,
    hlog⟩ := h
  by_cases hnew : i ∈ s.requests.map (·.sock)
  · rw [close_again handler (hmarked.asked hnew)]
    refine ⟨⟨hmodels, hnodup, hlive, hfew, hfirst, hsecond, hphase⟩, ⟨hasked.nodup, ?_, ?_⟩,
      ⟨hmarked.fresh, hmarked.waiting, hmarked.closed⟩, henqueued, hlog⟩
    · intro r
      rw [hasked.call_again hnew handler rfl]
      exact hasked.mem_iff r
    · intro c hc
      rcases List.mem_append.mp hc with hc | hc
      · exact hasked.mem_set c hc
      · cases List.mem_singleton.mp hc
        exact hi
  · rw [close_first handler (hmarked.fresh i hi hnew)]
    have hperm := s.requests_askClose i handler
    have hsocks := hperm.map (·.sock)
    rw [List.map_cons] at hsocks
    have hne : ∀ r ∈ s.requests, r.sock ≠ i := by
      rintro r hr rfl
      exact hnew (List.mem_map_of_mem hr)
    refine ⟨⟨hmodels, hnodup, hlive, hfew, hfirst, hsecond, hphase⟩, ⟨?_, ?_, ?_⟩, ⟨?_, ?_, ?_⟩,
      henqueued, hlog⟩
    · rw [hsocks.nodup_iff, List.nodup_cons]
      exact ⟨hnew, hasked.nodup⟩
    · intro r
      rw [hperm.mem_iff, List.mem_cons]
      exact (hasked.call_first hnew handler rfl r).symm
    · intro c hc
      rcases List.mem_append.mp hc with hc | hc
      · exact hasked.mem_set c hc
      · cases List.mem_singleton.mp hc
        exact hi
    · intro j hj hjnew
      rw [hsocks.mem_iff, List.mem_cons, not_or] at hjnew
      rw [socks_askClose_of_ne handler hjnew.1]
      exact hmarked.fresh j hj hjnew.2
    · intro r hr hopen
      rw [hperm.mem_iff, List.mem_cons] at hr
      rcases hr with rfl | hr
      · have hfresh := hmarked.fresh i hi hnew
        simp [askClose, hfresh.1]
      · rw [socks_askClose_of_ne handler (hne r hr)]
        exact hmarked.waiting r hr hopen
    · intro r hr
      rw [socks_askClose_of_ne handler (hne r (hclosed r hr))]
      exact hmarked.closed r hr

/-! ## Queueing a request -/

theorem asks_of_read {objs objs' : Heap SocketClose} {os : List ℕ} {rs : List CloseRequest}
    (h : List.Forall₂ (Asks objs) os rs) (hread : ∀ o ∈ os, objs'.read o = objs.read o) :
    List.Forall₂ (Asks objs') os rs := by
  induction h with
  | nil => exact .nil
  | cons hask _ ih =>
      rw [List.forall_mem_cons] at hread
      refine .cons ?_ (ih hread.2)
      rw [Asks, hread.1]
      exact hask

theorem mem_objects {o : ℕ} : o ∈ objects W ↔ ∃ w, o ∈ W w := by
  simp only [objects, List.mem_append]
  constructor
  · rintro (((h | h) | h) | h)
    exacts [⟨_, h⟩, ⟨_, h⟩, ⟨_, h⟩, ⟨_, h⟩]
  · rintro ⟨w, h⟩
    cases w <;> simp [h]

theorem length_le_objects (W : CloseList → List ℕ) (w : CloseList) :
    (W w).length ≤ (objects W).length := by
  simp only [objects, List.length_append]
  cases w <;> omega

theorem PhaseOk.of_local {W' : CloseList → List ℕ} {phase : ClosePhase} (h : PhaseOk W phase)
    (h₁ : W' .local1 = W .local1) (h₂ : W' .local2 = W .local2) : PhaseOk W' phase := by
  cases phase <;> simp only [PhaseOk, h₁, h₂] at h ⊢ <;> exact h

/-- The request object a `Close` takes is in no list and was in none, or among the used ones. -/
theorem takeClose_spec (h : s.Stored W first second) (hlen : (objects W).length < 2 ^ 31) :
    ∃ cls rest lists nodes objs,
      s.takeClose = some (cls, { s with lists := lists, nodes := nodes, objs := objs }) ∧
      Slist.Models nodes lists (Function.update W .closereqs2 rest) ∧
      (cls :: objects (Function.update W .closereqs2 rest)).Nodup ∧
      (∀ o, (objs.read o).isSome ↔ o ∈ cls :: objects (Function.update W .closereqs2 rest)) ∧
      (objects (Function.update W .closereqs2 rest)).length ≤ (objects W).length ∧
      ∀ o ∈ objects W, objs.read o = s.objs.read o := by
  have hcount := h.models.count_eq .closereqs2
  unfold takeClose
  cases hW : W .closereqs2 with
  | nil =>
      have hsame : Function.update W .closereqs2 [] = W := by
        rw [← hW, Function.update_eq_self]
      rw [hW, List.length_nil] at hcount
      rw [if_neg (by simp [hcount])]
      refine ⟨s.objs.fresh, [], s.lists, s.nodes, s.objs.alloc .clear, rfl, ?_, ?_, ?_, ?_, ?_⟩
      · rw [hsame]
        exact h.models
      · rw [hsame, List.nodup_cons, ← h.live]
        exact ⟨by simp, h.nodup⟩
      · intro o
        rw [hsame, List.mem_cons, ← h.live]
        by_cases ho : o = s.objs.fresh
        · subst ho
          simp
        · rw [Heap.read_alloc_of_ne _ ho]
          simp [ho]
      · rw [hsame]
      · intro o ho
        apply Heap.read_alloc_of_ne
        rintro rfl
        rw [← h.live] at ho
        simp at ho
  | cons cls rest =>
      rw [hW, List.length_cons] at hcount
      rw [if_pos (by rw [hcount]; omega), h.models.front_eq hW]
      obtain ⟨l', nodes, hpop, hmodels⟩ := h.models.popFront hW
        ((length_le_objects W .closereqs2).trans_lt hlen)
      have hperm : (objects W).Perm (cls :: objects (Function.update W .closereqs2 rest)) := by
        have hsplit : objects W = W .closereqs ++ cls :: (rest ++ (W .local1 ++ W .local2)) := by
          simp [objects, hW]
        rw [hsplit]
        refine List.perm_middle.trans (List.Perm.of_eq ?_)
        simp [objects]
      refine ⟨cls, rest, Function.update s.lists .closereqs2 l', nodes, s.objs, ?_, hmodels, ?_, ?_,
        ?_, fun _ _ ↦ rfl⟩
      · simp only [Option.bind_eq_bind, Option.bind_some, hpop]
        rfl
      · exact hperm.nodup_iff.mp h.nodup
      · intro o
        rw [h.live, hperm.mem_iff]
      · have hlength := hperm.length_eq
        rw [List.length_cons] at hlength
        omega

theorem Stored.enqueue (h : s.Stored W first second) (hlen : (objects W).length + 1 < 2 ^ 31)
    (r : CloseRequest) : ∃ s' W', s.enqueue r = some s' ∧
      Stored { s' with enqueued := s'.enqueued ++ [r] } W' first (second ++ [r]) ∧
      s'.enqueued = s.enqueued ∧
      s'.pending = s.pending ∧ s'.calls = s.calls ∧ s'.socks = s.socks ∧
      s'.handler = s.handler ∧ s'.phase = s.phase ∧ s'.log = s.log := by
  obtain ⟨cls, rest, lists, nodes, objs, htake, hmodels, hnodup, hlive, hle, hsame⟩ :=
    takeClose_spec h (by omega)
  have hlocal1 : ∀ o ∈ W .local1, o ≠ cls := by
    rintro o ho rfl
    rw [List.nodup_cons] at hnodup
    exact hnodup.1 (mem_objects.mpr ⟨.local1, by simpa using ho⟩)
  have hclosereqs : ∀ o ∈ W .closereqs, o ≠ cls := by
    rintro o ho rfl
    rw [List.nodup_cons] at hnodup
    exact hnodup.1 (mem_objects.mpr ⟨.closereqs, by simpa using ho⟩)
  obtain ⟨u, hu⟩ := Option.isSome_iff_exists.mp ((hlive cls).mpr List.mem_cons_self)
  obtain ⟨objs', hwrite, hcls, hothers⟩ := Heap.write_spec ⟨some r.sock, r.handler⟩ hu
  have hread : ∀ o ∈ objects W, o ≠ cls → objs'.read o = s.objs.read o := by
    intro o ho hne
    rw [hothers o hne, hsame o ho]
  have hpushLen := length_le_objects (Function.update W .closereqs2 rest) .closereqs
  obtain ⟨l', nodes', hpush, hmodels'⟩ := hmodels.pushBack .closereqs cls (by omega)
  have hperm : (objects (Function.update (Function.update W .closereqs2 rest) .closereqs
      (Function.update W .closereqs2 rest .closereqs ++ [cls]))).Perm
      (cls :: objects (Function.update W .closereqs2 rest)) := by
    have hsplit : objects (Function.update (Function.update W .closereqs2 rest) .closereqs
        (Function.update W .closereqs2 rest .closereqs ++ [cls])) =
        W .closereqs ++ cls :: (rest ++ (W .local1 ++ W .local2)) := by
      simp [objects]
    rw [hsplit]
    refine List.perm_middle.trans (List.Perm.of_eq ?_)
    simp [objects]
  refine ⟨{ s with
      lists := Function.update lists .closereqs l'
      nodes := nodes'
      objs := objs' }, _, ?_, ⟨hmodels', ?_, ?_, ?_, ?_, ?_, ?_⟩,
    rfl, rfl, rfl, rfl, rfl, rfl, rfl⟩
  · rw [Closer.enqueue, htake]
    simp only [Option.bind_eq_bind, Option.bind_some, hwrite, pushClose, hpush]
    rfl
  · exact hperm.nodup_iff.mpr hnodup
  · intro o
    rw [hperm.mem_iff, ← hlive]
    by_cases ho : o = cls
    · subst ho
      simp [hcls, hu]
    · rw [hothers o ho]
  · rw [hperm.length_eq, List.length_cons]
    dsimp only
    rw [List.length_append, List.length_singleton]
    have hfew := h.few
    omega
  · simp only [ne_eq, reduceCtorEq, not_false_eq_true, Function.update_of_ne]
    apply asks_of_read h.first_asks
    intro o ho
    exact hread o (mem_objects.mpr ⟨_, ho⟩) (hlocal1 o ho)
  · simp only [Function.update_self, ne_eq, reduceCtorEq, not_false_eq_true, Function.update_of_ne]
    refine List.rel_append ?_ (.cons hcls .nil)
    apply asks_of_read h.second_asks
    intro o ho
    exact hread o (mem_objects.mpr ⟨_, ho⟩) (hclosereqs o ho)
  · apply h.phase_ok.of_local <;> simp

theorem Queued.enqueue (h : s.Queued S fd W done first second) {k : ℕ} (hk : k < s.pending.length)
    (hlen : s.requests.length < 2 ^ 31) :
    ∃ s' W' r, s.pending[k]? = some r ∧
      { s with pending := s.pending.eraseIdx k }.enqueue r = some s' ∧
      Queued S fd { s' with enqueued := s'.enqueued ++ [r] } W' done first (second ++ [r]) := by
  obtain ⟨⟨hmodels, hnodup, hlive, hfew, hfirst, hsecond, hphase⟩, hasked, hmarked, henqueued,
    hlog⟩ := h
  have hstored : Stored { s with pending := s.pending.eraseIdx k } W first second :=
    ⟨hmodels, hnodup, hlive, hfew, hfirst, hsecond, hphase⟩
  have hroom : (objects W).length + 1 < 2 ^ 31 := by
    rw [requests, List.length_append] at hlen
    omega
  obtain ⟨s', W', hstep, hstored', henqueued', hpending', hcalls', hsocks', hhandler', hphase',
    hlog'⟩ := hstored.enqueue hroom (s.pending[k])
  have hperm : (requests { s' with enqueued := s'.enqueued ++ [s.pending[k]] }).Perm
      s.requests := by
    rw [requests, requests, hpending', henqueued', ← List.append_assoc]
    refine List.perm_append_comm.trans ?_
    rw [List.singleton_append, ← List.cons_append]
    exact (List.getElem_cons_eraseIdx_perm hk).append_right _
  have hsocks := hperm.map (·.sock)
  refine ⟨s', W', s.pending[k], List.getElem?_eq_getElem hk, hstep, hstored', ⟨?_, ?_, ?_⟩,
    ⟨?_, ?_, ?_⟩, ?_, ?_⟩
  · exact hsocks.nodup_iff.mpr hasked.nodup
  · intro r
    rw [hperm.mem_iff]
    dsimp only
    rw [hcalls']
    exact hasked.mem_iff r
  · dsimp only
    rw [hcalls']
    exact hasked.mem_set
  · intro i hi hnew
    rw [hsocks.mem_iff] at hnew
    rw [hsocks', hhandler']
    exact hmarked.fresh i hi hnew
  · intro r hr hopen
    rw [hperm.mem_iff] at hr
    rw [hphase'] at hopen
    rw [hsocks']
    exact hmarked.waiting r hr hopen
  · intro r hr
    rw [hphase'] at hr
    rw [hsocks']
    exact hmarked.closed r hr
  · rw [henqueued']
    dsimp only
    rw [henqueued]
    simp
  · rw [hlog', hphase']
    exact hlog

end Closer

end Epoll

end Slience
