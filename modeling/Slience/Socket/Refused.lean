import Slience.Socket.Binding

/-!
# A post that is refused

`AsyncRecvSome` and `AsyncSendSome` fill their operation before they look at the socket, and clear
it where they report an error.  What an earlier post left on the socket is then untouched unless
the operation is the one of the earlier post, or `epoll_ctl` failed: that path takes back the bind
flag, and the `_type` it set, as if nothing else were posted.  An earlier post is there until its
operation completes; the flag of its direction goes before that, when the event arrives.
-/

namespace Slience

namespace Epoll

/-- What the completion of an earlier post in direction `d` relies on is the same in `s'`. -/
structure Kept (d : Dir) (s s' : Sock) : Prop where
  op_eq : s'.op d = s.op d
  read_iff : .read ∈ s'.state ↔ .read ∈ s.state
  write_iff : .write ∈ s'.state ↔ .write ∈ s.state
  bind_iff : .bind ∈ s'.state ↔ .bind ∈ s.state
  type_eq : s'.type = s.type
  interest_eq : s'.interest = s.interest

/-- A read or write was posted and has not completed: its flag stands, or its operation is still
to be used by the thread that took the event. -/
def Outstanding (d : Dir) (s : Sock) : Prop := d.flag ∈ s.state ∨ s.op d ≠ .clear

/-- Every read or write that was posted is left as it was. -/
def PostsKept (s s' : Sock) : Prop := ∀ d : Dir, Outstanding d s → Kept d s s'

/-- A refused post in direction `d` spares what is posted: its operation is a cleared one; and
where it comes as far as `epoll_ctl`, nothing is outstanding in the other direction, or what the
failing path takes back was not there. -/
def SparesPosts (d : Dir) (s : Sock) (os : Os) : Prop :=
  s.op d = .clear ∧ (d.flag ∉ s.state → s.fd ≠ none → (.block ∈ s.state → os.nonblock = true) →
    Outstanding d.other s → .bind ∉ s.state ∧
      s.type = if d.other.flag ∈ s.state then {d.bit, d.other.bit} else {d.bit})

theorem Dir.eq_or_eq_other (d d' : Dir) : d' = d ∨ d' = d.other := by
  cases d <;> cases d' <;> simp [Dir.other]

theorem Sock.type_setOp (s : Sock) (op : RwOperation) (d : Dir) : (s.setOp op d).type = s.type := by
  cases d <;> rfl

theorem Sock.interest_setOp (s : Sock) (op : RwOperation) (d : Dir) :
    (s.setOp op d).interest = s.interest := by
  cases d <;> rfl

/-- The operation of `d` apart, a socket whose operation of `d` is set is the same. -/
theorem kept_setOp {d d' : Dir} (s : Sock) (op : RwOperation)
    (h : (s.setOp op d).op d' = s.op d') : Kept d' s (s.setOp op d) where
  op_eq := h
  read_iff := by rw [Sock.state_setOp]
  write_iff := by rw [Sock.state_setOp]
  bind_iff := by rw [Sock.state_setOp]
  type_eq := Sock.type_setOp s op d
  interest_eq := Sock.interest_setOp s op d

/-- An operation that is cleared is the same only if it was clear, and only the posts of its own
direction see that. -/
theorem clear_of_postsKept {d : Dir} {s s' : Sock} (h : PostsKept s s') (hop : s'.op d = .clear) :
    s.op d = .clear := by
  by_contra hne
  rw [← (h d (Or.inr hne)).op_eq] at hne
  exact hne hop

/-- Where only the operation of `d` was cleared. -/
theorem postsKept_clear_iff (d : Dir) (s : Sock) :
    PostsKept s (s.setOp .clear d) ↔ s.op d = .clear := by
  constructor
  · intro h
    exact clear_of_postsKept h (Sock.op_setOp_self s .clear d)
  · intro h d' _
    apply kept_setOp
    rcases Dir.eq_or_eq_other d d' with rfl | rfl
    · rw [Sock.op_setOp_self, h]
    · exact Sock.op_setOp_other s .clear d

namespace Service

/-- A socket on which `epoll_ctl` failed. -/
def takenBack (d : Dir) (s : Sock) (ep : Option ℕ) : Sock :=
  { markPosted d s with
    epoll := ep
    state := ((markPosted d s).state.erase d.flag).erase .bind }

theorem mem_takenBack_other (d : Dir) (s : Sock) (ep : Option ℕ) :
    d.other.flag ∈ (takenBack d s ep).state ↔ d.other.flag ∈ s.state := by
  cases d <;> simp [takenBack, markPosted, Dir.flag, Dir.other]

theorem flag_notMem_takenBack (d : Dir) (s : Sock) (ep : Option ℕ) :
    d.flag ∉ (takenBack d s ep).state := by
  cases d <;> simp [takenBack, Dir.flag]

theorem bind_notMem_takenBack (d : Dir) (s : Sock) (ep : Option ℕ) :
    .bind ∉ (takenBack d s ep).state := by
  simp [takenBack]

/-- Where `epoll_ctl` failed. -/
theorem postsKept_takenBack_iff {d : Dir} {s : Sock} (ep : Option ℕ) (hflag : d.flag ∉ s.state) :
    PostsKept s ((takenBack d s ep).setOp .clear d) ↔
      s.op d = .clear ∧ (Outstanding d.other s → .bind ∉ s.state ∧
        s.type = if d.other.flag ∈ s.state then {d.bit, d.other.bit} else {d.bit}) := by
  have hbind := bind_notMem_takenBack d s ep
  constructor
  · intro h
    refine ⟨clear_of_postsKept h (Sock.op_setOp_self _ .clear d), ?_⟩
    intro hother
    have hkept := h d.other hother
    refine ⟨?_, ?_⟩
    · intro hmem
      have hmem' := hkept.bind_iff.mpr hmem
      rw [Sock.state_setOp] at hmem'
      exact hbind hmem'
    · have htype := hkept.type_eq
      rw [Sock.type_setOp] at htype
      exact htype.symm
  · rintro ⟨hclear, h⟩ d' hout
    rcases Dir.eq_or_eq_other d d' with rfl | rfl
    · -- nothing is outstanding in the direction of the call itself
      exact absurd hout (not_or.mpr ⟨hflag, not_not.mpr hclear⟩)
    · obtain ⟨hnot, htype⟩ := h hout
      have hflags : ∀ b : Dir, b.flag ∈ (takenBack d s ep).state ↔ b.flag ∈ s.state := by
        intro b
        rcases Dir.eq_or_eq_other d b with rfl | rfl
        · exact iff_of_false (flag_notMem_takenBack b s ep) hflag
        · exact mem_takenBack_other d s ep
      refine ⟨?_, ?_, ?_, ?_, ?_, ?_⟩
      · rw [Sock.op_setOp_other]
        cases d <;> rfl
      · rw [Sock.state_setOp]
        exact hflags .read
      · rw [Sock.state_setOp]
        exact hflags .write
      · rw [Sock.state_setOp]
        exact iff_of_false hbind hnot
      · rw [Sock.type_setOp]
        exact htype.symm
      · rw [Sock.interest_setOp]
        rfl

/-- A `CtlEpoll` that fails registers nothing. -/
theorem ctlEpoll_failed {e : Service} {i opset : ℕ} {flag : Ctl} {events : Finset EventBit}
    {os : Os} (h : (e.ctlEpoll i opset flag events os 0).2 ≠ 0) :
    ∃ ep, (e.ctlEpoll i opset flag events os 0).1.socks i = { e.socks i with epoll := ep } := by
  obtain ⟨ep, hep⟩ : ∃ ep, (if flag = .add ∧ (e.socks i).epoll = none then e.chooseImpl i
      else e).socks i = { e.socks i with epoll := ep } := by
    split
    · obtain ⟨ep, hep, -⟩ := e.chooseImpl_sock i
      exact ⟨ep, hep⟩
    · exact ⟨(e.socks i).epoll, rfl⟩
  unfold ctlEpoll at h ⊢
  generalize (if flag = .add ∧ (e.socks i).epoll = none then e.chooseImpl i else e) = e₁ at h hep ⊢
  dsimp only at h ⊢
  split
  · exact ⟨ep, hep⟩
  · rename_i hne
    rw [if_neg hne] at h
    split
    · rename_i hctl
      rw [if_pos hctl] at h
      exact absurd rfl h
    · exact ⟨ep, hep⟩

/-! ## The paths that report an error -/

/-- Nothing but the operation is written before `CtlEpoll`. -/
theorem asyncSome_early {d : Dir} {e : Service} {i : ℕ} (buf len handler : ℕ) {os : Os}
    (h : (e.socks i).fd = none ∨ d.flag ∈ (e.socks i).state ∨
      (.block ∈ (e.socks i).state ∧ os.nonblock ≠ true)) :
    (e.asyncSome d i buf len handler os 0).1.socks i = (e.socks i).setOp .clear d := by
  have hbreak : ∃ error, (e.setOp d i ⟨buf, len, true, some handler⟩).postSection d i os 0 =
      (e.setOp d i ⟨buf, len, true, some handler⟩, error, true) := by
    unfold postSection
    simp only [setOp, setSock_same, Sock.fd_setOp, Sock.state_setOp]
    split
    · exact ⟨_, rfl⟩
    · rename_i hfd
      split
      · exact ⟨_, rfl⟩
      · rename_i hflag
        rw [if_pos ((h.resolve_left hfd).resolve_left hflag)]
        exact ⟨_, rfl⟩
  obtain ⟨error, hbreak⟩ := hbreak
  rw [asyncSome]
  simp only [hbreak, if_true]
  rw [setOp, setSock_same, setOp, setSock_same]
  cases d <;> rfl

/-- The path behind a `CtlEpoll` that failed. -/
theorem asyncSome_failed {d : Dir} {e : Service} {i buf len handler : ℕ} {os : Os}
    (hfd : (e.socks i).fd ≠ none) (hflag : d.flag ∉ (e.socks i).state)
    (hblock : .block ∈ (e.socks i).state → os.nonblock = true)
    (herror : (e.asyncSome d i buf len handler os 0).2 ≠ 0) :
    ∃ ep, (e.asyncSome d i buf len handler os 0).1.socks i =
      (takenBack d (e.socks i) ep).setOp .clear d := by
  have hblock' : ¬ (.block ∈ (e.socks i).state ∧ ¬ os.nonblock = true) :=
    fun h ↦ h.2 (hblock h.1)
  unfold asyncSome postSection at herror ⊢
  simp only [setOp, setSock_same, Sock.fd_setOp, Sock.state_setOp, if_neg hfd, if_neg hflag,
    if_neg hblock'] at herror ⊢
  generalize hmarked : (e.setSock i ((e.socks i).setOp ⟨buf, len, true, some handler⟩ d)).setSock i
    (markPosted d ((e.socks i).setOp ⟨buf, len, true, some handler⟩ d)) = e₁ at herror ⊢
  have hctl : (e₁.ctlEpoll i i (if .bind ∈ (e.socks i).state then .mod else .add)
      (postEvents d ((e.socks i).setOp ⟨buf, len, true, some handler⟩ d)) os 0).2 ≠ 0 := by
    intro hzero
    apply herror
    rw [if_neg (not_not.mpr hzero)]
    exact hzero
  obtain ⟨ep, hep⟩ := ctlEpoll_failed hctl
  refine ⟨ep, ?_⟩
  rw [if_pos hctl]
  simp only [Bool.false_eq_true, if_false]
  rw [setSock_same, hep, ← hmarked, setSock_same]
  cases d <;> rfl

/-- A post that reports an error leaves what is posted on the socket as it was exactly where it
spares it. -/
theorem refused_keeps_iff (d : Dir) (e : Service) (i buf len handler : ℕ) (os : Os)
    (herror : (e.asyncSome d i buf len handler os 0).2 ≠ 0) :
    PostsKept (e.socks i) ((e.asyncSome d i buf len handler os 0).1.socks i) ↔
      SparesPosts d (e.socks i) os := by
  by_cases hearly : (e.socks i).fd = none ∨ d.flag ∈ (e.socks i).state ∨
      (.block ∈ (e.socks i).state ∧ os.nonblock ≠ true)
  · rw [asyncSome_early buf len handler hearly, postsKept_clear_iff]
    refine ⟨fun hclear ↦ ⟨hclear, ?_⟩, And.left⟩
    intro hflag hfd hblock
    rcases hearly with hnone | hmem | ⟨hmem, hfails⟩
    · exact absurd hnone hfd
    · exact absurd hmem hflag
    · exact absurd (hblock hmem) hfails
  · obtain ⟨hfd, hrest⟩ := not_or.mp hearly
    obtain ⟨hflag, hblock⟩ := not_or.mp hrest
    have hblock' : .block ∈ (e.socks i).state → os.nonblock = true :=
      fun hmem ↦ by_contra fun hfails ↦ hblock ⟨hmem, hfails⟩
    obtain ⟨ep, hep⟩ := asyncSome_failed hfd hflag hblock' herror
    rw [hep, postsKept_takenBack_iff ep hflag]
    exact ⟨fun h ↦ ⟨h.1, fun _ _ _ ↦ h.2⟩, fun h ↦ ⟨h.1, h.2 hflag hfd hblock'⟩⟩

/-- A read is posted on an accepted socket. -/
def reading : Service := (sampleService.asyncRecvSome 0 1 8 1 .good 0).1

/-- The same without a descriptor. -/
def readingShut : Service := reading.setSock 0 { reading.socks 0 with fd := none }

/-- Without a descriptor a write is refused, and the read that is posted stays. -/
theorem refused_keeps_read :
    (readingShut.asyncSome .write 0 2 8 2 .good 0).2 ≠ 0 ∧
      .read ∈ (readingShut.socks 0).state ∧
      PostsKept (readingShut.socks 0)
        ((readingShut.asyncSome .write 0 2 8 2 .good 0).1.socks 0) := by
  have herror : (readingShut.asyncSome .write 0 2 8 2 .good 0).2 ≠ 0 := by decide
  refine ⟨herror, by decide, (refused_keeps_iff .write readingShut 0 2 8 2 .good herror).mpr ?_⟩
  refine ⟨by decide, ?_⟩
  intro _ hfd
  exact absurd rfl hfd

/-- The second read is refused, and its refusal clears the operation of the first: the completion
of the first then has no socket to lock. -/
theorem second_read_clears :
    (reading.asyncSome .read 0 2 8 2 .good 0).2 = .postedRead ∧
      ¬ PostsKept (reading.socks 0) ((reading.asyncSome .read 0 2 8 2 .good 0).1.socks 0) ∧
      (reading.socks 0).rop = ⟨1, 8, true, some 1⟩ ∧
      (reading.asyncSome .read 0 2 8 2 .good 0).1.readComplete 0 0 .good = none := by
  refine ⟨by decide, ?_, by decide, rfl⟩
  intro h
  exact absurd (h .read (Or.inl (by decide))).op_eq (by decide)

end Service

end Epoll

end Slience
