import Slience.Socket.Accept

/-!
# How a socket gets bound

A socket gets its `epoll` instance in the first `CtlEpoll` that adds it, and keeps it.  A post
or a completion changes nothing else that decides what `IoAccess::Close` does: the descriptor, and
whether the socket was marked as closed.
-/

namespace Slience

namespace Epoll

/-- The `_handler` of every running `IoServiceImpl`. -/
def Service.handlers (e : Service) : List ℕ := e.implvector.map (·.handler)

def Sock.op (s : Sock) : Dir → RwOperation
  | .read => s.rop
  | .write => s.wop

/-- A socket with a flag of `CtlEpoll` or of a post is bound. -/
def Sock.FlagsBound (s : Sock) : Prop :=
  .bind ∈ s.state ∨ .read ∈ s.state ∨ .write ∈ s.state → s.epoll ≠ none

/-- The `epoll` instance is kept, or a first one chosen. -/
def Chosen (handlers : List ℕ) (old new : Option ℕ) : Prop :=
  new = old ∨ old = none ∧ ∃ h ∈ handlers, new = some h

namespace Chosen

variable {handlers : List ℕ} {old new last : Option ℕ}

theorem refl (handlers : List ℕ) (old : Option ℕ) : Chosen handlers old old := Or.inl rfl

theorem trans (h : Chosen handlers old new) (h' : Chosen handlers new last) :
    Chosen handlers old last := by
  rcases h with rfl | ⟨hnone, k, hk, rfl⟩
  · exact h'
  · rcases h' with rfl | ⟨hnone', -⟩
    · exact Or.inr ⟨hnone, k, hk, rfl⟩
    · cases hnone'

theorem ne_none (h : Chosen handlers old new) (hold : old ≠ none) : new ≠ none := by
  rcases h with rfl | ⟨hnone, -⟩
  · exact hold
  · exact absurd hnone hold

theorem mem (h : Chosen handlers old new) (hold : ∀ k, old = some k → k ∈ handlers) :
    ∀ k, new = some k → k ∈ handlers := by
  rcases h with rfl | ⟨-, j, hj, rfl⟩
  · exact hold
  · rintro k ⟨⟩
    exact hj

end Chosen

/-- What a post or a completion of reading or writing leaves of a socket. -/
structure Posting (handlers : List ℕ) (s s' : Sock) : Prop where
  fd_eq : s'.fd = s.fd
  close_iff : .close ∈ s'.state ↔ .close ∈ s.state
  cop_eq : s'.cop = s.cop
  chosen : Chosen handlers s.epoll s'.epoll

namespace Posting

variable {handlers : List ℕ} {s s' s'' : Sock}

theorem refl (handlers : List ℕ) (s : Sock) : Posting handlers s s :=
  ⟨rfl, Iff.rfl, rfl, Chosen.refl handlers s.epoll⟩

theorem trans (h : Posting handlers s s') (h' : Posting handlers s' s'') :
    Posting handlers s s'' where
  fd_eq := h'.fd_eq.trans h.fd_eq
  close_iff := h'.close_iff.trans h.close_iff
  cop_eq := h'.cop_eq.trans h.cop_eq
  chosen := h.chosen.trans h'.chosen

theorem setOp (h : Posting handlers s s') (op : RwOperation) (d : Dir) :
    Posting handlers s (s'.setOp op d) := by
  cases d <;> exact ⟨h.fd_eq, h.close_iff, h.cop_eq, h.chosen⟩

end Posting

theorem Sock.op_setOp_self (s : Sock) (op : RwOperation) (d : Dir) : (s.setOp op d).op d = op := by
  cases d <;> rfl

theorem Sock.op_setOp_other (s : Sock) (op : RwOperation) (d : Dir) :
    (s.setOp op d).op d.other = s.op d.other := by
  cases d <;> rfl

theorem Sock.state_setOp (s : Sock) (op : RwOperation) (d : Dir) :
    (s.setOp op d).state = s.state := by
  cases d <;> rfl

theorem Sock.epoll_setOp (s : Sock) (op : RwOperation) (d : Dir) :
    (s.setOp op d).epoll = s.epoll := by
  cases d <;> rfl

theorem Sock.fd_setOp (s : Sock) (op : RwOperation) (d : Dir) : (s.setOp op d).fd = s.fd := by
  cases d <;> rfl

namespace Service

theorem handlers_chooseImpl (e : Service) (i : ℕ) : (e.chooseImpl i).handlers = e.handlers := by
  unfold chooseImpl
  split
  · rfl
  · simp only [handlers]
    apply List.ext_getElem?
    intro k
    rw [List.getElem?_map, List.getElem?_map, List.getElem?_modify]
    cases e.implvector[k]? with
    | none => rfl
    | some p =>
        simp only [Option.map_some]
        split <;> rfl

theorem chooseImpl_sock (e : Service) (i : ℕ) :
    ∃ ep, (e.chooseImpl i).socks i = { e.socks i with epoll := ep } ∧
      ((e.implvector = [] ∧ ep = (e.socks i).epoll) ∨ ∃ h ∈ e.handlers, ep = some h) := by
  by_cases hempty : e.implvector = []
  · rw [chooseImpl, if_pos hempty]
    exact ⟨(e.socks i).epoll, rfl, Or.inl ⟨hempty, rfl⟩⟩
  · have hlt := Nat.mod_lt (e.implidx + 1).toNat (List.length_pos_of_ne_nil hempty)
    rw [chooseImpl, if_neg hempty]
    refine ⟨_, setSock_same .., Or.inr ?_⟩
    rw [List.getElem?_eq_getElem hlt]
    exact ⟨_, List.mem_map_of_mem (List.getElem_mem hlt), rfl⟩

/-- `CtlEpoll` changes the registration, and the `epoll` instance of a socket that has none. -/
theorem ctlEpoll_sock (e : Service) (i opset : ℕ) (flag : Ctl) (events : Finset EventBit) (os : Os)
    (error : SocketError) :
    ∃ ep interest,
      (e.ctlEpoll i opset flag events os error).1.socks i =
        { e.socks i with epoll := ep, interest := interest } ∧
      (e.ctlEpoll i opset flag events os error).1.handlers = e.handlers ∧
      Chosen e.handlers (e.socks i).epoll ep ∧
      (ep = none → (e.ctlEpoll i opset flag events os error).2 ≠ 0) ∧
      (flag = .add → e.implvector ≠ [] → ep ≠ none) := by
  obtain ⟨ep, hep, hhandlers, hchosen, hadd⟩ :
      ∃ ep, (if flag = .add ∧ (e.socks i).epoll = none then e.chooseImpl i else e).socks i =
          { e.socks i with epoll := ep } ∧
        (if flag = .add ∧ (e.socks i).epoll = none then e.chooseImpl i else e).handlers =
          e.handlers ∧
        Chosen e.handlers (e.socks i).epoll ep ∧
        (flag = .add → e.implvector ≠ [] → ep ≠ none) := by
    split
    · rename_i hnone
      obtain ⟨ep, hep, hcases⟩ := e.chooseImpl_sock i
      refine ⟨ep, hep, e.handlers_chooseImpl i, ?_, ?_⟩
      · rcases hcases with ⟨-, rfl⟩ | hmem
        · exact Chosen.refl ..
        · exact Or.inr ⟨hnone.2, hmem⟩
      · intro _ himpl
        rcases hcases with ⟨hempty, -⟩ | ⟨h, -, rfl⟩
        · exact absurd hempty himpl
        · exact Option.some_ne_none h
    · rename_i hnot
      refine ⟨(e.socks i).epoll, rfl, rfl, Chosen.refl .., ?_⟩
      intro hadd _ hnone
      exact hnot ⟨hadd, hnone⟩
  unfold ctlEpoll
  generalize (if flag = .add ∧ (e.socks i).epoll = none then e.chooseImpl i else e) = e₁
    at hep hhandlers ⊢
  dsimp only
  have hepoll : (e₁.socks i).epoll = ep := by rw [hep]
  split
  · refine ⟨ep, (e.socks i).interest, hep, hhandlers, hchosen, ?_, hadd⟩
    intro _
    exact (by decide : SocketError.notService ≠ 0)
  · rename_i hne
    rw [hepoll] at hne
    split
    · refine ⟨ep, if flag = .del then none else some (opset, events), ?_, hhandlers, hchosen,
        fun hnone ↦ absurd hnone hne, hadd⟩
      rw [setSock_same, hep]
    · exact ⟨ep, (e.socks i).interest, hep, hhandlers, hchosen, fun hnone ↦ absurd hnone hne, hadd⟩

/-! ## Reading and writing -/

/-- What a section of reading or writing in direction `d` does to the socket `i`. -/
structure Section (d : Dir) (i : ℕ) (e e' : Service) : Prop where
  posting : Posting e.handlers (e.socks i) (e'.socks i)
  handlers_eq : e'.handlers = e.handlers
  op_eq : (e'.socks i).op d.other = (e.socks i).op d.other
  flagsBound : (e.socks i).FlagsBound → (e'.socks i).FlagsBound

namespace Section

variable {d : Dir} {i : ℕ} {e e' e'' : Service}

theorem refl (d : Dir) (i : ℕ) (e : Service) : Section d i e e :=
  ⟨Posting.refl _ _, rfl, rfl, id⟩

theorem trans (h : Section d i e e') (h' : Section d i e' e'') : Section d i e e'' where
  posting := by
    have hposting := h'.posting
    rw [h.handlers_eq] at hposting
    exact h.posting.trans hposting
  handlers_eq := h'.handlers_eq.trans h.handlers_eq
  op_eq := h'.op_eq.trans h.op_eq
  flagsBound := h'.flagsBound ∘ h.flagsBound

end Section

theorem section_setOp (d : Dir) (i : ℕ) (e : Service) (op : RwOperation) :
    Section d i e (e.setOp d i op) where
  posting := by
    rw [setOp, setSock_same]
    exact (Posting.refl _ _).setOp op d
  handlers_eq := rfl
  op_eq := by rw [setOp, setSock_same, Sock.op_setOp_other]
  flagsBound h := by
    rw [setOp, setSock_same, Sock.FlagsBound, Sock.state_setOp, Sock.epoll_setOp]
    exact h

theorem mem_markPosted {d : Dir} {s : Sock} {b : StateBit} (hbind : b ≠ .bind)
    (hflag : b ≠ d.flag) : b ∈ (markPosted d s).state ↔ b ≠ .block ∧ b ∈ s.state := by
  rw [markPosted, Finset.mem_insert, Finset.mem_insert, Finset.mem_erase, or_iff_right hbind,
    or_iff_right hflag]

theorem close_ne_flag (d : Dir) : StateBit.close ≠ d.flag := by
  cases d <;> decide

theorem close_mem_markPosted (d : Dir) (s : Sock) :
    .close ∈ (markPosted d s).state ↔ .close ∈ s.state := by
  rw [mem_markPosted (by decide) (close_ne_flag d)]
  exact and_iff_right (by decide)

theorem mem_of_takenBack {d : Dir} {s : Sock} {b : StateBit}
    (h : b ∈ ((markPosted d s).state.erase d.flag).erase .bind) : b ∈ s.state := by
  obtain ⟨hbind, h⟩ := Finset.mem_erase.mp h
  obtain ⟨hflag, h⟩ := Finset.mem_erase.mp h
  exact ((mem_markPosted hbind hflag).mp h).2

theorem section_postSection (d : Dir) (e : Service) (i : ℕ) (os : Os) (error : SocketError) :
    Section d i e (e.postSection d i os error).1 := by
  unfold postSection
  dsimp only
  split
  · exact Section.refl d i e
  · split
    · exact Section.refl d i e
    · split
      · exact Section.refl d i e
      · obtain ⟨ep, interest, hsock, hhandlers, hchosen, herror, -⟩ :=
          (e.setSock i (markPosted d (e.socks i))).ctlEpoll_sock i i
            (if .bind ∈ (e.socks i).state then .mod else .add) (postEvents d (e.socks i)) os error
        generalize (e.setSock i (markPosted d (e.socks i))).ctlEpoll i i
          (if .bind ∈ (e.socks i).state then .mod else .add) (postEvents d (e.socks i)) os error = p
          at hsock hhandlers herror ⊢
        rw [setSock_same] at hsock hchosen
        have hposted : (markPosted d (e.socks i)).op d.other = (e.socks i).op d.other := by
          cases d <;> rfl
        have hop : (p.1.socks i).op d.other = (e.socks i).op d.other := by
          rw [hsock]
          cases d <;> rfl
        have hclose := close_mem_markPosted d (e.socks i)
        split
        · refine ⟨?_, hhandlers, ?_, ?_⟩
          · rw [setSock_same, hsock]
            apply Posting.setOp
            refine ⟨rfl, ?_, rfl, hchosen⟩
            change StateBit.close ∈ ((markPosted d (e.socks i)).state.erase d.flag).erase .bind ↔ _
            rw [Finset.mem_erase, Finset.mem_erase, hclose]
            exact (and_iff_right (by decide)).trans (and_iff_right (close_ne_flag d))
          · rw [setSock_same, Sock.op_setOp_other, ← hop]
            cases d <;> rfl
          · intro hbound
            rw [setSock_same, hsock, Sock.FlagsBound, Sock.state_setOp, Sock.epoll_setOp]
            intro hflags
            apply hchosen.ne_none
            apply hbound
            rcases hflags with hb | hb | hb
            · exact Or.inl (mem_of_takenBack hb)
            · exact Or.inr (Or.inl (mem_of_takenBack hb))
            · exact Or.inr (Or.inr (mem_of_takenBack hb))
        · rename_i hok
          refine ⟨?_, hhandlers, hop, ?_⟩
          · rw [hsock]
            exact ⟨rfl, hclose, rfl, hchosen⟩
          · intro _ _
            rw [hsock]
            exact fun hnone ↦ hok (herror hnone)

theorem section_asyncSome (d : Dir) (e : Service) (i buf len handler : ℕ) (os : Os)
    (error : SocketError) : Section d i e (e.asyncSome d i buf len handler os error).1 := by
  unfold asyncSome
  dsimp only
  have hsection := (section_setOp d i e ⟨buf, len, true, some handler⟩).trans
    (section_postSection d (e.setOp d i ⟨buf, len, true, some handler⟩) i os error)
  split
  · exact hsection.trans (section_setOp ..)
  · exact hsection

/-- A post on an open socket binds it, where a thread runs and `SetNonBlock` does not fail first. -/
theorem asyncSome_bound (d : Dir) (e : Service) (i buf len handler : ℕ) (os : Os)
    (error : SocketError) (hfd : (e.socks i).fd ≠ none) (himpl : e.implvector ≠ [])
    (hbound : (e.socks i).FlagsBound) (h : os.nonblock = true ∨ (e.socks i).epoll ≠ none) :
    ((e.asyncSome d i buf len handler os error).1.socks i).epoll ≠ none := by
  have hchosen := (section_asyncSome d e i buf len handler os error).posting.chosen
  by_cases hepoll : (e.socks i).epoll ≠ none
  · exact hchosen.ne_none hepoll
  · have hnonblock := h.resolve_right hepoll
    have hflag : d.flag ∉ (e.socks i).state := by
      intro hmem
      apply hepoll
      apply hbound
      cases d
      · exact Or.inr (Or.inl hmem)
      · exact Or.inr (Or.inr hmem)
    have hbind : .bind ∉ (e.socks i).state := fun hmem ↦ hepoll (hbound (Or.inl hmem))
    have hpost : ((postSection d (e.setOp d i ⟨buf, len, true, some handler⟩) i os error).1.socks
        i).epoll ≠ none := by
      unfold postSection
      simp only [setOp, setSock_same, Sock.fd_setOp, Sock.state_setOp, if_neg hfd, if_neg hflag,
        if_neg hbind, hnonblock, not_true_eq_false, and_false, if_false]
      generalize hsock :
        (e.setSock i ((e.socks i).setOp ⟨buf, len, true, some handler⟩ d)).setSock i
        (markPosted d ((e.socks i).setOp ⟨buf, len, true, some handler⟩ d)) = e₁
      have himpl' : e₁.implvector ≠ [] := by
        rw [← hsock]
        exact himpl
      obtain ⟨ep, interest, hctl, -, -, -, hadd⟩ := e₁.ctlEpoll_sock i i .add
        (postEvents d ((e.socks i).setOp ⟨buf, len, true, some handler⟩ d)) os error
      have hne := hadd rfl himpl'
      split
      · rw [setSock_same, Sock.epoll_setOp, hctl]
        exact hne
      · rw [hctl]
        exact hne
    unfold asyncSome
    dsimp only
    split
    · rw [setOp, setSock_same, Sock.epoll_setOp]
      exact hpost
    · exact hpost

/-- The completions of reading and writing in one. -/
def complete : Dir → Service → ℕ → ℕ → Os → Option (Service × Bool)
  | .read => readComplete
  | .write => writeComplete

theorem complete_of_impl (d : Dir) (e : Service) (i opset : ℕ) (os : Os)
    (h : ((e.socks i).op d).impl = true) :
    ∃ e', complete d e i opset os = some (e', ((e.socks i).fd).isSome) := by
  cases d with
  | read =>
      have h' : (e.socks i).rop.impl = true := h
      simp only [complete, readComplete, readSection, if_pos h']
      split <;> exact ⟨_, rfl⟩
  | write =>
      have h' : (e.socks i).wop.impl = true := h
      simp only [complete, writeComplete, writeSection, if_pos h']
      split <;> exact ⟨_, rfl⟩

theorem section_flags (d : Dir) (e : Service) (i : ℕ) (flags : Finset EventBit) (os : Os)
    (bits : Finset OpBit) :
    Section d i e ((e.setSock i { e.socks i with
      state := (e.socks i).state.erase d.flag, type := bits }).ctlEpoll i i .mod flags os 0).1 := by
  obtain ⟨ep, interest, hsock, hhandlers, hchosen, -, -⟩ := (e.setSock i { e.socks i with
    state := (e.socks i).state.erase d.flag, type := bits }).ctlEpoll_sock i i .mod flags os 0
  rw [setSock_same] at hsock hchosen
  have hne : StateBit.close ≠ d.flag := by cases d <;> decide
  refine ⟨?_, hhandlers, ?_, ?_⟩
  · rw [hsock]
    exact ⟨rfl, by simp [hne], rfl, hchosen⟩
  · rw [hsock]
    cases d <;> rfl
  · intro hbound
    rw [hsock]
    intro hflags
    apply hchosen.ne_none
    apply hbound
    rcases hflags with hb | hb | hb
    · exact Or.inl (Finset.mem_of_mem_erase hb)
    · exact Or.inr (Or.inl (Finset.mem_of_mem_erase hb))
    · exact Or.inr (Or.inr (Finset.mem_of_mem_erase hb))

theorem section_readSection {e e' : Service} {i : ℕ} {os : Os}
    (h : e.readSection i i os = some e') : Section .read i e e' := by
  unfold readSection at h
  split at h
  · split at h
    · simp only [setSock_same, setSock_setSock] at h
      cases h
      exact section_flags .read e i _ os _
    · cases h
      exact Section.refl ..
  · cases h

theorem section_writeSection {e e' : Service} {i : ℕ} {os : Os}
    (h : e.writeSection i i os = some e') : Section .write i e e' := by
  unfold writeSection at h
  split at h
  · simp only [setSock_same, setSock_setSock] at h
    split at h
    · cases h
      exact section_flags .write e i _ os _
    · cases h
      refine ⟨?_, rfl, ?_, ?_⟩
      · rw [setSock_same]
        exact ⟨rfl, Iff.rfl, rfl, Chosen.refl ..⟩
      · rw [setSock_same]
        rfl
      · rw [setSock_same]
        exact id
  · cases h

theorem complete_spec {d : Dir} {e e' : Service} {i : ℕ} {os : Os} {notify : Bool}
    (h : complete d e i i os = some (e', notify)) :
    Section d i e e' ∧ (e'.socks i).op d = .clear := by
  cases d with
  | read =>
      simp only [complete, readComplete, Option.bind_eq_bind, Option.bind_eq_some_iff] at h
      obtain ⟨e₁, hsection, h⟩ := h
      cases h
      refine ⟨(section_readSection hsection).trans (section_setOp ..), ?_⟩
      rw [setOp, setSock_same, Sock.op_setOp_self]
  | write =>
      simp only [complete, writeComplete, Option.bind_eq_bind, Option.bind_eq_some_iff] at h
      obtain ⟨e₁, hsection, h⟩ := h
      cases h
      refine ⟨(section_writeSection hsection).trans (section_setOp ..), ?_⟩
      rw [setOp, setSock_same, Sock.op_setOp_self]

/-! ## Connecting -/

theorem asyncConnect_spec (e : Service) (i : ℕ) (valid connected : Bool) (handler : ℕ) (os : Os)
    (error : SocketError) :
    (∀ d, ((e.asyncConnect i valid connected handler os error).1.socks i).op d =
        (e.socks i).op d) ∧
      ((e.asyncConnect i valid connected handler os error).2 ≠ 0 → (e.socks i).cop.impl = false →
        ((e.asyncConnect i valid connected handler os error).1.socks i).cop.impl = false) := by
  unfold asyncConnect
  dsimp only
  split
  · exact ⟨fun _ ↦ rfl, fun _ h ↦ h⟩
  split
  · exact ⟨fun _ ↦ rfl, fun _ h ↦ h⟩
  split
  · exact ⟨fun _ ↦ rfl, fun _ h ↦ h⟩
  split
  · exact ⟨fun _ ↦ rfl, fun _ h ↦ h⟩
  split
  · rw [setSock_same]
    exact ⟨fun d ↦ by cases d <;> rfl, fun _ h ↦ h⟩
  simp only [setSock_same, setSock_setSock]
  by_cases hbind : .bind ∈ insert StateBit.connect ((e.socks i).state.erase .block)
  · simp only [if_pos hbind]
    split
    · rw [setSock_same, setSock_same]
      exact ⟨fun d ↦ by cases d <;> rfl, fun _ _ ↦ rfl⟩
    · rename_i hok
      rw [setSock_same]
      exact ⟨fun d ↦ by cases d <;> rfl, fun hne ↦ absurd hne hok⟩
  · simp only [if_neg hbind]
    generalize hsock : e.setSock i { e.socks i with
      state := insert .bind (insert .connect ((e.socks i).state.erase .block))
      type := {.connect}
      cop := ⟨true, some handler⟩ } = e₁
    have hop : ∀ d, (e₁.socks i).op d = (e.socks i).op d := by
      intro d
      rw [← hsock, setSock_same]
      cases d <;> rfl
    obtain ⟨ep, interest, hctl, -⟩ :=
      e₁.ctlEpoll_sock i i .add {.epollout, .epolloneshot} os error
    split
    · rw [setSock_same, hctl]
      exact ⟨fun d ↦ by rw [← hop d]; cases d <;> rfl, fun _ _ ↦ rfl⟩
    · rename_i hok
      rw [hctl]
      exact ⟨fun d ↦ by rw [← hop d]; cases d <;> rfl, fun hne ↦ absurd hne hok⟩

theorem connectComplete_spec {e e' : Service} {i : ℕ} {notify : Bool}
    (h : e.connectComplete i i = some (e', notify)) :
    (∀ d, (e'.socks i).op d = (e.socks i).op d) ∧ (e'.socks i).cop = .clear := by
  unfold connectComplete at h
  dsimp only at h
  split at h
  · split at h <;> cases h <;> simp only [setSock_same] <;>
      exact ⟨fun d ↦ by cases d <;> rfl, trivial⟩
  · cases h

end Service

end Epoll

end Slience
