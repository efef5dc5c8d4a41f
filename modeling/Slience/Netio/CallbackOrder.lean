import Slience.Netio.Lifetime

/-!
# The order of the callbacks

`OnConnected`, `OnReceiveData` and `OnDisconnected` come in this order, and a closed socket
stays closed, as long as nobody closes a connector whose connect is still under way or connects it
a second time, and no `OnReceiveData` gives up the coroutine with a close request waiting.
-/

namespace Slience

namespace Lifetime

open Epoll

/-- A prefix of `OnConnected`, `OnReceiveData`*, `OnDisconnected`. -/
def InOrder (log : List NetCallback) : Prop :=
  ∃ n, log <+: .onConnected :: (List.replicate n .onReceiveData ++ [.onDisconnected])

/-- `OnConnected` and `n` times `OnReceiveData`. -/
def received (n : ℕ) : List NetCallback := .onConnected :: List.replicate n .onReceiveData

/-- The callbacks that were made, by the phase of the connection. -/
def Told (log : List NetCallback) : LifePhase → Prop
  | .announced | .running | .failed =>
      ∃ n, log = received n ∨ log = received n ++ [.onDisconnected]
  | _ => log = []

/-- A connector is connected once, and closed only when its connect is through; the close handler
is not called inside an `OnReceiveData`. -/
def Timely (s : Lifetime) : LifeMove → Prop
  | .asyncConnect .. => s.phase = .idle
  | .close => s.phase.early = false
  | .doClose => s.reader ≠ .cutting
  | _ => True

instance (s : Lifetime) (a : LifeMove) : Decidable (Timely s a) :=
  match a with
  | .asyncConnect .. => inferInstanceAs (Decidable (s.phase = .idle))
  | .close => inferInstanceAs (Decidable (s.phase.early = false))
  | .doClose => inferInstanceAs (Decidable (s.reader ≠ .cutting))
  | .connectDone _ | .connectHandler _ | .accept .. | .announce => isTrue trivial
  | .proceed _ | .readDone .. => isTrue trivial
  | .readHandler | .receive | .readEnd .. | .readClose | .writeDone .. => isTrue trivial
  | .writeHandler .. | .send _ | .closeHandler | .others .. => isTrue trivial

structure Lives (impl : ℕ) (s : Lifetime) : Prop where
  told : Told s.log s.phase
  early_flag : s.phase.early = true → s.flag = .stop
  early_writer : s.phase.early = true → s.writer = none ∧ (s.svc.socks impl).wop.impl = false
  connecting_of_cop : (s.svc.socks impl).cop.impl = true → s.phase = .connecting
  running_of_reader : s.reader ≠ .away → s.phase = .running
  running_of_rop : (s.svc.socks impl).rop.impl = true → s.phase = .running
  once : s.closereqs.length + s.log.count .onDisconnected ≤ 1
  unclosed : s.flag ≠ .close → s.closereqs.length + s.log.count .onDisconnected = 0
  closing : s.closing = true →
    s.closereqs ≠ [] ∧ s.phase.early = false ∧ s.phase ≠ .announcing ∧ s.reader ≠ .cutting
  quiet : .onDisconnected ∈ s.log → s.reader ≠ .cutting

theorem received_succ (n : ℕ) : received (n + 1) = received n ++ [.onReceiveData] := by
  rw [received, received, List.replicate_succ', List.cons_append]

theorem notMem_received (n : ℕ) : .onDisconnected ∉ received n := by
  rw [received, List.mem_cons, List.mem_replicate]
  simp

theorem count_received (n : ℕ) : (received n).count .onDisconnected = 0 :=
  List.count_eq_zero_of_not_mem (notMem_received n)

theorem told_iff {log : List NetCallback} {phase : LifePhase} (hlate : phase.early = false)
    (hphase : phase ≠ .announcing) :
    Told log phase ↔ ∃ n, log = received n ∨ log = received n ++ [.onDisconnected] := by
  cases phase with
  | announcing => exact absurd rfl hphase
  | announced => exact Iff.rfl
  | running => exact Iff.rfl
  | failed => exact Iff.rfl
  | _ => cases hlate

theorem Told.inOrder {log : List NetCallback} {phase : LifePhase} (h : Told log phase) :
    InOrder log := by
  have htold : log = [] ∨ ∃ n, log = received n ∨ log = received n ++ [.onDisconnected] := by
    cases phase with
    | announced => exact Or.inr h
    | running => exact Or.inr h
    | failed => exact Or.inr h
    | _ => exact Or.inl h
  rcases htold with rfl | ⟨n, rfl | rfl⟩
  · exact ⟨0, List.nil_prefix⟩
  · exact ⟨n, List.prefix_append (received n) [.onDisconnected]⟩
  · exact ⟨n, List.prefix_rfl⟩

/-- What the sending side and `_Close` change. -/
structure Shut (impl : ℕ) (s s' : Lifetime) : Prop where
  phase_eq : s'.phase = s.phase
  reader_eq : s'.reader = s.reader
  closing_eq : s'.closing = s.closing
  log_eq : s'.log = s.log
  cop_eq : (s'.svc.socks impl).cop = (s.svc.socks impl).cop
  rop_eq : (s'.svc.socks impl).rop = (s.svc.socks impl).rop
  closed : s.flag = .close → s'.flag = .close
  closereqs : s'.closereqs = s.closereqs ∨
    s.flag ≠ .close ∧ s'.flag = .close ∧ ∃ h, s'.closereqs = s.closereqs ++ [h]

namespace Shut

variable {impl : ℕ} {s s' s'' : Lifetime}

theorem refl (impl : ℕ) (s : Lifetime) : Shut impl s s :=
  ⟨rfl, rfl, rfl, rfl, rfl, rfl, id, Or.inl rfl⟩

theorem trans (h : Shut impl s s') (h' : Shut impl s' s'') : Shut impl s s'' where
  phase_eq := h'.phase_eq.trans h.phase_eq
  reader_eq := h'.reader_eq.trans h.reader_eq
  closing_eq := h'.closing_eq.trans h.closing_eq
  log_eq := h'.log_eq.trans h.log_eq
  cop_eq := h'.cop_eq.trans h.cop_eq
  rop_eq := h'.rop_eq.trans h.rop_eq
  closed := h'.closed ∘ h.closed
  closereqs := by
    rcases h'.closereqs with heq | ⟨hne, hclose, j, hj⟩
    · rw [heq]
      rcases h.closereqs with heq' | ⟨hne', hclose', hj'⟩
      · exact Or.inl heq'
      · exact Or.inr ⟨hne', h'.closed hclose', hj'⟩
    · rcases h.closereqs with heq' | ⟨-, hclose', -⟩
      · rw [heq'] at hj
        exact Or.inr ⟨fun hc ↦ hne (h.closed hc), hclose, j, hj⟩
      · exact absurd hclose' hne

end Shut

variable {impl : ℕ} {kind : SocketKind} {isco : Bool} {s s' : Lifetime}

theorem shut_close (impl : ℕ) (s : Lifetime) : Shut impl s (s.close impl) := by
  unfold close
  split
  · exact Shut.refl impl s
  · rename_i hflag
    split
    · exact ⟨rfl, rfl, rfl, rfl, rfl, rfl, fun hc ↦ absurd hc hflag, Or.inl rfl⟩
    · obtain ⟨svc, fd, state, simpl, heq, hsock, -⟩ := socketClose_eq impl { s with flag := .close }
      rw [heq]
      refine ⟨rfl, rfl, rfl, rfl, ?_, ?_, fun _ ↦ rfl, ?_⟩
      · change (svc.socks impl).cop = _
        rw [hsock]
      · change (svc.socks impl).rop = _
        rw [hsock]
      · cases simpl with
        | none => exact Or.inl (List.append_nil _)
        | some h => exact Or.inr ⟨hflag, rfl, h, rfl⟩

theorem shut_trySendData (impl : ℕ) (more : Bool) (os : Os) (s : Lifetime) :
    Shut impl s (trySendData impl more os s).2 := by
  unfold trySendData
  split
  · exact Shut.refl impl s
  split
  · have hsection := Service.section_asyncSome .write s.svc impl 0 0 impl os 0
    have hsent : Shut impl s { s with svc := (s.svc.asyncSendSome impl 0 0 impl os 0).1 } :=
      ⟨rfl, rfl, rfl, rfl, hsection.posting.cop_eq, hsection.op_eq, id, Or.inl rfl⟩
    dsimp only
    split
    · exact hsent.trans (shut_close impl _)
    · exact hsent.trans ⟨rfl, rfl, rfl, rfl, rfl, rfl, id, Or.inl rfl⟩
  · exact Shut.refl impl s

theorem shut_writeHandler (impl : ℕ) (good more : Bool) (os : Os) (s : Lifetime) :
    Shut impl s (writeHandler impl good more os s) := by
  have hwritten : Shut impl s { s with writing := false } :=
    ⟨rfl, rfl, rfl, rfl, rfl, rfl, id, Or.inl rfl⟩
  unfold writeHandler
  dsimp only
  split
  · exact hwritten.trans (shut_close impl _)
  · have hsent := hwritten.trans (shut_trySendData impl more os _)
    split
    · exact hsent.trans (shut_close impl _)
    · exact hsent

/-- The sending side does not come before `OnConnected`, and `_Close` not twice. -/
theorem Lives.shut (h : Lives impl s) (hshut : Shut impl s s') (hphase : s.phase.early = false) :
    Lives impl s' where
  told := by
    rw [hshut.log_eq, hshut.phase_eq]
    exact h.told
  early_flag hearly := by
    rw [hshut.phase_eq, hphase] at hearly
    cases hearly
  early_writer hearly := by
    rw [hshut.phase_eq, hphase] at hearly
    cases hearly
  connecting_of_cop hcop := by
    rw [hshut.cop_eq] at hcop
    rw [hshut.phase_eq]
    exact h.connecting_of_cop hcop
  running_of_reader hreader := by
    rw [hshut.reader_eq] at hreader
    rw [hshut.phase_eq]
    exact h.running_of_reader hreader
  running_of_rop hrop := by
    rw [hshut.rop_eq] at hrop
    rw [hshut.phase_eq]
    exact h.running_of_rop hrop
  once := by
    rw [hshut.log_eq]
    rcases hshut.closereqs with heq | ⟨hne, -, j, heq⟩
    · rw [heq]
      exact h.once
    · have hzero := h.unclosed hne
      rw [heq, List.length_append, List.length_singleton]
      omega
  unclosed hflag := by
    rw [hshut.log_eq]
    rcases hshut.closereqs with heq | ⟨-, hclose, -⟩
    · rw [heq]
      exact h.unclosed fun hc ↦ hflag (hshut.closed hc)
    · exact absurd hclose hflag
  closing hclosing := by
    rw [hshut.closing_eq] at hclosing
    rw [hshut.phase_eq, hshut.reader_eq]
    refine ⟨?_, (h.closing hclosing).2⟩
    rcases hshut.closereqs with heq | ⟨-, -, j, heq⟩
    · rw [heq]
      exact (h.closing hclosing).1
    · rw [heq]
      simp
  quiet hlog := by
    rw [hshut.log_eq] at hlog
    rw [hshut.reader_eq]
    exact h.quiet hlog

/-! ## Up to the announcement -/

/-- Nobody reads, and nothing is to be closed. -/
structure Quiet (impl : ℕ) (s : Lifetime) : Prop where
  reader_eq : s.reader = .away
  rop_eq : (s.svc.socks impl).rop.impl = false
  closereqs_eq : s.closereqs = []
  closing_eq : s.closing = false
  notMem : .onDisconnected ∉ s.log

theorem Quiet.lives (h : Quiet impl s) (htold : Told s.log s.phase)
    (hearly : s.phase.early = true →
      s.flag = .stop ∧ s.writer = none ∧ (s.svc.socks impl).wop.impl = false)
    (hcop : (s.svc.socks impl).cop.impl = true → s.phase = .connecting) : Lives impl s := by
  have hzero : s.closereqs.length + s.log.count .onDisconnected = 0 := by
    rw [h.closereqs_eq, List.count_eq_zero_of_not_mem h.notMem]
    rfl
  constructor
  · exact htold
  · exact fun hphase ↦ (hearly hphase).1
  · exact fun hphase ↦ (hearly hphase).2
  · exact hcop
  · exact fun hreader ↦ absurd h.reader_eq hreader
  · intro hrop
    rw [h.rop_eq] at hrop
    cases hrop
  · exact hzero.trans_le zero_le_one
  · exact fun _ ↦ hzero
  · intro hclosing
    rw [h.closing_eq] at hclosing
    cases hclosing
  · exact fun hmem ↦ absurd hmem h.notMem

theorem Lives.log_eq_nil (h : Lives impl s) (hphase : s.phase.early = true) : s.log = [] := by
  have htold := h.told
  revert hphase htold
  cases s.phase <;> simp [LifePhase.early, Told]

theorem Lives.quiet_of_early (h : Lives impl s) (hphase : s.phase.early = true) : Quiet impl s := by
  have hne : s.phase ≠ .running := by
    intro hrunning
    rw [hrunning] at hphase
    cases hphase
  have hflag : s.flag ≠ .close := by
    rw [h.early_flag hphase]
    decide
  have hzero := h.unclosed hflag
  constructor
  · exact not_not.mp fun hreader ↦ hne (h.running_of_reader hreader)
  · exact Bool.eq_false_iff.mpr fun hrop ↦ hne (h.running_of_rop hrop)
  · exact List.eq_nil_of_length_eq_zero (by omega)
  · refine Bool.eq_false_iff.mpr fun hclosing ↦ ?_
    rw [(h.closing hclosing).2.1] at hphase
    cases hphase
  · rw [h.log_eq_nil hphase]
    exact List.not_mem_nil

theorem Quiet.svc (h : Quiet impl s) {svc : Service} {phase : LifePhase} {flag : SocketState}
    (hop : ∀ d, (svc.socks impl).op d = (s.svc.socks impl).op d) :
    Quiet impl { s with svc := svc, phase := phase, flag := flag } :=
  ⟨h.reader_eq, (congrArg RwOperation.impl (hop .read)).trans h.rop_eq, h.closereqs_eq,
    h.closing_eq, h.notMem⟩

theorem Lives.asyncConnect (h : Lives impl s) (hphase : s.phase = .idle) (fd : Option ℕ)
    (v6 valid connected : Bool) (os : Os) (error : SocketError) :
    Lives impl (s.asyncConnect impl fd v6 valid connected os error) := by
  have hearly : s.phase.early = true := by
    rw [hphase]
    rfl
  have hquiet := h.quiet_of_early hearly
  have hflag := h.early_flag hearly
  obtain ⟨hwriter, hwop⟩ := h.early_writer hearly
  have hcop : (s.svc.socks impl).cop.impl = false := by
    refine Bool.eq_false_iff.mpr fun hcop ↦ ?_
    rw [h.connecting_of_cop hcop] at hphase
    cases hphase
  unfold Lifetime.asyncConnect
  dsimp only
  generalize hsvc : (if (s.svc.socks impl).fd = none then s.svc.setSock impl
    { s.svc.socks impl with
      fd := fd
      state := if v6 then insert StateBit.v6 (s.svc.socks impl).state
        else (s.svc.socks impl).state.erase StateBit.v6 } else s.svc) = svc
  have hop : (∀ d, (svc.socks impl).op d = (s.svc.socks impl).op d) ∧
      (svc.socks impl).cop = (s.svc.socks impl).cop := by
    rw [← hsvc]
    split
    · rw [Service.setSock_same]
      exact ⟨fun d ↦ by cases d <;> rfl, rfl⟩
    · exact ⟨fun _ ↦ rfl, rfl⟩
  split
  · apply (hquiet.svc hop.1).lives h.told
    · exact fun _ ↦ ⟨hflag, hwriter, (congrArg RwOperation.impl (hop.1 .write)).trans hwop⟩
    · intro hset
      rw [hop.2, hcop] at hset
      cases hset
  · obtain ⟨hop', hrefused⟩ := svc.asyncConnect_spec impl valid connected impl os error
    have hop'' := fun d ↦ (hop' d).trans (hop.1 d)
    apply (hquiet.svc hop'').lives
    · rw [h.log_eq_nil hearly, hphase]
      dsimp only
      split <;> rfl
    · exact fun _ ↦ ⟨hflag, hwriter, (congrArg RwOperation.impl (hop'' .write)).trans hwop⟩
    · intro hset
      dsimp only at hset ⊢
      split
      · rename_i hne
        rw [hrefused hne (by rw [hop.2, hcop])] at hset
        cases hset
      · rfl

theorem Lives.connectDone (h : Lives impl s) (kind : SocketKind)
    (hcop : (s.svc.socks impl).cop.impl = true)
    (error : Bool) : ∃ s', step impl kind s (.connectDone error) = some s' ∧ Lives impl s' := by
  have hphase := h.connecting_of_cop hcop
  have hearly : s.phase.early = true := by
    rw [hphase]
    rfl
  obtain ⟨⟨svc, notify⟩, hstep⟩ : ∃ p, s.svc.connectComplete impl impl = some p := by
    rw [Service.connectComplete, if_pos hcop]
    exact ⟨_, rfl⟩
  obtain ⟨hop, hclear⟩ := Service.connectComplete_spec hstep
  refine ⟨_, by rw [step, hstep]; rfl, ?_⟩
  apply ((h.quiet_of_early hearly).svc hop).lives
  · rw [h.log_eq_nil hearly, hphase]
    dsimp only
    split <;> rfl
  · intro _
    exact ⟨h.early_flag hearly, (h.early_writer hearly).1,
      (congrArg RwOperation.impl (hop .write)).trans (h.early_writer hearly).2⟩
  · intro hset
    rw [hclear] at hset
    cases hset

theorem Lives.settle (h : Lives impl s) (hearly : s.phase.early = true)
    (hne : s.phase ≠ .connecting) {svc : Service} (hop : ∀ d, (svc.socks impl).op d =
      (s.svc.socks impl).op d) (hcop : (svc.socks impl).cop = (s.svc.socks impl).cop) :
    Lives impl { s with svc := svc, flag := .start, phase := .announcing } ∧
      Lives impl { s with svc := svc, phase := .lost } := by
  have hquiet := h.quiet_of_early hearly
  have hset : (svc.socks impl).cop.impl ≠ true := by
    rw [hcop]
    exact fun hset ↦ hne (h.connecting_of_cop hset)
  constructor
  · apply (hquiet.svc hop).lives
    · exact h.log_eq_nil hearly
    · exact fun hphase ↦ Bool.noConfusion hphase
    · exact fun hc ↦ absurd hc hset
  · apply (hquiet.svc hop).lives
    · exact h.log_eq_nil hearly
    · exact fun _ ↦ ⟨h.early_flag hearly, (h.early_writer hearly).1,
        (congrArg RwOperation.impl (hop .write)).trans (h.early_writer hearly).2⟩
    · exact fun hc ↦ absurd hc hset

theorem Lives.connectHandler (h : Lives impl s)
    (hphase : s.phase = .completed true ∨ s.phase = .completed false) (error endpoint : Bool) :
    Lives impl (connectHandler error endpoint s) := by
  have hearly : s.phase.early = true := by
    rcases hphase with hphase | hphase <;> rw [hphase] <;> rfl
  have hne : s.phase ≠ .connecting := by
    rcases hphase with hphase | hphase <;> rw [hphase] <;> decide
  obtain ⟨hannounce, hlost⟩ := h.settle hearly hne (fun _ ↦ rfl) rfl
  unfold Lifetime.connectHandler
  split
  · have hquiet := h.quiet_of_early hearly
    have hlog : s.log ++ [.onConnected] = received 0 := by
      rw [h.log_eq_nil hearly]
      rfl
    refine Quiet.lives ⟨hquiet.reader_eq, hquiet.rop_eq, hquiet.closereqs_eq, hquiet.closing_eq, ?_⟩
      ⟨0, Or.inl hlog⟩ (fun hfailed ↦ Bool.noConfusion hfailed)
      (fun hc ↦ absurd (h.connecting_of_cop hc) hne)
    dsimp only
    rw [hlog]
    exact notMem_received 0
  · split
    · exact hannounce
    · exact hlost

theorem Lives.accept (h : Lives impl s) (hphase : s.phase = .idle) (fd : ℕ) (v6 endpoint : Bool) :
    Lives impl (accept impl fd v6 endpoint s) := by
  have hearly : s.phase.early = true := by
    rw [hphase]
    rfl
  have hne : s.phase ≠ .connecting := by
    rw [hphase]
    decide
  unfold Lifetime.accept
  dsimp only
  generalize hsvc : s.svc.setSock impl { s.svc.socks impl with
    fd := some fd
    state := if v6 then insert StateBit.v6 (s.svc.socks impl).state
      else (s.svc.socks impl).state.erase StateBit.v6 } = svc
  have hsock : (∀ d, (svc.socks impl).op d = (s.svc.socks impl).op d) ∧
      (svc.socks impl).cop = (s.svc.socks impl).cop := by
    rw [← hsvc, Service.setSock_same]
    exact ⟨fun d ↦ by cases d <;> rfl, rfl⟩
  obtain ⟨hannounce, hlost⟩ := h.settle hearly hne hsock.1 hsock.2
  split
  · exact hannounce
  · exact hlost

theorem Lives.announce (h : Lives impl s) (hphase : s.phase = .announcing) :
    Lives impl { s with phase := .announced, log := s.log ++ [.onConnected] } := by
  have hlog : s.log = [] := by
    have htold := h.told
    rw [hphase] at htold
    exact htold
  have hlog' : s.log ++ [.onConnected] = received 0 := by
    rw [hlog]
    rfl
  have hcount : (s.log ++ [NetCallback.onConnected]).count .onDisconnected =
      s.log.count .onDisconnected := by
    rw [hlog]
    rfl
  constructor
  · exact ⟨0, Or.inl hlog'⟩
  · exact fun hearly ↦ Bool.noConfusion hearly
  · exact fun hearly ↦ Bool.noConfusion hearly
  · intro hcop
    have hconnecting := h.connecting_of_cop hcop
    rw [hphase] at hconnecting
    cases hconnecting
  · intro hreader
    have hrunning := h.running_of_reader hreader
    rw [hphase] at hrunning
    cases hrunning
  · intro hrop
    have hrunning := h.running_of_rop hrop
    rw [hphase] at hrunning
    cases hrunning
  · rw [hcount]
    exact h.once
  · rw [hcount]
    exact h.unclosed
  · exact fun hclosing ↦ absurd hphase (h.closing hclosing).2.2.1
  · intro hmem
    dsimp only at hmem
    rw [hlog'] at hmem
    exact absurd hmem (notMem_received 0)

/-! ## Reading and closing -/

theorem Lives.reading (h : Lives impl s) (hphase : s.phase = .announced ∨ s.phase = .running)
    {svc : Service} {reader : Reader} {phase : LifePhase} (hphase' : phase = .running)
    (hcop : (svc.socks impl).cop = (s.svc.socks impl).cop)
    (hreader : reader = .cutting → s.reader = .cutting) :
    Lives impl { s with svc := svc, reader := reader, phase := phase } := by
  subst hphase'
  have hne : s.phase ≠ .connecting := by
    rcases hphase with hphase | hphase <;> rw [hphase] <;> decide
  constructor
  · have htold := h.told
    rcases hphase with hphase | hphase <;> rw [hphase] at htold <;> exact htold
  · exact fun hearly ↦ Bool.noConfusion hearly
  · exact fun hearly ↦ Bool.noConfusion hearly
  · intro hset
    dsimp only at hset
    rw [hcop] at hset
    exact absurd (h.connecting_of_cop hset) hne
  · exact fun _ ↦ rfl
  · exact fun _ ↦ rfl
  · exact h.once
  · exact h.unclosed
  · intro hclosing
    refine ⟨(h.closing hclosing).1, rfl, LifePhase.noConfusion, ?_⟩
    exact fun hc ↦ (h.closing hclosing).2.2.2 (hreader hc)
  · exact fun hmem hc ↦ h.quiet hmem (hreader hc)

theorem Lives.tryRecvData (h : Lives impl s) (hphase : s.phase = .announced ∨ s.phase = .running)
    {phase : LifePhase} (hphase' : phase = .running) (os : Os) :
    Lives impl (tryRecvData impl os { s with phase := phase }) := by
  have hcop : ((s.svc.asyncRecvSome impl 0 0 impl os 0).1.socks impl).cop =
      (s.svc.socks impl).cop :=
    (Service.section_asyncSome .read s.svc impl 0 0 impl os 0).posting.cop_eq
  unfold Lifetime.tryRecvData
  dsimp only
  generalize s.svc.asyncRecvSome impl 0 0 impl os 0 = p at hcop ⊢
  apply h.reading hphase hphase' hcop
  split <;> exact Reader.noConfusion

theorem Lives.proceed (h : Lives impl s) (hphase : s.phase = .announced) (os : Os) :
    Lives impl (proceed impl kind os s) := by
  cases kind with
  | tcpSocket => exact h.tryRecvData (Or.inl hphase) rfl os
  | tcpConnector =>
      have hsection := Service.section_asyncSome .read s.svc impl 0 0 impl os 0
      exact h.reading (Or.inl hphase) rfl hsection.posting.cop_eq id

theorem Lives.readDone (h : Lives impl s) (kind : SocketKind)
    (hrop : (s.svc.socks impl).rop.impl = true)
    (good : Bool) (os : Os) :
    ∃ s', step impl kind s (.readDone good os) = some s' ∧ Lives impl s' := by
  have hphase := h.running_of_rop hrop
  obtain ⟨svc, reader, hstep, hsection, hreader⟩ := step_readDone impl kind good os hrop
  exact ⟨_, hstep, h.reading (Or.inr hphase) hphase hsection.posting.cop_eq hreader⟩

theorem Lives.readHandler (h : Lives impl s) (hreader : s.reader ≠ .away) (good : Bool) :
    Lives impl (readHandler good s) := by
  have hrunning := h.running_of_reader hreader
  unfold Lifetime.readHandler
  by_cases hgood : good = true ∧ s.flag = .start
  · rw [if_pos hgood]
    have hflag : s.flag ≠ .close := by
      rw [hgood.2]
      decide
    have hzero := h.unclosed hflag
    constructor
    · exact h.told
    · exact h.early_flag
    · exact h.early_writer
    · exact h.connecting_of_cop
    · exact fun _ ↦ hrunning
    · exact h.running_of_rop
    · exact h.once
    · exact h.unclosed
    · intro hclosing
      have hpos := List.length_pos_of_ne_nil (h.closing hclosing).1
      omega
    · intro hmem
      have hpos := List.count_pos_iff.mpr hmem
      dsimp only at hpos
      omega
  · rw [if_neg hgood]
    exact h.reading (Or.inr hrunning) hrunning rfl Reader.noConfusion

theorem Lives.receive (h : Lives impl s) (hreader : s.reader = .cutting) :
    Lives impl { s with log := s.log ++ [.onReceiveData] } := by
  have hphase : s.phase = .running := by
    apply h.running_of_reader
    rw [hreader]
    decide
  have hlog : ∃ n, s.log = received n := by
    have htold := h.told
    rw [hphase] at htold
    obtain ⟨n, hn | hn⟩ := htold
    · exact ⟨n, hn⟩
    · refine absurd hreader (h.quiet ?_)
      rw [hn]
      simp
  obtain ⟨n, hn⟩ := hlog
  have hcount : (s.log ++ [NetCallback.onReceiveData]).count .onDisconnected =
      s.log.count .onDisconnected := by
    rw [List.count_append]
    rfl
  constructor
  · change Told _ s.phase
    rw [hphase, hn]
    exact ⟨n + 1, Or.inl (received_succ n).symm⟩
  · exact h.early_flag
  · exact h.early_writer
  · exact h.connecting_of_cop
  · exact h.running_of_reader
  · exact h.running_of_rop
  · dsimp only
    rw [hcount]
    exact h.once
  · dsimp only
    rw [hcount]
    exact h.unclosed
  · exact h.closing
  · intro hmem
    apply h.quiet
    simpa using hmem

theorem Lives.readEnd (h : Lives impl s) (hreader : s.reader = .cutting) (good : Bool) (os : Os) :
    Lives impl
      (if good then Lifetime.tryRecvData impl os s else { s with reader := .closing }) := by
  have hphase : s.phase = .running := by
    apply h.running_of_reader
    rw [hreader]
    decide
  split
  · exact h.tryRecvData (Or.inr hphase) hphase os
  · exact h.reading (Or.inr hphase) hphase rfl Reader.noConfusion

theorem Lives.readClose (h : Lives impl s) (hreader : s.reader = .closing) :
    Lives impl { close impl s with reader := .away } := by
  have hphase : s.phase = .running := by
    apply h.running_of_reader
    rw [hreader]
    decide
  have hshut := shut_close impl s
  have hphase' : (close impl s).phase = .running := hshut.phase_eq.trans hphase
  have hlate : s.phase.early = false := by
    rw [hphase]
    rfl
  exact (h.shut hshut hlate).reading (Or.inr hphase') hphase' rfl Reader.noConfusion

theorem Lives.writeDone (h : Lives impl s) (kind : SocketKind)
    (hwop : (s.svc.socks impl).wop.impl = true)
    (good : Bool) (os : Os) :
    ∃ s', step impl kind s (.writeDone good os) = some s' ∧ Lives impl s' := by
  have hlate : s.phase.early = false := by
    refine Bool.eq_false_iff.mpr fun hearly ↦ ?_
    rw [(h.early_writer hearly).2] at hwop
    cases hwop
  obtain ⟨svc, writer, hstep, hsection⟩ := step_writeDone impl kind good os hwop
  refine ⟨_, hstep, h.shut ?_ hlate⟩
  exact ⟨rfl, rfl, rfl, rfl, hsection.posting.cop_eq, hsection.op_eq, id, Or.inl rfl⟩

theorem Lives.late_of_writer (h : Lives impl s) (hwriter : s.writer ≠ none) :
    s.phase.early = false :=
  Bool.eq_false_iff.mpr fun hearly ↦ hwriter (h.early_writer hearly).1

theorem Lives.late_of_flag (h : Lives impl s) (hflag : s.flag ≠ .stop) : s.phase.early = false :=
  Bool.eq_false_iff.mpr fun hearly ↦ hflag (h.early_flag hearly)

theorem Lives.send (h : Lives impl s) (os : Os) : Lives impl (send impl os s) := by
  unfold Lifetime.send
  split
  · exact h
  · rename_i hstart
    apply h.shut (shut_trySendData impl true os s)
    apply h.late_of_flag
    rw [not_not.mp hstart]
    decide

theorem Lives.closed_of_closereqs (h : Lives impl s) (hne : s.closereqs ≠ []) :
    s.flag = .close ∧ s.closereqs.length = 1 ∧ s.log.count .onDisconnected = 0 := by
  have hpos := List.length_pos_of_ne_nil hne
  have honce := h.once
  refine ⟨?_, by omega, by omega⟩
  refine not_not.mp fun hflag ↦ ?_
  have hzero := h.unclosed hflag
  omega

theorem Lives.doClose (h : Lives impl s) (hne : s.closereqs ≠ []) (hphase : s.phase ≠ .announcing)
    (hreader : s.reader ≠ .cutting) : Lives impl (doClose impl s) := by
  have hflag := (h.closed_of_closereqs hne).1
  have hlate : s.phase.early = false := by
    apply h.late_of_flag
    rw [hflag]
    decide
  unfold Lifetime.doClose
  constructor
  · exact h.told
  · exact h.early_flag
  · intro hearly
    exact absurd hearly (Bool.eq_false_iff.mp hlate)
  · intro hcop
    dsimp only at hcop
    rw [Service.setSock_same] at hcop
    exact h.connecting_of_cop hcop
  · exact h.running_of_reader
  · intro hrop
    dsimp only at hrop
    rw [Service.setSock_same] at hrop
    exact h.running_of_rop hrop
  · exact h.once
  · exact h.unclosed
  · exact fun _ ↦ ⟨hne, hlate, hphase, hreader⟩
  · exact h.quiet

theorem Lives.closeHandler (h : Lives impl s) (hclosing : s.closing = true) :
    Lives impl (closeHandler s) := by
  obtain ⟨hne, hlate, hphase, hreader⟩ := h.closing hclosing
  obtain ⟨hflag, hlength, hcount⟩ := h.closed_of_closereqs hne
  have hlog : ∃ n, s.log = received n := by
    obtain ⟨n, hn | hn⟩ := (told_iff hlate hphase).mp h.told
    · exact ⟨n, hn⟩
    · rw [hn, List.count_append, count_received] at hcount
      cases hcount
  obtain ⟨n, hn⟩ := hlog
  unfold Lifetime.closeHandler
  constructor
  · change Told (s.log ++ [NetCallback.onDisconnected]) s.phase
    rw [told_iff hlate hphase, hn]
    exact ⟨n, Or.inr rfl⟩
  · exact h.early_flag
  · exact h.early_writer
  · exact h.connecting_of_cop
  · exact h.running_of_reader
  · exact h.running_of_rop
  · dsimp only
    rw [List.length_tail, List.count_append, hcount, hlength]
    decide
  · exact fun hc ↦ absurd hflag hc
  · exact fun hc ↦ Bool.noConfusion hc
  · exact fun _ ↦ hreader

theorem Lives.others (h : Lives impl s) (socks : ℕ → Sock) (implidx : UInt32) :
    Lives impl (others impl socks implidx s) := by
  have hsock : (Function.update socks impl (s.svc.socks impl)) impl = s.svc.socks impl :=
    Function.update_self ..
  constructor
  · exact h.told
  · exact h.early_flag
  · intro hearly
    change s.writer = none ∧ (Function.update socks impl (s.svc.socks impl) impl).wop.impl = false
    rw [hsock]
    exact h.early_writer hearly
  · intro hcop
    change (Function.update socks impl (s.svc.socks impl) impl).cop.impl = true at hcop
    rw [hsock] at hcop
    exact h.connecting_of_cop hcop
  · exact h.running_of_reader
  · intro hrop
    change (Function.update socks impl (s.svc.socks impl) impl).rop.impl = true at hrop
    rw [hsock] at hrop
    exact h.running_of_rop hrop
  · exact h.once
  · exact h.unclosed
  · exact h.closing
  · exact h.quiet

theorem system_lives {a : LifeMove} (h : Lives impl s)
    (henabled : (system impl kind isco).enabled s a) (htimely : Timely s a) :
    ∃ s', (system impl kind isco).step s a = some s' ∧ Lives impl s' := by
  cases a with
  | asyncConnect fd v6 valid connected os error =>
      exact ⟨_, rfl, h.asyncConnect htimely fd v6 valid connected os error⟩
  | connectDone error =>
      exact h.connectDone kind henabled error
  | connectHandler endpoint => exact ⟨_, rfl, h.connectHandler henabled _ endpoint⟩
  | accept fd v6 endpoint => exact ⟨_, rfl, h.accept henabled.2 fd v6 endpoint⟩
  | announce => exact ⟨_, rfl, h.announce henabled⟩
  | proceed os => exact ⟨_, rfl, h.proceed henabled os⟩
  | readDone good os => exact h.readDone kind henabled good os
  | readHandler =>
      refine ⟨_, rfl, h.readHandler ?_ _⟩
      rcases henabled with hreader | hreader <;> rw [hreader] <;> decide
  | receive => exact ⟨_, rfl, h.receive henabled⟩
  | readEnd good os => exact ⟨_, rfl, h.readEnd henabled good os⟩
  | readClose => exact ⟨_, rfl, h.readClose henabled⟩
  | writeDone good os => exact h.writeDone kind henabled good os
  | writeHandler more os =>
      obtain ⟨good, hgood⟩ := Option.ne_none_iff_exists'.mp henabled
      refine ⟨_, congrArg (Option.map _) hgood, ?_⟩
      have hcalled : Shut impl s { s with writer := none } :=
        ⟨rfl, rfl, rfl, rfl, rfl, rfl, id, Or.inl rfl⟩
      exact h.shut (hcalled.trans (shut_writeHandler impl good more os _))
        (h.late_of_writer henabled)
  | send os => exact ⟨_, rfl, h.send os⟩
  | close => exact ⟨_, rfl, h.shut (shut_close impl s) htimely⟩
  | doClose => exact ⟨_, rfl, h.doClose henabled.1 henabled.2.2.1 htimely⟩
  | closeHandler => exact ⟨_, rfl, h.closeHandler henabled⟩
  | others socks implidx => exact ⟨_, rfl, h.others socks implidx⟩

/-- Only `Init` and `_ConnectHandler` start a socket, and both come before `OnConnected`. -/
theorem Lives.flag_close (h : Lives impl s) {a : LifeMove}
    (henabled : (system impl kind isco).enabled s a)
    (hstep : (system impl kind isco).step s a = some s') (hflag : s.flag = .close) :
    s'.flag = .close := by
  have hlate : s.phase.early = false := by
    apply h.late_of_flag
    rw [hflag]
    decide
  cases a with
  | asyncConnect fd v6 valid connected os error =>
      cases hstep
      unfold Lifetime.asyncConnect
      dsimp only
      split <;> exact hflag
  | connectDone error =>
      rw [h.connecting_of_cop henabled] at hlate
      cases hlate
  | connectHandler endpoint =>
      rcases henabled with hphase | hphase <;> rw [hphase] at hlate <;> cases hlate
  | accept fd v6 endpoint =>
      rw [henabled.2] at hlate
      cases hlate
  | proceed os =>
      cases hstep
      cases kind <;> exact hflag
  | readDone good os =>
      obtain ⟨⟨svc, notify⟩, -, hs⟩ := Option.bind_eq_some_iff.mp hstep
      cases hs
      exact hflag
  | readEnd good os =>
      cases hstep
      cases good <;> exact hflag
  | readClose =>
      cases hstep
      exact (shut_close impl s).closed hflag
  | writeDone good os =>
      obtain ⟨⟨svc, notify⟩, -, hs⟩ := Option.bind_eq_some_iff.mp hstep
      cases hs
      exact hflag
  | writeHandler more os =>
      obtain ⟨good, -, rfl⟩ := Option.map_eq_some_iff.mp hstep
      exact (shut_writeHandler impl good more os _).closed hflag
  | send os =>
      cases hstep
      unfold Lifetime.send
      split
      · exact hflag
      · exact (shut_trySendData impl true os s).closed hflag
  | close =>
      cases hstep
      exact (shut_close impl s).closed hflag
  | _ =>
      cases hstep
      exact hflag

theorem Starts.lives (h : s.Starts impl) : Lives impl s := by
  have hsock := h.sock_eq
  apply Quiet.lives
  · constructor
    · exact h.reader_eq
    · rw [hsock]
      rfl
    · exact h.closereqs_eq
    · exact h.closing_eq
    · rw [h.log_eq]
      exact List.not_mem_nil
  · rw [h.log_eq, h.phase_eq]
    rfl
  · intro _
    refine ⟨h.flag_eq, h.writer_eq, ?_⟩
    rw [hsock]
    rfl
  · intro hcop
    rw [hsock] at hcop
    cases hcop

/-- The callbacks come in order, and a socket that is closed at some time stays closed. -/
theorem callbacks_inOrder {first second : List LifeMove} (hstarts : s.Starts impl)
    (hallowed : (system impl kind isco).Allowed Timely s (first ++ second)) :
    ∃ t s', (system impl kind isco).run s first = some t ∧
      (system impl kind isco).run t second = some s' ∧ InOrder s'.log ∧
      (t.flag = .close → s'.flag = .close) := by
  have hstep : ∀ u a, Lives impl u → (system impl kind isco).enabled u a → Timely u a →
      ∃ u', (system impl kind isco).step u a = some u' ∧ Lives impl u' :=
    fun _ _ h henabled htimely ↦ system_lives h henabled htimely
  obtain ⟨u, hrun, -⟩ := System.run_invariant hstep hstarts.lives hallowed
  rw [System.run_append] at hrun
  obtain ⟨t, ht, -⟩ := Option.bind_eq_some_iff.mp hrun
  obtain ⟨hfirst, hsecond⟩ := hallowed.append ht
  have hlives : Lives impl t := by
    obtain ⟨t', ht', hlives⟩ := System.run_invariant hstep hstarts.lives hfirst
    rw [ht] at ht'
    cases ht'
    exact hlives
  have hstep' : ∀ u a, Lives impl u ∧ (t.flag = .close → u.flag = .close) →
      (system impl kind isco).enabled u a → Timely u a → ∃ u',
        (system impl kind isco).step u a = some u' ∧
          (Lives impl u' ∧ (t.flag = .close → u'.flag = .close)) := by
    rintro u a ⟨hu, hflag⟩ henabled htimely
    obtain ⟨u', hu', hlives'⟩ := system_lives hu henabled htimely
    exact ⟨u', hu', hlives', fun hc ↦ hu.flag_close henabled hu' (hflag hc)⟩
  obtain ⟨s', hs', hlives', hflag⟩ := System.run_invariant hstep' ⟨hlives, id⟩ hsecond
  exact ⟨t, s', ht, hs', hlives'.told.inOrder, hflag⟩

/-- A connector and one running thread. -/
def sampleLifetime : Lifetime where
  svc := { socks := fun _ ↦ newSock, implvector := [⟨3, 0⟩], implidx := 0 }
  flag := .stop
  writing := false
  phase := .idle
  reader := .away
  writer := none
  closereqs := []
  closing := false
  log := []

theorem starts_sampleLifetime : sampleLifetime.Starts 0 :=
  ⟨rfl, rfl, rfl, rfl, rfl, rfl, rfl, rfl, rfl⟩

/-- A connect that succeeds, one message, and `Close` from inside `OnReceiveData`. -/
def sampleLife : List LifeMove :=
  [.asyncConnect (some 7) false true true .good 0, .connectDone false, .connectHandler true,
    .announce, .proceed .good, .readDone true .good, .readHandler, .receive, .close]

theorem callbacks_inOrder_sampleLife :
    ∃ t s', (system 0 .tcpConnector false).run sampleLifetime sampleLife = some t ∧
      (system 0 .tcpConnector false).run t [.readEnd true .good, .doClose, .closeHandler] =
        some s' ∧ InOrder s'.log ∧ (t.flag = .close → s'.flag = .close) :=
  callbacks_inOrder starts_sampleLifetime (by decide)

/-- `Close` after `AsyncConnect` and before its completion.  Either the connect still starts the
socket, or `OnDisconnected` is called alone. -/
def closedEarly : List LifeMove := [.asyncConnect (some 7) false true true .good 0, .close]

theorem not_callbacks_inOrder :
    (∃ t s', (system 0 .tcpConnector false).Allowed System.anyStep sampleLifetime
        (closedEarly ++ [.connectDone false, .connectHandler true]) ∧
      (system 0 .tcpConnector false).run sampleLifetime closedEarly = some t ∧
      (system 0 .tcpConnector false).run t [.connectDone false, .connectHandler true] = some s' ∧
      t.flag = .close ∧ s'.flag = .start) ∧
    ∃ s', (system 0 .tcpConnector false).Allowed System.anyStep sampleLifetime
        (closedEarly ++ [.doClose, .closeHandler]) ∧
      (system 0 .tcpConnector false).run sampleLifetime (closedEarly ++ [.doClose, .closeHandler]) =
        some s' ∧ ¬ InOrder s'.log := by
  refine ⟨⟨_, _, by decide, rfl, rfl, rfl, rfl⟩, _, by decide, rfl, ?_⟩
  rintro ⟨n, h⟩
  exact absurd (List.cons_prefix_cons.mp h).1 (by decide)

end Lifetime

end Slience
