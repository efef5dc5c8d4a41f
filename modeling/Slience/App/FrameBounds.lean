import Slience.App.Delivery

/-!
# The bounds of a message

`Run` takes the first bytes of a message for an `AppHeadFrame` and hands `OnProc` what is behind
it, with the length the frame announces.  It compares neither with the bytes there are; and these
stand behind what an earlier message left in the buffer of the object.
-/

namespace Slience

/-- `OnProc` was called for a message with a whole frame, with the data behind it, as far as they
were received. -/
structure ProcCall.Inside (call : ProcCall) (bytes : List Byte) : Prop where
  whole : AppHeadFrame.size ≤ bytes.length
  frame_eq : call.frame = bytes.take AppHeadFrame.size
  data_eq : call.data = bytes.drop AppHeadFrame.size
  dataLen_le : call.dataLen.toNat ≤ (bytes.drop AppHeadFrame.size).length

/-- The bytes of the callback are the last ones in the buffer of the message. -/
structure Msg.EndsWith (m : Msg) (r : Received) : Prop extends Msg.TellsOf m r where
  offset_eq : r.type = .socketData → m.buf.offset = 0
  contents_eq : r.type = .socketData → ∃ stale, m.buf.contents = stale ++ r.bytes

/-- Nothing is left in front of the bytes, and they hold a frame and all it announces. -/
def Msg.Safe (m : Msg) (r : Received) : Prop :=
  m.buf.pos.toNat = r.bytes.length ∧ AppHeadFrame.size ≤ r.bytes.length ∧
    (AppHeadFrame.cmdLengthOf r.bytes).toNat ≤ r.bytes.length - AppHeadFrame.size

/-- The calls of `OnProc` for a message with data. -/
def Served.Inside (v : Served) (r : Received) : Prop :=
  r.type = .socketData → ∀ call ∈ v.calls, call.Inside r.bytes

/-- As far as the callbacks were served. -/
def Conns.Inside (c : Conns) : Prop :=
  ∀ (i : ℕ) (r : Received) (v : Served), c.received[i]? = some r → c.served[i]? = some v →
    v.Inside r

/-- As many callbacks were served as are not pending. -/
def Conns.Counts (c : Conns) (pending : List Received) : Prop :=
  ∃ done, c.received = done ++ pending ∧ c.served.length = done.length

/-! ## One message -/

theorem AppHeadFrame.cmdLengthOf_take (bytes : List Byte) :
    cmdLengthOf (bytes.take size) = cmdLengthOf bytes := by
  rw [cmdLengthOf, cmdLengthOf, size, List.drop_take, loadLe32_take_four]

theorem Callback.endsWith_of_fill {e : Callback} {old filled : Msg} (hoffset : old.buf.offset = 0)
    (h : e.fill old = some filled) : filled.EndsWith e.received where
  toTellsOf := Callback.tellsOf_of_fill h
  offset_eq hdata := (Callback.buf_of_fill h hdata).1.trans hoffset
  contents_eq hdata := ⟨old.buf.contents, (Callback.buf_of_fill h hdata).2⟩

/-- The call for a message with data is inside of the message where the message is safe. -/
theorem inside_call_iff {m : Msg} {r : Received} (hm : m.EndsWith r) (hdata : r.type = .socketData)
    (fd : ℤ) :
    ProcCall.Inside ⟨fd, (m.buf.data.drop m.buf.offset.toNat).take AppHeadFrame.size,
        m.buf.unread.drop AppHeadFrame.size, AppHeadFrame.cmdLengthOf
          ((m.buf.data.drop m.buf.offset.toNat).take AppHeadFrame.size)⟩ r.bytes ↔ m.Safe r := by
  obtain ⟨stale, hcontents⟩ := hm.contents_eq hdata
  have hoffset := hm.offset_eq hdata
  have hunread : m.buf.unread = stale ++ r.bytes :=
    (Buffer.unread_eq_contents hoffset).trans hcontents
  have hpos := m.buf.length_contents
  rw [hcontents, List.length_append] at hpos
  rw [hunread, hoffset, UInt32.toNat_zero, List.drop_zero, AppHeadFrame.cmdLengthOf_take]
  constructor
  · intro h
    have hwhole := h.whole
    have hlen := congrArg List.length h.data_eq
    change ((stale ++ r.bytes).drop AppHeadFrame.size).length = _ at hlen
    rw [List.length_drop, List.length_drop, List.length_append] at hlen
    refine ⟨by omega, hwhole, ?_⟩
    have hle := h.dataLen_le
    change (AppHeadFrame.cmdLengthOf m.buf.data).toNat ≤ _ at hle
    have hframe : AppHeadFrame.cmdLengthOf m.buf.data = AppHeadFrame.cmdLengthOf r.bytes := by
      rw [← AppHeadFrame.cmdLengthOf_take m.buf.data, ← AppHeadFrame.cmdLengthOf_take r.bytes]
      exact congrArg _ h.frame_eq
    rwa [hframe, List.length_drop] at hle
  · rintro ⟨hnone, hwhole, hle⟩
    have hstale : stale = [] := List.eq_nil_of_length_eq_zero (by omega)
    subst hstale
    rw [List.nil_append] at hcontents
    have hframe : m.buf.data.take AppHeadFrame.size = r.bytes.take AppHeadFrame.size := by
      rw [← hcontents, Buffer.contents, List.take_take, Nat.min_eq_left]
      omega
    have hlength : AppHeadFrame.cmdLengthOf m.buf.data = AppHeadFrame.cmdLengthOf r.bytes := by
      rw [← AppHeadFrame.cmdLengthOf_take m.buf.data, hframe, AppHeadFrame.cmdLengthOf_take]
    refine ⟨hwhole, hframe, by rw [List.nil_append], ?_⟩
    change (AppHeadFrame.cmdLengthOf m.buf.data).toNat ≤ _
    rwa [hlength, List.length_drop]

theorem Conns.serve_inside_iff {c c' : Conns} {now : UInt32} {m : Msg} {r : Received} {clisock : ℕ}
    (hm : m.EndsWith r) (hserve : c.serve now clisock m = some c') :
    ∃ v, c'.served = c.served ++ [v] ∧ c'.received = c.received ∧
      (v.Inside r ↔ (r.type = .socketData → c.Finds clisock → m.Safe r)) := by
  obtain ⟨⟨container, calls⟩, hdispatch, hserve⟩ := Option.bind_eq_some_iff.mp hserve
  cases hserve
  refine ⟨_, rfl, rfl, ?_⟩
  change (r.type = .socketData → ∀ call ∈ calls, call.Inside r.bytes) ↔ _
  apply forall_congr'
  intro hdata
  have htype : m.type = .socketData := hm.type_eq.trans hdata
  rw [Conns.dispatch, htype] at hdispatch
  unfold Conns.Finds
  cases hfind : c.container.find (c.fds clisock) with
  | none =>
      simp only [hfind, Option.some.injEq, Prod.mk.injEq] at hdispatch
      rw [← hdispatch.2]
      simp
  | some entry =>
      simp only [hfind] at hdispatch
      obtain ⟨-, rfl⟩ := Conns.procData_eq_some hdispatch
      rw [List.forall_mem_singleton, inside_call_iff hm hdata]
      simp

theorem Conns.Counts.getElem?_served {c : Conns} {r : Received} {later : List Received}
    (h : c.Counts (r :: later)) : c.received[c.served.length]? = some r := by
  obtain ⟨done, hreceived, hlength⟩ := h
  rw [hreceived, hlength, List.getElem?_append_right le_rfl, Nat.sub_self]
  rfl

/-- Serving a message adds what is said of that message. -/
theorem Conns.inside_snoc_iff {c c' : Conns} {v : Served} {r : Received} (hc : c.Inside)
    (hserved : c'.served = c.served ++ [v]) (hreceived : c'.received = c.received)
    (hr : c.received[c.served.length]? = some r) : c'.Inside ↔ v.Inside r := by
  constructor
  · intro h
    apply h c.served.length r v
    · rw [hreceived, hr]
    · rw [hserved, List.getElem?_append_right le_rfl, Nat.sub_self]
      rfl
  · intro hv i q w hq hw
    rw [hreceived] at hq
    rw [hserved] at hw
    rcases Nat.lt_trichotomy i c.served.length with hlt | rfl | hgt
    · rw [List.getElem?_append_left hlt] at hw
      exact hc i q w hq hw
    · rw [List.getElem?_append_right le_rfl, Nat.sub_self] at hw
      rw [hr] at hq
      cases hq
      cases hw
      exact hv
    · rw [List.getElem?_append_right hgt.le, List.getElem?_singleton, if_neg (by omega)] at hw
      cases hw

/-! ## Whole runs -/

namespace App

open MsgLists (View)

/-- Every call of `OnProc` for a message was inside of it. -/
def AllInside (s : App) : Prop := ∀ k, (s.lane k).toConns.Inside

/-- The message that is gone through next, if it has data and its socket is in the container, is
safe. -/
def SafeNext (L : Lane) : Prop :=
  match L.lists.frontMsg, L.received[L.served.length]? with
  | some (_, m), some r => r.type = .socketData → ∀ clisock ∈ m.ptr, L.Finds clisock → m.Safe r
  | _, _ => True

def SafeProc (s : App) : Step → Prop
  | .main => s.runMain.isSome → ∀ k, s.phase.serves k = true → SafeNext (s.lane k)
  | _ => True

/-- The invariant: the bytes of every callback not served end the buffer of its message. -/
abbrev EndsAt (s : App) (V : Kind → View) (pending : Kind → List Received) : Prop :=
  At Msg.EndsWith (fun _ ↦ Conns.Counts) s V pending

variable {s s' : App} {V : Kind → View} {pending : Kind → List Received}

theorem keeps_endsWith (hat : EndsAt s V pending) (a : Step) :
    Keeps Msg.EndsWith (fun _ ↦ Conns.Counts) s a where
  fill := by
    rintro k e rfl old filled hfill hold
    refine Callback.endsWith_of_fill ?_ hfill
    rcases hold with hold | rfl
    · obtain ⟨o, -, hread⟩ := Option.bind_eq_some_iff.mp hold
      exact ((hat.lane k).framed o old hread).1
    · rfl
  record := by
    rintro k e - pending ⟨done, hreceived, hlength⟩
    refine ⟨done, ?_, hlength⟩
    rw [← List.append_assoc, ← hreceived]
    rfl
  setFd _ _ _ _ _ h := h
  serve := by
    rintro rfl k - p m clisock r later conns - - - ⟨done, hreceived, hlength⟩ hserve
    obtain ⟨⟨container, calls⟩, -, hserve⟩ := Option.bind_eq_some_iff.mp hserve
    cases hserve
    refine ⟨done ++ [r], by rw [List.append_assoc]; exact hreceived, ?_⟩
    rw [List.length_append, List.length_append, hlength]
    rfl

/-- A round of a loop over the messages of a lane serves the first of them. -/
theorem processLoop_conns {k : Kind} {next : LoopPhase} (hat : EndsAt s V pending)
    (hloop : s.processLoop k next = some s') :
    (∃ p m clisock r later conns, (s.lane k).lists.frontMsg = some (p, m) ∧
      m.ptr = some clisock ∧ m.EndsWith r ∧ pending k = r :: later ∧
      (s.lane k).toConns.serve s.now clisock m = some conns ∧ (s'.lane k).toConns = conns ∧
      ∀ j ≠ k, s'.lane j = s.lane j) ∨
    ((s.lane k).lists.frontMsg = none ∧ s'.lane = s.lane) := by
  unfold processLoop at hloop
  split at hloop
  · obtain ⟨L, hprocess, hloop⟩ := Option.bind_eq_some_iff.mp hloop
    cases hloop
    obtain ⟨⟨p, m⟩, hfront, hprocess⟩ := Option.bind_eq_some_iff.mp hprocess
    obtain ⟨clisock, hptr, hprocess⟩ := Option.bind_eq_some_iff.mp hprocess
    obtain ⟨conns, hserve, hprocess⟩ := Option.bind_eq_some_iff.mp hprocess
    obtain ⟨lists, -, hprocess⟩ := Option.bind_eq_some_iff.mp hprocess
    cases hprocess
    obtain ⟨-, -, r, later, -, hpending, hm, -⟩ := (hat.lane k).front hfront
    refine Or.inl ⟨p, m, clisock, r, later, conns, hfront, hptr, hm, hpending, hserve, ?_, ?_⟩
    · rw [setLane_lane_self]
    · exact fun j hj ↦ setLane_lane_of_ne s hj _
  · rename_i hcount
    cases hloop
    refine Or.inr ⟨?_, rfl⟩
    have hnil : V k .tmp = [] :=
      ((hat.lane k).owned.rep .tmp (by simp)).eq_nil_of_count (not_not.mp hcount)
    cases hfront : (s.lane k).lists.frontMsg with
    | none => rfl
    | some pm =>
        obtain ⟨a, rest, r, later, hV, -⟩ := (hat.lane k).front (p := pm.1) (m := pm.2) hfront
        rw [hnil] at hV
        cases hV

theorem recycleMsg_conns (h : s.recycleMsg = some s') (k : Kind) :
    (s'.lane k).toConns = (s.lane k).toConns := by
  unfold recycleMsg at h
  split at h
  · obtain ⟨connectors, -, h⟩ := Option.bind_eq_some_iff.mp h
    obtain ⟨sockets, -, h⟩ := Option.bind_eq_some_iff.mp h
    cases h
    cases k <;> rfl
  · cases h
    rfl

/-- What a step of the main thread does to the connections: it serves a message of the lane it goes
through, or leaves them alone. -/
theorem runMain_conns (hat : EndsAt s V pending) (hstep : s.runMain = some s') :
    (∃ k, s.phase.serves k = true ∧ ∃ p m clisock r later conns,
      (s.lane k).lists.frontMsg = some (p, m) ∧ m.ptr = some clisock ∧ m.EndsWith r ∧
      pending k = r :: later ∧ (s.lane k).toConns.serve s.now clisock m = some conns ∧
      (s'.lane k).toConns = conns ∧ ∀ j ≠ k, s'.lane j = s.lane j) ∨
    ((∀ k, s.phase.serves k = true → (s.lane k).lists.frontMsg = none) ∧
      ∀ k, (s'.lane k).toConns = (s.lane k).toConns) := by
  unfold runMain at hstep
  cases hphase : s.phase with
  | top =>
      simp only [hphase] at hstep
      cases hstep
      refine Or.inr ⟨fun k hk ↦ (by cases k <;> cases hk), fun k ↦ ?_⟩
      unfold swapMessage
      split <;> rfl
  | connectors =>
      simp only [hphase] at hstep
      rcases processLoop_conns hat hstep with h | ⟨hnone, hsame⟩
      · exact Or.inl ⟨.connector, rfl, h⟩
      · refine Or.inr ⟨?_, fun k ↦ by rw [hsame]⟩
        rintro (_ | _) hk
        · exact hnone
        · cases hk
  | sockets =>
      simp only [hphase] at hstep
      rcases processLoop_conns hat hstep with h | ⟨hnone, hsame⟩
      · exact Or.inl ⟨.socket, rfl, h⟩
      · refine Or.inr ⟨?_, fun k ↦ by rw [hsame]⟩
        rintro (_ | _) hk
        · cases hk
        · exact hnone
  | recycle =>
      simp only [hphase] at hstep
      obtain ⟨s₁, hrecycle, hstep⟩ := Option.bind_eq_some_iff.mp hstep
      cases hstep
      refine Or.inr ⟨fun k hk ↦ (by cases k <;> cases hk), ?_⟩
      intro k
      exact recycleMsg_conns hrecycle k

theorem serves_unique {phase : LoopPhase} {j k : Kind} (hj : phase.serves j = true)
    (hk : phase.serves k = true) : j = k := by
  cases phase <;> cases j <;> cases k <;> simp_all [LoopPhase.serves]

/-- A step of the main thread keeps all calls inside of their messages where the message it serves
is safe. -/
theorem runMain_inside_iff (hat : EndsAt s V pending) (hs : s.AllInside) :
    (∀ s', s.runMain = some s' → s'.AllInside) ↔ SafeProc s .main := by
  cases hmain : s.runMain with
  | none =>
      refine iff_of_true (fun s' h ↦ by cases h) ?_
      intro hsome
      rw [hmain] at hsome
      cases hsome
  | some s' =>
      have hsome : s.runMain.isSome := by rw [hmain]; rfl
      rcases runMain_conns hat hmain with
        ⟨k, hserves, p, m, clisock, r, later, conns, hfront, hptr, hm, hpending, hserve, hconns,
          hother⟩ | ⟨hnone, hsame⟩
      · have hcounts : (s.lane k).toConns.Counts (r :: later) := by
          rw [← hpending]
          exact (hat.lane k).conns
        have hr := hcounts.getElem?_served
        obtain ⟨v, hserved, hreceived, hinside⟩ := Conns.serve_inside_iff hm hserve
        have hiff := Conns.inside_snoc_iff (hs k) hserved hreceived hr
        constructor
        · rintro h - j hj
          obtain rfl := serves_unique hserves hj
          have hk := h s' rfl k
          rw [hconns] at hk
          simp only [SafeNext, hfront, hr, hptr, Option.mem_some_iff, forall_eq']
          exact hinside.mp (hiff.mp hk)
        · intro h t ht
          cases ht
          intro j
          by_cases hjk : j = k
          · have hnext := h hsome k hserves
            simp only [SafeNext, hfront, hr, hptr, Option.mem_some_iff, forall_eq'] at hnext
            rw [hjk, hconns]
            exact hiff.mpr (hinside.mpr hnext)
          · rw [hother j hjk]
            exact hs j
      · refine iff_of_true ?_ ?_
        · intro t ht
          cases ht
          intro k
          rw [hsame]
          exact hs k
        · intro _ k hserves
          simp only [SafeNext, hnone k hserves]

theorem step_inside_iff (hat : EndsAt s V pending) (hs : s.AllInside) (a : Step) :
    (∀ s', s.step a = some s' → s'.AllInside) ↔ SafeProc s a := by
  cases a with
  | main => exact runMain_inside_iff hat hs
  | tick now =>
      refine iff_of_true ?_ trivial
      rintro s' ⟨⟩
      exact hs
  | io k a =>
      refine iff_of_true ?_ trivial
      cases a with
      | setFd clisock fd =>
          rintro s' ⟨⟩ j
          by_cases hjk : j = k
          · subst hjk
            rw [setLane_lane_self]
            exact hs j
          · rw [setLane_lane_of_ne s hjk]
            exact hs j
      | callback e =>
          intro s' hstep
          obtain ⟨L, hcallback, hstep⟩ := Option.bind_eq_some_iff.mp hstep
          cases hstep
          obtain ⟨lists, -, hcallback⟩ := Option.bind_eq_some_iff.mp hcallback
          cases hcallback
          intro j
          by_cases hjk : j = k
          · subst hjk
            rw [setLane_lane_self]
            obtain ⟨done, hreceived, hlength⟩ := (hat.lane j).conns
            intro i r v hr hv
            have hi : i < (s.lane j).received.length := by
              have hlt := (List.getElem?_eq_some_iff.mp hv).1
              rw [hreceived, List.length_append]
              exact lt_of_lt_of_le hlt (hlength.trans_le (Nat.le_add_right _ _))
            refine hs j i r v ?_ hv
            rw [← hr]
            exact (List.getElem?_append_left hi).symm
          · rw [setLane_lane_of_ne s hjk]
            exact hs j

/-- Along a run every call of `OnProc` for a message is inside of the bytes received, in every state
reached, exactly where every message that is gone through is safe. -/
theorem onProc_inside_iff (packing : Packing) (as : List Step)
    (h : system.Allowed System.anyStep (init packing) as) :
    (∀ bs, bs <+: as → ∀ s, system.run (init packing) bs = some s → s.AllInside) ↔
      system.Allowed SafeProc (init packing) as := by
  have hinit : ∃ V pending, EndsAt (init packing) V pending :=
    ⟨_, _, At.init fun _ ↦ ⟨[], rfl, rfl⟩⟩
  refine System.reached_iff_allowed (I := fun s ↦ ∃ V pending, EndsAt s V pending) ?_ ?_ hinit ?_ h
  · rintro s a s' ⟨V, pending, hat⟩ - - hstep -
    obtain ⟨V', pending', hat', -⟩ := hat.step (keeps_endsWith hat a) hstep
    exact ⟨V', pending', hat'⟩
  · rintro s a ⟨V, pending, hat⟩ hs -
    exact step_inside_iff hat hs a
  · intro k i r v hr
    simp [init, Lane.init, Conns.init] at hr

instance (L : Lane) : Decidable (SafeNext L) :=
  match h : L.lists.frontMsg, h' : L.received[L.served.length]? with
  | some (_, m), some r => @decidable_of_iff _
      (r.type = .socketData → ∀ clisock ∈ m.ptr, L.container.find (L.fds clisock) ≠ none →
        m.buf.pos.toNat = r.bytes.length ∧ AppHeadFrame.size ≤ r.bytes.length ∧
          (AppHeadFrame.cmdLengthOf r.bytes).toNat ≤ r.bytes.length - AppHeadFrame.size)
      (by simp only [SafeNext, h, h']; rfl) inferInstance
  | none, _ => isTrue (by simp only [SafeNext, h])
  | some _, none => isTrue (by simp only [SafeNext, h, h'])

instance (s : App) (a : Step) : Decidable (SafeProc s a) :=
  match a with
  | .main => inferInstanceAs (Decidable (_ → ∀ k, s.phase.serves k = true → SafeNext (s.lane k)))
  | .io _ _ | .tick _ => inferInstanceAs (Decidable True)

/-- A buffer that holds a frame with nothing behind it. -/
def frameBuffer : Buffer where
  size := 34
  pos := 34
  offset := 0
  data := AppHeadFrame.image { cmd := 3 }
  data_length := rfl
  pos_le_size := le_rfl
  offset_le_pos := by decide

/-- A socket connects and sends a frame. -/
def oneFrameRun : List Step :=
  [.io .socket (.setFd 1 5), .io .socket (.callback (.onConnected 1 0)),
    .io .socket (.callback (.onReceiveData 1 frameBuffer))] ++ socketRound ++ [.main]

theorem onProc_inside_oneFrameRun :
    system.Allowed System.anyStep (init .pragmaPack) oneFrameRun ∧
      ∀ bs, bs <+: oneFrameRun → ∀ s, system.run (init .pragmaPack) bs = some s → s.AllInside :=
  ⟨by decide, (onProc_inside_iff .pragmaPack oneFrameRun (by decide)).mpr (by decide)⟩

/-- A message of one byte: `OnProc` gets a frame of which 33 bytes were never received. -/
theorem onProc_inside_fails : ¬ ∀ as, system.Allowed System.anyStep (init .pragmaPack) as →
    ∀ bs, bs <+: as → ∀ s, system.run (init .pragmaPack) bs = some s → s.AllInside := by
  intro h
  obtain ⟨s, hrun⟩ : ∃ s, system.run (init .pragmaPack) oneByteRun = some s := ⟨_, rfl⟩
  have hinside := h oneByteRun (by decide) oneByteRun List.prefix_rfl s hrun .socket
  have hreceived : ((system.run (init .pragmaPack) oneByteRun).bind fun s ↦
      (s.lane .socket).received[1]?) = some ⟨1, .socketData, 0, [7]⟩ := by decide
  have hserved : ((system.run (init .pragmaPack) oneByteRun).bind fun s ↦
      (s.lane .socket).served[1]?).map (fun v ↦ v.calls.length) = some 1 := by decide
  rw [hrun, Option.bind_some] at hreceived hserved
  obtain ⟨v, hv, hcalls⟩ := Option.map_eq_some_iff.mp hserved
  obtain ⟨call, hcall⟩ := List.length_eq_one_iff.mp hcalls
  have hwhole := (hinside 1 _ v hreceived hv rfl call (by simp [hcall])).whole
  exact absurd hwhole (by decide)

end App

end Slience
