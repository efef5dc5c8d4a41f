import Slience.Synccall.CoReply

/-!
# What a coroutine waits for

`CoScClient::_Sync` looks whether its connection is open, leaves the number of the coroutine in
`_CoScInfo_` under the mutex of that, sends and yields.  Other threads act between any two of the
three, and `Send` may refuse the request; `_Sync` yields all the same.
-/

namespace Slience

namespace CoSession

/-- The locked section of `_Sync`, and what it does when the info is not valid. -/
def lockStep (s : CoSession) (call : Call) (cnt id : ℕ) : CoSession :=
  let k := s.conns id
  if k.info.valid = false then s.close.failed call cnt (-3)
  else s.setConn id { k with info := { k.info with thrId := s.caller.1, coId := s.caller.2 } }

/-- `_Sync` from there up to `yield`. -/
def requestStep (s : CoSession) (call : Call) (cnt id : ℕ) (timestamp : Int32) :
    Option CoSession :=
  match s.client.fillRequest twowayType call.msgType.toUInt32 call.msg call.len with
  | none => none
  | some client =>
      let k := s.conns id
      match k.link.base.send false timestamp client.request.unread client.request.length with
      | none => none
      | some (ok, base) =>
          let link := k.link.sent (sendBlock timestamp client.request.unread) (ok, base)
          some { s.setConn id { k with link := link } with
            client := client
            phase := .suspended call cnt id
            requests := if ok then s.requests ++ [client.request.unread] else s.requests
            onWire := ok }

/-- Without another thread between them, the two are one stretch. -/
theorem sendStep_eq (s : CoSession) (call : Call) (cnt id : ℕ) (timestamp : Int32) :
    s.sendStep call cnt id timestamp =
      if (s.conns id).info.valid = false then some (s.lockStep call cnt id)
      else (s.lockStep call cnt id).requestStep call cnt id timestamp := by
  by_cases hvalid : (s.conns id).info.valid = false
  · simp only [sendStep, lockStep, if_pos hvalid]
  · have hunlocked : s.lockStep call cnt id = s.setConn id { s.conns id with
        info := { (s.conns id).info with thrId := s.caller.1, coId := s.caller.2 } } :=
      if_neg hvalid
    rw [if_neg hvalid, hunlocked]
    cases hfill : s.client.fillRequest twowayType call.msgType.toUInt32 call.msg call.len with
    | none => simp only [sendStep, requestStep, if_neg hvalid, setConn, hfill]
    | some client =>
        cases hsent : BaseSocket.send false timestamp client.request.unread client.request.length
          (s.conns id).link.base with
        | none =>
            simp only [sendStep, requestStep, if_neg hvalid, setConn, Function.update_self, hfill,
              hsent]
        | some sent =>
            simp only [sendStep, requestStep, if_neg hvalid, setConn, Function.update_self,
              Function.update_idem, hfill, hsent]

/-- A coroutine that has yielded waits for a request that `Send` accepted. -/
def WaitsForSent (s : CoSession) : Prop :=
  ∀ call cnt id, s.phase = .suspended call cnt id → s.onWire = true

variable {s s' : CoSession}

theorem WaitsForSent.same (h : s.WaitsForSent) (hphase : s'.phase = s.phase)
    (hwire : s'.onWire = s.onWire) : s'.WaitsForSent := by
  intro call cnt id hsuspended
  rw [hwire]
  exact h call cnt id (hphase ▸ hsuspended)

theorem waitsForSent_idle (h : s.phase = .idle) : s.WaitsForSent := by
  intro call cnt id hsuspended
  rw [h] at hsuspended
  cases hsuspended

theorem waitsForSent_failed (s : CoSession) (call : Call) (cnt : ℕ) (code : ℤ) :
    (s.failed call cnt code).WaitsForSent := by
  intro call' cnt' id hsuspended
  unfold failed at hsuspended
  split at hsuspended <;> cases hsuspended

@[simp] theorem onWire_addResume (s : CoSession) (wake : Option (UInt32 × UInt32)) :
    (s.addResume wake).onWire = s.onWire := by
  cases wake <;> rfl

theorem WaitsForSent.lockStep (h : s.WaitsForSent) (call : Call) (cnt id : ℕ) :
    (s.lockStep call cnt id).WaitsForSent := by
  unfold CoSession.lockStep
  dsimp only
  split
  · exact waitsForSent_failed _ _ _ _
  · exact h

theorem waitsForSent_afterYield {call : Call} {cnt id : ℕ}
    (h : s.afterYield call cnt id = some s') : s'.WaitsForSent := by
  unfold afterYield at h
  dsimp only at h
  split at h
  · cases h
  · split at h
    · cases h
      exact waitsForSent_idle rfl
    · cases h
      exact waitsForSent_failed _ _ _ _

/-- Outside of the attempts no coroutine yields. -/
theorem WaitsForSent.step {a : Act} (h : s.WaitsForSent) (hconnect : ∀ b, a ≠ .connect b)
    (hsend : ∀ t, a ≠ .send t) (hstep : s.step a = some s') : s'.WaitsForSent := by
  cases a with
  | userConnect connected =>
      dsimp only [CoSession.step] at hstep
      split at hstep
      · rename_i hidle
        cases hstep
        apply waitsForSent_idle
        cases connected <;> exact hidle.1
      · cases hstep
  | userClose =>
      dsimp only [CoSession.step] at hstep
      split at hstep
      · rename_i hidle
        cases hstep
        apply waitsForSent_idle
        rw [phase_close, hidle]
      · cases hstep
  | call c thr co =>
      dsimp only [CoSession.step] at hstep
      split at hstep
      · cases hstep
        intro call cnt id hsuspended
        cases hsuspended
      · cases hstep
  | connect connected => exact absurd rfl (hconnect connected)
  | send timestamp => exact absurd rfl (hsend timestamp)
  | onDisconnected id =>
      cases hstep
      exact h.same (calledBack_addResume _ _ _ _).phase_eq (onWire_addResume _ _)
  | onReceiveData id m =>
      dsimp only [CoSession.step] at hstep
      split at hstep
      · cases hstep
      · rename_i info wake _
        cases hstep
        exact h.same (calledBack_addResume _ _ _ _).phase_eq (onWire_addResume _ _)
  | link id a =>
      dsimp only [CoSession.step] at hstep
      split at hstep
      · cases hstep
      · cases hstep
        exact h
  | doThrResume thr =>
      dsimp only [CoSession.step] at hstep
      split at hstep
      · cases hstep
        exact h
      · unfold resume at hstep
        dsimp only at hstep
        split at hstep
        · split at hstep
          · exact waitsForSent_afterYield hstep
          · cases hstep
            exact h
        · cases hstep
          exact h

end CoSession

/-- Where the coroutine is in an attempt: before the look at its connection, behind it, or behind
the locked section. -/
inductive CoStage
  | before
  | checked (id : ℕ)
  | locked (id : ℕ)
  deriving DecidableEq

structure CoMoment where
  session : CoSession
  stage : CoStage

namespace CoMoment

inductive Move
  /-- `_socket->IsConnected()` is true. -/
  | check
  /-- It is not, and `_Reconnect` is called. -/
  | connect (connected : Bool)
  | lock
  | send (timestamp : Int32)
  /-- What is not part of an attempt. -/
  | other (a : CoSession.Act)

def init (packidx : UInt32) : CoMoment := ⟨.init packidx, .before⟩

def step (m : CoMoment) : Move → Option CoMoment
  | .check =>
      match m.session.phase, m.session.client.socket, m.stage with
      | .attempt _ _, some id, .before =>
          if m.session.isConnected then some { m with stage := .checked id } else none
      | _, _, _ => none
  | .connect connected =>
      match m.session.phase, m.stage with
      | .attempt call cnt, .before =>
          if m.session.isConnected then none
          else
            match m.session.reconnect connected with
            | (true, s) => some ⟨s, .checked m.session.opened⟩
            | (false, s) => some ⟨s.failed call cnt (-2), .before⟩
      | _, _ => none
  | .lock =>
      match m.session.phase, m.stage with
      | .attempt call cnt, .checked id =>
          some ⟨m.session.lockStep call cnt id,
            if (m.session.conns id).info.valid = false then .before else .locked id⟩
      | _, _ => none
  | .send timestamp =>
      match m.session.phase, m.stage with
      | .attempt call cnt, .locked id =>
          (m.session.requestStep call cnt id timestamp).map fun s ↦ ⟨s, .before⟩
      | _, _ => none
  | .other a => (m.session.step a).map fun s ↦ { m with session := s }

/-- The attempts are made of the other moves. -/
def enabled (m : CoMoment) : Move → Prop
  | .other (.connect _) => False
  | .other (.send _) => False
  | .other a => m.session.enabled a
  | _ => True

def system : System CoMoment Move := ⟨enabled, step⟩

/-- `Send` takes a request for a message of `len` bytes: the connection is open, the request is not
too large, and there is room for it with its header. -/
def Takes (b : BaseSocket) (len : UInt32) : Prop :=
  b.flag = .start ∧ 12 + len.toNat ≤ socketPackSize.toNat ∧
    b.writer.msgbuffer2.pos + (len + 20) ≤ BaseSocket.maxBufferSize

instance (b : BaseSocket) (len : UInt32) : Decidable (Takes b len) :=
  inferInstanceAs (Decidable (_ ∧ _ ∧ _))

/-- Where a request is sent, it is taken. -/
def SendsTaken (m : CoMoment) : Move → Prop
  | .send timestamp => (m.step (.send timestamp)).isSome → ∀ call cnt id,
      m.session.phase = .attempt call cnt → m.stage = .locked id →
        Takes (m.session.conns id).link.base call.len
  | _ => True

/-! ## One move -/

theorem length_fillRequest {c c' : ScClient} {way msgType : UInt32} {msg : List Byte} {len : UInt32}
    (h : c.fillRequest way msgType msg len = some c') :
    c'.request.length.toNat = 12 + len.toNat := by
  obtain ⟨-, hunread⟩ := ScClient.fillRequest_spec h
  have hlen : len.toNat ≤ msg.length := by
    unfold ScClient.fillRequest at h
    obtain ⟨r₁, -, h⟩ := Option.bind_eq_some_iff.mp h
    obtain ⟨r₂, -, h⟩ := Option.bind_eq_some_iff.mp h
    obtain ⟨r₃, -, h⟩ := Option.bind_eq_some_iff.mp h
    obtain ⟨r₄, hr₄, -⟩ := Option.bind_eq_some_iff.mp h
    exact (Buffer.appended_of_write hr₄).2.1
  rw [Buffer.toNat_length, hunread, List.length_append, List.length_take, Nat.min_eq_left hlen]
  rfl

theorem ok_of_send_iff {b b' : BaseSocket} {ok : Bool} {timestamp : Int32} {data : List Byte}
    {n len : UInt32} (hn : n.toNat = 12 + len.toNat)
    (h : b.send false timestamp data n = some (ok, b')) : ok = true ↔ Takes b len := by
  have hlt := n.toNat_lt
  have hsum : n + MessageHeader.hdrlen = len + 20 := by
    apply UInt32.toNat_inj.mp
    have h8 : MessageHeader.hdrlen.toNat = 8 := rfl
    have h20 : (20 : UInt32).toNat = 20 := rfl
    rw [UInt32.toNat_add, UInt32.toNat_add, hn, h8, h20]
    congr 1
    omega
  have hpos : ¬ n ≤ 0 := by
    rw [UInt32.le_iff_toNat_le, UInt32.toNat_zero]
    omega
  simp only [BaseSocket.send, UInt32.toUInt32_toInt32, if_neg hpos, hsum] at h
  unfold Takes
  rw [← hn]
  split at h
  · rename_i hbig
    cases h
    rw [gt_iff_lt, UInt32.lt_iff_toNat_lt] at hbig
    exact iff_of_false Bool.false_ne_true fun hc ↦ absurd hc.2.1 (not_le.mpr hbig)
  · rename_i hbig
    rw [gt_iff_lt, UInt32.not_lt, UInt32.le_iff_toNat_le] at hbig
    split at h
    · rename_i hflag
      cases h
      exact iff_of_false Bool.false_ne_true fun hc ↦ hflag hc.1
    · rename_i hflag
      split at h
      · rename_i hfull
        cases h
        exact iff_of_false Bool.false_ne_true fun hc ↦ absurd hc.2.2 (UInt32.not_le.mpr hfull)
      · rename_i hfull
        have htakes : b.flag = .start ∧ n.toNat ≤ socketPackSize.toNat ∧
            b.writer.msgbuffer2.pos + (len + 20) ≤ BaseSocket.maxBufferSize :=
          ⟨not_not.mp hflag, hbig, UInt32.not_lt.mp hfull⟩
        split at h
        · cases h
        · split at h
          · cases h
          · cases h
            exact iff_of_true rfl htakes

/-- Where the request is sent and the coroutine yields. -/
theorem requestStep_waits_iff {s s' : CoSession} {call : Call} {cnt id : ℕ} {timestamp : Int32}
    (h : s.requestStep call cnt id timestamp = some s') :
    s'.WaitsForSent ↔ Takes (s.conns id).link.base call.len := by
  unfold CoSession.requestStep at h
  split at h
  · cases h
  · rename_i client hfill
    have hlength : client.request.length.toNat = 12 + call.len.toNat := by
      unfold CoScClient.fillRequest at hfill
      split at hfill
      · cases hfill
      · rename_i hbase
        cases hfill
        exact length_fillRequest hbase
    dsimp only at h
    split at h
    · cases h
    · rename_i ok base hsend
      cases h
      rw [← ok_of_send_iff hlength hsend]
      constructor
      · intro hwaits
        exact hwaits call cnt id rfl
      · rintro hok - - - -
        exact hok

theorem step_waits_iff {m : CoMoment} (hm : m.session.WaitsForSent) (a : Move)
    (henabled : m.enabled a) :
    (∀ m', m.step a = some m' → m'.session.WaitsForSent) ↔ SendsTaken m a := by
  cases a with
  | check =>
      refine iff_of_true ?_ trivial
      intro m' hstep
      dsimp only [step] at hstep
      split at hstep
      · split at hstep
        · cases hstep
          exact hm
        · cases hstep
      · cases hstep
  | connect connected =>
      refine iff_of_true ?_ trivial
      intro m' hstep
      dsimp only [step] at hstep
      split at hstep
      · rename_i call cnt hphase _
        split at hstep
        · cases hstep
        · cases connected with
          | true =>
              cases hstep
              exact hm.same rfl rfl
          | false =>
              cases hstep
              exact CoSession.waitsForSent_failed _ _ _ _
      · cases hstep
  | lock =>
      refine iff_of_true ?_ trivial
      intro m' hstep
      dsimp only [step] at hstep
      split at hstep
      · cases hstep
        exact hm.lockStep _ _ _
      · cases hstep
  | send timestamp =>
      constructor
      · intro hkept hsome call cnt id hphase hstage
        obtain ⟨m', hstep⟩ := Option.isSome_iff_exists.mp hsome
        have hwaits := hkept m' hstep
        simp only [step, hphase, hstage] at hstep
        obtain ⟨s', hrequest, rfl⟩ := Option.map_eq_some_iff.mp hstep
        exact (requestStep_waits_iff hrequest).mp hwaits
      · intro htaken m' hstep
        have htaken' := htaken (by rw [hstep]; rfl)
        dsimp only [step] at hstep
        split at hstep
        · rename_i call cnt id hphase hstage
          obtain ⟨s', hrequest, rfl⟩ := Option.map_eq_some_iff.mp hstep
          exact (requestStep_waits_iff hrequest).mpr (htaken' call cnt id hphase hstage)
        · cases hstep
  | other a =>
      refine iff_of_true ?_ trivial
      intro m' hstep
      obtain ⟨s', hs', rfl⟩ := Option.map_eq_some_iff.mp hstep
      refine hm.step ?_ ?_ hs'
      · rintro b rfl
        exact henabled
      · rintro t rfl
        exact henabled

/-- In every state reached a coroutine that has yielded waits for a request that was accepted,
exactly where each request sent is one that `Send` takes. -/
theorem yields_sent_iff (packidx : UInt32) (moves : List Move)
    (h : system.Allowed System.anyStep (init packidx) moves) :
    (∀ before, before <+: moves → ∀ m, system.run (init packidx) before = some m →
      m.session.WaitsForSent) ↔ system.Allowed SendsTaken (init packidx) moves :=
  System.reached_iff_allowed (I := fun _ ↦ True) (fun _ _ _ _ _ _ _ _ ↦ trivial)
    (fun _ a _ hm henabled ↦ step_waits_iff hm a henabled) trivial
    (CoSession.waitsForSent_idle rfl) h

instance (m : CoMoment) (a : Move) : Decidable (m.enabled a) :=
  match a with
  | .other (.connect _) => isFalse id
  | .other (.send _) => isFalse id
  | .other (.call c thr co) => inferInstanceAs (Decidable (m.session.enabled (.call c thr co)))
  | .other (.link id a) => inferInstanceAs (Decidable (m.session.enabled (.link id a)))
  | .other (.doThrResume thr) => inferInstanceAs (Decidable (m.session.enabled (.doThrResume thr)))
  | .other (.userConnect _) | .other .userClose | .other (.onDisconnected _)
  | .other (.onReceiveData _ _) | .check | .connect _ | .lock | .send _ => isTrue trivial

instance (m : CoMoment) (a : Move) : Decidable (system.enabled m a) :=
  inferInstanceAs (Decidable (m.enabled a))

instance (m : CoMoment) (a : Move) : Decidable (SendsTaken m a) :=
  match a with
  | .send timestamp =>
      match hphase : m.session.phase, hstage : m.stage with
      | .attempt call _, .locked id => @decidable_of_iff _
          ((m.step (.send timestamp)).isSome → Takes (m.session.conns id).link.base call.len)
          (by simp [SendsTaken, hphase, hstage]) inferInstance
      | .idle, _ => isTrue (by simp [SendsTaken, hphase])
      | .suspended _ _ _, _ => isTrue (by simp [SendsTaken, hphase])
      | .attempt _ _, .before => isTrue (by simp [SendsTaken, hstage])
      | .attempt _ _, .checked _ => isTrue (by simp [SendsTaken, hstage])
  | .check | .connect _ | .lock | .other _ => isTrue trivial

/-- A coroutine connects and calls with a message of one byte. -/
def oneCallMoves : List Move :=
  [.other (.userConnect true), .other (.call ⟨true, 7, [1], 1⟩ 3 4), .check, .lock, .send 9]

theorem yields_sent_oneCallMoves :
    system.Allowed System.anyStep (init 0) oneCallMoves ∧
      ∀ before, before <+: oneCallMoves → ∀ m, system.run (init 0) before = some m →
        m.session.WaitsForSent := by
  have hallowed : system.Allowed System.anyStep (init 0) oneCallMoves := by decide +kernel
  exact ⟨hallowed, (yields_sent_iff 0 oneCallMoves hallowed).mpr (by decide +kernel)⟩

/-- The connection is closed between the look at it and `Send`: the request is refused, and the
coroutine yields. -/
def closedCallMoves : List Move :=
  [.other (.userConnect true), .other (.call ⟨true, 7, [1], 1⟩ 3 4), .check, .lock,
    .other (.link 0 .close), .send 9]

theorem yields_sent_fails : system.Allowed System.anyStep (init 0) closedCallMoves ∧
    ¬ ∀ before, before <+: closedCallMoves → ∀ m, system.run (init 0) before = some m →
      m.session.WaitsForSent := by
  refine ⟨by decide +kernel, ?_⟩
  intro h
  obtain ⟨m, hrun⟩ : ∃ m, system.run (init 0) closedCallMoves = some m := ⟨_, rfl⟩
  have hphase : (system.run (init 0) closedCallMoves).map (fun m ↦ m.session.phase) =
      some (.suspended ⟨true, 7, [1], 1⟩ 0 0) := by decide +kernel
  have hwire : (system.run (init 0) closedCallMoves).map (fun m ↦ m.session.onWire) =
      some false := by decide +kernel
  rw [hrun, Option.map_some, Option.some.injEq] at hphase hwire
  have hwaits := h closedCallMoves List.prefix_rfl m hrun _ _ _ hphase
  rw [hwire] at hwaits
  cases hwaits

end CoMoment

end Slience
