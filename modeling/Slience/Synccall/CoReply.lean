import Slience.Synccall.CoClient

/-!
# A reply between its callback and the coroutine

`OnReceiveData` puts a reply into `pscinfo->buffer`; the coroutine looks at it when its
thread gets to the resume in its queue.  Until then `OnDisconnected` clears the same
buffer.  What `SyncCall` returns is what the last of these callbacks left there.
-/

namespace Slience

namespace Message

/-- The message is a keep-alive ack. -/
def isAck (m : Message) : Bool :=
  match m.buffer.readWord 0 with
  | none => false
  | some (msgid, _) => msgid == keepaliveAckId

/-- The message is a reply with this packet index. -/
def Carries (m : Message) (packidx : UInt32) : Prop :=
  ∃ way msgType rest, m.buffer.unread = callHead way msgType packidx ++ rest ∧
    way ≠ keepaliveAckId

instance (m : Message) (packidx : UInt32) : Decidable (m.Carries packidx) :=
  decidable_of_iff (m.buffer.unread = callHead (loadLe32 m.buffer.unread)
      (loadLe32 (m.buffer.unread.drop 4)) packidx ++ m.buffer.unread.drop 12 ∧
      loadLe32 m.buffer.unread ≠ keepaliveAckId) (by
    constructor
    · rintro ⟨hunread, hway⟩
      exact ⟨_, _, _, hunread, hway⟩
    · rintro ⟨way, msgType, rest, hunread, hway⟩
      have hfirst : loadLe32 m.buffer.unread = way := by
        rw [hunread, callHead, List.append_assoc, loadLe32_le32]
      have hsecond : loadLe32 (m.buffer.unread.drop 4) = msgType := by
        rw [hunread, callHead, List.append_assoc, List.append_assoc]
        exact loadLe32_le32 msgType _
      have hrest : m.buffer.unread.drop 12 = rest := by
        rw [hunread]
        rfl
      rw [hfirst, hsecond, hrest]
      exact ⟨hunread, hway⟩)

theorem unread_eq (m : Message) : m.buffer.unread = m.buffer.contents.drop 8 := by
  rw [Buffer.unread, m.offset_eq]
  rfl

theorem Carries.drop_unread {m : Message} {packidx : UInt32} (h : m.Carries packidx) :
    ∃ way msgType, m.buffer.unread =
      callHead way msgType packidx ++ m.buffer.unread.drop 12 := by
  obtain ⟨way, msgType, rest, hunread, -⟩ := h
  refine ⟨way, msgType, ?_⟩
  rw [hunread]
  rfl

end Message

namespace Buffer

theorem contents_readWord {b b' : Buffer} {old x : UInt32}
    (h : b.readWord old = some (x, b')) : b'.contents = b.contents := by
  unfold readWord read at h
  split_ifs at h <;> cases h <;> rfl

end Buffer

theorem ScClient.contents_checkReply {packidx : UInt32} {ok : Bool} {b b' : Buffer}
    (h : checkReply packidx b = some (ok, b')) : b'.contents = b.contents := by
  unfold checkReply at h
  obtain ⟨⟨x₁, b₁⟩, h₁, h⟩ := Option.bind_eq_some_iff.mp h
  obtain ⟨⟨x₂, b₂⟩, h₂, h⟩ := Option.bind_eq_some_iff.mp h
  obtain ⟨⟨x₃, b₃⟩, h₃, h⟩ := Option.bind_eq_some_iff.mp h
  cases h
  rw [Buffer.contents_readWord h₃, Buffer.contents_readWord h₂, Buffer.contents_readWord h₁]

namespace CoScInfo

theorem onReceiveData_ack {p : CoScInfo} {m : Message}
    {res : CoScInfo × Option (UInt32 × UInt32)} (hack : m.isAck = true)
    (h : p.onReceiveData m.buffer = some res) : res = (p, none) := by
  unfold Message.isAck at hack
  unfold onReceiveData at h
  split at h
  · cases h
  · rename_i msgid b hread
    rw [hread] at hack
    rw [if_neg (not_not.mpr (beq_iff_eq.mp hack))] at h
    exact (Option.some.inj h).symm

/-- Another message takes the place of what was in the buffer, and wakes the coroutine
that was in `co_id`. -/
theorem onReceiveData_message {p : CoScInfo} {m : Message}
    {res : CoScInfo × Option (UInt32 × UInt32)} (hack : m.isAck = false)
    (h : p.onReceiveData m.buffer = some res) :
    res.1.buffer.contents = m.buffer.contents ∧
      (4 ≤ m.buffer.unread.length → res.1.buffer.unread = m.buffer.unread) ∧
      res.1.valid = p.valid ∧ res.1.coId = invalidCo ∧ res.2 = some (p.thrId, p.coId) := by
  unfold Message.isAck at hack
  unfold onReceiveData at h
  split at h
  · cases h
  · rename_i msgid b hread
    rw [hread] at hack
    rw [if_pos (beq_eq_false_iff_ne.mp hack)] at h
    cases h
    refine ⟨?_, ?_, rfl, rfl, rfl⟩
    · rw [Buffer.contents_cutData, Buffer.contents_readWord hread]
    · intro hlen
      dsimp only
      rw [Buffer.unread_cutData_readWord hlen hread]

end CoScInfo

namespace CoSession

namespace Act

/-- The bytes that a callback leaves in the buffer of the connection `id`, where it does
not leave it as it was. -/
def leaves (id : ℕ) : Act → Option (List Byte)
  | .onDisconnected id' => if id' = id then some [] else none
  | .onReceiveData id' m => if id' = id ∧ m.isAck = false then some m.buffer.contents else none
  | _ => none

/-- What happens on the connections. -/
def IsCallback : Act → Prop
  | .onDisconnected _ | .onReceiveData _ _ | .link _ _ => True
  | _ => False

end Act

variable {s s' : CoSession}

/-! ## One callback -/

/-- A callback touches the infos of the connections and adds to the queues. -/
structure CalledBack (s s' : CoSession) : Prop where
  client_eq : s'.client = s.client
  phase_eq : s'.phase = s.phase
  caller_eq : s'.caller = s.caller
  requests_eq : s'.requests = s.requests
  results_eq : s'.results = s.results
  queued : ∀ thr co, co ∈ s.queueMap thr → co ∈ s'.queueMap thr

theorem calledBack_addResume (s : CoSession) (id : ℕ) (k : CoConn)
    (wake : Option (UInt32 × UInt32)) : CalledBack s ((s.setConn id k).addResume wake) := by
  cases wake with
  | none => exact ⟨rfl, rfl, rfl, rfl, rfl, fun _ _ hco ↦ hco⟩
  | some target =>
      refine ⟨rfl, rfl, rfl, rfl, rfl, ?_⟩
      intro thr co hco
      change co ∈ Function.update s.queueMap target.1 _ thr
      by_cases hthr : thr = target.1
      · subst hthr
        rw [Function.update_self]
        exact List.mem_append_left _ hco
      · rwa [Function.update_of_ne hthr]

@[simp] theorem conns_addResume (s : CoSession) (wake : Option (UInt32 × UInt32)) :
    (s.addResume wake).conns = s.conns := by
  cases wake <;> rfl

@[simp] theorem conns_setConn (s : CoSession) (id : ℕ) (k : CoConn) :
    (s.setConn id k).conns = Function.update s.conns id k := rfl

theorem step_callback {a : Act} (ha : a.IsCallback) (h : s.step a = some s') :
    CalledBack s s' := by
  cases a with
  | onDisconnected id =>
      cases h
      exact calledBack_addResume _ _ _ _
  | onReceiveData id m =>
      dsimp only [step] at h
      split at h
      · cases h
      · cases h
        exact calledBack_addResume _ _ _ _
  | link id a =>
      dsimp only [step] at h
      split at h
      · cases h
      · cases h
        exact calledBack_addResume s id _ none
  | userConnect _ | userClose | call _ _ _ | connect _ | send _ | doThrResume _ => cases ha

/-- The buffer of the connection `id` holds the message `r`, unread. -/
def Holds (s : CoSession) (id : ℕ) (r : Message) : Prop :=
  (s.conns id).info.buffer.contents = r.buffer.contents ∧
    (s.conns id).info.buffer.unread = r.buffer.unread

theorem step_leaves {a : Act} {id : ℕ} (ha : a.IsCallback) (h : s.step a = some s') :
    (a.leaves id = none ∧ (s'.conns id).info.buffer = (s.conns id).info.buffer) ∨
      ∃ bytes, a.leaves id = some bytes ∧ (s'.conns id).info.buffer.contents = bytes ∧
        ∀ r : Message, 4 ≤ r.buffer.unread.length → bytes = r.buffer.contents →
          s'.Holds id r := by
  cases a with
  | onDisconnected id' =>
      cases h
      by_cases hid : id' = id
      · subst hid
        refine Or.inr ⟨[], if_pos rfl, ?_, ?_⟩
        · simp
        · intro r hlen hnil
          rw [r.unread_eq, ← hnil] at hlen
          simp at hlen
      · refine Or.inl ⟨if_neg hid, ?_⟩
        simp [Function.update_of_ne (Ne.symm hid)]
  | onReceiveData id' m =>
      dsimp only [step] at h
      split at h
      · cases h
      · rename_i info wake hreceive
        cases h
        by_cases hid : id' = id
        · subst hid
          cases hack : m.isAck with
          | true =>
              have hsame := CoScInfo.onReceiveData_ack hack hreceive
              cases hsame
              refine Or.inl ⟨by simp [Act.leaves, hack], ?_⟩
              simp
          | false =>
              obtain ⟨hcontents, hunread, -⟩ := CoScInfo.onReceiveData_message hack hreceive
              refine Or.inr ⟨m.buffer.contents, by simp [Act.leaves, hack], ?_, ?_⟩
              · simpa using hcontents
              · intro r hlen hbytes
                have hsame : m.buffer.unread = r.buffer.unread := by
                  rw [m.unread_eq, r.unread_eq, hbytes]
                have hholds : info.buffer.unread = r.buffer.unread := by
                  rw [hunread (by rwa [hsame]), hsame]
                exact ⟨by simpa using hcontents.trans hbytes, by simpa using hholds⟩
        · refine Or.inl ⟨if_neg (fun hboth ↦ hid hboth.1), ?_⟩
          simp [Function.update_of_ne (Ne.symm hid)]
  | link id' a =>
      dsimp only [step] at h
      split at h
      · cases h
      · cases h
        refine Or.inl ⟨rfl, ?_⟩
        by_cases hid : id = id'
        · subst hid
          simp
        · simp [Function.update_of_ne hid]
  | userConnect _ | userClose | call _ _ _ | connect _ | send _ | doThrResume _ => cases ha

/-! ## The callbacks before the coroutine is resumed -/

theorem run_callbacks {acts : List Act} (hacts : ∀ a ∈ acts, a.IsCallback)
    (h : system.run s acts = some s') : CalledBack s s' := by
  induction acts generalizing s with
  | nil =>
      cases h
      exact ⟨rfl, rfl, rfl, rfl, rfl, fun _ _ hco ↦ hco⟩
  | cons a as ih =>
      rw [System.run_cons] at h
      obtain ⟨s₁, hstep, hrun⟩ := Option.bind_eq_some_iff.mp h
      have hfirst := step_callback (hacts a (by simp)) hstep
      have hrest := ih (fun b hb ↦ hacts b (by simp [hb])) hrun
      exact
        { client_eq := hrest.client_eq.trans hfirst.client_eq
          phase_eq := hrest.phase_eq.trans hfirst.phase_eq
          caller_eq := hrest.caller_eq.trans hfirst.caller_eq
          requests_eq := hrest.requests_eq.trans hfirst.requests_eq
          results_eq := hrest.results_eq.trans hfirst.results_eq
          queued := fun thr co hco ↦ hrest.queued thr co (hfirst.queued thr co hco) }

/-- The bytes in the buffer are those that the last of the callbacks left there, or still
the message. -/
theorem run_leaves {acts : List Act} {id : ℕ} {r : Message}
    (hlen : 4 ≤ r.buffer.unread.length) (hacts : ∀ a ∈ acts, a.IsCallback)
    (hr : s.Holds id r) (h : system.run s acts = some s') :
    (s'.conns id).info.buffer.contents =
        (acts.filterMap (Act.leaves id)).getLastD r.buffer.contents ∧
      ((acts.filterMap (Act.leaves id)).getLastD r.buffer.contents = r.buffer.contents →
        s'.Holds id r) := by
  induction acts using List.reverseRecOn generalizing s' with
  | nil =>
      cases h
      exact ⟨hr.1, fun _ ↦ hr⟩
  | append_singleton as a ih =>
      rw [System.run_append] at h
      obtain ⟨s₁, hrun, hlast⟩ := Option.bind_eq_some_iff.mp h
      rw [System.run_cons] at hlast
      obtain ⟨s₂, hstep, hend⟩ := Option.bind_eq_some_iff.mp hlast
      cases hend
      obtain ⟨hbytes, hholds⟩ := ih (fun b hb ↦ hacts b (by simp [hb])) hrun
      rw [List.filterMap_append]
      rcases @step_leaves s₁ s' a id (hacts a (by simp)) hstep with
        ⟨hnone, hsame⟩ | ⟨bytes, hsome, hcontents, hback⟩
      · have hnil : [a].filterMap (Act.leaves id) = [] := by simp [hnone]
        rw [hnil, List.append_nil]
        refine ⟨by rw [hsame, hbytes], fun hlast ↦ ?_⟩
        unfold Holds
        rw [hsame]
        exact hholds hlast
      · have hone : [a].filterMap (Act.leaves id) = [bytes] := by simp [hsome]
        rw [hone, List.getLastD_concat]
        exact ⟨hcontents, hback r hlen⟩

/-! ## The coroutine is resumed -/

/-- A coroutine in `yield` is in the info of its connection or in the queue of its
thread. -/
structure Waits (s : CoSession) : Prop where
  caller_ne : s.phase ≠ .idle → s.caller.2 ≠ invalidCo
  waits : ∀ call cnt id, s.phase = .suspended call cnt id →
    ((s.conns id).info.thrId = s.caller.1 ∧ (s.conns id).info.coId = s.caller.2) ∨
      s.caller.2 ∈ s.queueMap s.caller.1

theorem waits_init (packidx : UInt32) : (init packidx).Waits where
  caller_ne h := absurd rfl h
  waits _ _ _ h := by cases h

theorem waits_of_idle (h : s.phase = .idle) : s.Waits where
  caller_ne hne := absurd h hne
  waits call cnt id hphase := by
    rw [h] at hphase
    cases hphase

theorem waits_failed (hcaller : s.caller.2 ≠ invalidCo) (call : Call) (cnt : ℕ) (code : ℤ) :
    (s.failed call cnt code).Waits := by
  unfold failed
  split
  · exact ⟨fun _ ↦ hcaller, fun _ _ _ hphase ↦ by cases hphase⟩
  · exact waits_of_idle rfl

theorem caller_close (s : CoSession) : s.close.caller = s.caller := by
  unfold close
  split <;> rfl

theorem phase_close (s : CoSession) : s.close.phase = s.phase := by
  unfold close
  split <;> rfl

theorem Waits.addResume (h : s.Waits) {id : ℕ} {k : CoConn}
    {wake : Option (UInt32 × UInt32)}
    (hinfo : (k.info.thrId = (s.conns id).info.thrId ∧ k.info.coId = (s.conns id).info.coId) ∨
      wake = some ((s.conns id).info.thrId, (s.conns id).info.coId) ∨
      (s.conns id).info.coId = invalidCo) :
    ((s.setConn id k).addResume wake).Waits := by
  have hframe := calledBack_addResume s id k wake
  constructor
  · rw [hframe.phase_eq, hframe.caller_eq]
    exact h.caller_ne
  · intro call cnt id' hphase
    rw [hframe.phase_eq] at hphase
    rw [hframe.caller_eq, conns_addResume, conns_setConn]
    rcases h.waits call cnt id' hphase with ⟨hthr, hco⟩ | hqueue
    · by_cases hid : id' = id
      · subst hid
        rw [Function.update_self]
        rcases hinfo with ⟨hthr', hco'⟩ | rfl | hinvalid
        · exact Or.inl ⟨hthr'.trans hthr, hco'.trans hco⟩
        · right
          rw [hthr, hco]
          change s.caller.2 ∈ Function.update s.queueMap s.caller.1 _ s.caller.1
          rw [Function.update_self]
          exact List.mem_append_right _ (List.mem_singleton.mpr rfl)
        · have hne := h.caller_ne (by rw [hphase]; simp)
          rw [hco] at hinvalid
          exact absurd hinvalid hne
      · rw [Function.update_of_ne hid]
        exact Or.inl ⟨hthr, hco⟩
    · exact Or.inr (hframe.queued _ _ hqueue)

theorem waits_afterYield {call : Call} {cnt id : ℕ} (hcaller : s.caller.2 ≠ invalidCo)
    (h : s.afterYield call cnt id = some s') : s'.Waits := by
  unfold afterYield at h
  dsimp only at h
  split at h
  · cases h
  · split at h
    · cases h
      exact waits_of_idle rfl
    · cases h
      exact waits_failed (by rwa [caller_close]) _ _ _

theorem waits_sendStep {call : Call} {cnt id : ℕ} {timestamp : Int32}
    (hcaller : s.caller.2 ≠ invalidCo) (h : s.sendStep call cnt id timestamp = some s') :
    s'.Waits := by
  unfold sendStep at h
  dsimp only at h
  split at h
  · cases h
    exact waits_failed (by rwa [caller_close]) _ _ _
  · split at h
    · cases h
    · split at h
      · cases h
      · cases h
        refine ⟨fun _ ↦ hcaller, ?_⟩
        intro call' cnt' id' hphase
        cases hphase
        left
        rw [conns_setConn, Function.update_self]
        exact ⟨rfl, rfl⟩

/-- The thread takes the next coroutine from its queue; the one that waits stays there
unless it is the next one. -/
theorem waits_doThrResume {thr : UInt32} (h : s.Waits)
    (hstep : s.step (.doThrResume thr) = some s') : s'.Waits := by
  dsimp only [step] at hstep
  split at hstep
  · cases hstep
    exact h
  · rename_i co rest hqueue
    have hpopped : ∀ call cnt id, s.phase = .suspended call cnt id → (thr, co) ≠ s.caller →
        Waits { s with queueMap := Function.update s.queueMap thr rest } := by
      intro call cnt id hphase hother
      refine ⟨h.caller_ne, ?_⟩
      intro call' cnt' id' hphase'
      rcases h.waits call' cnt' id' hphase' with hinfo | hin
      · exact Or.inl hinfo
      · right
        change s.caller.2 ∈ Function.update s.queueMap thr rest s.caller.1
        by_cases hthr : s.caller.1 = thr
        · rw [hthr, Function.update_self]
          rw [hthr, hqueue, List.mem_cons] at hin
          refine hin.resolve_left fun hco ↦ hother ?_
          rw [← hthr, ← hco]
        · rwa [Function.update_of_ne hthr]
    unfold resume at hstep
    dsimp only at hstep
    split at hstep
    · rename_i call cnt id hphase
      have hcaller : s.caller.2 ≠ invalidCo := h.caller_ne (by rw [hphase]; simp)
      split at hstep
      · exact waits_afterYield (s := { s with queueMap := Function.update s.queueMap thr rest })
          hcaller hstep
      · rename_i hother
        cases hstep
        exact hpopped call cnt id hphase hother
    · rename_i hphase
      cases hstep
      refine ⟨h.caller_ne, ?_⟩
      intro call cnt id hsuspended
      exact absurd hsuspended (hphase call cnt id)

theorem step_waits {a : Act} (h : s.Waits) (henabled : s.enabled a) (hstep : s.step a = some s') :
    s'.Waits := by
  cases a with
  | userConnect connected =>
      dsimp only [step] at hstep
      split at hstep
      · rename_i hidle
        cases hstep
        apply waits_of_idle
        cases connected <;> exact hidle.1
      · cases hstep
  | userClose =>
      dsimp only [step] at hstep
      split at hstep
      · rename_i hidle
        cases hstep
        apply waits_of_idle
        rw [phase_close, hidle]
      · cases hstep
  | call c thr co =>
      dsimp only [step] at hstep
      split at hstep
      · cases hstep
        exact ⟨fun _ ↦ henabled.2, fun _ _ _ hphase ↦ by cases hphase⟩
      · cases hstep
  | connect connected =>
      dsimp only [step] at hstep
      split at hstep
      · rename_i c cnt hphase
        have hcaller : s.caller.2 ≠ invalidCo := h.caller_ne (by rw [hphase]; simp)
        split at hstep
        · cases hstep
        · cases hstep
          cases connected with
          | true =>
              refine ⟨fun _ ↦ hcaller, ?_⟩
              intro call cnt id hphase'
              change s.phase = _ at hphase'
              rw [hphase] at hphase'
              cases hphase'
          | false =>
              change ((s.reconnect false).2.failed c cnt (-2)).Waits
              exact waits_failed (s := (s.reconnect false).2) hcaller _ _ _
      · cases hstep
  | send timestamp =>
      dsimp only [step] at hstep
      split at hstep
      · rename_i c cnt id hphase hsocket
        split at hstep
        · exact waits_sendStep (h.caller_ne (by rw [hphase]; simp)) hstep
        · cases hstep
      · cases hstep
  | onDisconnected id =>
      cases hstep
      apply h.addResume
      by_cases hco : (s.conns id).info.coId = invalidCo
      · exact Or.inr (Or.inr hco)
      · exact Or.inr (Or.inl (if_pos hco))
  | onReceiveData id m =>
      dsimp only [step] at hstep
      split at hstep
      · cases hstep
      · rename_i info wake hreceive
        cases hstep
        apply h.addResume
        cases hack : m.isAck with
        | true =>
            cases CoScInfo.onReceiveData_ack hack hreceive
            exact Or.inl ⟨rfl, rfl⟩
        | false => exact Or.inr (Or.inl (CoScInfo.onReceiveData_message hack hreceive).2.2.2.2)
  | link id a =>
      dsimp only [step] at hstep
      split at hstep
      · cases hstep
      · cases hstep
        exact @Waits.addResume s h id _ none (Or.inl ⟨rfl, rfl⟩)
  | doThrResume thr => exact waits_doThrResume h hstep

theorem run_waits {packidx : UInt32} {acts : List Act}
    (h : system.Allowed System.anyStep (init packidx) acts)
    (hrun : system.run (init packidx) acts = some s) : s.Waits := by
  refine System.invariant_of_run ?_ (waits_init packidx) h hrun
  intro s₁ a s₂ hwaits henabled _ hstep
  exact step_waits hwaits henabled hstep

/-- The call that was under way in `s` has returned 0 with the message `r`, and has sent
nothing more. -/
structure ReturnedReply (s s' : CoSession) (r : Message) : Prop where
  phase_eq : s'.phase = .idle
  requests_eq : s'.requests = s.requests
  reply : ∃ b, s'.results = s.results ++ [.ok b] ∧ b.contents = r.buffer.contents ∧
    b.unread = r.buffer.unread.drop 12

theorem results_close (s : CoSession) : s.close.results = s.results := by
  unfold close
  split <;> rfl

theorem results_failed {call : Call} {cnt : ℕ} {code : ℤ}
    (h : (s.failed call cnt code).phase = .idle) :
    (s.failed call cnt code).results = s.results ++ [.error code] := by
  unfold failed at h ⊢
  split_ifs at h ⊢ with hcnt
  rfl

theorem returned_afterYield_iff {s₀ : CoSession} {call : Call} {cnt id : ℕ} {r : Message}
    (hcarries : r.Carries s.client.packidx) (hrequests : s.requests = s₀.requests)
    (hresults : s.results = s₀.results)
    (hheld : (s.conns id).info.buffer.contents = r.buffer.contents → s.Holds id r) :
    (∃ s', s.afterYield call cnt id = some s' ∧ s₀.ReturnedReply s' r) ↔
      (s.conns id).info.buffer.contents = r.buffer.contents := by
  constructor
  · rintro ⟨s', hyield, hreturned⟩
    obtain ⟨b, hresult, hcontents, -⟩ := hreturned.reply
    unfold afterYield at hyield
    dsimp only at hyield
    split at hyield
    · cases hyield
    · rename_i ok reply hcheck
      rw [← ScClient.contents_checkReply hcheck, ← hcontents]
      split at hyield
      · cases hyield
        change s.results ++ [CoOutcome.ok reply] = _ at hresult
        rw [hresults] at hresult
        have hreply := List.append_cancel_left hresult
        cases hreply
        rfl
      · -- the call goes on, or ends with an error
        cases hyield
        have herror := results_failed hreturned.phase_eq
        rw [results_close] at herror
        change _ = s.results ++ [CoOutcome.error (-3)] at herror
        rw [herror, hresults] at hresult
        cases List.append_cancel_left hresult
  · intro hcontents
    obtain ⟨-, hunread⟩ := hheld hcontents
    obtain ⟨way, msgType, hhead⟩ := hcarries.drop_unread
    rw [← hunread] at hhead
    obtain ⟨b, hcheck, hb⟩ := @ScClient.checkReply_spec s.client.packidx _ _ _ _ _ hhead
    rw [beq_self_eq_true] at hcheck
    unfold afterYield
    dsimp only
    rw [hcheck]
    refine ⟨_, rfl, rfl, hrequests, b, ?_, ?_, ?_⟩
    · exact congrArg (· ++ [CoOutcome.ok b]) hresults
    · rw [ScClient.contents_checkReply hcheck, hcontents]
    · rw [hb, hunread]

theorem resume_caller {call : Call} {cnt id : ℕ} (h : s.phase = .suspended call cnt id) :
    s.resume s.caller.1 s.caller.2 = s.afterYield call cnt id := by
  unfold resume
  rw [h]
  exact if_pos rfl

theorem coId_of_stored {id : ℕ} {m : Message} (hack : m.isAck = false)
    (h : s.step (.onReceiveData id m) = some s') : (s'.conns id).info.coId = invalidCo := by
  dsimp only [step] at h
  split at h
  · cases h
  · rename_i info wake hreceive
    cases h
    have hco := (CoScInfo.onReceiveData_message hack hreceive).2.2.2.1
    simpa using hco

/-- The last of the callbacks that leave something in the buffer of the connection `id`,
if there is one, leaves the message `r`. -/
def Undisturbed (id : ℕ) (r : Message) (acts : List Act) : Prop :=
  (acts.filterMap (Act.leaves id)).getLastD r.buffer.contents = r.buffer.contents

instance (id : ℕ) (r : Message) (acts : List Act) : Decidable (Undisturbed id r acts) :=
  inferInstanceAs (Decidable (_ = _))

/-- In every run of a client, when a reply with the packet index of the request has been
stored for the suspended coroutine, and whatever callbacks follow: the coroutine is in the
queue of its thread, and where it is resumed `SyncCall` returns 0 with this reply and
without another request, if and only if the callbacks have left the reply undisturbed. -/
theorem replied_iff (packidx : UInt32) {acts₀ acts : List Act} {s s₁ s₂ : CoSession}
    {call : Call} {cnt id : ℕ} {r : Message}
    (hallowed : system.Allowed System.anyStep (init packidx) acts₀)
    (hrun₀ : system.run (init packidx) acts₀ = some s)
    (hphase : s.phase = .suspended call cnt id) (hcarries : r.Carries s.client.packidx)
    (hstore : s.step (.onReceiveData id r) = some s₁)
    (hcallbacks : ∀ a ∈ acts, a.IsCallback) (hrun : system.run s₁ acts = some s₂) :
    (s₂.caller.2 ∈ s₂.queueMap s₂.caller.1 ∧
      ∃ s₃, s₂.resume s₂.caller.1 s₂.caller.2 = some s₃ ∧ s.ReturnedReply s₃ r) ↔
      Undisturbed id r acts := by
  obtain ⟨way, msgType, rest, hhead, hway⟩ := hcarries
  have hlen : 4 ≤ r.buffer.unread.length := by
    rw [hhead, callHead, List.append_assoc, List.length_append, length_le32]
    omega
  have hback : r.isAck = false := by
    rw [callHead, List.append_assoc] at hhead
    obtain ⟨b, hread, -⟩ := Buffer.readWord_spec 0 hhead
    rw [Message.isAck, hread]
    exact beq_eq_false_iff_ne.mpr hway
  have hcallback : (Act.onReceiveData id r).IsCallback := trivial
  have hfirst := step_callback hcallback hstore
  have hrest := run_callbacks hcallbacks hrun
  have hholds : s₁.Holds id r := by
    rcases @step_leaves s s₁ _ id hcallback hstore with ⟨hnone, -⟩ | ⟨bytes, hsome, -, hr⟩
    · simp [Act.leaves, hback] at hnone
    · refine hr r hlen ?_
      simpa [Act.leaves, hback] using hsome.symm
  obtain ⟨hbytes, hheld⟩ := run_leaves hlen hcallbacks hholds hrun
  have hphase₁ : s₁.phase = .suspended call cnt id := hfirst.phase_eq.trans hphase
  have hphase₂ : s₂.phase = .suspended call cnt id := hrest.phase_eq.trans hphase₁
  have hqueue : s₂.caller.2 ∈ s₂.queueMap s₂.caller.1 := by
    have hwaits : s₁.Waits := 
      step_waits (a := .onReceiveData id r) (run_waits hallowed hrun₀) trivial hstore
    rw [hrest.caller_eq]
    rcases hwaits.waits call cnt id hphase₁ with ⟨-, hco⟩ | hin
    · rw [coId_of_stored hback hstore] at hco
      exact absurd hco.symm (hwaits.caller_ne (by rw [hphase₁]; simp))
    · exact hrest.queued _ _ hin
  have hcarries₂ : r.Carries s₂.client.packidx :=
    ⟨way, msgType, rest, by rwa [hrest.client_eq, hfirst.client_eq], hway⟩
  have hyield := @returned_afterYield_iff s₂ s call cnt id r hcarries₂
    (hrest.requests_eq.trans hfirst.requests_eq) (hrest.results_eq.trans hfirst.results_eq)
    (fun hcontents ↦ hheld (hbytes.symm.trans hcontents))
  rw [hbytes] at hyield
  rw [resume_caller hphase₂, and_iff_right hqueue]
  exact hyield

/-- The message that the bytes of one frame become, if they fit one block of a buffer. -/
def messageOf (frame : List Byte) (h : 8 ≤ frame.length ∧ frame.length ≤ 1024) : Message where
  buffer :=
    { size := 1024
      pos := UInt32.ofNat frame.length
      offset := MessageHeader.hdrlen
      data := frame ++ List.replicate (1024 - frame.length) 0
      data_length := by
        rw [List.length_append, List.length_replicate, Nat.add_sub_cancel' h.2]
        rfl
      pos_le_size := by
        rw [UInt32.toNat_ofNat', Nat.mod_eq_of_lt (by omega)]
        exact h.2
      offset_le_pos := by
        rw [UInt32.toNat_ofNat', Nat.mod_eq_of_lt (by omega)]
        exact h.1 }
  offset_eq := rfl

/-- A call from the coroutine 0 of the thread 1, up to `yield`. -/
def askRun : List Act :=
  [.userConnect true, .call ⟨true, 5, [65], 1⟩ 1 0, .send 7]

def askReply : Message :=
  messageOf (sendBlock 8 (callHead twowayType 5 1 ++ [66])) (by decide)

def keepAliveAck : Message := messageOf (sendBlock 9 (le32 keepaliveAckId)) (by decide)

/-- The reply is followed by a keep-alive ack. -/
theorem replied_iff_askRun :
    ∃ s s₁ s₂, system.run (init 0) askRun = some s ∧
      s.step (.onReceiveData 0 askReply) = some s₁ ∧
      system.run s₁ [.onReceiveData 0 keepAliveAck] = some s₂ ∧
      ∃ s₃, s₂.resume s₂.caller.1 s₂.caller.2 = some s₃ ∧ s.ReturnedReply s₃ askReply := by
  have hexists : (system.run (init 0) askRun).any (fun s ↦
      decide (s.phase = .suspended ⟨true, 5, [65], 1⟩ 0 0 ∧ s.client.packidx = 1) &&
        (s.step (.onReceiveData 0 askReply)).any (fun s₁ ↦
          (system.run s₁ [.onReceiveData 0 keepAliveAck]).isSome)) = true := by
    decide +kernel
  obtain ⟨s, hs, hboth⟩ := (Option.any_eq_true _ _).mp hexists
  rw [Bool.and_eq_true, decide_eq_true_iff] at hboth
  obtain ⟨⟨hphase, hidx⟩, hstored⟩ := hboth
  obtain ⟨s₁, hs₁, hlast⟩ := (Option.any_eq_true _ _).mp hstored
  obtain ⟨s₂, hs₂⟩ := Option.isSome_iff_exists.mp hlast
  have hcarries : askReply.Carries s.client.packidx :=
    ⟨twowayType, 5, [66], by rw [hidx]; decide, by decide⟩
  have hallowed : system.Allowed System.anyStep (init 0) askRun := by decide +kernel
  refine ⟨s, s₁, s₂, hs, hs₁, hs₂, ((replied_iff 0 hallowed hs hphase hcarries hs₁ ?_ hs₂).mpr
    ?_).2⟩
  · simp [Act.IsCallback]
  · decide +kernel

/-- `OnDisconnected` comes between the reply and the coroutine, which sends the request
again. -/
theorem replied_fails :
    ∃ s s₁ s₂ s₃ s₄, system.run (init 0) askRun = some s ∧
      s.phase = .suspended ⟨true, 5, [65], 1⟩ 0 0 ∧ askReply.Carries s.client.packidx ∧
      s.step (.onReceiveData 0 askReply) = some s₁ ∧
      system.run s₁ [.onDisconnected 0] = some s₂ ∧
      s₂.step (.doThrResume 1) = some s₃ ∧ ¬ s.ReturnedReply s₃ askReply ∧
      system.run s₃ [.connect true, .send 9] = some s₄ ∧
      s.requests.length = 1 ∧ s₄.requests.length = 2 := by
  have hexists : (system.run (init 0) askRun).any (fun s ↦
      decide (s.phase = .suspended ⟨true, 5, [65], 1⟩ 0 0 ∧ s.client.packidx = 1 ∧
        s.requests.length = 1) &&
        (s.step (.onReceiveData 0 askReply)).any (fun s₁ ↦
          (system.run s₁ [.onDisconnected 0]).any (fun s₂ ↦
            (s₂.step (.doThrResume 1)).any (fun s₃ ↦ decide (s₃.phase ≠ .idle) &&
              (system.run s₃ [.connect true, .send 9]).any (fun s₄ ↦
                decide (s₄.requests.length = 2)))))) = true := by
    decide +kernel
  simp only [Option.any_eq_true, Bool.and_eq_true, decide_eq_true_iff] at hexists
  obtain ⟨s, hs, ⟨hphase, hidx, hlen⟩, s₁, hs₁, s₂, hs₂, s₃, hs₃, hgoes, s₄, hs₄, hlen₄⟩ :=
    hexists
  refine ⟨s, s₁, s₂, s₃, s₄, hs, hphase, ⟨twowayType, 5, [66], by rw [hidx]; decide, by decide⟩,
    hs₁, hs₂, hs₃, ?_, hs₄, hlen, hlen₄⟩
  intro hreturned
  exact hgoes hreturned.phase_eq

end CoSession

end Slience
