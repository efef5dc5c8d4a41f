import Slience.Synccall.CoReply
import Slience.Synccall.Dealings

/-!
# The requests of `CoScClient`

Coroutines share the connections of a `CoScClient`.  When these do not fail and the server
answers what was sent to it, the calls that were made are those whose requests went out.
-/

namespace Slience

/-- The requests of these calls, the first of which has the packet index behind
`packidx`. -/
def requestsFrom (packidx : UInt32) : List Call → List (List Byte)
  | [] => []
  | c :: cs => c.request (packidx + 1) :: requestsFrom (packidx + 1) cs

theorem requestsFrom_concat (packidx : UInt32) (cs : List Call) (c : Call) :
    requestsFrom packidx (cs ++ [c]) =
      requestsFrom packidx cs ++ [c.request (packidx + UInt32.ofNat cs.length + 1)] := by
  induction cs generalizing packidx with
  | nil => simp [requestsFrom]
  | cons d cs ih =>
      have hidx :
          packidx + 1 + UInt32.ofNat cs.length = packidx + UInt32.ofNat (cs.length + 1) := by
        rw [UInt32.ofNat_add, UInt32.add_assoc, UInt32.add_comm 1]
        rfl
      rw [List.cons_append, requestsFrom, ih, requestsFrom, List.length_cons, hidx,
        List.cons_append]

namespace CoSession

/-- The step is not a failure of a connection, and the server answers the requests that
`Send` accepted, each once and with its packet index. -/
def Steady (s : CoSession) : Act → Prop
  | .userConnect connected | .connect connected => connected = true
  | .userClose | .onDisconnected _ => False
  | .onReceiveData id m => s.client.socket = some id ∧
      (m.isAck = true ∨ (m.isAck = false ∧ m.Carries s.client.packidx ∧ s.onWire = true ∧
        (s.conns id).info.coId ≠ invalidCo))
  | .link _ a => a ≠ .close
  | _ => True

instance (s : CoSession) : (a : Act) → Decidable (s.Steady a)
  | .userConnect _ | .connect _ => inferInstanceAs (Decidable (_ = _))
  | .userClose | .onDisconnected _ => inferInstanceAs (Decidable False)
  | .onReceiveData _ _ => inferInstanceAs (Decidable (_ ∧ (_ ∨ (_ ∧ _ ∧ _ ∧ _))))
  | .link _ .close => isFalse (fun h ↦ h rfl)
  | .link _ (.send ..) => isTrue (by simp [Steady])
  | .link _ (.sendBuffer _) => isTrue (by simp [Steady])
  | .link _ (.writeDone _) => isTrue (by simp [Steady])
  | .call _ _ _ | .send _ | .doThrResume _ => inferInstanceAs (Decidable True)

/-- Between two attempts nothing is left of the last one. -/
structure AtRest (s : CoSession) : Prop where
  queueMap_eq : ∀ thr, s.queueMap thr = []
  coId_eq : ∀ id, (s.conns id).info.coId = invalidCo

/-- The coroutine waits on the connection `id` for the reply, or the reply is there and
the coroutine is in the queue of its thread. -/
structure Asking (s : CoSession) (id : ℕ) : Prop where
  socket_eq : s.client.socket = some id
  coId_eq : ∀ id', id' ≠ id → (s.conns id').info.coId = invalidCo
  waits : ((s.conns id).info.thrId = s.caller.1 ∧ (s.conns id).info.coId = s.caller.2 ∧
      ∀ thr, s.queueMap thr = []) ∨
    (s.onWire = true ∧ (s.conns id).info.coId = invalidCo ∧
      (∃ way msgType rest, (s.conns id).info.buffer.unread =
        callHead way msgType s.client.packidx ++ rest) ∧
      s.queueMap s.caller.1 = [s.caller.2] ∧ ∀ thr, thr ≠ s.caller.1 → s.queueMap thr = [])

/-- The calls that were made, and what has been sent for them. -/
structure Made (packidx : UInt32) (s : CoSession) : Prop where
  valid : ∀ id, (s.conns id).info.valid = true
  caller_ne : s.phase ≠ .idle → s.caller.2 ≠ invalidCo
  length_le : ∀ c ∈ s.calls, c.len.toNat ≤ c.msg.length
  size_le : ∀ body ∈ s.requests, body.length ≤ socketPackSize.toNat
  idle : s.phase = .idle → s.AtRest ∧
    s.client.packidx = packidx + UInt32.ofNat s.calls.length ∧
    s.requests = requestsFrom packidx (s.calls.map Call.withReply)
  attempt : ∀ c cnt, s.phase = .attempt c cnt → s.AtRest ∧ ∃ prev, s.calls = prev ++ [c] ∧
    s.client.packidx = packidx + UInt32.ofNat prev.length ∧
    s.requests = requestsFrom packidx (prev.map Call.withReply)
  suspended : ∀ c cnt id, s.phase = .suspended c cnt id → s.Asking id ∧
    s.client.packidx = packidx + UInt32.ofNat s.calls.length ∧
    (s.onWire = true → s.requests = requestsFrom packidx (s.calls.map Call.withReply))

theorem made_init (packidx : UInt32) : (init packidx).Made packidx where
  valid _ := rfl
  caller_ne h := absurd rfl h
  length_le _ h := by cases h
  size_le _ h := by cases h
  idle _ := ⟨⟨fun _ ↦ rfl, fun _ ↦ rfl⟩, (UInt32.add_zero _).symm, rfl⟩
  attempt _ _ h := by cases h
  suspended _ _ _ h := by cases h

section Steps

variable {packidx : UInt32} {s s' : CoSession}

theorem Made.reconnect (h : s.Made packidx)
    (hphase : ∀ c cnt id, s.phase ≠ .suspended c cnt id) :
    (s.reconnect true).2.Made packidx := by
  have hrest : s.AtRest → (s.reconnect true).2.AtRest := by
    intro hrest
    refine ⟨hrest.queueMap_eq, ?_⟩
    intro id
    change (Function.update s.conns s.opened _ id).info.coId = invalidCo
    by_cases hid : id = s.opened
    · subst hid
      rw [Function.update_self]
      rfl
    · rw [Function.update_of_ne hid]
      exact hrest.coId_eq id
  constructor
  · intro id
    change (Function.update s.conns s.opened _ id).info.valid = true
    by_cases hid : id = s.opened
    · subst hid
      rw [Function.update_self]
      rfl
    · rw [Function.update_of_ne hid]
      exact h.valid id
  · exact h.caller_ne
  · exact h.length_le
  · exact h.size_le
  · intro hidle
    obtain ⟨hat, hmore⟩ := h.idle hidle
    exact ⟨hrest hat, hmore⟩
  · intro c cnt hattempt
    obtain ⟨hat, hmore⟩ := h.attempt c cnt hattempt
    exact ⟨hrest hat, hmore⟩
  · intro c cnt id hsuspended
    exact absurd hsuspended (hphase c cnt id)

theorem Made.call (h : s.Made packidx) (hidle : s.phase = .idle) {c : Call} {thr co : UInt32}
    (hlen : c.len.toNat ≤ c.msg.length) (hco : co ≠ invalidCo) :
    Made packidx { s with
      phase := .attempt c 0, caller := (thr, co), calls := s.calls ++ [c] } := by
  obtain ⟨⟨hqueue, hcoId⟩, hidx, hrequests⟩ := h.idle hidle
  constructor
  · exact h.valid
  · exact fun _ ↦ hco
  · intro d hd
    rcases List.mem_append.mp hd with hd | hd
    · exact h.length_le d hd
    · rw [List.mem_singleton.mp hd]
      exact hlen
  · exact h.size_le
  · intro hfalse
    cases hfalse
  · intro d cnt hattempt
    cases hattempt
    exact ⟨⟨hqueue, hcoId⟩, s.calls, rfl, hidx, hrequests⟩
  · intro _ _ _ hfalse
    cases hfalse

theorem length_le_of_send {b b' : BaseSocket} {timestamp : Int32} {data : List Byte}
    {len : UInt32} (h : b.send false timestamp data len = some (true, b')) :
    len.toNat ≤ socketPackSize.toNat := by
  unfold BaseSocket.send at h
  dsimp only at h
  split_ifs at h with hzero hbig
  all_goals first
    | exact UInt32.le_iff_toNat_le.mp (UInt32.not_lt.mp hbig)
    | cases h

theorem Made.send (h : s.Made packidx) {c : Call} {cnt id : ℕ} {timestamp : Int32}
    (hphase : s.phase = .attempt c cnt) (hsocket : s.client.socket = some id)
    (hstep : s.sendStep c cnt id timestamp = some s') : s'.Made packidx := by
  obtain ⟨⟨hqueue, hcoId⟩, prev, hcalls, hidx, hrequests⟩ := h.attempt c cnt hphase
  have hcaller : s.caller.2 ≠ invalidCo := h.caller_ne (by rw [hphase]; simp)
  unfold sendStep CoScClient.fillRequest at hstep
  dsimp only at hstep
  rw [h.valid id, if_neg (by decide)] at hstep
  split at hstep
  · cases hstep
  · rename_i client hfill
    split at hfill
    · cases hfill
    · rename_i base hbase
      cases hfill
      obtain ⟨-, hunread⟩ := ScClient.fillRequest_spec hbase
      have hidx' := ScClient.packidx_fillRequest hbase
      change base.packidx = s.client.packidx + 1 at hidx'
      have hbody : base.request.unread =
          c.withReply.request (packidx + UInt32.ofNat prev.length + 1) := by
        rw [hunread, hidx', hidx]
        rfl
      have hcount : packidx + UInt32.ofNat prev.length + 1 =
          packidx + UInt32.ofNat s.calls.length := by
        rw [hcalls, List.length_append, UInt32.ofNat_add, UInt32.add_assoc]
        rfl
      split at hstep
      · cases hstep
      · rename_i ok link hsend
        cases hstep
        constructor
        · intro id'
          change (Function.update s.conns id _ id').info.valid = true
          by_cases hid : id' = id
          · subst hid
            rw [Function.update_self]
          · rw [Function.update_of_ne hid]
            exact h.valid id'
        · exact fun _ ↦ hcaller
        · exact h.length_le
        · intro body hin
          cases ok with
          | false => exact h.size_le body hin
          | true =>
              rcases List.mem_append.mp hin with hin | hin
              · exact h.size_le body hin
              · rw [List.mem_singleton.mp hin, ← Buffer.toNat_length]
                exact length_le_of_send hsend
        · intro hfalse
          cases hfalse
        · intro _ _ hfalse
          cases hfalse
        · intro c' cnt' id' hsuspended
          cases hsuspended
          refine ⟨⟨hsocket, ?_, Or.inl ⟨?_, ?_, hqueue⟩⟩, ?_, ?_⟩
          · intro id' hid
            change (Function.update s.conns id _ id').info.coId = invalidCo
            rw [Function.update_of_ne hid]
            exact hcoId id'
          · change (Function.update s.conns id _ id).info.thrId = s.caller.1
            rw [Function.update_self]
          · change (Function.update s.conns id _ id).info.coId = s.caller.2
            rw [Function.update_self]
          · exact hidx'.trans (by rw [hidx]; exact hcount)
          · intro hok
            change ok = true at hok
            subst hok
            change s.requests ++ [base.request.unread] =
              requestsFrom packidx (s.calls.map Call.withReply)
            rw [hrequests, hbody, hcalls, List.map_append, List.map_singleton,
              requestsFrom_concat, List.length_map]

theorem Made.setLink (h : s.Made packidx) (id : ℕ) (link : Link) :
    (s.setConn id { s.conns id with link := link }).Made packidx := by
  have hinfo : ∀ id', ((s.setConn id { s.conns id with link := link }).conns id').info =
      (s.conns id').info := by
    intro id'
    rw [conns_setConn]
    by_cases hid : id' = id
    · subst hid
      rw [Function.update_self]
    · rw [Function.update_of_ne hid]
  have hrest : s.AtRest → (s.setConn id { s.conns id with link := link }).AtRest :=
    fun hat ↦ ⟨hat.queueMap_eq, fun id' ↦ by rw [hinfo]; exact hat.coId_eq id'⟩
  constructor
  · intro id'
    rw [hinfo]
    exact h.valid id'
  · exact h.caller_ne
  · exact h.length_le
  · exact h.size_le
  · intro hidle
    obtain ⟨hat, hmore⟩ := h.idle hidle
    exact ⟨hrest hat, hmore⟩
  · intro c cnt hattempt
    obtain ⟨hat, hmore⟩ := h.attempt c cnt hattempt
    exact ⟨hrest hat, hmore⟩
  · intro c cnt id' hsuspended
    obtain ⟨hask, hmore⟩ := h.suspended c cnt id' hsuspended
    refine ⟨⟨hask.socket_eq, ?_, ?_⟩, hmore⟩
    · intro id₁ hid
      rw [hinfo]
      exact hask.coId_eq id₁ hid
    · rw [hinfo]
      exact hask.waits

theorem Made.reply (h : s.Made packidx) {id : ℕ} {m : Message} {info : CoScInfo}
    {wake : Option (UInt32 × UInt32)} (hsocket : s.client.socket = some id)
    (hack : m.isAck = false) (hcarries : m.Carries s.client.packidx) (hwire : s.onWire = true)
    (hco : (s.conns id).info.coId ≠ invalidCo)
    (hreceive : (s.conns id).info.onReceiveData m.buffer = some (info, wake)) :
    ((s.setConn id { s.conns id with info := info }).addResume wake).Made packidx := by
  obtain ⟨-, hunread, hvalid, hinvalid, hwake⟩ := CoScInfo.onReceiveData_message hack hreceive
  obtain ⟨way, msgType, rest, hhead, -⟩ := hcarries
  have hlen : 4 ≤ m.buffer.unread.length := by
    rw [hhead, callHead, List.append_assoc, List.length_append, length_le32]
    omega
  -- the phase and what was sent stay; only the coroutine can be in the info
  have hno : ¬ s.AtRest := fun hat ↦ hco (hat.coId_eq id)
  have hconns : ∀ id', ((Function.update s.conns id { s.conns id with info := info }) id').info =
      if id' = id then info else (s.conns id').info := by
    intro id'
    by_cases hid : id' = id
    · subst hid
      rw [Function.update_self, if_pos rfl]
    · rw [Function.update_of_ne hid, if_neg hid]
  subst hwake
  constructor
  · intro id'
    rw [conns_addResume, conns_setConn, hconns]
    split
    · rw [hvalid]
      exact h.valid id
    · exact h.valid id'
  · exact h.caller_ne
  · exact h.length_le
  · exact h.size_le
  · exact fun hidle ↦ absurd (h.idle hidle).1 hno
  · exact fun c cnt hattempt ↦ absurd (h.attempt c cnt hattempt).1 hno
  · intro c cnt id' hsuspended
    obtain ⟨hask, hidx, hrequests⟩ := h.suspended c cnt id' hsuspended
    have hid : id' = id := Option.some.inj (hask.socket_eq.symm.trans hsocket)
    subst hid
    obtain ⟨hthr, hcaller, hqueue⟩ | ⟨-, hanswered, -⟩ := hask.waits
    · refine ⟨⟨hsocket, ?_, Or.inr ⟨hwire, ?_, ⟨way, msgType, rest, ?_⟩, ?_, ?_⟩⟩, hidx, hrequests⟩
      · intro id₁ hne
        rw [conns_addResume, conns_setConn, hconns, if_neg hne]
        exact hask.coId_eq id₁ hne
      · rw [conns_addResume, conns_setConn, hconns, if_pos rfl]
        exact hinvalid
      · rw [conns_addResume, conns_setConn, hconns, if_pos rfl]
        exact (hunread hlen).trans hhead
      · rw [hthr, hcaller]
        change Function.update s.queueMap s.caller.1 (s.queueMap s.caller.1 ++ [s.caller.2])
          s.caller.1 = [s.caller.2]
        rw [Function.update_self, hqueue]
        rfl
      · intro thr hne
        rw [hthr, hcaller]
        change Function.update s.queueMap s.caller.1 _ thr = []
        rw [Function.update_of_ne (show thr ≠ s.caller.1 from hne)]
        exact hqueue thr
    · exact absurd hanswered hco

theorem Made.resume (h : s.Made packidx) {thr : UInt32}
    (hstep : s.step (.doThrResume thr) = some s') : s'.Made packidx := by
  dsimp only [step] at hstep
  split at hstep
  · cases hstep
    exact h
  · rename_i co rest hqueue
    have hno : ¬ s.AtRest := by
      intro hat
      rw [hat.queueMap_eq] at hqueue
      cases hqueue
    cases hphase : s.phase with
    | idle => exact absurd (h.idle hphase).1 hno
    | attempt c cnt => exact absurd (h.attempt c cnt hphase).1 hno
    | suspended c cnt id =>
        obtain ⟨hask, hidx, hrequests⟩ := h.suspended c cnt id hphase
        obtain ⟨-, -, hempty⟩ | ⟨hwire, hco, ⟨way, msgType, bytes, hhead⟩, hown, hothers⟩ :=
          hask.waits
        · rw [hempty] at hqueue
          cases hqueue
        · have hthr : thr = s.caller.1 := by
            by_contra hne
            rw [hothers thr hne] at hqueue
            cases hqueue
          subst hthr
          rw [hown] at hqueue
          cases hqueue
          obtain ⟨b, hcheck, -⟩ := @ScClient.checkReply_spec s.client.packidx _ _ _ _ _ hhead
          rw [beq_self_eq_true] at hcheck
          rw [CoSession.resume, hphase] at hstep
          dsimp only at hstep
          rw [if_pos rfl, afterYield] at hstep
          dsimp only at hstep
          rw [hcheck] at hstep
          cases hstep
          have hinfo : ∀ id', ((Function.update s.conns id { s.conns id with
              info := { (s.conns id).info with buffer := b } }) id').info.valid = true ∧
              ((Function.update s.conns id { s.conns id with
                info := { (s.conns id).info with buffer := b } }) id').info.coId = invalidCo := by
            intro id'
            by_cases hid : id' = id
            · subst hid
              rw [Function.update_self]
              exact ⟨h.valid id', hco⟩
            · rw [Function.update_of_ne hid]
              exact ⟨h.valid id', hask.coId_eq id' hid⟩
          constructor
          · exact fun id' ↦ (hinfo id').1
          · exact fun hne ↦ absurd rfl hne
          · exact h.length_le
          · exact h.size_le
          · intro _
            refine ⟨⟨?_, fun id' ↦ (hinfo id').2⟩, hidx, hrequests hwire⟩
            intro thr
            change Function.update s.queueMap s.caller.1 [] thr = []
            by_cases hthr : thr = s.caller.1
            · rw [hthr, Function.update_self]
            · rw [Function.update_of_ne hthr]
              exact hothers thr hthr
          · intro _ _ hfalse
            cases hfalse
          · intro _ _ _ hfalse
            cases hfalse

theorem setConn_self (s : CoSession) (id : ℕ) : s.setConn id (s.conns id) = s := by
  rw [setConn, Function.update_eq_self]

theorem step_made {a : Act} (h : s.Made packidx) (henabled : s.enabled a) (hcond : s.Steady a)
    (hstep : s.step a = some s') : s'.Made packidx := by
  cases a with
  | userConnect connected =>
      obtain rfl : connected = true := hcond
      dsimp only [step] at hstep
      split at hstep
      · rename_i hidle
        cases hstep
        apply h.reconnect
        rw [hidle.1]
        simp
      · cases hstep
  | userClose => cases hcond
  | call c thr co =>
      dsimp only [step] at hstep
      split at hstep
      · rename_i hidle
        cases hstep
        exact h.call hidle henabled.1 henabled.2
      · cases hstep
  | connect connected =>
      obtain rfl : connected = true := hcond
      dsimp only [step] at hstep
      split at hstep
      · rename_i c cnt hphase
        split at hstep
        · cases hstep
        · cases hstep
          apply h.reconnect
          rw [hphase]
          simp
      · cases hstep
  | send timestamp =>
      dsimp only [step] at hstep
      split at hstep
      · rename_i c cnt id hphase hsocket
        split at hstep
        · exact h.send hphase hsocket hstep
        · cases hstep
      · cases hstep
  | onDisconnected id => cases hcond
  | onReceiveData id m =>
      obtain ⟨hsocket, hmessage⟩ := hcond
      dsimp only [step] at hstep
      split at hstep
      · cases hstep
      · rename_i info wake hreceive
        cases hstep
        obtain hack | ⟨hack, hcarries, hwire, hco⟩ := hmessage
        · cases CoScInfo.onReceiveData_ack hack hreceive
          change (s.setConn id (s.conns id)).Made packidx
          rwa [setConn_self]
        · exact h.reply hsocket hack hcarries hwire hco hreceive
  | link id a =>
      dsimp only [step] at hstep
      split at hstep
      · cases hstep
      · cases hstep
        exact h.setLink id _
  | doThrResume thr => exact h.resume hstep

theorem run_made {acts : List Act} (h : system.Allowed Steady (init packidx) acts)
    (hrun : system.run (init packidx) acts = some s) : s.Made packidx := by
  refine System.invariant_of_run ?_ (made_init packidx) h hrun
  intro s₁ a s₂ hmade henabled hcond hstep
  exact step_made hmade henabled hcond hstep

end Steps

end CoSession

end Slience
