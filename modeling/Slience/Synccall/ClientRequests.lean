import Slience.Synccall.Dealings

/-!
# The requests of `ScClient`

A call of `ScClient` makes up to two attempts over a connection of its own.  On connections
that do not fail, every request that `Send` takes goes out once.
-/

namespace Slience

/-- What an attempt of `ScClient::_Sync` meets: the result of `Connect`, the time of
`Send`, the results of `SendSome`, and what `RecvSome` delivers. -/
structure Net where
  connected : Bool
  endpoints : Bool
  timestamp : Int32
  outcomes : List (Option UInt32)
  chunks : List (List Byte)

/-- How an attempt ended: 0 with the reply, or another code; `sent` are the bodies that
`Send` accepted. -/
structure SyncResult where
  client : ScClient
  sent : List (List Byte)
  code : ℤ
  reply : Option Buffer

namespace ScClient

/-- The connection of an attempt. -/
def reach (c : ScClient) (n : Net) : Bool × ScClient :=
  if c.isConnected then (true, c) else c.reconnect n.connected n.endpoints

/-- One round of the loop of `ScClient::_Sync`. -/
def attempt (c : ScClient) (call : Call) (n : Net) : Option SyncResult :=
  let (ok, c) := c.reach n
  if ok = false then some ⟨c, [], -2, none⟩
  else
    match c.fillRequest call.way call.msgType.toUInt32 call.msg call.len with
    | none => none
    | some c =>
        match c.socket with
        | none => none
        | some sock =>
            match sock.send n.timestamp c.request.unread c.request.length n.outcomes with
            | none => none
            | some (false, _, _) => some ⟨c.close, [], -3, none⟩
            | some (true, sock, _) =>
                let sent := [c.request.unread]
                match sock.recv n.chunks with
                | none => none
                | some res =>
                    if res.reply = false then some ⟨c.close, sent, -3, none⟩
                    else
                      match checkReply c.packidx res.conn.frame.msgbuffer with
                      | none => none
                      | some (false, _) => some ⟨c.close, sent, -3, none⟩
                      | some (true, reply) =>
                          let frame := { res.conn.frame with msgbuffer := reply }
                          some ⟨{ c with socket := some { res.conn with frame := frame } }, sent,
                            0, some reply⟩

/-- `ScClient::_Sync`, whose loop makes two attempts. -/
def sync (c : ScClient) (call : Call) (n : Net × Net) : Option SyncResult :=
  match c.attempt call n.1 with
  | none => none
  | some r =>
      if r.code = 0 then some r
      else
        match r.client.attempt call n.2 with
        | none => none
        | some r' => some { r' with sent := r.sent ++ r'.sent }

/-- One call of `SyncCall` after the other, and the bodies they send. -/
def syncAll (c : ScClient) : List (Call × Net × Net) → Option (ScClient × List (List Byte))
  | [] => some (c, [])
  | (call, n) :: rest =>
      match c.sync call n with
      | none => none
      | some r =>
          match syncAll r.client rest with
          | none => none
          | some (c', sent) => some (c', r.sent ++ sent)

/-- The connection of an attempt does not fail: it is there, it takes all of a request
that `Send` accepts, and it brings the reply with the index of this request. -/
def Steady (c : ScClient) (call : Call) (n : Net) : Prop :=
  n.connected = true ∧ n.endpoints = true ∧
    ∀ c' sock, (c.reach n).2.fillRequest call.way call.msgType.toUInt32 call.msg call.len =
        some c' → c'.socket = some sock → c'.request.length ≤ SyncConnector.packLimit →
      ∃ sock' taken res b,
        sock.send n.timestamp c'.request.unread c'.request.length n.outcomes =
          some (true, sock', taken) ∧
        sock'.recv n.chunks = some res ∧ res.reply = true ∧
        checkReply c'.packidx res.conn.frame.msgbuffer = some (true, b)

/-- No connection fails in all the calls. -/
def SteadyAll (c : ScClient) : List (Call × Net × Net) → Prop
  | [] => True
  | (call, n) :: rest =>
      c.Steady call n.1 ∧
        (∀ r, c.attempt call n.1 = some r → r.code ≠ 0 → r.client.Steady call n.2) ∧
        ∀ r, c.sync call n = some r → SteadyAll r.client rest

theorem reach_spec {c : ScClient} {n : Net} (hconnected : n.connected = true)
    (hendpoints : n.endpoints = true) :
    (c.reach n).1 = true ∧ (c.reach n).2.packidx = c.packidx ∧
      ∃ sock, (c.reach n).2.socket = some sock ∧ sock.flag = .start := by
  unfold reach
  split
  · rename_i hc
    refine ⟨rfl, rfl, ?_⟩
    unfold isConnected at hc
    split at hc
    · cases hc
    · rename_i sock hsock
      exact ⟨sock, hsock, eq_of_beq hc⟩
  · rw [reconnect, hconnected, hendpoints]
    exact ⟨rfl, rfl, _, rfl, rfl⟩

theorem send_of_large {sock : SyncConnector} {timestamp : Int32} {data : List Byte}
    {len : UInt32} {outcomes : List (Option UInt32)} (hflag : sock.flag = .start)
    (h : ¬ len ≤ SyncConnector.packLimit) :
    sock.send timestamp data len outcomes = some (false, sock, []) := by
  rw [SyncConnector.send, if_neg (not_not.mpr hflag), if_neg (fun hboth ↦ h hboth.2)]

/-- An attempt on a connection that does not fail sends the request of the call, or
nothing where it is too long. -/
theorem attempt_steady {c : ScClient} {call : Call} {n : Net} {r : SyncResult}
    (hlen : call.len.toNat ≤ call.msg.length) (hsteady : c.Steady call n)
    (h : c.attempt call n = some r) :
    r.client.packidx = c.packidx + 1 ∧
      (call.Small → r.code = 0 ∧ r.sent = [call.request (c.packidx + 1)]) ∧
      (¬ call.Small → r.code = -3 ∧ r.sent = []) := by
  obtain ⟨hconnected, hendpoints, hnet⟩ := hsteady
  obtain ⟨hok, hpackidx, sock, hsock, hflag⟩ :=
    reach_spec (c := c) (n := n) hconnected hendpoints
  unfold attempt at h
  dsimp only at h
  rw [hok, if_neg (by decide)] at h
  split at h
  · cases h
  · rename_i c' hfill
    obtain ⟨hsocket, hunread⟩ := fillRequest_spec hfill
    have hidx := packidx_fillRequest hfill
    rw [hsocket, hsock] at h
    dsimp only at h
    rw [hpackidx] at hidx
    rw [hidx] at hunread
    have hsize : c'.request.length ≤ SyncConnector.packLimit ↔ call.Small := by
      rw [UInt32.le_iff_toNat_le, Buffer.toNat_length, hunread, List.length_append,
        List.length_take, Nat.min_eq_left hlen]
      rfl
    by_cases hsmall : call.Small
    · obtain ⟨sock', taken, res, b, hsend, hrecv, hreply, hcheck⟩ :=
        hnet c' sock hfill (hsocket.trans hsock) (hsize.mpr hsmall)
      rw [hsend] at h
      dsimp only at h
      rw [hrecv] at h
      dsimp only at h
      rw [hreply, if_neg (by decide), hcheck] at h
      cases h
      exact ⟨hidx, fun _ ↦ ⟨rfl, congrArg (fun body ↦ [body]) hunread⟩,
        fun hlarge ↦ absurd hsmall hlarge⟩
    · rw [send_of_large hflag (fun hle ↦ hsmall (hsize.mp hle))] at h
      cases h
      exact ⟨hidx, fun hyes ↦ absurd hyes hsmall, fun _ ↦ ⟨rfl, rfl⟩⟩

/-- The bodies that `Send` accepts of a list of calls.  A call that is too long uses two
packet indices. -/
def accepted (packidx : UInt32) : List Call → List (List Byte)
  | [] => []
  | c :: cs =>
      if c.Small then c.request (packidx + 1) :: accepted (packidx + 1) cs
      else accepted (packidx + 1 + 1) cs

theorem sync_steady {c : ScClient} {call : Call} {n : Net × Net} {r : SyncResult}
    (hlen : call.len.toNat ≤ call.msg.length) (hfirst : c.Steady call n.1)
    (hsecond : ∀ r, c.attempt call n.1 = some r → r.code ≠ 0 → r.client.Steady call n.2)
    (h : c.sync call n = some r) (cs : List Call) :
    accepted c.packidx (call :: cs) = r.sent ++ accepted r.client.packidx cs := by
  unfold sync at h
  split at h
  · cases h
  · rename_i r₁ hattempt
    obtain ⟨hidx, hsmall, hlarge⟩ := attempt_steady hlen hfirst hattempt
    rw [accepted]
    by_cases hcall : call.Small
    · obtain ⟨hcode, hsent⟩ := hsmall hcall
      rw [if_pos hcode] at h
      cases h
      rw [if_pos hcall, hidx, hsent]
      rfl
    · obtain ⟨hcode, hsent⟩ := hlarge hcall
      have hagain : r₁.code ≠ 0 := by
        rw [hcode]
        decide
      rw [if_neg hagain] at h
      split at h
      · cases h
      · rename_i r₂ hattempt₂
        cases h
        obtain ⟨hidx₂, -, hlarge₂⟩ :=
          attempt_steady hlen (hsecond r₁ hattempt hagain) hattempt₂
        rw [if_neg hcall, hidx₂, hidx, hsent, (hlarge₂ hcall).2]
        rfl

theorem syncAll_steady {c c' : ScClient} {nets : List (Call × Net × Net)}
    {sent : List (List Byte)} (hlen : ∀ x ∈ nets, x.1.len.toNat ≤ x.1.msg.length)
    (hsteady : c.SteadyAll nets) (h : c.syncAll nets = some (c', sent)) :
    sent = accepted c.packidx (nets.map Prod.fst) := by
  induction nets generalizing c sent with
  | nil =>
      cases h
      rfl
  | cons x nets ih =>
      obtain ⟨call, n⟩ := x
      obtain ⟨hfirst, hsecond, hrest⟩ := hsteady
      unfold syncAll at h
      split at h
      · cases h
      · rename_i r hsync
        split at h
        · cases h
        · rename_i c₁ sent₁ hall
          cases h
          rw [ih (fun y hy ↦ hlen y (by simp [hy])) (hrest r hsync) hall, List.map_cons]
          exact (sync_steady (hlen (call, n) (by simp)) hfirst hsecond hsync _).symm

end ScClient

end Slience
