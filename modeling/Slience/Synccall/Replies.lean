import Slience.Synccall.Connection

/-!
# Every reply is the one the handler gave

While the client waits for a reply, the connection carries at most the request of this
attempt in one direction and the reply to it in the other; between two calls it carries
nothing.  So what `SyncCall` returns is what the handler appended for this attempt.
-/

namespace Slience

namespace Session

variable {τ : Type} {s : Session τ}

/-- A call that returned 0 has the reply that the handler gave to an attempt of it. -/
def Right (attempts : List Attempt) (dealt : List Dealt) (r : Result) : Prop :=
  ∀ tag reply, r.outcome = .ok tag reply →
    (∃ a ∈ attempts, a.callNo = r.callNo ∧ a.call = r.call ∧ a.tag = tag) ∧
    (r.call.twoWay = true → ∃ d ∈ dealt, d.tag = tag ∧ d.msgType = r.call.msgType ∧
      d.msg = r.call.msg.take r.call.len.toNat ∧ d.appended = reply)

theorem Right.mono {attempts attempts' : List Attempt} {dealt dealt' : List Dealt} {r : Result}
    (h : Right attempts dealt r) (ha : attempts ⊆ attempts') (hd : dealt ⊆ dealt') :
    Right attempts' dealt' r := by
  intro tag reply hr
  obtain ⟨⟨a, hmem, ha'⟩, hdealt⟩ := h tag reply hr
  refine ⟨⟨a, ha hmem, ha'⟩, fun htwo ↦ ?_⟩
  obtain ⟨d, hmem, hd'⟩ := hdealt htwo
  exact ⟨d, hd hmem, hd'⟩

/-- Tags are used once, and the results so far are right. -/
structure Tags (s : Session τ) : Prop where
  dealt_lt : ∀ d ∈ s.dealt, d.tag.1 < s.opened ∧ d.tag.2 < (s.conns d.tag.1).received
  dealt_nodup : (s.dealt.map Dealt.tag).Nodup
  attempts_lt : ∀ a ∈ s.attempts, a.tag.1 < s.opened
  attempts_nodup : (s.attempts.map Attempt.tag).Nodup
  right : ∀ r ∈ s.results, Right s.attempts s.dealt r

/-- Outside of `Recv` a connected client has a quiet connection. -/
def Calm (s : Session τ) : Prop :=
  ∀ sock, s.client.socket = some sock → sock.flag = .start →
    s.cur < s.opened ∧ (s.conns s.cur).Quiet sock ∧
      ∀ a ∈ s.attempts, a.tag.1 = s.cur → a.tag.2 < (s.conns s.cur).replies

/-- The last attempt is the one under way. -/
structure Current (s : Session τ) (call : Call) : Prop where
  cur_lt : s.cur < s.opened
  attempts_le : ∀ a ∈ s.attempts, a.tag.1 = s.cur → a.tag.2 ≤ (s.conns s.cur).replies
  attempt : ∃ a ∈ s.attempts, a.callNo = s.callNo ∧ a.call = call ∧
    a.tag = (s.cur, (s.conns s.cur).replies)

/-- In `Recv` it waits for the reply to that attempt. -/
def Expecting (s : Session τ) (call : Call) : Prop :=
  ∃ sock, s.client.socket = some sock ∧
    (s.conns s.cur).Waiting s.cur s.dealt call s.client.packidx sock ∧ s.Current call

def AtPhase (s : Session τ) : Prop :=
  match s.phase with
  | .receiving call _ => s.Expecting call
  | _ => s.Calm

structure Inv (s : Session τ) : Prop where
  tags : s.Tags
  atPhase : s.AtPhase

theorem Calm.of_none (h : s.client.socket = none) : s.Calm := by
  intro sock hsock
  rw [h] at hsock
  cases hsock

theorem inv_init (t : τ) : (init t).Inv :=
  ⟨⟨by simp [init], by simp [init], by simp [init], by simp [init], by simp [init]⟩,
    Calm.of_none rfl⟩

theorem Tags.failed (h : s.Tags) (call : Call) (cnt : ℕ) (code : ℤ) :
    (s.failed call cnt code).Tags := by
  unfold Session.failed
  split_ifs
  · exact ⟨h.dealt_lt, h.dealt_nodup, h.attempts_lt, h.attempts_nodup, h.right⟩
  · refine ⟨h.dealt_lt, h.dealt_nodup, h.attempts_lt, h.attempts_nodup, ?_⟩
    intro r hr
    rcases List.mem_append.mp hr with hr | hr
    · exact h.right r hr
    · rw [List.mem_singleton.mp hr]
      intro tag reply hok
      cases hok

theorem Inv.failed (h : s.Tags) (hsock : s.client.socket = none) (call : Call) (cnt : ℕ)
    (code : ℤ) : (s.failed call cnt code).Inv := by
  refine ⟨h.failed call cnt code, ?_⟩
  unfold Session.failed
  split_ifs
  · exact Calm.of_none hsock
  · exact Calm.of_none hsock

theorem Inv.broken (h : s.Tags) (call : Call) (cnt : ℕ) : (s.broken call cnt).Inv :=
  Inv.failed (s := { s with client := s.client.close })
    ⟨h.dealt_lt, h.dealt_nodup, h.attempts_lt, h.attempts_nodup, h.right⟩ rfl call cnt (-3)

theorem Tags.reconnected (h : s.Tags) (c : ScClient) : (s.reconnected c).Tags := by
  refine ⟨?_, h.dealt_nodup, ?_, h.attempts_nodup, h.right⟩
  · intro d hd
    obtain ⟨hlt, hreceived⟩ := h.dealt_lt d hd
    change d.tag.1 < s.opened + 1 ∧ d.tag.2 < (Function.update s.conns s.opened _ _).received
    rw [Function.update_of_ne (by omega)]
    exact ⟨by omega, hreceived⟩
  · intro a ha
    have hlt := h.attempts_lt a ha
    change a.tag.1 < s.opened + 1
    omega

theorem reconnect_socket {c c' : ScClient} {connected endpoints : Bool}
    (h : c.reconnect connected endpoints = (true, c')) :
    c'.socket = some SyncConnector.connected := by
  unfold ScClient.reconnect SyncConnector.connect at h
  cases connected <;> cases endpoints <;> simp_all [SyncConnector.connected]
  rw [← h]
  rfl

theorem reconnect_failed {c c' : ScClient} {connected endpoints : Bool}
    (h : c.reconnect connected endpoints = (false, c')) : c'.socket = none := by
  unfold ScClient.reconnect SyncConnector.connect at h
  cases connected <;> cases endpoints <;> simp_all [ScClient.close]
  all_goals rw [← h]

theorem quiet_fresh : Conn.fresh.Quiet SyncConnector.connected :=
  ⟨⟨_, SyncConnector.ready_connected⟩, Link.inv_connected, rfl, FrameReader.inHeader_fresh, rfl,
    rfl⟩

theorem Calm.reconnected (h : s.Tags) {c : ScClient}
    (hc : c.socket = some SyncConnector.connected) : (s.reconnected c).Calm := by
  intro sock hsock _
  have hsock' : some sock = some SyncConnector.connected := hsock.symm.trans hc
  cases hsock'
  change s.opened < s.opened + 1 ∧
    (Function.update s.conns s.opened Conn.fresh s.opened).Quiet _ ∧ _
  rw [Function.update_self]
  refine ⟨Nat.lt_succ_self _, quiet_fresh, ?_⟩
  intro a ha htag
  have hlt := h.attempts_lt a ha
  change a.tag.1 = s.opened at htag
  omega

theorem Inv.server {id : ℕ} {k : Conn} {t : τ} {es : List Dealt} (h : s.Inv)
    (hid : id < s.opened) (hreceived : (s.conns id).received ≤ k.received)
    (hreplies : k.replies = (s.conns id).replies)
    (hes : NewTags id (s.conns id).received k.received es)
    (hquiet : ∀ sock, id = s.cur → (s.conns id).Quiet sock → k.Quiet sock)
    (hwaiting : ∀ call sock, id = s.cur →
      (s.conns id).Waiting id s.dealt call s.client.packidx sock →
      k.Waiting id (s.dealt ++ es) call s.client.packidx sock) :
    Inv { s.setConn id k with handler := t, dealt := s.dealt ++ es } := by
  have hconn : ∀ j, j ≠ id → Function.update s.conns id k j = s.conns j :=
    fun j hj ↦ Function.update_of_ne hj _ _
  have hself : Function.update s.conns id k id = k := Function.update_self _ _ _
  refine ⟨⟨?_, ?_, h.tags.attempts_lt, h.tags.attempts_nodup, ?_⟩, ?_⟩
  · intro d hd
    change d.tag.1 < s.opened ∧ d.tag.2 < (Function.update s.conns id k d.tag.1).received
    rcases List.mem_append.mp hd with hd | hd
    · obtain ⟨hlt, hlt'⟩ := h.tags.dealt_lt d hd
      refine ⟨hlt, ?_⟩
      by_cases hj : d.tag.1 = id
      · rw [hj] at hlt' ⊢
        rw [hself]
        omega
      · rwa [hconn _ hj]
    · obtain ⟨hj, -, hlt⟩ := hes.tags d hd
      rw [hj, hself]
      exact ⟨hid, hlt⟩
  · change ((s.dealt ++ es).map Dealt.tag).Nodup
    rw [List.map_append, List.nodup_append]
    refine ⟨h.tags.dealt_nodup, hes.nodup, ?_⟩
    intro x hx y hy hxy
    obtain ⟨d, hd, rfl⟩ := List.mem_map.mp hx
    obtain ⟨e, he, rfl⟩ := List.mem_map.mp hy
    obtain ⟨hj, hle, -⟩ := hes.tags e he
    have hlt := (h.tags.dealt_lt d hd).2
    rw [hxy, hj] at hlt
    omega
  · intro r hr
    exact (h.tags.right r hr).mono (fun a ha ↦ ha) (List.subset_append_left _ _)
  · have hphase := h.atPhase
    unfold AtPhase at hphase ⊢
    change match s.phase with
      | .receiving call _ =>
          Expecting { s.setConn id k with handler := t, dealt := s.dealt ++ es } call
      | _ => Calm { s.setConn id k with handler := t, dealt := s.dealt ++ es }
    have hreplies' : (Function.update s.conns id k s.cur).replies = (s.conns s.cur).replies := by
      by_cases hcur : s.cur = id
      · rw [hcur, hself, hreplies]
      · rw [hconn _ hcur]
    have hcalm : s.Calm →
        Calm { s.setConn id k with handler := t, dealt := s.dealt ++ es } := by
      intro hcalm sock hsock hflag
      obtain ⟨hlt, hq, ha⟩ := hcalm sock hsock hflag
      refine ⟨hlt, ?_, fun a hmem htag ↦ hreplies' ▸ ha a hmem htag⟩
      change (Function.update s.conns id k s.cur).Quiet sock
      by_cases hcur : s.cur = id
      · rw [hcur] at hq ⊢
        rw [hself]
        exact hquiet sock hcur.symm hq
      · rwa [hconn _ hcur]
    cases hp : s.phase with
    | receiving call cnt =>
        rw [hp] at hphase
        obtain ⟨sock, hsock, hw, hlt, ha, a, hmem, hno, hcall, htag⟩ := hphase
        refine ⟨sock, hsock, ?_, hlt, fun a hmem htag ↦ hreplies' ▸ ha a hmem htag, a, hmem, hno,
          hcall, hreplies' ▸ htag⟩
        change (Function.update s.conns id k s.cur).Waiting s.cur (s.dealt ++ es) call _ sock
        by_cases hcur : s.cur = id
        · rw [hcur] at hw ⊢
          rw [hself]
          exact hwaiting call sock hcur.symm hw
        · rw [hconn _ hcur]
          exact hw.mono (List.subset_append_left _ _)
    | idle =>
        rw [hp] at hphase
        exact hcalm hphase
    | attempt call cnt =>
        rw [hp] at hphase
        exact hcalm hphase

theorem Inv.serverLink {id : ℕ} {link : Link} (h : s.Inv) (hid : id < s.opened)
    (hlink : (s.conns id).link.Inv → link.Inv)
    (haccepted : link.accepted = (s.conns id).link.accepted) :
    (s.setConn id { s.conns id with link := link }).Inv := by
  have hserver : Inv { s.setConn id { s.conns id with link := link } with
      handler := s.handler
      dealt := s.dealt ++ [] } := by
    refine h.server hid le_rfl rfl ⟨by simp, by simp⟩
      (fun sock _ hq ↦ hq.link (hlink hq.inv) haccepted) fun call sock _ hw ↦ ?_
    rw [List.append_nil]
    exact hw.link (hlink hw.inv) haccepted
  rwa [List.append_nil] at hserver

theorem Tags.setConn {id : ℕ} {k : Conn} (h : s.Tags)
    (hreceived : k.received = (s.conns id).received) : (s.setConn id k).Tags := by
  refine ⟨?_, h.dealt_nodup, h.attempts_lt, h.attempts_nodup, h.right⟩
  intro d hd
  obtain ⟨hlt, hlt'⟩ := h.dealt_lt d hd
  change d.tag.1 < s.opened ∧ d.tag.2 < (Function.update s.conns id k d.tag.1).received
  refine ⟨hlt, ?_⟩
  by_cases hj : d.tag.1 = id
  · rw [hj] at hlt' ⊢
    rwa [Function.update_self, hreceived]
  · rwa [Function.update_of_ne hj]

theorem Tags.of_eq {s' : Session τ} (h : s.Tags) (hopened : s'.opened = s.opened)
    (hconns : s'.conns = s.conns) (hdealt : s'.dealt = s.dealt)
    (hattempts : s'.attempts = s.attempts) (hresults : s'.results = s.results) : s'.Tags := by
  refine ⟨?_, ?_, ?_, ?_, ?_⟩
  · rw [hopened, hconns, hdealt]
    exact h.dealt_lt
  · rw [hdealt]
    exact h.dealt_nodup
  · rw [hopened, hattempts]
    exact h.attempts_lt
  · rw [hattempts]
    exact h.attempts_nodup
  · rw [hattempts, hdealt, hresults]
    exact h.right

theorem Inv.finish {call : Call} {cnt : ℕ} {sock : SyncConnector} {s' : Session τ}
    {appended : List Byte} (h : s.Tags) (hcur : s.Current call)
    (hquiet : ∀ reply, Conn.Quiet { s.conns s.cur with replies := (s.conns s.cur).replies + 1 }
      { sock with frame := { sock.frame with msgbuffer := reply } })
    (hunread : sock.frame.msgbuffer.unread =
      callHead call.way call.msgType.toUInt32 s.client.packidx ++ appended)
    (hdealt : call.twoWay = true → ⟨(s.cur, (s.conns s.cur).replies), call.msgType,
      call.msg.take call.len.toNat, appended⟩ ∈ s.dealt)
    (hstep : s.finish call cnt sock = some s') : s'.Inv := by
  obtain ⟨reply, hcheck, hreply⟩ := ScClient.checkReply_spec hunread
  unfold Session.finish at hstep
  rw [hcheck] at hstep
  simp only [beq_self_eq_true, Option.some.injEq] at hstep
  subst hstep
  have htags : (s.setConn s.cur
      { s.conns s.cur with replies := (s.conns s.cur).replies + 1 }).Tags := h.setConn rfl
  have hself : Function.update s.conns s.cur
      { s.conns s.cur with replies := (s.conns s.cur).replies + 1 } s.cur =
        { s.conns s.cur with replies := (s.conns s.cur).replies + 1 } :=
    Function.update_self _ _ _
  refine ⟨⟨htags.dealt_lt, htags.dealt_nodup, htags.attempts_lt, htags.attempts_nodup, ?_⟩, ?_⟩
  · intro r hr
    rcases List.mem_append.mp hr with hr | hr
    · exact htags.right r hr
    · rw [List.mem_singleton.mp hr]
      rintro tag reply' hok
      cases hok
      refine ⟨hcur.attempt, fun htwo ↦ ⟨_, hdealt htwo, rfl, rfl, rfl, hreply.symm⟩⟩
  · intro sock' hsock' _
    cases hsock'
    refine ⟨hcur.cur_lt, ?_, ?_⟩
    · change (Function.update s.conns s.cur _ s.cur).Quiet _
      rw [hself]
      exact hquiet reply
    · intro a ha htag
      have hle := hcur.attempts_le a ha htag
      change a.tag.2 < (Function.update s.conns s.cur _ s.cur).replies
      rw [hself]
      exact Nat.lt_succ_of_le hle

theorem Inv.recvStep {call : Call} {cnt : ℕ} {c : List Byte} {s' : Session τ} (h : s.Inv)
    (hphase : s.phase = .receiving call cnt)
    (hc : Chunk ((s.conns s.cur).link.taken.drop (s.conns s.cur).read) c)
    (hstep : s.recvStep call cnt c = some s') : s'.Inv := by
  have hexpecting := h.atPhase
  rw [AtPhase, hphase] at hexpecting
  obtain ⟨sock, hsock, hw, hlt, ha, hattempt⟩ := hexpecting
  simp only [Session.recvStep, hsock] at hstep
  have htags : (s.setConn s.cur
      { s.conns s.cur with read := (s.conns s.cur).read + c.length }).Tags := h.tags.setConn rfl
  have hself : (s.setConn s.cur
      { s.conns s.cur with read := (s.conns s.cur).read + c.length }).conns s.cur =
        { s.conns s.cur with read := (s.conns s.cur).read + c.length } :=
    Function.update_self _ _ _
  have hcur : (s.setConn s.cur
      { s.conns s.cur with read := (s.conns s.cur).read + c.length }).Current call := by
    refine ⟨hlt, ?_, ?_⟩
    · intro a hmem htag
      change a.tag.2 ≤ ((s.setConn s.cur _).conns s.cur).replies
      rw [hself]
      exact ha a hmem htag
    · change ∃ a ∈ s.attempts, _ ∧ _ ∧ a.tag = (s.cur, ((s.setConn s.cur _).conns s.cur).replies)
      rw [hself]
      exact hattempt
  split at hstep
  · cases hstep
  · rename_i sock' hrecv
    obtain ⟨hquiet, appended, hunread, hdealt⟩ := hw.recvChunk_true hc hrecv
    refine Inv.finish htags hcur ?_ hunread ?_ hstep
    · change ∀ reply, Conn.Quiet { (s.setConn s.cur _).conns s.cur with
        replies := ((s.setConn s.cur _).conns s.cur).replies + 1 } _
      rw [hself]
      exact hquiet
    · change _ → ⟨(s.cur, ((s.setConn s.cur _).conns s.cur).replies), _, _, _⟩ ∈ s.dealt
      rw [hself]
      exact hdealt
  · rename_i sock' hrecv
    cases hstep
    refine ⟨htags.of_eq rfl rfl rfl rfl rfl, ?_⟩
    change match s.phase with
      | .receiving call _ => Expecting _ call
      | _ => Calm _
    rw [hphase]
    refine ⟨sock', rfl, ?_, hcur.cur_lt, hcur.attempts_le, hcur.attempt⟩
    change ((s.setConn s.cur _).conns s.cur).Waiting _ _ _ _ _
    rw [hself]
    exact hw.recvChunk_false hc hrecv

theorem Tags.attempt {call : Call} {k : Conn} (h : s.Tags)
    (hreceived : k.received = (s.conns s.cur).received) (hlt : s.cur < s.opened)
    (ha : ∀ a ∈ s.attempts, a.tag.1 = s.cur → a.tag.2 < (s.conns s.cur).replies) :
    Tags { s.setConn s.cur k with
      attempts := s.attempts ++ [⟨s.callNo, call, (s.cur, (s.conns s.cur).replies)⟩] } := by
  have htags := h.setConn hreceived
  refine ⟨htags.dealt_lt, htags.dealt_nodup, ?_, ?_, ?_⟩
  · intro a hmem
    rcases List.mem_append.mp hmem with hmem | hmem
    · exact htags.attempts_lt a hmem
    · rw [List.mem_singleton.mp hmem]
      exact hlt
  · change ((s.attempts ++ [_]).map Attempt.tag).Nodup
    rw [List.map_append, List.map_singleton, List.nodup_append]
    refine ⟨h.attempts_nodup, by simp, ?_⟩
    intro x hx y hy hxy
    rw [List.mem_singleton] at hy
    obtain ⟨a, hmem, rfl⟩ := List.mem_map.mp hx
    rw [hy] at hxy
    have hnew := ha a hmem (by rw [hxy])
    rw [hxy] at hnew
    exact lt_irrefl _ hnew
  · intro r hr
    exact (h.right r hr).mono (List.subset_append_left _ _) (fun d hd ↦ hd)

theorem Inv.sendStep {call : Call} {cnt : ℕ} {timestamp : Int32}
    {outcomes : List (Option UInt32)} {s' : Session τ} (h : s.Tags) (hcalm : s.Calm)
    (hconnected : s.client.isConnected = true)
    (hstep : s.sendStep call cnt timestamp outcomes = some s') : s'.Inv := by
  have hsocket : ∃ sock, s.client.socket = some sock ∧ sock.flag = .start := by
    unfold ScClient.isConnected at hconnected
    split at hconnected
    · cases hconnected
    · rename_i sock hsock
      exact ⟨sock, hsock, eq_of_beq hconnected⟩
  obtain ⟨sock, hsock, hflag⟩ := hsocket
  obtain ⟨hlt, hquiet, ha⟩ := hcalm sock hsock hflag
  unfold Session.sendStep at hstep
  split at hstep
  · cases hstep
  · rename_i client hfill
    obtain ⟨hsame, hrequest⟩ := ScClient.fillRequest_spec hfill
    rw [hsame, hsock] at hstep
    dsimp only at hstep
    split at hstep
    · cases hstep
    · rename_i ok sock' taken hsend
      have htags : Tags { s.setConn s.cur
          { s.conns s.cur with toServer := (s.conns s.cur).toServer ++ taken } with
        attempts := s.attempts ++ [⟨s.callNo, call, (s.cur, (s.conns s.cur).replies)⟩] } :=
        h.attempt rfl hlt ha
      split_ifs at hstep with hfail hstop
      · cases hstep
        refine Inv.broken ?_ call cnt
        exact htags.of_eq rfl rfl rfl rfl rfl
      · cases hstep
        refine Inv.broken ?_ call cnt
        exact htags.of_eq rfl rfl rfl rfl rfl
      · rw [Bool.not_eq_false] at hfail
        subst hfail
        obtain ⟨htaken, hlen, m, rfl⟩ := SyncConnector.send_spec hsend
        rw [Buffer.toNat_length, List.take_length] at htaken
        have hreq : client.request.unread = call.request client.packidx := hrequest
        rw [hreq] at htaken
        have hle : (call.request client.packidx).length ≤ socketPackSize.toNat := by
          rw [← hreq, ← Buffer.toNat_length]
          exact le_trans (UInt32.le_iff_toNat_le.mp hlen) (by decide)
        have hself : Function.update s.conns s.cur
            { s.conns s.cur with toServer := (s.conns s.cur).toServer ++ taken } s.cur =
              { s.conns s.cur with toServer := (s.conns s.cur).toServer ++ taken } :=
          Function.update_self _ _ _
        split at hstep
        · cases hstep
        · rename_i sock'' hstart
          obtain ⟨hreply, -⟩ := hquiet.send s.cur s.dealt timestamp hle hstart
          cases hreply
        · rename_i sock'' hstart
          obtain ⟨-, hwaiting⟩ := hquiet.send s.cur s.dealt timestamp hle hstart
          cases hstep
          refine ⟨htags.of_eq rfl rfl rfl rfl rfl, sock'', rfl, ?_, hlt, ?_, ?_⟩
          · change (Function.update s.conns s.cur _ s.cur).Waiting _ _ _ _ _
            rw [hself, htaken]
            exact hwaiting
          · intro a hmem htag
            change a.tag.2 ≤ (Function.update s.conns s.cur _ s.cur).replies
            rw [hself]
            rcases List.mem_append.mp hmem with hmem | hmem
            · exact (ha a hmem htag).le
            · rw [List.mem_singleton.mp hmem]
          · change ∃ a ∈ s.attempts ++ [_], _ ∧ _ ∧
              a.tag = (s.cur, (Function.update s.conns s.cur _ s.cur).replies)
            rw [hself]
            exact ⟨⟨s.callNo, call, (s.cur, (s.conns s.cur).replies)⟩, by simp, rfl, rfl, rfl⟩

theorem Inv.calm (h : s.Inv) (hphase : ∀ call cnt, s.phase ≠ .receiving call cnt) :
    s.Calm := by
  have hcalm := h.atPhase
  unfold AtPhase at hcalm
  split at hcalm
  · rename_i call cnt hp
    exact absurd hp (hphase call cnt)
  · exact hcalm

theorem Inv.of_calm (h : s.Tags) (hcalm : s.Calm)
    (hphase : ∀ call cnt, s.phase ≠ .receiving call cnt) : s.Inv := by
  refine ⟨h, ?_⟩
  unfold AtPhase
  split
  · rename_i call cnt hp
    exact absurd hp (hphase call cnt)
  · exact hcalm

theorem Inv.reconnected (h : s.Tags) (hphase : ∀ call cnt, s.phase ≠ .receiving call cnt)
    {c : ScClient} {connected endpoints : Bool}
    (hc : s.client.reconnect connected endpoints = (true, c)) : (s.reconnected c).Inv :=
  Inv.of_calm (h.reconnected c) (Calm.reconnected h (reconnect_socket hc)) hphase

variable {H : IServerHandler τ}

theorem step_inv {a : Act τ} {s' : Session τ} (h : s.Inv) (henabled : s.enabled a)
    (hstep : s.step H a = some s') : s'.Inv := by
  cases a with
  | userConnect connected endpoints =>
      have hphase : ∀ call cnt, s.phase ≠ .receiving call cnt := by simp [henabled.1]
      generalize hc : s.client.reconnect connected endpoints = res at hstep
      simp only [step, hc, Option.some.injEq] at hstep
      obtain ⟨ok, c⟩ := res
      cases ok with
      | true =>
          rw [if_pos rfl] at hstep
          exact hstep ▸ Inv.reconnected h.tags hphase hc
      | false =>
          rw [if_neg Bool.false_ne_true] at hstep
          subst hstep
          exact Inv.of_calm (h.tags.of_eq rfl rfl rfl rfl rfl)
            (Calm.of_none (reconnect_failed hc)) hphase
  | userClose =>
      cases hstep
      exact Inv.of_calm (h.tags.of_eq rfl rfl rfl rfl rfl) (Calm.of_none rfl)
        (by simp [show s.phase = .idle from henabled])
  | call c =>
      cases hstep
      have hcalm := h.calm (by simp [henabled.1])
      exact Inv.of_calm (h.tags.of_eq rfl rfl rfl rfl rfl) hcalm (by simp)
  | connect connected endpoints =>
      obtain ⟨call, cnt, hp⟩ := Phase.exists_of_isAttempt henabled.1
      have hphase : ∀ call cnt, s.phase ≠ .receiving call cnt := by simp [hp]
      generalize hc : s.client.reconnect connected endpoints = res at hstep
      simp only [step, hp, hc, Option.some.injEq] at hstep
      obtain ⟨ok, c⟩ := res
      cases ok with
      | true =>
          rw [if_pos rfl] at hstep
          exact hstep ▸ Inv.reconnected h.tags hphase hc
      | false =>
          rw [if_neg Bool.false_ne_true] at hstep
          subst hstep
          refine Inv.failed ?_ (reconnect_failed hc) call cnt (-2)
          exact h.tags.of_eq rfl rfl rfl rfl rfl
  | send timestamp outcomes =>
      obtain ⟨call, cnt, hp⟩ := Phase.exists_of_isAttempt henabled.1
      simp only [step, hp] at hstep
      exact Inv.sendStep h.tags (h.calm (by simp [hp])) henabled.2 hstep
  | recv c =>
      obtain ⟨call, cnt, hp⟩ := Phase.exists_of_isReceiving henabled.1
      simp only [step, hp] at hstep
      exact h.recvStep hp henabled.2 hstep
  | recvFail =>
      obtain ⟨call, cnt, hp⟩ := Phase.exists_of_isReceiving henabled
      simp only [step, hp, Option.some.injEq] at hstep
      exact hstep ▸ Inv.broken h.tags call cnt
  | serverRead id timestamp c =>
      obtain ⟨hid, hreading, hc⟩ := henabled
      simp only [step] at hstep
      split at hstep
      · cases hstep
      · rename_i k t dealt hread
        cases hstep
        obtain ⟨-, hreplies, -, hreceived, es, rfl, htags⟩ := readHandler_recorded hread
        refine h.server hid hreceived hreplies htags (fun sock _ hq ↦ ?_) fun call sock _ hw ↦ ?_
        · rw [hq.toServer_eq] at hc
          exact absurd (List.prefix_nil.mp hc.2.2) hc.1
        · exact hw.readHandler hreading hc hread
  | serverWritten id tranByte =>
      simp only [step] at hstep
      split at hstep
      · cases hstep
      · rename_i link hlink
        cases hstep
        refine h.serverLink henabled.1 (fun hinv ↦ ?_) (by cases hlink; rfl)
        obtain ⟨link', hlink', hstepped⟩ := Link.step_writeDone hinv henabled.2
        rw [hlink] at hlink'
        cases hlink'
        exact hstepped.inv
  | serverClose id =>
      simp only [step] at hstep
      split at hstep
      · cases hstep
      · rename_i link hlink
        cases hstep
        refine h.serverLink henabled (fun hinv ↦ ?_) (by cases hlink; rfl)
        obtain ⟨link', hlink', hstepped⟩ := Link.step_close hinv
        rw [hlink] at hlink'
        cases hlink'
        exact hstepped.inv
  | handler t =>
      cases hstep
      refine ⟨h.tags.of_eq rfl rfl rfl rfl rfl, ?_⟩
      have hphase := h.atPhase
      unfold AtPhase at hphase ⊢
      cases hp : s.phase with
      | receiving call cnt =>
          rw [hp] at hphase
          obtain ⟨sock, hsock, hw, hcur⟩ := hphase
          exact ⟨sock, hsock, hw, hcur.cur_lt, hcur.attempts_le, hcur.attempt⟩
      | idle =>
          rw [hp] at hphase
          exact hphase
      | attempt call cnt =>
          rw [hp] at hphase
          exact hphase

/-- In every run of a client and a server with any handler, whatever connects, sends and
receives fail and however the streams are cut: a call that returned 0 has as the unread
bytes of its reply what the handler appended when it was called, once, for one attempt
of this call, with its type and its message. -/
theorem syncCall_reply (H : IServerHandler τ) (t : τ) (acts : List (Act τ)) (s : Session τ)
    (h : (system H).Allowed System.anyStep (init t) acts)
    (hrun : (system H).run (init t) acts = some s) :
    (∀ r ∈ s.results, ∀ tag reply, r.outcome = .ok tag reply → r.call.twoWay = true →
      ∃ a ∈ s.attempts, ∃ d ∈ s.dealt,
        a.callNo = r.callNo ∧ a.call = r.call ∧ a.tag = tag ∧
        d.tag = tag ∧ d.msgType = r.call.msgType ∧
        d.msg = r.call.msg.take r.call.len.toNat ∧ d.appended = reply) ∧
    (s.attempts.map Attempt.tag).Nodup ∧ (s.dealt.map Dealt.tag).Nodup := by
  have hinv : s.Inv := System.invariant_of_run (I := Inv)
    (fun _ _ _ hinv henabled _ hstep ↦ step_inv hinv henabled hstep) (inv_init t) h hrun
  refine ⟨?_, hinv.tags.attempts_nodup, hinv.tags.dealt_nodup⟩
  intro r hr tag reply hok htwo
  obtain ⟨⟨a, hmem, hno, hcall, htag⟩, hdealt⟩ := hinv.tags.right r hr tag reply hok
  obtain ⟨d, hd, hdtag, htype, hmsg, happended⟩ := hdealt htwo
  exact ⟨a, hmem, d, hd, hno, hcall, htag, hdtag, htype, hmsg, happended⟩

/-- A handler that appends one byte. -/
def oneByte : IServerHandler Unit where
  onOneWayDealer t _ request := (t, request)
  onTwoWayDealer t _ request reply := (t, request, (reply.write [42] 1).getD reply)
  appends t msgType request reply := by
    cases h : reply.write [42] 1 with
    | none => exact ⟨[], by simp, rfl⟩
    | some reply' => exact ⟨_, (Buffer.appended_of_write h).1⟩

/-- A first attempt that fails after a part of the request, and a second one whose
request and reply arrive in two chunks each. -/
def sampleCall : Call := ⟨true, 5, [65], 1⟩

def sampleRun : List (Act Unit) :=
  [.call sampleCall, .connect true true, .send 7 [some 9, none], .connect true true,
    .send 7 [some 9, some 100],
    .serverRead 1 8 ((sendBlock 7 (sampleCall.request 2)).take 4),
    .serverRead 1 8 ((sendBlock 7 (sampleCall.request 2)).drop 4),
    .serverWritten 1 10, .recv ((sendBlock 8 (callHead 999 5 2 ++ [42])).take 10),
    .serverWritten 1 11, .recv ((sendBlock 8 (callHead 999 5 2 ++ [42])).drop 10)]

theorem syncCall_reply_sampleRun :
    ∃ s, (system oneByte).run (init ()) sampleRun = some s ∧
      s.results = [⟨1, sampleCall, .ok (1, 0) [42]⟩] ∧
      ∃ d ∈ s.dealt, d.msg = [65] ∧ d.appended = [42] := by
  have hallowed : (system oneByte).Allowed System.anyStep (init ()) sampleRun := by
    decide +kernel
  have hresult : ((system oneByte).run (init ()) sampleRun).any (fun s ↦
      decide (s.results = [⟨1, sampleCall, .ok (1, 0) [42]⟩])) = true := by
    decide +kernel
  obtain ⟨s, hrun, hresult⟩ := (Option.any_eq_true _ _).mp hresult
  rw [decide_eq_true_iff] at hresult
  obtain ⟨hreply, -, -⟩ := syncCall_reply oneByte () sampleRun s hallowed hrun
  obtain ⟨a, -, d, hd, -, -, -, -, -, hmsg, happended⟩ :=
    hreply ⟨1, sampleCall, .ok (1, 0) [42]⟩ (by rw [hresult]; simp) (1, 0) [42] rfl rfl
  exact ⟨s, hrun, hresult, d, hd, hmsg, happended⟩

end Session

end Slience
