import Slience.Synccall.Session

/-!
# A connection between two calls and during one

Between two calls nothing is on its way on a connection.  During a call it carries at most
the request of the attempt in one direction and the reply to it in the other.
-/

namespace Slience

open SyncConnector (Got Reads)

open TcpStreamSocket (Holds)

/-! ## The server reads a chunk -/

section Server

variable {τ : Type} {H : IServerHandler τ}

open ScServer

theorem called_none {id : ℕ} {timestamp : Int32} {x y : Option (World τ)}
    {msgs : List (List Byte)} (h : TcpStreamSocket.Called (callback H id timestamp) x msgs y)
    (hx : x = none) : y = none := by
  induction h with
  | nil => exact hx
  | cons b _ ih =>
      subst hx
      exact ih rfl

/-- The calls of the handler that a chunk led to have tags of their own. -/
structure NewTags (id first last : ℕ) (es : List Dealt) : Prop where
  tags : ∀ d ∈ es, d.tag.1 = id ∧ first ≤ d.tag.2 ∧ d.tag.2 < last
  nodup : (es.map Dealt.tag).Nodup

theorem called_recorded {id : ℕ} {timestamp : Int32} {x y : Option (World τ)}
    {msgs : List (List Byte)} (h : TcpStreamSocket.Called (callback H id timestamp) x msgs y)
    {w w' : World τ} (hx : x = some w) (hy : y = some w') :
    w.received ≤ w'.received ∧
      ∃ es, w'.dealt = w.dealt ++ es ∧ NewTags id w.received w'.received es := by
  induction h generalizing w with
  | nil =>
      subst hx
      cases hy
      exact ⟨le_rfl, [], by simp, by simp, by simp⟩
  | cons b hrest ih =>
      subst hx
      cases hcall : onReceiveData H id timestamp w b with
      | none =>
          have hnone := called_none hrest (by simp only [callback, hcall])
          rw [hy] at hnone
          cases hnone
      | some res =>
          obtain ⟨w₁, b₁⟩ := res
          obtain ⟨hreceived, hrecorded⟩ := onReceiveData_recorded hcall
          have hcallback : (callback H id timestamp (some w) b).1 = some w₁ := by
            simp only [callback, hcall]
          obtain ⟨hle, es, hes, htags⟩ := ih hcallback hy
          refine ⟨by omega, ?_⟩
          rcases hrecorded with hsame | ⟨d, hd, htag⟩
          · refine ⟨es, by rw [hes, hsame], fun e he ↦ ?_, htags.nodup⟩
            obtain ⟨hid, hfirst, hlast⟩ := htags.tags e he
            exact ⟨hid, by omega, hlast⟩
          · refine ⟨d :: es, by rw [hes, hd, List.append_assoc, List.singleton_append],
              fun e he ↦ ?_, ?_⟩
            · rcases List.mem_cons.mp he with rfl | he
              · rw [htag]
                exact ⟨rfl, le_rfl, by simp only; omega⟩
              · obtain ⟨hid, hfirst, hlast⟩ := htags.tags e he
                exact ⟨hid, by omega, hlast⟩
            · rw [List.map_cons, List.nodup_cons]
              refine ⟨?_, htags.nodup⟩
              intro hmem
              obtain ⟨e, he, heq⟩ := List.mem_map.mp hmem
              have hfirst := (htags.tags e he).2.1
              rw [heq, htag] at hfirst
              simp only at hfirst
              omega

theorem readHandler_recorded {id : ℕ} {timestamp : Int32} {t t' : τ}
    {dealt dealt' : List Dealt} {k k' : Conn} {c : List Byte}
    (h : k.readHandler H id timestamp t dealt c = some (k', t', dealt')) :
    k'.read = k.read ∧ k'.replies = k.replies ∧ k'.toServer = k.toServer.drop c.length ∧
      k.received ≤ k'.received ∧
      ∃ es, dealt' = dealt ++ es ∧ NewTags id k.received k'.received es := by
  unfold Conn.readHandler at h
  dsimp only at h
  split_ifs at h
  · cases h
    exact ⟨rfl, rfl, rfl, le_rfl, [], by simp, by simp, by simp⟩
  · split at h
    · cases h
    · rename_i res hres
      split at h
      · cases h
      · rename_i w hw
        obtain ⟨hle, es, hes, htags⟩ :=
          called_recorded (TcpStreamSocket.cutLoop_called _ hres) rfl hw
        split_ifs at h
        · cases h
          exact ⟨rfl, rfl, rfl, hle, es, hes, htags⟩
        · cases h
          exact ⟨rfl, rfl, rfl, hle, es, hes, htags⟩

theorem incomplete_of_length_lt {p : List Byte} {timestamp : Int32} {req : List Byte}
    (hreq : req.length ≤ socketPackSize.toNat) (hp : p <+: sendBlock timestamp req)
    (hlt : p.length < (sendBlock timestamp req).length) :
    TcpStreamSocket.format.Incomplete p := by
  by_cases hshort : p.length < 8
  · exact Or.inl hshort
  · right
    have hannounced : announced (p.take 8) = req.length := by
      have hsize : announced ((sendBlock timestamp req ++ []).take 8) = req.length :=
        SyncConnector.announced_sendBlock hreq
      rw [← hsize, List.append_nil]
      congr 1
      obtain ⟨rest, hrest⟩ := hp
      rw [← hrest, List.take_append_of_le_length (not_lt.mp hshort)]
    change announced (p.take 8) ≤ _ ∧ _ < 8 + announced (p.take 8)
    rw [hannounced]
    rw [length_sendBlock] at hlt
    exact ⟨hreq, hlt⟩

theorem parse_block {timestamp : Int32} {req : List Byte}
    (hreq : req.length ≤ socketPackSize.toNat) :
    TcpStreamSocket.format.parse (sendBlock timestamp req) = ([req], .incomplete []) := by
  have hparse : TcpStreamSocket.format.parse
      ([(timestamp, req)].flatMap fun x ↦ sendBlock x.1 x.2) = ([req], .incomplete []) :=
    parse_sendBlocks (by decide) [(timestamp, req)] (by simpa using hreq)
  simpa using hparse

/-- The server's end after a chunk of a request: the socket was not read any more, the
request is not complete, or it was answered. -/
inductive ReadOutcome (id : ℕ) (call : Call) (packidx : UInt32) (block p c : List Byte)
    (dealt : List Dealt) (k k' : Conn) : Prop
  | closed (reading : k'.reading = false) (accepted : k'.link.accepted = k.link.accepted)
      (received : k'.received = k.received)
  | more (length_lt : (p ++ c).length < block.length) (holds : Holds k'.frame (p ++ c))
      (accepted : k'.link.accepted = k.link.accepted) (received : k'.received = k.received)
  | answered (all : p ++ c = block) (inHeader : k'.frame.InHeader [])
      (received : k'.received = k.received + 1)
      (accepted : k'.link.accepted = k.link.accepted ∨ ∃ timestamp appended,
        k'.link.accepted = k.link.accepted ++
          [sendBlock timestamp (callHead call.way call.msgType.toUInt32 packidx ++ appended)] ∧
        (callHead call.way call.msgType.toUInt32 packidx ++ appended).length < 2 ^ 32 ∧
        (call.twoWay = true →
          ⟨(id, k.received), call.msgType, call.msg.take call.len.toNat, appended⟩ ∈ dealt))

theorem Call.way_cases (call : Call) : call.way = onewayType ∨ call.way = twowayType := by
  unfold Call.way
  split
  · exact Or.inr rfl
  · exact Or.inl rfl

theorem holds_nil {r : FrameReader} (h : Holds r []) : r.InHeader [] := by
  rcases h with h | ⟨hdr, body, hnil, h, -, -⟩
  · exact h
  · have hlen := h.length_eq
    rw [(List.append_eq_nil_iff.mp hnil.symm).1] at hlen
    cases hlen

theorem readHandler_request {id : ℕ} {timestamp timestamp₀ : Int32} {t t' : τ}
    {dealt dealt' : List Dealt} {k k' : Conn} {p c : List Byte} {call : Call}
    {packidx : UInt32} (hinv : k.link.Inv) (hholds : Holds k.frame p)
    (hreq : (call.request packidx).length ≤ socketPackSize.toNat)
    (hc : c.length ≤ socketReadSize)
    (hpre : p ++ c <+: sendBlock timestamp₀ (call.request packidx))
    (h : k.readHandler H id timestamp t dealt c = some (k', t', dealt')) :
    k'.link.Inv ∧
      ReadOutcome id call packidx (sendBlock timestamp₀ (call.request packidx)) p c dealt'
        k k' := by
  have hlen := toNat_chunk_length hc
  have hmax : c.length ≤ 4096 := hc
  unfold Conn.readHandler at h
  dsimp only at h
  split_ifs at h with hflag
  · cases h
    obtain ⟨link, hstep, hstepped⟩ := Link.step_close hinv
    cases hstep
    exact ⟨hstepped.inv, .closed rfl rfl rfl⟩
  · obtain ⟨res, hres, hagrees⟩ := TcpStreamSocket.cutMsgPack_agrees
      (callback H id timestamp) (w := some ⟨k.link, k.buffer, k.received, t, dealt⟩) hholds
      (show (UInt32.ofNat c.length).toNat ≤ (blit k.readbuf 0 c).length by
        rw [hlen]
        exact le_length_blit_zero _ _) (by omega)
    rw [hlen, take_blit_zero] at hagrees
    have hcalled := TcpStreamSocket.cutLoop_called _ hres
    simp only [hres] at h
    by_cases hlt : (p ++ c).length < (sendBlock timestamp₀ (call.request packidx)).length
    · rw [Format.parse_of_incomplete (incomplete_of_length_lt hreq hpre hlt)] at hagrees
      obtain ⟨hok, hholds'⟩ := hagrees.incomplete _ rfl
      rw [hagrees.delivered_eq] at hcalled
      generalize res.world = world at hcalled h
      cases hcalled
      simp only [hok, if_true, Option.some.injEq, Prod.mk.injEq] at h
      obtain ⟨rfl, -, -⟩ := h
      exact ⟨hinv, .more hlt hholds' rfl rfl⟩
    · have hall : p ++ c = sendBlock timestamp₀ (call.request packidx) :=
        hpre.eq_of_length_le (not_lt.mp hlt)
      rw [hall, parse_block hreq] at hagrees
      obtain ⟨hok, hholds'⟩ := hagrees.incomplete _ rfl
      have hdelivered := hagrees.delivered_eq
      generalize res.delivered = delivered at hcalled hdelivered
      generalize res.world = world at hcalled h
      cases hcalled with
      | nil => cases hdelivered
      | cons b hrest =>
          rw [List.cons.injEq] at hdelivered
          rw [hdelivered.2] at hrest
          cases hrest
          cases hcall : onReceiveData H id timestamp
              ⟨k.link, k.buffer, k.received, t, dealt⟩ b with
          | none => simp [callback, hcall] at h
          | some called =>
              obtain ⟨w, b'⟩ := called
              simp only [callback, hcall, hok, if_true, Option.some.injEq, Prod.mk.injEq] at h
              obtain ⟨rfl, -, rfl⟩ := h
              obtain ⟨hinv', hreplied⟩ :=
                onReceiveData_replied hinv call.way_cases hdelivered.1 hcall
              obtain ⟨hreceived, -⟩ := onReceiveData_recorded hcall
              refine ⟨hinv', .answered hall (holds_nil hholds') hreceived ?_⟩
              rcases hreplied with hsame | ⟨appended, haccepted, hsize, hdealt⟩
              · exact Or.inl hsame
              · refine Or.inr ⟨timestamp, appended, haccepted, hsize, fun htwo ↦ ?_⟩
                have hmem := hdealt (by rw [Call.way, if_pos htwo])
                rwa [Int32.toInt32_toUInt32] at hmem

end Server

/-! ## The states of a connection -/

namespace Conn

/-- Nothing is on its way in either direction. -/
structure Quiet (k : Conn) (sock : SyncConnector) : Prop where
  ready : ∃ c, sock.Ready c 0
  inv : k.link.Inv
  toServer_eq : k.toServer = []
  inHeader : k.frame.InHeader []
  received_eq : k.received = k.replies
  read_eq : k.read = k.link.accepted.flatten.length

/-- The request has not been answered: nothing was sent back, and if the server still
reads it has the beginning of the request. -/
structure Asked (k : Conn) (call : Call) (packidx : UInt32) (block : List Byte) : Prop where
  block_eq : block = []
  received_eq : k.received = k.replies
  request : k.reading = true → ∃ timestamp p,
    p ++ k.toServer = sendBlock timestamp (call.request packidx) ∧ k.toServer ≠ [] ∧
      Holds k.frame p

/-- The handler was called for the request, and `block` is what was sent back. -/
structure Answered (k : Conn) (id : ℕ) (dealt : List Dealt) (call : Call) (packidx : UInt32)
    (block : List Byte) : Prop where
  toServer_eq : k.toServer = []
  inHeader : k.frame.InHeader []
  received_eq : k.received = k.replies + 1
  reply : block = [] ∨ ∃ timestamp appended,
    block = sendBlock timestamp
      (callHead call.way call.msgType.toUInt32 packidx ++ appended) ∧
    (callHead call.way call.msgType.toUInt32 packidx ++ appended).length < 2 ^ 32 ∧
    (call.twoWay = true →
      ⟨(id, k.replies), call.msgType, call.msg.take call.len.toNat, appended⟩ ∈ dealt)

/-- The client is in `Recv` and has used `m` bytes of the reply. -/
structure Waiting (k : Conn) (id : ℕ) (dealt : List Dealt) (call : Call) (packidx : UInt32)
    (sock : SyncConnector) : Prop where
  flag_eq : sock.flag = .start
  inv : k.link.Inv
  request_le : (call.request packidx).length ≤ socketPackSize.toNat
  reply : ∃ start block m, k.link.accepted.flatten = start ++ block ∧
    k.read = start.length + m ∧ Reads sock.frame block m ∧
    (k.Asked call packidx block ∨ k.Answered id dealt call packidx block)

variable {k k' : Conn} {id : ℕ} {dealt dealt' : List Dealt} {call : Call} {packidx : UInt32}
  {sock : SyncConnector}

theorem Waiting.mono (h : k.Waiting id dealt call packidx sock) (hdealt : dealt ⊆ dealt') :
    k.Waiting id dealt' call packidx sock := by
  obtain ⟨start, block, m, haccepted, hread, hreads, hstate⟩ := h.reply
  refine ⟨h.flag_eq, h.inv, h.request_le, start, block, m, haccepted, hread, hreads, ?_⟩
  refine hstate.imp_right fun hanswered ↦ ⟨hanswered.toServer_eq, hanswered.inHeader,
    hanswered.received_eq, hanswered.reply.imp_right ?_⟩
  rintro ⟨timestamp, appended, hblock, hlen, hmem⟩
  exact ⟨timestamp, appended, hblock, hlen, fun htwo ↦ hdealt (hmem htwo)⟩

theorem Quiet.link {link : Link} (h : k.Quiet sock) (hinv : link.Inv)
    (haccepted : link.accepted = k.link.accepted) :
    Quiet { k with link := link } sock :=
  ⟨h.ready, hinv, h.toServer_eq, h.inHeader, h.received_eq, by rw [haccepted]; exact h.read_eq⟩

theorem Waiting.link {link : Link} (h : k.Waiting id dealt call packidx sock)
    (hinv : link.Inv) (haccepted : link.accepted = k.link.accepted) :
    Waiting { k with link := link } id dealt call packidx sock := by
  obtain ⟨start, block, m, haccepted', hread, hreads, hstate⟩ := h.reply
  refine ⟨h.flag_eq, hinv, h.request_le, start, block, m, by rw [haccepted, haccepted'], hread,
    hreads, ?_⟩
  exact hstate.imp (fun h ↦ ⟨h.block_eq, h.received_eq, h.request⟩)
    (fun h ↦ ⟨h.toServer_eq, h.inHeader, h.received_eq, h.reply⟩)

theorem Waiting.readHandler {τ : Type} {H : IServerHandler τ} {timestamp : Int32} {t t' : τ}
    {c : List Byte} (h : k.Waiting id dealt call packidx sock) (hreading : k.reading = true)
    (hc : Session.Chunk k.toServer c)
    (hstep : k.readHandler H id timestamp t dealt c = some (k', t', dealt')) :
    k'.Waiting id dealt' call packidx sock := by
  obtain ⟨hne, hsize, hpre⟩ := hc
  obtain ⟨start, block, m, haccepted, hread, hreads, hstate⟩ := h.reply
  obtain ⟨hread', hreplies, htoServer, -, -⟩ := readHandler_recorded hstep
  rcases hstate with hasked | hanswered
  · obtain ⟨timestamp₀, p, hblock, -, hholds⟩ := hasked.request hreading
    obtain ⟨hinv, houtcome⟩ := readHandler_request h.inv hholds h.request_le hsize (by
      rw [← hblock]
      exact List.prefix_append_right_inj p |>.mpr hpre) hstep
    have hnil := hasked.block_eq
    subst hnil
    refine ⟨h.flag_eq, hinv, h.request_le, ?_⟩
    cases houtcome with
    | closed hreading' haccepted' hreceived =>
        refine ⟨start, [], m, by rw [haccepted', haccepted], hread'.trans hread, hreads,
          Or.inl ⟨rfl, ?_, ?_⟩⟩
        · rw [hreceived, hreplies, hasked.received_eq]
        · intro htrue
          rw [hreading'] at htrue
          cases htrue
    | more hlt hholds' haccepted' hreceived =>
        refine ⟨start, [], m, by rw [haccepted', haccepted], hread'.trans hread, hreads,
          Or.inl ⟨rfl, ?_, fun _ ↦ ⟨timestamp₀, p ++ c, ?_, ?_, hholds'⟩⟩⟩
        · rw [hreceived, hreplies, hasked.received_eq]
        · rw [htoServer, List.append_assoc, ← hblock]
          obtain ⟨rest, hrest⟩ := hpre
          rw [← hrest, List.drop_left]
        · intro hnil
          rw [htoServer, List.drop_eq_nil_iff] at hnil
          rw [← hblock, List.length_append, List.length_append] at hlt
          omega
    | answered hall hinHeader hreceived haccepted' =>
        have hnil : k'.toServer = [] := by
          rw [htoServer, List.drop_eq_nil_iff]
          have hlen := congrArg List.length (hall.trans hblock.symm)
          rw [List.length_append, List.length_append] at hlen
          omega
        have hzero : m = 0 := by
          obtain ⟨got, lost, -, hlen, hle, -⟩ := hreads
          exact Nat.le_zero.mp hle
        subst hzero
        have hgot : ∀ block, Reads sock.frame block 0 := by
          obtain ⟨got, lost, hgot, hlen, -⟩ := hreads
          have hgotnil : got = [] := List.eq_nil_of_length_eq_zero (by omega)
          subst hgotnil
          intro block
          exact ⟨[], 0, hgot, rfl, Nat.zero_le _, fun _ ↦ rfl, fun hne ↦ absurd rfl hne⟩
        rcases haccepted' with hsame | ⟨timestamp', appended, happ, hlen, hmem⟩
        · exact ⟨start, [], 0, by rw [hsame, haccepted], hread'.trans hread, hgot [],
            Or.inr ⟨hnil, hinHeader, by rw [hreceived, hreplies, hasked.received_eq],
              Or.inl rfl⟩⟩
        · refine ⟨start, _, 0, ?_, hread'.trans hread, hgot _,
            Or.inr ⟨hnil, hinHeader, by rw [hreceived, hreplies, hasked.received_eq],
              Or.inr ⟨timestamp', appended, rfl, hlen, fun htwo ↦ ?_⟩⟩⟩
          · rw [happ, List.flatten_append, List.flatten_singleton, haccepted, List.append_nil]
          · rw [hreplies, ← hasked.received_eq]
            exact hmem htwo
  · rw [hanswered.toServer_eq] at hpre
    exact absurd (List.prefix_nil.mp hpre) hne

/-- What the client can receive is a part of what the server has accepted for sending. -/
theorem chunk_of_taken {start block c : List Byte} {m : ℕ} (hinv : k.link.Inv)
    (haccepted : k.link.accepted.flatten = start ++ block) (hread : k.read = start.length + m)
    (hc : Session.Chunk (k.link.taken.drop k.read) c) : c <+: block.drop m := by
  have hconserved := hinv.conserved
  have htaken : k.link.taken.drop k.read <+: (start ++ block).drop k.read := by
    rw [← haccepted, ← hconserved]
    by_cases hle : k.read ≤ k.link.taken.length
    · rw [List.drop_append_of_le_length hle]
      exact List.prefix_append _ _
    · rw [List.drop_eq_nil_of_le (by omega)]
      exact List.nil_prefix
  have hdrop : (start ++ block).drop k.read = block.drop m := by
    rw [hread, ← List.drop_drop, List.drop_left]
  rw [hdrop] at htaken
  exact hc.2.2.trans htaken

theorem Waiting.recvChunk_false {sock' : SyncConnector} {c : List Byte}
    (h : k.Waiting id dealt call packidx sock)
    (hc : Session.Chunk (k.link.taken.drop k.read) c)
    (hstep : sock.recvChunk c = some (false, sock')) :
    Waiting { k with read := k.read + c.length } id dealt call packidx sock' := by
  obtain ⟨start, block, m, haccepted, hread, hreads, hstate⟩ := h.reply
  have hpre := chunk_of_taken h.inv haccepted hread hc
  have hflag : sock'.flag = sock.flag := by
    obtain ⟨got, lost, hgot, -⟩ := hreads
    exact (SyncConnector.recvChunk_outcome hgot hc.2.1 hstep).1
  have hreads' := hreads.kept hpre rfl fun got hgot ↦
    (SyncConnector.recvChunk_outcome hgot hc.2.1 hstep).2.2
  refine ⟨hflag.trans h.flag_eq, h.inv, h.request_le, start, block, m + c.length, haccepted, ?_,
    hreads', ?_⟩
  · simp only [hread]
    omega
  · exact hstate.imp (fun h ↦ ⟨h.block_eq, h.received_eq, h.request⟩)
      (fun h ↦ ⟨h.toServer_eq, h.inHeader, h.received_eq, h.reply⟩)

/-- A chunk that completes the reply: it is the handler's, and the connection is quiet. -/
theorem Waiting.recvChunk_true {sock' : SyncConnector} {c : List Byte}
    (h : k.Waiting id dealt call packidx sock)
    (hc : Session.Chunk (k.link.taken.drop k.read) c)
    (hstep : sock.recvChunk c = some (true, sock')) :
    (∀ reply, Quiet { k with read := k.read + c.length, replies := k.replies + 1 }
      { sock' with frame := { sock'.frame with msgbuffer := reply } }) ∧
    ∃ appended, sock'.frame.msgbuffer.unread =
        callHead call.way call.msgType.toUInt32 packidx ++ appended ∧
      (call.twoWay = true →
        ⟨(id, k.replies), call.msgType, call.msg.take call.len.toNat, appended⟩ ∈ dealt) := by
  obtain ⟨start, block, m, haccepted, hread, hreads, hstate⟩ := h.reply
  have hpre := chunk_of_taken h.inv haccepted hread hc
  have hblock : block ≠ [] := by
    rintro rfl
    rw [List.drop_nil] at hpre
    exact hc.1 (List.prefix_nil.mp hpre)
  rcases hstate with hasked | hanswered
  · exact absurd hasked.block_eq hblock
  · obtain ⟨timestamp, appended, rfl, hlen, hmem⟩ := hanswered.reply.resolve_left hblock
    obtain ⟨hflag, hreadbuf⟩ : sock'.flag = sock.flag ∧ sock'.readbuf.take c.length = c := by
      obtain ⟨got, lost, hgot, -⟩ := hreads
      obtain ⟨hflag, hreadbuf, -⟩ := SyncConnector.recvChunk_outcome hgot hc.2.1 hstep
      exact ⟨hflag, hreadbuf⟩
    obtain ⟨hall, hunread, hsize, htran⟩ := hreads.completed hlen hpre rfl fun got hgot ↦
      (SyncConnector.recvChunk_outcome hgot hc.2.1 hstep).2.2
    refine ⟨fun reply ↦ ⟨⟨c, hflag.trans h.flag_eq, hsize, hreadbuf, htran, Nat.zero_le _,
      hc.2.1⟩, h.inv, hanswered.toServer_eq, hanswered.inHeader, hanswered.received_eq, ?_⟩,
      appended, hunread, hmem⟩
    change k.read + c.length = k.link.accepted.flatten.length
    rw [haccepted, List.length_append, hread]
    omega

theorem Quiet.send {sock' : SyncConnector} (h : k.Quiet sock) (id : ℕ) (dealt : List Dealt)
    (timestamp : Int32) (hreq : (call.request packidx).length ≤ socketPackSize.toNat)
    {m : Buffer} {reply : Bool}
    (hstart : ({ sock with sndbuffer := m } : SyncConnector).recvStart = some (reply, sock')) :
    reply = false ∧
      Waiting { k with toServer := k.toServer ++ sendBlock timestamp (call.request packidx) } id
        dealt call packidx sock' := by
  obtain ⟨c, hready⟩ := h.ready
  have hzero : ¬ sock.readsize > 0 := by
    rw [gt_iff_lt, UInt32.not_lt, UInt32.le_iff_toNat_le, hready.toNat_readsize]
    exact Nat.zero_le _
  simp only [SyncConnector.recvStart, if_neg hzero, Option.some.injEq, Prod.mk.injEq] at hstart
  obtain ⟨rfl, rfl⟩ := hstart
  refine ⟨rfl, hready.flag_eq, h.inv, hreq, k.link.accepted.flatten, [], 0, by simp, ?_, ?_,
    Or.inl ⟨rfl, h.received_eq, fun _ ↦ ⟨timestamp, [], ?_, ?_, Or.inl h.inHeader⟩⟩⟩
  · exact h.read_eq
  · exact SyncConnector.reads_nil (SyncConnector.inHeader_clear hready.size_eq) []
  · simp [h.toServer_eq]
  · rw [h.toServer_eq, List.nil_append]
    intro hnil
    have hlen := congrArg List.length hnil
    rw [length_sendBlock, List.length_nil] at hlen
    omega

end Conn

end Slience
