import Slience.Synccall.Dealings

/-!
# Bodies shorter than a request

`ScServer::OnReceiveData` reads a word, goes back by it with a negative `CutData` and reads three
words.  A `Read` that finds too few bytes leaves its variable zero, so that a body without a whole
head is read all the same: its first word and zeros.  Where the body has no first word either, the
way back leads into the header in front of it.
-/

namespace Slience

/-- Word `k` of a message. -/
def bodyWord (body : List Byte) (k : ℕ) : UInt32 := loadLe32 (body.drop (4 * k))

theorem le32_bodyWord {body : List Byte} {k : ℕ} (h : 4 * k + 4 ≤ body.length) :
    le32 (bodyWord body k) = (body.drop (4 * k)).take 4 := by
  apply le32_loadLe32
  rw [List.length_drop]
  omega

theorem callHead_bodyWord {body : List Byte} (h : 12 ≤ body.length) :
    callHead (bodyWord body 0) (bodyWord body 1) (bodyWord body 2) = body.take 12 := by
  have h₀ : le32 (bodyWord body 0) = body.take 4 := le32_bodyWord (by omega)
  have h₁ : le32 (bodyWord body 1) = (body.drop 4).take 4 := le32_bodyWord (by omega)
  have h₂ : le32 (bodyWord body 2) = (body.drop 8).take 4 := le32_bodyWord (by omega)
  have hsplit : body.take 12 = body.take 4 ++ (body.drop 4).take 8 :=
    List.take_add (l := body) (i := 4) (j := 8)
  have hrest : (body.drop 4).take 8 = (body.drop 4).take 4 ++ ((body.drop 4).drop 4).take 4 :=
    List.take_add (l := body.drop 4) (i := 4) (j := 4)
  rw [callHead, h₀, h₁, h₂, hsplit, hrest, List.drop_drop]

/-- The buffer in which `_CutMsgPack` hands a body over: the header is still in front of it. -/
structure HandedOver (b : Buffer) (body : List Byte) : Prop where
  header : ∃ hdr, hdr.length = 8 ∧ announced hdr = body.length ∧ b.contents = hdr ++ body
  unread_eq : b.unread = body
  length_le : body.length ≤ socketPackSize.toNat

theorem FrameReader.cutBody_handedOver {r r' : FrameReader} {hdr body buf buf' : List Byte}
    {tranByte tranByte' : UInt32} (h : r.InBody hdr body)
    (hlimit : announced hdr ≤ socketPackSize.toNat)
    (hcut : r.cutBody buf tranByte = some (.full r' buf' tranByte')) :
    HandedOver r'.msgbuffer (body ++ buf.take (announced hdr - body.length)) := by
  have hunread := (cutBody_completed h hcut).2.2.2.1
  have hle := h.length_le
  dsimp only [cutBody] at hcut
  split at hcut
  · obtain ⟨m, -, hr'⟩ := Option.bind_eq_some_iff.mp hcut
    cases hr'
  · obtain ⟨m, hwrite, hr'⟩ := Option.bind_eq_some_iff.mp hcut
    cases hr'
    obtain ⟨hm, hsrc, -⟩ := Buffer.appended_of_write hwrite
    rw [h.toNat_need] at hm hsrc
    have hlen : (body ++ buf.take (announced hdr - body.length)).length = announced hdr := by
      rw [List.length_append, List.length_take]
      omega
    refine ⟨⟨hdr, h.length_eq, hlen.symm, ?_⟩, hunread, hlen.trans_le hlimit⟩
    rw [hm.contents_eq, h.contents_eq, List.append_assoc]

namespace HandedOver

variable {b : Buffer} {body : List Byte}

theorem contents_lt (h : HandedOver b body) : b.contents.length + 4 < 2 ^ 32 := by
  obtain ⟨hdr, hhdr, -, hcontents⟩ := h.header
  have hle := h.length_le
  rw [BaseSocket.toNat_socketPackSize] at hle
  rw [hcontents, List.length_append, hhdr]
  omega

theorem offset_eq (h : HandedOver b body) : b.offset.toNat = 8 := by
  obtain ⟨hdr, hhdr, -, hcontents⟩ := h.header
  have hlen := congrArg List.length h.unread_eq
  have hpos := congrArg List.length hcontents
  have hoff := b.offset_le_pos
  rw [Buffer.length_unread] at hlen
  rw [Buffer.length_contents, List.length_append, hhdr] at hpos
  omega

/-- In front of a body without a first word is its size, in network byte order. -/
theorem sizeWord (h : HandedOver b body) (hshort : body.length < 4) :
    ∃ way b', (b.cutData (-4)).readWord 0 = some (way, b') ∧ b'.contents = b.contents ∧
      way ≠ onewayType ∧ way ≠ twowayType := by
  obtain ⟨hdr, hhdr, hannounced, hcontents⟩ := h.header
  have hback : (b.cutData (-4)).unread = hdr.drop 4 ++ body := by
    have hoffset := h.offset_eq
    have hneg : (-4 : Int32).toUInt32.toNat = 2 ^ 32 - 4 := rfl
    rw [Buffer.unread_cutData_back hneg (by omega) (by omega), hoffset, hcontents,
      List.drop_append_of_le_length (by omega)]
  have hfour : 4 ≤ (b.cutData (-4)).unread.length := by
    rw [hback, List.length_append, List.length_drop]
    omega
  obtain ⟨b', hread, -, hkept⟩ := Buffer.readWord_full 0 hfour
  have hsize : loadLe32 (b.cutData (-4)).unread = (MessageHeader.ofMem hdr).size := by
    rw [hback, ← loadLe32_take_four,
      List.take_append_of_le_length (by rw [List.length_drop]; omega), loadLe32_take_four]
    rfl
  have hsmall : (bswap32 (MessageHeader.ofMem hdr).size).toNat < 4 := by
    have hswap := MessageHeader.toNat_size_n2h_ofMem hdr
    rw [hannounced] at hswap
    exact hswap.trans_lt hshort
  rw [hsize] at hread
  refine ⟨_, b', hread, hkept.trans (b.contents_cutData _), ?_, ?_⟩
  · intro heq
    rw [heq] at hsmall
    exact absurd hsmall (by decide)
  · intro heq
    rw [heq] at hsmall
    exact absurd hsmall (by decide)

end HandedOver

namespace ScServer

/-- The four reads of `OnReceiveData` on a message that is no keep-alive. -/
def Reads (b : Buffer) (way msgType packidx : UInt32) (request : Buffer) : Prop :=
  ∃ msgid b₀ b₁ b₂, b.readWord 0 = some (msgid, b₀) ∧ msgid ≠ keepaliveId ∧
    (b₀.cutData (-4)).readWord 0 = some (way, b₁) ∧ b₁.readWord 0 = some (msgType, b₂) ∧
    b₂.readWord 0 = some (packidx, request)

/-- The first word is that of a keep-alive. -/
def IsKeepalive (body : List Byte) : Prop := 4 ≤ body.length ∧ bodyWord body 0 = keepaliveId

theorem reads_request {b : Buffer} {body : List Byte} (h : HandedOver b body)
    (hid : ¬ IsKeepalive body) (hlen : 12 ≤ body.length) :
    ∃ request, request.unread = body.drop 12 ∧
      Reads b (bodyWord body 0) (bodyWord body 1) (bodyWord body 2) request := by
  have hfour : 4 ≤ b.unread.length := by
    rw [h.unread_eq]
    omega
  obtain ⟨b₀, hread₀, -, -⟩ := Buffer.readWord_full 0 hfour
  have hback := (Buffer.unread_cutData_readWord hfour hread₀).trans h.unread_eq
  obtain ⟨b₁, hread₁, hunread₁, -⟩ := Buffer.readWord_full (b := b₀.cutData (-4)) 0 (by
    rw [hback]
    omega)
  rw [hback] at hread₁ hunread₁
  obtain ⟨b₂, hread₂, hunread₂, -⟩ := Buffer.readWord_full (b := b₁) 0 (by
    rw [hunread₁, List.length_drop]
    omega)
  rw [hunread₁] at hread₂ hunread₂
  rw [List.drop_drop] at hunread₂
  obtain ⟨b₃, hread₃, hunread₃, -⟩ := Buffer.readWord_full (b := b₂) 0 (by
    rw [hunread₂, List.length_drop]
    omega)
  rw [hunread₂] at hread₃ hunread₃
  rw [List.drop_drop] at hunread₃
  rw [h.unread_eq] at hread₀
  exact ⟨b₃, hunread₃, _, b₀, b₁, b₂, hread₀, fun heq ↦ hid ⟨by omega, heq⟩, hread₁, hread₂, hread₃⟩

/-- A first word is read that may be the one of a call, and then whatever there is. -/
theorem exists_reads {b : Buffer} {body : List Byte} (h : HandedOver b body)
    (hid : ¬ IsKeepalive body) :
    ∃ way msgType packidx request, Reads b way msgType packidx request ∧
      (way = onewayType ∨ way = twowayType ↔
        4 ≤ body.length ∧ (bodyWord body 0 = onewayType ∨ bodyWord body 0 = twowayType)) := by
  have hfits := h.contents_lt
  obtain ⟨msgid, b₀, way, b₁, hread₀, hne, hread₁, hcontents, hway⟩ : ∃ msgid b₀ way b₁,
      b.readWord 0 = some (msgid, b₀) ∧ msgid ≠ keepaliveId ∧
      (b₀.cutData (-4)).readWord 0 = some (way, b₁) ∧ b₁.contents = b.contents ∧
      (way = onewayType ∨ way = twowayType ↔
        4 ≤ body.length ∧ (bodyWord body 0 = onewayType ∨ bodyWord body 0 = twowayType)) := by
    by_cases hfour : 4 ≤ body.length
    · have hfour' : 4 ≤ b.unread.length := by rwa [h.unread_eq]
      obtain ⟨b₀, hread₀, -, hkept₀⟩ := Buffer.readWord_full 0 hfour'
      have hback := Buffer.unread_cutData_readWord hfour' hread₀
      obtain ⟨b₁, hread₁, -, hkept₁⟩ := Buffer.readWord_full (b := b₀.cutData (-4)) 0 (by
        rwa [hback])
      rw [Buffer.contents_cutData, hkept₀] at hkept₁
      rw [hback, h.unread_eq] at hread₁
      rw [h.unread_eq] at hread₀
      exact ⟨_, b₀, _, b₁, hread₀, fun heq ↦ hid ⟨hfour, heq⟩, hread₁, hkept₁,
        (and_iff_right hfour).symm⟩
    · rw [not_le] at hfour
      obtain ⟨way, b₁, hread₁, hkept₁, hone, htwo⟩ := h.sizeWord hfour
      refine ⟨0, b, way, b₁, Buffer.readWord_short 0 (by rwa [h.unread_eq]) hfits, by decide,
        hread₁, hkept₁, ?_⟩
      exact iff_of_false (not_or.mpr ⟨hone, htwo⟩) fun hc ↦ absurd hc.1 (not_le.mpr hfour)
  obtain ⟨msgType, b₂, hread₂, hkept₂⟩ := b₁.exists_readWord 0 (by rwa [hcontents])
  obtain ⟨packidx, b₃, hread₃, -⟩ := b₂.exists_readWord 0 (by rwa [hkept₂, hcontents])
  exact ⟨way, msgType, packidx, b₃, ⟨msgid, b₀, b₁, b₂, hread₀, hne, hread₁, hread₂, hread₃⟩, hway⟩

variable {τ : Type}

/-- `Send` is given a reply that starts with `head`. -/
def SendsReply (timestamp : Int32) (head : List Byte) (w w' : World τ) : Prop :=
  ∃ reply : Buffer, ∃ appended, reply.unread = head ++ appended ∧
    w.link.step (.send timestamp reply.unread reply.length) = some w'.link

/-- No function of the handler is called, and nothing is sent. -/
structure Untouched (w w' : World τ) : Prop where
  handler_eq : w'.handler = w.handler
  link_eq : w'.link = w.link

/-- The first word decides which function of the handler gets the request. -/
def Dispatched (H : IServerHandler τ) (timestamp : Int32) (way msgType : UInt32)
    (request reply : Buffer) (w w' : World τ) : Prop :=
  if way = onewayType then
    w'.handler = (H.onOneWayDealer w.handler msgType.toInt32 request).1 ∧
      SendsReply timestamp reply.unread w w'
  else if way = twowayType then
    w'.handler = (H.onTwoWayDealer w.handler msgType.toInt32 request reply).1 ∧
      SendsReply timestamp reply.unread w w'
  else Untouched w w'

/-- What is to become of a message that is no keep-alive. -/
def Handled (H : IServerHandler τ) (timestamp : Int32) (body : List Byte) (w w' : World τ) : Prop :=
  if body.length < 12 then Untouched w w'
  else ∃ request reply : Buffer, request.unread = body.drop 12 ∧ reply.unread = body.take 12 ∧
    Dispatched H timestamp (bodyWord body 0) (bodyWord body 1) request reply w w'

/-- Whatever the handler and the connection. -/
def HandledAlways (b : Buffer) (body : List Byte) : Prop :=
  ∀ (τ : Type) (H : IServerHandler τ) (conn : ℕ) (timestamp : Int32) (w : World τ), w.link.Inv →
    ∃ w' b', onReceiveData H conn timestamp w b = some (w', b') ∧ Handled H timestamp body w w'

theorem deal_dispatched (H : IServerHandler τ) (conn : ℕ) (timestamp : Int32) {w : World τ}
    (hinv : w.link.Inv) (way msgType : UInt32) (request reply : Buffer) :
    ∃ w' b', deal H conn timestamp w way msgType request reply = some (w', b') ∧
      Dispatched H timestamp way msgType request reply w w' := by
  unfold deal Dispatched
  by_cases hone : way = onewayType
  · obtain ⟨w', hsend, -, hhandler⟩ := World.exists_send
      (w := { w with
        handler := (H.onOneWayDealer w.handler msgType.toInt32 request).1
        buffer := reply }) hinv timestamp reply
    obtain ⟨link, hstep, rfl⟩ := World.send_eq_some hsend
    simp only [if_pos hone, hsend]
    exact ⟨_, _, rfl, rfl, reply, [], (List.append_nil _).symm, hstep⟩
  · by_cases htwo : way = twowayType
    · obtain ⟨appended, happended⟩ := H.appends w.handler msgType.toInt32 request reply
      generalize H.onTwoWayDealer w.handler msgType.toInt32 request reply = dealt at happended
      obtain ⟨t, request', reply'⟩ := dealt
      obtain ⟨w', hsend, -, hhandler⟩ := World.exists_send
        (w := { w with
          handler := t
          buffer := reply'
          dealt := w.dealt ++ [⟨(conn, w.received), msgType.toInt32, request.unread,
            reply'.unread.drop reply.unread.length⟩] }) hinv timestamp reply'
      obtain ⟨link, hstep, rfl⟩ := World.send_eq_some hsend
      simp only [if_neg hone, if_pos htwo, hsend]
      exact ⟨_, _, rfl, rfl, reply', appended, happended.unread_eq, hstep⟩
    · simp only [if_neg hone, if_neg htwo]
      exact ⟨_, _, rfl, rfl, rfl⟩

/-- The count of the messages apart. -/
theorem Dispatched.count {H : IServerHandler τ} {timestamp : Int32} {way msgType : UInt32}
    {request reply : Buffer} {w w' : World τ}
    (h : Dispatched H timestamp way msgType request reply w w') (n : ℕ) :
    Dispatched H timestamp way msgType request reply w { w' with received := n } := by
  unfold Dispatched at h ⊢
  split_ifs at h ⊢
  · exact h
  · exact h
  · exact ⟨h.handler_eq, h.link_eq⟩

theorem Reads.onReceiveData {b request : Buffer} {way msgType packidx : UInt32}
    (h : Reads b way msgType packidx request) (H : IServerHandler τ) (conn : ℕ) (timestamp : Int32)
    {w : World τ} (hinv : w.link.Inv) :
    ∃ reply : Buffer, reply.unread = callHead way msgType packidx ∧
      ∃ w' b', onReceiveData H conn timestamp w b = some (w', b') ∧
        Dispatched H timestamp way msgType request reply w w' := by
  obtain ⟨msgid, b₀, b₁, b₂, hread₀, hid, hread₁, hread₂, hread₃⟩ := h
  obtain ⟨r₁, r₂, reply, hr₁, hr₂, hr₃⟩ := exists_writeHead w.buffer way msgType packidx
  obtain ⟨w', b', hdeal, hdispatched⟩ :=
    deal_dispatched H conn timestamp hinv way msgType request reply
  refine ⟨reply, ?_, { w' with received := w'.received + 1 }, b', ?_, ?_⟩
  · rw [(Buffer.appended_of_writeWord hr₃).unread_eq, (Buffer.appended_of_writeWord hr₂).unread_eq,
      (Buffer.appended_of_writeWord hr₁).unread_eq, Buffer.unread_clear, callHead, List.nil_append,
      List.append_assoc]
  · simp only [ScServer.onReceiveData, hread₀, hread₁, hread₂, hread₃, hr₁, hr₂, hr₃, hdeal,
      Option.bind_eq_bind, Option.bind_some, if_neg hid]
    rfl
  · exact hdispatched.count _

theorem not_handledAlways {b : Buffer} {body : List Byte} (h : HandedOver b body)
    (hid : ¬ IsKeepalive body) (hshort : body.length < 12) (hfour : 4 ≤ body.length)
    (hcall : bodyWord body 0 = onewayType ∨ bodyWord body 0 = twowayType) :
    ¬ HandledAlways b body := by
  intro hhandled
  obtain ⟨way, msgType, packidx, request, hreads, hway⟩ := exists_reads h hid
  obtain ⟨w', b', hreceive, hsaid⟩ := hhandled _ recorder 0 0 (.accepted []) Link.inv_connected
  obtain ⟨reply, -, w₁, b₁, hreceive₁, hdispatched⟩ :=
    hreads.onReceiveData recorder 0 0 (w := .accepted []) Link.inv_connected
  rw [hreceive] at hreceive₁
  cases hreceive₁
  rw [Handled, if_pos hshort] at hsaid
  have hnil : w'.handler = [] := hsaid.handler_eq
  rcases hway.mpr ⟨hfour, hcall⟩ with rfl | rfl
  · rw [Dispatched, if_pos rfl, hnil] at hdispatched
    cases hdispatched.1
  · rw [Dispatched, if_neg (by decide), if_pos rfl, hnil] at hdispatched
    cases hdispatched.1

theorem handledAlways_request {b : Buffer} {body : List Byte} (h : HandedOver b body)
    (hid : ¬ IsKeepalive body) (hlen : 12 ≤ body.length) : HandledAlways b body := by
  intro τ H conn timestamp w hinv
  obtain ⟨request, hrequest, hreads⟩ := reads_request h hid hlen
  obtain ⟨reply, hreply, w', b', hreceive, hdispatched⟩ :=
    hreads.onReceiveData H conn timestamp hinv
  refine ⟨w', b', hreceive, ?_⟩
  rw [Handled, if_neg (not_lt.mpr hlen)]
  exact ⟨request, reply, hrequest, hreply.trans (callHead_bodyWord hlen), hdispatched⟩

theorem handledAlways_short {b : Buffer} {body : List Byte} (h : HandedOver b body)
    (hid : ¬ IsKeepalive body) (hshort : body.length < 12)
    (hcall : ¬ (4 ≤ body.length ∧
      (bodyWord body 0 = onewayType ∨ bodyWord body 0 = twowayType))) : HandledAlways b body := by
  intro τ H conn timestamp w hinv
  obtain ⟨way, msgType, packidx, request, hreads, hway⟩ := exists_reads h hid
  obtain ⟨reply, -, w', b', hreceive, hdispatched⟩ := hreads.onReceiveData H conn timestamp hinv
  obtain ⟨hone, htwo⟩ := not_or.mp (hway.not.mpr hcall)
  refine ⟨w', b', hreceive, ?_⟩
  rw [Dispatched, if_neg hone, if_neg htwo] at hdispatched
  rw [Handled, if_pos hshort]
  exact hdispatched

/-- A message that is no keep-alive is handled as it should be, unless it has a first word of a
call but no whole head. -/
theorem handledAlways_iff {b : Buffer} {body : List Byte} (h : HandedOver b body)
    (hid : ¬ IsKeepalive body) :
    HandledAlways b body ↔
      12 ≤ body.length ∨ body.length < 4 ∨
        (bodyWord body 0 ≠ onewayType ∧ bodyWord body 0 ≠ twowayType) := by
  by_cases hlen : 12 ≤ body.length
  · exact iff_of_true (handledAlways_request h hid hlen) (Or.inl hlen)
  · rw [not_le] at hlen
    constructor
    · intro hhandled
      by_contra hnot
      obtain ⟨-, hnot⟩ := not_or.mp hnot
      obtain ⟨hfour, hcall⟩ := not_or.mp hnot
      exact not_handledAlways h hid hlen (not_lt.mp hfour) (by tauto) hhandled
    · intro hcond
      apply handledAlways_short h hid hlen
      rintro ⟨hfour, hcall⟩
      rcases hcond with htwelve | hshort | ⟨hone, htwo⟩
      · omega
      · omega
      · exact hcall.elim hone htwo

/-- The header written and read, and the body behind it. -/
theorem exists_handedOver (body : List Byte) (h : body.length ≤ socketPackSize.toNat) :
    ∃ b, HandedOver b body := by
  rw [BaseSocket.toNat_socketPackSize] at h
  have hcount : (UInt32.ofNat (sendBlock 0 body).length).toNat = (sendBlock 0 body).length := by
    rw [length_sendBlock, UInt32.toNat_ofNat', Nat.mod_eq_of_lt]
    omega
  obtain ⟨b, -, happ⟩ := Buffer.empty.write_spec hcount.le (by
    rw [hcount, length_sendBlock, Buffer.writeLimit]
    change 0 + _ < _
    omega)
  have hcontents : b.contents = sendBlock 0 body := by
    rw [happ.contents_eq, hcount, List.take_length]
    rfl
  have hunread : b.unread = sendBlock 0 body := by
    rw [happ.unread_eq, hcount, List.take_length]
    rfl
  have height : (8 : UInt32).toNat ≤ b.unread.length := by
    rw [hunread, length_sendBlock]
    exact Nat.le_add_right _ _
  obtain ⟨b', -, hcontents', hunread'⟩ := b.read_spec height
  refine ⟨b', ⟨_, MessageHeader.length_toMem _, ?_, hcontents'.trans hcontents⟩, ?_, ?_⟩
  · rw [MessageHeader.announced_toMem_h2n, UInt32.toNat_ofNat', Nat.mod_eq_of_lt]
    omega
  · rw [hunread', hunread]
    exact List.drop_left' rfl
  · rwa [BaseSocket.toNat_socketPackSize]

/-- A two-way request of type `3` with the index `7` and one byte. -/
def sampleRequest : List Byte := le32 twowayType ++ le32 3 ++ le32 7 ++ [65]

theorem handledAlways_sampleRequest : ∃ b, HandledAlways b sampleRequest := by
  obtain ⟨b, hb⟩ := exists_handedOver sampleRequest (by decide)
  refine ⟨b, (handledAlways_iff hb ?_).mpr (Or.inl (by decide))⟩
  rintro ⟨-, heq⟩
  exact absurd heq (by decide)

/-- The four bytes of `M_ONEWAY_TYPE` alone reach the handler, with a message type of zero. -/
theorem short_call_is_dealt :
    ∃ b, HandedOver b (le32 onewayType) ∧ ¬ IsKeepalive (le32 onewayType) ∧
      ¬ HandledAlways b (le32 onewayType) := by
  obtain ⟨b, hb⟩ := exists_handedOver (le32 onewayType) (by decide)
  have hid : ¬ IsKeepalive (le32 onewayType) := by
    rintro ⟨-, heq⟩
    exact absurd heq (by decide)
  exact ⟨b, hb, hid, not_handledAlways hb hid (by decide) le_rfl (Or.inl (by decide))⟩

end ScServer

end Slience
