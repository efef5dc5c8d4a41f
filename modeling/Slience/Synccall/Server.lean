import Slience.Netio.SendQueue

/-!
# The server of synchronous calls

`ScServer::OnReceiveData` on an accepted socket reads three words, the kind of the
call, the type of its message and the index of the packet, hands the rest to the
handler and sends the three words back with what the handler appended to them.
-/

namespace Slience

/-- `M_ONEWAY_TYPE` -/
def onewayType : UInt32 := 666

/-- `M_TWOWAY_TYPE` -/
def twowayType : UInt32 := 999

/-- `M_KEEPALIVE_ID` -/
def keepaliveId : UInt32 := 1

/-- `M_KEEPALIVE_ACK_ID` -/
def keepaliveAckId : UInt32 := 2

/-- The three words in front of a request and of a reply. -/
def callHead (way msgType packidx : UInt32) : List Byte :=
  le32 way ++ (le32 msgType ++ le32 packidx)

/-- `IServerHandler`, with a state of its own.  It may do what it likes with the request;
to the reply it appends. -/
structure IServerHandler (τ : Type) where
  onOneWayDealer : τ → Int32 → Buffer → τ × Buffer
  onTwoWayDealer : τ → Int32 → Buffer → Buffer → τ × Buffer × Buffer
  appends : ∀ t msgType request (reply : Buffer),
    ∃ bytes, reply.Appended bytes (onTwoWayDealer t msgType request reply).2.2

/-- A call of `OnTwoWayDealer`: the connection and the number of the message on it, and
what the handler was given and appended. -/
structure Dealt where
  tag : ℕ × ℕ
  msgType : Int32
  msg : List Byte
  appended : List Byte
  deriving DecidableEq

namespace ScServer

/-- What `OnReceiveData` works on: the sending side of the socket, the buffer of its
`_ScInfo_`, the number of messages received on it, the handler, and the calls of
`OnTwoWayDealer` made on all sockets. -/
structure World (τ : Type) where
  link : Link
  buffer : Buffer
  received : ℕ
  handler : τ
  dealt : List Dealt

variable {τ : Type} (H : IServerHandler τ)

/-- `clisock->Send(buffer.Data(), buffer.Length())` -/
def World.send (w : World τ) (timestamp : Int32) (b : Buffer) : Option (World τ) :=
  match w.link.step (.send timestamp b.unread b.length) with
  | none => none
  | some link => some { w with link := link }

/-- The part of `OnReceiveData` behind the words of the head, which are in `reply`. -/
def deal (conn : ℕ) (timestamp : Int32) (w : World τ) (way msgType : UInt32)
    (request reply : Buffer) : Option (World τ × Buffer) :=
  if way = onewayType then
    let (t, request') := H.onOneWayDealer w.handler msgType.toInt32 request
    match World.send { w with handler := t, buffer := reply } timestamp reply with
    | none => none
    | some w => some (w, request')
  else if way = twowayType then
    let (t, request', reply') := H.onTwoWayDealer w.handler msgType.toInt32 request reply
    let call : Dealt :=
      { tag := (conn, w.received)
        msgType := msgType.toInt32
        msg := request.unread
        appended := reply'.unread.drop reply.unread.length }
    match World.send { w with handler := t, buffer := reply', dealt := w.dealt ++ [call] }
      timestamp reply' with
    | none => none
    | some w => some (w, request')
  else some ({ w with buffer := reply }, request)

/-- `ScServer::OnReceiveData(TcpSocketPtr&, Buffer&)` -/
def onReceiveData (conn : ℕ) (timestamp : Int32) (w : World τ) (buffer : Buffer) :
    Option (World τ × Buffer) := do
  let (msgid, b) ← buffer.readWord 0
  if msgid = keepaliveId then
    let b ← b.clear.writeWord keepaliveAckId
    let w ← w.send timestamp b
    return ({ w with received := w.received + 1 }, b)
  else
    let (way, b) ← (b.cutData (-4)).readWord 0
    let (msgType, b) ← b.readWord 0
    let (packidx, b) ← b.readWord 0
    let reply ← w.buffer.clear.writeWord way
    let reply ← reply.writeWord msgType
    let reply ← reply.writeWord packidx
    let (w, b) ← deal H conn timestamp w way msgType b reply
    return ({ w with received := w.received + 1 }, b)

/-- The callback as `_CutMsgPack` makes it; an access outside of memory stops the
server. -/
def callback (conn : ℕ) (timestamp : Int32) :
    Option (World τ) → Buffer → Option (World τ) × Buffer
  | none, b => (none, b)
  | some w, b =>
      match onReceiveData H conn timestamp w b with
      | none => (none, b)
      | some (w, b) => (some w, b)

variable {H}

/-! ## What a message does -/

/-- The record of the handler's calls grew by at most the call for this message. -/
def Recorded (conn : ℕ) (w w' : World τ) : Prop :=
  w'.dealt = w.dealt ∨ ∃ d : Dealt, w'.dealt = w.dealt ++ [d] ∧ d.tag = (conn, w.received)

theorem World.send_eq_some {w w' : World τ} {timestamp : Int32} {b : Buffer}
    (h : w.send timestamp b = some w') :
    ∃ link, w.link.step (.send timestamp b.unread b.length) = some link ∧
      w' = { w with link := link } := by
  unfold send at h
  split at h
  · cases h
  · rename_i link hstep
    cases h
    exact ⟨link, hstep, rfl⟩

theorem deal_recorded {conn : ℕ} {timestamp : Int32} {w : World τ} {way msgType : UInt32}
    {request reply : Buffer} {res : World τ × Buffer}
    (h : deal H conn timestamp w way msgType request reply = some res) :
    res.1.received = w.received ∧ Recorded conn w res.1 := by
  unfold deal at h
  dsimp only at h
  split_ifs at h
  · split at h
    · cases h
    · rename_i hsend
      cases h
      obtain ⟨link, -, rfl⟩ := World.send_eq_some hsend
      exact ⟨rfl, Or.inl rfl⟩
  · split at h
    · cases h
    · rename_i hsend
      cases h
      obtain ⟨link, -, rfl⟩ := World.send_eq_some hsend
      exact ⟨rfl, Or.inr ⟨_, rfl, rfl⟩⟩
  · cases h
    exact ⟨rfl, Or.inl rfl⟩

theorem onReceiveData_recorded {conn : ℕ} {timestamp : Int32} {w w' : World τ}
    {buffer b : Buffer} (h : onReceiveData H conn timestamp w buffer = some (w', b)) :
    w'.received = w.received + 1 ∧ Recorded conn w w' := by
  unfold onReceiveData at h
  obtain ⟨⟨msgid, b₀⟩, -, h⟩ := Option.bind_eq_some_iff.mp h
  dsimp only at h
  split_ifs at h
  · obtain ⟨b₁, -, h⟩ := Option.bind_eq_some_iff.mp h
    obtain ⟨w₁, hsend, h⟩ := Option.bind_eq_some_iff.mp h
    cases h
    obtain ⟨link, -, rfl⟩ := World.send_eq_some hsend
    exact ⟨rfl, Or.inl rfl⟩
  · obtain ⟨⟨way, b₁⟩, -, h⟩ := Option.bind_eq_some_iff.mp h
    obtain ⟨⟨msgType, b₂⟩, -, h⟩ := Option.bind_eq_some_iff.mp h
    obtain ⟨⟨packidx, b₃⟩, -, h⟩ := Option.bind_eq_some_iff.mp h
    obtain ⟨reply₁, -, h⟩ := Option.bind_eq_some_iff.mp h
    obtain ⟨reply₂, -, h⟩ := Option.bind_eq_some_iff.mp h
    obtain ⟨reply₃, -, h⟩ := Option.bind_eq_some_iff.mp h
    obtain ⟨⟨w₁, b₄⟩, hdeal, h⟩ := Option.bind_eq_some_iff.mp h
    cases h
    obtain ⟨hreceived, hrecorded⟩ := deal_recorded hdeal
    exact ⟨congrArg (· + 1) hreceived, hrecorded⟩

/-- The reply to a request with this head and message was queued, with what the handler
appended for it. -/
def Replied (conn : ℕ) (timestamp : Int32) (way msgType packidx : UInt32) (msg : List Byte)
    (w w' : World τ) : Prop :=
  w'.link.accepted = w.link.accepted ∨
    ∃ appended, w'.link.accepted =
        w.link.accepted ++ [sendBlock timestamp (callHead way msgType packidx ++ appended)] ∧
      (callHead way msgType packidx ++ appended).length < 2 ^ 32 ∧
      (way = twowayType → ⟨(conn, w.received), msgType.toInt32, msg, appended⟩ ∈ w'.dealt)

theorem World.send_replied {w w' : World τ} {timestamp : Int32} {b : Buffer}
    (h : w.send timestamp b = some w') (hinv : w.link.Inv) :
    w'.link.Inv ∧ w'.dealt = w.dealt ∧
      (w'.link.accepted = w.link.accepted ∨
        w'.link.accepted = w.link.accepted ++ [sendBlock timestamp b.unread]) ∧
      b.unread.length < 2 ^ 32 := by
  obtain ⟨link, hstep, rfl⟩ := World.send_eq_some h
  have hlen : b.length.toNat ≤ b.unread.length := le_of_eq b.toNat_length
  obtain ⟨link', hstep', hstepped⟩ := Link.step_send hinv timestamp hlen
  rw [hstep] at hstep'
  cases hstep'
  have haccepted := Link.accepted_step_send hstep
  rw [b.toNat_length, List.take_length] at haccepted
  refine ⟨hstepped.inv, rfl, haccepted, ?_⟩
  rw [← b.toNat_length]
  exact b.length.toNat_lt

theorem deal_replied {conn : ℕ} {timestamp : Int32} {w : World τ}
    {way msgType packidx : UInt32} {request reply : Buffer} {res : World τ × Buffer}
    (hinv : w.link.Inv) (hway : way = onewayType ∨ way = twowayType)
    (hreply : reply.unread = callHead way msgType packidx)
    (h : deal H conn timestamp w way msgType request reply = some res) :
    res.1.link.Inv ∧
      Replied conn timestamp way msgType packidx request.unread w res.1 := by
  unfold deal at h
  dsimp only at h
  split_ifs at h with hone htwo
  · split at h
    · cases h
    · rename_i hsend
      cases h
      obtain ⟨hinv', -, haccepted, hlen⟩ := World.send_replied hsend hinv
      refine ⟨hinv', haccepted.imp id fun haccepted ↦ ⟨[], ?_, ?_, ?_⟩⟩
      · rw [List.append_nil, ← hreply]
        exact haccepted
      · rwa [List.append_nil, ← hreply]
      · intro htwo
        rw [hone] at htwo
        exact absurd htwo (by decide)
  · split at h
    · cases h
    · rename_i hsend
      cases h
      obtain ⟨bytes, hbytes⟩ := H.appends w.handler msgType.toInt32 request reply
      obtain ⟨hinv', hdealt, haccepted, hlen⟩ := World.send_replied hsend hinv
      have hunread := hbytes.unread_eq
      rw [hreply] at hunread
      rw [hunread] at haccepted hlen
      refine ⟨hinv', haccepted.imp id fun haccepted ↦ ⟨bytes, haccepted, hlen, fun _ ↦ ?_⟩⟩
      rw [hdealt, hunread, hreply, List.drop_left]
      simp
  · exact absurd hway (by simp [hone, htwo])

/-- The head of a call is read, and copied in front of the reply. -/
theorem onReceiveData_call {way msgType packidx : UInt32} {msg : List Byte} {buffer : Buffer}
    (hway : way ≠ keepaliveId) (hbuffer : buffer.unread = callHead way msgType packidx ++ msg)
    (conn : ℕ) (timestamp : Int32) (w : World τ) :
    ∃ body : Buffer, body.unread = msg ∧ onReceiveData H conn timestamp w buffer =
      (w.buffer.clear.writeWord way).bind fun reply₁ ↦
        (reply₁.writeWord msgType).bind fun reply₂ ↦
          (reply₂.writeWord packidx).bind fun reply ↦
            (deal H conn timestamp w way msgType body reply).bind fun p ↦
              some ({ p.1 with received := p.1.received + 1 }, p.2) := by
  have hhead : buffer.unread = le32 way ++ (le32 msgType ++ (le32 packidx ++ msg)) := by
    rw [hbuffer, callHead, List.append_assoc, List.append_assoc]
  obtain ⟨b₀, hread₀, -, -⟩ := Buffer.readWord_spec 0 hhead
  have hback : (b₀.cutData (-4)).unread = _ := (Buffer.unread_cutData_readWord (by
    rw [hhead, List.length_append, length_le32]
    omega) hread₀).trans hhead
  obtain ⟨b₁, hread₁, hunread₁, -⟩ := Buffer.readWord_spec 0 hback
  obtain ⟨b₂, hread₂, hunread₂, -⟩ := Buffer.readWord_spec 0 hunread₁
  obtain ⟨b₃, hread₃, hunread₃, -⟩ := Buffer.readWord_spec 0 hunread₂
  refine ⟨b₃, hunread₃, ?_⟩
  simp only [onReceiveData, hread₀, hread₁, hread₂, hread₃, Option.bind_eq_bind,
    Option.bind_some, if_neg hway]
  rfl

theorem onReceiveData_replied {conn : ℕ} {timestamp : Int32} {w w' : World τ}
    {buffer b : Buffer} {way msgType packidx : UInt32} {msg : List Byte}
    (hinv : w.link.Inv) (hway : way = onewayType ∨ way = twowayType)
    (hbuffer : buffer.unread = callHead way msgType packidx ++ msg)
    (h : onReceiveData H conn timestamp w buffer = some (w', b)) :
    w'.link.Inv ∧ Replied conn timestamp way msgType packidx msg w w' := by
  have hid : way ≠ keepaliveId := by
    rcases hway with rfl | rfl <;> decide
  obtain ⟨body, hbody, hcall⟩ := onReceiveData_call hid hbuffer conn timestamp w
  rw [hcall] at h
  obtain ⟨reply₁, hwrite₁, h⟩ := Option.bind_eq_some_iff.mp h
  obtain ⟨reply₂, hwrite₂, h⟩ := Option.bind_eq_some_iff.mp h
  obtain ⟨reply₃, hwrite₃, h⟩ := Option.bind_eq_some_iff.mp h
  obtain ⟨⟨w₁, b₄⟩, hdeal, h⟩ := Option.bind_eq_some_iff.mp h
  cases h
  have hreply : reply₃.unread = callHead way msgType packidx := by
    rw [(Buffer.appended_of_writeWord hwrite₃).unread_eq,
      (Buffer.appended_of_writeWord hwrite₂).unread_eq,
      (Buffer.appended_of_writeWord hwrite₁).unread_eq, Buffer.unread_clear, callHead,
      List.nil_append, List.append_assoc]
  have hreplied := deal_replied hinv hway hreply hdeal
  rwa [hbody] at hreplied

end ScServer

end Slience
