import Slience.Synccall.CoClient

/-!
# What the server does with a request

`ScServer` calls one of the two functions of its handler for each request it can read.  The
handler here keeps a list of these calls: the bodies of the requests decide what is in it.
-/

namespace Slience

/-- A call of a function of the handler. -/
inductive Dealing
  | oneWay (msgType : Int32) (msg : List Byte)
  | twoWay (msgType : Int32) (msg : List Byte)
  deriving DecidableEq

namespace Call

/-- The call of the handler that a call of `SyncCall` is meant to lead to. -/
def dealing (c : Call) : Dealing :=
  if c.twoWay then .twoWay c.msgType (c.msg.take c.len.toNat)
  else .oneWay c.msgType (c.msg.take c.len.toNat)

/-- The request fits what `SyncConnector::Send` accepts. -/
def Small (c : Call) : Prop := 12 + c.len.toNat ≤ SyncConnector.packLimit.toNat

instance (c : Call) : Decidable c.Small := inferInstanceAs (Decidable (_ ≤ _))

/-- The same call with a reply. -/
def withReply (c : Call) : Call := { c with twoWay := true }

end Call

namespace ScServer

/-- A handler that keeps a list of what it was called with. -/
def recorder : IServerHandler (List Dealing) where
  onOneWayDealer t msgType request := (t ++ [.oneWay msgType request.unread], request)
  onTwoWayDealer t msgType request reply :=
    (t ++ [.twoWay msgType request.unread], request, reply)
  appends _ _ _ reply := ⟨[], by simp, rfl⟩

/-- An accepted socket on which nothing has been received. -/
def World.accepted {τ : Type} (t : τ) : World τ where
  link := .connected
  buffer := .empty
  received := 0
  handler := t
  dealt := []

/-- `OnReceiveData` for one message after the other, each with the time of its reply. -/
def receiveAll {τ : Type} (H : IServerHandler τ) (conn : ℕ) (w : World τ) :
    List (Int32 × Buffer) → Option (World τ)
  | [] => some w
  | (timestamp, b) :: ms =>
      match onReceiveData H conn timestamp w b with
      | none => none
      | some (w, _) => receiveAll H conn w ms

/-- Given these bodies, the server calls its handler as `dealings` says. -/
def Deals (bodies : List (List Byte)) (dealings : List Dealing) : Prop :=
  ∀ conn, ∀ ms : List (Int32 × Buffer), ms.map (fun m ↦ m.2.unread) = bodies →
    ∃ w, receiveAll recorder conn (.accepted []) ms = some w ∧ w.handler = dealings

theorem World.exists_send {τ : Type} {w : World τ} (h : w.link.Inv) (timestamp : Int32)
    (b : Buffer) : ∃ w', w.send timestamp b = some w' ∧ w'.link.Inv ∧ w'.handler = w.handler := by
  have hlen : b.length.toNat ≤ b.unread.length := b.toNat_length.le
  obtain ⟨link, hstep, hstepped⟩ := Link.step_send h timestamp hlen
  refine ⟨{ w with link := link }, ?_, hstepped.inv, rfl⟩
  rw [World.send, hstep]

theorem exists_writeHead (b : Buffer) (way msgType packidx : UInt32) :
    ∃ b₁ b₂ b₃, b.clear.writeWord way = some b₁ ∧ b₁.writeWord msgType = some b₂ ∧
      b₂.writeWord packidx = some b₃ := by
  have hword : ∀ (b : Buffer) (x : UInt32), b.contents.length ≤ 8 →
      ∃ b', b.writeWord x = some b' ∧ b.Appended (le32 x) b' := by
    intro b x hlen
    rw [Buffer.length_contents] at hlen
    have hfour : (4 : UInt32).toNat ≤ (le32 x).length := le_rfl
    have hroom : b.pos.toNat + (4 : UInt32).toNat < Buffer.writeLimit := by
      rw [Buffer.writeLimit]
      change _ + 4 < _
      omega
    exact b.write_spec hfour hroom
  obtain ⟨b₁, hb₁, happ₁⟩ := hword b.clear way (by simp)
  obtain ⟨b₂, hb₂, happ₂⟩ := hword b₁ msgType (by
    rw [happ₁.contents_eq]
    simp [length_le32])
  obtain ⟨b₃, hb₃, -⟩ := hword b₂ packidx (by
    rw [happ₂.contents_eq, happ₁.contents_eq]
    simp [length_le32])
  exact ⟨b₁, b₂, b₃, hb₁, hb₂, hb₃⟩

/-- A one-way request goes to `OnOneWayDealer`, a two-way one to `OnTwoWayDealer`. -/
theorem onReceiveData_request {conn : ℕ} {timestamp : Int32} {w : World (List Dealing)}
    {buffer : Buffer} {call : Call} {packidx : UInt32} (hinv : w.link.Inv)
    (hbuffer : buffer.unread = call.request packidx) :
    ∃ w' b, onReceiveData recorder conn timestamp w buffer = some (w', b) ∧ w'.link.Inv ∧
      w'.handler = w.handler ++ [call.dealing] := by
  have hid : call.way ≠ keepaliveId := by
    unfold Call.way
    split <;> decide
  obtain ⟨body, hbody, hcall⟩ :=
    onReceiveData_call (H := recorder) hid hbuffer conn timestamp w
  obtain ⟨r₁, r₂, r₃, hr₁, hr₂, hr₃⟩ :=
    exists_writeHead w.buffer call.way call.msgType.toUInt32 packidx
  have htype : call.msgType.toUInt32.toInt32 = call.msgType := Int32.toInt32_toUInt32 _
  have hdeal : ∃ w' b, deal recorder conn timestamp w call.way call.msgType.toUInt32 body r₃ =
      some (w', b) ∧ w'.link.Inv ∧ w'.handler = w.handler ++ [call.dealing] := by
    unfold deal Call.way Call.dealing
    cases call.twoWay with
    | true =>
        obtain ⟨w', hsend, hinv', hhandler⟩ := World.exists_send
          (w := { w with
            handler := w.handler ++ [.twoWay call.msgType.toUInt32.toInt32 body.unread]
            buffer := r₃
            dealt := w.dealt ++ [⟨(conn, w.received), call.msgType.toUInt32.toInt32, body.unread,
              r₃.unread.drop r₃.unread.length⟩] }) hinv timestamp r₃
        rw [htype, hbody] at hsend hhandler
        refine ⟨w', body, ?_, hinv', hhandler⟩
        simp only [if_true, if_neg (show twowayType ≠ onewayType by decide), recorder, htype,
          hbody, hsend]
    | false =>
        obtain ⟨w', hsend, hinv', hhandler⟩ := World.exists_send
          (w := { w with
            handler := w.handler ++ [.oneWay call.msgType.toUInt32.toInt32 body.unread]
            buffer := r₃ }) hinv timestamp r₃
        rw [htype, hbody] at hsend hhandler
        refine ⟨w', body, ?_, hinv', hhandler⟩
        simp only [if_true, Bool.false_eq_true, if_false, recorder, htype, hbody, hsend]
  obtain ⟨w', b, hdeal, hinv', hhandler⟩ := hdeal
  refine ⟨{ w' with received := w'.received + 1 }, b, ?_, hinv', hhandler⟩
  rw [hcall, hr₁, Option.bind_some, hr₂, Option.bind_some, hr₃, Option.bind_some, hdeal,
    Option.bind_some]

theorem deals_requests {α : Type} (call : α → Call) (packidx : α → UInt32) (xs : List α) :
    Deals (xs.map fun x ↦ (call x).request (packidx x)) (xs.map fun x ↦ (call x).dealing) := by
  intro conn ms hms
  have hrun : ∀ (xs : List α) (ms : List (Int32 × Buffer)) (w : World (List Dealing)),
      w.link.Inv → ms.map (fun m ↦ m.2.unread) = xs.map (fun x ↦ (call x).request (packidx x)) →
      ∃ w', receiveAll recorder conn w ms = some w' ∧
        w'.handler = w.handler ++ xs.map fun x ↦ (call x).dealing := by
    intro xs
    induction xs with
    | nil =>
        intro ms w _ hms
        have hnil : ms = [] := List.map_eq_nil_iff.mp hms
        subst hnil
        exact ⟨w, rfl, by simp⟩
    | cons x xs ih =>
        intro ms w hinv hms
        cases ms with
        | nil => cases hms
        | cons m ms =>
            rw [List.map_cons, List.map_cons, List.cons.injEq] at hms
            obtain ⟨w₁, b, hreceive, hinv₁, hhandler₁⟩ :=
              @onReceiveData_request conn m.1 w _ _ _ hinv hms.1
            obtain ⟨w₂, hrest, hhandler₂⟩ := ih ms w₁ hinv₁ hms.2
            refine ⟨w₂, ?_, ?_⟩
            · rw [receiveAll, hreceive]
              exact hrest
            · rw [hhandler₂, hhandler₁, List.append_assoc, List.map_cons, List.singleton_append]
  obtain ⟨w, hreceive, hhandler⟩ := hrun xs ms (.accepted []) Link.inv_connected hms
  exact ⟨w, hreceive, hhandler⟩

theorem Deals.unique {bodies : List (List Byte)} {ds ds' : List Dealing}
    (hlen : ∀ body ∈ bodies, body.length ≤ socketPackSize.toNat) (h : Deals bodies ds)
    (h' : Deals bodies ds') : ds = ds' := by
  have hms : ∀ bodies : List (List Byte), (∀ body ∈ bodies, body.length ≤ socketPackSize.toNat) →
      ∃ ms : List (Int32 × Buffer), ms.map (fun m ↦ m.2.unread) = bodies := by
    intro bodies
    induction bodies with
    | nil => exact fun _ ↦ ⟨[], rfl⟩
    | cons body bodies ih =>
        intro hlen
        obtain ⟨ms, hms⟩ := ih (fun b hb ↦ hlen b (by simp [hb]))
        have hbody := hlen body (by simp)
        have hsize : socketPackSize.toNat = 409600 := rfl
        have hcount : (UInt32.ofNat body.length).toNat = body.length := by
          rw [UInt32.toNat_ofNat', Nat.mod_eq_of_lt]
          omega
        have hroom : Buffer.empty.pos.toNat + (UInt32.ofNat body.length).toNat <
            Buffer.writeLimit := by
          rw [hcount, Buffer.writeLimit]
          change 0 + _ < _
          omega
        obtain ⟨b, -, happ⟩ := Buffer.empty.write_spec hcount.le hroom
        refine ⟨(0, b) :: ms, ?_⟩
        rw [List.map_cons, hms, happ.unread_eq, hcount, List.take_length]
        rfl
  obtain ⟨ms, hms⟩ := hms bodies hlen
  obtain ⟨w, hw, hds⟩ := h 0 ms hms
  obtain ⟨w', hw', hds'⟩ := h' 0 ms hms
  rw [hw] at hw'
  cases hw'
  rw [← hds, ← hds']

end ScServer

end Slience
