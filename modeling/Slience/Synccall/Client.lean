import Slience.Netio.SyncStream
import Slience.Synccall.Server

/-!
# The client of synchronous calls

`ScClient` fills a request, sends it and reads one reply, whose third word has to be
the index of the request.
-/

namespace Slience

structure ScClient where
  packidx : UInt32
  request : Buffer
  socket : Option SyncConnector

namespace ScClient

/-- `ScClient::ScClient` -/
def init : ScClient where
  packidx := 0
  request := .empty
  socket := none

/-- `ScClient::IsConnected` -/
def isConnected (c : ScClient) : Bool :=
  match c.socket with
  | none => false
  | some s => s.flag == .start

/-- `ScClient::Close` -/
def close (c : ScClient) : ScClient := { c with socket := none }

/-- `ScClient::_Reconnect` -/
def reconnect (connected endpoints : Bool) (c : ScClient) : Bool × ScClient :=
  let (ok, s) := SyncConnector.init.connect connected endpoints
  if ok then (true, { c with socket := some s }) else (false, c.close)

/-- `BaseScClient::_FillRequest` -/
def fillRequest (c : ScClient) (way msgType : UInt32) (msg : List Byte) (len : UInt32) :
    Option ScClient := do
  let packidx := c.packidx + 1
  let request ← c.request.clear.writeWord way
  let request ← request.writeWord msgType
  let request ← request.writeWord packidx
  let request ← request.write msg len
  return { c with packidx := packidx, request := request }

/-- `BaseScClient::_CheckReply` on a buffer -/
def checkReply (packidx : UInt32) (reply : Buffer) : Option (Bool × Buffer) := do
  let (_, reply) ← reply.readWord 0
  let (_, reply) ← reply.readWord 0
  let (idx, reply) ← reply.readWord 0
  return (idx == packidx, reply)

theorem fillRequest_spec {c c' : ScClient} {way msgType : UInt32} {msg : List Byte}
    {len : UInt32} (h : c.fillRequest way msgType msg len = some c') :
    c'.socket = c.socket ∧
      c'.request.unread = callHead way msgType c'.packidx ++ msg.take len.toNat := by
  unfold fillRequest at h
  obtain ⟨r₁, hr₁, h⟩ := Option.bind_eq_some_iff.mp h
  obtain ⟨r₂, hr₂, h⟩ := Option.bind_eq_some_iff.mp h
  obtain ⟨r₃, hr₃, h⟩ := Option.bind_eq_some_iff.mp h
  obtain ⟨r₄, hr₄, h⟩ := Option.bind_eq_some_iff.mp h
  cases h
  refine ⟨rfl, ?_⟩
  change r₄.unread = _
  rw [(Buffer.appended_of_write hr₄).1.unread_eq, (Buffer.appended_of_writeWord hr₃).unread_eq,
    (Buffer.appended_of_writeWord hr₂).unread_eq, (Buffer.appended_of_writeWord hr₁).unread_eq,
    Buffer.unread_clear, callHead, List.nil_append, List.append_assoc (le32 way)]

theorem packidx_fillRequest {c c' : ScClient} {way msgType : UInt32} {msg : List Byte}
    {len : UInt32} (h : c.fillRequest way msgType msg len = some c') :
    c'.packidx = c.packidx + 1 := by
  unfold fillRequest at h
  obtain ⟨r₁, -, h⟩ := Option.bind_eq_some_iff.mp h
  obtain ⟨r₂, -, h⟩ := Option.bind_eq_some_iff.mp h
  obtain ⟨r₃, -, h⟩ := Option.bind_eq_some_iff.mp h
  obtain ⟨r₄, -, h⟩ := Option.bind_eq_some_iff.mp h
  cases h
  rfl

theorem checkReply_spec {packidx way msgType idx : UInt32} {reply : Buffer}
    {bytes : List Byte} (h : reply.unread = callHead way msgType idx ++ bytes) :
    ∃ b, checkReply packidx reply = some (idx == packidx, b) ∧ b.unread = bytes := by
  have hhead : reply.unread = le32 way ++ (le32 msgType ++ (le32 idx ++ bytes)) := by
    rw [h, callHead, List.append_assoc, List.append_assoc]
  obtain ⟨b₁, hread₁, hunread₁, -⟩ := Buffer.readWord_spec 0 hhead
  obtain ⟨b₂, hread₂, hunread₂, -⟩ := Buffer.readWord_spec 0 hunread₁
  obtain ⟨b₃, hread₃, hunread₃, -⟩ := Buffer.readWord_spec 0 hunread₂
  refine ⟨b₃, ?_, hunread₃⟩
  simp only [checkReply, hread₁, hread₂, hread₃, Option.bind_eq_bind, Option.bind_some]
  rfl

end ScClient

/-! ## Reading one reply -/

namespace SyncConnector

/-- The connector has used the first `m` bytes of `block`, the only bytes there are.  If
it lost some of them, it has kept the header. -/
def Reads (r : FrameReader) (block : List Byte) (m : ℕ) : Prop :=
  ∃ got lost, Got r got ∧ got.length + lost = m ∧ m ≤ block.length ∧
    (lost = 0 → got = block.take m) ∧
    (lost ≠ 0 → 8 ≤ got.length ∧ got.take 8 = block.take 8)

theorem reads_nil {r : FrameReader} (h : r.InHeader []) (block : List Byte) :
    Reads r block 0 :=
  ⟨[], 0, Or.inl h, rfl, Nat.zero_le _, fun _ ↦ rfl, fun hne ↦ absurd rfl hne⟩

section Chunk

variable {block c : List Byte} {m : ℕ}

theorem take_append_chunk (hc : c <+: block.drop m) :
    block.take m ++ c = block.take (m + c.length) := by
  rw [List.take_add, ← List.prefix_iff_eq_take.mp hc]

theorem chunk_length_le (hm : m ≤ block.length) (hc : c <+: block.drop m) :
    m + c.length ≤ block.length := by
  have hle := hc.length_le
  rw [List.length_drop] at hle
  omega

theorem Reads.kept {r : FrameReader} {res : CutResult} (h : Reads r block m)
    (hc : c <+: block.drop m) (hreply : res.reply = false)
    (houtcome : ∀ got, Got r got → CutOutcome got (got ++ c) res) :
    Reads res.frame block (m + c.length) := by
  obtain ⟨got, lost, hgot, hlen, hm, htake, hhead⟩ := h
  have hle := chunk_length_le hm hc
  cases houtcome got hgot with
  | frame htrue => simp [hreply] at htrue
  | kept _ hgot' =>
      refine ⟨got ++ c, lost, hgot', ?_, hle, ?_, ?_⟩
      · rw [List.length_append]
        omega
      · intro hlost
        rw [htake hlost, take_append_chunk hc]
      · intro hlost
        obtain ⟨hfull, heq⟩ := hhead hlost
        rw [List.take_append_of_le_length hfull, List.length_append]
        exact ⟨by omega, heq⟩
  | lost _ hdr dropped bytes_eq length_eq hgot' length_lt =>
      have hlost : lost = 0 := by
        by_contra hne
        have hfull := (hhead hne).1
        omega
      subst hlost
      have hbytes : block.take (m + c.length) = hdr ++ dropped := by
        rw [← take_append_chunk hc, ← htake rfl, bytes_eq]
      have htotal := congrArg List.length bytes_eq
      rw [List.length_append, List.length_append] at htotal
      refine ⟨hdr, dropped.length, hgot', by omega, hle, ?_, ?_⟩
      · intro hnil
        rw [hbytes, List.eq_nil_of_length_eq_zero hnil, List.append_nil]
      · intro _
        refine ⟨length_eq.ge, ?_⟩
        have htake8 : block.take 8 = (block.take (m + c.length)).take 8 := by
          rw [List.take_take, Nat.min_eq_left (by omega)]
        rw [htake8, hbytes, List.take_of_length_le length_eq.le, ← length_eq, List.take_left]

theorem Reads.completed {r : FrameReader} {res : CutResult} {timestamp : Int32}
    {data : List Byte} (h : Reads r (sendBlock timestamp data) m)
    (hdata : data.length < 2 ^ 32)
    (hc : c <+: (sendBlock timestamp data).drop m) (hreply : res.reply = true)
    (houtcome : ∀ got, Got r got → CutOutcome got (got ++ c) res) :
    m + c.length = (sendBlock timestamp data).length ∧
      res.frame.msgbuffer.unread = data ∧ res.frame.curheader.size = 0 ∧
      res.tranByte.toNat = 0 := by
  obtain ⟨got, lost, hgot, hlen, hm, htake, hhead⟩ := h
  have hle := chunk_length_le hm hc
  have hblock := length_sendBlock timestamp data
  cases houtcome got hgot with
  | kept hfalse => simp [hreply] at hfalse
  | lost hfalse => simp [hreply] at hfalse
  | frame _ hdr body surplus bytes_eq length_eq announced_eq unread_eq size_eq tranByte_eq =>
      have htotal := congrArg List.length bytes_eq
      simp only [List.length_append] at htotal
      have hmem : (sendBlock timestamp data).take 8 =
          (MessageHeader.mk timestamp (UInt32.ofNat data.length)).h2n.toMem := by
        rw [sendBlock]
        exact List.take_left' rfl
      have hsize : announced ((sendBlock timestamp data).take 8) = data.length := by
        rw [hmem, MessageHeader.announced_toMem_h2n, UInt32.toNat_ofNat', Nat.mod_eq_of_lt hdata]
      have hhdr : hdr = (sendBlock timestamp data).take 8 := by
        have hfront : (got ++ c).take 8 = hdr := by
          rw [bytes_eq, ← length_eq, List.take_left]
        by_cases hlost : lost = 0
        · rw [← hfront, htake hlost, take_append_chunk hc, List.take_take,
            Nat.min_eq_left (by omega)]
        · obtain ⟨hfull, heq⟩ := hhead hlost
          rw [← hfront, List.take_append_of_le_length hfull, heq]
      rw [hhdr, hsize] at announced_eq
      have hlost : lost = 0 := by omega
      have hsurplus : surplus = [] := List.eq_nil_of_length_eq_zero (by omega)
      have hall : got ++ c = sendBlock timestamp data := by
        rw [htake hlost, take_append_chunk hc, List.take_of_length_le (by omega)]
      refine ⟨by omega, ?_, size_eq, by rw [tranByte_eq, hsurplus]; rfl⟩
      rw [hall, hsurplus, List.append_nil, hhdr, hmem, sendBlock] at bytes_eq
      rw [unread_eq, List.append_cancel_left bytes_eq]

end Chunk

end SyncConnector

end Slience
