import Slience.Netio.BaseSocket

/-!
# No byte lost between `Send` and the transport

The send queue of a connected socket under any interleaving of `Send`, `Close` and
write completions.  What the transport has taken, followed by what the two buffers
still hold, is what the accepted calls of `Send` were given; the socket is closed
once, when the queue is empty.
-/

namespace Slience

namespace BaseSocket

/-- The bytes accepted by `Send` that the transport has not taken. -/
def pending (s : BaseSocket) : List Byte :=
  s.writer.msgbuffer1.unread ++ s.writer.msgbuffer2.unread

/-- `msgbuffer2` is only appended to and stays below its bound, and exactly the unread
part of `msgbuffer1` is offered to the transport while a write is under way. -/
structure WriterOk (s : BaseSocket) : Prop where
  offset_eq : s.writer.msgbuffer2.offset = 0
  size_le : s.writer.msgbuffer2.pos.toNat ≤ maxBufferSize.toNat
  outstanding_eq : s.socket.outstanding =
    if s.writer.writing then [s.writer.msgbuffer1.unread] else []

/-- No write under way means that nothing is pending. -/
def Idle (s : BaseSocket) : Prop := s.writer.writing = false → s.pending = []

theorem pending_refill (w : WriterInfo) :
    (refill w).msgbuffer1.unread ++ (refill w).msgbuffer2.unread =
      w.msgbuffer1.unread ++ w.msgbuffer2.unread := by
  unfold refill
  split
  · rename_i hempty
    rw [Buffer.length_eq_zero_iff] at hempty
    rw [hempty]
    split <;> simp
  · rfl

theorem trySendData_spec {s : BaseSocket} (h : s.WriterOk) :
    (trySendData false s).2.WriterOk ∧ (trySendData false s).2.Idle ∧
      (trySendData false s).2.pending = s.pending ∧
      (trySendData false s).1 = (trySendData false s).2.writer.writing ∧
      (trySendData false s).2.flag = s.flag ∧
      (trySendData false s).2.socket.closes = s.socket.closes := by
  unfold trySendData
  cases hwriting : s.writer.writing with
  | true =>
      rw [if_pos rfl]
      exact ⟨h, by simp [Idle, hwriting], rfl, hwriting.symm, rfl, rfl⟩
  | false =>
      have hout : s.socket.outstanding = [] := by simpa [hwriting] using h.outstanding_eq
      have hrefill : (refill s.writer).writing = false := by
        unfold refill
        split <;> exact hwriting
      have hoff : (refill s.writer).msgbuffer2.offset = 0 := by
        unfold refill
        split
        · split <;> rfl
        · exact h.offset_eq
      have hsize : (refill s.writer).msgbuffer2.pos.toNat ≤ maxBufferSize.toNat := by
        unfold refill
        split
        · split <;> exact Nat.zero_le _
        · exact h.size_le
      simp only [Bool.false_eq_true, if_false]
      split_ifs with hlen
      · refine ⟨⟨hoff, hsize, ?_⟩, ?_, pending_refill s.writer, rfl, rfl, rfl⟩
        · simp [hout]
        · intro hfalse
          cases hfalse
      · have hzero : (refill s.writer).msgbuffer1.unread = [] := by
          rw [← Buffer.length_eq_zero_iff, ← UInt32.toNat_inj, UInt32.toNat_zero]
          rw [gt_iff_lt, UInt32.lt_iff_toNat_lt, UInt32.toNat_zero] at hlen
          omega
        refine ⟨⟨hoff, hsize, ?_⟩, ?_, pending_refill s.writer, hrefill.symm, rfl, rfl⟩
        · simp [hrefill, hout]
        · -- a refilled `msgbuffer1` that is empty had nothing to be refilled from
          intro _
          have hempty : s.writer.msgbuffer1.length = 0 ∧ s.writer.msgbuffer2.unread = [] := by
            unfold refill at hzero
            split at hzero
            · rename_i hm1
              exact ⟨hm1, hzero⟩
            · rename_i hm1
              rw [← Buffer.length_eq_zero_iff] at hzero
              exact absurd hzero hm1
          change (refill s.writer).msgbuffer1.unread ++ (refill s.writer).msgbuffer2.unread = []
          rw [pending_refill, hempty.2, (Buffer.length_eq_zero_iff _).mp hempty.1]
          rfl

theorem trySendData_of_writing {s : BaseSocket} (failed : Bool)
    (h : s.writer.writing = true) : trySendData failed s = (true, s) := by
  simp [trySendData, h]

theorem toNat_maxBufferSize : maxBufferSize.toNat = 3145728 := by decide

theorem toNat_socketPackSize : socketPackSize.toNat = 409600 := by decide

/-- The block was appended to the queue, and sending it was tried. -/
structure Queued (s : BaseSocket) (block : List Byte) (s' : BaseSocket) : Prop where
  writerOk : s'.WriterOk
  idle : s'.Idle
  pending_eq : s'.pending = s.pending ++ block
  flag_eq : s'.flag = s.flag
  closes_eq : s'.socket.closes = s.socket.closes
  busy : s.writer.writing = true →
    s'.writer.msgbuffer1 = s.writer.msgbuffer1 ∧ s'.socket = s.socket

theorem append_trySendData {s : BaseSocket} {m : Buffer} {block : List Byte}
    (h : s.WriterOk) (happ : s.writer.msgbuffer2.Appended block m)
    (hsize : m.pos.toNat ≤ maxBufferSize.toNat) :
    Queued s block
      (trySendData false { s with writer := { s.writer with msgbuffer2 := m } }).2 := by
  have hok : WriterOk { s with writer := { s.writer with msgbuffer2 := m } } :=
    ⟨happ.offset_eq.trans h.offset_eq, hsize, h.outstanding_eq⟩
  obtain ⟨hok', hidle, hpending, -, hflag, hcloses⟩ := trySendData_spec hok
  refine ⟨hok', hidle, ?_, hflag, hcloses, ?_⟩
  · rw [hpending]
    change s.writer.msgbuffer1.unread ++ m.unread = _
    rw [happ.unread_eq, ← List.append_assoc]
    rfl
  · intro hwriting
    have hkeep := trySendData_of_writing
      (s := { s with writer := { s.writer with msgbuffer2 := m } }) false hwriting
    rw [hkeep]
    exact ⟨rfl, rfl⟩

/-- `Send(data, len)` either refuses and changes nothing, or queues header and data. -/
theorem send_spec {s : BaseSocket} (h : s.WriterOk) (timestamp : Int32) {data : List Byte}
    {len : UInt32} (hlen : len.toNat ≤ data.length) :
    s.send false timestamp data len = some (false, s) ∨
      ∃ s', s.send false timestamp data len = some (true, s') ∧
        s.flag = .start ∧ Queued s (sendBlock timestamp (data.take len.toNat)) s' := by
  have hsize := h.size_le
  simp only [send, UInt32.toUInt32_toInt32]
  split_ifs with hzero hbig hflag hfull
  · exact Or.inl rfl
  · exact Or.inl rfl
  · exact Or.inl rfl
  · exact Or.inl rfl
  · right
    rw [gt_iff_lt, UInt32.not_lt, UInt32.le_iff_toNat_le, toNat_socketPackSize] at hbig
    rw [gt_iff_lt, UInt32.not_lt, UInt32.le_iff_toNat_le, UInt32.toNat_add,
      UInt32.toNat_add, toNat_maxBufferSize] at hfull
    rw [toNat_maxBufferSize] at hsize
    have hhdr : MessageHeader.hdrlen.toNat = 8 := rfl
    rw [hhdr] at hfull
    have hhdrlen : MessageHeader.hdrlen.toNat ≤
        (MessageHeader.mk timestamp len).h2n.toMem.length := le_of_eq rfl
    obtain ⟨m, hm, happ⟩ := s.writer.msgbuffer2.write_spec hhdrlen (by
      rw [Buffer.writeLimit, hhdr]
      omega)
    have hmpos : m.pos.toNat = s.writer.msgbuffer2.pos.toNat + 8 := by
      rw [← Buffer.length_contents, happ.contents_eq, List.length_append,
        Buffer.length_contents]
      rfl
    obtain ⟨m', hm', happ'⟩ := m.write_spec hlen (by
      rw [Buffer.writeLimit, hmpos]
      omega)
    have hmpos' : m'.pos.toNat ≤ maxBufferSize.toNat := by
      rw [← Buffer.length_contents, happ'.contents_eq, List.length_append,
        Buffer.length_contents, hmpos, List.length_take, toNat_maxBufferSize]
      omega
    have hblock : (MessageHeader.mk timestamp len).h2n.toMem.take MessageHeader.hdrlen.toNat ++
        data.take len.toNat = sendBlock timestamp (data.take len.toNat) := by
      have hlen' : UInt32.ofNat (data.take len.toNat).length = len := by
        rw [List.length_take, Nat.min_eq_left hlen, UInt32.ofNat_toNat]
      rw [sendBlock, hlen']
      rfl
    have hqueued := append_trySendData h (happ.trans happ') hmpos'
    rw [hblock] at hqueued
    simp only [hm, hm']
    exact ⟨_, rfl, not_not.mp hflag, hqueued⟩

/-- The sum that `Send(const Buffer*)` compares with the bound of the queue does not
wrap. -/
def NoWrap (s : BaseSocket) (b : Buffer) : Prop :=
  s.flag = .start → b.length ≠ 0 → s.writer.msgbuffer2.pos.toNat + b.pos.toNat < 2 ^ 32

theorem sendBuffer_spec {s : BaseSocket} (h : s.WriterOk) {b : Buffer} (hwrap : s.NoWrap b) :
    s.sendBuffer false (some b) = some (false, s) ∨
      ∃ s', s.sendBuffer false (some b) = some (true, s') ∧
        s.flag = .start ∧ Queued s b.contents s' := by
  have hsize := h.size_le
  simp only [sendBuffer, UInt32.toUInt32_toInt32]
  split_ifs with hzero hbig hflag hfull
  · exact Or.inl rfl
  · exact Or.inl rfl
  · exact Or.inl rfl
  · exact Or.inl rfl
  · right
    have hsum := hwrap (not_not.mp hflag) hzero
    rw [gt_iff_lt, UInt32.not_lt, UInt32.le_iff_toNat_le, UInt32.toNat_add,
      Nat.mod_eq_of_lt hsum, toNat_maxBufferSize] at hfull
    obtain ⟨m, hm, happ⟩ := s.writer.msgbuffer2.write_spec
      (show b.pos.toNat ≤ b.data.length by rw [b.data_length]; exact b.pos_le_size) (by
        rw [Buffer.writeLimit]
        omega)
    have hmpos : m.pos.toNat ≤ maxBufferSize.toNat := by
      rw [← Buffer.length_contents, happ.contents_eq, List.length_append,
        Buffer.length_contents, toNat_maxBufferSize]
      change _ + b.contents.length ≤ _
      rw [Buffer.length_contents]
      exact hfull
    have hqueued := append_trySendData h happ hmpos
    simp only [hm]
    exact ⟨_, rfl, not_not.mp hflag, hqueued⟩

theorem toInt_toInt32 (x : UInt32) :
    x.toInt32.toInt = if 2 * x.toNat < 2 ^ 32 then (x.toNat : ℤ) else x.toNat - 2 ^ 32 := by
  rw [← Int32.toInt_toBitVec, UInt32.toBitVec_toInt32, BitVec.toInt_eq_toNat_cond]
  rfl

/-- Where the sum wraps, the size has become a negative `int`, both checks pass, and the
copy leaves its block. -/
theorem sendBuffer_eq_none {s : BaseSocket} (h : s.WriterOk) {b : Buffer}
    (hwrap : ¬ s.NoWrap b) : s.sendBuffer false (some b) = none := by
  have hsize := h.size_le
  have hle := s.writer.msgbuffer2.pos_le_size
  have hcap := s.writer.msgbuffer2.size.toNat_lt
  have hb := b.pos.toNat_lt
  rw [toNat_maxBufferSize] at hsize
  unfold NoWrap at hwrap
  push Not at hwrap
  obtain ⟨hflag, hlen, hsum⟩ := hwrap
  have hbig : ¬ b.pos.toInt32 > socketPackSize.toInt32 := by
    rw [gt_iff_lt, Int32.lt_iff_toInt_lt, toInt_toInt32, toInt_toInt32, toNat_socketPackSize]
    rw [if_pos (by norm_num), if_neg (by omega)]
    omega
  have hadd : (s.writer.msgbuffer2.pos + b.pos).toNat =
      s.writer.msgbuffer2.pos.toNat + b.pos.toNat - 2 ^ 32 := by
    rw [UInt32.toNat_add]
    omega
  have hfull : ¬ s.writer.msgbuffer2.pos + b.pos > maxBufferSize := by
    rw [gt_iff_lt, UInt32.not_lt, UInt32.le_iff_toNat_le, hadd, toNat_maxBufferSize]
    omega
  have hkeep : s.writer.msgbuffer2.writeSize b.pos = s.writer.msgbuffer2.size := by
    rw [Buffer.writeSize, if_neg]
    rw [gt_iff_lt, UInt32.not_lt, UInt32.le_iff_toNat_le, hadd]
    omega
  have hwrite : s.writer.msgbuffer2.write b.data b.pos = none := by
    apply Buffer.write_eq_none
    rw [hkeep]
    omega
  simp only [sendBuffer, UInt32.toUInt32_toInt32, hlen, if_false, hbig, hflag, ne_eq,
    not_true_eq_false, hfull, hwrite]

/-- `_Close` closes an idle socket and stops a busy one; a second call does nothing. -/
theorem close_cases (s : BaseSocket) :
    (s.flag = .close ∧ s.close = s) ∨
      (s.flag ≠ .close ∧ s.writer.writing = true ∧ s.close = { s with flag := .stop }) ∨
      (s.flag ≠ .close ∧ s.writer.writing = false ∧
        s.close = { s with
          flag := .close
          socket := { s.socket with closes := s.socket.closes + 1 } }) := by
  unfold close
  split_ifs with hflag hwriting
  · exact Or.inl ⟨hflag, rfl⟩
  · exact Or.inr (Or.inl ⟨hflag, hwriting, rfl⟩)
  · exact Or.inr (Or.inr ⟨hflag, by simpa using hwriting, rfl⟩)

theorem close_spec {s : BaseSocket} (h : s.WriterOk) :
    s.close.WriterOk ∧ s.close.pending = s.pending ∧ s.close.writer = s.writer ∧
      s.close.flag ≠ .start := by
  obtain ⟨hflag, heq⟩ | ⟨-, -, heq⟩ | ⟨-, -, heq⟩ := close_cases s
  · rw [heq]
    exact ⟨h, rfl, rfl, by simp [hflag]⟩
  · rw [heq]
    exact ⟨⟨h.offset_eq, h.size_le, h.outstanding_eq⟩, rfl, rfl, by simp⟩
  · rw [heq]
    exact ⟨⟨h.offset_eq, h.size_le, h.outstanding_eq⟩, rfl, rfl, by simp⟩

/-- The close of `_socket` is called with the step to `E_STATE_CLOSE`, and no write is
under way then. -/
structure Closing (s : BaseSocket) : Prop where
  closes_eq : s.socket.closes = if s.flag = .close then 1 else 0
  writing_eq : s.flag = .close → s.writer.writing = false

theorem Closing.close {s : BaseSocket} (h : s.Closing) : s.close.Closing := by
  have hcloses := h.closes_eq
  obtain ⟨-, heq⟩ | ⟨hflag, -, heq⟩ | ⟨hflag, hwriting, heq⟩ := close_cases s
  · rwa [heq]
  · rw [heq]
    rw [if_neg hflag] at hcloses
    exact ⟨hcloses, by simp⟩
  · rw [heq]
    rw [if_neg hflag] at hcloses
    exact ⟨by simp [hcloses], fun _ ↦ hwriting⟩

/-- What `_WriteHandler` does after `_TrySendData`: a stopped socket with nothing left to
send is shut down and closed. -/
def shutIfDone (sent : Bool × BaseSocket) : BaseSocket :=
  if sent.1 = false ∧ sent.2.flag ≠ .start then
    { sent.2 with
      socket := { sent.2.socket with shutdowns := sent.2.socket.shutdowns + 1 } }.close
  else sent.2

theorem shutIfDone_spec {sent : Bool × BaseSocket} (h : sent.2.WriterOk) (hidle : sent.2.Idle)
    (hc : sent.2.Closing) (hwrote : sent.1 = sent.2.writer.writing) :
    (shutIfDone sent).WriterOk ∧ (shutIfDone sent).Idle ∧ (shutIfDone sent).Closing ∧
      (shutIfDone sent).pending = sent.2.pending ∧
      (sent.2.flag ≠ .start → (shutIfDone sent).flag ≠ .start) := by
  obtain ⟨wrote, s⟩ := sent
  unfold shutIfDone
  split_ifs with hdone
  · have hshut : WriterOk { s with
        socket := { s.socket with shutdowns := s.socket.shutdowns + 1 } } :=
      ⟨h.offset_eq, h.size_le, h.outstanding_eq⟩
    obtain ⟨hok, hpending, -, hflag⟩ := close_spec hshut
    have hclosing : Closing { s with
        socket := { s.socket with shutdowns := s.socket.shutdowns + 1 } } :=
      ⟨hc.closes_eq, hc.writing_eq⟩
    refine ⟨hok, ?_, hclosing.close, hpending, fun _ ↦ hflag⟩
    intro _
    rw [hpending]
    exact hidle (hwrote.symm.trans hdone.1)
  · exact ⟨h, hidle, hc, rfl, id⟩

/-- `_WriteHandler` after the transport took `tranByte` of the bytes of `msgbuffer1`. -/
theorem writeHandler_spec {s : BaseSocket} (h : s.WriterOk) (hc : s.Closing)
    (hwriting : s.writer.writing = true) {tranByte : UInt32} (hpos : 1 ≤ tranByte.toNat)
    (hle : tranByte.toNat ≤ s.writer.msgbuffer1.unread.length) :
    let s' := writeHandler false tranByte false
      { s with socket := { s.socket with outstanding := [] } }
    s'.WriterOk ∧ s'.Idle ∧ s'.Closing ∧
      s.writer.msgbuffer1.unread.take tranByte.toNat ++ s'.pending = s.pending ∧
      (s.flag ≠ .start → s'.flag ≠ .start) := by
  have hopen : s.flag ≠ .close := by
    intro hflag
    have hidle := hc.writing_eq hflag
    rw [hwriting] at hidle
    cases hidle
  -- the socket on which `_TrySendData` is called
  let s₁ : BaseSocket :=
    { s with
      writer := { s.writer with
        writing := false
        msgbuffer1 := s.writer.msgbuffer1.cutData tranByte.toInt32 }
      socket := { s.socket with outstanding := [] } }
  have hs₁ : s₁.WriterOk := ⟨h.offset_eq, h.size_le, rfl⟩
  have hcut : s.writer.msgbuffer1.unread.take tranByte.toNat ++ s₁.pending = s.pending := by
    change _ ++ ((s.writer.msgbuffer1.cutData tranByte.toInt32).unread ++
      s.writer.msgbuffer2.unread) = _
    rw [Buffer.unread_cutData _ hle, ← List.append_assoc, List.take_append_drop]
    rfl
  obtain ⟨hok, hidle, hpending, hwrote, hflag, hcloses⟩ := trySendData_spec hs₁
  have hbytes : ¬ tranByte ≤ 0 := by
    rw [UInt32.le_iff_toNat_le, UInt32.toNat_zero]
    omega
  have hhandler : writeHandler false tranByte false
      { s with socket := { s.socket with outstanding := [] } } =
      shutIfDone (trySendData false s₁) := by
    simp only [writeHandler, Bool.false_eq_true, if_false, hbytes]
    rfl
  have hclosing : (trySendData false s₁).2.Closing := by
    refine ⟨?_, fun hclose ↦ absurd (hflag.symm.trans hclose) hopen⟩
    rw [hcloses, hflag]
    exact hc.closes_eq
  obtain ⟨hok', hidle', hclosing', hpending', hflag'⟩ :=
    shutIfDone_spec hok hidle hclosing hwrote
  intro s'
  rw [← hhandler] at hok' hidle' hclosing' hpending' hflag'
  refine ⟨hok', hidle', hclosing', ?_, fun hstop ↦ hflag' (hflag.trans_ne hstop)⟩
  rw [hpending', hpending, hcut]

end BaseSocket

/-! ## Runs -/

/-- A socket, the bytes the transport has taken from it, and the blocks of the calls of
`Send` that returned true. -/
structure Link where
  base : BaseSocket
  taken : List Byte
  accepted : List (List Byte)

namespace Link

/-- The steps: what the users of the socket call, and the completion of a write. -/
inductive Act
  | send (timestamp : Int32) (data : List Byte) (len : UInt32)
  | sendBuffer (buffer : Option Buffer)
  | writeDone (tranByte : UInt32)
  | close

/-- `Send` reads its data, and the transport takes a part of the bytes it was offered. -/
def enabled (l : Link) : Act → Prop
  | .send _ data len => len.toNat ≤ data.length
  | .sendBuffer _ => True
  | .writeDone tranByte =>
      ∃ bytes ∈ l.base.socket.outstanding.head?,
        1 ≤ tranByte.toNat ∧ tranByte.toNat ≤ bytes.length
  | .close => True

instance (l : Link) : (a : Act) → Decidable (l.enabled a)
  | .send _ data len => inferInstanceAs (Decidable (len.toNat ≤ data.length))
  | .sendBuffer _ => inferInstanceAs (Decidable True)
  | .writeDone tranByte => inferInstanceAs (Decidable (∃ bytes ∈ _, 1 ≤ tranByte.toNat ∧ _))
  | .close => inferInstanceAs (Decidable True)

/-- A call of `Send` returned. -/
def sent (l : Link) (block : List Byte) (r : Bool × BaseSocket) : Link where
  base := r.2
  taken := l.taken
  accepted := if r.1 then l.accepted ++ [block] else l.accepted

def step (l : Link) : Act → Option Link
  | .send timestamp data len =>
      (l.base.send false timestamp data len).map
        (l.sent (sendBlock timestamp (data.take len.toNat)))
  | .sendBuffer buffer =>
      (l.base.sendBuffer false buffer).map (l.sent ((buffer.map Buffer.contents).getD []))
  | .writeDone tranByte =>
      let outstanding := l.base.socket.outstanding
      some { l with
        base := BaseSocket.writeHandler false tranByte false
          { l.base with socket := { l.base.socket with outstanding := outstanding.tail } }
        taken := l.taken ++ (outstanding.headD []).take tranByte.toNat }
  | .close => some { l with base := l.base.close }

def system : System Link Act := ⟨enabled, step⟩

instance (l : Link) (a : Act) : Decidable (system.enabled l a) :=
  inferInstanceAs (Decidable (l.enabled a))

/-- A connected socket. -/
def connected : Link := ⟨.connected, [], []⟩

/-- Every call of `Send(const Buffer*)` is given a buffer that, with what is queued, is
smaller than `2 ^ 32` bytes. -/
def NoWrap (l : Link) : Act → Prop
  | .sendBuffer (some b) => l.base.NoWrap b
  | _ => True

instance (l : Link) : (a : Act) → Decidable (l.NoWrap a)
  | .sendBuffer (some b) => inferInstanceAs (Decidable (_ → b.length ≠ 0 → _))
  | .sendBuffer none => inferInstanceAs (Decidable True)
  | .send .. => inferInstanceAs (Decidable True)
  | .writeDone _ => inferInstanceAs (Decidable True)
  | .close => inferInstanceAs (Decidable True)

structure Inv (l : Link) : Prop where
  writerOk : l.base.WriterOk
  idle : l.base.Idle
  closing : l.base.Closing
  conserved : l.taken ++ l.base.pending = l.accepted.flatten

/-- What a step does to a state that satisfies the invariant. -/
structure Stepped (l : Link) (a : Act) (l' : Link) : Prop where
  inv : l'.Inv
  stopped : l.base.flag ≠ .start → l'.base.flag ≠ .start ∧ l'.accepted = l.accepted
  untouched : l.base.writer.writing = true → (∀ t, a ≠ .writeDone t) →
    l'.base.writer.msgbuffer1 = l.base.writer.msgbuffer1 ∧
      l'.base.socket.outstanding = l.base.socket.outstanding
  closed : a = .close → l'.base.flag ≠ .start

theorem Inv.refused {l : Link} (h : l.Inv) (a : Act) (ha : a ≠ .close) : l.Stepped a l where
  inv := h
  stopped hflag := ⟨hflag, rfl⟩
  untouched _ _ := ⟨rfl, rfl⟩
  closed hclose := absurd hclose ha

theorem Inv.sent {l : Link} (h : l.Inv) {block : List Byte} {s' : BaseSocket}
    (hstart : l.base.flag = .start) (hq : l.base.Queued block s') (a : Act)
    (ha : a ≠ .close) : l.Stepped a (l.sent block (true, s')) where
  inv :=
    { writerOk := hq.writerOk
      idle := hq.idle
      closing := by
        have hcloses := h.closing.closes_eq
        rw [hstart] at hcloses
        refine ⟨?_, ?_⟩
        · change s'.socket.closes = if s'.flag = .close then 1 else 0
          rw [hq.closes_eq, hq.flag_eq, hstart, hcloses]
        · intro hclose
          have hflag := hq.flag_eq.symm.trans hclose
          rw [hstart] at hflag
          cases hflag
      conserved := by
        change l.taken ++ s'.pending = (l.accepted ++ [block]).flatten
        rw [hq.pending_eq, ← List.append_assoc, h.conserved]
        simp }
  stopped hflag := absurd hstart hflag
  untouched hwriting _ :=
    ⟨(hq.busy hwriting).1, congrArg SocketCalls.outstanding (hq.busy hwriting).2⟩
  closed hclose := absurd hclose ha

theorem step_send {l : Link} (h : l.Inv) (timestamp : Int32) {data : List Byte} {len : UInt32}
    (hlen : len.toNat ≤ data.length) :
    ∃ l', l.step (.send timestamp data len) = some l' ∧
      l.Stepped (.send timestamp data len) l' := by
  obtain hsend | ⟨s', hsend, hstart, hq⟩ := BaseSocket.send_spec h.writerOk timestamp hlen
  · exact ⟨_, by rw [step, hsend]; rfl, h.refused _ (by simp)⟩
  · exact ⟨_, by rw [step, hsend]; rfl, h.sent hstart hq _ (by simp)⟩

theorem accepted_step_send {l l' : Link} {timestamp : Int32} {data : List Byte} {len : UInt32}
    (h : l.step (.send timestamp data len) = some l') :
    l'.accepted = l.accepted ∨
      l'.accepted = l.accepted ++ [sendBlock timestamp (data.take len.toNat)] := by
  obtain ⟨⟨ok, base⟩, -, rfl⟩ := Option.map_eq_some_iff.mp h
  cases ok with
  | false => exact Or.inl rfl
  | true => exact Or.inr rfl

theorem step_sendBuffer {l : Link} (h : l.Inv) (buffer : Option Buffer)
    (hwrap : l.NoWrap (.sendBuffer buffer)) :
    ∃ l', l.step (.sendBuffer buffer) = some l' ∧ l.Stepped (.sendBuffer buffer) l' := by
  cases buffer with
  | none => exact ⟨_, rfl, h.refused _ (by simp)⟩
  | some b =>
      obtain hsend | ⟨s', hsend, hstart, hq⟩ := BaseSocket.sendBuffer_spec h.writerOk hwrap
      · exact ⟨_, by rw [step, hsend]; rfl, h.refused _ (by simp)⟩
      · exact ⟨_, by rw [step, hsend]; rfl, h.sent hstart hq _ (by simp)⟩

theorem step_writeDone {l : Link} (h : l.Inv) {tranByte : UInt32}
    (henabled : l.enabled (.writeDone tranByte)) :
    ∃ l', l.step (.writeDone tranByte) = some l' ∧ l.Stepped (.writeDone tranByte) l' := by
  obtain ⟨bytes, hbytes, hpos, hle⟩ := henabled
  have hout := h.writerOk.outstanding_eq
  have hwriting : l.base.writer.writing = true := by
    by_contra hidle
    rw [if_neg hidle] at hout
    rw [hout] at hbytes
    cases hbytes
  rw [if_pos hwriting] at hout
  rw [hout] at hbytes
  cases hbytes
  obtain ⟨hok, hidle, hclosing, hpending, hflag⟩ :=
    BaseSocket.writeHandler_spec h.writerOk h.closing hwriting hpos hle
  refine ⟨_, rfl, ⟨?_, ?_, ?_, ?_⟩, fun hstop ↦ ⟨?_, rfl⟩, ?_, by simp⟩
  · simpa only [hout, List.tail_cons] using hok
  · simpa only [hout, List.tail_cons] using hidle
  · simpa only [hout, List.tail_cons] using hclosing
  · simp only [hout, List.tail_cons, List.headD_cons]
    rw [List.append_assoc, hpending, h.conserved]
  · simpa only [hout, List.tail_cons] using hflag hstop
  · intro _ hother
    exact absurd rfl (hother tranByte)

theorem step_close {l : Link} (h : l.Inv) :
    ∃ l', l.step .close = some l' ∧ l.Stepped .close l' := by
  obtain ⟨hok, hpending, hwriter, hflag⟩ := BaseSocket.close_spec h.writerOk
  refine ⟨_, rfl, ⟨hok, ?_, h.closing.close, ?_⟩, fun _ ↦ ⟨hflag, rfl⟩, ?_, fun _ ↦ hflag⟩
  · intro hidle
    change l.base.close.pending = []
    rw [hpending]
    exact h.idle (hwriter ▸ hidle)
  · change l.taken ++ l.base.close.pending = _
    rw [hpending, h.conserved]
  · intro _ _
    change l.base.close.writer.msgbuffer1 = _ ∧ l.base.close.socket.outstanding = _
    rw [hok.outstanding_eq, h.writerOk.outstanding_eq, hwriter]
    exact ⟨rfl, rfl⟩

theorem step_stepped {l : Link} {a : Act} (h : l.Inv) (henabled : l.enabled a)
    (hwrap : l.NoWrap a) : ∃ l', l.step a = some l' ∧ l.Stepped a l' := by
  cases a with
  | send timestamp data len => exact step_send h timestamp henabled
  | sendBuffer buffer => exact step_sendBuffer h buffer hwrap
  | writeDone tranByte => exact step_writeDone h henabled
  | close => exact step_close h

theorem inv_connected : connected.Inv where
  writerOk := ⟨rfl, by decide, rfl⟩
  idle _ := rfl
  closing := ⟨rfl, fun _ ↦ rfl⟩
  conserved := rfl

theorem run_inv {l : Link} (h : l.Inv) {acts : List Act}
    (hallowed : system.Allowed NoWrap l acts) : ∃ l', system.run l acts = some l' ∧ l'.Inv := by
  refine System.run_invariant ?_ h hallowed
  intro l a hinv henabled hwrap
  obtain ⟨l', hstep, hstepped⟩ := step_stepped hinv henabled hwrap
  exact ⟨l', hstep, hstepped.inv⟩

theorem run_stopped {l : Link} (h : l.Inv) (hflag : l.base.flag ≠ .start) {acts : List Act}
    (hallowed : system.Allowed NoWrap l acts) :
    ∃ l', system.run l acts = some l' ∧ l'.Inv ∧ l'.base.flag ≠ .start ∧
      l'.accepted = l.accepted := by
  refine System.run_invariant (I := fun l' ↦
    l'.Inv ∧ l'.base.flag ≠ .start ∧ l'.accepted = l.accepted) ?_ ⟨h, hflag, rfl⟩ hallowed
  rintro l₁ a ⟨hinv, hstop, haccepted⟩ henabled hwrap
  obtain ⟨l₂, hstep, hstepped⟩ := step_stepped hinv henabled hwrap
  obtain ⟨hstop₂, haccepted₂⟩ := hstepped.stopped hstop
  exact ⟨l₂, hstep, hstepped.inv, hstop₂, haccepted₂.trans haccepted⟩

/-- The four parts of the contract of the queue. -/
structure Conserved (l : Link) : Prop where
  bytes : l.taken ++ (l.base.writer.msgbuffer1.unread ++ l.base.writer.msgbuffer2.unread) =
    l.accepted.flatten
  outstanding : l.base.socket.outstanding.length ≤ 1
  idle : l.base.writer.writing = false →
    l.base.writer.msgbuffer1.unread = [] ∧ l.base.writer.msgbuffer2.unread = []
  size : l.base.writer.msgbuffer2.pos ≤ BaseSocket.maxBufferSize

theorem Inv.toConserved {l : Link} (h : l.Inv) : l.Conserved where
  bytes := h.conserved
  outstanding := by
    rw [h.writerOk.outstanding_eq]
    split <;> simp
  idle hidle := List.append_eq_nil_iff.mp (h.idle hidle)
  size := UInt32.le_iff_toNat_le.mpr h.writerOk.size_le

/-- In every run in which no buffer makes the sum in `Send(const Buffer*)` wrap, every
state keeps the contract, and a step other than the completion of the outstanding
write leaves `msgbuffer1` and the request as they are. -/
theorem send_conserves (acts : List Act) (h : system.Allowed NoWrap connected acts) :
    ∃ l, system.run connected acts = some l ∧ l.Conserved ∧
      ∀ pre a post, acts = pre ++ a :: post → (∀ t, a ≠ .writeDone t) →
        ∃ l₁ l₂, system.run connected pre = some l₁ ∧ l₁.step a = some l₂ ∧
          (l₁.base.socket.outstanding ≠ [] →
            l₂.base.writer.msgbuffer1 = l₁.base.writer.msgbuffer1 ∧
              l₂.base.socket.outstanding = l₁.base.socket.outstanding) := by
  obtain ⟨l, hrun, hinv⟩ := run_inv inv_connected h
  refine ⟨l, hrun, hinv.toConserved, ?_⟩
  intro pre a post hacts hother
  rw [hacts, System.run_append] at hrun
  obtain ⟨l₁, hpre, -⟩ := Option.bind_eq_some_iff.mp hrun
  obtain ⟨hallowed, hrest⟩ := System.Allowed.append (hacts ▸ h) hpre
  obtain ⟨l₁', hpre', hinv₁⟩ := run_inv inv_connected hallowed
  rw [hpre] at hpre'
  cases hpre'
  obtain ⟨l₂, hstep, hstepped⟩ := step_stepped hinv₁ hrest.1 hrest.2.1
  refine ⟨l₁, l₂, hpre, hstep, ?_⟩
  intro hout
  refine hstepped.untouched ?_ hother
  by_contra hidle
  rw [hinv₁.writerOk.outstanding_eq, if_neg hidle] at hout
  exact hout rfl

/-- Two messages, the first one sent in two pieces, and `Close` before the second one
has been sent. -/
def sampleRun : List Act :=
  [.send 7 [65, 66] 2, .send 8 [67] 1, .writeDone 3, .writeDone 7, .close, .writeDone 9]

theorem send_conserves_sampleRun :
    system.Allowed NoWrap connected sampleRun ∧
      ∃ l, system.run connected sampleRun = some l ∧ l.Conserved := by
  have hallowed : system.Allowed NoWrap connected sampleRun := by decide +kernel
  obtain ⟨l, hrun, hconserved, -⟩ := send_conserves sampleRun hallowed
  exact ⟨hallowed, l, hrun, hconserved⟩

/-- A short message to keep the transport busy, and one that stays in `msgbuffer2`. -/
def fillRun : List Act := [.send 7 [65] 1, .send 8 (List.replicate 1100 66) 1100]

/-- Then a buffer whose size is negative as an `int`. -/
def wrapRun (b : Buffer) : List Act := fillRun ++ [.sendBuffer (some b)]

def hugeSize : UInt32 := 4294966271

theorem exists_hugeBuffer :
    ∃ b, Buffer.empty.write (List.replicate hugeSize.toNat 0) hugeSize = some b ∧
      b.pos = hugeSize ∧ b.length ≠ 0 := by
  have hsrc : hugeSize.toNat ≤ (List.replicate hugeSize.toNat (0 : Byte)).length := by
    rw [List.length_replicate]
  obtain ⟨b, hb, happ⟩ := Buffer.empty.write_spec hsrc (by decide)
  have hcontents := congrArg List.length happ.contents_eq
  rw [Buffer.length_contents, Buffer.contents_empty, List.nil_append, List.length_take,
    List.length_replicate, Nat.min_self] at hcontents
  have hpos : b.pos = hugeSize := UInt32.toNat_inj.mp hcontents
  refine ⟨b, hb, hpos, ?_⟩
  rw [Buffer.length, happ.offset_eq, hpos]
  decide

theorem run_wrapRun {b : Buffer} (hpos : b.pos = hugeSize) (hlen : b.length ≠ 0) :
    system.Allowed System.anyStep connected (wrapRun b) ∧
      system.run connected (wrapRun b) = none := by
  have hallowed : system.Allowed NoWrap connected fillRun := by decide +kernel
  obtain ⟨l, hrun, hinv⟩ := run_inv inv_connected hallowed
  have hfull : (system.run connected fillRun).any (fun l ↦
      decide (l.base.flag = .start ∧ 1025 ≤ l.base.writer.msgbuffer2.pos.toNat)) = true := by
    decide +kernel
  rw [hrun, Option.any_some, decide_eq_true_iff] at hfull
  have hwrap : ¬ l.base.NoWrap b := by
    intro hnowrap
    have hsum := hnowrap hfull.1 hlen
    rw [hpos, show hugeSize.toNat = 4294966271 from rfl] at hsum
    omega
  have hstep : system.step l (.sendBuffer (some b)) = none := by
    change (l.base.sendBuffer false (some b)).map _ = none
    rw [BaseSocket.sendBuffer_eq_none hinv.writerOk hwrap]
    rfl
  refine ⟨(hallowed.mono fun _ _ _ ↦ trivial).concat fun _ _ ↦
    ⟨trivial, trivial, fun _ _ ↦ trivial⟩, ?_⟩
  rw [wrapRun, System.run_append, hrun, Option.bind_some, System.run_cons, hstep,
    Option.bind_none]

theorem send_conserves_fails :
    ∃ b, Buffer.empty.write (List.replicate hugeSize.toNat 0) hugeSize = some b ∧
      system.Allowed System.anyStep connected (wrapRun b) ∧
      ¬ ∃ l, system.run connected (wrapRun b) = some l ∧ l.Conserved := by
  obtain ⟨b, hb, hpos, hlen⟩ := exists_hugeBuffer
  obtain ⟨hallowed, hrun⟩ := run_wrapRun hpos hlen
  refine ⟨b, hb, hallowed, ?_⟩
  rw [hrun]
  simp

/-- In the same runs the socket is closed at most once, only when everything accepted
has been taken, and nothing is accepted after `Close`. -/
theorem close_drains (acts : List Act) (h : system.Allowed NoWrap connected acts) :
    ∃ l, system.run connected acts = some l ∧ l.base.socket.closes ≤ 1 ∧
      (l.base.socket.closes ≠ 0 → l.taken = l.accepted.flatten) ∧
      ∀ pre post, acts = pre ++ .close :: post →
        ∃ l₁, system.run connected pre = some l₁ ∧ l.accepted = l₁.accepted := by
  obtain ⟨l, hrun, hinv⟩ := run_inv inv_connected h
  have hcloses := hinv.closing.closes_eq
  refine ⟨l, hrun, ?_, ?_, ?_⟩
  · rw [hcloses]
    split <;> simp
  · intro hclosed
    have hflag : l.base.flag = .close := by
      by_contra hopen
      exact hclosed (by rw [hcloses, if_neg hopen])
    have hconserved := hinv.conserved
    rwa [hinv.idle (hinv.closing.writing_eq hflag), List.append_nil] at hconserved
  · intro pre post hacts
    rw [hacts, System.run_append] at hrun
    obtain ⟨l₁, hpre, hpost⟩ := Option.bind_eq_some_iff.mp hrun
    obtain ⟨hallowed, -, -, hrest⟩ := System.Allowed.append (hacts ▸ h) hpre
    obtain ⟨l₁', hpre', hinv₁⟩ := run_inv inv_connected hallowed
    rw [hpre] at hpre'
    cases hpre'
    obtain ⟨l₂, hstep, hstepped⟩ := step_close hinv₁
    -- from here on the flag is not `E_STATE_START` any more
    obtain ⟨l₃, hrun₃, -, -, haccepted⟩ := run_stopped hstepped.inv (hstepped.closed rfl)
      (hrest l₂ hstep)
    have hl₃ : l₃ = l := by
      change (l₁.step .close).bind _ = _ at hpost
      rw [hstep, Option.bind_some, hrun₃] at hpost
      exact Option.some.inj hpost
    refine ⟨l₁, hpre, ?_⟩
    rw [← hl₃, haccepted]
    cases hstep
    rfl

theorem close_drains_sampleRun :
    system.Allowed NoWrap connected sampleRun ∧
      ∃ l, system.run connected sampleRun = some l ∧ l.base.socket.closes ≤ 1 ∧
        (l.base.socket.closes ≠ 0 → l.taken = l.accepted.flatten) := by
  have hallowed : system.Allowed NoWrap connected sampleRun := by decide +kernel
  obtain ⟨l, hrun, hcloses, htaken, -⟩ := close_drains sampleRun hallowed
  exact ⟨hallowed, l, hrun, hcloses, htaken⟩

theorem close_drains_fails :
    ∃ b, Buffer.empty.write (List.replicate hugeSize.toNat 0) hugeSize = some b ∧
      system.Allowed System.anyStep connected (wrapRun b ++ [.close]) ∧
      ¬ ∃ l, system.run connected (wrapRun b ++ [.close]) = some l ∧
        l.base.socket.closes ≤ 1 ∧
        (l.base.socket.closes ≠ 0 → l.taken = l.accepted.flatten) := by
  obtain ⟨b, hb, hpos, hlen⟩ := exists_hugeBuffer
  obtain ⟨hallowed, hrun⟩ := run_wrapRun hpos hlen
  refine ⟨b, hb, hallowed.concat (by simp [hrun]), ?_⟩
  rw [System.run_append, hrun]
  simp

end Link

end Slience
