import Slience.Netio.BaseSocket

/-!
# The blocking connector

`SyncConnector` sends one message and waits for the next one.  It has its own copy of
the framing code, which returns after one message and leaves the count of the bytes
behind it in `_readsize`.  What `RecvSome` delivers is a list of chunks; the empty
chunk and the end of the list are a closed connection.
-/

namespace Slience

structure SyncConnector where
  flag : SocketState
  /-- `_rcvbuffer` and `_curheader` -/
  frame : FrameReader
  readbuf : List Byte
  readsize : UInt32
  sndbuffer : Buffer

namespace SyncConnector

/-- `SyncConnector::SyncConnector` -/
def init : SyncConnector where
  flag := .stop
  frame := .fresh
  readbuf := List.replicate socketReadSize 0
  readsize := 0
  sndbuffer := .empty

/-- The largest body `_CutMsgPack` and `Send` accept, `0xFFFF - hdrlen`. -/
def packLimit : UInt32 := 0xFFFF - MessageHeader.hdrlen

/-- `SyncConnector::Close` -/
def close (s : SyncConnector) : SyncConnector := { s with flag := .stop }

/-- `SyncConnector::Connect`.  An address that cannot be read throws after the flag has
been set. -/
def connect (connected endpoints : Bool) (s : SyncConnector) : Bool × SyncConnector :=
  if connected then (endpoints, { s with flag := .start }) else (false, s)

/-- What `_CutMsgPack` did; `reply` says that it returned `&_rcvbuffer`, and `tranByte` is
the value of its reference parameter. -/
structure CutResult where
  reply : Bool
  frame : FrameReader
  tranByte : UInt32

/-- The part of `_CutMsgPack` behind its header block. -/
def copyBody (r : FrameReader) (buf : List Byte) (tranByte : UInt32) : Option CutResult :=
  match r.cutBody buf tranByte with
  | none => none
  | some (.returned r) => some ⟨false, r, tranByte⟩
  | some (.full r _ tranByte) => some ⟨true, r, tranByte⟩

/-- `SyncConnector::_CutMsgPack`.  The body of its loop always returns. -/
def cutMsgPack (r : FrameReader) (buf : List Byte) (tranByte : UInt32) : Option CutResult :=
  match r.cutHeader packLimit buf tranByte with
  | none => none
  | some (.returned _ r tranByte) => some ⟨false, r, tranByte⟩
  | some (.ready r buf tranByte) => copyBody r buf tranByte

/-- `_CutMsgPack(_readbuf, _readsize)` -/
def cut (s : SyncConnector) : Option (Bool × SyncConnector) :=
  match cutMsgPack s.frame s.readbuf s.readsize with
  | none => none
  | some res => some (res.reply, { s with frame := res.frame, readsize := res.tranByte })

/-- `Recv` up to its loop: what is left in `_readbuf` is cut first. -/
def recvStart (s : SyncConnector) : Option (Bool × SyncConnector) :=
  let s := { s with frame := { s.frame with msgbuffer := s.frame.msgbuffer.clear } }
  if s.readsize > 0 then s.cut else some (false, s)

/-- One round of the loop of `Recv`, in which `RecvSome` delivers the bytes `c`. -/
def recvChunk (s : SyncConnector) (c : List Byte) : Option (Bool × SyncConnector) :=
  { s with readbuf := blit s.readbuf 0 c, readsize := UInt32.ofNat c.length }.cut

/-- `RecvSome` delivers nothing. -/
def recvNothing (s : SyncConnector) : SyncConnector := { s with readsize := 0 }.close

/-- The result of a call of `Recv`: whether it returned a buffer, which is then
`frame.msgbuffer`, and the chunks `RecvSome` was not asked for. -/
structure Received where
  reply : Bool
  conn : SyncConnector
  rest : List (List Byte)

/-- The loop of `Recv`. -/
def recvLoop (s : SyncConnector) : List (List Byte) → Option Received
  | [] => some ⟨false, s.recvNothing, []⟩
  | c :: cs =>
      if c.length = 0 then some ⟨false, s.recvNothing, cs⟩
      else
        match s.recvChunk c with
        | none => none
        | some (true, s') => some ⟨true, s', cs⟩
        | some (false, s') => recvLoop s' cs

/-- `SyncConnector::Recv` -/
def recv (s : SyncConnector) (chunks : List (List Byte)) : Option Received :=
  if s.flag ≠ .start then some ⟨false, s, chunks⟩
  else
    match s.recvStart with
    | none => none
    | some (true, s') => some ⟨true, s', chunks⟩
    | some (false, s') => recvLoop s' chunks

/-- The loop of `Send`, where `outcomes` are the results of `SendSome`, an error being
`none`.  The transport takes at most what it is offered; the bytes it took are
collected. -/
def sendLoop (s : SyncConnector) : List (Option UInt32) → Bool × SyncConnector × List Byte
  | [] => (false, s.close, [])
  | none :: _ => (false, s.close, [])
  | some n :: outcomes =>
      let sndCnt := if n ≤ s.sndbuffer.length then n else s.sndbuffer.length
      let taken := s.sndbuffer.unread.take sndCnt.toNat
      let s := { s with sndbuffer := s.sndbuffer.cutData sndCnt.toInt32 }
      if s.sndbuffer.length = 0 then (true, s, taken)
      else
        let (ok, s, more) := sendLoop s outcomes
        (ok, s, taken ++ more)

/-- `SyncConnector::Send` at the time `timestamp`. -/
def send (s : SyncConnector) (timestamp : Int32) (data : List Byte) (len : UInt32)
    (outcomes : List (Option UInt32)) : Option (Bool × SyncConnector × List Byte) :=
  if s.flag ≠ .start then some (false, s, [])
  else if len > 0 ∧ len ≤ packLimit then
    let hdr := (MessageHeader.mk timestamp len).h2n
    match s.sndbuffer.clear.write hdr.toMem MessageHeader.hdrlen with
    | none => none
    | some m =>
        match m.write data len with
        | none => none
        | some m' => some (sendLoop { s with sndbuffer := m' } outcomes)
  else some (false, s, [])

/-! ## One call of `_CutMsgPack` -/

/-- The reader has kept the bytes `got` of the frame it is reading. -/
def Got (r : FrameReader) (got : List Byte) : Prop :=
  r.InHeader got ∨
    ∃ hdr body, got = hdr ++ body ∧ r.InBody hdr body ∧ body.length < announced hdr

/-- What a call makes of the bytes kept and the bytes received, `bytes` together. -/
inductive CutOutcome (got bytes : List Byte) (res : CutResult) : Prop
  /-- All are kept. -/
  | kept (reply : res.reply = false) (got' : Got res.frame bytes)
      (large : 8 ≤ bytes.length → packLimit.toNat < announced (bytes.take 8) →
        8 ≤ got.length)
  /-- The header announces too much: it is kept, and the bytes behind it are lost. -/
  | lost (reply : res.reply = false) (hdr dropped : List Byte)
      (bytes_eq : bytes = hdr ++ dropped) (length_eq : hdr.length = 8)
      (got' : Got res.frame hdr) (length_lt : got.length < 8)
      (large : packLimit.toNat < announced hdr)
  /-- They contain a frame. -/
  | frame (reply : res.reply = true) (hdr body surplus : List Byte)
      (bytes_eq : bytes = hdr ++ (body ++ surplus)) (length_eq : hdr.length = 8)
      (announced_eq : announced hdr = body.length)
      (unread_eq : res.frame.msgbuffer.unread = body)
      (size_eq : res.frame.curheader.size = 0)
      (tranByte_eq : res.tranByte.toNat = surplus.length)
      (large : packLimit.toNat < body.length → 8 ≤ got.length)
      (got_le : got.length ≤ 8 + body.length)

theorem Got.size_ne_zero {r : FrameReader} {hdr body : List Byte} (h : r.InBody hdr body)
    (hlt : body.length < announced hdr) : r.curheader.size ≠ 0 := by
  intro hzero
  have hsize := h.toNat_size
  rw [hzero, UInt32.toNat_zero] at hsize
  omega

theorem copyBody_outcome {r : FrameReader} {got hdr body buf : List Byte} {tranByte : UInt32}
    {res : CutResult} (h : r.InBody hdr body) (hbuf : tranByte.toNat ≤ buf.length)
    (hlarge : packLimit.toNat < announced hdr → 8 ≤ got.length)
    (hgot : got.length ≤ 8 + announced hdr)
    (hres : copyBody r buf tranByte = some res) :
    CutOutcome got (hdr ++ (body ++ buf.take tranByte.toNat)) res := by
  unfold copyBody at hres
  split at hres
  · cases hres
  · rename_i r' hcut
    cases hres
    obtain ⟨hr', hlt⟩ := FrameReader.cutBody_returned h hcut
    refine .kept rfl (Or.inr ⟨hdr, _, rfl, hr', ?_⟩) ?_
    · rw [List.length_append, List.length_take]
      omega
    · intro _ hlt
      rw [← h.length_eq, List.take_left] at hlt
      exact h.length_eq ▸ hlarge hlt
  · rename_i r' buf' tranByte' hcut
    cases hres
    obtain ⟨hfull, htran, hsize, hunread, -⟩ := FrameReader.cutBody_completed h hcut
    have hle := h.length_le
    have hlen : (body ++ buf.take (announced hdr - body.length)).length = announced hdr := by
      rw [List.length_append, List.length_take]
      omega
    refine .frame rfl hdr (body ++ buf.take (announced hdr - body.length))
      ((buf.take tranByte.toNat).drop (announced hdr - body.length)) ?_ h.length_eq hlen.symm
      hunread hsize ?_ (by rwa [hlen]) (by rwa [hlen])
    · have hmin : announced hdr - body.length ≤ tranByte.toNat := by omega
      have htake : (buf.take tranByte.toNat).take (announced hdr - body.length) =
          buf.take (announced hdr - body.length) := by
        rw [List.take_take, Nat.min_eq_left hmin]
      rw [List.append_assoc, ← htake, List.take_append_drop]
    · rw [htran, List.length_drop, List.length_take]
      omega

theorem cutMsgPack_outcome {r : FrameReader} {got buf : List Byte} {tranByte : UInt32}
    {res : CutResult} (h : Got r got) (hbuf : tranByte.toNat ≤ buf.length)
    (htran : tranByte.toNat < 2 ^ 31) (hres : cutMsgPack r buf tranByte = some res) :
    CutOutcome got (got ++ buf.take tranByte.toNat) res := by
  unfold cutMsgPack at hres
  rcases h with h | ⟨hdr, body, rfl, h, hlt⟩
  · by_cases hshort : got.length + tranByte.toNat < 8
    · obtain ⟨r', hcut, hr'⟩ := FrameReader.cutHeader_short packLimit h hbuf hshort
      rw [hcut] at hres
      cases hres
      refine .kept rfl (Or.inl hr') ?_
      intro hfull
      have hlt := hr'.length_lt
      omega
    · obtain ⟨r', tranByte', htran', hr', hcut⟩ :=
        FrameReader.cutHeader_full packLimit h hbuf htran (not_lt.mp hshort)
      have hgot := h.length_lt
      have hsplit : got ++ buf.take tranByte.toNat =
          (got ++ buf.take (8 - got.length)) ++
            (buf.drop (8 - got.length)).take tranByte'.toNat := by
        rw [TcpStreamSocket.take_eq_take_append
          (show 8 - got.length ≤ tranByte.toNat by omega), htran', List.append_assoc]
      rw [hcut] at hres
      rw [hsplit]
      split_ifs at hres with hlimit
      · cases hres
        refine .lost rfl _ _ rfl hr'.length_eq (Or.inr ⟨_, [], by simp, hr', ?_⟩) hgot
          hlimit
        exact lt_of_le_of_lt (Nat.zero_le _) hlimit
      · exact copyBody_outcome hr' (by rw [htran', List.length_drop]; omega)
          (fun hlarge ↦ absurd hlarge hlimit) (by omega) hres
  · rw [FrameReader.cutHeader_of_size_ne_zero (Got.size_ne_zero h hlt)] at hres
    rw [List.append_assoc]
    have hle := h.length_le
    refine copyBody_outcome h hbuf ?_ ?_ hres
    · intro _
      rw [List.length_append, h.length_eq]
      omega
    · rw [List.length_append, h.length_eq]
      omega

theorem exists_copyBody {r : FrameReader} {hdr body buf : List Byte} {tranByte : UInt32}
    (h : r.InBody hdr body) (hbuf : tranByte.toNat ≤ buf.length)
    (htran : tranByte.toNat < 2 ^ 31) (hle : announced hdr ≤ socketPackSize.toNat) :
    ∃ res, copyBody r buf tranByte = some res := by
  have hmax : announced hdr < 2 ^ 31 := lt_of_le_of_lt hle (by decide)
  unfold copyBody
  by_cases hshort : body.length + tranByte.toNat < announced hdr
  · obtain ⟨r', hcut, -⟩ := FrameReader.cutBody_short h hbuf hmax hshort
    exact ⟨_, by rw [hcut]⟩
  · obtain ⟨r', tranByte', -, -, -, hcut⟩ :=
      FrameReader.cutBody_full h hbuf hmax htran (not_lt.mp hshort)
    exact ⟨_, by rw [hcut]⟩

/-- The call does not leave its memory if the header announces a size that `Send`
accepts. -/
theorem exists_cutMsgPack {r : FrameReader} {got buf : List Byte} {tranByte : UInt32}
    (h : Got r got) (hbuf : tranByte.toNat ≤ buf.length) (htran : tranByte.toNat < 2 ^ 31)
    (hsize : 8 ≤ (got ++ buf.take tranByte.toNat).length →
      announced ((got ++ buf.take tranByte.toNat).take 8) ≤ socketPackSize.toNat) :
    ∃ res, cutMsgPack r buf tranByte = some res := by
  unfold cutMsgPack
  rcases h with h | ⟨hdr, body, rfl, h, hlt⟩
  · by_cases hshort : got.length + tranByte.toNat < 8
    · obtain ⟨r', hcut, -⟩ := FrameReader.cutHeader_short packLimit h hbuf hshort
      exact ⟨_, by rw [hcut]⟩
    · obtain ⟨r', tranByte', htran', hr', hcut⟩ :=
        FrameReader.cutHeader_full packLimit h hbuf htran (not_lt.mp hshort)
      rw [hcut]
      split_ifs with hlimit
      · exact ⟨_, rfl⟩
      · refine exists_copyBody hr' (by rw [htran', List.length_drop]; omega) (by omega) ?_
        exact le_trans (not_lt.mp hlimit) (by decide)
  · rw [FrameReader.cutHeader_of_size_ne_zero (Got.size_ne_zero h hlt)]
    have hlen := h.length_eq
    refine exists_copyBody h hbuf htran ?_
    rw [List.append_assoc, ← hlen, List.take_left] at hsize
    refine hsize ?_
    rw [List.length_append]
    omega

/-! ## The parts of `Recv` -/

/-- Between two calls of `Recv`: the last chunk `c` is in `_readbuf`, and its last `k`
bytes have not been used. -/
structure Ready (s : SyncConnector) (c : List Byte) (k : ℕ) : Prop where
  flag_eq : s.flag = .start
  size_eq : s.frame.curheader.size = 0
  take_readbuf : s.readbuf.take c.length = c
  toNat_readsize : s.readsize.toNat = k
  le_length : k ≤ c.length
  length_le : c.length ≤ socketReadSize

theorem Ready.take_take {s : SyncConnector} {c : List Byte} {k : ℕ} (h : s.Ready c k) :
    s.readbuf.take s.readsize.toNat = c.take k := by
  conv_rhs => rw [← h.take_readbuf, List.take_take, Nat.min_eq_left h.le_length]
  rw [h.toNat_readsize]

theorem Ready.readsize_le {s : SyncConnector} {c : List Byte} {k : ℕ} (h : s.Ready c k) :
    s.readsize.toNat ≤ s.readbuf.length ∧ s.readsize.toNat < 2 ^ 31 := by
  have hk := h.toNat_readsize
  have hle := h.le_length
  have hmax : c.length ≤ 4096 := h.length_le
  have hlen := congrArg List.length h.take_readbuf
  rw [List.length_take] at hlen
  omega

theorem inHeader_clear {r : FrameReader} (h : r.curheader.size = 0) :
    FrameReader.InHeader { r with msgbuffer := r.msgbuffer.clear } [] :=
  ⟨h, rfl, rfl, by decide⟩

/-- `Recv` starts with the first `k` bytes of the chunk, not with its last ones. -/
theorem recvStart_outcome {s s' : SyncConnector} {c : List Byte} {k : ℕ} {reply : Bool}
    (h : s.Ready c k) (hstart : s.recvStart = some (reply, s')) :
    s'.flag = .start ∧ s'.readbuf = s.readbuf ∧
      CutOutcome [] (c.take k) ⟨reply, s'.frame, s'.readsize⟩ := by
  dsimp only [recvStart, cut] at hstart
  split at hstart
  · split at hstart
    · cases hstart
    · rename_i res hres
      cases hstart
      have houtcome := cutMsgPack_outcome (Or.inl (inHeader_clear h.size_eq))
        h.readsize_le.1 h.readsize_le.2 hres
      rw [List.nil_append, h.take_take] at houtcome
      exact ⟨h.flag_eq, rfl, houtcome⟩
  · rename_i hzero
    cases hstart
    rw [gt_iff_lt, UInt32.not_lt, UInt32.le_iff_toNat_le, UInt32.toNat_zero,
      h.toNat_readsize, Nat.le_zero] at hzero
    refine ⟨h.flag_eq, rfl, .kept rfl (Or.inl ?_) ?_⟩
    · rw [hzero, List.take_zero]
      exact inHeader_clear h.size_eq
    · rw [hzero]
      simp

theorem recvChunk_outcome {s s' : SyncConnector} {got c : List Byte} {reply : Bool}
    (h : Got s.frame got) (hc : c.length ≤ socketReadSize)
    (hstep : s.recvChunk c = some (reply, s')) :
    s'.flag = s.flag ∧ s'.readbuf.take c.length = c ∧
      CutOutcome got (got ++ c) ⟨reply, s'.frame, s'.readsize⟩ := by
  have hlen := toNat_chunk_length hc
  have hmax : c.length ≤ 4096 := hc
  dsimp only [recvChunk, cut] at hstep
  split at hstep
  · cases hstep
  · rename_i res hres
    cases hstep
    have houtcome := cutMsgPack_outcome h
      (by rw [hlen]; exact le_length_blit_zero _ _) (by omega) hres
    rw [hlen, take_blit_zero] at houtcome
    exact ⟨rfl, take_blit_zero _ _, houtcome⟩

theorem cut_eq {s : SyncConnector} {res : CutResult}
    (h : cutMsgPack s.frame s.readbuf s.readsize = some res) :
    s.cut = some (res.reply, { s with frame := res.frame, readsize := res.tranByte }) := by
  simp only [cut, h]

theorem exists_recvStart {s : SyncConnector} {c : List Byte} {k : ℕ} (h : s.Ready c k)
    (hsize : 8 ≤ k → announced (c.take 8) ≤ socketPackSize.toNat) :
    ∃ reply s', s.recvStart = some (reply, s') := by
  dsimp only [recvStart]
  split
  · have hcut : ∃ res, cutMsgPack { s.frame with msgbuffer := s.frame.msgbuffer.clear }
        s.readbuf s.readsize = some res := by
      refine exists_cutMsgPack (Or.inl (inHeader_clear h.size_eq)) h.readsize_le.1
        h.readsize_le.2 ?_
      rw [List.nil_append, h.take_take, List.length_take, List.take_take]
      intro hfull
      rw [Nat.min_eq_left (le_trans hfull (Nat.min_le_left _ _))]
      exact hsize (le_trans hfull (Nat.min_le_left _ _))
    obtain ⟨res, hres⟩ := hcut
    exact ⟨_, _, cut_eq hres⟩
  · exact ⟨_, _, rfl⟩

theorem exists_recvChunk {s : SyncConnector} {got c : List Byte} (h : Got s.frame got)
    (hc : c.length ≤ socketReadSize)
    (hsize : 8 ≤ (got ++ c).length → announced ((got ++ c).take 8) ≤ socketPackSize.toNat) :
    ∃ reply s', s.recvChunk c = some (reply, s') := by
  have hlen := toNat_chunk_length hc
  have hmax : c.length ≤ 4096 := hc
  have hcut : ∃ res, cutMsgPack s.frame (blit s.readbuf 0 c) (UInt32.ofNat c.length) =
      some res :=
    exists_cutMsgPack h (by rw [hlen]; exact le_length_blit_zero _ _) (by omega)
      (by rwa [hlen, take_blit_zero])
  obtain ⟨res, hres⟩ := hcut
  exact ⟨_, _, cut_eq hres⟩

/-! ## `Send` -/

/-- A `Send` that returns true has given all bytes to the transport, and changed nothing
but the buffer it sends from. -/
theorem sendLoop_spec {s s' : SyncConnector} {outcomes : List (Option UInt32)}
    {taken : List Byte} (h : s.sendLoop outcomes = (true, s', taken)) :
    taken = s.sndbuffer.unread ∧ ∃ m, s' = { s with sndbuffer := m } := by
  induction outcomes generalizing s s' taken with
  | nil => cases h
  | cons outcome outcomes ih =>
      cases outcome with
      | none => cases h
      | some n =>
          have hle : (if n ≤ s.sndbuffer.length then n else s.sndbuffer.length).toNat ≤
              s.sndbuffer.unread.length := by
            rw [← Buffer.toNat_length]
            split
            · rename_i hn
              exact UInt32.le_iff_toNat_le.mp hn
            · exact le_rfl
          dsimp only [sendLoop] at h
          generalize (if n ≤ s.sndbuffer.length then n else s.sndbuffer.length) = cnt at h hle
          have hcut := Buffer.unread_cutData _ hle
          split_ifs at h with hdone
          · rw [Buffer.length_eq_zero_iff, hcut] at hdone
            cases h
            refine ⟨?_, _, rfl⟩
            conv_rhs => rw [← List.take_append_drop cnt.toNat s.sndbuffer.unread, hdone,
              List.append_nil]
          · generalize hloop : sendLoop _ outcomes = more at h
            obtain ⟨ok, s₁, more⟩ := more
            cases h
            obtain ⟨hmore, m, hm⟩ := ih hloop
            refine ⟨?_, m, hm⟩
            rw [hmore, hcut, List.take_append_drop]

theorem send_spec {s s' : SyncConnector} {timestamp : Int32} {data : List Byte} {len : UInt32}
    {outcomes : List (Option UInt32)} {taken : List Byte}
    (h : s.send timestamp data len outcomes = some (true, s', taken)) :
    taken = sendBlock timestamp (data.take len.toNat) ∧ len ≤ packLimit ∧
      ∃ m, s' = { s with sndbuffer := m } := by
  unfold send at h
  dsimp only at h
  split_ifs at h with hflag hlen
  · cases h
  · split at h
    · cases h
    · rename_i m hm
      split at h
      · cases h
      · rename_i m' hm'
        obtain ⟨htaken, m'', hs'⟩ := sendLoop_spec (Option.some.inj h)
        obtain ⟨happ, -⟩ := Buffer.appended_of_write hm
        obtain ⟨happ', hsrc, -⟩ := Buffer.appended_of_write hm'
        refine ⟨?_, hlen.2, m'', hs'⟩
        have hlen' : UInt32.ofNat (data.take len.toNat).length = len := by
          rw [List.length_take, Nat.min_eq_left hsrc, UInt32.ofNat_toNat]
        rw [htaken, sendBlock, hlen']
        change m'.unread = _
        rw [happ'.unread_eq, happ.unread_eq, Buffer.unread_clear, List.nil_append]
        rfl
  · cases h

end SyncConnector

end Slience
