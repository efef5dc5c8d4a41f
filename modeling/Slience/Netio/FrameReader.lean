import Slience.Netio.MessageHeader

/-!
# Cutting one frame out of the received bytes

`TcpStreamSocket::_CutMsgPack` and `SyncConnector::_CutMsgPack` contain the same
two blocks of code, with different limits: the first completes the header of the
current frame, the second its body.  The received bytes are a pointer `buf` and a
count `tranByte`; advancing the pointer drops bytes of the list.
-/

namespace Slience

open MessageHeader

/-- The buffer and the header in which a frame is put together. -/
structure FrameReader where
  msgbuffer : Buffer
  curheader : MessageHeader
  deriving DecidableEq

inductive HeaderCut
  /-- `_CutMsgPack` returns here; `ok = false` when the header announces too much. -/
  | returned (ok : Bool) (r : FrameReader) (tranByte : UInt32)
  | ready (r : FrameReader) (buf : List Byte) (tranByte : UInt32)

inductive BodyCut
  | returned (r : FrameReader)
  | full (r : FrameReader) (buf : List Byte) (tranByte : UInt32)

namespace FrameReader

/-- Both constructors clear the header and start with an empty buffer. -/
def fresh : FrameReader where
  msgbuffer := .empty
  curheader := ⟨0, 0⟩

/-- The block "check the header" of `_CutMsgPack`. -/
def cutHeader (limit : UInt32) (r : FrameReader) (buf : List Byte) (tranByte : UInt32) :
    Option HeaderCut :=
  let datalen := r.msgbuffer.length
  if r.curheader.size ≠ 0 then some (.ready r buf tranByte)
  else if tranByte + datalen < hdrlen then do
    let msgbuffer ← r.msgbuffer.write buf tranByte
    return .returned true { r with msgbuffer := msgbuffer } tranByte
  else do
    let (msgbuffer, buf, tranByte) ←
      if datalen ≥ hdrlen then pure (r.msgbuffer, buf, tranByte)
      else do
        let msgbuffer ← r.msgbuffer.write buf (hdrlen - datalen)
        pure (msgbuffer, buf.drop (hdrlen - datalen).toNat, tranByte - (hdrlen - datalen))
    let (header, msgbuffer) ← r.curheader.readFrom msgbuffer
    let curheader := header.n2h
    if curheader.size > limit then return .returned false ⟨msgbuffer, curheader⟩ tranByte
    else return .ready ⟨msgbuffer, curheader⟩ buf tranByte

/-- The block "copy body data" of `_CutMsgPack`, up to the point where the body is
complete and `curheader.size` is reset. -/
def cutBody (r : FrameReader) (buf : List Byte) (tranByte : UInt32) : Option BodyCut :=
  let datalen := r.msgbuffer.length
  if tranByte + datalen < r.curheader.size then do
    let msgbuffer ← r.msgbuffer.write buf tranByte
    return .returned { r with msgbuffer := msgbuffer }
  else do
    let msgbuffer ← r.msgbuffer.write buf (r.curheader.size - datalen)
    return .full ⟨msgbuffer, { r.curheader with size := 0 }⟩
      (buf.drop (r.curheader.size - datalen).toNat) (tranByte - (r.curheader.size - datalen))

/-! ## The states between two blocks -/

/-- The bytes `s` of an incomplete header have been received. -/
structure InHeader (r : FrameReader) (s : List Byte) : Prop where
  size_eq : r.curheader.size = 0
  contents_eq : r.msgbuffer.contents = s
  offset_eq : r.msgbuffer.offset = 0
  length_lt : s.length < 8

/-- The header `hdr` and the bytes `body` behind it have been received. -/
structure InBody (r : FrameReader) (hdr body : List Byte) : Prop where
  length_eq : hdr.length = 8
  header_eq : r.curheader = (ofMem hdr).n2h
  contents_eq : r.msgbuffer.contents = hdr ++ body
  unread_eq : r.msgbuffer.unread = body
  length_le : body.length ≤ announced hdr

theorem inHeader_fresh : fresh.InHeader [] := ⟨rfl, rfl, rfl, by decide⟩

theorem InHeader.unread_eq {r : FrameReader} {s : List Byte} (h : r.InHeader s) :
    r.msgbuffer.unread = s := by
  rw [Buffer.unread_eq_contents h.offset_eq, h.contents_eq]

theorem InHeader.toNat_pos {r : FrameReader} {s : List Byte} (h : r.InHeader s) :
    r.msgbuffer.pos.toNat = s.length := by
  rw [← Buffer.length_contents, h.contents_eq]

theorem InHeader.toNat_length {r : FrameReader} {s : List Byte} (h : r.InHeader s) :
    r.msgbuffer.length.toNat = s.length := by
  rw [Buffer.toNat_length, h.unread_eq]

theorem InBody.toNat_size {r : FrameReader} {hdr body : List Byte} (h : r.InBody hdr body) :
    r.curheader.size.toNat = announced hdr := by
  rw [h.header_eq, toNat_size_n2h_ofMem]

theorem InBody.toNat_pos {r : FrameReader} {hdr body : List Byte} (h : r.InBody hdr body) :
    r.msgbuffer.pos.toNat = 8 + body.length := by
  rw [← Buffer.length_contents, h.contents_eq, List.length_append, h.length_eq]

theorem InBody.toNat_length {r : FrameReader} {hdr body : List Byte} (h : r.InBody hdr body) :
    r.msgbuffer.length.toNat = body.length := by
  rw [Buffer.toNat_length, h.unread_eq]

/-! ## What the blocks do -/

theorem cutHeader_short (limit : UInt32) {r : FrameReader} {s buf : List Byte}
    {tranByte : UInt32} (h : r.InHeader s) (hbuf : tranByte.toNat ≤ buf.length)
    (hshort : s.length + tranByte.toNat < 8) :
    ∃ r', r.cutHeader limit buf tranByte = some (.returned true r' tranByte) ∧
      r'.InHeader (s ++ buf.take tranByte.toNat) := by
  have hlt : tranByte + r.msgbuffer.length < hdrlen := by
    rw [UInt32.lt_iff_toNat_lt, UInt32.toNat_add, h.toNat_length]
    simp only [hdrlen, UInt32.reduceToNat]
    omega
  obtain ⟨m, hwrite, hm⟩ := r.msgbuffer.write_spec hbuf (by
    rw [h.toNat_pos, Buffer.writeLimit]
    omega)
  refine ⟨⟨m, r.curheader⟩, ?_, h.size_eq, ?_, ?_, ?_⟩
  · simp [cutHeader, h.size_eq, hlt, hwrite]
  · rw [hm.contents_eq, h.contents_eq]
  · rw [hm.offset_eq, h.offset_eq]
  · rw [List.length_append, List.length_take]
    omega

theorem cutHeader_full (limit : UInt32) {r : FrameReader} {s buf : List Byte}
    {tranByte : UInt32} (h : r.InHeader s) (hbuf : tranByte.toNat ≤ buf.length)
    (htran : tranByte.toNat < 2 ^ 31) (hfull : 8 ≤ s.length + tranByte.toNat) :
    ∃ r' tranByte', tranByte'.toNat = tranByte.toNat - (8 - s.length) ∧
      r'.InBody (s ++ buf.take (8 - s.length)) [] ∧
      r.cutHeader limit buf tranByte =
        some (if limit.toNat < announced (s ++ buf.take (8 - s.length)) then
          .returned false r' tranByte'
        else .ready r' (buf.drop (8 - s.length)) tranByte') := by
  have hs := h.length_lt
  have hlen : (s ++ buf.take (8 - s.length)).length = 8 := by
    rw [List.length_append, List.length_take]
    omega
  have hdata : ¬ r.msgbuffer.length ≥ hdrlen := by
    rw [ge_iff_le, UInt32.le_iff_toNat_le, h.toNat_length]
    simp only [hdrlen, UInt32.reduceToNat]
    omega
  have hge : ¬ tranByte + r.msgbuffer.length < hdrlen := by
    rw [UInt32.lt_iff_toNat_lt, UInt32.toNat_add, h.toNat_length]
    simp only [hdrlen, UInt32.reduceToNat]
    omega
  have hneed : (hdrlen - r.msgbuffer.length).toNat = 8 - s.length := by
    rw [UInt32.toNat_sub_of_le, h.toNat_length]
    · rfl
    · rw [UInt32.le_iff_toNat_le, h.toNat_length]
      simp only [hdrlen, UInt32.reduceToNat]
      omega
  obtain ⟨m, hwrite, hm⟩ := r.msgbuffer.write_spec
    (show (hdrlen - r.msgbuffer.length).toNat ≤ buf.length by omega) (by
      rw [h.toNat_pos, hneed, Buffer.writeLimit]
      omega)
  rw [hneed] at hm
  have hmunread : m.unread = s ++ buf.take (8 - s.length) := by
    rw [hm.unread_eq, h.unread_eq]
  obtain ⟨m', hread, hm'contents, hm'unread⟩ :=
    readFrom_spec r.curheader m (by rw [hmunread, hlen])
  have hofMem : m.unread.take 8 = s ++ buf.take (8 - s.length) := by
    rw [hmunread, List.take_of_length_le (by omega)]
  rw [hofMem] at hread
  refine ⟨⟨m', (ofMem (s ++ buf.take (8 - s.length))).n2h⟩,
    tranByte - (hdrlen - r.msgbuffer.length), ?_, ⟨hlen, rfl, ?_, ?_, Nat.zero_le _⟩, ?_⟩
  · rw [UInt32.toNat_sub_of_le, hneed]
    rw [UInt32.le_iff_toNat_le, hneed]
    omega
  · rw [hm'contents, hm.contents_eq, h.contents_eq, List.append_nil]
  · rw [hm'unread, hmunread, List.drop_eq_nil_of_le (by omega)]
  · have hlimit : (ofMem (s ++ buf.take (8 - s.length))).n2h.size > limit ↔
        limit.toNat < announced (s ++ buf.take (8 - s.length)) := by
      rw [gt_iff_lt, UInt32.lt_iff_toNat_lt, toNat_size_n2h_ofMem]
    simp only [cutHeader, h.size_eq, ne_eq, not_true_eq_false, if_false, hge, hdata, hwrite,
      hneed, Option.pure_def, Option.bind_eq_bind, Option.bind_some, hread, hlimit]
    split <;> rfl

theorem cutHeader_of_size_ne_zero {r : FrameReader} {limit : UInt32}
    (h : r.curheader.size ≠ 0) (buf : List Byte) (tranByte : UInt32) :
    r.cutHeader limit buf tranByte = some (.ready r buf tranByte) := by
  simp [cutHeader, h]

theorem InBody.toNat_need {r : FrameReader} {hdr body : List Byte} (h : r.InBody hdr body) :
    (r.curheader.size - r.msgbuffer.length).toNat = announced hdr - body.length := by
  rw [UInt32.toNat_sub_of_le, h.toNat_length, h.toNat_size]
  rw [UInt32.le_iff_toNat_le, h.toNat_length, h.toNat_size]
  exact h.length_le

/-- Where the body block returns, it has kept all bytes and the body is not complete. -/
theorem cutBody_returned {r r' : FrameReader} {hdr body buf : List Byte} {tranByte : UInt32}
    (h : r.InBody hdr body) (hcut : r.cutBody buf tranByte = some (.returned r')) :
    r'.InBody hdr (body ++ buf.take tranByte.toNat) ∧
      body.length + tranByte.toNat < announced hdr := by
  dsimp only [cutBody] at hcut
  split at hcut
  · rename_i hlt
    obtain ⟨m, hwrite, hr'⟩ := Option.bind_eq_some_iff.mp hcut
    cases hr'
    obtain ⟨hm, hsrc, hwrap⟩ := Buffer.appended_of_write hwrite
    rw [h.toNat_pos] at hwrap
    rw [UInt32.lt_iff_toNat_lt, UInt32.toNat_add, h.toNat_length, h.toNat_size,
      Nat.mod_eq_of_lt (by omega)] at hlt
    refine ⟨⟨h.length_eq, h.header_eq, ?_, ?_, ?_⟩, by omega⟩
    · rw [hm.contents_eq, h.contents_eq, List.append_assoc]
    · rw [hm.unread_eq, h.unread_eq]
    · rw [List.length_append, List.length_take]
      omega
  · obtain ⟨m, -, hr'⟩ := Option.bind_eq_some_iff.mp hcut
    cases hr'

/-- Where the body block completes a body, that body is unread in the buffer, and the
surplus is left to the caller. -/
theorem cutBody_completed {r r' : FrameReader} {hdr body buf buf' : List Byte}
    {tranByte tranByte' : UInt32} (h : r.InBody hdr body)
    (hcut : r.cutBody buf tranByte = some (.full r' buf' tranByte')) :
    announced hdr ≤ body.length + tranByte.toNat ∧
      tranByte'.toNat = tranByte.toNat - (announced hdr - body.length) ∧
      r'.curheader.size = 0 ∧
      r'.msgbuffer.unread = body ++ buf.take (announced hdr - body.length) ∧
      buf' = buf.drop (announced hdr - body.length) := by
  dsimp only [cutBody] at hcut
  split at hcut
  · obtain ⟨m, -, hr'⟩ := Option.bind_eq_some_iff.mp hcut
    cases hr'
  · rename_i hge
    obtain ⟨m, hwrite, hr'⟩ := Option.bind_eq_some_iff.mp hcut
    cases hr'
    obtain ⟨hm, hsrc, -⟩ := Buffer.appended_of_write hwrite
    rw [h.toNat_need] at hm hsrc
    have hsize := r.curheader.size.toNat_lt
    rw [h.toNat_size] at hsize
    rw [UInt32.not_lt, UInt32.le_iff_toNat_le, UInt32.toNat_add, h.toNat_length,
      h.toNat_size] at hge
    -- a sum that wraps is larger than any announced size
    have hfull : announced hdr ≤ body.length + tranByte.toNat :=
      le_trans hge (le_trans (Nat.mod_le _ _) (le_of_eq (Nat.add_comm _ _)))
    refine ⟨hfull, ?_, rfl, ?_, by rw [h.toNat_need]⟩
    · rw [UInt32.toNat_sub_of_le, h.toNat_need]
      rw [UInt32.le_iff_toNat_le, h.toNat_need]
      omega
    · rw [hm.unread_eq, h.unread_eq]

theorem cutBody_short {r : FrameReader} {hdr body buf : List Byte} {tranByte : UInt32}
    (h : r.InBody hdr body) (hbuf : tranByte.toNat ≤ buf.length)
    (hmax : announced hdr < 2 ^ 31) (hshort : body.length + tranByte.toNat < announced hdr) :
    ∃ r', r.cutBody buf tranByte = some (.returned r') ∧
      r'.InBody hdr (body ++ buf.take tranByte.toNat) := by
  have hlt : tranByte + r.msgbuffer.length < r.curheader.size := by
    rw [UInt32.lt_iff_toNat_lt, UInt32.toNat_add, h.toNat_length, h.toNat_size]
    omega
  obtain ⟨m, hwrite, -⟩ := r.msgbuffer.write_spec hbuf (by
    rw [h.toNat_pos, Buffer.writeLimit]
    omega)
  have hcut : r.cutBody buf tranByte = some (.returned { r with msgbuffer := m }) := by
    simp [cutBody, hlt, hwrite]
  exact ⟨_, hcut, (cutBody_returned h hcut).1⟩

theorem cutBody_full {r : FrameReader} {hdr body buf : List Byte} {tranByte : UInt32}
    (h : r.InBody hdr body) (hbuf : tranByte.toNat ≤ buf.length)
    (hmax : announced hdr < 2 ^ 31) (htran : tranByte.toNat < 2 ^ 31)
    (hfull : announced hdr ≤ body.length + tranByte.toNat) :
    ∃ r' tranByte', tranByte'.toNat = tranByte.toNat - (announced hdr - body.length) ∧
      r'.curheader.size = 0 ∧
      r'.msgbuffer.unread = body ++ buf.take (announced hdr - body.length) ∧
      r.cutBody buf tranByte =
        some (.full r' (buf.drop (announced hdr - body.length)) tranByte') := by
  have hle := h.length_le
  have hge : ¬ tranByte + r.msgbuffer.length < r.curheader.size := by
    rw [UInt32.lt_iff_toNat_lt, UInt32.toNat_add, h.toNat_length, h.toNat_size]
    omega
  obtain ⟨m, hwrite, -⟩ := r.msgbuffer.write_spec
    (show (r.curheader.size - r.msgbuffer.length).toNat ≤ buf.length by
      rw [h.toNat_need]
      omega) (by
      rw [h.toNat_pos, h.toNat_need, Buffer.writeLimit]
      omega)
  have hcut : r.cutBody buf tranByte =
      some (.full ⟨m, { r.curheader with size := 0 }⟩
        (buf.drop (announced hdr - body.length))
        (tranByte - (r.curheader.size - r.msgbuffer.length))) := by
    simp [cutBody, hge, hwrite, h.toNat_need]
  obtain ⟨-, htran', hsize, hunread, -⟩ := cutBody_completed h hcut
  exact ⟨_, _, htran', hsize, hunread, hcut⟩

end FrameReader

end Slience
