import Slience.Netio.SyncStream

/-!
# A header that announces too much at the blocking connector

`_CutMsgPack` answers a header that announces more than `packLimit` bytes as it answers
one that is incomplete, and keeps it.  `Recv` goes on: the chunks behind the one with the
end of the header become the message, once there are enough of them.  `Stalls` says of
the bytes that `Recv` looks at that no message comes out of them.
-/

namespace Slience

namespace Buffer

/-- The capacity after a write that ends at `pos`. -/
def grown (size pos : ℕ) : ℕ :=
  if size < pos then defaultSize.toNat * (pos / defaultSize.toNat + 1) else size

/-- A buffer of `size` bytes, `pos` of them written, takes writes of `ns` bytes. -/
def Room (size pos : ℕ) : List ℕ → Prop
  | [] => True
  | n :: ns =>
      (pos + n ≤ size ∨ pos + n < writeLimit) ∧ Room (grown size (pos + n)) (pos + n) ns

theorem room_of_lt {size pos : ℕ} {ns : List ℕ} (h : pos + ns.sum < writeLimit) :
    Room size pos ns := by
  induction ns generalizing size pos with
  | nil => trivial
  | cons n ns ih =>
      rw [List.sum_cons] at h
      constructor
      · right
        omega
      · apply ih
        omega

theorem size_of_write {b b' : Buffer} {src : List Byte} {len : UInt32}
    (h : b.write src len = some b') :
    (b.pos.toNat + len.toNat ≤ b.size.toNat ∨ b.pos.toNat + len.toNat < writeLimit) ∧
      b'.size.toNat = grown b.size.toNat (b.pos.toNat + len.toNat) := by
  unfold write at h
  split at h
  · rename_i hfit
    cases h
    have hlt := (b.writeSize len).toNat_lt
    have hsum : (b.pos + len).toNat = b.pos.toNat + len.toNat := by
      rw [UInt32.toNat_add]
      omega
    change _ ∧ (b.writeSize len).toNat = _
    have hfit' := hfit.1
    by_cases hgrow : b.size.toNat < b.pos.toNat + len.toNat
    · have hgt : b.pos + len > b.size := by rwa [gt_iff_lt, UInt32.lt_iff_toNat_lt, hsum]
      rw [writeSize, if_pos hgt, UInt32.toNat_mul, UInt32.toNat_add, UInt32.toNat_div, hsum]
        at hfit' ⊢
      rw [grown, if_pos hgrow]
      simp only [defaultSize, UInt32.reduceToNat, writeLimit] at hfit' ⊢
      omega
    · have hle : ¬ b.pos + len > b.size := by rwa [gt_iff_lt, UInt32.lt_iff_toNat_lt, hsum]
      rw [writeSize, if_neg hle, grown, if_neg hgrow]
      exact ⟨Or.inl (not_lt.mp hgrow), rfl⟩
  · cases h

theorem exists_write {b : Buffer} {src : List Byte} {len : UInt32}
    (hsrc : len.toNat ≤ src.length)
    (h : b.pos.toNat + len.toNat ≤ b.size.toNat ∨ b.pos.toNat + len.toNat < writeLimit) :
    ∃ b', b.write src len = some b' := by
  rcases h with h | h
  · have hlt := b.size.toNat_lt
    have hfit : ¬ b.pos + len > b.size := by
      rw [gt_iff_lt, UInt32.not_lt, UInt32.le_iff_toNat_le, UInt32.toNat_add]
      exact le_trans (Nat.mod_le _ _) h
    unfold write
    rw [dif_pos]
    · exact ⟨_, rfl⟩
    · rw [writeSize, if_neg hfit]
      exact ⟨h, hsrc⟩
  · obtain ⟨b', hb', -⟩ := b.write_spec hsrc h
    exact ⟨b', hb'⟩

theorem size_of_read {b b' : Buffer} {len : UInt32} {bytes : Option (List Byte)}
    (h : b.read len = some (bytes, b')) : b'.size = b.size := by
  unfold read at h
  split_ifs at h <;> cases h <;> rfl

/-- The bytes of a header do not make the capacity depend on how they were written. -/
theorem grown_grown {size pos : ℕ} (h : pos ≤ 8) : grown (grown size pos) 8 = grown size 8 := by
  have hdefault : defaultSize.toNat = 1024 := rfl
  unfold grown
  rw [hdefault]
  split_ifs <;> omega

end Buffer

namespace FrameReader

theorem size_of_readFrom {old header : MessageHeader} {b b' : Buffer}
    (h : old.readFrom b = some (header, b')) : b'.size = b.size := by
  unfold MessageHeader.readFrom at h
  split at h
  · cases h
  · rename_i hread
    cases h
    exact Buffer.size_of_read hread
  · rename_i hread
    cases h
    exact Buffer.size_of_read hread

end FrameReader

/-- The reader behind the header block of `_CutMsgPack`. -/
def HeaderCut.reader : HeaderCut → FrameReader
  | .returned _ r _ => r
  | .ready r _ _ => r

namespace FrameReader

theorem grown_cutHeader {r : FrameReader} {limit : UInt32} {got buf : List Byte}
    {tranByte : UInt32} {res : HeaderCut} (h : r.InHeader got) (htran : tranByte.toNat < 2 ^ 31)
    (hres : r.cutHeader limit buf tranByte = some res) :
    Buffer.grown res.reader.msgbuffer.size.toNat 8 =
      Buffer.grown r.msgbuffer.size.toNat 8 := by
  have hgot := h.length_lt
  have hwritten : ∀ {m : Buffer} {len : UInt32}, r.msgbuffer.write buf len = some m →
      got.length + len.toNat ≤ 8 →
      Buffer.grown m.size.toNat 8 = Buffer.grown r.msgbuffer.size.toNat 8 := by
    intro m len hm hle
    rw [(Buffer.size_of_write hm).2, h.toNat_pos]
    exact Buffer.grown_grown hle
  simp only [cutHeader, h.size_eq, ne_eq, not_true_eq_false, if_false, Option.pure_def,
    Option.bind_eq_bind] at hres
  split_ifs at hres with hshort hdata
  · obtain ⟨m, hm, hr⟩ := Option.bind_eq_some_iff.mp hres
    cases hr
    refine hwritten hm ?_
    rw [UInt32.lt_iff_toNat_lt, UInt32.toNat_add, h.toNat_length] at hshort
    simp only [MessageHeader.hdrlen, UInt32.reduceToNat] at hshort
    omega
  · rw [ge_iff_le, UInt32.le_iff_toNat_le, h.toNat_length] at hdata
    simp only [MessageHeader.hdrlen, UInt32.reduceToNat] at hdata
    omega
  · have hneed : (MessageHeader.hdrlen - r.msgbuffer.length).toNat = 8 - got.length := by
      rw [UInt32.toNat_sub_of_le, h.toNat_length]
      · rfl
      · exact UInt32.le_of_lt (UInt32.not_le.mp hdata)
    obtain ⟨m, hm, hrest⟩ := Option.bind_eq_some_iff.mp hres
    rw [Option.bind_some] at hrest
    obtain ⟨⟨header, m''⟩, hread, hrest⟩ := Option.bind_eq_some_iff.mp hrest
    have hsize : res.reader.msgbuffer.size = m.size := by
      rw [← size_of_readFrom hread]
      dsimp only at hrest
      split_ifs at hrest <;> cases hrest <;> rfl
    rw [hsize]
    refine hwritten hm ?_
    rw [hneed]
    omega

/-- The body block returns exactly when the bytes are too few for the body and the buffer
takes them. -/
theorem cutBody_returned_iff {r : FrameReader} {hdr body buf : List Byte} {tranByte : UInt32}
    (h : r.InBody hdr body) (hbuf : tranByte.toNat ≤ buf.length) :
    (∃ r', r.cutBody buf tranByte = some (.returned r')) ↔
      body.length + tranByte.toNat < announced hdr ∧
        (8 + body.length + tranByte.toNat ≤ r.msgbuffer.size.toNat ∨
          8 + body.length + tranByte.toNat < Buffer.writeLimit) := by
  constructor
  · rintro ⟨r', hcut⟩
    refine ⟨(cutBody_returned h hcut).2, ?_⟩
    dsimp only [cutBody] at hcut
    split at hcut
    · obtain ⟨m, hwrite, -⟩ := Option.bind_eq_some_iff.mp hcut
      have hroom := (Buffer.size_of_write hwrite).1
      rwa [h.toNat_pos] at hroom
    · obtain ⟨m, -, hr'⟩ := Option.bind_eq_some_iff.mp hcut
      cases hr'
  · rintro ⟨hshort, hroom⟩
    have hsize := r.curheader.size.toNat_lt
    rw [h.toNat_size] at hsize
    have hlt : tranByte + r.msgbuffer.length < r.curheader.size := by
      rw [UInt32.lt_iff_toNat_lt, UInt32.toNat_add, h.toNat_length, h.toNat_size]
      omega
    rw [← h.toNat_pos] at hroom
    obtain ⟨m, hwrite⟩ := Buffer.exists_write hbuf hroom
    exact ⟨{ r with msgbuffer := m }, by simp [cutBody, hlt, hwrite]⟩

theorem size_of_cutBody {r r' : FrameReader} {hdr body buf : List Byte} {tranByte : UInt32}
    (h : r.InBody hdr body) (hcut : r.cutBody buf tranByte = some (.returned r')) :
    r'.msgbuffer.size.toNat =
      Buffer.grown r.msgbuffer.size.toNat (8 + body.length + tranByte.toNat) := by
  dsimp only [cutBody] at hcut
  split at hcut
  · obtain ⟨m, hwrite, hr'⟩ := Option.bind_eq_some_iff.mp hcut
    cases hr'
    rw [← h.toNat_pos]
    exact (Buffer.size_of_write hwrite).2
  · obtain ⟨m, -, hr'⟩ := Option.bind_eq_some_iff.mp hcut
    cases hr'

end FrameReader

namespace SyncConnector

open FrameReader (InHeader InBody)

/-! ## Calls that return null -/

/-- The loop of `Recv` returns null. -/
def Idle (s : SyncConnector) (chunks : List (List Byte)) : Prop :=
  ∃ s' rest, s.recvLoop chunks = some ⟨false, s', rest⟩

theorem flag_of_recvLoop {s s' : SyncConnector} {chunks rest : List (List Byte)}
    (h : s.recvLoop chunks = some ⟨false, s', rest⟩) : s'.flag = .stop := by
  induction chunks generalizing s with
  | nil =>
      cases h
      rfl
  | cons c cs ih =>
      unfold recvLoop at h
      split_ifs at h with hempty
      · cases h
        rfl
      · split at h
        · cases h
        · cases h
        · exact ih h

theorem idle_nil (s : SyncConnector) : s.Idle [] := ⟨_, _, rfl⟩

/-- `Recv` goes on after a call of `_CutMsgPack` that returned null. -/
def Continues (s : SyncConnector) (chunks : List (List Byte)) : Prop :=
  ∃ s', s.cut = some (false, s') ∧ s'.Idle chunks

/-- `RecvSome` has put the bytes `c` into `_readbuf`. -/
def filled (s : SyncConnector) (c : List Byte) : SyncConnector :=
  { s with readbuf := blit s.readbuf 0 c, readsize := UInt32.ofNat c.length }

theorem toNat_readsize_filled {s : SyncConnector} {c : List Byte}
    (hc : c.length ≤ socketReadSize) : (s.filled c).readsize.toNat = c.length :=
  toNat_chunk_length hc

theorem take_readbuf_filled {s : SyncConnector} {c : List Byte}
    (hc : c.length ≤ socketReadSize) :
    (s.filled c).readbuf.take (s.filled c).readsize.toNat = c := by
  rw [toNat_readsize_filled hc]
  exact take_blit_zero _ _

theorem readsize_filled_le {s : SyncConnector} {c : List Byte}
    (hc : c.length ≤ socketReadSize) :
    (s.filled c).readsize.toNat ≤ (s.filled c).readbuf.length := by
  rw [toNat_readsize_filled hc]
  exact le_length_blit_zero _ _

theorem idle_cons_iff {s : SyncConnector} {c : List Byte} {cs : List (List Byte)}
    (hc : c ≠ []) : s.Idle (c :: cs) ↔ (s.filled c).Continues cs := by
  have hlen : ¬ c.length = 0 := by rwa [List.length_eq_zero_iff]
  have hchunk : s.recvChunk c = (s.filled c).cut := rfl
  unfold Idle Continues
  rw [recvLoop, if_neg hlen, hchunk]
  cases (s.filled c).cut with
  | none => simp
  | some res =>
      obtain ⟨reply, s'⟩ := res
      cases reply <;> simp [Idle]

/-- Behind its header, `_CutMsgPack` returns null where its body block returns. -/
theorem cut_false_iff {s s' : SyncConnector} {hdr body : List Byte}
    (h : s.frame.InBody hdr body) (hlt : body.length < announced hdr) :
    s.cut = some (false, s') ↔
      ∃ r, s.frame.cutBody s.readbuf s.readsize = some (.returned r) ∧
        s' = { s with frame := r } := by
  unfold cut cutMsgPack
  rw [FrameReader.cutHeader_of_size_ne_zero (Got.size_ne_zero h hlt)]
  dsimp only
  unfold copyBody
  cases s.frame.cutBody s.readbuf s.readsize with
  | none => simp
  | some res => cases res <;> simp [eq_comm]

/-- Behind a header the loop of `Recv` returns null exactly when the chunks are too few
for the message and the buffer takes them. -/
theorem idle_inBody_iff {s : SyncConnector} {hdr body : List Byte}
    {chunks : List (List Byte)} (h : s.frame.InBody hdr body)
    (hlt : body.length < announced hdr)
    (hchunks : ∀ c ∈ chunks, c ≠ [] ∧ c.length ≤ socketReadSize) :
    s.Idle chunks ↔
      body.length + chunks.flatten.length < announced hdr ∧
        Buffer.Room s.frame.msgbuffer.size.toNat (8 + body.length)
          (chunks.map List.length) := by
  induction chunks generalizing s body with
  | nil => simp [idle_nil, Buffer.Room, hlt]
  | cons c cs ih =>
      obtain ⟨hne, hc⟩ := hchunks c (by simp)
      have hreturn := FrameReader.cutBody_returned_iff (r := (s.filled c).frame) h
        (readsize_filled_le (s := s) hc)
      rw [toNat_readsize_filled hc] at hreturn
      -- the state behind the chunk, if the body block returns
      have hnext : ∀ {r : FrameReader},
          s.frame.cutBody (s.filled c).readbuf (s.filled c).readsize = some (.returned r) →
          (Idle { s.filled c with frame := r } cs ↔
            body.length + (c :: cs).flatten.length < announced hdr ∧
              Buffer.Room (Buffer.grown s.frame.msgbuffer.size.toNat
                (8 + body.length + c.length)) (8 + body.length + c.length)
                (cs.map List.length)) := by
        intro r hr
        obtain ⟨hbody, hshort⟩ := FrameReader.cutBody_returned h hr
        have hsize := FrameReader.size_of_cutBody h hr
        rw [toNat_readsize_filled hc] at hshort hsize
        rw [take_readbuf_filled hc] at hbody
        have hiff := ih (s := { s.filled c with frame := r }) hbody
          (by rwa [List.length_append]) (fun d hd ↦ hchunks d (by simp [hd]))
        rw [hiff, hsize, List.flatten_cons, List.length_append, List.length_append,
          Nat.add_assoc, Nat.add_assoc 8]
      rw [idle_cons_iff hne, List.map_cons, Buffer.Room]
      constructor
      · rintro ⟨s', hcut, hidle⟩
        obtain ⟨r, hr, rfl⟩ := (cut_false_iff (s := s.filled c) h hlt).mp hcut
        obtain ⟨hshort, hroom⟩ := (hnext hr).mp hidle
        exact ⟨hshort, (hreturn.mp ⟨r, hr⟩).2, hroom⟩
      · rintro ⟨hshort, hfirst, hroom⟩
        have hfit : body.length + c.length < announced hdr := by
          rw [List.flatten_cons, List.length_append] at hshort
          omega
        obtain ⟨r, hr⟩ := hreturn.mpr ⟨hfit, hfirst⟩
        exact ⟨_, (cut_false_iff (s := s.filled c) h hlt).mpr ⟨r, hr, rfl⟩,
          (hnext hr).mpr ⟨hshort, hroom⟩⟩

/-- The chunks behind the one that brings the first `n` bytes. -/
def behind : ℕ → List (List Byte) → List (List Byte)
  | _, [] => []
  | n, c :: cs => if c.length < n then behind (n - c.length) cs else cs

/-- No message comes out of `chunks` where `got` has been kept of a header.  If the
header announces at most `packLimit` bytes, some of them are missing.  Otherwise they are
missing in the chunks behind the header, which a buffer that had `size` bytes takes. -/
@[mk_iff]
structure Stalls (size : ℕ) (got : List Byte) (chunks : List (List Byte)) : Prop where
  small : 8 ≤ (got ++ chunks.flatten).length →
    announced ((got ++ chunks.flatten).take 8) ≤ packLimit.toNat →
    (got ++ chunks.flatten).length < 8 + announced ((got ++ chunks.flatten).take 8)
  large : 8 ≤ (got ++ chunks.flatten).length →
    packLimit.toNat < announced ((got ++ chunks.flatten).take 8) →
    (behind (8 - got.length) chunks).flatten.length <
        announced ((got ++ chunks.flatten).take 8) ∧
      Buffer.Room (Buffer.grown size 8) 8
        ((behind (8 - got.length) chunks).map List.length)

theorem stalls_nil {size : ℕ} {got : List Byte} (h : got.length < 8) : Stalls size got [] := by
  constructor <;>
  · rw [List.flatten_nil, List.append_nil]
    intro hfull
    omega

theorem stalls_cons_iff {size size' : ℕ} {got c : List Byte} {cs : List (List Byte)}
    (h : got.length + c.length < 8) (hsize : Buffer.grown size' 8 = Buffer.grown size 8) :
    Stalls size' (got ++ c) cs ↔ Stalls size got (c :: cs) := by
  have hflat : got ++ (c :: cs).flatten = (got ++ c) ++ cs.flatten := by
    rw [List.flatten_cons, List.append_assoc]
  have hbehind : behind (8 - got.length) (c :: cs) = behind (8 - (got ++ c).length) cs := by
    rw [behind, if_pos (by omega), List.length_append, Nat.sub_sub]
  rw [stalls_iff, stalls_iff, hflat, hbehind, hsize]

theorem stalls_header_iff {size : ℕ} {got c hdr rest : List Byte} {cs : List (List Byte)}
    (h : got ++ c = hdr ++ rest) (hlen : hdr.length = 8) (hgot : got.length < 8) :
    Stalls size got (c :: cs) ↔
      (announced hdr ≤ packLimit.toNat →
        rest.length + cs.flatten.length < announced hdr) ∧
      (packLimit.toNat < announced hdr → cs.flatten.length < announced hdr ∧
        Buffer.Room (Buffer.grown size 8) 8 (cs.map List.length)) := by
  have hflat : got ++ (c :: cs).flatten = hdr ++ (rest ++ cs.flatten) := by
    rw [List.flatten_cons, ← List.append_assoc, h, List.append_assoc]
  have htotal := congrArg List.length h
  rw [List.length_append, List.length_append] at htotal
  have hbehind : behind (8 - got.length) (c :: cs) = cs := by
    rw [behind, if_neg (by omega)]
  have htake : (hdr ++ (rest ++ cs.flatten)).take 8 = hdr := by rw [← hlen, List.take_left]
  have hcount : (hdr ++ (rest ++ cs.flatten)).length =
      8 + (rest.length + cs.flatten.length) := by
    rw [List.length_append, List.length_append, hlen]
  rw [stalls_iff, hflat, hbehind, htake, hcount]
  simp only [Nat.le_add_right, Nat.add_lt_add_iff_left, true_implies]

theorem continues_iff {s s' : SyncConnector} {chunks : List (List Byte)} {reply : Bool}
    (h : s.cut = some (reply, s')) : s.Continues chunks ↔ reply = false ∧ s'.Idle chunks := by
  simp [Continues, h]

section Header

variable {s : SyncConnector} {r : FrameReader} {hdr buf : List Byte} {tranByte : UInt32}
  {cs : List (List Byte)}

/-- A header that announces too much is kept, and the bytes behind it are dropped. -/
theorem continues_large_iff
    (hcut : s.frame.cutHeader packLimit s.readbuf s.readsize =
      some (.returned false r tranByte))
    (hr : r.InBody hdr []) (hlarge : packLimit.toNat < announced hdr)
    (hcs : ∀ c ∈ cs, c ≠ [] ∧ c.length ≤ socketReadSize) :
    s.Continues cs ↔ cs.flatten.length < announced hdr ∧
      Buffer.Room r.msgbuffer.size.toNat 8 (cs.map List.length) := by
  have hmsg : cutMsgPack s.frame s.readbuf s.readsize = some ⟨false, r, tranByte⟩ := by
    rw [cutMsgPack, hcut]
  have hpos : ([] : List Byte).length < announced hdr :=
    lt_of_le_of_lt (Nat.zero_le _) hlarge
  have hidle := idle_inBody_iff (s := { s with frame := r, readsize := tranByte }) hr hpos hcs
  rw [List.length_nil, Nat.zero_add, Nat.add_zero] at hidle
  rw [continues_iff (cut_eq hmsg)]
  exact (and_iff_right rfl).trans hidle

theorem continues_small_iff
    (hcut : s.frame.cutHeader packLimit s.readbuf s.readsize = some (.ready r buf tranByte))
    (hr : r.InBody hdr []) (hbuf : tranByte.toNat ≤ buf.length)
    (htran : tranByte.toNat < 2 ^ 31) (hsmall : announced hdr ≤ packLimit.toNat)
    (hcs : ∀ c ∈ cs, c ≠ [] ∧ c.length ≤ socketReadSize) :
    s.Continues cs ↔ tranByte.toNat + cs.flatten.length < announced hdr := by
  have hlimit : packLimit.toNat = 65527 := rfl
  have hmax : announced hdr < 2 ^ 31 := by omega
  have hmsg : cutMsgPack s.frame s.readbuf s.readsize = copyBody r buf tranByte := by
    rw [cutMsgPack, hcut]
  by_cases hbody : tranByte.toNat < announced hdr
  · obtain ⟨r', hcopy, hr'⟩ := FrameReader.cutBody_short hr hbuf hmax (by
      rwa [List.length_nil, Nat.zero_add])
    rw [copyBody, hcopy] at hmsg
    have hlen : ([] ++ buf.take tranByte.toNat).length = tranByte.toNat := by
      rw [List.nil_append, List.length_take]
      omega
    have hidle := idle_inBody_iff (s := { s with frame := r', readsize := tranByte }) hr'
      (by rwa [hlen]) hcs
    rw [hlen] at hidle
    rw [continues_iff (cut_eq hmsg), hidle]
    constructor
    · rintro ⟨-, hshort, -⟩
      exact hshort
    · intro hshort
      refine ⟨rfl, hshort, Buffer.room_of_lt ?_⟩
      rw [← List.length_flatten, Buffer.writeLimit]
      omega
  · obtain ⟨r', tranByte', -, -, -, hcopy⟩ := FrameReader.cutBody_full hr hbuf hmax htran (by
      rw [List.length_nil, Nat.zero_add]
      exact not_lt.mp hbody)
    rw [copyBody, hcopy] at hmsg
    rw [continues_iff (cut_eq hmsg)]
    constructor
    · rintro ⟨hfalse, -⟩
      cases hfalse
    · intro hlt
      omega

end Header

/-- One call of `_CutMsgPack` on the bytes `_readsize` counts, before the end of a
header. -/
theorem continues_inHeader_iff {s : SyncConnector} {got : List Byte}
    {cs : List (List Byte)} (h : s.frame.InHeader got)
    (hbuf : s.readsize.toNat ≤ s.readbuf.length) (htran : s.readsize.toNat < 2 ^ 31)
    (hcs : ∀ c ∈ cs, c ≠ [] ∧ c.length ≤ socketReadSize)
    (ih : ∀ {s' : SyncConnector} {got' : List Byte}, s'.frame.InHeader got' →
      (s'.Idle cs ↔ Stalls s'.frame.msgbuffer.size.toNat got' cs)) :
    s.Continues cs ↔
      Stalls s.frame.msgbuffer.size.toNat got (s.readbuf.take s.readsize.toNat :: cs) := by
  have hgot := h.length_lt
  by_cases hshort : got.length + s.readsize.toNat < 8
  · obtain ⟨r, hcut, hr⟩ := FrameReader.cutHeader_short packLimit h hbuf hshort
    have hsize := FrameReader.grown_cutHeader h htran hcut
    have hmsg : cutMsgPack s.frame s.readbuf s.readsize = some ⟨false, r, s.readsize⟩ := by
      rw [cutMsgPack, hcut]
    have hlen : got.length + (s.readbuf.take s.readsize.toNat).length < 8 := by
      rw [List.length_take]
      omega
    rw [continues_iff (cut_eq hmsg)]
    exact (and_iff_right rfl).trans ((ih hr).trans (stalls_cons_iff hlen hsize))
  · obtain ⟨r, tranByte, htran', hr, hcut⟩ :=
      FrameReader.cutHeader_full packLimit h hbuf htran (not_lt.mp hshort)
    have hsplit : got ++ s.readbuf.take s.readsize.toNat =
        (got ++ s.readbuf.take (8 - got.length)) ++
          (s.readbuf.drop (8 - got.length)).take tranByte.toNat := by
      rw [TcpStreamSocket.take_eq_take_append
        (show 8 - got.length ≤ s.readsize.toNat by omega), htran', List.append_assoc]
    have hbuf' : tranByte.toNat ≤ (s.readbuf.drop (8 - got.length)).length := by
      rw [List.length_drop]
      omega
    have hrest : ((s.readbuf.drop (8 - got.length)).take tranByte.toNat).length =
        tranByte.toNat := by
      rw [List.length_take]
      omega
    rw [stalls_header_iff hsplit hr.length_eq hgot, hrest]
    split_ifs at hcut with hlarge
    · have hsize := FrameReader.grown_cutHeader h htran hcut
      have hle := r.msgbuffer.pos_le_size
      rw [hr.toNat_pos, List.length_nil] at hle
      have hheld : Buffer.grown r.msgbuffer.size.toNat 8 = r.msgbuffer.size.toNat :=
        if_neg (not_lt.mpr hle)
      rw [continues_large_iff hcut hr hlarge hcs, ← hsize, HeaderCut.reader, hheld]
      simp only [hlarge, not_le.mpr hlarge, true_and, false_implies, true_implies]
    · rw [continues_small_iff hcut hr hbuf' (by omega) (not_lt.mp hlarge) hcs]
      simp only [hlarge, not_lt.mp hlarge, false_implies, true_implies, and_true]

/-- The loop of `Recv` returns null exactly when no message comes out of the chunks.
The induction is on the chunks. -/
theorem idle_iff {s : SyncConnector} {got : List Byte} {chunks : List (List Byte)}
    (h : s.frame.InHeader got) (hchunks : ∀ c ∈ chunks, c ≠ [] ∧ c.length ≤ socketReadSize) :
    s.Idle chunks ↔ Stalls s.frame.msgbuffer.size.toNat got chunks := by
  induction chunks generalizing s got with
  | nil => exact iff_of_true (idle_nil s) (stalls_nil h.length_lt)
  | cons c cs ih =>
      obtain ⟨hne, hc⟩ := hchunks c (by simp)
      have hcs : ∀ d ∈ cs, d ≠ [] ∧ d.length ≤ socketReadSize :=
        fun d hd ↦ hchunks d (by simp [hd])
      have hmax : c.length ≤ 4096 := hc
      rw [idle_cons_iff hne]
      have hcontinues := continues_inHeader_iff (s := s.filled c) h (readsize_filled_le hc)
        (by rw [toNat_readsize_filled hc]; omega) hcs (fun h' ↦ ih h' hcs)
      rwa [take_readbuf_filled hc] at hcontinues

/-! ## One call of `Recv` -/

theorem recv_false_iff {s : SyncConnector} {c : List Byte} {k : ℕ}
    {chunks : List (List Byte)} (h : s.Ready c k)
    (hchunks : ∀ d ∈ chunks, d ≠ [] ∧ d.length ≤ socketReadSize) :
    (∃ s' rest, s.recv chunks = some ⟨false, s', rest⟩) ↔
      Stalls s.frame.msgbuffer.size.toNat [] (c.take k :: chunks) := by
  let s₀ : SyncConnector :=
    { s with frame := { s.frame with msgbuffer := s.frame.msgbuffer.clear } }
  have hclear : s₀.frame.InHeader [] := inHeader_clear h.size_eq
  have hstart : s.recvStart = if s₀.readsize > 0 then s₀.cut else some (false, s₀) := rfl
  have htake : s₀.readbuf.take s₀.readsize.toNat = c.take k := h.take_take
  change _ ↔ Stalls s₀.frame.msgbuffer.size.toNat [] (c.take k :: chunks)
  rw [recv, if_neg (not_not.mpr h.flag_eq), hstart]
  split_ifs with hk
  · rw [← htake, ← continues_inHeader_iff (s := s₀) hclear h.readsize_le.1 h.readsize_le.2
      hchunks (fun h' ↦ idle_iff h' hchunks)]
    unfold Continues Idle
    cases s₀.cut with
    | none => simp
    | some res =>
        obtain ⟨reply, s'⟩ := res
        cases reply <;> simp
  · have hzero : k = 0 := by
      have hsize : s₀.readsize.toNat = k := h.toNat_readsize
      rw [gt_iff_lt, UInt32.not_lt, UInt32.le_iff_toNat_le, UInt32.toNat_zero, hsize] at hk
      omega
    subst hzero
    rw [List.take_zero]
    exact (idle_iff hclear hchunks).trans (stalls_cons_iff
      (show ([] : List Byte).length + ([] : List Byte).length < 8 by decide) rfl)

/-- The next call of `Recv` returns null and closes the connection, and the calls behind
it return null. -/
def Refuses (s : SyncConnector) (chunks : List (List Byte)) : Prop :=
  ∃ s' rest, s.recv chunks = some ⟨false, s', rest⟩ ∧ s'.flag = .stop ∧
    ∀ m, recvAll m s' rest = some (List.replicate m none)

theorem recvAll_of_stop {s : SyncConnector} (h : s.flag = .stop) (m : ℕ)
    (chunks : List (List Byte)) : recvAll m s chunks = some (List.replicate m none) := by
  have hrecv : s.recv chunks = some ⟨false, s, chunks⟩ := by
    rw [recv, if_pos]
    rw [h]
    decide
  induction m with
  | zero => rfl
  | succ m ih =>
      rw [List.replicate_succ]
      exact recvAll_succ.mpr ⟨_, hrecv, rfl, ih⟩

theorem flag_of_recv {s s' : SyncConnector} {c : List Byte} {k : ℕ}
    {chunks rest : List (List Byte)} (h : s.Ready c k)
    (hres : s.recv chunks = some ⟨false, s', rest⟩) : s'.flag = .stop := by
  rw [recv, if_neg (not_not.mpr h.flag_eq)] at hres
  split at hres
  · cases hres
  · cases hres
  · exact flag_of_recvLoop hres

theorem refuses_ready_iff {s : SyncConnector} {c : List Byte} {k : ℕ}
    {chunks : List (List Byte)} (h : s.Ready c k)
    (hchunks : ∀ d ∈ chunks, d ≠ [] ∧ d.length ≤ socketReadSize) :
    s.Refuses chunks ↔ Stalls s.frame.msgbuffer.size.toNat [] (c.take k :: chunks) := by
  rw [← recv_false_iff h hchunks]
  constructor
  · rintro ⟨s', rest, hrecv, -⟩
    exact ⟨s', rest, hrecv⟩
  · rintro ⟨s', rest, hrecv⟩
    have hstop := flag_of_recv h hrecv
    exact ⟨s', rest, hrecv, hstop, fun m ↦ recvAll_of_stop hstop m rest⟩

/-! ## The calls before it -/

/-- The next calls of `Recv` return the messages `datas`. -/
inductive Receives : SyncConnector → List (List Byte) → List (List Byte) → SyncConnector →
    List (List Byte) → Prop
  | nil (s : SyncConnector) (chunks : List (List Byte)) : Receives s chunks [] s chunks
  | cons {s s' : SyncConnector} {chunks rest datas : List (List Byte)} {data : List Byte}
      {res : Received} (recv_eq : s.recv chunks = some res)
      (payload_eq : res.payload = some data) (more : Receives res.conn res.rest datas s' rest) :
      Receives s chunks (data :: datas) s' rest

/-- The bytes of the stream that a call of `Recv` looks at when the messages before the
index `p` have been returned. -/
def lookedAt : ℕ → List (List Byte) → List (List Byte)
  | _, [] => []
  | p, c :: cs => if p < c.length then c.take (c.length - p) :: cs else lookedAt (p - c.length) cs

/-- The messages that are returned are the ones sent exactly when each of them fits; what
is left is the stream behind them. -/
theorem Receives.ready {sent : List (Int32 × List Byte)} {tail : List Byte}
    {s s' : SyncConnector} {past chunks rest : List (List Byte)} {k : ℕ}
    (h : s.Ready (past.getLastD []) k)
    (hchunks : ∀ c ∈ chunks, c.length ≤ socketReadSize)
    (hsent : ∀ x ∈ sent, x.2.length ≤ packLimit.toNat)
    (hstream : (past ++ chunks).flatten.drop (past.flatten.length - k) = wire sent ++ tail)
    (hres : Receives s chunks (sent.map Prod.snd) s' rest) :
    (∀ before x after, sent = before ++ x :: after →
      FrameFits (past ++ chunks) (past.flatten.length - k + (wire before).length)
        x.2.length) ∧
    ∃ read n, chunks = read ++ rest ∧ s'.Ready ((past ++ read).getLastD []) n ∧
      (past ++ read).flatten.length - n =
        past.flatten.length - k + (wire sent).length := by
  induction sent generalizing s past chunks k with
  | nil =>
      cases hres
      refine ⟨fun before x after hsplit ↦ absurd hsplit (by simp), [], k, rfl, ?_, ?_⟩
      · rwa [List.append_nil]
      · rw [List.append_nil]
        rfl
  | cons x sent ih =>
      have hk := h.le_length
      have hx := hsent x (by simp)
      have hdata : x.2.length ≤ socketPackSize.toNat := le_trans hx (by decide)
      rw [wire_cons, List.append_assoc] at hstream
      rw [List.map_cons] at hres
      cases hres with
      | cons recv_eq payload_eq more =>
          obtain ⟨hreply, hunread⟩ := Received.payload_eq_some.mp payload_eq
          obtain ⟨read, hdr, n, lost, hread, hready, hf⟩ :=
            recv_framed h hchunks recv_eq hreply
          rw [hunread] at hf
          have hlost : lost = 0 := by
            by_contra hne
            have hlarge := (hf.lost_ne hne).2.1
            omega
          subst hlost
          obtain ⟨hnext, htail⟩ := hf.next hk hread hstream
          obtain ⟨hfits, read', n', hread', hready', hpos⟩ := ih hready
            (fun c hc ↦ hchunks c (by rw [hread]; simp [hc]))
            (fun y hy ↦ hsent y (by simp [hy])) htail more
          rw [List.append_assoc, ← hread, hnext] at hfits
          refine ⟨forall_split_cons.mpr ⟨hf.frameFits hk hdata hstream hread, ?_⟩,
            read ++ read', n', ?_, ?_, ?_⟩
          · intro before y after hsplit
            have hfit := hfits before y after hsplit
            rwa [wire_cons, List.length_append, ← Nat.add_assoc]
          · rw [hread, hread', List.append_assoc]
          · rwa [← List.append_assoc]
          · rw [← List.append_assoc, hpos, hnext, wire_cons, List.length_append, Nat.add_assoc]

theorem exists_receives {sent : List (Int32 × List Byte)} {tail : List Byte}
    {s : SyncConnector} {past chunks : List (List Byte)} {k : ℕ}
    (h : s.Ready (past.getLastD []) k)
    (hchunks : ∀ c ∈ chunks, c ≠ [] ∧ c.length ≤ socketReadSize)
    (hsent : ∀ x ∈ sent, x.2.length ≤ packLimit.toNat)
    (hstream : (past ++ chunks).flatten.drop (past.flatten.length - k) = wire sent ++ tail)
    (hfits : ∀ before x after, sent = before ++ x :: after →
      FrameFits (past ++ chunks) (past.flatten.length - k + (wire before).length)
        x.2.length) :
    ∃ s' rest, Receives s chunks (sent.map Prod.snd) s' rest := by
  induction sent generalizing s past chunks k with
  | nil => exact ⟨s, chunks, .nil s chunks⟩
  | cons x sent ih =>
      have hdata : x.2.length ≤ socketPackSize.toNat := le_trans (hsent x (by simp)) (by decide)
      rw [wire_cons, List.append_assoc] at hstream
      obtain ⟨hfit, hfits⟩ := forall_split_cons.mp hfits
      have hfit' : FrameFits (past ++ chunks) (past.flatten.length - k) x.2.length := hfit
      obtain ⟨res, read, hdr, n, hrecv, hpayload, hread, hready, hf⟩ :=
        hfit'.recv_eq h hchunks hdata hstream
      obtain ⟨hnext, htail⟩ := hf.next h.le_length hread hstream
      obtain ⟨s', rest, hmore⟩ := ih hready (fun c hc ↦ hchunks c (by rw [hread]; simp [hc]))
        (fun y hy ↦ hsent y (by simp [hy])) htail (by
          intro before y after hsplit
          have hbehind := hfits before y after hsplit
          rwa [List.append_assoc, ← hread, hnext, Nat.add_assoc, ← List.length_append,
            ← wire_cons])
      exact ⟨s', rest, .cons hrecv hpayload hmore⟩

theorem lookedAt_append {p : ℕ} {as bs : List (List Byte)} (h : as.flatten.length ≤ p) :
    lookedAt p (as ++ bs) = lookedAt (p - as.flatten.length) bs := by
  induction as generalizing p with
  | nil => rfl
  | cons a as ih =>
      rw [List.flatten_cons, List.length_append] at h ⊢
      rw [List.cons_append, lookedAt, if_neg (by omega), ih (by omega), Nat.sub_sub]

theorem lookedAt_zero {chunks : List (List Byte)} (h : ∀ c ∈ chunks, c ≠ []) :
    lookedAt 0 chunks = chunks := by
  cases chunks with
  | nil => rfl
  | cons c cs =>
      have hpos : 0 < c.length := List.length_pos_iff.mpr (h c (by simp))
      rw [lookedAt, if_pos hpos, Nat.sub_zero, List.take_length]

theorem stalls_lookedAt_iff {size k : ℕ} {past chunks : List (List Byte)}
    (hk : k ≤ (past.getLastD []).length) (hchunks : ∀ c ∈ chunks, c ≠ []) :
    Stalls size [] ((past.getLastD []).take k :: chunks) ↔
      Stalls size [] (lookedAt (past.flatten.length - k) (past ++ chunks)) := by
  rcases Nat.eq_zero_or_pos k with rfl | hpos
  · rw [Nat.sub_zero, lookedAt_append le_rfl, Nat.sub_self, lookedAt_zero hchunks,
      List.take_zero]
    exact (stalls_cons_iff
      (show ([] : List Byte).length + ([] : List Byte).length < 8 by decide) rfl).symm
  · induction past using List.reverseRecOn with
    | nil =>
        simp only [List.getLastD_nil, List.length_nil] at hk
        omega
    | append_singleton past c _ =>
        rw [List.getLastD_concat] at hk ⊢
        have hindex : (past ++ [c]).flatten.length - k - past.flatten.length =
            c.length - k := by
          rw [List.flatten_append, List.length_append, List.flatten_singleton]
          omega
        rw [List.append_assoc, lookedAt_append (by
            rw [List.flatten_append, List.length_append, List.flatten_singleton]
            omega), hindex, List.singleton_append, lookedAt, if_pos (by omega),
          Nat.sub_sub_self hk]

theorem Receives.unique {s s₁ s₂ : SyncConnector} {chunks rest₁ rest₂ datas : List (List Byte)}
    (h₁ : Receives s chunks datas s₁ rest₁) (h₂ : Receives s chunks datas s₂ rest₂) :
    s₁ = s₂ ∧ rest₁ = rest₂ := by
  induction h₁ with
  | nil =>
      cases h₂
      exact ⟨rfl, rfl⟩
  | cons recv_eq _ _ ih =>
      cases h₂ with
      | cons recv_eq' _ more' =>
          rw [recv_eq] at recv_eq'
          cases recv_eq'
          exact ih more'

theorem Receives.recvAll_eq {s s' : SyncConnector} {chunks rest datas : List (List Byte)}
    {m : ℕ} {xs : List (Option (List Byte))} (h : Receives s chunks datas s' rest)
    (hrest : recvAll m s' rest = some xs) :
    recvAll (datas.length + m) s chunks = some (datas.map some ++ xs) := by
  induction h with
  | nil =>
      rw [List.length_nil, Nat.zero_add]
      exact hrest
  | cons recv_eq payload_eq _ ih =>
      rw [List.length_cons, Nat.add_right_comm, List.map_cons, List.cons_append]
      exact recvAll_succ.mpr ⟨_, recv_eq, payload_eq, ih hrest⟩

/-- For all messages of at most `packLimit` bytes, whatever stands behind them in the
stream, and all ways to cut the stream into chunks: the calls of `Recv` return the
messages, and then null with the connection closed, if and only if the messages fit the
chunks and no message comes out of the bytes that the call behind them looks at. -/
theorem refuses_iff (sent : List (Int32 × List Byte)) (tail : List Byte)
    (chunks : List (List Byte)) (hsent : ∀ x ∈ sent, x.2.length ≤ packLimit.toNat)
    (hchunks : ∀ c ∈ chunks, c ≠ [] ∧ c.length ≤ socketReadSize)
    (hstream : chunks.flatten = wire sent ++ tail) :
    (∃ s rest, Receives connected chunks (sent.map Prod.snd) s rest ∧ s.Refuses rest) ↔
      Fits chunks sent ∧
        ∀ s rest, Receives connected chunks (sent.map Prod.snd) s rest →
          Stalls s.frame.msgbuffer.size.toNat []
            (lookedAt (wire sent).length chunks) := by
  have hlengths : ∀ c ∈ chunks, c.length ≤ socketReadSize := fun c hc ↦ (hchunks c hc).2
  -- behind the messages, the next call is decided by what it looks at
  have hready : ∀ {s rest}, Receives connected chunks (sent.map Prod.snd) s rest →
      Fits chunks sent ∧ (s.Refuses rest ↔ Stalls s.frame.msgbuffer.size.toNat []
        (lookedAt (wire sent).length chunks)) := by
    intro s rest hreceives
    obtain ⟨hfits, read, n, hread, hready, hpos⟩ :=
      Receives.ready ready_connected hlengths hsent hstream hreceives
    simp only [List.nil_append, List.flatten_nil, List.length_nil, Nat.sub_self,
      Nat.zero_add] at hfits hready hpos
    have hrest : ∀ c ∈ rest, c ≠ [] ∧ c.length ≤ socketReadSize :=
      fun c hc ↦ hchunks c (by rw [hread]; simp [hc])
    refine ⟨hfits, ?_⟩
    rw [refuses_ready_iff hready hrest,
      stalls_lookedAt_iff hready.le_length (fun c hc ↦ (hrest c hc).1), hpos, ← hread]
  constructor
  · rintro ⟨s, rest, hreceives, hrefuses⟩
    refine ⟨(hready hreceives).1, ?_⟩
    intro s₁ rest₁ hreceives₁
    obtain ⟨rfl, -⟩ := hreceives.unique hreceives₁
    exact (hready hreceives).2.mp hrefuses
  · rintro ⟨hfits, hstalls⟩
    obtain ⟨s, rest, hreceives⟩ := exists_receives ready_connected hchunks hsent hstream
      (by simpa [Fits] using hfits)
    exact ⟨s, rest, hreceives, (hready hreceives).2.mpr (hstalls s rest hreceives)⟩

/-- One chunk that ends behind a header announcing 65528 bytes and three more. -/
theorem refuses_iff_one_chunk :
    ∃ s rest, Receives connected [[0, 0, 0, 0, 0, 0, 255, 248, 1, 2, 3]] [] s rest ∧
      s.Refuses rest := by
  refine (refuses_iff [] [0, 0, 0, 0, 0, 0, 255, 248, 1, 2, 3] _ (by simp) (by decide +kernel)
    rfl).mpr ⟨fun before x after hsplit ↦ absurd hsplit (by simp), ?_⟩
  intro s rest _
  constructor
  · intro _ hsmall
    exact absurd hsmall (by decide)
  · intro _ _
    exact ⟨by decide, trivial⟩

/-- The header that announces 65528 bytes shares a chunk with the message before it.  The
next call of `Recv` reads the old header again and takes the byte behind the new one. -/
theorem refuses_fails :
    [sendBlock 7 [65] ++ [0, 0, 0, 0, 0, 0, 255, 248], [9]].flatten =
        wire [(7, [65])] ++ ([0, 0, 0, 0, 0, 0, 255, 248] ++ [9]) ∧
      packLimit.toNat < announced [0, 0, 0, 0, 0, 0, 255, 248] ∧
      recvAll 2 connected [sendBlock 7 [65] ++ [0, 0, 0, 0, 0, 0, 255, 248], [9]] =
        some [some [65], some [9]] ∧
      ¬ ∃ s rest, Receives connected
        [sendBlock 7 [65] ++ [0, 0, 0, 0, 0, 0, 255, 248], [9]] [[65]] s rest ∧
          s.Refuses rest := by
  have hrun : recvAll 2 connected
      [sendBlock 7 [65] ++ [0, 0, 0, 0, 0, 0, 255, 248], [9]] = some [some [65], some [9]] := by
    decide +kernel
  refine ⟨rfl, by decide, hrun, ?_⟩
  rintro ⟨s, rest, hreceives, s', rest', hrecv, -⟩
  have hnull := hreceives.recvAll_eq ((recvAll_succ (m := 0)).mpr ⟨_, hrecv, rfl, rfl⟩)
  rw [List.length_singleton, hrun] at hnull
  cases hnull

end SyncConnector

end Slience
