import Slience.Netio.FrameReader

/-!
# The receiving side of a stream socket

`TcpStreamSocket::_CutMsgPack` turns the chunks that the transport happens to
deliver into messages.  Whatever the chunks, the messages handed to
`OnReceiveData` are those a parser reads from the uncut stream.
-/

namespace Slience

/-- `M_SOCKET_READ_SIZE` -/
def socketReadSize : ℕ := 4 * 1024

/-- `M_SOCKET_PACK_SIZE` -/
def socketPackSize : UInt32 := 400 * 1024

theorem toNat_chunk_length {c : List Byte} (hc : c.length ≤ socketReadSize) :
    (UInt32.ofNat c.length).toNat = c.length := by
  rw [UInt32.toNat_ofNat', Nat.mod_eq_of_lt]
  exact lt_of_le_of_lt hc (by decide)

namespace TcpStreamSocket

/-- `_readerinfo_` -/
structure ReaderInfo where
  readbuf : List Byte
  frame : FrameReader

/-- `_readerinfo_::_readerinfo_()` -/
def ReaderInfo.init : ReaderInfo where
  readbuf := List.replicate socketReadSize 0
  frame := .fresh

/-- What one call of `_CutMsgPack` did: its return value, the reader state it left,
the state of the callback's owner, and the messages it handed over. -/
structure CutResult (σ : Type*) where
  ok : Bool
  frame : FrameReader
  world : σ
  delivered : List (List Byte)

variable {σ : Type*} (onReceiveData : σ → Buffer → σ × Buffer)

/-- One round of the loop of `_CutMsgPack` behind its header block: copy the body
and hand a complete message to the callback, which may do anything to the buffer;
`next` is the rest of the loop. -/
def copyBody (next : FrameReader → σ → List Byte → UInt32 → Option (CutResult σ))
    (r : FrameReader) (w : σ) (buf : List Byte) (tranByte : UInt32) : Option (CutResult σ) :=
  match r.cutBody buf tranByte with
  | none => none
  | some (.returned r) => some ⟨true, r, w, []⟩
  | some (.full r buf tranByte) =>
      let called := onReceiveData w r.msgbuffer
      match next ⟨called.2.clear, r.curheader⟩ called.1 buf tranByte with
      | none => none
      | some rest => some { rest with delivered := r.msgbuffer.unread :: rest.delivered }

/-- The loop of `_CutMsgPack`. -/
def cutLoop : ℕ → FrameReader → σ → List Byte → UInt32 → Option (CutResult σ)
  | 0, _, _, _, _ => none
  | fuel + 1, r, w, buf, tranByte =>
      match r.cutHeader socketPackSize buf tranByte with
      | none => none
      | some (.returned ok r _) => some ⟨ok, r, w, []⟩
      | some (.ready r buf tranByte) => copyBody onReceiveData (cutLoop fuel) r w buf tranByte

/-- `_CutMsgPack(buf, tran_byte)`.  Every round of the loop but the first consumes
a byte. -/
def cutMsgPack (r : FrameReader) (w : σ) (buf : List Byte) (tranByte : UInt32) :
    Option (CutResult σ) :=
  cutLoop onReceiveData (tranByte.toNat + 2) r w buf tranByte

/-! ## One call -/

/-- The frames a stream socket accepts. -/
def format : Format Byte := wireFormat socketPackSize.toNat

/-- The reader holds exactly the bytes `s` of an incomplete frame: part of a header,
or a decoded header with part of its body. -/
def Holds (r : FrameReader) (s : List Byte) : Prop :=
  r.InHeader s ∨ ∃ hdr body, s = hdr ++ body ∧ r.InBody hdr body ∧
    announced hdr ≤ socketPackSize.toNat ∧ body.length < announced hdr

/-- The outcome agrees with what the reference parser says about the bytes. -/
structure CutResult.Agrees (res : CutResult σ) (parsed : List (List Byte) × Tail Byte) :
    Prop where
  delivered_eq : res.delivered = parsed.1
  incomplete : ∀ rest, parsed.2 = .incomplete rest → res.ok = true ∧ Holds res.frame rest
  oversized : ∀ rest, parsed.2 = .oversized rest → res.ok = false

theorem incomplete_of_body {hdr body : List Byte} (hlen : hdr.length = 8)
    (hlimit : announced hdr ≤ socketPackSize.toNat) (hbody : body.length < announced hdr) :
    format.Incomplete (hdr ++ body) := by
  have htake : (hdr ++ body).take 8 = hdr := by rw [← hlen, List.take_left]
  refine Or.inr ⟨?_, ?_⟩
  · change announced ((hdr ++ body).take 8) ≤ _
    rw [htake]
    exact hlimit
  · change _ < 8 + announced ((hdr ++ body).take 8)
    rw [htake, List.length_append, hlen]
    omega

theorem take_eq_take_append {buf : List Byte} {k n : ℕ} (h : k ≤ n) :
    buf.take n = buf.take k ++ (buf.drop k).take (n - k) := by
  rw [← List.take_add, Nat.add_sub_cancel' h]

/-- Once the header is complete, a round agrees with the parser if the rounds after
it do. -/
theorem copyBody_agrees
    {next : FrameReader → σ → List Byte → UInt32 → Option (CutResult σ)} {fuel : ℕ}
    (hnext : ∀ (r : FrameReader) (w : σ) (buf : List Byte) (tranByte : UInt32),
      r.InHeader [] → tranByte.toNat ≤ buf.length → tranByte.toNat < 2 ^ 31 →
      tranByte.toNat < fuel →
      ∃ res, next r w buf tranByte = some res ∧
        res.Agrees (format.parse (buf.take tranByte.toNat)))
    {r : FrameReader} {w : σ} {hdr body buf : List Byte} {tranByte : UInt32}
    (h : r.InBody hdr body) (hlimit : announced hdr ≤ socketPackSize.toNat)
    (hbuf : tranByte.toNat ≤ buf.length) (htran : tranByte.toNat < 2 ^ 31)
    (hfuel : announced hdr ≤ body.length + tranByte.toNat →
      tranByte.toNat - (announced hdr - body.length) < fuel) :
    ∃ res, copyBody onReceiveData next r w buf tranByte = some res ∧
      res.Agrees (format.parse (hdr ++ (body ++ buf.take tranByte.toNat))) := by
  have hmax : announced hdr < 2 ^ 31 := lt_of_le_of_lt hlimit (by decide)
  have hlen := h.length_eq
  have hle := h.length_le
  unfold copyBody
  by_cases hshort : body.length + tranByte.toNat < announced hdr
  · obtain ⟨r', hcut, hr'⟩ := FrameReader.cutBody_short h hbuf hmax hshort
    have hbody : (body ++ buf.take tranByte.toNat).length < announced hdr := by
      rw [List.length_append, List.length_take]
      omega
    rw [hcut]
    refine ⟨_, rfl, ?_⟩
    rw [Format.parse_of_incomplete (incomplete_of_body hlen hlimit hbody)]
    refine ⟨rfl, ?_, by simp⟩
    intro rest hrest
    cases hrest
    exact ⟨rfl, Or.inr ⟨hdr, _, rfl, hr', hlimit, hbody⟩⟩
  · obtain ⟨r', tranByte', htran', hsize, hunread, hcut⟩ :=
      FrameReader.cutBody_full h hbuf hmax htran (not_lt.mp hshort)
    obtain ⟨res, hres, hagrees⟩ := hnext
      ⟨(onReceiveData w r'.msgbuffer).2.clear, r'.curheader⟩ (onReceiveData w r'.msgbuffer).1
      (buf.drop (announced hdr - body.length)) tranByte' ⟨hsize, rfl, rfl, by decide⟩
      (by rw [htran', List.length_drop]; omega) (by omega)
      (htran' ▸ hfuel (not_lt.mp hshort))
    rw [hcut]
    simp only [hres]
    refine ⟨_, rfl, ?_⟩
    -- the chunk splits into the end of this body and what the next rounds get
    have hsplit : hdr ++ (body ++ buf.take tranByte.toNat) =
        hdr ++ ((body ++ buf.take (announced hdr - body.length)) ++
          (buf.drop (announced hdr - body.length)).take tranByte'.toNat) := by
      rw [take_eq_take_append (show announced hdr - body.length ≤ tranByte.toNat by omega),
        htran', List.append_assoc]
    have hsize' : announced hdr =
        (body ++ buf.take (announced hdr - body.length)).length := by
      rw [List.length_append, List.length_take]
      omega
    rw [hsplit, Format.parse_frame (F := format) hlen hsize' (hsize' ▸ hlimit), hunread]
    exact ⟨by rw [hagrees.delivered_eq], hagrees.incomplete, hagrees.oversized⟩

/-- The loop agrees with the parser, run on the bytes the reader holds followed by
the bytes of the chunk.  The induction is on the fuel, of which one unit per
received byte and one more suffice. -/
theorem cutLoop_agrees {fuel : ℕ} {r : FrameReader} {w : σ} {s buf : List Byte}
    {tranByte : UInt32} (h : Holds r s) (hbuf : tranByte.toNat ≤ buf.length)
    (htran : tranByte.toNat < 2 ^ 31) (hfuel : tranByte.toNat < fuel) :
    ∃ res, cutLoop onReceiveData fuel r w buf tranByte = some res ∧
      res.Agrees (format.parse (s ++ buf.take tranByte.toNat)) := by
  induction fuel generalizing r w s buf tranByte with
  | zero => omega
  | succ fuel ih =>
      have hnext : ∀ (r : FrameReader) (w : σ) (buf : List Byte) (tranByte : UInt32),
          r.InHeader [] → tranByte.toNat ≤ buf.length → tranByte.toNat < 2 ^ 31 →
          tranByte.toNat < fuel →
          ∃ res, cutLoop onReceiveData fuel r w buf tranByte = some res ∧
            res.Agrees (format.parse (buf.take tranByte.toNat)) :=
        fun _ _ _ _ hr hbuf htran hfuel ↦ ih (Or.inl hr) hbuf htran hfuel
      unfold cutLoop
      rcases h with h | ⟨hdr, body, rfl, h, hlimit, hbody⟩
      · have hs := h.length_lt
        by_cases hshort : s.length + tranByte.toNat < 8
        · obtain ⟨r', hcut, hr'⟩ :=
            FrameReader.cutHeader_short socketPackSize h hbuf hshort
          rw [hcut]
          refine ⟨_, rfl, ?_⟩
          rw [Format.parse_of_incomplete (Or.inl hr'.length_lt)]
          refine ⟨rfl, ?_, by simp⟩
          intro rest hrest
          cases hrest
          exact ⟨rfl, Or.inl hr'⟩
        · obtain ⟨r', tranByte', htran', hr', hcut⟩ :=
            FrameReader.cutHeader_full socketPackSize h hbuf htran (by omega)
          have hsplit : s ++ buf.take tranByte.toNat =
              (s ++ buf.take (8 - s.length)) ++
                (buf.drop (8 - s.length)).take tranByte'.toNat := by
            rw [take_eq_take_append (show 8 - s.length ≤ tranByte.toNat by omega), htran',
              List.append_assoc]
          rw [hcut, hsplit]
          split_ifs with hlimit
          · refine ⟨_, rfl, ?_⟩
            rw [Format.parse_of_oversized (F := format) hr'.length_eq hlimit]
            exact ⟨rfl, by simp, fun _ _ ↦ rfl⟩
          · exact copyBody_agrees onReceiveData hnext hr' (not_lt.mp hlimit)
              (by rw [htran', List.length_drop]; omega) (by omega) (by
                intro _
                omega)
      · have hsize : r.curheader.size ≠ 0 := by
          intro hzero
          have hval := h.toNat_size
          rw [hzero, UInt32.toNat_zero] at hval
          omega
        rw [FrameReader.cutHeader_of_size_ne_zero hsize, List.append_assoc]
        exact copyBody_agrees onReceiveData hnext h hlimit hbuf htran (by
          intro hfull
          omega)

theorem cutMsgPack_agrees {r : FrameReader} {w : σ} {s buf : List Byte} {tranByte : UInt32}
    (h : Holds r s) (hbuf : tranByte.toNat ≤ buf.length) (htran : tranByte.toNat < 2 ^ 31) :
    ∃ res, cutMsgPack onReceiveData r w buf tranByte = some res ∧
      res.Agrees (format.parse (s ++ buf.take tranByte.toNat)) :=
  cutLoop_agrees onReceiveData h hbuf htran (by omega)

/-- The callback was made once for each of the messages, in their order. -/
inductive Called : σ → List (List Byte) → σ → Prop
  | nil (w : σ) : Called w [] w
  | cons {w w' : σ} (b : Buffer) {rest : List (List Byte)}
      (h : Called (onReceiveData w b).1 rest w') : Called w (b.unread :: rest) w'

theorem cutLoop_called {fuel : ℕ} {r : FrameReader} {w : σ} {buf : List Byte}
    {tranByte : UInt32} {res : CutResult σ}
    (h : cutLoop onReceiveData fuel r w buf tranByte = some res) :
    Called onReceiveData w res.delivered res.world := by
  induction fuel generalizing r w buf tranByte res with
  | zero => cases h
  | succ fuel ih =>
      unfold cutLoop at h
      split at h
      · cases h
      · cases h
        exact .nil _
      · unfold copyBody at h
        split at h
        · cases h
        · cases h
          exact .nil _
        · dsimp only at h
          split at h
          · cases h
          · rename_i hrest
            cases h
            exact .cons _ (ih hrest)

/-! ## A connection -/

/-- A connection on which the results of the calls of `_CutMsgPack` are collected;
`out.ok` is the value the last call returned. -/
structure Feed (σ : Type*) where
  readbuf : List Byte
  out : CutResult σ

def Feed.start (w : σ) : Feed σ where
  readbuf := ReaderInfo.init.readbuf
  out := ⟨true, ReaderInfo.init.frame, w, []⟩

/-- The transport copies a chunk to `readbuf` and `_ReadHandler` cuts it.  No chunk is
read any more after `_CutMsgPack` returned false. -/
def feedChunk (st : Feed σ) (c : List Byte) : Option (Feed σ) :=
  if st.out.ok then
    let readbuf := blit st.readbuf 0 c
    match cutMsgPack onReceiveData st.out.frame st.out.world readbuf (UInt32.ofNat c.length) with
    | none => none
    | some res =>
        some ⟨readbuf, { res with delivered := st.out.delivered ++ res.delivered }⟩
  else some st

def feed (st : Feed σ) (chunks : List (List Byte)) : Option (Feed σ) :=
  chunks.foldlM (feedChunk onReceiveData) st

/-- One more chunk: agreement on the stream so far is agreement on the stream with
the chunk. -/
theorem feedChunk_agrees {st : Feed σ} {s c : List Byte}
    (h : st.out.Agrees (format.parse s)) (hc : c.length ≤ socketReadSize) :
    ∃ st', feedChunk onReceiveData st c = some st' ∧
      st'.out.Agrees (format.parse (s ++ c)) := by
  have hlen := toNat_chunk_length hc
  have htake : (blit st.readbuf 0 c).take (UInt32.ofNat c.length).toNat = c := by
    rw [hlen, take_blit_zero]
  unfold feedChunk
  cases htail : (format.parse s).2 with
  | incomplete r =>
      obtain ⟨hok, hholds⟩ := h.incomplete r htail
      have hbuf : (UInt32.ofNat c.length).toNat ≤ (blit st.readbuf 0 c).length := by
        rw [hlen]
        exact le_length_blit_zero _ _
      obtain ⟨res, hcut, hres⟩ := cutMsgPack_agrees onReceiveData
        (w := st.out.world) hholds hbuf (by rw [hlen]; exact lt_of_le_of_lt hc (by decide))
      rw [htake] at hres
      simp only [hok, if_true, hcut]
      refine ⟨_, rfl, ?_⟩
      rw [Format.parse_append htail]
      exact ⟨by rw [h.delivered_eq, hres.delivered_eq], hres.incomplete, hres.oversized⟩
  | oversized r =>
      rw [h.oversized r htail, Format.parse_append_of_oversized htail]
      exact ⟨st, rfl, h.delivered_eq, by simp, fun _ _ ↦ h.oversized r htail⟩

theorem feed_agrees {st : Feed σ} {s : List Byte} (h : st.out.Agrees (format.parse s))
    (chunks : List (List Byte)) (hchunks : ∀ c ∈ chunks, c.length ≤ socketReadSize) :
    ∃ st', feed onReceiveData st chunks = some st' ∧
      st'.out.Agrees (format.parse (s ++ chunks.flatten)) := by
  induction chunks generalizing st s with
  | nil => exact ⟨st, rfl, by simpa using h⟩
  | cons c chunks ih =>
      obtain ⟨st₁, hst₁, h₁⟩ := feedChunk_agrees onReceiveData h (hchunks c (by simp))
      obtain ⟨st₂, hst₂, h₂⟩ := ih h₁ (fun c hc ↦ hchunks c (by simp [hc]))
      refine ⟨st₂, ?_, ?_⟩
      · rw [feed, List.foldlM_cons, hst₁]
        exact hst₂
      · rwa [List.flatten_cons, ← List.append_assoc]

theorem Called.append {w w' w'' : σ} {xs ys : List (List Byte)}
    (h : Called onReceiveData w xs w') (h' : Called onReceiveData w' ys w'') :
    Called onReceiveData w (xs ++ ys) w'' := by
  induction h with
  | nil _ => exact h'
  | cons b _ ih => exact .cons b (ih h')

theorem feedChunk_called {st st' : Feed σ} {w : σ} {c : List Byte}
    (h : Called onReceiveData w st.out.delivered st.out.world)
    (hstep : feedChunk onReceiveData st c = some st') :
    Called onReceiveData w st'.out.delivered st'.out.world := by
  unfold feedChunk at hstep
  split at hstep
  · dsimp only at hstep
    split at hstep
    · cases hstep
    · rename_i hcut
      cases hstep
      exact h.append onReceiveData (cutLoop_called onReceiveData hcut)
  · cases hstep
    exact h

/-- What is delivered goes through `OnReceiveData`. -/
theorem feed_called {st st' : Feed σ} {w : σ} {chunks : List (List Byte)}
    (h : Called onReceiveData w st.out.delivered st.out.world)
    (hfeed : feed onReceiveData st chunks = some st') :
    Called onReceiveData w st'.out.delivered st'.out.world := by
  induction chunks generalizing st with
  | nil =>
      cases hfeed
      exact h
  | cons c chunks ih =>
      rw [feed, List.foldlM_cons] at hfeed
      obtain ⟨st₁, hstep, hfeed⟩ := Option.bind_eq_some_iff.mp hfeed
      exact ih (feedChunk_called onReceiveData h hstep) hfeed

theorem start_agrees (w : σ) : (Feed.start w).out.Agrees (format.parse []) := by
  rw [Format.parse_nil]
  refine ⟨rfl, ?_, by simp⟩
  intro rest hrest
  cases hrest
  exact ⟨rfl, Or.inl FrameReader.inHeader_fresh⟩

/-- For every stream, every way of cutting it into chunks and every callback, after
each chunk the messages delivered so far, each by one call of `OnReceiveData`, the value
returned by the last call and the bytes kept in the reader are those of the reference
parser on the stream up to there.  The data sent by `Send(data, len)` arrives as it was
sent. -/
theorem cutMsgPack_chunks (onReceiveData : σ → Buffer → σ × Buffer) (w : σ)
    (chunks : List (List Byte))
    (hchunks : ∀ c ∈ chunks, c ≠ [] ∧ c.length ≤ socketReadSize) :
    (∀ k, ∃ st, feed onReceiveData (.start w) (chunks.take k) = some st ∧
      st.out.Agrees (format.parse (chunks.take k).flatten) ∧
      Called onReceiveData w st.out.delivered st.out.world) ∧
    ∀ sent : List (Int32 × List Byte),
      (∀ x ∈ sent, 1 ≤ x.2.length ∧ x.2.length ≤ socketPackSize.toNat) →
      chunks.flatten = sent.flatMap (fun x ↦ sendBlock x.1 x.2) →
      ∃ st, feed onReceiveData (.start w) chunks = some st ∧
        Called onReceiveData w (sent.map Prod.snd) st.out.world ∧
        st.out.delivered = sent.map Prod.snd ∧ st.out.ok = true ∧ Holds st.out.frame [] := by
  have hstart : Called onReceiveData w (Feed.start w).out.delivered (Feed.start w).out.world :=
    .nil w
  refine ⟨?_, ?_⟩
  · intro k
    obtain ⟨st, hst, hagrees⟩ := feed_agrees onReceiveData (start_agrees w)
      (chunks.take k) (fun c hc ↦ (hchunks c (List.mem_of_mem_take hc)).2)
    rw [List.nil_append] at hagrees
    exact ⟨st, hst, hagrees, feed_called onReceiveData hstart hst⟩
  · intro sent hsent hstream
    obtain ⟨st, hst, hagrees⟩ := feed_agrees onReceiveData (start_agrees w)
      chunks (fun c hc ↦ (hchunks c hc).2)
    have hparse : format.parse (sent.flatMap fun x ↦ sendBlock x.1 x.2) =
        (sent.map Prod.snd, .incomplete []) :=
      parse_sendBlocks (by decide) sent (fun x hx ↦ (hsent x hx).2)
    rw [List.nil_append, hstream, hparse] at hagrees
    obtain ⟨hok, hholds⟩ := hagrees.incomplete [] rfl
    have hcalled := feed_called onReceiveData hstart hst
    rw [hagrees.delivered_eq] at hcalled
    exact ⟨st, hst, hcalled, hagrees.delivered_eq, hok, hholds⟩

/-- A message cut inside its header, the second chunk completing it. -/
theorem cutMsgPack_chunks_split_header :
    ∃ st, feed (fun _ b ↦ ((), b)) (.start ())
        [[0, 0, 0, 7, 0, 0], [0, 2, 65, 66]] = some st ∧
      Called (fun _ b ↦ ((), b)) () [[65, 66]] st.out.world ∧
      st.out.delivered = [[65, 66]] ∧ st.out.ok = true ∧ Holds st.out.frame [] :=
  (cutMsgPack_chunks (fun _ b ↦ ((), b)) () [[0, 0, 0, 7, 0, 0], [0, 2, 65, 66]]
    (by decide)).2 [(7, [65, 66])] (by decide) (by decide)

end TcpStreamSocket

end Slience
