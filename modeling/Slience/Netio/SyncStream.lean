import Slience.Netio.SyncConnector

/-!
# A stream of messages at the blocking connector

`Recv` takes the bytes behind a message from the front of `_readbuf`, although they
are at its end, and it drops what it has received behind a header that announces more
than `packLimit` bytes.  The messages arrive as they were sent exactly when neither
makes a difference: `Fits` says so of the chunks and the messages.
-/

namespace Slience

namespace SyncConnector

/-- One message was put together from the bytes `got` and the chunks `read`: its header
is the first one there, `n` bytes were left over behind it, and `lost` bytes were
dropped, which happens where a large message has bytes behind its header. -/
structure Framed (got : List Byte) (read : List (List Byte)) (hdr body : List Byte)
    (n lost : ℕ) : Prop where
  length_eq : hdr.length = 8
  announced_eq : announced hdr = body.length
  header_eq : (got ++ read.flatten).take 8 = hdr
  count : got.length + read.flatten.length = 8 + body.length + n + lost
  stream : lost = 0 → ∃ surplus, got ++ read.flatten = hdr ++ (body ++ surplus)
  boundary : lost = 0 → packLimit.toNat < body.length → got.length ≤ 8 →
    ∃ done rest, read = done ++ rest ∧ got.length + done.flatten.length = 8
  lost_ne : lost ≠ 0 → got.length < 8 ∧ packLimit.toNat < body.length ∧
    ∀ done rest, read = done ++ rest → got.length + done.flatten.length ≠ 8

theorem CutOutcome.framed {got c : List Byte} {res : CutResult}
    (h : CutOutcome got (got ++ c) res) (hreply : res.reply = true) :
    ∃ hdr, Framed got [c] hdr res.frame.msgbuffer.unread res.tranByte.toNat 0 ∧
      res.frame.curheader.size = 0 ∧ res.tranByte.toNat ≤ c.length := by
  cases h with
  | kept hfalse => simp [hreply] at hfalse
  | lost hfalse => simp [hreply] at hfalse
  | frame _ hdr body surplus bytes_eq length_eq announced_eq unread_eq size_eq tranByte_eq
      large got_le =>
      have hlen := congrArg List.length bytes_eq
      simp only [List.length_append] at hlen
      refine ⟨hdr, ⟨length_eq, by rw [unread_eq, announced_eq], ?_, ?_, ?_, ?_, by simp⟩,
        size_eq, ?_⟩
      · rw [List.flatten_singleton, bytes_eq, ← length_eq, List.take_left]
      · rw [unread_eq, List.flatten_singleton]
        omega
      · intro _
        exact ⟨surplus, by rw [unread_eq, List.flatten_singleton, bytes_eq]⟩
      · intro _ hlarge hgot
        rw [unread_eq] at hlarge
        have hge := large hlarge
        exact ⟨[], [c], rfl, by simp only [List.flatten_nil, List.length_nil]; omega⟩
      · omega

/-- The chunk `c` does not complete a message; what is put together later starts with
the bytes kept. -/
theorem CutOutcome.cons {got c : List Byte} {res : CutResult}
    (h : CutOutcome got (got ++ c) res) (hreply : res.reply = false) :
    ∃ got', Got res.frame got' ∧
      ∀ {read hdr body n lost}, Framed got' read hdr body n lost →
        ∃ lost', Framed got (c :: read) hdr body n lost' := by
  cases h with
  | frame htrue => simp [hreply] at htrue
  | kept _ hgot large =>
      refine ⟨got ++ c, hgot, ?_⟩
      intro read hdr body n lost hf
      have hcount := hf.count
      rw [List.length_append] at hcount
      refine ⟨lost, hf.length_eq, hf.announced_eq, ?_, ?_, ?_, ?_, ?_⟩
      · rw [List.flatten_cons, ← List.append_assoc, hf.header_eq]
      · rw [List.flatten_cons, List.length_append]
        omega
      · intro hlost
        rw [List.flatten_cons, ← List.append_assoc]
        exact hf.stream hlost
      · intro hlost hlarge hlen
        by_cases hshort : (got ++ c).length ≤ 8
        · obtain ⟨done, rest, hread, hdone⟩ := hf.boundary hlost hlarge hshort
          refine ⟨c :: done, rest, by rw [hread, List.cons_append], ?_⟩
          rw [List.length_append] at hdone
          rw [List.flatten_cons, List.length_append]
          omega
        · -- the header passed the check with an earlier chunk
          have hheader := hf.header_eq
          rw [List.take_append_of_le_length (by omega)] at hheader
          have hge := large (by omega) (by rwa [hheader, hf.announced_eq])
          exact ⟨[], c :: read, rfl, by simp only [List.flatten_nil, List.length_nil]; omega⟩
      · intro hlost
        obtain ⟨hshort, hlarge, hboundary⟩ := hf.lost_ne hlost
        rw [List.length_append] at hshort
        refine ⟨by omega, hlarge, ?_⟩
        intro done rest hread
        cases done with
        | nil =>
            simp only [List.flatten_nil, List.length_nil]
            omega
        | cons d done =>
            rw [List.cons_append, List.cons.injEq] at hread
            have hne := hboundary done rest hread.2
            rw [List.length_append] at hne
            rw [List.flatten_cons, List.length_append, ← hread.1]
            omega
  | lost _ hdr₀ dropped bytes_eq length_eq hgot length_lt large =>
      refine ⟨hdr₀, hgot, ?_⟩
      intro read hdr body n lost hf
      have hhdr : hdr = hdr₀ := by
        rw [← hf.header_eq, ← length_eq, List.take_left]
      have hlost : lost = 0 := by
        by_contra hne
        have hlt := (hf.lost_ne hne).1
        omega
      subst hhdr hlost
      have hcount := hf.count
      have hlen := congrArg List.length bytes_eq
      simp only [List.length_append] at hlen
      refine ⟨dropped.length, hf.length_eq, hf.announced_eq, ?_, ?_, ?_, ?_, ?_⟩
      · rw [List.flatten_cons, ← List.append_assoc, bytes_eq, List.append_assoc, ← length_eq,
          List.take_left]
      · rw [List.flatten_cons, List.length_append]
        omega
      · intro hnil
        rw [List.length_eq_zero_iff] at hnil
        rw [List.flatten_cons, ← List.append_assoc, bytes_eq, hnil, List.append_nil]
        exact hf.stream rfl
      · intro hnil _ _
        refine ⟨[c], read, rfl, ?_⟩
        rw [List.flatten_singleton]
        omega
      · intro hne
        refine ⟨length_lt, by rwa [← hf.announced_eq], ?_⟩
        intro done rest hread
        cases done with
        | nil =>
            simp only [List.flatten_nil, List.length_nil]
            omega
        | cons d done =>
            rw [List.cons_append, List.cons.injEq] at hread
            rw [List.flatten_cons, List.length_append, ← hread.1]
            omega

/-! ## One call of `Recv` -/

theorem recvLoop_framed {s : SyncConnector} {got : List Byte} {chunks : List (List Byte)}
    {res : Received} (hflag : s.flag = .start) (h : Got s.frame got)
    (hchunks : ∀ c ∈ chunks, c.length ≤ socketReadSize)
    (hres : s.recvLoop chunks = some res) (hreply : res.reply = true) :
    ∃ read c hdr n lost, chunks = read ++ c :: res.rest ∧ res.conn.Ready c n ∧
      Framed got (read ++ [c]) hdr res.conn.frame.msgbuffer.unread n lost := by
  induction chunks generalizing s got with
  | nil =>
      cases hres
      cases hreply
  | cons c cs ih =>
      have hc := hchunks c (by simp)
      unfold recvLoop at hres
      split_ifs at hres with hempty
      · cases hres
        cases hreply
      · split at hres
        · cases hres
        · rename_i s' hstep
          cases hres
          obtain ⟨hflag', hreadbuf, houtcome⟩ := recvChunk_outcome h hc hstep
          obtain ⟨hdr, hf, hsize, hle⟩ := houtcome.framed rfl
          refine ⟨[], c, hdr, _, 0, rfl, ⟨hflag'.trans hflag, hsize, hreadbuf, rfl, hle, hc⟩, hf⟩
        · rename_i s' hstep
          obtain ⟨hflag', -, houtcome⟩ := recvChunk_outcome h hc hstep
          obtain ⟨got', hgot', hcons⟩ := houtcome.cons rfl
          obtain ⟨read, c', hdr, n, lost, hread, hready, hf⟩ :=
            ih (hflag'.trans hflag) hgot' (fun d hd ↦ hchunks d (by simp [hd])) hres
          obtain ⟨lost', hf'⟩ := hcons hf
          exact ⟨c :: read, c', hdr, n, lost', by rw [hread, List.cons_append], hready, hf'⟩

theorem recv_framed {s : SyncConnector} {past chunks : List (List Byte)} {k : ℕ}
    {res : Received} (h : s.Ready (past.getLastD []) k)
    (hchunks : ∀ c ∈ chunks, c.length ≤ socketReadSize)
    (hres : s.recv chunks = some res) (hreply : res.reply = true) :
    ∃ read hdr n lost, chunks = read ++ res.rest ∧
      res.conn.Ready ((past ++ read).getLastD []) n ∧
      Framed [] ((past.getLastD []).take k :: read) hdr res.conn.frame.msgbuffer.unread
        n lost := by
  unfold recv at hres
  rw [if_neg (not_not.mpr h.flag_eq)] at hres
  split at hres
  · cases hres
  · rename_i s' hstart
    cases hres
    obtain ⟨hflag, hreadbuf, houtcome⟩ := recvStart_outcome h hstart
    obtain ⟨hdr, hf, hsize, hle⟩ := houtcome.framed rfl
    refine ⟨[], hdr, _, 0, rfl, ?_, hf⟩
    rw [List.append_nil]
    refine ⟨hflag, hsize, ?_, rfl, ?_, h.length_le⟩
    · rw [hreadbuf]
      exact h.take_readbuf
    · rw [List.length_take] at hle
      omega
  · rename_i s' hstart
    obtain ⟨hflag, -, houtcome⟩ := recvStart_outcome h hstart
    rw [← List.nil_append (List.take k _)] at houtcome
    obtain ⟨got, hgot, hcons⟩ := houtcome.cons rfl
    obtain ⟨read, c, hdr, n, lost, hread, hready, hf⟩ :=
      recvLoop_framed hflag hgot hchunks hres hreply
    obtain ⟨lost', hf'⟩ := hcons hf
    refine ⟨read ++ [c], hdr, n, lost', by rw [hread]; simp, ?_, hf'⟩
    rw [← List.append_assoc, List.getLastD_concat]
    exact hready

/-- The stream starts with a message that the loop can put together. -/
structure Complete (got : List Byte) (chunks : List (List Byte)) : Prop where
  length_le : 8 + announced ((got ++ chunks.flatten).take 8) ≤ (got ++ chunks.flatten).length
  announced_le : announced ((got ++ chunks.flatten).take 8) ≤ socketPackSize.toNat
  boundary : packLimit.toNat < announced ((got ++ chunks.flatten).take 8) → got.length < 8 →
    ∃ done rest, chunks = done ++ rest ∧ got.length + done.flatten.length = 8

theorem Got.length_lt {r : FrameReader} {got : List Byte} (h : Got r got) :
    got.length < 8 ∨ 8 ≤ got.length ∧ got.length < 8 + announced (got.take 8) := by
  rcases h with h | ⟨hdr, body, rfl, h, hlt⟩
  · exact Or.inl h.length_lt
  · right
    rw [List.length_append, ← h.length_eq, List.take_left]
    omega

theorem CutOutcome.complete {got c : List Byte} {cs : List (List Byte)} {res : CutResult}
    (h : CutOutcome got (got ++ c) res) (hreply : res.reply = false)
    (hcomplete : Complete got (c :: cs)) :
    Got res.frame (got ++ c) ∧ Complete (got ++ c) cs := by
  have hstream : got ++ (c :: cs).flatten = (got ++ c) ++ cs.flatten := by
    rw [List.flatten_cons, List.append_assoc]
  obtain ⟨hlength, hannounced, hboundary⟩ := hcomplete
  rw [hstream] at hlength hannounced hboundary
  have hkeep : Got res.frame (got ++ c) := by
    cases h with
    | kept _ hgot => exact hgot
    | frame htrue => simp [hreply] at htrue
    | lost _ hdr dropped bytes_eq length_eq hgot length_lt large =>
        rw [bytes_eq, List.append_assoc, ← length_eq, List.take_left] at hboundary
        obtain ⟨done, rest, hdone, hlen⟩ := hboundary large (by omega)
        have htotal := congrArg List.length bytes_eq
        rw [List.length_append, List.length_append] at htotal
        cases done with
        | nil =>
            simp only [List.flatten_nil, List.length_nil] at hlen
            omega
        | cons d done =>
            rw [List.cons_append, List.cons.injEq] at hdone
            rw [List.flatten_cons, List.length_append, ← hdone.1] at hlen
            have hnil : dropped = [] := List.eq_nil_of_length_eq_zero (by omega)
            rwa [bytes_eq, hnil, List.append_nil]
  refine ⟨hkeep, hlength, hannounced, ?_⟩
  intro hlarge hlt
  rw [List.length_append] at hlt
  obtain ⟨done, rest, hdone, hlen⟩ := hboundary hlarge (by omega)
  cases done with
  | nil =>
      simp only [List.flatten_nil, List.length_nil] at hlen
      omega
  | cons d done =>
      rw [List.cons_append, List.cons.injEq] at hdone
      refine ⟨done, rest, hdone.2, ?_⟩
      rw [List.flatten_cons, List.length_append, ← hdone.1] at hlen
      rw [List.length_append]
      omega

theorem exists_recvLoop {s : SyncConnector} {got : List Byte} {chunks : List (List Byte)}
    (h : Got s.frame got) (hchunks : ∀ c ∈ chunks, c ≠ [] ∧ c.length ≤ socketReadSize)
    (hcomplete : Complete got chunks) :
    ∃ res, s.recvLoop chunks = some res ∧ res.reply = true := by
  induction chunks generalizing s got with
  | nil =>
      have hlength := hcomplete.length_le
      rw [List.flatten_nil, List.append_nil] at hlength
      have hlt := h.length_lt
      omega
  | cons c cs ih =>
      obtain ⟨hne, hc⟩ := hchunks c (by simp)
      have hstream : got ++ (c :: cs).flatten = (got ++ c) ++ cs.flatten := by
        rw [List.flatten_cons, List.append_assoc]
      obtain ⟨reply, s', hstep⟩ := exists_recvChunk h hc (by
        intro hfull
        have hannounced := hcomplete.announced_le
        rwa [hstream, List.take_append_of_le_length hfull] at hannounced)
      unfold recvLoop
      rw [if_neg (by rwa [List.length_eq_zero_iff])]
      obtain ⟨-, -, houtcome⟩ := recvChunk_outcome h hc hstep
      cases reply with
      | true => exact ⟨⟨true, s', cs⟩, by rw [hstep], rfl⟩
      | false =>
          obtain ⟨hgot, hcomplete'⟩ := houtcome.complete rfl hcomplete
          rw [hstep]
          exact ih hgot (fun d hd ↦ hchunks d (by simp [hd])) hcomplete'

theorem exists_recv {s : SyncConnector} {c : List Byte} {k : ℕ} {chunks : List (List Byte)}
    (h : s.Ready c k) (hchunks : ∀ d ∈ chunks, d ≠ [] ∧ d.length ≤ socketReadSize)
    (hcomplete : Complete [] (c.take k :: chunks)) :
    ∃ res, s.recv chunks = some res ∧ res.reply = true := by
  obtain ⟨reply, s', hstart⟩ := exists_recvStart h (by
    intro hk
    have hannounced := hcomplete.announced_le
    have hle := h.le_length
    rwa [List.nil_append, List.flatten_cons, List.take_append_of_le_length (by
      rw [List.length_take]
      omega), List.take_take, Nat.min_eq_left hk] at hannounced)
  obtain ⟨-, -, houtcome⟩ := recvStart_outcome h hstart
  unfold recv
  rw [if_neg (not_not.mpr h.flag_eq), hstart]
  cases reply with
  | true => exact ⟨_, rfl, rfl⟩
  | false =>
      rw [← List.nil_append (List.take k _)] at houtcome
      obtain ⟨hgot, hcomplete'⟩ := houtcome.complete rfl hcomplete
      exact exists_recvLoop hgot hchunks hcomplete'

/-! ## The chunks and the messages -/

/-- The message of `n` bytes whose header is at the index `p` of the stream is read as it
was sent.  Where it starts inside a chunk, the part of it in that chunk is the same as
the front of the chunk, but for the four bytes of the timestamp; and where it is large,
a chunk ends behind its header. -/
structure FrameFits (chunks : List (List Byte)) (p n : ℕ) : Prop where
  front : ∀ before chunk after, chunks = before ++ chunk :: after → before.flatten.length ≤ p →
    p < before.flatten.length + chunk.length → ∀ i, 4 ≤ i → i < 8 + n →
    p - before.flatten.length + i < chunk.length →
    chunk[p - before.flatten.length + i]? = chunk[i]?
  boundary : packLimit.toNat < n → ∃ before after, chunks = before ++ after ∧
    before.flatten.length = p + 8

/-- The bytes that the messages take on the wire. -/
def wire (sent : List (Int32 × List Byte)) : List Byte := sent.flatMap fun x ↦ sendBlock x.1 x.2

/-- Every message fits. -/
def Fits (chunks : List (List Byte)) (sent : List (Int32 × List Byte)) : Prop :=
  ∀ before x after, sent = before ++ x :: after →
    FrameFits chunks (wire before).length x.2.length

theorem wire_cons (x : Int32 × List Byte) (sent : List (Int32 × List Byte)) :
    wire (x :: sent) = sendBlock x.1 x.2 ++ wire sent := by
  simp [wire]

/-- What is said of each element and those before it, at the first element and at the others. -/
theorem forall_split_cons {α : Type*} {P : List α → α → Prop} {x : α} {xs : List α} :
    (∀ before y after, x :: xs = before ++ y :: after → P before y) ↔
      P [] x ∧ ∀ before y after, xs = before ++ y :: after → P (x :: before) y := by
  constructor
  · intro h
    exact ⟨h [] x xs rfl, fun before y after hsplit ↦ h (x :: before) y after (by rw [hsplit]; rfl)⟩
  · rintro ⟨hfirst, hrest⟩ before y after hsplit
    cases before with
    | nil =>
        rw [List.nil_append, List.cons.injEq] at hsplit
        rw [← hsplit.1]
        exact hfirst
    | cons z before =>
        rw [List.cons_append, List.cons.injEq] at hsplit
        rw [← hsplit.1]
        exact hrest before y after hsplit.2

section Chunks

variable {α : Type*} {as bs cs ds : List (List α)} {a b : List α} {p : ℕ}

theorem chunk_unique (h : as ++ a :: bs = cs ++ b :: ds) (ha : as.flatten.length ≤ p)
    (ha' : p < as.flatten.length + a.length) (hb : cs.flatten.length ≤ p)
    (hb' : p < cs.flatten.length + b.length) : as = cs ∧ a = b := by
  rcases List.append_eq_append_iff.mp h with ⟨l, hcs, hl⟩ | ⟨l, has, hl⟩
  · cases l with
    | nil =>
        rw [List.nil_append, List.cons.injEq] at hl
        exact ⟨by rw [hcs, List.append_nil], hl.1⟩
    | cons d l =>
        rw [List.cons_append, List.cons.injEq] at hl
        rw [hcs, List.flatten_append, List.flatten_cons, List.length_append,
          List.length_append, ← hl.1] at hb
        omega
  · cases l with
    | nil =>
        rw [List.nil_append, List.cons.injEq] at hl
        exact ⟨by rw [has, List.append_nil], hl.1.symm⟩
    | cons d l =>
        rw [List.cons_append, List.cons.injEq] at hl
        rw [has, List.flatten_append, List.flatten_cons, List.length_append,
          List.length_append, ← hl.1] at ha
        omega

theorem flatten_length_eq (h : as ++ bs = cs ++ b :: ds)
    (hb : cs.flatten.length ≤ as.flatten.length)
    (hb' : as.flatten.length < cs.flatten.length + b.length) :
    cs.flatten.length = as.flatten.length := by
  rcases List.append_eq_append_iff.mp h with ⟨l, hcs, -⟩ | ⟨l, has, hl⟩
  · rw [hcs, List.flatten_append, List.length_append] at hb ⊢
    omega
  · cases l with
    | nil => rw [has, List.append_nil]
    | cons d l =>
        rw [List.cons_append, List.cons.injEq] at hl
        rw [has, List.flatten_append, List.flatten_cons, List.length_append,
          List.length_append, ← hl.1] at hb'
        omega

theorem getLastD_le_flatten (as : List (List α)) :
    (as.getLastD []).length ≤ as.flatten.length := by
  induction as using List.reverseRecOn with
  | nil => simp
  | append_singleton as a _ => simp

end Chunks

theorem getElem?_eq_of_announced_eq {a b : List Byte} (ha : a.length = 8) (hb : b.length = 8)
    (h : announced a = announced b) {i : ℕ} (hi : 4 ≤ i) (hi' : i < 8) : a[i]? = b[i]? := by
  have hbyte : a.getD i 0 = b.getD i 0 := by
    rw [← UInt8.toNat_inj]
    unfold announced at h
    have ha5 := (a.getD 5 0).toNat_lt
    have ha6 := (a.getD 6 0).toNat_lt
    have ha7 := (a.getD 7 0).toNat_lt
    have hb5 := (b.getD 5 0).toNat_lt
    have hb6 := (b.getD 6 0).toNat_lt
    have hb7 := (b.getD 7 0).toNat_lt
    interval_cases i <;> omega
  have hia : a[i]? = some a[i] := List.getElem?_eq_getElem (by omega)
  have hib : b[i]? = some b[i] := List.getElem?_eq_getElem (by omega)
  rw [List.getD_eq_getElem?_getD, List.getD_eq_getElem?_getD, hia, hib] at hbyte
  rw [hia, hib]
  exact congrArg some hbyte

theorem announced_eq_of_getElem? {a b : List Byte} (h : ∀ i, 4 ≤ i → i < 8 → a[i]? = b[i]?) :
    announced a = announced b := by
  simp only [announced, List.getD_eq_getElem?_getD, h 4 (by omega) (by omega),
    h 5 (by omega) (by omega), h 6 (by omega) (by omega), h 7 (by omega) (by omega)]

/-- The part of a message in the last chunk, which starts `k` bytes before its end, is the
same as the front of the chunk. -/
def Front (chunk : List Byte) (k n : ℕ) : Prop :=
  ∀ i, 4 ≤ i → i < 8 + n → i < k → chunk[chunk.length - k + i]? = chunk[i]?

theorem frameFits_front_iff {past chunks : List (List Byte)} {k n : ℕ}
    (hk : k ≤ (past.getLastD []).length) :
    (∀ before chunk after, past ++ chunks = before ++ chunk :: after →
      before.flatten.length ≤ past.flatten.length - k →
      past.flatten.length - k < before.flatten.length + chunk.length →
      ∀ i, 4 ≤ i → i < 8 + n → past.flatten.length - k - before.flatten.length + i < chunk.length →
      chunk[past.flatten.length - k - before.flatten.length + i]? = chunk[i]?) ↔
      Front (past.getLastD []) k n := by
  induction past using List.reverseRecOn with
  | nil =>
      have hzero : k = 0 := by simpa using hk
      subst hzero
      refine ⟨fun _ i _ _ hi ↦ absurd hi (Nat.not_lt_zero _), ?_⟩
      intro _ before c after _ hle _ i _ _ _
      congr 1
      simp only [List.flatten_nil, List.length_nil] at hle ⊢
      omega
  | append_singleton past c _ =>
      rw [List.getLastD_concat] at hk ⊢
      have hlen : (past ++ [c]).flatten.length = past.flatten.length + c.length := by simp
      rw [hlen]
      constructor
      · intro h i hi hn hik
        have hoff : past.flatten.length + c.length - k - past.flatten.length + i =
            c.length - k + i := by omega
        have hfront := h past c chunks (by simp) (by omega) (by omega) i hi hn (by omega)
        rwa [hoff] at hfront
      · intro h before d after hsplit hle hlt i hi hn hid
        by_cases hzero : k = 0
        · subst hzero
          have hbefore := flatten_length_eq hsplit (by omega) (by omega)
          congr 1
          omega
        · rw [List.append_assoc, List.singleton_append] at hsplit
          obtain ⟨rfl, rfl⟩ := chunk_unique hsplit (p := past.flatten.length + c.length - k)
            (by omega) (by omega) hle hlt
          have hoff : past.flatten.length + c.length - k - past.flatten.length + i =
            c.length - k + i := by omega
          rw [hoff] at hid ⊢
          exact h i hi hn (by omega)

/-- The stream as the next call of `Recv` sees it agrees with the stream as it is, from
the size of the message on, when the front of the last chunk does. -/
theorem front_iff_getElem? {chunk : List Byte} (rest : List Byte) {k n : ℕ}
    (hk : k ≤ chunk.length) :
    Front chunk k n ↔ ∀ i, 4 ≤ i → i < 8 + n →
      (chunk.take k ++ rest)[i]? = (chunk.drop (chunk.length - k) ++ rest)[i]? := by
  have hsplit : ∀ i, (chunk.take k ++ rest)[i]? = (chunk.drop (chunk.length - k) ++ rest)[i]? ↔
      (i < k → chunk[i]? = chunk[chunk.length - k + i]?) := by
    intro i
    have hdrop : (chunk.drop (chunk.length - k)).length = k := by
      rw [List.length_drop]
      omega
    by_cases hi : i < k
    · rw [List.getElem?_append_left (by rw [List.length_take]; omega),
        List.getElem?_append_left (by omega), List.getElem?_take_of_lt hi, List.getElem?_drop]
      simp [hi]
    · rw [List.getElem?_append_right (by rw [List.length_take]; omega),
        List.getElem?_append_right (by omega), List.length_take, hdrop, Nat.min_eq_left hk]
      simp [hi]
  simp only [hsplit, Front]
  exact ⟨fun h i hi hn hik ↦ (h i hi hn hik).symm, fun h i hi hn hik ↦ (h i hi hn hik).symm⟩

theorem drop_flatten {past chunks : List (List Byte)} {k : ℕ}
    (hk : k ≤ (past.getLastD []).length) :
    (past ++ chunks).flatten.drop (past.flatten.length - k) =
      (past.getLastD []).drop ((past.getLastD []).length - k) ++ chunks.flatten := by
  induction past using List.reverseRecOn with
  | nil => simp
  | append_singleton past c _ =>
      rw [List.getLastD_concat] at hk ⊢
      have hlen : (past ++ [c]).flatten.length = past.flatten.length + c.length := by simp
      rw [hlen, List.append_assoc, List.flatten_append, Nat.add_sub_assoc hk, List.drop_append,
        List.singleton_append, List.flatten_cons,
        List.drop_eq_nil_of_le (Nat.le_add_right _ _), List.nil_append, Nat.add_sub_cancel_left,
        List.drop_append_of_le_length (Nat.sub_le _ _)]

theorem frameFits_boundary_iff {past chunks : List (List Byte)} {k : ℕ}
    (hk : k ≤ (past.getLastD []).length) :
    (∃ before after, past ++ chunks = before ++ after ∧
      before.flatten.length = past.flatten.length - k + 8) ↔
      ∃ done rest, (past.getLastD []).take k :: chunks = done ++ rest ∧
        done.flatten.length = 8 := by
  have hle := getLastD_le_flatten past
  have htake : ((past.getLastD []).take k).length = k := by
    rw [List.length_take]
    omega
  constructor
  · rintro ⟨before, after, hsplit, hlen⟩
    rcases List.append_eq_append_iff.mp hsplit with ⟨l, rfl, rfl⟩ | ⟨l, rfl, rfl⟩
    · refine ⟨(past.getLastD []).take k :: l, after, rfl, ?_⟩
      rw [List.flatten_append, List.length_append] at hlen
      rw [List.flatten_cons, List.length_append]
      omega
    · induction l using List.reverseRecOn with
      | nil =>
          refine ⟨[(before.getLastD []).take k], chunks, by simp, ?_⟩
          rw [List.append_nil] at hlen hk htake hle
          rw [List.flatten_singleton]
          omega
      | append_singleton l c _ =>
          -- the boundary would be before the last chunk
          rw [← List.append_assoc, List.getLastD_concat] at hk
          simp only [List.flatten_append, List.length_append, List.flatten_singleton] at hlen
          omega
  · rintro ⟨done, rest, hsplit, hlen⟩
    cases done with
    | nil => cases hlen
    | cons d done =>
        rw [List.cons_append, List.cons.injEq] at hsplit
        obtain ⟨rfl, rfl⟩ := hsplit
        refine ⟨past ++ done, rest, by simp, ?_⟩
        rw [List.flatten_cons, List.length_append] at hlen
        rw [List.flatten_append, List.length_append]
        omega

theorem frameFits_iff {past chunks : List (List Byte)} {k n : ℕ}
    (hk : k ≤ (past.getLastD []).length) :
    FrameFits (past ++ chunks) (past.flatten.length - k) n ↔
      Front (past.getLastD []) k n ∧
        (packLimit.toNat < n → ∃ done rest,
          (past.getLastD []).take k :: chunks = done ++ rest ∧ done.flatten.length = 8) := by
  rw [← frameFits_front_iff hk, ← frameFits_boundary_iff hk]
  exact ⟨fun h ↦ ⟨h.front, h.boundary⟩, fun h ↦ ⟨h.1, h.2⟩⟩

/-! ## One message -/

/-- The bytes of the message a call of `Recv` returned. -/
def Received.payload (res : Received) : Option (List Byte) :=
  if res.reply then some res.conn.frame.msgbuffer.unread else none

theorem Received.payload_eq_some {res : Received} {data : List Byte} :
    res.payload = some data ↔ res.reply = true ∧ res.conn.frame.msgbuffer.unread = data := by
  unfold payload
  cases res.reply <;> simp

section Message

variable {past chunks : List (List Byte)} {k : ℕ} {timestamp : Int32} {data tail : List Byte}

theorem getElem?_sendBlock {i : ℕ} (h : 8 ≤ i) :
    (sendBlock timestamp data ++ tail)[i]? = (data ++ tail)[i - 8]? := by
  rw [sendBlock, List.append_assoc, List.getElem?_append_right]
  · rw [MessageHeader.length_toMem]
  · exact h

theorem announced_sendBlock (hdata : data.length ≤ socketPackSize.toNat) :
    announced ((sendBlock timestamp data ++ tail).take 8) = data.length := by
  have htake : (sendBlock timestamp data ++ tail).take 8 =
      (MessageHeader.mk timestamp (UInt32.ofNat data.length)).h2n.toMem := by
    rw [sendBlock, List.append_assoc]
    exact List.take_left' rfl
  rw [htake, MessageHeader.announced_toMem_h2n, UInt32.toNat_ofNat', Nat.mod_eq_of_lt]
  exact lt_of_le_of_lt hdata (by decide)

theorem Framed.frameFits {read rest : List (List Byte)} {hdr : List Byte} {n : ℕ}
    (hk : k ≤ (past.getLastD []).length) (hdata : data.length ≤ socketPackSize.toNat)
    (hstream : (past ++ chunks).flatten.drop (past.flatten.length - k) =
      sendBlock timestamp data ++ tail)
    (hread : chunks = read ++ rest)
    (h : Framed [] ((past.getLastD []).take k :: read) hdr data n 0) :
    FrameFits (past ++ chunks) (past.flatten.length - k) data.length := by
  rw [drop_flatten hk] at hstream
  obtain ⟨surplus, hsurplus⟩ := h.stream rfl
  have hvirtual : (past.getLastD []).take k ++ chunks.flatten =
      hdr ++ (data ++ (surplus ++ rest.flatten)) := by
    rw [List.nil_append, List.flatten_cons] at hsurplus
    rw [hread, List.flatten_append, ← List.append_assoc, hsurplus]
    simp only [List.append_assoc]
  refine (frameFits_iff hk).mpr ⟨?_, ?_⟩
  · rw [front_iff_getElem? chunks.flatten hk, hstream, hvirtual]
    intro i hi hn
    by_cases hhdr : i < 8
    · have hsize : announced hdr = announced ((sendBlock timestamp data ++ tail).take 8) := by
        rw [announced_sendBlock hdata, h.announced_eq]
      have hlen : ((sendBlock timestamp data ++ tail).take 8).length = 8 := by
        rw [List.length_take, List.length_append, length_sendBlock]
        omega
      have hget := getElem?_eq_of_announced_eq h.length_eq hlen hsize hi hhdr
      rw [List.getElem?_take_of_lt hhdr] at hget
      rw [List.getElem?_append_left (by rw [h.length_eq]; exact hhdr), hget]
    · rw [getElem?_sendBlock (not_lt.mp hhdr), List.getElem?_append_right (by
        rw [h.length_eq]
        omega), h.length_eq, List.getElem?_append_left (by omega),
        List.getElem?_append_left (by omega)]
  · intro hlarge
    obtain ⟨done, more, hdone, hlen⟩ := h.boundary rfl hlarge (by simp)
    refine ⟨done, more ++ rest, ?_, by simpa using hlen⟩
    rw [hread, ← List.cons_append, hdone, List.append_assoc]

theorem FrameFits.getElem?_eq (hk : k ≤ (past.getLastD []).length)
    (hstream : (past ++ chunks).flatten.drop (past.flatten.length - k) =
      sendBlock timestamp data ++ tail)
    (h : FrameFits (past ++ chunks) (past.flatten.length - k) data.length) {i : ℕ}
    (hi : 4 ≤ i) (hn : i < 8 + data.length) :
    ((past.getLastD []).take k ++ chunks.flatten)[i]? = (sendBlock timestamp data ++ tail)[i]? := by
  rw [drop_flatten hk] at hstream
  rw [← hstream]
  exact (front_iff_getElem? _ hk).mp ((frameFits_iff hk).mp h).1 i hi hn

theorem FrameFits.announced_eq (hk : k ≤ (past.getLastD []).length)
    (hdata : data.length ≤ socketPackSize.toNat)
    (hstream : (past ++ chunks).flatten.drop (past.flatten.length - k) =
      sendBlock timestamp data ++ tail)
    (h : FrameFits (past ++ chunks) (past.flatten.length - k) data.length) :
    announced (((past.getLastD []).take k ++ chunks.flatten).take 8) = data.length := by
  have hsize : announced ((sendBlock timestamp data ++ tail).take 8) = data.length :=
    announced_sendBlock hdata
  rw [← hsize]
  apply announced_eq_of_getElem?
  intro i hi hi'
  rw [List.getElem?_take_of_lt hi', List.getElem?_take_of_lt hi',
    h.getElem?_eq hk hstream hi (by omega)]

theorem FrameFits.recv_eq {s : SyncConnector} (hready : s.Ready (past.getLastD []) k)
    (hchunks : ∀ c ∈ chunks, c ≠ [] ∧ c.length ≤ socketReadSize)
    (hdata : data.length ≤ socketPackSize.toNat)
    (hstream : (past ++ chunks).flatten.drop (past.flatten.length - k) =
      sendBlock timestamp data ++ tail)
    (h : FrameFits (past ++ chunks) (past.flatten.length - k) data.length) :
    ∃ res read hdr n, s.recv chunks = some res ∧ res.payload = some data ∧
      chunks = read ++ res.rest ∧ res.conn.Ready ((past ++ read).getLastD []) n ∧
      Framed [] ((past.getLastD []).take k :: read) hdr data n 0 := by
  have hk := hready.le_length
  have hsize := h.announced_eq hk hdata hstream
  have hboundary := ((frameFits_iff hk).mp h).2
  have hlength : ((past.getLastD []).take k ++ chunks.flatten).length =
      8 + data.length + tail.length := by
    have htrue := congrArg List.length hstream
    rw [drop_flatten hk, List.length_append, List.length_append, length_sendBlock,
      List.length_drop] at htrue
    rw [List.length_append, List.length_take]
    omega
  have hcomplete : Complete [] ((past.getLastD []).take k :: chunks) := by
    refine ⟨?_, ?_, ?_⟩
    · rw [List.nil_append, List.flatten_cons, hsize, hlength]
      omega
    · rwa [List.nil_append, List.flatten_cons, hsize]
    · rw [List.nil_append, List.flatten_cons, hsize]
      intro hlarge _
      simpa using hboundary hlarge
  obtain ⟨res, hres, hreply⟩ := exists_recv hready hchunks hcomplete
  obtain ⟨read, hdr, n, lost, hread, hready', hf⟩ :=
    recv_framed hready (fun c hc ↦ (hchunks c hc).2) hres hreply
  have hcount := hf.count
  simp only [List.length_nil, Nat.zero_add] at hcount
  have hheader : ((past.getLastD []).take k ++ chunks.flatten).take 8 = hdr := by
    have hheader := hf.header_eq
    rw [List.nil_append] at hheader
    rw [hread, List.flatten_append, ← List.append_assoc, ← List.flatten_cons (L := read),
      List.take_append_of_le_length (by omega), hheader]
  have hbody : res.conn.frame.msgbuffer.unread.length = data.length := by
    rw [← hf.announced_eq, ← hheader, hsize]
  have hlost : lost = 0 := by
    by_contra hne
    obtain ⟨-, hlarge, hno⟩ := hf.lost_ne hne
    obtain ⟨done, rest, hdone, hlen⟩ := hboundary (hbody ▸ hlarge)
    rw [hread, ← List.cons_append] at hdone
    rcases List.append_eq_append_iff.mp hdone with ⟨l, hl, -⟩ | ⟨l, hl, -⟩
    · rw [hl, List.flatten_append, List.length_append] at hlen
      omega
    · exact hno done l hl (by simpa using hlen)
  subst hlost
  have hunread : res.conn.frame.msgbuffer.unread = data := by
    obtain ⟨surplus, hsurplus⟩ := hf.stream rfl
    apply List.ext_getElem?
    intro i
    by_cases hi : i < data.length
    · have hget := h.getElem?_eq hk hstream (i := i + 8) (by omega) (by omega)
      rw [List.nil_append, List.flatten_cons] at hsurplus
      rw [hread, List.flatten_append, ← List.append_assoc, hsurplus,
        getElem?_sendBlock (by omega), List.append_assoc,
        List.getElem?_append_right (by rw [hf.length_eq]; omega), hf.length_eq,
        Nat.add_sub_cancel, List.append_assoc, List.getElem?_append_left (by omega),
        List.getElem?_append_left hi] at hget
      exact hget
    · rw [List.getElem?_eq_none (by omega), List.getElem?_eq_none (by omega)]
  exact ⟨res, read, hdr, n, hres, Received.payload_eq_some.mpr ⟨hreply, hunread⟩, hread, hready',
    hunread ▸ hf⟩

end Message

/-! ## Successive calls -/

/-- The results of the next calls of `Recv`. -/
def recvAll : ℕ → SyncConnector → List (List Byte) → Option (List (Option (List Byte)))
  | 0, _, _ => some []
  | m + 1, s, chunks =>
      match s.recv chunks with
      | none => none
      | some res => (recvAll m res.conn res.rest).map (res.payload :: ·)

theorem recvAll_succ {m : ℕ} {s : SyncConnector} {chunks : List (List Byte)}
    {x : Option (List Byte)} {xs : List (Option (List Byte))} :
    recvAll (m + 1) s chunks = some (x :: xs) ↔
      ∃ res, s.recv chunks = some res ∧ res.payload = x ∧
        recvAll m res.conn res.rest = some xs := by
  rw [recvAll]
  cases s.recv chunks with
  | none => simp
  | some res => simp [and_comm]

theorem length_wire_cons (x : Int32 × List Byte) (sent : List (Int32 × List Byte)) :
    (wire (x :: sent)).length = 8 + x.2.length + (wire sent).length := by
  simp [wire, length_sendBlock]

theorem length_wire_le {sent : List (Int32 × List Byte)} {m : ℕ} {s : SyncConnector}
    {past chunks : List (List Byte)} {k : ℕ} {xs : List (Option (List Byte))}
    (h : s.Ready (past.getLastD []) k) (hchunks : ∀ c ∈ chunks, c.length ≤ socketReadSize)
    (hres : recvAll m s chunks = some (sent.map (fun x ↦ some x.2) ++ xs)) :
    (wire sent).length ≤ k + chunks.flatten.length := by
  induction sent generalizing m s past chunks k with
  | nil => exact Nat.zero_le _
  | cons x sent ih =>
      cases m with
      | zero => cases hres
      | succ m =>
          obtain ⟨res, hrecv, hpayload, hrest⟩ := recvAll_succ.mp hres
          obtain ⟨hreply, hunread⟩ := Received.payload_eq_some.mp hpayload
          obtain ⟨read, hdr, n, lost, hread, hready, hf⟩ := recv_framed h hchunks hrecv hreply
          have hle := ih hready (fun c hc ↦ hchunks c (by rw [hread]; simp [hc])) hrest
          have hcount := hf.count
          rw [hunread, List.flatten_cons, List.length_append, List.length_take,
            List.length_nil] at hcount
          rw [length_wire_cons, hread, List.flatten_append, List.length_append]
          omega

theorem Ready.recv_nil {s : SyncConnector} {c : List Byte} {k : ℕ} (h : s.Ready c k)
    (hk : k = 0) : ∃ s', s.recv [] = some ⟨false, s', []⟩ := by
  have hzero : ¬ s.readsize > 0 := by
    rw [gt_iff_lt, UInt32.not_lt, UInt32.le_iff_toNat_le, h.toNat_readsize, hk]
    exact Nat.zero_le _
  rw [recv, if_neg (not_not.mpr h.flag_eq), recvStart, if_neg hzero]
  exact ⟨_, rfl⟩

theorem Framed.next {past chunks read rest : List (List Byte)} {k n : ℕ}
    {hdr data tail : List Byte} {timestamp : Int32}
    (hk : k ≤ (past.getLastD []).length) (hread : chunks = read ++ rest)
    (hstream : (past ++ chunks).flatten.drop (past.flatten.length - k) =
      sendBlock timestamp data ++ tail)
    (h : Framed [] ((past.getLastD []).take k :: read) hdr data n 0) :
    (past ++ read).flatten.length - n =
        past.flatten.length - k + (sendBlock timestamp data).length ∧
      ((past ++ read) ++ rest).flatten.drop ((past ++ read).flatten.length - n) = tail := by
  have hcount := h.count
  have hle := getLastD_le_flatten past
  rw [List.flatten_cons, List.length_append, List.length_take, List.length_nil,
    Nat.min_eq_left hk] at hcount
  have hpos : (past ++ read).flatten.length - n =
      past.flatten.length - k + (sendBlock timestamp data).length := by
    rw [List.flatten_append, List.length_append, length_sendBlock]
    omega
  refine ⟨hpos, ?_⟩
  rw [hpos, List.append_assoc, ← hread, ← List.drop_drop, hstream, List.drop_left]

/-- The messages still to come are returned one by one, and then nothing, exactly when
each of them fits.  The induction is on the messages. -/
theorem recvAll_eq_iff {sent : List (Int32 × List Byte)} {s : SyncConnector}
    {past chunks : List (List Byte)} {k : ℕ} (h : s.Ready (past.getLastD []) k)
    (hchunks : ∀ c ∈ chunks, c ≠ [] ∧ c.length ≤ socketReadSize)
    (hsent : ∀ x ∈ sent, 1 ≤ x.2.length ∧ x.2.length ≤ socketPackSize.toNat)
    (hstream : (past ++ chunks).flatten.drop (past.flatten.length - k) = wire sent) :
    recvAll (sent.length + 1) s chunks = some (sent.map (fun x ↦ some x.2) ++ [none]) ↔
      ∀ before x after, sent = before ++ x :: after →
        FrameFits (past ++ chunks) (past.flatten.length - k + (wire before).length)
          x.2.length := by
  induction sent generalizing s past chunks k with
  | nil =>
      refine ⟨fun _ before x after hsplit ↦ absurd hsplit (by simp), fun _ ↦ ?_⟩
      have hlen := congrArg List.length hstream
      rw [drop_flatten h.le_length, List.length_append, List.length_drop] at hlen
      change _ = 0 at hlen
      have hle := h.le_length
      have hnil : chunks = [] := by
        refine List.eq_nil_iff_forall_not_mem.mpr fun c hc ↦ (hchunks c hc).1 ?_
        exact List.flatten_eq_nil_iff.mp (List.eq_nil_of_length_eq_zero (by omega)) c hc
      subst hnil
      obtain ⟨s', hrecv⟩ := h.recv_nil (by omega)
      exact recvAll_succ.mpr ⟨_, hrecv, rfl, rfl⟩
  | cons x sent ih =>
      have hk := h.le_length
      have hdata := (hsent x (by simp)).2
      rw [wire_cons] at hstream
      have htotal : k + chunks.flatten.length = 8 + x.2.length + (wire sent).length := by
        have hlen := congrArg List.length hstream
        rw [drop_flatten hk, List.length_append, List.length_drop, List.length_append,
          length_sendBlock] at hlen
        omega
      -- what the messages behind `x` need, once `x` has been returned without loss
      have hrest : ∀ {res : Received} {read : List (List Byte)} {hdr : List Byte} {n : ℕ},
          chunks = read ++ res.rest → res.conn.Ready ((past ++ read).getLastD []) n →
          Framed [] ((past.getLastD []).take k :: read) hdr x.2 n 0 →
          (recvAll (sent.length + 1) res.conn res.rest =
              some (sent.map (fun x ↦ some x.2) ++ [none]) ↔
            ∀ before y after, sent = before ++ y :: after →
              FrameFits (past ++ chunks)
                (past.flatten.length - k + (wire (x :: before)).length) y.2.length) := by
        intro res read hdr n hread hready hf
        obtain ⟨hnext, htail⟩ := hf.next hk hread hstream
        have hiff := ih hready (fun c hc ↦ hchunks c (by rw [hread]; simp [hc]))
          (fun y hy ↦ hsent y (by simp [hy])) htail
        rw [List.append_assoc, ← hread, hnext] at hiff
        simp only [length_wire_cons, ← Nat.add_assoc]
        rw [length_sendBlock] at hiff
        simpa only [Nat.add_assoc] using hiff
      constructor
      · intro hres
        obtain ⟨res, hrecv, hpayload, hmore⟩ := recvAll_succ.mp hres
        obtain ⟨hreply, hunread⟩ := Received.payload_eq_some.mp hpayload
        obtain ⟨read, hdr, n, lost, hread, hready, hf⟩ :=
          recv_framed h (fun c hc ↦ (hchunks c hc).2) hrecv hreply
        rw [hunread] at hf
        have hlost : lost = 0 := by
          have hle := length_wire_le hready
            (fun c hc ↦ (hchunks c (by rw [hread]; simp [hc])).2) hmore
          have hcount := hf.count
          rw [List.flatten_cons, List.length_append, List.length_take, List.length_nil]
            at hcount
          rw [hread, List.flatten_append, List.length_append] at htotal
          omega
        subst hlost
        exact forall_split_cons.mpr
          ⟨hf.frameFits hk hdata hstream hread, (hrest hread hready hf).mp hmore⟩
      · intro hfits
        obtain ⟨hfit, hfits⟩ := forall_split_cons.mp hfits
        have hfit' : FrameFits (past ++ chunks) (past.flatten.length - k) x.2.length := hfit
        obtain ⟨res, read, hdr, n, hrecv, hpayload, hread, hready, hf⟩ :=
          hfit'.recv_eq h hchunks hdata hstream
        exact recvAll_succ.mpr ⟨res, hrecv, hpayload, (hrest hread hready hf).mpr hfits⟩

/-- A connector after `Connect`. -/
def connected : SyncConnector := (init.connect true true).2

theorem ready_connected : connected.Ready (([] : List (List Byte)).getLastD []) 0 :=
  ⟨rfl, rfl, rfl, rfl, le_rfl, Nat.zero_le _⟩

/-- For all messages that `Send(data, len)` accepts and all ways to cut their stream into
chunks, the calls of `Recv` return the messages that a stream socket delivers, which are
those that were sent, if and only if all of them fit the chunks. -/
theorem recv_delivered_iff {σ : Type*} (onReceiveData : σ → Buffer → σ × Buffer) (w : σ)
    (sent : List (Int32 × List Byte)) (chunks : List (List Byte))
    (hsent : ∀ x ∈ sent, 1 ≤ x.2.length ∧ x.2.length ≤ socketPackSize.toNat)
    (hchunks : ∀ c ∈ chunks, c ≠ [] ∧ c.length ≤ socketReadSize)
    (hstream : chunks.flatten = wire sent) :
    (∃ st, TcpStreamSocket.feed onReceiveData (.start w) chunks = some st ∧
      st.out.delivered = sent.map Prod.snd ∧
      recvAll (sent.length + 1) connected chunks =
        some (st.out.delivered.map some ++ [none])) ↔ Fits chunks sent := by
  obtain ⟨st, hst, hagrees⟩ := TcpStreamSocket.feed_agrees onReceiveData
    (TcpStreamSocket.start_agrees w) chunks (fun c hc ↦ (hchunks c hc).2)
  have hparse : TcpStreamSocket.format.parse (wire sent) =
      (sent.map Prod.snd, .incomplete []) :=
    parse_sendBlocks (by decide) sent (fun x hx ↦ (hsent x hx).2)
  have hdelivered : st.out.delivered = sent.map Prod.snd := by
    rw [hagrees.delivered_eq, List.nil_append, hstream, hparse]
  have hiff := recvAll_eq_iff ready_connected hchunks hsent hstream
  simp only [List.nil_append, List.flatten_nil, List.length_nil, Nat.sub_self,
    Nat.zero_add] at hiff
  rw [Fits, ← hiff]
  constructor
  · rintro ⟨st', hst', hdelivered', hrecv⟩
    rwa [hdelivered', List.map_map] at hrecv
  · intro hrecv
    exact ⟨st, hst, hdelivered, by rwa [hdelivered, List.map_map]⟩

/-- Two messages, each in chunks of its own. -/
theorem recv_delivered_iff_two_chunks :
    Fits [sendBlock 7 [65], (sendBlock 8 [66, 67]).take 3, (sendBlock 8 [66, 67]).drop 3]
      [(7, [65]), (8, [66, 67])] := by
  refine (recv_delivered_iff (fun _ b ↦ ((), b)) () _ _ (by decide +kernel) (by decide +kernel)
    (by decide +kernel)).mp ?_
  have hrun : (TcpStreamSocket.feed (fun _ b ↦ ((), b)) (.start ())
      [sendBlock 7 [65], (sendBlock 8 [66, 67]).take 3, (sendBlock 8 [66, 67]).drop 3]).any
        (fun st ↦ decide (st.out.delivered = [[65], [66, 67]] ∧
          recvAll 3 connected
            [sendBlock 7 [65], (sendBlock 8 [66, 67]).take 3, (sendBlock 8 [66, 67]).drop 3] =
            some (st.out.delivered.map some ++ [none]))) = true := by
    decide +kernel
  obtain ⟨st, hst, hresult⟩ := (Option.any_eq_true _ _).mp hrun
  exact ⟨st, hst, of_decide_eq_true hresult⟩

theorem recv_delivered_fails :
    [sendBlock 7 [65] ++ sendBlock 7 [66]].flatten = wire [(7, [65]), (7, [66])] ∧
      recvAll 3 connected [sendBlock 7 [65] ++ sendBlock 7 [66]] =
        some [some [65], some [65], none] := by
  decide +kernel

end SyncConnector

end Slience
