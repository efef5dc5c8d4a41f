import Slience.Redis.Pipeline

/-!
# Commands one at a time

A blocking connection between two commands is idle.  `redisCommandArgv` writes the command, however
little `send` takes at a time, and reads until the reply is complete, however `recv` cuts it: the
reply is the one to this command, and the connection is idle again.
-/

namespace Slience

namespace Redis

/-- `send` takes `n` bytes in all; a call that a signal interrupts is made again. -/
def Sends : List (Except SocketError ℕ) → ℕ → Prop
  | [], n => n = 0
  | .ok k :: sends, n => n = 0 ∨ k ≤ n ∧ Sends sends (n - k)
  | .error e :: sends, n => n = 0 ∨ e = .interrupted ∧ Sends sends n

/-- `recv` gives the bytes `t` in pieces; a call that a signal interrupts is made again. -/
def Receives : List (Except SocketError Text) → Text → Prop
  | [], t => t = []
  | .ok piece :: recvs, t => piece ≠ [] ∧ ∃ t', t = piece ++ t' ∧ Receives recvs t'
  | .error e :: recvs, t => e = .interrupted ∧ Receives recvs t

namespace HiredisContext

/-- Nothing is to be written or read. -/
structure Idle (c : HiredisContext) : Prop where
  err : c.err = none
  block : c.block = true
  obuf : c.obuf = []
  reader : c.reader.Holds []
  buf : c.reader.buf.length < 1024

theorem idle_init : (init true).Idle :=
  ⟨rfl, rfl, rfl, RedisReader.holds_create, Nat.zero_lt_succ _⟩

variable {c : HiredisContext}

theorem not_isSome (herr : c.err = none) : ¬ c.err.isSome := by
  rw [herr]
  simp

theorem redisBufferWrite_ok (herr : c.err = none) (hobuf : c.obuf ≠ []) (n : ℕ) :
    c.redisBufferWrite (.ok n) =
      (some (decide (c.obuf.drop n = [])), { c with obuf := c.obuf.drop n }) := by
  unfold redisBufferWrite
  rw [if_neg (not_isSome herr), if_neg hobuf]

theorem redisBufferWrite_interrupted (herr : c.err = none) (hobuf : c.obuf ≠ []) :
    c.redisBufferWrite (.error .interrupted) = (some false, c) := by
  unfold redisBufferWrite
  rw [if_neg (not_isSome herr), if_neg hobuf]
  simp [tryAgain]

theorem writeLoop_of_empty (herr : c.err = none) (hobuf : c.obuf = [])
    (sends : List (Except SocketError ℕ)) :
    writeLoop sends c = some (true, { c with obuf := [] }) := by
  cases sends <;> rw [writeLoop, if_neg (not_isSome herr), if_pos hobuf, ← hobuf]

/-- The loop writes the whole buffer. -/
theorem writeLoop_of_sends {sends : List (Except SocketError ℕ)} (herr : c.err = none)
    (h : Sends sends c.obuf.length) : writeLoop sends c = some (true, { c with obuf := [] }) := by
  induction sends generalizing c with
  | nil => exact writeLoop_of_empty herr (List.eq_nil_of_length_eq_zero h) []
  | cons nwritten sends ih =>
      by_cases hobuf : c.obuf = []
      · exact writeLoop_of_empty herr hobuf _
      · have hne : c.obuf.length ≠ 0 := fun h ↦ hobuf (List.eq_nil_of_length_eq_zero h)
        rw [writeLoop, if_neg (not_isSome herr), if_neg hobuf]
        cases nwritten with
        | error e =>
            obtain ⟨rfl, hrest⟩ := h.resolve_left hne
            simp only [redisBufferWrite_interrupted herr hobuf]
            exact ih herr hrest
        | ok k =>
            obtain ⟨-, h⟩ := h.resolve_left hne
            simp only [redisBufferWrite_ok herr hobuf]
            by_cases hdone : c.obuf.drop k = []
            · rw [hdone, decide_eq_true rfl]
            · rw [decide_eq_false hdone]
              have hrest : Sends sends (c.obuf.drop k).length := by
                rw [List.length_drop]
                exact h
              exact ih (c := { c with obuf := c.obuf.drop k }) herr hrest

theorem redisBufferRead_ok (herr : c.err = none) {piece : Text} (hpiece : piece ≠ [])
    (hreader : c.reader.err = none) (hfits : c.reader.buf.length + piece.length < 2 ^ 31) :
    c.redisBufferRead (.ok piece) =
      some (true, { c with reader := { c.reader with buf := c.reader.buf ++ piece } }) := by
  have hnot : ¬ c.reader.err.isSome := by
    rw [hreader]
    simp
  have hfeed : c.reader.feed piece =
      some (true, { c.reader with buf := c.reader.buf ++ piece }) := by
    rw [RedisReader.feed, if_neg hnot, if_pos hfits]
  unfold redisBufferRead
  rw [if_neg (not_isSome herr)]
  cases piece with
  | nil => exact absurd rfl hpiece
  | cons b l =>
      simp only [hfeed, Option.map_some]
      rw [hreader]

theorem err_of_holds {r : RedisReader} {s : Text} (h : r.Holds s)
    (hs : ∀ e, parseItem 8 s ≠ .fail e) : r.err = none := by
  rcases h with ⟨frames, type, h, -, -⟩ | ⟨e, -, hfail⟩
  · rw [← RedisReader.err_setFirst, h.err]
  · exact absurd hfail (hs _)

theorem redisGetReplyFromReader_of_more {s : Text} (h : c.reader.Holds s)
    (hs : parseItem 8 s = .more) :
    ∃ reader, c.redisGetReplyFromReader = some (some none, { c with reader }) ∧ reader.Holds s ∧
      reader.buf.length ≤ c.reader.buf.length := by
  rcases RedisReader.getReply_of_holds h (by rw [hs]; exact fun h ↦ by cases h) with
    ⟨r', hget, -, h'⟩ | ⟨o, rest, r', -, hs', -, -⟩ | ⟨e, r', -, hs', -⟩
  · refine ⟨r', ?_, h', RedisReader.length_buf_getReply hget⟩
    rw [redisGetReplyFromReader, hget]
    rfl
  · cases hs.symm.trans hs'
  · cases hs.symm.trans hs'

theorem redisGetReplyFromReader_of_done {s : Text} {o : ReplyObject} (h : c.reader.Holds s)
    (hs : parseItem 8 s = .done o []) :
    ∃ reader, c.redisGetReplyFromReader = some (some (some o), { c with reader }) ∧
      reader.Holds [] ∧ reader.buf.length < 1024 := by
  rcases RedisReader.getReply_of_holds h (by rw [hs]; exact fun h ↦ by cases h) with
    ⟨r', -, hs', -⟩ | ⟨o', rest, r', hget, hs', h', hbuf⟩ | ⟨e, r', -, hs', -⟩
  · cases hs.symm.trans hs'
  · cases hs.symm.trans hs'
    refine ⟨r', ?_, h', hbuf⟩
    rw [redisGetReplyFromReader, hget]
    rfl
  · cases hs.symm.trans hs'

/-- The loop reads until the reply is complete, and no further. -/
theorem readLoop_of_receives {recvs : List (Except SocketError Text)} {s t : Text}
    {o : ReplyObject} (herr : c.err = none) (hreader : c.reader.Holds s)
    (hdone : replies.parse (s ++ t) = .done o []) (ht : t ≠ []) (hrecvs : Receives recvs t)
    (hfits : c.reader.buf.length + t.length < 2 ^ 31) :
    ∃ reader, readLoop recvs c = some (some o, { c with reader }) ∧ reader.Holds [] ∧
      reader.buf.length < 1024 := by
  induction recvs generalizing c s t with
  | nil => exact absurd hrecvs ht
  | cons received recvs ih =>
      have hmore : parseItem 8 s = .more := by
        rcases Incremental.parse_of_append hdone with hs | ⟨s', -, hs'⟩
        · exact hs
        · exact absurd (List.append_eq_nil_iff.mp hs').2 ht
      rw [readLoop]
      cases received with
      | error e =>
          obtain ⟨rfl, hrest⟩ := hrecvs
          have hread : c.redisBufferRead (.error .interrupted) = some (true, c) := by
            unfold redisBufferRead
            rw [if_neg (not_isSome herr)]
            simp [tryAgain]
          obtain ⟨reader, hget, hreader', hbuf⟩ := redisGetReplyFromReader_of_more hreader hmore
          simp only [hread, Option.bind_eq_bind, Option.bind_some, if_pos, hget]
          exact ih (c := { c with reader }) herr hreader' hdone ht hrest
            (show reader.buf.length + t.length < 2 ^ 31 by omega)
      | ok piece =>
          obtain ⟨hpiece, t', rfl, hrest⟩ := hrecvs
          rw [List.length_append] at hfits
          have hrerr : c.reader.err = none :=
            err_of_holds hreader (by rw [hmore]; exact fun e he ↦ by cases he)
          have hread := redisBufferRead_ok herr hpiece hrerr (by omega)
          have hfeed : RedisReader.receiver.feed c.reader piece =
              some { c.reader with buf := c.reader.buf ++ piece } := by
            have hnot : ¬ c.reader.err.isSome := by
              rw [hrerr]
              simp
            change (c.reader.feed piece).map Prod.snd = _
            rw [RedisReader.feed, if_neg hnot, if_pos (by omega)]
            rfl
          have hfed := RedisReader.feed_holds piece hreader hfeed
          rw [← List.append_assoc] at hdone
          simp only [hread, Option.bind_eq_bind, Option.bind_some, if_pos]
          by_cases ht' : t' = []
          · subst ht'
            rw [List.append_nil] at hdone
            obtain ⟨reader, hget, hreader', hbuf⟩ := redisGetReplyFromReader_of_done
              (c := { c with reader := { c.reader with buf := c.reader.buf ++ piece } }) hfed hdone
            simp only [hget, Option.bind_some]
            exact ⟨reader, rfl, hreader', hbuf⟩
          · have hmore' : parseItem 8 (s ++ piece) = .more := by
              rcases Incremental.parse_of_append hdone with hs | ⟨s', -, hs'⟩
              · exact hs
              · exact absurd (List.append_eq_nil_iff.mp hs').2 ht'
            obtain ⟨reader, hget, hreader', hbuf⟩ := redisGetReplyFromReader_of_more
              (c := { c with reader := { c.reader with buf := c.reader.buf ++ piece } }) hfed hmore'
            have hlen : reader.buf.length + t'.length < 2 ^ 31 := by
              change reader.buf.length ≤ (c.reader.buf ++ piece).length at hbuf
              rw [List.length_append] at hbuf
              omega
            simp only [hget, Option.bind_some]
            exact ih (c := { c with reader }) herr hreader' hdone ht' hrest hlen

/-- The network during one command: the server gets all of it, and answers `o`. -/
structure Answered (argv : List Text) (o : ReplyObject) (sends : List (Except SocketError ℕ))
    (recvs : List (Except SocketError Text)) : Prop where
  size : totlen argv < 2 ^ 31
  sends : Sends sends (totlen argv)
  reply : ∃ t, encode 8 o = some t ∧ t.length + 1024 ≤ 2 ^ 31 ∧ Receives recvs t

/-- A command on an idle connection returns its reply, and the connection is idle again. -/
theorem Idle.redisCommandArgv (h : c.Idle) {argv : List Text} {o : ReplyObject}
    {sends : List (Except SocketError ℕ)} {recvs : List (Except SocketError Text)}
    (hanswered : Answered argv o sends recvs) :
    ∃ c', c.redisCommandArgv argv sends recvs = some (some o, c') ∧ c'.Idle := by
  obtain ⟨t, ht, hlen, hrecvs⟩ := hanswered.reply
  have hsize := hanswered.size
  have himage := length_commandImage argv
  have happend : c.redisAppendCommandArgv argv = some { c with obuf := commandImage argv } := by
    rw [redisAppendCommandArgv, redisFormatSdsCommandArgv_eq hsize]
    simp only [Option.bind_eq_bind, Option.bind_some]
    rw [appendCommand, h.obuf, if_pos (by rw [List.length_nil, himage]; omega), List.nil_append]
  obtain ⟨reader, hget, hreader, hbuf⟩ := redisGetReplyFromReader_of_more
    (c := { c with obuf := commandImage argv }) h.reader rfl
  have hwrite : writeLoop sends { c with obuf := commandImage argv, reader } =
      some (true, { c with obuf := [], reader }) :=
    writeLoop_of_sends (c := { c with obuf := commandImage argv, reader }) h.err
      (by simpa only [himage] using hanswered.sends)
  have hparse : replies.parse ([] ++ t) = .done o [] := by
    have hencode := parseItem_encode ht []
    rwa [List.append_nil] at hencode
  have hne : t ≠ [] := by
    rintro rfl
    cases hparse
  obtain ⟨reader', hread, hreader', hbuf'⟩ := readLoop_of_receives
    (c := { c with obuf := [], reader }) h.err hreader hparse hne hrecvs (by
      have hsmall := h.buf
      change reader.buf.length + t.length < 2 ^ 31
      change reader.buf.length ≤ c.reader.buf.length at hbuf
      omega)
  refine ⟨{ c with obuf := [], reader := reader' }, ?_, ⟨h.err, h.block, rfl, hreader', hbuf'⟩⟩
  rw [HiredisContext.redisCommandArgv, happend]
  simp only [Option.bind_eq_bind, Option.bind_some]
  rw [if_pos h.block, redisGetReply, hget]
  simp only [Option.bind_eq_bind, Option.bind_some]
  rw [if_pos h.block, hwrite]
  simp only [Option.bind_some, if_pos]
  rw [hread]

/-- A command, and what `send` and `recv` do during it. -/
structure Dealing where
  argv : List Text
  sends : List (Except SocketError ℕ)
  recvs : List (Except SocketError Text)

/-- Commands one behind the other, and what each of them returned. -/
def commands : List Dealing → HiredisContext → Option (List (Option ReplyObject) × HiredisContext)
  | [], c => some ([], c)
  | d :: dealings, c => do
      let (reply, c) ← c.redisCommandArgv d.argv d.sends d.recvs
      let (replies, c) ← commands dealings c
      some (reply :: replies, c)

/-- On a new connection every command returns its own reply, however many there are and however
the socket cuts the bytes; the buffer of the reader stays below 1k between them. -/
theorem commands_answered {dealings : List Dealing} {os : List ReplyObject}
    (h : List.Forall₂ (fun d o ↦ Answered d.argv o d.sends d.recvs) dealings os) :
    ∃ c, commands dealings (init true) = some (os.map some, c) ∧ c.Idle := by
  suffices hidle : ∀ c : HiredisContext, c.Idle →
      ∃ c', commands dealings c = some (os.map some, c') ∧ c'.Idle from hidle _ idle_init
  induction h with
  | nil => exact fun c hc ↦ ⟨c, rfl, hc⟩
  | @cons d o dealings os hd _ ih =>
      intro c hc
      obtain ⟨c₁, hcommand, hc₁⟩ := hc.redisCommandArgv hd
      obtain ⟨c₂, hcommands, hc₂⟩ := ih c₁ hc₁
      refine ⟨c₂, ?_, hc₂⟩
      rw [commands]
      simp only [hcommand, Option.bind_eq_bind, Option.bind_some, hcommands, List.map_cons]

/-- A command in two writes, and its reply in two pieces with an interrupted call between them. -/
def sampleDealing : Dealing where
  argv := [lit "GET", lit "k"]
  sends := [.ok 7, .error .interrupted, .ok 13]
  recvs := [.ok (lit "+O"), .error .interrupted, .ok (lit "K\r\n")]

theorem commands_answered_sampleDealing :
    ∃ c, commands [sampleDealing, sampleDealing] (init true) =
        some (([.string .status (lit "OK"), .string .status (lit "OK")] :
          List ReplyObject).map some, c) ∧ c.Idle := by
  have htotlen : totlen sampleDealing.argv = 20 := by decide +kernel
  have hanswered : Answered sampleDealing.argv (.string .status (lit "OK")) sampleDealing.sends
      sampleDealing.recvs := by
    refine ⟨by rw [htotlen]; decide, ?_, lit "+OK\r\n", by decide +kernel, by decide, ?_⟩
    · rw [htotlen]
      exact Or.inr ⟨by decide, Or.inr ⟨rfl, Or.inr ⟨by decide, rfl⟩⟩⟩
    · exact ⟨by decide, lit "K\r\n", rfl, rfl, by decide, [], rfl, rfl⟩
  exact commands_answered (.cons hanswered (.cons hanswered .nil))

end HiredisContext

end Redis

end Slience
