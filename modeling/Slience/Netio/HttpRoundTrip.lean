import Slience.Netio.HttpResponse

/-!
# From `HttpSvrSendMsg` to `HttpCliRecvMsg`

What a server builds with the setters, a client reads back with the getters, however the
bytes are cut on the way, as long as the whole response is shorter than `2 ^ 31` bytes.
The offsets of the client are `int`s: a phrase of `2 ^ 31` bytes has an end that is negative.
-/

namespace Slience

namespace Http

open HttpRecvMsg HttpSvrSendMsg

/-- Built by the setters and fed to a new `HttpCliRecvMsg` in any chunks, the response is
given back by the getters. -/
def RoundTrip (version status phrase : Text) (fields : List (HeaderField × Text))
    (body : Text) : Prop :=
  ∃ s, build version status phrase fields body = some s ∧
    ∀ chunks : List Text, chunks.flatten = s.buffer.contents →
      ∃ m ks, feed .cliRecv (new .cliRecv) chunks = some (m, ks) ∧
        m.Tells version status phrase (headerLines fields body ++ [[]]) body

/-- A C string without a CRLF. -/
def LineText (s : Text) : Prop := (0 : Byte) ∉ s ∧ cutPair cr lf s = none

instance (s : Text) : Decidable (LineText s) := inferInstanceAs (Decidable (_ ∧ _))

/-- A C string without a space. -/
def TokenText (s : Text) : Prop := (0 : Byte) ∉ s ∧ sp ∉ s

instance (s : Text) : Decidable (TokenText s) := inferInstanceAs (Decidable (_ ∧ _))

theorem cutPair_append_none {s t : Text} (hs : cutPair cr lf s = none)
    (hlast : s.getLast? ≠ some cr) (ht : cutPair cr lf t = none) :
    cutPair cr lf (s ++ t) = none := by
  rw [cutPair_append_of_none hs, if_neg (fun h ↦ hlast h.1), ht]
  rfl

theorem cutPair_of_notMem {t : Text} (h : cr ∉ t) : cutPair cr lf t = none := by
  cases hcut : cutPair cr lf t with
  | none => rfl
  | some p =>
      have hsplit : t = p.1 ++ cr :: lf :: p.2 := cutPair_split hcut
      exact absurd (hsplit ▸ by simp) h

theorem headerLines_ok {fields : List (HeaderField × Text)} (body : Text)
    (hvalues : ∀ p ∈ fields, LineText p.2) :
    ∀ l ∈ headerLines fields body, l ≠ [] ∧ cutPair cr lf l = none := by
  have hname (f : HeaderField) : f.name ≠ [] ∧ cutPair cr lf f.name = none ∧
      f.name.getLast? ≠ some cr := by
    cases f <;> decide
  have hline (f : HeaderField) {value : Text} (h : cutPair cr lf value = none) :
      f.name ++ value ≠ [] ∧ cutPair cr lf (f.name ++ value) = none :=
    ⟨List.append_ne_nil_of_left_ne_nil (hname f).1 _,
      cutPair_append_none (hname f).2.1 (hname f).2.2 h⟩
  intro l hl
  rw [headerLines, List.mem_append, List.mem_append, List.mem_singleton] at hl
  rcases hl with hl | hl | rfl
  · obtain ⟨p, hp, rfl⟩ := List.mem_map.mp hl
    exact hline p.1 (hvalues p hp).2
  · split at hl
    · cases hl
    · cases List.mem_singleton.mp hl
      exact hline .contentType (by decide)
  · refine ⟨List.append_ne_nil_of_left_ne_nil (by decide) _, ?_⟩
    apply cutPair_append_none
    · decide
    · decide
    · exact cutPair_of_notMem (cr_notMem_decimal body.length)

theorem bodyLen_headerLines (fields : List (HeaderField × Text)) {body : Text}
    (h : body.length < 2 ^ 31) : bodyLen (headerLines fields body ++ [[]]) = body.length := by
  rw [bodyLen, lengthField_headerLines]
  simp [atoi_decimal h]

theorem lengthOk_headerLines (fields : List (HeaderField × Text)) {body : Text}
    (h : body.length < 2 ^ 31) : LengthOk (headerLines fields body ++ [[]]) := by
  intro value hvalue
  rw [lengthField_headerLines] at hvalue
  cases hvalue
  exact ⟨.inl (length_decimal_le h), body.length, h, atoi_decimal h⟩

theorem read_responseText {version status phrase : Text} {fields : List (HeaderField × Text)}
    (body : Text) (hversion : sp ∉ version) (hstatus : sp ∉ status)
    (hphrase : cutPair cr lf phrase = none) (hvalues : ∀ p ∈ fields, LineText p.2) :
    read (responseText version status phrase fields body) =
      .body version status phrase (headerLines fields body ++ [[]]) body :=
  read_message hversion hstatus hphrase (headerLines_ok body hvalues)

theorem roundTrip_of_size {version status phrase : Text} {fields : List (HeaderField × Text)}
    {body : Text} (hversion : TokenText version) (hstatus : TokenText status)
    (hphrase : LineText phrase) (hvalues : ∀ p ∈ fields, LineText p.2)
    (hnodup : (fields.map Prod.fst).Nodup)
    (hsize : (responseText version status phrase fields body).length < 2 ^ 31) :
    RoundTrip version status phrase fields body := by
  have hlimit : 2 ^ 31 + 40 < Buffer.writeLimit := by decide
  have hbound : (responseText version status phrase fields body).length + 40 <
      Buffer.writeLimit := by omega
  obtain ⟨s, hbuild, hcontents⟩ := build_spec hversion.1 hstatus.1 hphrase.1
    (fun p hp ↦ (hvalues p hp).1) hnodup hbound
  refine ⟨s, hbuild, ?_⟩
  intro chunks hchunks
  have hread : (Reading.first []).extend chunks.flatten =
      .body version status phrase (headerLines fields body ++ [[]]) body := by
    rw [hchunks, hcontents]
    exact read_responseText body hversion.2 hstatus.2 hphrase.2 hvalues
  have hbody : body.length < 2 ^ 31 := by
    rw [responseText, List.length_append, List.length_append] at hsize
    omega
  have hlen := bodyLen_headerLines fields hbody
  have htext : (Reading.body version status phrase (headerLines fields body ++ [[]]) body).text =
      responseText version status phrase fields body := by
    rw [Reading.text, hlen, List.take_length]
    rfl
  have hok : ((Reading.first []).extend chunks.flatten).LengthOk := by
    rw [hread]
    exact fun _ ↦ lengthOk_headerLines fields hbody
  have hsize' : ((Reading.first []).extend chunks.flatten).text.length < 2 ^ 31 := by
    rw [hread, htext]
    exact hsize
  obtain ⟨m, ks, hfeed, hm, -⟩ := feed_shows (shows_new .cliRecv) (by simp [Reading.Open])
    (flag_new_ne_over .cliRecv) hok hsize'
  rw [hread] at hm
  have htells := hm.tells (by rwa [htext])
  rw [bodyText, hlen, if_pos le_rfl, List.take_length] at htells
  exact ⟨m, ks, hfeed, htells⟩

/-- `"HTTP/1.1 200 OK"` with a location and the body `"\r\n"`. -/
theorem roundTrip_of_size_location :
    RoundTrip defaultVersion defaultStatus defaultPhrase [(.location, [47])] crlf :=
  roundTrip_of_size (by decide) (by decide) (by decide) (by decide) (by decide) (by decide)

/-! ## A longer response -/

theorem append_third {m m' : HttpRecvMsg} {buf : Text} {k : ℕ} (h : m.append buf k = some m') :
    m'.third = m.third := by
  obtain ⟨b, -, h⟩ := Option.bind_eq_some_iff.mp h
  cases h
  rfl

theorem noteCr_third {m m' : HttpRecvMsg} (h : m.noteCr = some m') : m'.third = m.third := by
  unfold noteCr at h
  split at h
  · cases h
    rfl
  · obtain ⟨last, -, h⟩ := Option.bind_eq_some_iff.mp h
    cases h
    split <;> rfl

theorem parseBody_third {m m' : HttpRecvMsg} {buf : Text} {k : ℕ}
    (h : m.parseBody buf = some (m', k)) : m'.third = m.third := by
  unfold parseBody at h
  split at h
  · cases h
    rfl
  · obtain ⟨m₁, hsize, hcopy⟩ := Option.bind_eq_some_iff.mp h
    have hsized : m₁.third = m.third := by
      unfold sizeBody at hsize
      split at hsize
      · obtain ⟨bodysize, -, hsize⟩ := Option.bind_eq_some_iff.mp hsize
        split at hsize <;> cases hsize <;> rfl
      · cases hsize
        rfl
    unfold copyBody at hcopy
    split at hcopy
    · obtain ⟨m₂, happend, hcopy⟩ := Option.bind_eq_some_iff.mp hcopy
      have happended : m₂.third = m₁.third := (append_third happend :)
      split at hcopy <;> cases hcopy <;> exact happended.trans hsized
    · cases hcopy
      exact hsized

/-- Behind the first line its third token stays as it is. -/
theorem parseHead_third {m m' : HttpRecvMsg} {buf : Text} {k : ℕ}
    (h : m.parseHead buf = some (m', k)) : m'.third = m.third := by
  induction hn : buf.length using Nat.strong_induction_on generalizing m buf k with
  | _ n ih =>
      rw [parseHead] at h
      split at h
      · cases h
        rfl
      · next hbuf =>
          obtain ⟨m₁, happend, h⟩ := Option.bind_eq_some_iff.mp h
          have happended : m₁.third = m.third := (append_third happend :)
          have hshort := drop_seekCrlf_lt m.assistflag hbuf
          split at h
          · obtain ⟨blankEnd, -, h⟩ := Option.bind_eq_some_iff.mp h
            split at h
            · obtain ⟨⟨m₂, j⟩, hbody, h⟩ := Option.bind_eq_some_iff.mp h
              cases h
              exact (parseBody_third hbody).trans happended
            · obtain ⟨⟨m₂, j⟩, hhead, h⟩ := Option.bind_eq_some_iff.mp h
              cases h
              exact (ih _ (hn ▸ hshort) hhead rfl).trans happended
          · obtain ⟨m₂, hnote, h⟩ := Option.bind_eq_some_iff.mp h
            cases h
            exact (noteCr_third hnote).trans happended

/-- The end of a phrase lies behind `2 ^ 31`, and its offset has become negative. -/
theorem parseThird_overflow {m : HttpRecvMsg} {t buf c : Text} {e n : ℕ} (hn : n = 2 ^ 31)
    (hassist : m.assistflag = decide (t.getLast? = some cr)) (ht : cutPair cr lf t = none)
    (hcut : cutPair cr lf (t ++ buf) = some (c, []))
    (htext : m.buffer.contents.length = e + t.length) (hbuf : t.length + buf.length = n + 2)
    (hshort : t.length ≤ n) (hbeg : m.third.beg = e) (he : e < 2 ^ 30) :
    ∃ m', m.parseThird buf = some (m', buf.length) ∧ m'.flag = .head ∧
      m'.third = ⟨e, (e + n : ℤ) - 2 ^ 32⟩ := by
  obtain ⟨assist, k, hseek, hk, -, hdrop⟩ := seekCrlf_of_some ht hcut
  rw [← hassist] at hseek
  have hall : k = buf.length := by
    have hlen := congrArg List.length hdrop
    rw [List.length_drop, List.length_nil] at hlen
    omega
  subst hall
  have hpos : m.buffer.pos.toNat = e + t.length := by rw [← Buffer.length_contents, htext]
  have hcast : (UInt32.ofNat buf.length).toNat = buf.length := by
    rw [UInt32.toNat_ofNat']
    omega
  have hlimit : Buffer.writeLimit = 2 ^ 32 - 1024 := rfl
  obtain ⟨b, hwrite, hb⟩ := m.buffer.write_spec
    (show (UInt32.ofNat buf.length).toNat ≤ buf.length by omega)
    (by rw [hpos, hcast]; omega)
  have hbpos : b.pos.toNat = e + n + 2 := by
    rw [← Buffer.length_contents, hb.contents_eq, List.length_append, htext, List.length_take,
      hcast]
    omega
  have hsizeInt : b.sizeInt = (e + n + 2 : ℤ) - 2 ^ 32 := by
    rw [Buffer.sizeInt, Int32.toInt, UInt32.toBitVec_toInt32, BitVec.toInt_eq_toNat_cond,
      UInt32.toNat_toBitVec, hbpos, if_neg (by omega)]
    omega
  have hfin : addInt b.sizeInt (-2) = some ((e + n : ℤ) - 2 ^ 32) := by
    rw [addInt_of_bounds (by omega) (by omega), hsizeInt]
    congr 1
    omega
  have hne : buf ≠ [] := by
    rintro rfl
    rw [List.length_nil] at hbuf
    omega
  refine ⟨{ m with
    buffer := b
    third := { m.third with fin := (e + n : ℤ) - 2 ^ 32 }
    flag := .head
    header := { m.header with beg := b.sizeInt }
    header2 := { m.header2 with beg := b.sizeInt }
    assistflag := false }, ?_, rfl, ?_⟩
  · rw [parseThird, if_neg hne, hseek]
    simp only [append, hwrite, Option.bind_eq_bind, Option.bind_some, Option.pure_def, if_true,
      hfin, hdrop]
    rw [parseHead, if_pos rfl]
    rfl
  · rw [← hbeg]

theorem extend_first_line {a b t : Text} (ha : sp ∉ a) (hb : sp ∉ b) (ht : cutPair cr lf t = none) :
    (Reading.first []).extend (a ++ sp :: (b ++ sp :: t)) = .third a b t := by
  have hfirst : cutAt sp (a ++ sp :: (b ++ sp :: t)) = some (a, b ++ sp :: t) :=
    cutAt_append_cons ha _
  have hsecond : cutAt sp (b ++ sp :: t) = some (b, t) := cutAt_append_cons hb _
  simp only [Reading.extend, List.nil_append, read, hfirst, readSecond, hsecond, readThird, ht]

/-- A phrase of `2 ^ 31` bytes comes in two halves, the second one with the end of the line: the
length that the getter computes for it is negative. -/
theorem not_roundTrip_huge {half : Text} {n : ℕ} (hn : n = 2 ^ 30) (hlen : half.length = n)
    (hnul : (0 : Byte) ∉ half) (hcr : cr ∉ half) :
    ¬ RoundTrip defaultVersion defaultStatus (half ++ half) [] [] := by
  have hcut : cutPair cr lf half = none := cutPair_of_notMem hcr
  have hcut' : cutPair cr lf (half ++ half) = none := cutPair_of_notMem (by simp [hcr])
  have hfirst := extend_first_line (show sp ∉ defaultVersion by decide)
    (show sp ∉ defaultStatus by decide) hcut
  have hstart : (defaultVersion ++ sp :: (defaultStatus ++ sp :: half)).length = 13 + n := by
    rw [← hlen, List.length_append, List.length_cons, List.length_append, List.length_cons]
    simp only [defaultVersion, defaultStatus, List.length_cons, List.length_nil]
    omega
  obtain ⟨m₁, k₁, hparse₁, hm₁, -, -, -⟩ := parse_reaches (shows_new .cliRecv)
    (by simp [Reading.Open]) (flag_new_ne_over .cliRecv)
    (by rw [hfirst]; trivial)
    (by
      rw [hfirst]
      change (defaultVersion ++ sp :: (defaultStatus ++ sp :: half)).length < 2 ^ 31
      omega)
  rw [hfirst] at hm₁
  obtain ⟨htext, -, hfields⟩ := hm₁
  have hcut₂ : cutPair cr lf (half ++ (half ++ crlf)) = some (half ++ half, []) := by
    rw [← List.append_assoc]
    exact cutPair_append_pair (by decide) hcut' []
  have hflag₁ : m₁.flag = .statusPhrase := by
    rw [hfields]
    rfl
  have htext₁ : m₁.buffer.contents.length = 13 + half.length := by
    rw [htext, hlen]
    exact hstart
  obtain ⟨m₂, hparse₂, hflag₂, hthird₂⟩ := parseThird_overflow (m := m₁) (e := 13) rfl
    (by rw [hfields]; rfl) hcut hcut₂ htext₁
    (by rw [List.length_append, length_crlf]; omega) (by omega) (by rw [hfields]; rfl) (by decide)
  have hlimit : 2 ^ 31 + 200 < Buffer.writeLimit := by decide
  have htail : (linesText (headerLines [] [] ++ [[]])).length = 60 := by decide
  have hbound : (responseText defaultVersion defaultStatus (half ++ half) [] []).length + 40 <
      Buffer.writeLimit := by
    have hsame : startText defaultVersion defaultStatus (half ++ half) =
        (defaultVersion ++ sp :: (defaultStatus ++ sp :: half)) ++ (half ++ crlf) := by
      simp [startText]
    rw [responseText, hsame, List.append_nil, List.length_append, List.length_append, htail, hstart,
      List.length_append, length_crlf]
    omega
  obtain ⟨s, hbuild, hcontents⟩ := build_spec (by decide) (by decide) (by simp [hnul]) (by simp)
    (by simp) hbound
  rintro ⟨s', hbuild', hall⟩
  cases hbuild'.symm.trans hbuild
  obtain ⟨m, ks, hfeed, htells⟩ := hall
    [defaultVersion ++ sp :: (defaultStatus ++ sp :: half), half ++ crlf,
      linesText (headerLines [] [] ++ [[]])]
    (by simp [hcontents, responseText, startText])
  have hthird : m.third = ⟨13, (13 + 2 ^ 31 : ℤ) - 2 ^ 32⟩ := by
    have hcall₂ : parse .cliRecv m₁ (half ++ crlf) = some (m₂, (half ++ crlf).length) := by
      rw [parse, if_neg (by rw [hflag₁]; decide), if_neg (by rw [hflag₁]; decide),
        if_neg (by rw [hflag₁]; decide), if_pos (by rw [hflag₁]; rfl), hparse₂]
    have hcall₃ (buf : Text) : parse .cliRecv m₂ buf = m₂.parseHead buf := by
      rw [parse, if_neg (by rw [hflag₂]; decide), if_neg (by rw [hflag₂]; decide),
        if_neg (by rw [hflag₂]; decide), if_neg (by rw [hflag₂]; decide), if_pos hflag₂]
    simp only [feed, hparse₁, hcall₂, hcall₃, Option.bind_eq_bind, Option.bind_some, hflag₁, hflag₂,
      reduceCtorEq, if_false, Option.pure_def] at hfeed
    obtain ⟨⟨m', ks'⟩, hfeed₂, heq⟩ := Option.bind_eq_some_iff.mp hfeed
    obtain ⟨⟨m'', ks''⟩, hfeed₃, heq'⟩ := Option.bind_eq_some_iff.mp hfeed₂
    obtain ⟨⟨m₃, k₃⟩, hparse₃, hlast⟩ := Option.bind_eq_some_iff.mp hfeed₃
    cases heq
    cases heq'
    have hsame := parseHead_third hparse₃
    rw [hthird₂] at hsame
    split at hlast <;> cases hlast <;> exact hsame
  have hget := htells.third
  rw [hthird, getText, if_neg (by decide)] at hget
  obtain ⟨len, hadd, hslice⟩ := Option.bind_eq_some_iff.mp hget
  have hneg : len = -2 ^ 31 := by
    rw [addInt_of_bounds (by decide) (by decide), Option.some.injEq] at hadd
    rw [← hadd]
    decide
  rw [Buffer.dataSlice] at hslice
  obtain ⟨text, -, hslice⟩ := Option.bind_eq_some_iff.mp hslice
  rw [if_neg (by rw [hneg]; simp)] at hslice
  cases hslice

/-- A response with a phrase of `2 ^ 31` bytes and no body. -/
theorem roundTrip_of_size_fails :
    TokenText defaultVersion ∧ TokenText defaultStatus ∧
      LineText (List.replicate (2 ^ 31) (65 : Byte)) ∧
      ¬ RoundTrip defaultVersion defaultStatus (List.replicate (2 ^ 31) 65) [] [] := by
  have hbyte {n : ℕ} {b : Byte} (hb : b ≠ 65) : b ∉ List.replicate n (65 : Byte) :=
    fun hmem ↦ hb (List.eq_of_mem_replicate hmem)
  have hhuge := @not_roundTrip_huge (List.replicate (2 ^ 30) 65) _ rfl
    List.length_replicate (hbyte (by decide)) (hbyte (by decide))
  rw [List.replicate_append_replicate] at hhuge
  exact ⟨by decide, by decide, ⟨hbyte (by decide), cutPair_of_notMem (hbyte (by decide))⟩, hhuge⟩

end Http

end Slience
