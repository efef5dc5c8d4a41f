import Slience.Netio.HttpScan

/-!
# The parser reads what it should

Each of the parsing functions, entered where a reading has stopped, leaves the message
where the longer reading stops.  By induction over the chunks the state after any
chunking is that of the reading of the whole text, as long as the message is shorter
than `2 ^ 31` bytes, so that its offsets are `int`s.
-/

namespace Slience

namespace Http

open HttpRecvMsg

/-- What a call that was given `buf` should leave: the message shows `r`, the bytes taken
were appended to the text `s`, and they are all bytes unless the message is over. -/
def Reaches (line : StartLine) (r : Reading) (s buf : Text)
    (res : Option (HttpRecvMsg × ℕ)) : Prop :=
  ∃ m k, res = some (m, k) ∧ r.Shows line m ∧ m.buffer.contents = s ++ buf.take k ∧
    k ≤ buf.length ∧ (m.flag ≠ .over → k = buf.length)

theorem Reaches.rest {line : StartLine} {r : Reading} {s s' buf : Text} {k : ℕ}
    {res : Option (HttpRecvMsg × ℕ)} (hk : k ≤ buf.length) (htaken : s' = s ++ buf.take k)
    (h : Reaches line r s' (buf.drop k) res) :
    Reaches line r s buf (do
      let (m, n) ← res
      return (m, k + n)) := by
  obtain ⟨m, n, rfl, hshows, hcontents, hn, hall⟩ := h
  rw [List.length_drop] at hn hall
  refine ⟨m, k + n, rfl, hshows, ?_, by omega, fun hflag ↦ ?_⟩
  · rw [hcontents, htaken, List.append_assoc, List.take_add]
  · have := hall hflag
    omega

theorem bodyLen_lt {lines : List Text} (h : LengthOk lines) : bodyLen lines < 2 ^ 31 := by
  unfold bodyLen
  cases hfield : lengthField lines with
  | none => decide
  | some value =>
      obtain ⟨-, n, hn, hatoi⟩ := h value hfield
      simpa [hatoi] using hn

theorem copyBody_reaches {line : StartLine} {a b c t buf : Text} {lines : List Text}
    {m : HttpRecvMsg} {start fin : ℕ} (hstart : start = (startText a b c).length)
    (hfin : fin = start + (linesText lines).length) (hbuf : buf ≠ [])
    (hm : m = { Reading.headFields line a b c lines with
      bodysize := bodyLen lines, body := ⟨fin, 0⟩, buffer := m.buffer })
    (htext : m.buffer.contents = startText a b c ++ (linesText lines ++ t))
    (hoffset : m.buffer.offset = 0) (ht : t.length < bodyLen lines) (hok : LengthOk lines)
    (hsize : (Reading.body a b c lines (t ++ buf)).text.length < 2 ^ 31) :
    Reaches line (.body a b c lines (t ++ buf)) m.buffer.contents buf
      (m.copyBody buf) := by
  have hlen : m.buffer.contents.length = fin + t.length := by
    rw [htext, hfin, hstart, List.length_append, List.length_append]
    omega
  have hfit : fin + t.length + min (bodyLen lines - t.length) buf.length < 2 ^ 31 := by
    simp only [Reading.text, List.length_append, List.length_take] at hsize
    omega
  have hbody : m.body = ⟨fin, 0⟩ := by rw [hm]
  have hflag : m.flag ≠ .over := by
    rw [hm]
    exact ParseFlag.noConfusion
  obtain ⟨b', hcontents, hoffset', hcopy⟩ := copyBody_spec (bodyLen_lt hok)
    (show m.bodysize = bodyLen lines by rw [hm]) (by rw [hbody]) hlen ht hflag hfit
  have htake : (t ++ buf).take (bodyLen lines) = t ++ buf.take (bodyLen lines - t.length) := by
    rw [List.take_append, List.take_of_length_le ht.le]
  have hne : t ++ buf ≠ [] := List.append_ne_nil_of_right_ne_nil t hbuf
  have hlines : bodyLen lines ≠ 0 := by omega
  have htext' : b'.contents = (Reading.body a b c lines (t ++ buf)).text := by
    rw [hcontents, htext, Reading.text, htake]
    simp only [List.append_assoc]
  have hwhole : (t ++ buf).length = t.length + buf.length := List.length_append
  by_cases hshort : buf.length < bodyLen lines - t.length
  · rw [if_pos hshort] at hcopy
    refine ⟨_, _, hcopy, ⟨htext', hoffset'.trans hoffset, ?_⟩, ?_, le_rfl, fun _ ↦ rfl⟩
    · rw [hm, Reading.fields, if_neg hne, if_neg hlines, if_pos (by omega), ← hstart, ← hfin]
    · rw [hcontents, List.take_length, List.take_of_length_le hshort.le]
  · rw [if_neg hshort] at hcopy
    refine ⟨_, _, hcopy, ⟨htext', hoffset'.trans hoffset, ?_⟩, hcontents, by omega,
      fun h ↦ absurd rfl h⟩
    rw [hm, Reading.fields, if_neg hne, if_neg hlines, if_neg (by omega), ← hstart, ← hfin]

theorem parseBody_reaches {line : StartLine} {a b c t buf : Text} {lines : List Text}
    {m : HttpRecvMsg} (hm : (Reading.body a b c lines t).Shows line m)
    (hflag : m.flag ≠ .over) (hok : (Reading.body a b c lines (t ++ buf)).LengthOk)
    (hsize : (Reading.body a b c lines (t ++ buf)).text.length < 2 ^ 31) :
    Reaches line (.body a b c lines (t ++ buf)) m.buffer.contents buf
      (m.parseBody buf) := by
  by_cases hbuf : buf = []
  · subst hbuf
    exact ⟨m, 0, by simp [parseBody], by rwa [List.append_nil], by simp, le_rfl, fun _ ↦ rfl⟩
  obtain ⟨htext, hoffset, hfields⟩ := hm
  have hlines : LengthOk lines := hok (List.append_ne_nil_of_right_ne_nil t hbuf)
  rw [parseBody, if_neg hbuf]
  by_cases ht : t = []
  · -- the first bytes behind the empty line: the length is looked up now
    subst ht
    rw [Reading.fields, if_pos rfl] at hfields
    have htext' : m.buffer.contents = startText a b c ++ (linesText lines ++ []) := by
      rw [htext, Reading.text, List.take_nil]
    have hsmall : m.buffer.contents.length < 2 ^ 31 := by
      simp only [Reading.text, List.length_append, List.length_take] at hsize
      rw [htext', List.length_append, List.length_append, List.length_nil]
      omega
    have hsizeInt : m.buffer.sizeInt =
        ((startText a b c).length + (linesText lines).length : ℕ) := by
      rw [Buffer.sizeInt_eq hsmall, htext', List.append_nil, List.length_append]
    have hcheck : m.checkContentLen = some (bodyLen lines : ℤ) :=
      checkContentLen_spec hoffset hsmall htext' (by rw [hfields]; rfl) hlines
    have hbodysize : m.bodysize = -1 := by
      rw [hfields]
      rfl
    by_cases hzero : bodyLen lines = 0
    · refine ⟨{ m with bodysize := 0, flag := .over }, 0, ?_, ⟨?_, hoffset, ?_⟩,
        by simp, Nat.zero_le _, fun h ↦ absurd rfl h⟩
      · simp [sizeBody, hbodysize, hcheck, hzero, copyBody]
      · rw [Reading.text, hzero, List.take_zero, htext']
      · rw [hfields, Reading.fields, List.nil_append, if_neg hbuf, if_pos hzero]
    · have hsizeBody : m.sizeBody =
          some { m with bodysize := bodyLen lines, body.beg := m.buffer.sizeInt } := by
        simp [sizeBody, hbodysize, hcheck, hzero]
      rw [hsizeBody]
      refine copyBody_reaches rfl rfl hbuf ?_ htext' hoffset (Nat.pos_of_ne_zero hzero) hlines hsize
      rw [hfields, ← hsizeInt]
      rfl
  · rw [Reading.fields, if_neg ht] at hfields
    have hzero : bodyLen lines ≠ 0 := by
      intro hzero
      rw [if_pos hzero] at hfields
      exact hflag (by rw [hfields])
    rw [if_neg hzero] at hfields
    have hlen : t.length < bodyLen lines := by
      by_contra hlen
      rw [if_neg hlen] at hfields
      exact hflag (by rw [hfields])
    rw [if_pos hlen] at hfields
    have hsizeBody : m.sizeBody = some m := by
      rw [sizeBody, if_neg]
      rw [hfields]
      change ¬ ((bodyLen lines : ℤ) = -1)
      omega
    rw [hsizeBody]
    refine copyBody_reaches rfl rfl hbuf hfields ?_ hoffset hlen hlines hsize
    rw [htext, Reading.text, List.take_of_length_le hlen.le]

/-! ## Up to the empty line -/

/-- What a call should leave that starts before the empty line: where the text goes
further, the body is parsed with the rest of it. -/
def Arrives (line : StartLine) (r : Reading) (s buf : Text)
    (res : Option (HttpRecvMsg × ℕ)) : Prop :=
  match r with
  | .body a b c lines t =>
      ∃ m k, (Reading.body a b c lines []).Shows line m ∧ m.buffer.contents = s ++ buf.take k ∧
        k ≤ buf.length ∧ buf.drop k = t ∧
        res = do
          let (m', n) ← m.parseBody t
          return (m', k + n)
  | r => Reaches line r s buf res

theorem Arrives.rest {line : StartLine} {r : Reading} {s s' buf : Text} {k : ℕ}
    {res : Option (HttpRecvMsg × ℕ)} (hk : k ≤ buf.length) (htaken : s' = s ++ buf.take k)
    (h : Arrives line r s' (buf.drop k) res) :
    Arrives line r s buf (do
      let (m, n) ← res
      return (m, k + n)) := by
  cases r with
  | body a b c lines t =>
      obtain ⟨m, n, hm, hcontents, hn, hdrop, rfl⟩ := h
      rw [List.length_drop] at hn
      refine ⟨m, k + n, hm, ?_, by omega, ?_, ?_⟩
      · rw [hcontents, htaken, List.append_assoc, List.take_add]
      · rw [← hdrop, List.drop_drop]
      · cases m.parseBody t with
        | none => rfl
        | some p =>
            simp only [Option.bind_eq_bind, Option.bind_some, Option.pure_def, Nat.add_assoc]
  | first t => exact Reaches.rest hk htaken h
  | second a t => exact Reaches.rest hk htaken h
  | third a b t => exact Reaches.rest hk htaken h
  | head a b c lines t => exact Reaches.rest hk htaken h

theorem Arrives.reaches {line : StartLine} {r : Reading} {s buf : Text}
    {res : Option (HttpRecvMsg × ℕ)} (h : Arrives line r s buf res) (hok : r.LengthOk)
    (hsize : r.text.length < 2 ^ 31) : Reaches line r s buf res := by
  cases r with
  | body a b c lines t =>
      obtain ⟨m, k, hm, hcontents, hk, rfl, rfl⟩ := h
      have hflag : m.flag ≠ .over := by
        rw [hm.fields_eq]
        exact ParseFlag.noConfusion
      apply Reaches.rest hk hcontents
      exact parseBody_reaches (t := []) hm hflag hok hsize
  | first t => exact h
  | second a t => exact h
  | third a b t => exact h
  | head a b c lines t => exact h

/-! ## The header lines -/

theorem le_text_readHead (a b c : Text) (lines : List Text) (s : Text) :
    (startText a b c).length + (linesText lines).length ≤
      (readHead a b c lines s).text.length := by
  induction lines, s using readHead.induct with
  | case1 lines s hcut =>
      rw [readHead_of_none hcut]
      simp only [Reading.text, List.length_append]
      omega
  | case2 lines s r hcut =>
      rw [readHead_of_some hcut, if_pos rfl]
      simp only [Reading.text, List.length_append, linesText_concat]
      omega
  | case3 lines s l r hcut hl ih =>
      rw [readHead_of_some hcut, if_neg hl]
      rw [linesText_concat, List.length_append] at ih
      omega

theorem endLine_eq (line : StartLine) {a b c l : Text} (t : Text) {lines : List Text}
    (assist : Bool) {b' : Buffer} (hsmall : b'.contents.length < 2 ^ 31)
    (htext : b'.contents = startText a b c ++ linesText (lines ++ [l])) :
    endLine { (Reading.head a b c lines t).fields line with assistflag := assist, buffer := b' } =
      { Reading.headFields line a b c (lines ++ [l]) with
        flag := .head
        header2 := ⟨((startText a b c).length + (linesText lines).length : ℕ),
          ((startText a b c).length + (linesText (lines ++ [l])).length : ℕ)⟩
        buffer := b' } := by
  have hpos : b'.sizeInt =
      ((startText a b c).length + (linesText (lines ++ [l])).length : ℕ) := by
    rw [Buffer.sizeInt_eq hsmall, htext, List.length_append]
  simp only [endLine, hpos, Reading.fields, Reading.headFields, spans_concat]
  rfl

theorem parseHead_of_hit {m m₁ m₂ : HttpRecvMsg} {buf : Text} {assist : Bool} {k : ℕ} {e : ℤ}
    (hbuf : buf ≠ []) (hseek : seekCrlf m.assistflag buf = ⟨assist, k, true⟩)
    (happend : { m with assistflag := assist }.append buf k = some m₁)
    (hend : m₁.endLine = m₂) (hadd : addInt m₂.header2.beg 2 = some e) :
    m.parseHead buf =
      if e = m₂.header2.fin then do
        let (m, n) ← { m₂ with flag := .body }.parseBody (buf.drop k)
        return (m, k + n)
      else do
        let (m, n) ← { m₂ with flag := .head, header2 := ⟨m₂.header2.fin, 0⟩ }.parseHead
          (buf.drop k)
        return (m, k + n) := by
  subst hend
  rw [parseHead, if_neg hbuf, hseek]
  simp only [happend, Option.bind_eq_bind, Option.bind_some, if_true, hadd]

theorem parseHead_hit {line : StartLine} {a b c : Text} {lines : List Text} {t buf l r : Text}
    {m : HttpRecvMsg} (hm : (Reading.head a b c lines t).Shows line m)
    (ht : cutPair cr lf t = none) (hcut : cutPair cr lf (t ++ buf) = some (l, r))
    (hsize : (startText a b c).length + (linesText (lines ++ [l])).length < 2 ^ 31) :
    ∃ m' k, k ≤ buf.length ∧ buf.drop k = r ∧ r.length < buf.length ∧
      m'.buffer.contents = m.buffer.contents ++ buf.take k ∧
      (if l = [] then Reading.body a b c (lines ++ [l]) []
        else Reading.head a b c (lines ++ [l]) []).Shows line m' ∧
      m.parseHead buf = do
        let (m, n) ← if l = [] then m'.parseBody r else m'.parseHead r
        return (m, k + n) := by
  have hbuf : buf ≠ [] := by
    intro hbuf
    rw [hbuf, List.append_nil, ht] at hcut
    cases hcut
  obtain ⟨htext, hoffset, hfields⟩ := hm
  have hassist : m.assistflag = decide (t.getLast? = some cr) := by
    rw [hfields]
    rfl
  obtain ⟨assist, k, hseek, hk, htake, rfl⟩ := seekCrlf_of_some ht hcut
  rw [← hassist] at hseek
  have hshort := drop_seekCrlf_lt m.assistflag hbuf
  rw [hseek] at hshort
  have htaken : m.buffer.contents ++ buf.take k =
      startText a b c ++ linesText (lines ++ [l]) := by
    rw [htext, Reading.text, linesText_concat, ← htake]
    simp only [List.append_assoc]
  have hlen : m.buffer.contents.length + k < 2 ^ 31 := by
    have hcount := congrArg List.length htaken
    rw [List.length_append, List.length_take, List.length_append] at hcount
    omega
  obtain ⟨b', happend, hcontents, hoffset'⟩ :=
    append_spec { m with assistflag := assist } hk hlen
  have htext' : b'.contents = startText a b c ++ linesText (lines ++ [l]) := by
    rw [hcontents, ← htaken]
  have hend := endLine_eq line t assist
    (show b'.contents.length < 2 ^ 31 by rw [htext', List.length_append]; exact hsize) htext'
  have hm' : { m with assistflag := assist, buffer := b' } =
      { (Reading.head a b c lines t).fields line with assistflag := assist, buffer := b' } := by
    rw [hfields]
  rw [← hm'] at hend
  have hconcat : (linesText (lines ++ [l])).length =
      (linesText lines).length + (l.length + 2) := by
    rw [linesText_concat, List.length_append, List.length_append]
    rfl
  have hadd : addInt ((startText a b c).length + (linesText lines).length : ℕ) 2 =
      some (((startText a b c).length + (linesText lines).length : ℕ) + 2 : ℤ) :=
    addInt_of_bounds (by omega) (by omega)
  rw [parseHead_of_hit hbuf hseek happend hend hadd]
  by_cases hl : l = []
  · subst hl
    rw [List.length_nil] at hconcat
    have hbeg : (((startText a b c).length + (linesText lines).length : ℕ) : ℤ) =
        ((startText a b c).length + (linesText (lines ++ [[]])).length : ℕ) - 2 := by
      omega
    refine ⟨{ Reading.headFields line a b c (lines ++ [[]]) with buffer := b' }, k, hk, rfl,
      hshort, hcontents, ⟨?_, hoffset'.trans hoffset, ?_⟩, ?_⟩
    · simp only [htext', if_true, Reading.text, List.take_nil, List.append_nil]
    · simp only [Reading.fields, if_true]
    · simp only [if_true, hbeg, sub_add_cancel]
      rfl
  · refine ⟨{ Reading.headFields line a b c (lines ++ [l]) with
      flag := .head
      header2 := ⟨((startText a b c).length + (linesText (lines ++ [l])).length : ℕ), 0⟩
      buffer := b' }, k, hk, rfl, hshort, hcontents, ⟨?_, hoffset'.trans hoffset, ?_⟩, ?_⟩
    · simp only [htext', if_neg hl, Reading.text, List.append_nil]
    · have hne : lines ++ [l] ≠ [] := by simp
      simp only [if_neg hl, Reading.fields, if_neg hne]
      rfl
    · have hpos := List.length_pos_of_ne_nil hl
      simp only [if_neg hl]
      rw [if_neg (by omega)]

theorem parseHead_arrives {line : StartLine} {a b c : Text} {lines : List Text}
    {t buf s : Text} {m : HttpRecvMsg} (hm : (Reading.head a b c lines t).Shows line m)
    (ht : cutPair cr lf t = none)
    (hs : m.buffer.contents = s)
    (hsize : (readHead a b c lines (t ++ buf)).text.length < 2 ^ 31) :
    Arrives line (readHead a b c lines (t ++ buf)) s buf (m.parseHead buf) := by
  subst hs
  induction hn : buf.length using Nat.strong_induction_on generalizing lines t buf m with
  | _ n ih =>
  subst hn
  by_cases hbuf : buf = []
  · subst hbuf
    rw [List.append_nil, readHead_of_none ht]
    exact ⟨m, 0, by simp [parseHead], hm, by simp, le_rfl, fun _ ↦ rfl⟩
  cases hcut : cutPair cr lf (t ++ buf) with
  | none =>
      obtain ⟨htext, hoffset, hfields⟩ := hm
      have hassist : m.assistflag = decide (t.getLast? = some cr) := by
        rw [hfields]
        rfl
      rw [readHead_of_none hcut] at hsize ⊢
      have hlen : m.buffer.contents.length + buf.length < 2 ^ 31 := by
        simp only [Reading.text, List.length_append] at hsize
        simp only [htext, Reading.text, List.length_append]
        omega
      obtain ⟨b', m₁, happend, hnote, hcontents, hoffset'⟩ := append_noteCr hbuf hoffset hlen
      refine ⟨{ m with assistflag := buf.getLast? = some cr, buffer := b' }, buf.length,
        ?_, ⟨?_, hoffset', ?_⟩, by rw [hcontents, List.take_length], le_rfl, fun _ ↦ rfl⟩
      · rw [parseHead, if_neg hbuf, hassist, seekCrlf_of_none hbuf hcut ht]
        simp only [happend, Option.bind_eq_bind, Option.bind_some, Bool.false_eq_true, if_false,
          hnote]
        rfl
      · simp only [hcontents, htext, Reading.text, List.append_assoc]
      · rw [hfields]
        simp only [Reading.fields, List.getLast?_append_of_ne_nil t hbuf]
  | some p =>
      obtain ⟨l, r⟩ := p
      rw [readHead_of_some hcut] at hsize ⊢
      have hline : (startText a b c).length + (linesText (lines ++ [l])).length < 2 ^ 31 := by
        split at hsize
        · simp only [Reading.text, List.length_append] at hsize
          omega
        · exact lt_of_le_of_lt (le_text_readHead a b c _ _) hsize
      obtain ⟨m', k, hk, rfl, hshort, hcontents, hm', hparse⟩ := parseHead_hit hm ht hcut hline
      rw [hparse]
      by_cases hl : l = []
      · simp only [if_pos hl] at hm' ⊢
        exact ⟨m', k, hm', hcontents, hk, rfl, rfl⟩
      · simp only [if_neg hl] at hsize hm' ⊢
        apply Arrives.rest hk hcontents
        exact ih _ hshort (t := []) hm' rfl hsize rfl

/-! ## The first line -/

theorem parseThird_arrives {line : StartLine} {a b t buf : Text} {m : HttpRecvMsg} {s : Text}
    (hm : (Reading.third a b t).Shows line m) (ht : cutPair cr lf t = none)
    (hs : m.buffer.contents = s)
    (hsize : (readThird a b (t ++ buf)).text.length < 2 ^ 31) :
    Arrives line (readThird a b (t ++ buf)) s buf (m.parseThird buf) := by
  subst hs
  by_cases hbuf : buf = []
  · subst hbuf
    rw [List.append_nil, readThird, ht]
    exact ⟨m, 0, by simp [parseThird], hm, by simp, le_rfl, fun _ ↦ rfl⟩
  obtain ⟨htext, hoffset, hfields⟩ := hm
  have hassist : m.assistflag = decide (t.getLast? = some cr) := by
    rw [hfields]
    rfl
  cases hcut : cutPair cr lf (t ++ buf) with
  | none =>
      simp only [readThird, hcut] at hsize ⊢
      have hlen : m.buffer.contents.length + buf.length < 2 ^ 31 := by
        simp only [Reading.text, List.length_append, List.length_cons] at hsize
        simp only [htext, Reading.text, List.length_append, List.length_cons]
        omega
      obtain ⟨b', m₁, happend, hnote, hcontents, hoffset'⟩ := append_noteCr hbuf hoffset hlen
      refine ⟨{ m with assistflag := buf.getLast? = some cr, buffer := b' }, buf.length,
        ?_, ⟨?_, hoffset', ?_⟩, by rw [hcontents, List.take_length], le_rfl, fun _ ↦ rfl⟩
      · rw [parseThird, if_neg hbuf, hassist, seekCrlf_of_none hbuf hcut ht]
        simp only [happend, Option.bind_eq_bind, Option.bind_some, Bool.false_eq_true, if_false,
          hnote]
        rfl
      · simp only [hcontents, htext, Reading.text, List.append_assoc, List.cons_append]
      · rw [hfields]
        simp only [Reading.fields, List.getLast?_append_of_ne_nil t hbuf]
  | some p =>
      obtain ⟨c, r⟩ := p
      simp only [readThird, hcut] at hsize ⊢
      obtain ⟨assist, k, hseek, hk, htake, rfl⟩ := seekCrlf_of_some ht hcut
      have hstart := le_text_readHead a b c [] (buf.drop k)
      have htaken : m.buffer.contents ++ buf.take k = startText a b c := by
        rw [htext, Reading.text, startText, ← htake]
        simp only [List.append_assoc, List.cons_append]
      have hlen : m.buffer.contents.length + k < 2 ^ 31 := by
        have hcount := congrArg List.length htaken
        rw [List.length_append, List.length_take] at hcount
        omega
      obtain ⟨b', happend, hcontents, hoffset'⟩ :=
        append_spec { m with assistflag := assist } hk hlen
      have htext' : b'.contents = startText a b c := by
        rw [hcontents, ← htaken]
      have hpos : b'.sizeInt = ((startText a b c).length : ℕ) := by
        rw [Buffer.sizeInt_eq (by rw [htext']; omega), htext']
      have hcount : (startText a b c).length = a.length + 1 + b.length + 1 + c.length + 2 := by
        simp [startText, crlf]
        omega
      have hadd : addInt ((startText a b c).length : ℕ) (-2) =
          some ((a.length + 1 + b.length + 1 + c.length : ℕ) : ℤ) := by
        rw [addInt_of_bounds (by omega) (by omega), hcount]
        congr 1
        omega
      rw [← hassist] at hseek
      rw [parseThird, if_neg hbuf, hseek]
      simp only [happend, Option.bind_eq_bind, Option.bind_some, if_true, hpos, hadd]
      apply Arrives.rest hk hcontents
      refine parseHead_arrives (t := []) ?_ rfl rfl hsize
      refine ⟨?_, hoffset'.trans hoffset, ?_⟩
      · simp only [htext', Reading.text, linesText, List.flatMap_nil, List.append_nil]
      · rw [hfields]
        simp only [Reading.fields]
        rfl

theorem le_text_readThird {a b t : Text} (ht : cutPair cr lf t = none) (x : Text) :
    a.length + 1 + b.length + 1 + t.length ≤ (readThird a b (t ++ x)).text.length := by
  cases hcut : cutPair cr lf (t ++ x) with
  | none =>
      simp only [readThird, hcut, Reading.text, List.length_append, List.length_cons]
      omega
  | some p =>
      obtain ⟨c, r⟩ := p
      obtain ⟨-, k, -, hk, htake, -⟩ := seekCrlf_of_some ht hcut
      have hle := le_text_readHead a b c [] r
      have hcount := congrArg List.length htake
      simp only [List.length_append, startText, List.length_cons] at hle hcount
      simp only [readThird, hcut]
      omega

theorem take_token (u r : Text) : (u ++ sp :: r).take (u.length + 1) = u ++ [sp] := by
  simp [List.take_append]

theorem drop_token (u r : Text) : (u ++ sp :: r).drop (u.length + 1) = r := by
  simp [List.drop_append]

theorem append_token {m : HttpRecvMsg} {u r : Text}
    (hsize : m.buffer.contents.length + u.length + 1 < 2 ^ 31) :
    ∃ b : Buffer, m.append (u ++ sp :: r) (u.length + 1) = some { m with buffer := b } ∧
      b.contents = m.buffer.contents ++ (u ++ [sp]) ∧ b.offset = m.buffer.offset ∧
      b.sizeInt = (m.buffer.contents.length + u.length + 1 : ℕ) ∧
      addInt (m.buffer.contents.length + u.length + 1 : ℕ) (-1) =
        some ((m.buffer.contents.length + u.length : ℕ) : ℤ) := by
  have hk : u.length + 1 ≤ (u ++ sp :: r).length := by simp
  obtain ⟨b, happend, hcontents, hoffset⟩ := append_spec m hk (by omega)
  rw [take_token] at hcontents
  have hlen : b.contents.length = m.buffer.contents.length + u.length + 1 := by
    rw [hcontents, List.length_append, List.length_append, List.length_singleton]
    omega
  refine ⟨b, happend, hcontents, hoffset, by rw [Buffer.sizeInt_eq (by omega), hlen], ?_⟩
  rw [addInt_of_bounds (by omega) (by omega)]
  congr 1
  omega

theorem parseSecond_arrives {line : StartLine} {a t buf : Text} {m : HttpRecvMsg} {s : Text}
    (hm : (Reading.second a t).Shows line m) (ht : sp ∉ t)
    (hs : m.buffer.contents = s)
    (hsize : (readSecond a (t ++ buf)).text.length < 2 ^ 31) :
    Arrives line (readSecond a (t ++ buf)) s buf (parseSecond line m buf) := by
  subst hs
  by_cases hbuf : buf = []
  · subst hbuf
    rw [List.append_nil, readSecond, cutAt_of_notMem ht]
    exact ⟨m, 0, by simp [parseSecond], hm, by simp, le_rfl, fun _ ↦ rfl⟩
  obtain ⟨htext, hoffset, hfields⟩ := hm
  have hcount := congrArg List.length htext
  simp only [Reading.text, List.length_append, List.length_cons] at hcount
  have hcut := cutAt_append_of_none ht buf
  rw [parseSecond, if_neg hbuf]
  by_cases hsp : sp ∈ buf
  · obtain ⟨u, r, rfl, hu⟩ := List.eq_append_cons_of_mem hsp
    rw [cutAt_append_cons hu, Option.map_some, Prod.map] at hcut
    simp only [readSecond, hcut, id] at hsize ⊢
    have hle := le_text_readThird (a := a) (b := t ++ u) (t := []) rfl r
    rw [List.length_append, List.length_nil, List.nil_append] at hle
    obtain ⟨b', happend, hcontents, hoffset', hpos, hadd⟩ :=
      append_token (m := m) (u := u) (r := r) (by omega)
    rw [parse1_append_cons hu]
    simp only [happend, Option.bind_eq_bind, Option.bind_some, if_true, hpos, hadd]
    apply Arrives.rest (by simp) (hcontents.trans (by rw [take_token]))
    rw [drop_token]
    refine parseThird_arrives (t := []) ?_ rfl rfl hsize
    refine ⟨?_, hoffset'.trans hoffset, ?_⟩
    · simp only [hcontents, htext, Reading.text, List.append_assoc, List.cons_append]
    · rw [hfields]
      simp only [Reading.fields, List.length_append, hcount]
      congr 3 <;> omega
  · rw [cutAt_of_notMem hsp, Option.map_none] at hcut
    simp only [readSecond, hcut] at hsize ⊢
    simp only [Reading.text, List.length_append, List.length_cons] at hsize
    obtain ⟨b', happend, hcontents, hoffset'⟩ := append_spec m (le_refl buf.length) (by omega)
    rw [parse1_of_notMem hsp]
    refine ⟨{ m with buffer := b' }, buf.length, by simp [happend],
      ⟨?_, hoffset'.trans hoffset, ?_⟩, hcontents, le_rfl, fun _ ↦ rfl⟩
    · simp only [hcontents, htext, Reading.text, List.append_assoc, List.cons_append,
        List.take_length]
    · rw [hfields]
      rfl

theorem le_text_readSecond {a t : Text} (ht : sp ∉ t) (x : Text) :
    a.length + 1 + t.length ≤ (readSecond a (t ++ x)).text.length := by
  have hcut := cutAt_append_of_none ht x
  by_cases hsp : sp ∈ x
  · obtain ⟨u, r, rfl, hu⟩ := List.eq_append_cons_of_mem hsp
    rw [cutAt_append_cons hu, Option.map_some, Prod.map] at hcut
    have hle := le_text_readThird (a := a) (b := t ++ u) (t := []) rfl r
    rw [List.length_append, List.nil_append] at hle
    simp only [readSecond, hcut, id]
    omega
  · rw [cutAt_of_notMem hsp, Option.map_none] at hcut
    simp only [readSecond, hcut, Reading.text, List.length_append, List.length_cons]
    omega

theorem parseFirst_arrives {line : StartLine} {t buf : Text} {m : HttpRecvMsg} {s : Text}
    (hm : (Reading.first t).Shows line m) (ht : sp ∉ t)
    (hs : m.buffer.contents = s)
    (hsize : (read (t ++ buf)).text.length < 2 ^ 31) :
    Arrives line (read (t ++ buf)) s buf (parseFirst line m buf) := by
  subst hs
  obtain ⟨htext, hoffset, hfields⟩ := hm
  have hcount := congrArg List.length htext
  simp only [Reading.text] at hcount
  have hcut := cutAt_append_of_none ht buf
  rw [parseFirst]
  by_cases hsp : sp ∈ buf
  · obtain ⟨u, r, rfl, hu⟩ := List.eq_append_cons_of_mem hsp
    rw [cutAt_append_cons hu, Option.map_some, Prod.map] at hcut
    simp only [read, hcut, id] at hsize ⊢
    have hle := le_text_readSecond (a := t ++ u) (t := []) (by simp) r
    rw [List.length_append, List.length_nil, List.nil_append] at hle
    obtain ⟨b', happend, hcontents, hoffset', hpos, hadd⟩ :=
      append_token (m := m) (u := u) (r := r) (by omega)
    rw [parse1_append_cons hu]
    simp only [happend, Option.bind_eq_bind, Option.bind_some, if_true, hpos, hadd]
    apply Arrives.rest (by simp) (hcontents.trans (by rw [take_token]))
    rw [drop_token]
    refine parseSecond_arrives (t := []) ?_ (by simp) rfl hsize
    refine ⟨?_, hoffset'.trans hoffset, ?_⟩
    · simp only [hcontents, htext, Reading.text, List.append_assoc]
    · rw [hfields]
      simp only [Reading.fields, List.length_append, hcount]
      rfl
  · rw [cutAt_of_notMem hsp, Option.map_none] at hcut
    simp only [read, hcut] at hsize ⊢
    simp only [Reading.text, List.length_append] at hsize
    obtain ⟨b', happend, hcontents, hoffset'⟩ := append_spec m (le_refl buf.length) (by omega)
    rw [parse1_of_notMem hsp]
    refine ⟨{ m with buffer := b' }, buf.length, by simp [happend],
      ⟨?_, hoffset'.trans hoffset, ?_⟩, hcontents, le_rfl, fun _ ↦ rfl⟩
    · simp only [hcontents, htext, Reading.text, List.take_length]
    · rw [hfields]
      rfl

/-! ## One call -/

theorem flag_fields_head {line : StartLine} {a b c t : Text} {lines : List Text} :
    ((Reading.head a b c lines t).fields line).flag = .head := rfl

theorem flag_fields_body {line : StartLine} {a b c t : Text} {lines : List Text}
    (h : ((Reading.body a b c lines t).fields line).flag ≠ .over) :
    ((Reading.body a b c lines t).fields line).flag = .body := by
  simp only [Reading.fields] at h ⊢
  split at h
  · rename_i ht
    rw [if_pos ht]
    rfl
  · rename_i ht
    rw [if_neg ht]
    split at h
    · exact absurd rfl h
    · rename_i hzero
      rw [if_neg hzero]
      split at h
      · rename_i hlen
        rw [if_pos hlen]
        rfl
      · exact absurd rfl h

theorem parse_of_body {line : StartLine} {a b c t buf : Text} {lines : List Text}
    {m : HttpRecvMsg} (hm : (Reading.body a b c lines t).Shows line m) (hflag : m.flag ≠ .over) :
    parse line m buf = parseBody m buf := by
  have hnodup := line.nodup
  have hfields : m.flag = ((Reading.body a b c lines t).fields line).flag := by
    rw [hm.fields_eq]
  simp only [List.nodup_cons, List.mem_cons, List.not_mem_nil, or_false, not_or] at hnodup
  obtain ⟨⟨-, -, -, h1b, -⟩, ⟨-, -, h2b, -⟩, ⟨-, h3b, -⟩, -⟩ := hnodup
  rw [parse, if_neg hflag, hfields, flag_fields_body (hfields ▸ hflag), if_neg (Ne.symm h1b),
    if_neg (Ne.symm h2b), if_neg (Ne.symm h3b), if_neg ParseFlag.noConfusion, if_pos rfl]

theorem parse_arrives {line : StartLine} {r : Reading} {buf : Text} {m : HttpRecvMsg}
    (hm : r.Shows line m) (hopen : r.Open) (hflag : m.flag ≠ .over)
    (hsize : (r.extend buf).text.length < 2 ^ 31)
    (hr : ∀ a b c lines t, r = .body a b c lines t → t = []) :
    Arrives line (r.extend buf) m.buffer.contents buf (parse line m buf) := by
  have hnodup := line.nodup
  have hfields : m.flag = (r.fields line).flag := by
    rw [hm.fields_eq]
  simp only [List.nodup_cons, List.mem_cons, List.not_mem_nil, or_false, not_or] at hnodup
  obtain ⟨⟨h12, h13, h1h, -, -⟩, ⟨h23, h2h, -, -⟩, ⟨h3h, -, -⟩, -⟩ := hnodup
  cases r with
  | first t =>
      have hfirst : m.flag = line.first := hfields
      rw [parse, if_neg hflag, if_pos hfirst]
      exact parseFirst_arrives hm hopen rfl hsize
  | second a t =>
      have hsecond : m.flag = line.second := hfields
      rw [parse, if_neg hflag, hsecond, if_neg (Ne.symm h12), if_pos rfl]
      exact parseSecond_arrives hm hopen rfl hsize
  | third a b t =>
      have hthird : m.flag = line.third := hfields
      rw [parse, if_neg hflag, hthird, if_neg (Ne.symm h13), if_neg (Ne.symm h23), if_pos rfl]
      exact parseThird_arrives hm hopen rfl hsize
  | head a b c lines t =>
      rw [parse, if_neg hflag, hfields, flag_fields_head, if_neg (Ne.symm h1h),
        if_neg (Ne.symm h2h), if_neg (Ne.symm h3h), if_pos rfl]
      exact parseHead_arrives hm hopen rfl hsize
  | body a b c lines t =>
      obtain rfl := hr a b c lines t rfl
      refine ⟨m, 0, hm, by simp, Nat.zero_le _, rfl, ?_⟩
      rw [parse_of_body hm hflag]
      cases hbody : m.parseBody buf with
      | none => simp only [List.nil_append, hbody, Option.bind_eq_bind, Option.bind_none]
      | some p => simp [hbody]

theorem parse_reaches {line : StartLine} {r : Reading} {buf : Text} {m : HttpRecvMsg}
    (hm : r.Shows line m) (hopen : r.Open) (hflag : m.flag ≠ .over)
    (hok : (r.extend buf).LengthOk) (hsize : (r.extend buf).text.length < 2 ^ 31) :
    Reaches line (r.extend buf) m.buffer.contents buf (parse line m buf) := by
  cases r with
  | body a b c lines t =>
      rw [parse_of_body hm hflag]
      exact parseBody_reaches hm hflag hok hsize
  | first t => exact (parse_arrives hm hopen hflag hsize (by simp)).reaches hok hsize
  | second a t => exact (parse_arrives hm hopen hflag hsize (by simp)).reaches hok hsize
  | third a b t => exact (parse_arrives hm hopen hflag hsize (by simp)).reaches hok hsize
  | head a b c lines t => exact (parse_arrives hm hopen hflag hsize (by simp)).reaches hok hsize

theorem Reading.Shows.extend_of_over {line : StartLine} {r : Reading} {m : HttpRecvMsg}
    (hm : r.Shows line m) (hflag : m.flag = .over) (x : Text) :
    (r.extend x).Shows line m := by
  have hnodup := line.nodup
  have hfields : (r.fields line).flag = .over := by
    rw [← hflag, hm.fields_eq]
  cases r with
  | first t =>
      change line.first = .over at hfields
      simp [hfields] at hnodup
  | second a t =>
      change line.second = .over at hfields
      simp [hfields] at hnodup
  | third a b t =>
      change line.third = .over at hfields
      simp [hfields] at hnodup
  | head a b c lines t => cases hfields
  | body a b c lines t =>
      obtain ⟨htext, hoffset, heq⟩ := hm
      simp only [Reading.fields] at hfields
      by_cases ht : t = []
      · rw [if_pos ht] at hfields
        cases hfields
      · rw [if_neg ht] at hfields
        have hle : bodyLen lines ≤ t.length := by
          by_contra hlt
          rw [if_neg (by omega), if_pos (by omega)] at hfields
          cases hfields
        refine ⟨?_, hoffset, heq.trans ?_⟩
        · rw [htext, Reading.extend, Reading.text, Reading.text, List.take_append_of_le_length hle]
        · have hne : t ++ x ≠ [] := by simp [ht]
          have hlen : ¬ (t ++ x).length < bodyLen lines := by
            rw [List.length_append]
            omega
          simp only [Reading.extend, Reading.fields, if_neg ht, if_neg hne, if_neg hlen,
            if_neg (show ¬ t.length < bodyLen lines by omega)]

end Http

end Slience
