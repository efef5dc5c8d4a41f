import Slience.Netio.HttpDelivery

/-!
# The length that header lines declare

`_CheckContentLen` compares fourteen letters of a header line, skips two bytes unseen and
takes what follows, up to a CR, for the number.  A header line should instead be looked
at up to its colon, and the number behind any spaces.  The two agree on the lines in which
a space follows the colon and at most ten bytes follow the space.
-/

namespace Slience

namespace Http

open HttpRecvMsg

/-! ## Which line is taken -/

/-- The line passes the test on its size and on its first fourteen letters. -/
def NamesLength (l : Text) : Prop := 16 ≤ l.length ∧ constr.take 14 <+: l

instance (l : Text) : Decidable (NamesLength l) := inferInstanceAs (Decidable (_ ∧ _))

/-- What is copied of such a line. -/
def valueText (l : Text) : Text := (l.drop 16).takeWhile (· ≠ cr)

theorem scanName_name {name psrc pbeg : Text} (hsp : sp ∉ name) :
    scanName (name ++ psrc) (name ++ pbeg) = scanName psrc pbeg := by
  induction name with
  | nil => rfl
  | cons c name ih =>
      rw [List.mem_cons, not_or] at hsp
      rw [List.cons_append, List.cons_append, scanName, if_neg (Ne.symm hsp.1)]
      simp only [ne_eq, not_true_eq_false, if_false]
      exact ih hsp.2

theorem scanName_mismatch {name psrc pbeg : Text} (hsp : sp ∉ name)
    (hpsrc : psrc.head? ≠ some sp) (hlen : name.length ≤ pbeg.length) (h : ¬ name <+: pbeg) :
    ∃ s p, scanName (name ++ psrc) pbeg = some (s, p) ∧ s.head? ≠ some sp := by
  induction name generalizing pbeg with
  | nil => exact absurd List.nil_prefix h
  | cons c name ih =>
      rw [List.mem_cons, not_or] at hsp
      cases pbeg with
      | nil => cases hlen
      | cons b pbeg =>
          rw [List.cons_append, scanName, if_neg (Ne.symm hsp.1)]
          by_cases hb : b = c
          · subst hb
            rw [List.cons_prefix_cons] at h
            simp only [ne_eq, not_true_eq_false, if_false]
            apply ih hsp.2 (Nat.le_of_succ_le_succ hlen)
            exact fun hname ↦ h ⟨rfl, hname⟩
          · simp only [ne_eq, hb, not_false_eq_true, if_true]
            refine ⟨name ++ psrc, pbeg, rfl, ?_⟩
            cases name with
            | nil => exact hpsrc
            | cons d name =>
                rw [List.mem_cons, not_or] at hsp
                exact fun hd ↦ hsp.2.1 (Option.some_inj.mp hd).symm

theorem scanName_line {l y : Text} (hl : 16 ≤ l.length) :
    ∃ s p, scanName constr (l ++ y) = some (s, p) ∧
      (NamesLength l → s.head? = some sp ∧ p = l.drop 15 ++ y) ∧
      (¬ NamesLength l → s.head? ≠ some sp) := by
  have hconstr : constr = constr.take 14 ++ [58, sp] := by decide
  have hsp : sp ∉ constr.take 14 := by decide
  by_cases hname : NamesLength l
  · obtain ⟨rest, rfl⟩ := hname.2
    cases rest with
    | nil => simp [constr] at hl
    | cons b rest =>
        have hscan : scanName [58, sp] (b :: rest ++ y) = some ([sp], rest ++ y) := by
          by_cases hb : b = 58
          · simp [scanName, hb, sp]
          · simp [scanName, hb, sp]
        refine ⟨[sp], rest ++ y, ?_, fun _ ↦ ⟨rfl, ?_⟩, fun h ↦ absurd hname h⟩
        · rw [hconstr, List.append_assoc]
          exact (scanName_name hsp).trans hscan
        · rfl
  · have hnot : ¬ constr.take 14 <+: l ++ y := by
      intro h
      apply hname
      refine ⟨hl, ?_⟩
      apply List.prefix_of_prefix_length_le h (List.prefix_append l y)
      rw [List.length_take]
      omega
    obtain ⟨s, p, hscan, hs⟩ := @scanName_mismatch _ [58, sp] _ hsp (by decide)
      (show _ ≤ (l ++ y).length by simp [constr]; omega) hnot
    refine ⟨s, p, ?_, fun h ↦ absurd h hname, fun _ ↦ hs⟩
    rw [hconstr]
    exact hscan

theorem fieldValue_line {l : Text} (hl : 16 ≤ l.length) :
    fieldValue (l ++ crlf) = some (if NamesLength l then some (valueText l) else none) := by
  obtain ⟨s, p, hscan, hnamed, hother⟩ := scanName_line (y := crlf) hl
  simp only [fieldValue, hscan, Option.bind_eq_bind, Option.bind_some]
  by_cases hname : NamesLength l
  · obtain ⟨hs, rfl⟩ := hnamed hname
    have htail : (l.drop 15 ++ crlf).tail = l.drop 16 ++ crlf := by
      rw [List.tail_append_of_ne_nil, List.tail_drop]
      apply List.ne_nil_of_length_pos
      rw [List.length_drop]
      omega
    rw [if_pos hs, if_pos hname, htail, if_pos (by simp [crlf]), valueText, crlf,
      takeWhile_append_cr]
  · rw [if_neg (hother hname), if_neg hname]

theorem lengthField_eq (lines : List Text) :
    lengthField lines = (lines.find? (NamesLength ·)).map valueText := by
  induction lines with
  | nil => rfl
  | cons l lines ih =>
      rw [lengthField, List.find?_cons]
      by_cases hl : 16 ≤ l.length
      · rw [if_neg (by omega), fieldValue_line hl]
        by_cases hname : NamesLength l
        · simp [hname]
        · simp [hname, ih]
      · have hname : ¬ NamesLength l := fun h ↦ hl h.1
        rw [if_pos (by omega), ih]
        simp [hname]

/-! ## Which length is declared -/

/-- `Content-Length:`, spaces and a number of at most ten digits that is an `int`. -/
def lengthLine (l : Text) : Option ℕ :=
  let digits := ((l.drop 15).dropWhile (· = sp)).takeWhile isDigit
  if constr.take 15 <+: l ∧ digits ≠ [] ∧ digits.length ≤ 10 ∧ digitsVal digits < 2 ^ 31 then
    some (digitsVal digits)
  else none

/-- The first such line says `n`; without a line of that name the length is 0. -/
def Declares (lines : List Text) (n : ℕ) : Prop :=
  lines.findSome? lengthLine = some n ∨ n = 0 ∧ ∀ l ∈ lines, ¬ constr.take 15 <+: l

/-- Where the number lies that is read for the length: in at most ten bytes behind the
space of a line that declares `n`, or, by chance, in what is read of another line. -/
def FoundAt (lines : List Text) (n : ℕ) : Prop :=
  ∀ l, lines.find? (NamesLength ·) = some l → FitsScratch (valueText l) ∧
    (constr <+: l ∧ lengthLine l = some n ∨
      ¬ (constr <+: l ∧ (lengthLine l).isSome) ∧ atoi (valueText l) = some (n : ℤ))

theorem namesLength_of_lengthLine {l : Text} {n : ℕ} (h : lengthLine l = some n) :
    NamesLength l := by
  simp only [lengthLine] at h
  split at h
  · rename_i hline
    obtain ⟨hname, hdigits, -⟩ := hline
    constructor
    · by_contra hl
      have hdrop : l.drop 15 = [] := List.drop_eq_nil_of_le (by omega)
      rw [hdrop] at hdigits
      exact hdigits rfl
    · exact List.IsPrefix.trans (by decide) hname
  · cases h

theorem atoi_of_lengthLine {l : Text} {n : ℕ} (hconstr : constr <+: l)
    (h : lengthLine l = some n) : atoi (valueText l) = some (n : ℤ) := by
  obtain ⟨rest, rfl⟩ := hconstr
  have hdrop : (constr ++ rest).drop 15 = sp :: rest := rfl
  have hspaces : (sp :: rest).dropWhile (· = sp) = rest.dropWhile (· = sp) := by
    rw [List.dropWhile_cons_of_pos (by simp)]
  simp only [lengthLine, hdrop, hspaces] at h
  have hblank : ∀ b ∈ rest.takeWhile (· = sp), b = sp := by
    intro b hb
    simpa using List.mem_takeWhile_imp hb
  have hrest : rest = rest.takeWhile (· = sp) ++ rest.dropWhile (· = sp) :=
    (List.takeWhile_append_dropWhile).symm
  generalize rest.takeWhile (· = sp) = blanks at hrest hblank
  generalize rest.dropWhile (· = sp) = s at hrest h
  have hdigit : ∀ b ∈ s.takeWhile isDigit, isDigit b = true := fun b hb ↦
    List.mem_takeWhile_imp hb
  have hs : s = s.takeWhile isDigit ++ s.dropWhile isDigit :=
    (List.takeWhile_append_dropWhile).symm
  have hother := List.head?_dropWhile_not isDigit s
  generalize s.takeWhile isDigit = ds at h hdigit hs
  generalize s.dropWhile isDigit = tail at hs hother
  split at h
  · rename_i hline
    obtain ⟨-, hne, -, hval⟩ := hline
    cases h
    have hvalue : valueText (constr ++ rest) =
        blanks ++ (ds ++ tail.takeWhile (· ≠ cr)) := by
      change rest.takeWhile (· ≠ cr) = _
      rw [hrest, hs, List.takeWhile_append_of_pos, List.takeWhile_append_of_pos]
      · intro b hb
        exact decide_eq_true (ne_of_isDigit (hdigit b hb) (by decide))
      · intro b hb
        rw [hblank b hb]
        rfl
    rw [hvalue]
    refine atoi_digits ?_ hne hdigit ?_ hval
    · intro b hb
      rw [hblank b hb]
      rfl
    · cases tail with
      | nil => simp
      | cons b tail =>
          intro c hc
          by_cases hb : b = cr
          · simp [hb] at hc
          · rw [List.takeWhile_cons_of_pos (by simpa using hb)] at hc
            cases hc
            simpa using hother
  · cases h

theorem readLength_eq (lines : List Text) : readLength lines =
    match lines.find? (NamesLength ·) with
    | none => some 0
    | some l => readLen (valueText l) := by
  rw [readLength, lengthField_eq]
  cases lines.find? (NamesLength ·) <;> rfl

/-- What is read for the length is the declared one exactly when that is where it is
looked for. -/
theorem readLength_iff {lines : List Text} {n : ℕ} (h : Declares lines n) :
    readLength lines = some (n : ℤ) ↔ FoundAt lines n := by
  rw [readLength_eq]
  cases hfind : lines.find? (NamesLength ·) with
  | none =>
      have hzero : n = 0 := by
        rcases h with hsome | hzero
        · obtain ⟨l, hl, hline⟩ := List.exists_of_findSome?_eq_some hsome
          have hname := namesLength_of_lengthLine hline
          exact absurd (decide_eq_true hname) (List.find?_eq_none.mp hfind l hl)
        · exact hzero.1
      subst hzero
      refine ⟨fun _ l hl ↦ ?_, fun _ ↦ rfl⟩
      rw [hfind] at hl
      cases hl
  | some l =>
      simp only [FoundAt, hfind, Option.some.injEq, forall_eq', readLen]
      constructor
      · intro hread
        split at hread
        · rename_i hfits
          refine ⟨hfits, ?_⟩
          by_cases hline : constr <+: l ∧ (lengthLine l).isSome
          · left
            obtain ⟨k, hk⟩ := Option.isSome_iff_exists.mp hline.2
            have hatoi := atoi_of_lengthLine hline.1 hk
            rw [hread] at hatoi
            have hnk : n = k := by
              simpa using hatoi
            exact ⟨hline.1, hnk ▸ hk⟩
          · exact Or.inr ⟨hline, hread⟩
        · cases hread
      · rintro ⟨hfits, ⟨hconstr, hline⟩ | ⟨-, hatoi⟩⟩
        · rw [if_pos hfits]
          exact atoi_of_lengthLine hconstr hline
        · rw [if_pos hfits]
          exact hatoi

/-! ## Behind the empty line -/

/-- The chunks up to and including the empty line leave a message that has recorded the
lines. -/
theorem shows_of_feed {line : StartLine} {chunks : List Text} {m : HttpRecvMsg} {ks : List ℕ}
    {a b c : Text} {lines : List Text} (hfeed : feed line (new line) chunks = some (m, ks))
    (hread : read chunks.flatten = .body a b c lines [])
    (hsize : (read chunks.flatten).text.length < 2 ^ 31) :
    (Reading.body a b c lines []).Shows line m ∧ m.buffer.contents.length < 2 ^ 31 := by
  have hok : (read chunks.flatten).LengthOk := by
    rw [hread]
    exact fun h ↦ absurd rfl h
  obtain ⟨m', ks', hfeed', hm', -⟩ := parse_chunks line chunks hok hsize
  rw [hfeed] at hfeed'
  cases hfeed'
  rw [← hm'.text_eq] at hsize
  rw [hread] at hm'
  exact ⟨hm', hsize⟩

/-- `_CheckContentLen` returns what the lines declare exactly when it looks where the
number lies. -/
theorem checkContentLen_iff {line : StartLine} {chunks : List Text} {m : HttpRecvMsg}
    {ks : List ℕ} {a b c : Text} {lines : List Text}
    (hfeed : feed line (new line) chunks = some (m, ks))
    (hread : read chunks.flatten = .body a b c lines [])
    (hsize : (read chunks.flatten).text.length < 2 ^ 31) :
    (∀ n, Declares lines n → m.checkContentLen = some (n : ℤ)) ↔
      ∀ n, Declares lines n → FoundAt lines n := by
  obtain ⟨hm, hsmall⟩ := shows_of_feed hfeed hread hsize
  rw [checkContentLen_eq hm hsmall]
  constructor
  · intro h n hn
    exact (readLength_iff hn).mp (h n hn)
  · intro h n hn
    exact (readLength_iff hn).mpr (h n hn)

theorem read_header {q : Request} (hq : q.WellFormed) :
    read [q.header].flatten = .body q.method q.url q.version (q.lines ++ [[]]) [] := by
  have hread := @read_message _ _ _ [] _ hq.method hq.url hq.version hq.lines
  rw [List.append_nil] at hread
  rw [List.flatten_cons, List.flatten_nil, List.append_nil]
  exact hread

theorem feed_header {line : StartLine} {q : Request} (hq : q.WellFormed)
    (hsize : q.header.length < 2 ^ 31) :
    ∃ m ks, feed line (new line) [q.header] = some (m, ks) := by
  have hread := read_header hq
  have hlen : (read [q.header].flatten).text.length < 2 ^ 31 :=
    lt_of_le_of_lt (text_read_le _) (by simpa using hsize)
  obtain ⟨m, ks, hfeed, -⟩ := parse_chunks line [q.header]
    (by rw [hread]; exact fun h ↦ absurd rfl h) hlen
  exact ⟨m, ks, hfeed⟩

theorem checkContentLen_iff_bodyRequest :
    ∃ m ks, feed .svrRecv (new .svrRecv) [bodyRequest.header] = some (m, ks) ∧
      m.checkContentLen = some 1 := by
  obtain ⟨m, ks, hfeed⟩ := @feed_header .svrRecv _ wellFormed_bodyRequest (by decide)
  have hsize : (read [bodyRequest.header].flatten).text.length < 2 ^ 31 :=
    lt_of_le_of_lt (text_read_le _) (by decide)
  refine ⟨m, ks, hfeed, ?_⟩
  have hiff := checkContentLen_iff hfeed (read_header wellFormed_bodyRequest) hsize
  refine hiff.mpr ?_ 1 (Or.inl (by decide))
  rintro n (hn | ⟨rfl, hother⟩) l hl
  · have hone : some n = some 1 := hn.symm.trans (by decide)
    cases hone
    have hline : l = constr ++ [49] := (Option.some_inj.mp hl).symm
    subst hline
    exact ⟨by decide, Or.inl (by decide)⟩
  · exact absurd (by decide) (hother (constr ++ [49]) (by decide))

/-- `"P / H\r\nContent-Length:5\r\n\r\n"` -/
def spacelessRequest : Request where
  method := [80]
  url := [47]
  version := [72]
  lines := [constr.take 15 ++ [53]]
  body := []

theorem wellFormed_spacelessRequest : spacelessRequest.WellFormed where
  method := by decide
  url := by decide
  version := by decide
  lines := by
    intro l hl
    cases List.mem_singleton.mp hl
    decide

/-- Without a space behind the colon the first digit is skipped. -/
theorem checkContentLen_fails :
    Declares (spacelessRequest.lines ++ [[]]) 5 ∧
      ∃ m ks, feed .svrRecv (new .svrRecv) [spacelessRequest.header] = some (m, ks) ∧
        m.checkContentLen = some 0 := by
  refine ⟨Or.inl (by decide), ?_⟩
  obtain ⟨m, ks, hfeed⟩ := @feed_header .svrRecv _ wellFormed_spacelessRequest (by decide)
  have hsize : (read [spacelessRequest.header].flatten).text.length < 2 ^ 31 :=
    lt_of_le_of_lt (text_read_le _) (by decide)
  obtain ⟨hm, hsmall⟩ := shows_of_feed hfeed (read_header wellFormed_spacelessRequest) hsize
  refine ⟨m, ks, hfeed, ?_⟩
  rw [checkContentLen_eq hm hsmall]
  decide

end Http

end Slience
