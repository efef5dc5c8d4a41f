import Slience.Lib.Delimiter
import Slience.Netio.HttpMsg

/-!
# What an HTTP parser should read

`Http.read` reads a whole text at once: a token up to a space, another one, a third
up to a CRLF, lines up to the first empty one, and what lies behind.  A text
that ends early leaves the last piece unfinished.  `Reading.fields` gives the
offsets at which a parser should have put these pieces, and `Shows` compares a parser
with them.
-/

namespace Slience

namespace Http

abbrev Text := List Byte

/-- How far a text goes.  The last piece `t` of the first four is unfinished; behind the
empty line there are the bytes `t`. -/
inductive Reading
  | first (t : Text)
  | second (a t : Text)
  | third (a b t : Text)
  | head (a b c : Text) (lines : List Text) (t : Text)
  | body (a b c : Text) (lines : List Text) (t : Text)

def readHead (a b c : Text) (lines : List Text) (s : Text) : Reading :=
  match _h : cutPair cr lf s with
  | none => .head a b c lines s
  | some (l, r) =>
      if l = [] then .body a b c (lines ++ [l]) r else readHead a b c (lines ++ [l]) r
termination_by s.length
decreasing_by exact length_lt_of_cutPair _h

def readThird (a b s : Text) : Reading :=
  match cutPair cr lf s with
  | none => .third a b s
  | some (c, r) => readHead a b c [] r

def readSecond (a s : Text) : Reading :=
  match cutAt sp s with
  | none => .second a s
  | some (b, r) => readThird a b r

def read (s : Text) : Reading :=
  match cutAt sp s with
  | none => .first s
  | some (a, r) => readSecond a r

/-! ## Reading in pieces -/

namespace Reading

/-- Reading on behind what was read. -/
def extend : Reading → Text → Reading
  | first t, x => read (t ++ x)
  | second a t, x => readSecond a (t ++ x)
  | third a b t, x => readThird a b (t ++ x)
  | head a b c lines t, x => readHead a b c lines (t ++ x)
  | body a b c lines t, x => .body a b c lines (t ++ x)

/-- The unfinished piece of a reading has not met its end. -/
def Open : Reading → Prop
  | first t => sp ∉ t
  | second _ t => sp ∉ t
  | third _ _ t => cutPair cr lf t = none
  | head _ _ _ _ t => cutPair cr lf t = none
  | body _ _ _ _ _ => True

end Reading

theorem readHead_of_none {a b c : Text} {lines : List Text} {s : Text}
    (h : cutPair cr lf s = none) : readHead a b c lines s = .head a b c lines s := by
  rw [readHead]
  split
  · rfl
  · rename_i hsome
    rw [h] at hsome
    cases hsome

theorem readHead_of_some {a b c : Text} {lines : List Text} {s l r : Text}
    (h : cutPair cr lf s = some (l, r)) : readHead a b c lines s =
      if l = [] then .body a b c (lines ++ [l]) r else readHead a b c (lines ++ [l]) r := by
  rw [readHead]
  split
  · rename_i hnone
    rw [h] at hnone
    cases hnone
  · rename_i hsome
    rw [h] at hsome
    cases hsome
    rfl

theorem readHead_extend (a b c : Text) (lines : List Text) (s x : Text) :
    (readHead a b c lines s).extend x = readHead a b c lines (s ++ x) := by
  induction lines, s using readHead.induct with
  | case1 lines s hcut => rw [readHead_of_none hcut, Reading.extend]
  | case2 lines s r hcut =>
      rw [readHead_of_some hcut, readHead_of_some (cutPair_append_of_some hcut x), if_pos rfl,
        if_pos rfl, Reading.extend]
  | case3 lines s l r hcut hl ih =>
      rw [readHead_of_some hcut, readHead_of_some (cutPair_append_of_some hcut x), if_neg hl,
        if_neg hl, ih]

theorem readThird_extend (a b s x : Text) :
    (readThird a b s).extend x = readThird a b (s ++ x) := by
  cases hcut : cutPair cr lf s with
  | none => simp only [readThird, hcut, Reading.extend]
  | some p =>
      have happend := cutPair_append_of_some hcut x
      simp only [readThird, hcut, happend, readHead_extend]

theorem cutAt_append_of_some {x : Byte} {s a r : Text} (h : cutAt x s = some (a, r))
    (y : Text) : cutAt x (s ++ y) = some (a, r ++ y) := by
  obtain ⟨rfl, ha⟩ := cutAt_split h
  rw [List.append_assoc, List.cons_append, cutAt_append_cons ha]

theorem readSecond_extend (a s x : Text) :
    (readSecond a s).extend x = readSecond a (s ++ x) := by
  cases hcut : cutAt sp s with
  | none => simp only [readSecond, hcut, Reading.extend]
  | some p =>
      have happend := cutAt_append_of_some hcut x
      simp only [readSecond, hcut, happend, readThird_extend]

theorem read_append (s x : Text) : read (s ++ x) = (read s).extend x := by
  cases hcut : cutAt sp s with
  | none =>
      have hread : read s = .first s := by simp only [read, hcut]
      rw [hread, Reading.extend]
  | some p =>
      have happend := cutAt_append_of_some hcut x
      simp only [read, hcut, happend, readSecond_extend]

theorem open_readHead (a b c : Text) (lines : List Text) (s : Text) :
    (readHead a b c lines s).Open := by
  induction lines, s using readHead.induct with
  | case1 lines s hcut =>
      rw [readHead_of_none hcut]
      exact hcut
  | case2 lines s r hcut =>
      rw [readHead_of_some hcut, if_pos rfl]
      trivial
  | case3 lines s l r hcut hl ih =>
      rw [readHead_of_some hcut, if_neg hl]
      exact ih

theorem open_readThird (a b s : Text) : (readThird a b s).Open := by
  unfold readThird
  split
  · rename_i hcut
    exact hcut
  · apply open_readHead

theorem open_readSecond (a s : Text) : (readSecond a s).Open := by
  unfold readSecond
  split
  · rename_i hcut
    exact notMem_of_cutAt hcut
  · apply open_readThird

theorem open_read (s : Text) : (read s).Open := by
  unfold read
  split
  · rename_i hcut
    exact notMem_of_cutAt hcut
  · apply open_readSecond

/-! ## Where the pieces lie -/

/-- The lines with the ends that were cut off. -/
def linesText (lines : List Text) : Text := lines.flatMap (· ++ crlf)

def startText (a b c : Text) : Text := a ++ sp :: (b ++ sp :: (c ++ crlf))

theorem readHead_lines {a b c rest : Text} {done lines : List Text}
    (h : ∀ l ∈ lines, l ≠ [] ∧ cutPair cr lf l = none) :
    readHead a b c done (linesText (lines ++ [[]]) ++ rest) =
      .body a b c (done ++ (lines ++ [[]])) rest := by
  induction lines generalizing done with
  | nil =>
      rw [readHead_of_some (l := []) (r := rest) (by simp [linesText, crlf, cutPair])]
      rfl
  | cons l lines ih =>
      obtain ⟨hne, hcut⟩ := h l List.mem_cons_self
      have hcut' : cutPair cr lf (linesText (l :: lines ++ [[]]) ++ rest) =
          some (l, linesText (lines ++ [[]]) ++ rest) := by
        rw [← cutPair_append_pair (by decide) hcut]
        simp [linesText, crlf]
      rw [readHead_of_some hcut', if_neg hne,
        ih (fun l' hl' ↦ h l' (List.mem_cons_of_mem l hl')), List.append_assoc]
      rfl

theorem read_message {a b c rest : Text} {lines : List Text} (ha : sp ∉ a) (hb : sp ∉ b)
    (hc : cutPair cr lf c = none) (h : ∀ l ∈ lines, l ≠ [] ∧ cutPair cr lf l = none) :
    read (startText a b c ++ (linesText (lines ++ [[]]) ++ rest)) =
      .body a b c (lines ++ [[]]) rest := by
  have htext : startText a b c ++ (linesText (lines ++ [[]]) ++ rest) = a ++ sp :: (b ++ sp ::
      (c ++ cr :: lf :: (linesText (lines ++ [[]]) ++ rest))) := by
    simp [startText, crlf]
  rw [htext]
  simp only [read, readSecond, readThird, cutAt_append_cons ha, cutAt_append_cons hb,
    cutPair_append_pair (show cr ≠ lf by decide) hc]
  exact readHead_lines h

/-- The value text of the first line that `_CheckContentLen` accepts. -/
def lengthField : List Text → Option Text
  | [] => none
  | l :: lines =>
      if l.length + 2 < 18 then lengthField lines
      else match fieldValue (l ++ crlf) with
        | some (some value) => some value
        | _ => lengthField lines

/-- The length of the body that these lines announce. -/
def bodyLen (lines : List Text) : ℕ :=
  match lengthField lines with
  | none => 0
  | some value => ((atoi value).getD 0).toNat

/-- The announced length fits the array it is copied to, and is an `int`. -/
def LengthOk (lines : List Text) : Prop :=
  ∀ value, lengthField lines = some value →
    FitsScratch value ∧ ∃ n : ℕ, n < 2 ^ 31 ∧ atoi value = some n

/-- The offsets of lines that start at `p`. -/
def spans : ℕ → List Text → List Strpos
  | _, [] => []
  | p, l :: lines => ⟨p, (p + (l.length + 2) : ℕ)⟩ :: spans (p + (l.length + 2)) lines

theorem linesText_concat (lines : List Text) (l : Text) :
    linesText (lines ++ [l]) = linesText lines ++ (l ++ crlf) := by
  simp [linesText]

theorem spans_concat (p : ℕ) (lines : List Text) (l : Text) :
    spans p (lines ++ [l]) = spans p lines ++
      [⟨(p + (linesText lines).length : ℕ), (p + (linesText (lines ++ [l])).length : ℕ)⟩] := by
  induction lines generalizing p with
  | nil => simp [spans, linesText, crlf]
  | cons l' lines ih =>
      have hlen (ls : List Text) : (linesText (l' :: ls)).length =
          l'.length + 2 + (linesText ls).length := by
        simp only [linesText, List.flatMap_cons, List.length_append]
        rfl
      rw [List.cons_append, spans, spans, ih, hlen, hlen]
      simp only [List.cons_append, Nat.add_assoc]

namespace Reading

/-- The bytes of the message among those read. -/
def text : Reading → Text
  | first t => t
  | second a t => a ++ sp :: t
  | third a b t => a ++ sp :: (b ++ sp :: t)
  | head a b c lines t => startText a b c ++ (linesText lines ++ t)
  | body a b c lines t => startText a b c ++ (linesText lines ++ t.take (bodyLen lines))

/-- The bytes that were read and lie behind the message. -/
def rest : Reading → Text
  | body _ _ _ lines t => t.drop (bodyLen lines)
  | _ => []

/-- The fields for three complete tokens. -/
def startFields (line : StartLine) (a b c : Text) : HttpRecvMsg :=
  { HttpRecvMsg.blank line .empty with
    first := ⟨0, a.length⟩
    second := ⟨(a.length + 1 : ℕ), (a.length + 1 + b.length : ℕ)⟩
    third := ⟨(a.length + 1 + b.length + 1 : ℕ), (a.length + 1 + b.length + 1 + c.length : ℕ)⟩ }

/-- The fields behind the empty line, before the body is looked at. -/
def headFields (line : StartLine) (a b c : Text) (lines : List Text) : HttpRecvMsg :=
  let start := (startText a b c).length
  let fin := start + (linesText lines).length
  { startFields line a b c with
    flag := .body
    header := ⟨start, fin⟩
    header2 := ⟨(fin - 2 : ℤ), fin⟩
    headerVec := spans start lines }

/-- The fields of a message, its buffer apart. -/
def fields (line : StartLine) : Reading → HttpRecvMsg
  | first _ => HttpRecvMsg.blank line .empty
  | second a _ =>
      { HttpRecvMsg.blank line .empty with
        flag := line.second
        first := ⟨0, a.length⟩
        second := ⟨(a.length + 1 : ℕ), 0⟩ }
  | third a b t =>
      { HttpRecvMsg.blank line .empty with
        flag := line.third
        first := ⟨0, a.length⟩
        second := ⟨(a.length + 1 : ℕ), (a.length + 1 + b.length : ℕ)⟩
        third := ⟨(a.length + 1 + b.length + 1 : ℕ), 0⟩
        assistflag := t.getLast? = some cr }
  | head a b c lines t =>
      let start := (startText a b c).length
      let fin := start + (linesText lines).length
      { startFields line a b c with
        flag := .head
        header := ⟨start, if lines = [] then 0 else fin⟩
        header2 := ⟨fin, 0⟩
        headerVec := spans start lines
        assistflag := t.getLast? = some cr }
  | body a b c lines t =>
      let fin := (startText a b c).length + (linesText lines).length
      if t = [] then headFields line a b c lines
      else if bodyLen lines = 0 then
        { headFields line a b c lines with flag := .over, bodysize := 0 }
      else if t.length < bodyLen lines then
        { headFields line a b c lines with bodysize := bodyLen lines, body := ⟨fin, 0⟩ }
      else
        { headFields line a b c lines with
          flag := .over
          bodysize := bodyLen lines
          body := ⟨fin, (fin + bodyLen lines : ℕ)⟩ }

/-- The length of the body, where it is looked up, is as it should be. -/
def LengthOk : Reading → Prop
  | body _ _ _ lines t => t ≠ [] → Http.LengthOk lines
  | _ => True

/-- The message is where a parser should be after `r`. -/
structure Shows (line : StartLine) (r : Reading) (m : HttpRecvMsg) : Prop where
  text_eq : m.buffer.contents = r.text
  offset_eq : m.buffer.offset = 0
  fields_eq : m = { r.fields line with buffer := m.buffer }

end Reading

/-! ## The message and what lies behind it -/

theorem readHead_text_append_rest (a b c : Text) (lines : List Text) (s : Text) :
    (readHead a b c lines s).text ++ (readHead a b c lines s).rest =
      startText a b c ++ (linesText lines ++ s) := by
  induction lines, s using readHead.induct with
  | case1 lines s hcut =>
      rw [readHead_of_none hcut]
      exact List.append_nil _
  | case2 lines s r hcut =>
      rw [readHead_of_some hcut, if_pos rfl, cutPair_split hcut]
      simp only [Reading.text, Reading.rest, linesText_concat, List.append_assoc,
        List.take_append_drop]
      rfl
  | case3 lines s l r hcut hl ih =>
      rw [readHead_of_some hcut, if_neg hl, ih, linesText_concat, cutPair_split hcut]
      simp only [List.append_assoc]
      rfl

theorem readThird_text_append_rest (a b s : Text) :
    (readThird a b s).text ++ (readThird a b s).rest = a ++ sp :: (b ++ sp :: s) := by
  cases hcut : cutPair cr lf s with
  | none =>
      simp only [readThird, hcut]
      exact List.append_nil _
  | some p =>
      obtain ⟨c, r⟩ := p
      simp only [readThird, hcut]
      rw [readHead_text_append_rest, cutPair_split hcut]
      simp [startText, linesText, crlf]

theorem readSecond_text_append_rest (a s : Text) :
    (readSecond a s).text ++ (readSecond a s).rest = a ++ sp :: s := by
  cases hcut : cutAt sp s with
  | none =>
      simp only [readSecond, hcut]
      exact List.append_nil _
  | some p =>
      simp only [readSecond, hcut]
      rw [readThird_text_append_rest, (cutAt_split hcut).1]

theorem text_append_rest (s : Text) : (read s).text ++ (read s).rest = s := by
  cases hcut : cutAt sp s with
  | none =>
      simp only [read, hcut]
      exact List.append_nil _
  | some p =>
      simp only [read, hcut]
      rw [readSecond_text_append_rest, (cutAt_split hcut).1]

theorem text_read_le (s : Text) : (read s).text.length ≤ s.length := by
  have hsplit := congrArg List.length (text_append_rest s)
  rw [List.length_append] at hsplit
  omega

end Http

end Slience
