import Slience.Netio.HttpParse

/-!
# Feeding a message in chunks

The owner of a message gives it one received chunk after the other until it is over.
-/

namespace Slience

/-- The pieces lie one behind the other between two offsets. -/
def Http.Lined : ℤ → List Strpos → ℤ → Prop
  | beg, [], fin => beg ≤ fin
  | beg, p :: ps, fin => beg ≤ p.beg ∧ p.beg ≤ p.fin ∧ Http.Lined p.fin ps fin

namespace HttpRecvMsg

/-- The message after these chunks, and how many bytes each call has taken.  No call is
made any more once the message is over. -/
def feed (line : StartLine) : HttpRecvMsg → List Http.Text → Option (HttpRecvMsg × List ℕ)
  | m, [] => some (m, [])
  | m, c :: chunks => do
      let (m, k) ← parse line m c
      if m.flag = .over then return (m, [k])
      else
        let (m, ks) ← feed line m chunks
        return (m, k :: ks)

/-- All offsets of a message. -/
def offsets (m : HttpRecvMsg) : List Strpos :=
  [m.first, m.second, m.third, m.header, m.header2, m.body] ++ m.headerVec

/-- The pieces whose end was recorded, in the order of the text. -/
def recorded (m : HttpRecvMsg) : List Strpos :=
  ([m.first, m.second, m.third] ++ m.headerVec ++ [m.body]).filter fun p ↦ p.fin ≠ 0

/-- All offsets lie inside the buffer, and the recorded pieces are in order. -/
structure Ordered (m : HttpRecvMsg) : Prop where
  inside : ∀ p ∈ m.offsets, 0 ≤ p.beg ∧ p.beg ≤ m.buffer.pos.toNat ∧
    0 ≤ p.fin ∧ p.fin ≤ m.buffer.pos.toNat
  lined : Http.Lined 0 m.recorded m.buffer.pos.toNat

end HttpRecvMsg

namespace Http

open HttpRecvMsg

/-! ## Longer readings -/

namespace Reading

theorem extend_append (r : Reading) (x y : Text) :
    (r.extend x).extend y = r.extend (x ++ y) := by
  cases r with
  | first t => rw [extend, extend, ← read_append, List.append_assoc]
  | second a t => rw [extend, extend, readSecond_extend, List.append_assoc]
  | third a b t => rw [extend, extend, readThird_extend, List.append_assoc]
  | head a b c lines t => rw [extend, extend, readHead_extend, List.append_assoc]
  | body a b c lines t => rw [extend, extend, extend, List.append_assoc]

theorem extend_nil {r : Reading} (h : r.Open) : r.extend [] = r := by
  cases r with
  | first t => rw [extend, List.append_nil, read, cutAt_of_notMem h]
  | second a t => rw [extend, List.append_nil, readSecond, cutAt_of_notMem h]
  | third a b t =>
      have hcut : cutPair cr lf t = none := h
      rw [extend, List.append_nil, readThird, hcut]
  | head a b c lines t => rw [extend, List.append_nil, readHead_of_none h]
  | body a b c lines t => rw [extend, List.append_nil]

theorem open_extend (r : Reading) (x : Text) : (r.extend x).Open := by
  cases r with
  | first t => exact open_read _
  | second a t => exact open_readSecond _ _
  | third a b t => exact open_readThird _ _ _
  | head a b c lines t => exact open_readHead _ _ _ _ _
  | body a b c lines t => trivial

theorem LengthOk.of_extend {r : Reading} {x : Text} (h : (r.extend x).LengthOk) :
    r.LengthOk := by
  cases r with
  | body a b c lines t => exact fun ht ↦ h (List.append_ne_nil_of_left_ne_nil ht x)
  | _ => trivial

theorem le_text_extend {r : Reading} (h : r.Open) (x : Text) :
    r.text.length ≤ (r.extend x).text.length := by
  cases r with
  | first t =>
      have hcut := cutAt_append_of_none h x
      change t.length ≤ (read (t ++ x)).text.length
      by_cases hsp : sp ∈ x
      · obtain ⟨u, r, rfl, hu⟩ := List.eq_append_cons_of_mem hsp
        rw [cutAt_append_cons hu, Option.map_some, Prod.map] at hcut
        have hle := le_text_readSecond (a := t ++ u) (t := []) (by simp) r
        rw [List.length_append, List.nil_append] at hle
        simp only [read, hcut, id]
        omega
      · rw [cutAt_of_notMem hsp, Option.map_none] at hcut
        simp only [read, hcut, text, List.length_append]
        omega
  | second a t =>
      have hle := le_text_readSecond (a := a) h x
      change (a ++ sp :: t).length ≤ (readSecond a (t ++ x)).text.length
      rw [List.length_append, List.length_cons]
      omega
  | third a b t =>
      have hle := le_text_readThird (a := a) (b := b) h x
      change (a ++ sp :: (b ++ sp :: t)).length ≤ (readThird a b (t ++ x)).text.length
      rw [List.length_append, List.length_cons, List.length_append, List.length_cons]
      omega
  | head a b c lines t =>
      change (startText a b c ++ (linesText lines ++ t)).length ≤
        (readHead a b c lines (t ++ x)).text.length
      rw [List.length_append, List.length_append]
      cases hcut : cutPair cr lf (t ++ x) with
      | none =>
          rw [readHead_of_none hcut]
          simp only [text, List.length_append]
          omega
      | some p =>
          obtain ⟨l, r⟩ := p
          obtain ⟨-, k, -, -, htake, -⟩ := seekCrlf_of_some h hcut
          have hcount := congrArg List.length htake
          rw [List.length_append] at hcount
          rw [readHead_of_some hcut]
          split
          · simp only [text, linesText_concat, List.length_append] at hcount ⊢
            omega
          · have hle := le_text_readHead a b c (lines ++ [l]) r
            rw [linesText_concat, List.length_append] at hle
            omega
  | body a b c lines t =>
      simp only [extend, text, List.length_append, List.length_take]
      omega

end Reading

theorem feed_shows {line : StartLine} {chunks : List Text} {r : Reading} {m : HttpRecvMsg}
    (hm : r.Shows line m) (hopen : r.Open) (hflag : m.flag ≠ .over)
    (hok : (r.extend chunks.flatten).LengthOk)
    (hsize : (r.extend chunks.flatten).text.length < 2 ^ 31) :
    ∃ m' ks, feed line m chunks = some (m', ks) ∧
      (r.extend chunks.flatten).Shows line m' ∧
      ks.dropLast = (chunks.map List.length).take (ks.length - 1) ∧
      (m'.flag ≠ .over → ks = chunks.map List.length) := by
  induction chunks generalizing r m with
  | nil =>
      rw [List.flatten_nil, Reading.extend_nil hopen]
      exact ⟨m, [], rfl, hm, rfl, fun _ ↦ rfl⟩
  | cons c chunks ih =>
      rw [List.flatten_cons, ← Reading.extend_append] at hok hsize ⊢
      have hopen' := r.open_extend c
      obtain ⟨m₁, k, hparse, hm₁, -, -, hall⟩ := parse_reaches hm hopen hflag hok.of_extend
        (lt_of_le_of_lt (Reading.le_text_extend hopen' _) hsize)
      rw [feed, hparse]
      by_cases hover : m₁.flag = .over
      · refine ⟨m₁, [k], by simp [hover], hm₁.extend_of_over hover _, by simp, ?_⟩
        exact fun h ↦ absurd hover h
      · obtain ⟨m', ks, hfeed, hm', hlast, hcounts⟩ := ih hm₁ hopen' hover hok hsize
        refine ⟨m', k :: ks, by simp [hover, hfeed], hm', ?_, ?_⟩
        · cases ks with
          | nil => simp
          | cons k' ks =>
              simp only [List.dropLast_cons_cons, List.map_cons, List.length_cons,
                Nat.add_sub_cancel, List.take_succ_cons, hall hover] at hlast ⊢
              rw [hlast]
        · intro h
          rw [hcounts h, hall hover, List.map_cons]

/-! ## The offsets -/

theorem Lined.mono {beg beg' fin fin' : ℤ} {ps : List Strpos} (h : Lined beg ps fin)
    (hbeg : beg' ≤ beg) (hfin : fin ≤ fin') : Lined beg' ps fin' := by
  induction ps generalizing beg beg' with
  | nil => exact hbeg.trans (h.trans hfin)
  | cons p ps ih => exact ⟨hbeg.trans h.1, h.2.1, ih h.2.2 le_rfl⟩

theorem Lined.append {beg mid fin : ℤ} {ps qs : List Strpos} (h : Lined beg ps mid)
    (h' : Lined mid qs fin) : Lined beg (ps ++ qs) fin := by
  induction ps generalizing beg with
  | nil => exact h'.mono h le_rfl
  | cons p ps ih => exact ⟨h.1, h.2.1, ih h.2.2⟩

theorem Lined.filter {beg fin : ℤ} {ps : List Strpos} (h : Lined beg ps fin)
    (q : Strpos → Bool) : Lined beg (ps.filter q) fin := by
  induction ps generalizing beg with
  | nil => exact h
  | cons p ps ih =>
      rw [List.filter_cons]
      split
      · exact ⟨h.1, h.2.1, ih h.2.2⟩
      · exact (ih h.2.2).mono (h.1.trans h.2.1) le_rfl

theorem length_linesText_cons (l : Text) (lines : List Text) :
    (linesText (l :: lines)).length = l.length + 2 + (linesText lines).length := by
  simp only [linesText, List.flatMap_cons, List.length_append]
  rfl

theorem lined_spans (p : ℕ) (lines : List Text) :
    Lined p (spans p lines) (p + (linesText lines).length : ℕ) := by
  induction lines generalizing p with
  | nil => exact Int.ofNat_le.mpr (Nat.le_add_right _ _)
  | cons l lines ih =>
      have hrest := ih (p + (l.length + 2))
      rw [length_linesText_cons]
      refine ⟨le_rfl, by dsimp only; omega, hrest.mono le_rfl (by omega)⟩

theorem Lined.inside {beg fin : ℤ} {ps : List Strpos} (h : Lined beg ps fin) {p : Strpos}
    (hp : p ∈ ps) : beg ≤ p.beg ∧ p.beg ≤ p.fin ∧ p.fin ≤ fin := by
  have hle : ∀ {beg : ℤ} {ps : List Strpos}, Lined beg ps fin → beg ≤ fin := by
    intro beg ps h
    induction ps generalizing beg with
    | nil => exact h
    | cons p ps ih => exact h.1.trans (h.2.1.trans (ih h.2.2))
  induction ps generalizing beg with
  | nil => cases hp
  | cons q ps ih =>
      rcases List.mem_cons.mp hp with rfl | hp
      · exact ⟨h.1, h.2.1, hle h.2.2⟩
      · obtain ⟨h₁, h₂, h₃⟩ := ih h.2.2 hp
        exact ⟨h.1.trans (h.2.1.trans h₁), h₂, h₃⟩

theorem length_startText (a b c : Text) :
    (startText a b c).length = a.length + 1 + b.length + 1 + c.length + 2 := by
  simp [startText, crlf]
  omega

theorem lined_pieces (line : StartLine) (a b c : Text) (lines : List Text) :
    Lined 0 ([(Reading.startFields line a b c).first, (Reading.startFields line a b c).second,
      (Reading.startFields line a b c).third] ++ spans (startText a b c).length lines)
      ((startText a b c).length + (linesText lines).length : ℕ) := by
  have hstart := length_startText a b c
  refine Lined.append ?_ (lined_spans (startText a b c).length lines)
  simp only [Reading.startFields, Lined]
  omega

theorem lined_recorded {m : HttpRecvMsg} {l : List Strpos} {fin : ℤ}
    (h : m.recorded = l.filter fun p ↦ p.fin ≠ 0) (hl : Lined 0 l fin) :
    Lined 0 m.recorded fin := by
  rw [h]
  exact hl.filter _

theorem recorded_of_body {m : HttpRecvMsg} (h : m.body.fin = 0) :
    m.recorded = ([m.first, m.second, m.third] ++ m.headerVec).filter fun p ↦ p.fin ≠ 0 := by
  rw [recorded, List.filter_append, List.filter_cons_of_neg (by simp [h])]
  simp

theorem fields_body (line : StartLine) (a b c : Text) (lines : List Text) (t : Text) :
    ∃ (p : Strpos) (flag : ParseFlag) (n : ℤ), (Reading.body a b c lines t).fields line =
        { Reading.headFields line a b c lines with flag := flag, bodysize := n, body := p } ∧
      ((t = [] ∨ bodyLen lines = 0) ∧ p = ⟨0, 0⟩ ∨
        t.length < bodyLen lines ∧
          p = ⟨((startText a b c).length + (linesText lines).length : ℕ), 0⟩ ∨
        bodyLen lines ≤ t.length ∧
          p = ⟨((startText a b c).length + (linesText lines).length : ℕ),
            ((startText a b c).length + (linesText lines).length + bodyLen lines : ℕ)⟩) := by
  simp only [Reading.fields]
  split
  · rename_i ht
    exact ⟨_, _, _, rfl, Or.inl ⟨Or.inl ht, rfl⟩⟩
  · split
    · rename_i hzero
      exact ⟨_, _, _, rfl, Or.inl ⟨Or.inr hzero, rfl⟩⟩
    · split
      · rename_i hlen
        exact ⟨_, _, _, rfl, Or.inr (Or.inl ⟨hlen, rfl⟩)⟩
      · exact ⟨_, _, _, rfl, Or.inr (Or.inr ⟨by omega, rfl⟩)⟩

theorem Reading.Shows.ordered {line : StartLine} {r : Reading} {m : HttpRecvMsg}
    (hm : r.Shows line m) : m.Ordered := by
  have hpos : m.buffer.pos.toNat = r.text.length := by
    rw [← Buffer.length_contents, hm.text_eq]
  have hm' := hm.fields_eq
  cases r with
  | first t =>
      constructor
      · rw [hpos, hm']
        simp [offsets, Reading.fields, HttpRecvMsg.blank]
      · rw [hpos]
        apply lined_recorded (l := [])
        · rw [hm']
          rfl
        · simp [Lined]
  | second a t =>
      simp only [Reading.text, List.length_append, List.length_cons] at hpos
      constructor
      · rw [hpos, hm']
        simp [offsets, Reading.fields, HttpRecvMsg.blank]
        omega
      · rw [hpos]
        apply lined_recorded (l := [⟨0, a.length⟩])
        · rw [hm']
          rfl
        · simp only [Lined]
          omega
  | third a b t =>
      simp only [Reading.text, List.length_append, List.length_cons] at hpos
      constructor
      · rw [hpos, hm']
        simp [offsets, Reading.fields, HttpRecvMsg.blank]
        omega
      · rw [hpos]
        apply lined_recorded
          (l := [⟨0, a.length⟩, ⟨(a.length + 1 : ℕ), (a.length + 1 + b.length : ℕ)⟩])
        · rw [hm']
          rfl
        · simp only [Lined]
          omega
  | head a b c lines t =>
      have hstart := length_startText a b c
      have hlined := lined_pieces line a b c lines
      simp only [Reading.text, List.length_append] at hpos
      constructor
      · rw [hpos]
        intro p hp
        rw [hm'] at hp
        simp only [offsets, Reading.fields, Reading.startFields, HttpRecvMsg.blank,
          List.mem_append, List.mem_cons, List.not_mem_nil, or_false] at hp
        rcases hp with (rfl | rfl | rfl | rfl | rfl | rfl) | hp
        · dsimp only; omega
        · dsimp only; omega
        · dsimp only; omega
        · dsimp only; split <;> omega
        · dsimp only; omega
        · dsimp only; omega
        · have := hlined.inside (List.mem_append_right _ hp)
          omega
      · rw [hpos]
        refine lined_recorded (recorded_of_body ?_) ?_
        · rw [hm']
          rfl
        · rw [hm']
          exact hlined.mono le_rfl (by omega)
  | body a b c lines t =>
      have hstart := length_startText a b c
      have hlined := lined_pieces line a b c lines
      obtain ⟨p, flag, n, hfields, hp⟩ := fields_body line a b c lines t
      simp only [Reading.text, List.length_append, List.length_take] at hpos
      rw [hfields] at hm'
      constructor
      · rw [hpos]
        intro q hq
        rw [hm'] at hq
        simp only [offsets, Reading.headFields, Reading.startFields, HttpRecvMsg.blank,
          List.mem_append, List.mem_cons, List.not_mem_nil, or_false] at hq
        rcases hq with (rfl | rfl | rfl | rfl | rfl | rfl) | hq
        · dsimp only; omega
        · dsimp only; omega
        · dsimp only; omega
        · dsimp only; omega
        · dsimp only; omega
        · rcases hp with ⟨-, rfl⟩ | ⟨-, rfl⟩ | ⟨hle, rfl⟩ <;> dsimp only <;> omega
        · have := hlined.inside (List.mem_append_right _ hq)
          omega
      · rw [hpos]
        rcases hp with ⟨-, rfl⟩ | ⟨-, rfl⟩ | ⟨hle, rfl⟩
        · refine lined_recorded (recorded_of_body ?_) ?_
          · rw [hm']
          · rw [hm']
            exact hlined.mono le_rfl (by omega)
        · refine lined_recorded (recorded_of_body ?_) ?_
          · rw [hm']
          · rw [hm']
            exact hlined.mono le_rfl (by omega)
        · refine lined_recorded rfl ?_
          rw [hm']
          refine hlined.append ?_
          simp only [Lined]
          omega

/-! ## Every chunking -/

theorem shows_new (line : StartLine) : (Reading.first []).Shows line (new line) :=
  ⟨rfl, rfl, rfl⟩

theorem flag_new_ne_over (line : StartLine) : (new line).flag ≠ .over := by
  have hnodup := line.nodup
  intro h
  change line.first = .over at h
  simp [h] at hnodup

/-- Fed with these chunks, a new message ends as the reading of the whole text says, and
each call before the message is over takes its whole chunk. -/
def ParsesAs (line : StartLine) (chunks : List Text) : Prop :=
  ∃ m ks, feed line (new line) chunks = some (m, ks) ∧
    (read chunks.flatten).Shows line m ∧ m.Ordered ∧
    ks.dropLast = (chunks.map List.length).take (ks.length - 1) ∧
    (m.flag ≠ .over → ks = chunks.map List.length)

/-- Every chunking of a text whose message is shorter than `2 ^ 31` bytes. -/
theorem parse_chunks (line : StartLine) (chunks : List Text)
    (hok : (read chunks.flatten).LengthOk)
    (hsize : (read chunks.flatten).text.length < 2 ^ 31) : ParsesAs line chunks := by
  have hread : read chunks.flatten = (Reading.first []).extend chunks.flatten := rfl
  rw [hread] at hok hsize
  obtain ⟨m, ks, hfeed, hm, hlast, hall⟩ := feed_shows (shows_new line) (by simp [Reading.Open])
    (flag_new_ne_over line) hok hsize
  exact ⟨m, ks, hfeed, hm, hm.ordered, hlast, hall⟩

/-- `"G / H\r" | "\nContent-Length: 1\r\n\r" | "\nx" | "y"` -/
def sampleChunks : List Text :=
  [[71, 32, 47, 32, 72, 13], lf :: constr ++ [49, 13, 10, 13], [10, 120], [121]]

theorem read_sampleChunks : read sampleChunks.flatten =
    .body [71] [47] [72] [constr ++ [49], []] [120, 121] := by
  have hfirst : readHead [71] [47] [72] [] (constr ++ [49, 13, 10, 13, 10, 120, 121]) =
      readHead [71] [47] [72] [constr ++ [49]] [13, 10, 120, 121] := by
    rw [readHead_of_some (l := constr ++ [49]) (r := [13, 10, 120, 121]) (by decide)]
    rfl
  have hsecond : readHead [71] [47] [72] [constr ++ [49]] [13, 10, 120, 121] =
      .body [71] [47] [72] [constr ++ [49], []] [120, 121] := by
    rw [readHead_of_some (l := []) (r := [120, 121]) (by decide)]
    rfl
  rw [← hsecond, ← hfirst]
  rfl

theorem parse_chunks_sampleChunks : ParsesAs .svrRecv sampleChunks := by
  have hfield : lengthField [constr ++ [49], []] = some [49] := by decide
  refine parse_chunks .svrRecv sampleChunks ?_ ?_
  · rw [read_sampleChunks]
    intro _ value hvalue
    cases hfield.symm.trans hvalue
    exact ⟨by decide, 1, by decide, by decide⟩
  · rw [read_sampleChunks]
    decide

/-- A token that fills the buffer up to `2 ^ 31 - 1` bytes and ends two bytes later. -/
theorem parseFirst_huge {m : HttpRecvMsg} (hpos : m.buffer.pos.toNat = 2 ^ 31 - 1) :
    ∃ m', parseFirst .svrRecv m [65, 32] = some (m', 2) ∧ m'.first.fin = -2 ^ 31 ∧
      m'.flag = .url := by
  obtain ⟨b, hwrite, hb⟩ := m.buffer.write_spec
    (show (2 : UInt32).toNat ≤ [65, 32].length by decide) (by rw [hpos]; decide)
  have hpos' : b.pos.toNat = 2 ^ 31 + 1 := by
    rw [← Buffer.length_contents, hb.contents_eq, List.length_append, Buffer.length_contents, hpos]
    rfl
  have hpos'' : b.pos = 2147483649 := UInt32.toNat_inj.mp hpos'
  have hsize : b.sizeInt = -2 ^ 31 + 1 := by
    rw [Buffer.sizeInt, hpos'']
    decide
  have hfin : addInt (-2 ^ 31 + 1) (-1) = some (-2 ^ 31) := by decide
  have hfound : parse1 [65, 32] sp = (2, true) := by decide
  have happend : m.append [65, 32] 2 = some { m with buffer := b } := by
    rw [append, show UInt32.ofNat 2 = 2 from rfl, hwrite]
    rfl
  refine ⟨{ m with
    buffer := b
    first := { m.first with fin := -2 ^ 31 }
    flag := .url
    second := { m.second with beg := -2 ^ 31 + 1 } }, ?_, rfl, rfl⟩
  rw [parseFirst, hfound]
  simp only [happend, Option.bind_eq_bind, Option.bind_some, if_true, hsize, hfin, parseSecond,
    List.drop_succ_cons, List.drop_zero]
  rfl

theorem notMem_replicate_sp (n : ℕ) : sp ∉ List.replicate n (65 : Byte) := by
  rw [List.mem_replicate]
  exact fun h ↦ absurd h.2 (by decide)

theorem read_huge (n : ℕ) : read [List.replicate n 65, [65, 32]].flatten =
    .second (List.replicate n 65 ++ [65]) [] := by
  have hcut : cutAt sp [List.replicate n 65, [65, 32]].flatten =
      some (List.replicate n 65 ++ [65], []) := by
    rw [List.flatten_cons, cutAt_append_of_none (notMem_replicate_sp n)]
    rfl
  simp only [read, hcut]
  rfl

/-- The end of a first token of `2 ^ 31` bytes is recorded as a negative offset. -/
theorem not_parsesAs_huge {n : ℕ} (hn : n = 2 ^ 31 - 1) :
    ¬ ParsesAs .svrRecv [List.replicate n 65, [65, 32]] := by
  have hextend : (Reading.first []).extend (List.replicate n 65) =
      .first (List.replicate n 65) := by
    rw [Reading.extend, List.nil_append, read, cutAt_of_notMem (notMem_replicate_sp n)]
  have hsize : (Reading.first (List.replicate n 65)).text.length < 2 ^ 31 := by
    rw [Reading.text, List.length_replicate]
    omega
  obtain ⟨m₁, k, hparse, ⟨htext, -, hfields⟩, -⟩ := parse_reaches (shows_new .svrRecv)
    (by simp [Reading.Open]) (flag_new_ne_over .svrRecv) (hextend ▸ trivial) (hextend ▸ hsize)
  rw [hextend] at htext hfields
  have hflag : m₁.flag = .method := by
    rw [hfields]
    rfl
  have hpos : m₁.buffer.pos.toNat = 2 ^ 31 - 1 := by
    rw [← Buffer.length_contents, htext, Reading.text, List.length_replicate, hn]
  obtain ⟨m₂, hsecond, hfin, hflag₂⟩ := parseFirst_huge hpos
  have hparse₂ : parse .svrRecv m₁ [65, 32] = some (m₂, 2) := by
    rw [parse, if_neg (by simp [hflag]), if_pos (by rw [hflag]; rfl), hsecond]
  rintro ⟨m, ks, hfeed, -, hordered, -⟩
  rw [feed, hparse] at hfeed
  simp only [feed, hparse₂, Option.bind_eq_bind, Option.bind_some, hflag, hflag₂] at hfeed
  cases hfeed
  have hinside := hordered.inside m₂.first (by simp [offsets])
  omega

theorem parse_chunks_fails :
    (read [List.replicate (2 ^ 31 - 1) 65, [65, 32]].flatten).LengthOk ∧
      ¬ ParsesAs .svrRecv [List.replicate (2 ^ 31 - 1) 65, [65, 32]] := by
  refine ⟨?_, not_parsesAs_huge rfl⟩
  rw [read_huge]
  trivial

end Http

end Slience
