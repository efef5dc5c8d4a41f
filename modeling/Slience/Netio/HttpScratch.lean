import Slience.Netio.HttpLength

/-!
# The array for the length of a body

`_CheckContentLen` copies the number to an array of eleven zeros before `atoi` reads it.
`copyLines` keeps the places that the copy loop reads and writes: it reads in its
header line only, but it writes as many bytes as the line has in front of its next CR.
-/

namespace Slience

namespace Http

open HttpRecvMsg

/-- The copy loop of `_CheckContentLen` over the memory from `*pbeg` on: the offsets it
reads, and the cells of `pbuf` it writes. -/
def copyLoop (pbeg : ℤ) (pbuf : ℕ) : List Byte → List ℤ × List (ℕ × Byte)
  | [] => ([pbeg], [])
  | b :: text =>
      if b = cr then ([pbeg], [])
      else
        let (reads, writes) := copyLoop (pbeg + 1) (pbuf + 1) text
        (pbeg :: reads, (pbuf, b) :: writes)

/-- A header line that is copied, with the accesses of the loop. -/
structure LineCopy where
  iter : Strpos
  reads : List ℤ
  writes : List (ℕ × Byte)
  deriving DecidableEq

/-- The loop over the header lines with the accesses of the copy loop, or `none` inside when
no line is copied. -/
def copyLines (buffer : Buffer) : List Strpos → Option (Option LineCopy)
  | [] => some none
  | iter :: rest => do
      let len ← addInt iter.fin (-iter.beg)
      if len < 18 then copyLines buffer rest
      else
        let text ← buffer.dataFrom iter.beg
        let (psrc, pbeg) ← scanName constr text
        if psrc.head? = some sp then
          let copied := copyLoop (iter.beg + (text.length - pbeg.tail.length : ℕ)) 0 pbeg.tail
          some (some ⟨iter, copied.1, copied.2⟩)
        else copyLines buffer rest

/-- The array after these writes. -/
def scratch (writes : List (ℕ × Byte)) : List Byte :=
  writes.foldl (fun cells w ↦ cells.set w.1 w.2) (List.replicate 11 0)

/-- The loop writes inside the array, leaves a NUL in it, and reads in its line. -/
structure LineCopy.Inside (c : LineCopy) : Prop where
  writes : ∀ w ∈ c.writes, w.1 < 11
  terminated : 0 ∈ scratch c.writes
  reads : ∀ i ∈ c.reads, c.iter.beg ≤ i ∧ i < c.iter.fin

/-- What `_CheckContentLen` copies, if anything, is copied inside. -/
def CopiesInside (m : HttpRecvMsg) : Prop :=
  ∃ copy, copyLines m.buffer m.headerVec = some copy ∧ ∀ c ∈ copy, c.Inside

theorem exists_append_cr (u y : Text) :
    ∃ y', u ++ cr :: y = u.takeWhile (· ≠ cr) ++ cr :: y' := by
  induction u with
  | nil => exact ⟨y, rfl⟩
  | cons b u ih =>
      by_cases hb : b = cr
      · subst hb
        exact ⟨u ++ cr :: y, by simp⟩
      · obtain ⟨y', hy'⟩ := ih
        refine ⟨y', ?_⟩
        rw [List.cons_append, hy', List.takeWhile_cons_of_pos (by simpa using hb)]
        rfl

section CopyLoop

variable {value y : Text} (hvalue : cr ∉ value)
include hvalue

theorem mem_copyLoop {pbeg i : ℤ} {pbuf : ℕ}
    (h : i ∈ (copyLoop pbeg pbuf (value ++ cr :: y)).1) :
    pbeg ≤ i ∧ i ≤ pbeg + value.length := by
  induction value generalizing pbeg pbuf with
  | nil =>
      simp only [List.nil_append, copyLoop, if_true, List.mem_singleton] at h
      simp [h]
  | cons b value ih =>
      rw [List.mem_cons, not_or] at hvalue
      rw [List.cons_append, copyLoop, if_neg (Ne.symm hvalue.1)] at h
      rw [List.length_cons]
      rcases List.mem_cons.mp h with rfl | h
      · omega
      · have hrest := ih hvalue.2 h
        omega

theorem copyLoop_writes (pbeg : ℤ) (pbuf : ℕ) :
    (copyLoop pbeg pbuf (value ++ cr :: y)).2 = (value.zipIdx pbuf).map Prod.swap := by
  induction value generalizing pbeg pbuf with
  | nil => simp [copyLoop]
  | cons b value ih =>
      rw [List.mem_cons, not_or] at hvalue
      rw [List.cons_append, copyLoop, if_neg (Ne.symm hvalue.1), List.zipIdx_cons, List.map_cons,
        ← ih hvalue.2]
      rfl

end CopyLoop

theorem foldl_set {cells value : List Byte} {pbuf : ℕ} (h : pbuf + value.length ≤ cells.length) :
    ((value.zipIdx pbuf).map Prod.swap).foldl (fun cells w ↦ cells.set w.1 w.2) cells =
      blit cells pbuf value := by
  induction value generalizing cells pbuf with
  | nil => simp [blit]
  | cons b value ih =>
      rw [List.length_cons] at h
      rw [List.zipIdx_cons, List.map_cons, List.foldl_cons, Prod.swap_prod_mk,
        ih (by rw [List.length_set]; omega), blit, blit]
      have htake : (cells.set pbuf b).take (pbuf + 1) = cells.take pbuf ++ [b] := by
        have hlen : (cells.take pbuf).length = pbuf := List.length_take_of_le (by omega)
        rw [List.take_set, List.take_add_one, List.getElem?_eq_getElem (by omega),
          List.set_append_right _ _ hlen.le, hlen, Nat.sub_self]
        rfl
      have hdrop : (cells.set pbuf b).drop (pbuf + 1 + value.length) =
          cells.drop (pbuf + (value.length + 1)) := by
        rw [List.drop_set, if_pos (by omega)]
        congr 1
        omega
      rw [htake, hdrop]
      simp

theorem scratch_eq {value : Text} (h : value.length ≤ 11) :
    scratch ((value.zipIdx 0).map Prod.swap) = value ++ List.replicate (11 - value.length) 0 := by
  rw [scratch, foldl_set (by simpa using h), blit, List.take_zero, List.nil_append, Nat.zero_add,
    List.drop_replicate]

theorem fitsScratch_iff (value : Text) :
    FitsScratch value ↔ (∀ w ∈ (value.zipIdx 0).map Prod.swap, w.1 < 11) ∧
      0 ∈ scratch ((value.zipIdx 0).map Prod.swap) := by
  have hwrites : (∀ w ∈ (value.zipIdx 0).map Prod.swap, w.1 < 11) ↔ value.length ≤ 11 := by
    constructor
    · intro h
      by_contra hlen
      have hmem : (value.get ⟨11, by omega⟩, 11) ∈ value.zipIdx 0 := by
        rw [List.mem_zipIdx_iff_getElem?]
        exact List.getElem?_eq_getElem _
      exact absurd (h _ (List.mem_map_of_mem hmem)) (lt_irrefl 11)
    · intro h w hw
      obtain ⟨⟨b, i⟩, hmem, rfl⟩ := List.mem_map.mp hw
      have hlt := (List.mem_zipIdx hmem).2.1
      change i < 11
      omega
  rw [hwrites]
  constructor
  · rintro (hshort | ⟨hlen, hnul⟩)
    · rw [scratch_eq (by omega)]
      refine ⟨by omega, List.mem_append_right _ ?_⟩
      exact List.mem_replicate.mpr ⟨by omega, rfl⟩
    · rw [scratch_eq hlen.le]
      exact ⟨hlen.le, List.mem_append_left _ hnul⟩
  · rintro ⟨hlen, hmem⟩
    rw [scratch_eq hlen] at hmem
    by_cases hshort : value.length ≤ 10
    · exact Or.inl hshort
    · have heq : value.length = 11 := by omega
      rw [heq] at hmem
      exact Or.inr ⟨heq, by simpa using hmem⟩

/-- The copy of the line `l` that starts at `p`. -/
def Copies (l : Text) (p : ℕ) (c : LineCopy) : Prop :=
  c.iter = ⟨p, (p + (l.length + 2) : ℕ)⟩ ∧
    ∃ y, (c.reads, c.writes) = copyLoop (p + 16) 0 (valueText l ++ cr :: y)

theorem copyLines_spans {b : Buffer} (hoffset : b.offset = 0)
    (hsize : b.contents.length < 2 ^ 31) {start post : Text} {lines : List Text}
    (h : b.contents = start ++ (linesText lines ++ post)) :
    match lines.find? (NamesLength ·) with
    | none => copyLines b (spans start.length lines) = some none
    | some l => 16 ≤ l.length ∧ ∃ p c, copyLines b (spans start.length lines) = some (some c) ∧
        Copies l p c := by
  induction lines generalizing start with
  | nil => rfl
  | cons l lines ih =>
      obtain ⟨hcons, hadd, y, hdata⟩ := line_at hoffset hsize h
      have hrest := ih hcons
      rw [List.length_append, List.length_append, length_crlf] at hrest
      rw [spans, copyLines, hadd, List.find?_cons]
      simp only [Option.bind_eq_bind, Option.bind_some]
      by_cases hlen : 16 ≤ l.length
      · obtain ⟨s, p, hscan, hnamed, hother⟩ := scanName_line (y := crlf ++ y) hlen
        rw [if_neg (by omega), hdata]
        simp only [Option.bind_some, hscan]
        by_cases hname : NamesLength l
        · obtain ⟨hs, rfl⟩ := hnamed hname
          have htail : (l.drop 15 ++ (crlf ++ y)).tail = l.drop 16 ++ (crlf ++ y) := by
            rw [List.tail_append_of_ne_nil, List.tail_drop]
            apply List.ne_nil_of_length_pos
            rw [List.length_drop]
            omega
          have hskipped : (l ++ (crlf ++ y)).length - (l.drop 16 ++ (crlf ++ y)).length = 16 := by
            simp only [List.length_append, List.length_drop]
            omega
          obtain ⟨y', hy'⟩ := exists_append_cr (l.drop 16) (lf :: y)
          simp only [if_pos hs, hname, decide_true, htail, hskipped]
          refine ⟨hlen, start.length, _, rfl, rfl, y', ?_⟩
          rw [valueText, ← hy']
          rfl
        · simp only [if_neg (hother hname), hname, decide_false]
          exact hrest
      · have hname : ¬ NamesLength l := fun h ↦ hlen h.1
        simp only [hname, decide_false]
        rw [if_pos (by omega)]
        exact hrest

theorem notMem_valueText (l : Text) : cr ∉ valueText l := by
  intro h
  have hne := List.mem_takeWhile_imp h
  simp at hne

theorem Copies.inside_iff {l : Text} {p : ℕ} {c : LineCopy} (h : Copies l p c)
    (hl : 16 ≤ l.length) : c.Inside ↔ FitsScratch (valueText l) := by
  obtain ⟨hiter, y, hcopy⟩ := h
  obtain ⟨hreads, hwrites⟩ := Prod.mk_inj.mp hcopy
  have hcr := notMem_valueText l
  rw [copyLoop_writes hcr] at hwrites
  rw [fitsScratch_iff, ← hwrites]
  constructor
  · intro hinside
    exact ⟨hinside.writes, hinside.terminated⟩
  · rintro ⟨hinside, hnul⟩
    refine ⟨hinside, hnul, ?_⟩
    intro i hi
    rw [hreads] at hi
    have hrange := mem_copyLoop hcr hi
    have hshort : (valueText l).length ≤ l.length - 16 := by
      rw [← List.length_drop]
      exact (List.takeWhile_prefix _).length_le
    rw [hiter]
    constructor
    · change (p : ℤ) ≤ i
      omega
    · change i < ((p + (l.length + 2) : ℕ) : ℤ)
      omega

theorem copyLines_of_shows {line : StartLine} {m : HttpRecvMsg} {a b c : Text}
    {lines : List Text} (hm : (Reading.body a b c lines []).Shows line m)
    (hsize : m.buffer.contents.length < 2 ^ 31) :
    match lines.find? (NamesLength ·) with
    | none => copyLines m.buffer m.headerVec = some none
    | some l => 16 ≤ l.length ∧ ∃ p copied,
        copyLines m.buffer m.headerVec = some (some copied) ∧ Copies l p copied := by
  have hvec : m.headerVec = spans (startText a b c).length lines := by
    rw [hm.fields_eq]
    rfl
  rw [hvec]
  exact copyLines_spans hm.offset_eq hsize hm.text_eq

theorem takeWhile_append_zeros (value : Text) (k : ℕ) :
    (value ++ List.replicate k 0).takeWhile (· ≠ 0) = value.takeWhile (· ≠ 0) := by
  induction value with
  | nil => cases k <;> simp [List.replicate_succ]
  | cons b value ih =>
      by_cases hb : b = 0
      · simp [hb]
      · rw [List.cons_append, List.takeWhile_cons_of_pos (by simpa using hb),
          List.takeWhile_cons_of_pos (by simpa using hb), ih]

theorem checkContentLen_eq_scratch {line : StartLine} {a b c : Text} {lines : List Text}
    {m : HttpRecvMsg} (hm : (Reading.body a b c lines []).Shows line m)
    (hsize : m.buffer.contents.length < 2 ^ 31) (h : CopiesInside m) :
    m.checkContentLen = (copyLines m.buffer m.headerVec).bind fun copy ↦
      match copy with
      | none => some 0
      | some copied => atoi ((scratch copied.writes).takeWhile (· ≠ 0)) := by
  have hcopy := copyLines_of_shows hm hsize
  rw [checkContentLen_eq hm hsize, readLength_eq]
  cases hfind : lines.find? (NamesLength ·) with
  | none =>
      rw [hfind] at hcopy
      rw [hcopy]
      rfl
  | some l =>
      rw [hfind] at hcopy
      obtain ⟨hl, p, copied, heq, hcopies⟩ := hcopy
      obtain ⟨copy, heq', hinside⟩ := h
      rw [heq] at heq'
      cases heq'
      have hfits := (hcopies.inside_iff hl).mp (hinside copied rfl)
      obtain ⟨-, y, hcopied⟩ := hcopies
      have hwrites := (Prod.mk_inj.mp hcopied).2
      have hle : (valueText l).length ≤ 11 := by
        rcases hfits with hshort | hlong
        · omega
        · omega
      rw [copyLoop_writes (notMem_valueText l)] at hwrites
      rw [heq]
      change readLen (valueText l) = atoi ((scratch copied.writes).takeWhile (· ≠ 0))
      rw [hwrites, scratch_eq hle, takeWhile_append_zeros, atoi_takeWhile, readLen, if_pos hfits]

theorem inside_iff_of_shows {line : StartLine} {m : HttpRecvMsg} {a b c : Text}
    {lines : List Text} (hm : (Reading.body a b c lines []).Shows line m)
    (hsize : m.buffer.contents.length < 2 ^ 31) : CopiesInside m ↔
      ∀ l, lines.find? (NamesLength ·) = some l → FitsScratch (valueText l) := by
  have hcopy := copyLines_of_shows hm hsize
  cases hfind : lines.find? (NamesLength ·) with
  | none =>
      rw [hfind] at hcopy
      constructor
      · intro _ l hl
        cases hl
      · exact fun _ ↦ ⟨none, hcopy, fun _ h ↦ by cases h⟩
  | some l =>
      rw [hfind] at hcopy
      obtain ⟨hl, p, copied, heq, hcopies⟩ := hcopy
      have hiff := hcopies.inside_iff hl
      constructor
      · rintro ⟨copy, heq', hinside⟩ l' hl'
        rw [heq] at heq'
        cases heq'
        cases hl'
        exact hiff.mp (hinside copied rfl)
      · intro h
        refine ⟨some copied, heq, ?_⟩
        intro c' hc'
        cases hc'
        exact hiff.mpr (h l rfl)

/-- The copy loop stays inside exactly when the value it copies fits the array. -/
theorem copiesInside_iff {line : StartLine} {chunks : List Text} {m : HttpRecvMsg}
    {ks : List ℕ} {a b c : Text} {lines : List Text}
    (hfeed : feed line (new line) chunks = some (m, ks))
    (hread : read chunks.flatten = .body a b c lines [])
    (hsize : (read chunks.flatten).text.length < 2 ^ 31) :
    CopiesInside m ↔
      ∀ l, lines.find? (NamesLength ·) = some l → FitsScratch (valueText l) := by
  obtain ⟨hm, hsmall⟩ := shows_of_feed hfeed hread hsize
  exact inside_iff_of_shows hm hsmall

theorem copiesInside_iff_bodyRequest :
    ∃ m ks, feed .svrRecv (new .svrRecv) [bodyRequest.header] = some (m, ks) ∧
      CopiesInside m := by
  obtain ⟨m, ks, hfeed⟩ := @feed_header .svrRecv _ wellFormed_bodyRequest (by decide)
  have hsize : (read [bodyRequest.header].flatten).text.length < 2 ^ 31 :=
    lt_of_le_of_lt (text_read_le _) (by decide)
  refine ⟨m, ks, hfeed, ?_⟩
  apply (copiesInside_iff hfeed (read_header wellFormed_bodyRequest) hsize).mpr
  intro l hl
  have hline : l = constr ++ [49] := (Option.some_inj.mp hl).symm
  subst hline
  decide

/-- `"P / H\r\nContent-Length: 00000000005\r\n\r\n"` -/
def paddedRequest : Request where
  method := [80]
  url := [47]
  version := [72]
  lines := [constr ++ [48, 48, 48, 48, 48, 48, 48, 48, 48, 48, 53]]
  body := []

theorem wellFormed_paddedRequest : paddedRequest.WellFormed where
  method := by decide
  url := by decide
  version := by decide
  lines := by
    intro l hl
    cases List.mem_singleton.mp hl
    decide

/-- Eleven digits fill the array, and `atoi` finds no NUL in it. -/
theorem copiesInside_fails :
    ∃ m ks, feed .svrRecv (new .svrRecv) [paddedRequest.header] = some (m, ks) ∧
      read [paddedRequest.header].flatten = .body [80] [47] [72] (paddedRequest.lines ++ [[]]) [] ∧
      ¬ CopiesInside m := by
  obtain ⟨m, ks, hfeed⟩ := @feed_header .svrRecv _ wellFormed_paddedRequest (by decide)
  have hread := read_header wellFormed_paddedRequest
  have hsize : (read [paddedRequest.header].flatten).text.length < 2 ^ 31 :=
    lt_of_le_of_lt (text_read_le _) (by decide)
  obtain ⟨hm, hsmall⟩ := shows_of_feed hfeed hread hsize
  refine ⟨m, ks, hfeed, hread, ?_⟩
  rw [inside_iff_of_shows hm hsmall]
  intro h
  have hfits := h (constr ++ [48, 48, 48, 48, 48, 48, 48, 48, 48, 48, 53]) (by decide)
  revert hfits
  decide

end Http

end Slience
