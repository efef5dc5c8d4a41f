import Slience.Netio.HttpReading

/-!
# The loops of the parser

What the functions that look for a byte, a CRLF or the length of the body find, said of the
text that is searched; and what a message holds after bytes were appended to it.
-/

namespace Slience

namespace Http

/-! ## Searching -/

theorem parse1_of_notMem {buf : Text} {chr : Byte} (h : chr ∉ buf) :
    parse1 buf chr = (buf.length, false) := by
  simp [parse1, List.idxOf_eq_length h]

theorem parse1_append_cons {a r : Text} {chr : Byte} (h : chr ∉ a) :
    parse1 (a ++ chr :: r) chr = (a.length + 1, true) := by
  have hidx : (a ++ chr :: r).idxOf chr = a.length := by
    rw [List.idxOf_append_of_notMem h, List.idxOf_cons_self, Nat.add_zero]
  have hlen : (a ++ chr :: r).length = a.length + (r.length + 1) := by simp
  simp only [parse1, hidx, hlen]
  rw [if_pos (by omega), decide_eq_true (by omega)]

theorem pairPos_of_none {x y : Byte} {buf : Text} (h : cutPair x y buf = none) :
    pairPos x y buf = buf.length - 1 := by
  induction buf using cutPair.induct x y with
  | case1 => rfl
  | case2 => rfl
  | case3 a b l hab =>
      rw [cutPair, if_pos hab] at h
      cases h
  | case4 a b l hab ih =>
      rw [cutPair, if_neg hab, Option.map_eq_none_iff] at h
      rw [pairPos, if_neg hab, ih h]
      simp

theorem pairPos_of_some {x y : Byte} {buf a r : Text} (h : cutPair x y buf = some (a, r)) :
    pairPos x y buf = a.length := by
  induction buf using cutPair.induct x y generalizing a with
  | case1 => cases h
  | case2 => cases h
  | case3 a' b l hab =>
      rw [cutPair, if_pos hab] at h
      cases h
      rw [pairPos, if_pos hab]
      rfl
  | case4 a' b l hab ih =>
      rw [cutPair, if_neg hab] at h
      obtain ⟨⟨a'', r'⟩, hcut, hpair⟩ := Option.map_eq_some_iff.mp h
      cases hpair
      rw [pairPos, if_neg hab, ih hcut]
      rfl

theorem parse2_of_none {buf : Text} {x y : Byte} (hne : buf ≠ [])
    (h : cutPair x y buf = none) : parse2 buf x y = (buf.length, false) := by
  have hlen := List.length_pos_of_ne_nil hne
  simp only [parse2, pairPos_of_none h]
  rw [if_neg (by omega), decide_eq_false (by omega)]

theorem parse2_of_some {buf a r : Text} {x y : Byte} (h : cutPair x y buf = some (a, r)) :
    parse2 buf x y = (a.length + 2, true) := by
  have hlen : buf.length = a.length + (r.length + 2) := by
    rw [cutPair_split h]
    simp
  simp only [parse2, pairPos_of_some h]
  rw [if_pos (by omega), decide_eq_true (by omega)]

theorem seekCrlf_of_none {t buf : Text} (hne : buf ≠ [])
    (h : cutPair cr lf (t ++ buf) = none) (ht : cutPair cr lf t = none) :
    seekCrlf (t.getLast? = some cr) buf = ⟨false, buf.length, false⟩ := by
  rw [cutPair_append_of_none ht] at h
  split at h
  · cases h
  · rename_i hseam
    have hfound := parse2_of_none hne (Option.map_eq_none_iff.mp h)
    by_cases hlast : t.getLast? = some cr
    · have hhead : buf.head? ≠ some lf := fun hhead ↦ hseam ⟨hlast, hhead⟩
      simp [seekCrlf, hfound, hhead]
    · simp [seekCrlf, hfound, hlast]

theorem seekCrlf_of_some {t buf l r : Text} (ht : cutPair cr lf t = none)
    (h : cutPair cr lf (t ++ buf) = some (l, r)) :
    ∃ assist k, seekCrlf (t.getLast? = some cr) buf = ⟨assist, k, true⟩ ∧ k ≤ buf.length ∧
      t ++ buf.take k = l ++ crlf ∧ buf.drop k = r := by
  rw [cutPair_append_of_none ht] at h
  split at h
  · rename_i hseam
    obtain ⟨hlast, hhead⟩ := hseam
    obtain ⟨rest, rfl⟩ : ∃ rest, buf = lf :: rest := by
      cases buf with
      | nil => cases hhead
      | cons b rest =>
          cases hhead
          exact ⟨rest, rfl⟩
    cases h
    refine ⟨true, 1, ?_, by simp, ?_, rfl⟩
    · simp [seekCrlf, hlast]
    · obtain ⟨u, rfl⟩ := List.getLast?_eq_some_iff.mp hlast
      simp [crlf]
  · rename_i hseam
    obtain ⟨⟨a, r'⟩, hcut, hpair⟩ := Option.map_eq_some_iff.mp h
    cases hpair
    have hfound := parse2_of_some hcut
    have hbuf : buf = (a ++ crlf) ++ r' := by
      rw [cutPair_split hcut]
      simp [crlf]
    have hlen : (a ++ crlf).length = a.length + 2 := by simp [crlf]
    refine ⟨false, a.length + 2, ?_, ?_, ?_, ?_⟩
    · by_cases hlast : t.getLast? = some cr
      · have hhead : buf.head? ≠ some lf := fun hhead ↦ hseam ⟨hlast, hhead⟩
        simp [seekCrlf, hfound, hhead]
      · simp [seekCrlf, hfound, hlast]
    · rw [hbuf, List.length_append, hlen]
      omega
    · rw [hbuf, List.take_left' hlen, List.append_assoc]
    · rw [hbuf, List.drop_left' hlen, id]

/-! ## Looking up the length of the body -/

theorem scanName_append {psrc pbeg s p : Text} (h : scanName psrc pbeg = some (s, p))
    (x : Text) : scanName psrc (pbeg ++ x) = some (s, p ++ x) := by
  induction psrc generalizing pbeg with
  | nil => cases h
  | cons c psrc ih =>
      unfold scanName at h ⊢
      split at h
      · rename_i hc
        cases h
        rw [if_pos hc]
      · rename_i hc
        rw [if_neg hc]
        cases pbeg with
        | nil => cases h
        | cons b pbeg =>
            simp only [List.cons_append] at h ⊢
            split at h
            · rename_i hb
              cases h
              rw [if_pos hb]
            · rename_i hb
              rw [if_neg hb, ih h]

theorem scanName_drop {psrc pbeg : Text} (hsp : sp ∈ psrc)
    (hlen : psrc.idxOf sp ≤ pbeg.length) :
    ∃ s k, scanName psrc pbeg = some (s, pbeg.drop k) ∧ k ≤ psrc.idxOf sp := by
  induction psrc generalizing pbeg with
  | nil => cases hsp
  | cons c psrc ih =>
      unfold scanName
      by_cases hc : c = sp
      · rw [if_pos hc]
        exact ⟨_, 0, rfl, Nat.zero_le _⟩
      · rw [if_neg hc]
        rw [List.idxOf_cons_ne _ hc] at hlen ⊢
        have hmem : sp ∈ psrc := (List.mem_cons.mp hsp).resolve_left fun h ↦ hc h.symm
        cases pbeg with
        | nil => simp at hlen
        | cons b pbeg =>
            by_cases hb : b ≠ c
            · exact ⟨psrc, 1, by simp [hb], by omega⟩
            · obtain ⟨s, k, hscan, hk⟩ := ih hmem (Nat.le_of_succ_le_succ hlen)
              exact ⟨s, k + 1, by simp only [if_neg hb, hscan, List.drop_succ_cons], by omega⟩

theorem takeWhile_append_cr (u y : Text) :
    (u ++ cr :: y).takeWhile (· ≠ cr) = u.takeWhile (· ≠ cr) := by
  induction u with
  | nil => simp
  | cons a u ih =>
      by_cases ha : a = cr
      · simp [ha]
      · simp only [List.cons_append, List.takeWhile_cons, ih]

theorem fieldValue_append {l : Text} (hl : 16 ≤ l.length) :
    ∃ value, ∀ y, fieldValue (l ++ cr :: y) = some value := by
  have hidx : constr.idxOf sp = 15 := by decide
  obtain ⟨s, k, hscan, hk⟩ := scanName_drop (show sp ∈ constr by decide)
    (show constr.idxOf sp ≤ l.length by omega)
  refine ⟨if s.head? = some sp then some ((l.drop (k + 1)).takeWhile (· ≠ cr)) else none,
    fun y ↦ ?_⟩
  have htail : (l.drop k ++ cr :: y).tail = l.drop (k + 1) ++ cr :: y := by
    rw [List.tail_append_of_ne_nil, List.tail_drop]
    apply List.ne_nil_of_length_pos
    rw [List.length_drop]
    omega
  simp only [fieldValue, scanName_append hscan, Option.bind_eq_bind, Option.bind_some, htail,
    takeWhile_append_cr]
  split
  · simp
  · rfl

end Http

/-! ## The buffer of a message -/

theorem toInt_of_lt {u : UInt32} (h : u.toNat < 2 ^ 31) : u.toInt32.toInt = u.toNat := by
  rw [Int32.toInt, UInt32.toBitVec_toInt32, BitVec.toInt_eq_toNat_of_lt]
  · rfl
  · change 2 * u.toNat < 2 ^ 32
    omega

namespace Buffer

theorem sizeInt_eq {b : Buffer} (h : b.contents.length < 2 ^ 31) :
    b.sizeInt = b.contents.length := by
  rw [length_contents] at h ⊢
  rw [sizeInt, toInt_of_lt h]

theorem dataFrom_eq {b : Buffer} (hoffset : b.offset = 0) (i : ℕ) :
    b.dataFrom i = some (b.data.drop i) := by
  simp [dataFrom, hoffset]

theorem data_eq (b : Buffer) : ∃ rest, b.data = b.contents ++ rest :=
  ⟨b.data.drop b.pos.toNat, (List.take_append_drop _ _).symm⟩

theorem dataAt_last {b : Buffer} {x : Byte} (hoffset : b.offset = 0)
    (hsize : b.contents.length < 2 ^ 31) (hlast : b.contents.getLast? = some x) :
    b.dataAt (b.sizeInt - 1) = some x := by
  obtain ⟨u, hu⟩ := List.getLast?_eq_some_iff.mp hlast
  obtain ⟨rest, hrest⟩ := b.data_eq
  have hpos : b.sizeInt - 1 = (u.length : ℕ) := by
    rw [sizeInt_eq hsize, hu]
    simp
  rw [dataAt, hpos, dataFrom_eq hoffset, hrest, hu, List.append_assoc, List.drop_left]
  rfl

end Buffer

namespace HttpRecvMsg

open Http

theorem append_spec (m : HttpRecvMsg) {buf : List Byte} {k : ℕ} (hk : k ≤ buf.length)
    (hsize : m.buffer.contents.length + k < 2 ^ 31) :
    ∃ b : Buffer, m.append buf k = some { m with buffer := b } ∧
      b.contents = m.buffer.contents ++ buf.take k ∧ b.offset = m.buffer.offset := by
  have hk' : (UInt32.ofNat k).toNat = k := by
    rw [UInt32.toNat_ofNat']
    omega
  rw [Buffer.length_contents] at hsize
  have hsrc : (UInt32.ofNat k).toNat ≤ buf.length := by omega
  obtain ⟨b, hwrite, hb⟩ := m.buffer.write_spec hsrc (by rw [Buffer.writeLimit]; omega)
  rw [hk'] at hb
  refine ⟨b, ?_, hb.contents_eq, hb.offset_eq⟩
  rw [append, hwrite]
  rfl

theorem noteCr_spec {m : HttpRecvMsg} (hassist : m.assistflag = false)
    (hoffset : m.buffer.offset = 0) (hsize : m.buffer.contents.length < 2 ^ 31)
    (hne : m.buffer.contents ≠ []) :
    m.noteCr = some { m with assistflag := m.buffer.contents.getLast? = some cr } := by
  obtain ⟨x, hx⟩ : ∃ x, m.buffer.contents.getLast? = some x :=
    ⟨_, List.getLast?_eq_some_getLast hne⟩
  rw [noteCr, if_neg (by simp [hassist]), Buffer.dataAt_last hoffset hsize hx, hx]
  by_cases hcr : x = cr
  · simp [hcr]
  · simp [hcr, ← hassist]

/-- A chunk without the end of a line is copied, and a CR at its end remembered. -/
theorem append_noteCr {m : HttpRecvMsg} {buf : List Byte} (hbuf : buf ≠ [])
    (hoffset : m.buffer.offset = 0) (hsize : m.buffer.contents.length + buf.length < 2 ^ 31) :
    ∃ b m₁, { m with assistflag := false }.append buf buf.length = some m₁ ∧
      m₁.noteCr = some { m with assistflag := buf.getLast? = some cr, buffer := b } ∧
      b.contents = m.buffer.contents ++ buf ∧ b.offset = 0 := by
  obtain ⟨b, happend, hcontents, hoffset'⟩ :=
    append_spec { m with assistflag := false } le_rfl hsize
  rw [List.take_length] at hcontents
  have hlast : b.contents.getLast? = buf.getLast? := by
    rw [hcontents, List.getLast?_append_of_ne_nil _ hbuf]
  have hnote := noteCr_spec (m := { m with assistflag := false, buffer := b }) rfl
    (hoffset'.trans hoffset) (by rw [hcontents, List.length_append]; exact hsize)
    (by rw [hcontents]; exact List.append_ne_nil_of_right_ne_nil _ hbuf)
  rw [hlast] at hnote
  exact ⟨b, _, happend, hnote, hcontents, hoffset'.trans hoffset⟩

theorem line_at {b : Buffer} (hoffset : b.offset = 0) (hsize : b.contents.length < 2 ^ 31)
    {start post l : Text} {lines : List Text}
    (h : b.contents = start ++ (linesText (l :: lines) ++ post)) :
    b.contents = start ++ (l ++ crlf) ++ (linesText lines ++ post) ∧
      addInt (start.length + (l.length + 2) : ℕ) (-(start.length : ℤ)) =
        some ((l.length + 2 : ℕ) : ℤ) ∧
      ∃ y, b.dataFrom start.length = some (l ++ (crlf ++ y)) := by
  have hcons : b.contents = start ++ (l ++ crlf) ++ (linesText lines ++ post) := by
    rw [h, linesText, List.flatMap_cons]
    simp [linesText]
  have hle := congrArg List.length hcons
  rw [List.length_append, List.length_append, List.length_append, length_crlf] at hle
  obtain ⟨junk, hjunk⟩ := b.data_eq
  refine ⟨hcons, ?_, linesText lines ++ post ++ junk, ?_⟩
  · rw [addInt_of_bounds (by omega) (by omega)]
    congr 1
    omega
  · rw [Buffer.dataFrom_eq hoffset, hjunk, hcons]
    simp

/-- `_CheckContentLen` sees the lines at the offsets that were recorded for them. -/
theorem checkLines_spans {b : Buffer} (hoffset : b.offset = 0)
    (hsize : b.contents.length < 2 ^ 31) {start post : Text} {lines : List Text}
    (h : b.contents = start ++ (linesText lines ++ post)) :
    checkLines b (spans start.length lines) =
      match lengthField lines with
      | none => some 0
      | some value => readLen value := by
  induction lines generalizing start with
  | nil => rfl
  | cons l lines ih =>
      obtain ⟨hcons, hadd, y, hdata⟩ := line_at hoffset hsize h
      have hrest := ih hcons
      rw [List.length_append, List.length_append, length_crlf] at hrest
      rw [spans, checkLines, hadd, lengthField]
      simp only [Option.bind_eq_bind, Option.bind_some]
      by_cases hshort : l.length + 2 < 18
      · rw [if_pos (by omega), if_pos hshort, hrest]
      · obtain ⟨value, hvalue⟩ := fieldValue_append (show 16 ≤ l.length by omega)
        rw [if_neg (by omega), if_neg hshort, hdata]
        simp only [Option.bind_some, crlf, List.cons_append, List.nil_append, hvalue]
        cases value with
        | none => exact hrest
        | some value => rfl

theorem checkContentLen_spec {m : HttpRecvMsg} (hoffset : m.buffer.offset = 0)
    (hsize : m.buffer.contents.length < 2 ^ 31) {start post : Text} {lines : List Text}
    (h : m.buffer.contents = start ++ (linesText lines ++ post))
    (hvec : m.headerVec = spans start.length lines) (hok : LengthOk lines) :
    m.checkContentLen = some (bodyLen lines : ℤ) := by
  rw [checkContentLen, hvec, checkLines_spans hoffset hsize h, bodyLen]
  cases hfield : lengthField lines with
  | none => rfl
  | some value =>
      obtain ⟨hlen, n, hn, hatoi⟩ := hok value hfield
      simp [readLen, hlen, hatoi]

/-! ## The body -/

theorem toNat_left {n e j : ℕ} {pos : UInt32} (hn : n < 2 ^ 31) (hpos : pos.toNat = e + j)
    (hj : j ≤ n) (he : e + j < 2 ^ 31) :
    (UInt32.ofInt n - (pos - UInt32.ofInt e)).toNat = n - j := by
  have hcast (k : ℕ) (hk : k < 2 ^ 31) : (UInt32.ofInt (k : ℤ)).toNat = k := by
    rw [UInt32.ofInt, UInt32.toNat_ofNat']
    omega
  have hdone : (pos - UInt32.ofInt e).toNat = j := by
    rw [UInt32.toNat_sub_of_le, hcast e (by omega), hpos]
    · omega
    · rw [UInt32.le_iff_toNat_le, hcast e (by omega)]
      omega
  rw [UInt32.toNat_sub_of_le, hdone, hcast n hn]
  rw [UInt32.le_iff_toNat_le, hdone, hcast n hn]
  exact hj

theorem copyBody_spec {m : HttpRecvMsg} {buf : Text} {n e j : ℕ} (hn : n < 2 ^ 31)
    (hsize : m.bodysize = n) (hbeg : m.body.beg = e) (hlen : m.buffer.contents.length = e + j)
    (hj : j < n) (hflag : m.flag ≠ .over) (hfit : e + j + min (n - j) buf.length < 2 ^ 31) :
    ∃ b : Buffer, b.contents = m.buffer.contents ++ buf.take (n - j) ∧
      b.offset = m.buffer.offset ∧
      m.copyBody buf = some (if buf.length < n - j then ({ m with buffer := b }, buf.length)
        else ({ m with buffer := b, flag := .over, body.fin := (e + n : ℕ) }, n - j)) := by
  have hne : m.bodysize ≠ 0 := by omega
  have hleft : (UInt32.ofInt m.bodysize - (m.buffer.pos - UInt32.ofInt m.body.beg)).toNat =
      n - j := by
    rw [hsize, hbeg]
    exact toNat_left hn (by rw [← Buffer.length_contents, hlen]) (by omega) (by omega)
  have hint : (UInt32.ofInt m.bodysize -
      (m.buffer.pos - UInt32.ofInt m.body.beg)).toInt32.toInt = (n - j : ℕ) := by
    rw [toInt_of_lt (by omega), hleft]
  unfold copyBody
  rw [if_pos hne]
  simp only [hint, hleft, gt_iff_lt, Nat.cast_lt]
  by_cases hshort : buf.length < n - j
  · simp only [if_pos hshort]
    have hfit' : m.buffer.contents.length + buf.length < 2 ^ 31 := by omega
    obtain ⟨b, hb, hcontents, hoffset⟩ :=
      append_spec { m with flag := m.flag } le_rfl hfit'
    refine ⟨b, ?_, hoffset, ?_⟩
    · rw [hcontents, List.take_length, List.take_of_length_le hshort.le]
    · rw [hb]
      simp [hflag]
  · simp only [if_neg hshort]
    have hfit' : m.buffer.contents.length + (n - j) < 2 ^ 31 := by omega
    obtain ⟨b, hb, hcontents, hoffset⟩ :=
      append_spec { m with flag := .over } (not_lt.mp hshort) hfit'
    have hend : b.contents.length = e + n := by
      rw [hcontents, List.length_append, List.length_take]
      simp only [hlen]
      omega
    refine ⟨b, hcontents, hoffset, ?_⟩
    rw [hb]
    have hpos : b.sizeInt = (e + n : ℕ) := by rw [Buffer.sizeInt_eq (by omega), hend]
    simp [hpos]

end HttpRecvMsg

end Slience
