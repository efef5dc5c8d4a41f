import Slience.Netio.HttpFeed

/-!
# What a user reads from a message

The getters cut the recorded pieces out of the buffer again.
-/

namespace Slience

open Http

namespace HttpRecvMsg

/-- `n` calls of `NextHeader`. -/
def nextHeaders : ℕ → HttpRecvMsg → Option (List Text)
  | 0, _ => some []
  | n + 1, m => do
      let (l, m) ← m.nextHeader
      let lines ← nextHeaders n m
      return l :: lines

/-- The getters give these three tokens, as many calls of `NextHeader` as there are
lines give these lines, and `GetBody` gives this body. -/
structure Tells (m : HttpRecvMsg) (a b c : Text) (lines : List Text) (body : Text) : Prop where
  first : m.getText m.first = some a
  second : m.getText m.second = some b
  third : m.getText m.third = some c
  lines : m.nextHeaders m.headerVec.length = some lines
  body : m.getText m.body = some body

end HttpRecvMsg

theorem Buffer.dataSlice_eq {b : Buffer} (hoffset : b.offset = 0) {pre mid post : Text}
    (h : b.contents = pre ++ (mid ++ post)) :
    b.dataSlice pre.length mid.length = some mid := by
  obtain ⟨rest, hrest⟩ := b.data_eq
  have hdrop : b.data.drop pre.length = mid ++ (post ++ rest) := by
    rw [hrest, h, List.append_assoc, List.drop_left, List.append_assoc]
  have hle : mid.length ≤ (mid ++ (post ++ rest)).length := by
    rw [List.length_append]
    omega
  rw [dataSlice, Buffer.dataFrom_eq hoffset, hdrop]
  simp only [Option.bind_eq_bind, Option.bind_some, Int.natCast_nonneg, Int.ofNat_le, hle,
    and_self, if_true, Int.toNat_natCast, List.take_left]

namespace HttpRecvMsg

theorem getText_eq {m : HttpRecvMsg} (hoffset : m.buffer.offset = 0)
    (hsize : m.buffer.contents.length < 2 ^ 31) {pre mid post : Text}
    (h : m.buffer.contents = pre ++ (mid ++ post)) :
    m.getText ⟨pre.length, (pre.length + mid.length : ℕ)⟩ = some mid := by
  have hcount := congrArg List.length h
  rw [List.length_append, List.length_append] at hcount
  rw [getText]
  by_cases hzero : pre.length + mid.length = 0
  · have hmid : mid = [] := List.eq_nil_of_length_eq_zero (by omega)
    rw [if_pos (by dsimp only; omega), hmid]
  · have hadd : addInt (pre.length + mid.length : ℕ) (-(pre.length : ℤ)) =
        some (mid.length : ℤ) := by
      rw [addInt_of_bounds (by omega) (by omega)]
      congr 1
      omega
    rw [if_neg (by dsimp only; omega)]
    simp only [hadd, Option.bind_eq_bind, Option.bind_some]
    exact Buffer.dataSlice_eq hoffset h

theorem getText_of_fin {m : HttpRecvMsg} {p : Strpos} (h : p.fin = 0) :
    m.getText p = some [] := by
  rw [getText, if_pos h]

theorem spans_getElem (p : ℕ) (done : List Text) (l : Text) (lines : List Text) :
    (spans p (done ++ l :: lines))[done.length]? =
      some ⟨(p + (linesText done).length : ℕ),
        (p + (linesText done).length + (l.length + 2) : ℕ)⟩ := by
  induction done generalizing p with
  | nil => rfl
  | cons l' done ih =>
      rw [List.cons_append, spans, List.length_cons, List.getElem?_cons_succ, ih,
        length_linesText_cons]
      simp only [Nat.add_assoc]

theorem length_spans (p : ℕ) (lines : List Text) : (spans p lines).length = lines.length := by
  induction lines generalizing p with
  | nil => rfl
  | cons l lines ih => rw [spans, List.length_cons, List.length_cons, ih]

theorem nextHeaders_eq {m : HttpRecvMsg} {start post : Text} {lines : List Text}
    (done : List Text) (hoffset : m.buffer.offset = 0)
    (hsize : m.buffer.contents.length < 2 ^ 31)
    (hiter : m.headerIter = done.length)
    (hvec : m.headerVec = spans start.length (done ++ lines))
    (h : m.buffer.contents = start ++ (linesText (done ++ lines) ++ post)) :
    m.nextHeaders lines.length = some lines := by
  induction lines generalizing m done with
  | nil => rfl
  | cons l lines ih =>
      have htext : m.buffer.contents =
          (start ++ linesText done) ++ (l ++ (crlf ++ (linesText lines ++ post))) := by
        rw [h]
        simp [linesText]
      have hcount := congrArg List.length htext
      simp only [List.length_append, length_crlf] at hcount
      have hlen : m.headerVec.length = done.length + (lines.length + 1) := by
        rw [hvec, length_spans, List.length_append, List.length_cons]
      have hne : ¬ (m.headerVec = [] ∨ m.headerIter = m.headerVec.length) := by
        rintro (hnil | heq)
        · rw [hnil, List.length_nil] at hlen
          omega
        · omega
      have hadd : addInt (start.length + (linesText done).length + (l.length + 2) : ℕ)
          (-(start.length + (linesText done).length : ℕ)) = some ((l.length + 2 : ℕ) : ℤ) := by
        rw [addInt_of_bounds (by omega) (by omega)]
        congr 1
        omega
      have hadd' : addInt ((l.length + 2 : ℕ) : ℤ) (-2) = some (l.length : ℤ) := by
        rw [addInt_of_bounds (by omega) (by omega)]
        congr 1
        omega
      have hslice := Buffer.dataSlice_eq hoffset htext
      rw [List.length_append] at hslice
      have hnext : m.nextHeader = some (l, { m with headerIter := m.headerIter + 1 }) := by
        rw [nextHeader, if_neg hne, hiter, hvec, spans_getElem]
        simp only [Option.bind_eq_bind, Option.bind_some, hadd, hadd', hslice]
        rfl
      have hrest : nextHeaders lines.length { m with headerIter := m.headerIter + 1 } =
          some lines := by
        refine ih (done ++ [l]) hoffset hsize (show m.headerIter + 1 = (done ++ [l]).length from ?_)
          ?_ ?_
        · rw [hiter, List.length_append, List.length_singleton]
        · simp only [hvec, List.append_assoc, List.singleton_append]
        · simp only [h, List.append_assoc, List.singleton_append]
      rw [List.length_cons, nextHeaders, hnext]
      simp only [Option.bind_eq_bind, Option.bind_some, hrest]
      rfl

end HttpRecvMsg

namespace Http

open HttpRecvMsg

/-- The header lines that were complete. -/
def Reading.lines : Reading → List Text
  | .head _ _ _ lines _ => lines
  | .body _ _ _ lines _ => lines
  | _ => []

/-- The body, once it is complete. -/
def bodyText (lines : List Text) (t : Text) : Text :=
  if bodyLen lines ≤ t.length then t.take (bodyLen lines) else []

theorem Reading.Shows.size_lt {line : StartLine} {r : Reading} {m : HttpRecvMsg}
    (hm : r.Shows line m) (hsize : r.text.length < 2 ^ 31) :
    m.buffer.contents.length < 2 ^ 31 := by
  rw [hm.text_eq]
  exact hsize

theorem nextHeaders_of_spans {a b c post : Text} {lines : List Text} {m : HttpRecvMsg}
    (hoffset : m.buffer.offset = 0) (hsize : m.buffer.contents.length < 2 ^ 31)
    (hiter : m.headerIter = 0) (hvec : m.headerVec = spans (startText a b c).length lines)
    (htext : m.buffer.contents = startText a b c ++ (linesText lines ++ post)) :
    m.nextHeaders m.headerVec.length = some lines := by
  have hlen : m.headerVec.length = lines.length := by rw [hvec, length_spans]
  rw [hlen]
  exact nextHeaders_eq [] hoffset hsize hiter hvec htext

theorem Reading.Shows.nextHeaders {line : StartLine} {r : Reading} {m : HttpRecvMsg}
    (hm : r.Shows line m) (hsize : r.text.length < 2 ^ 31) :
    m.nextHeaders m.headerVec.length = some r.lines := by
  have hsmall := hm.size_lt hsize
  obtain ⟨htext, hoffset, hfields⟩ := hm
  cases r with
  | first t =>
      rw [hfields]
      rfl
  | second a t =>
      rw [hfields]
      rfl
  | third a b t =>
      rw [hfields]
      rfl
  | head a b c lines t =>
      exact nextHeaders_of_spans hoffset hsmall (by rw [hfields]; rfl) (by rw [hfields]; rfl) htext
  | body a b c lines t =>
      obtain ⟨p, flag, n, hbody, -⟩ := fields_body line a b c lines t
      rw [hbody] at hfields
      exact nextHeaders_of_spans hoffset hsmall (by rw [hfields]; rfl) (by rw [hfields]; rfl) htext

theorem Reading.Shows.tells {line : StartLine} {a b c t : Text} {lines : List Text}
    {m : HttpRecvMsg} (hm : (Reading.body a b c lines t).Shows line m)
    (hsize : (Reading.body a b c lines t).text.length < 2 ^ 31) :
    m.Tells a b c lines (bodyText lines t) := by
  have hsmall := hm.size_lt hsize
  have hlines := hm.nextHeaders hsize
  obtain ⟨htext, hoffset, hfields⟩ := hm
  obtain ⟨p, flag, n, hbody, hp⟩ := fields_body line a b c lines t
  rw [hbody] at hfields
  rw [Reading.text] at htext
  have hget (pre mid post : Text) (h : m.buffer.contents = pre ++ (mid ++ post)) :
      m.getText ⟨pre.length, (pre.length + mid.length : ℕ)⟩ = some mid :=
    getText_eq hoffset hsmall h
  refine ⟨?_, ?_, ?_, hlines, ?_⟩
  · have hfirst := hget [] a _ (by rw [htext, startText, List.append_assoc]; rfl)
    rw [List.length_nil, Nat.zero_add] at hfirst
    rw [← hfirst, hfields]
    rfl
  · have hsecond := hget (a ++ [sp]) b _ (by
      rw [htext, startText]
      simp only [List.append_assoc, List.cons_append, List.nil_append]
      rfl)
    rw [List.length_append, List.length_singleton] at hsecond
    rw [← hsecond, hfields]
    rfl
  · have hthird := hget (a ++ sp :: (b ++ [sp])) c _ (by
      rw [htext, startText]
      simp only [List.append_assoc, List.cons_append, List.nil_append]
      rfl)
    have hlen : (a ++ sp :: (b ++ [sp])).length = a.length + 1 + b.length + 1 := by
      simp only [List.length_append, List.length_cons, List.length_nil]
      omega
    rw [hlen] at hthird
    rw [← hthird, hfields]
    rfl
  · have hmbody : m.body = p := by rw [hfields]
    rw [hmbody, bodyText]
    rcases hp with ⟨hnone, rfl⟩ | ⟨hshort, rfl⟩ | ⟨hle, rfl⟩
    · rw [getText_of_fin rfl]
      rcases hnone with rfl | hzero
      · simp
      · simp [hzero]
    · rw [getText_of_fin rfl, if_neg (by omega)]
    · rw [if_pos hle]
      have hbody := hget (startText a b c ++ linesText lines) (t.take (bodyLen lines)) [] (by
        rw [htext, List.append_assoc, List.append_nil])
      rw [List.length_append, List.length_take, Nat.min_eq_left hle] at hbody
      exact hbody

end Http

end Slience
