import Slience.Netio.StreamSocket
import Slience.Netio.HttpGetters
import Slience.Netio.HttpNumber

/-!
# The receiving side of an HTTP socket

`HttpBaseSocket::_CutMsgPack` parses each received chunk from a cleared message and
hands over whatever the call of `Parse` has left, complete or not: its test
compares the bytes taken with the bytes given.  So the requests of a stream
arrive one by one exactly when no chunk ends inside of one, and `_CheckContentLen` finds
the length of each body that has bytes behind its empty line.
-/

namespace Slience

open Http

namespace HttpBaseSocket

open HttpRecvMsg

variable (line : StartLine) (onReceiveData : HttpRecvMsg → HttpRecvMsg)

/-- The loop of `_CutMsgPack`: the messages handed to `OnReceiveData`, which may do
anything to them, and the message that is left.  The first argument bounds the
rounds. -/
def cutLoop : ℕ → HttpRecvMsg → Text → Option (List HttpRecvMsg × HttpRecvMsg)
  | 0, _, _ => none
  | rounds + 1, httpmsg, buf => do
      let (httpmsg, copyLen) ← parse line httpmsg buf
      let (delivered, httpmsg) :=
        if copyLen = 0 ∨ copyLen ≤ buf.length then
          ([httpmsg], (onReceiveData httpmsg).clear line)
        else ([], httpmsg)
      if buf.length - copyLen = 0 then return (delivered, httpmsg)
      else
        let (more, httpmsg) ← cutLoop rounds httpmsg (buf.drop copyLen)
        return (delivered ++ more, httpmsg)

/-- `_CutMsgPack`; each round takes a byte. -/
def cutMsgPack (httpmsg : HttpRecvMsg) (buf : Text) : Option (List HttpRecvMsg × HttpRecvMsg) :=
  cutLoop line onReceiveData (buf.length + 1) httpmsg buf

/-- The messages handed over for each of the chunks. -/
def receive : HttpRecvMsg → List Text → Option (List (List HttpRecvMsg))
  | _, [] => some []
  | httpmsg, c :: chunks => do
      let (delivered, httpmsg) ← cutMsgPack line onReceiveData httpmsg c
      let more ← receive httpmsg chunks
      return delivered :: more

end HttpBaseSocket

/-! ## Requests -/

namespace Http

open HttpRecvMsg

structure Request where
  method : Text
  url : Text
  version : Text
  lines : List Text
  body : Text

/-- What `_CheckContentLen` makes of these lines. -/
def readLength (lines : List Text) : Option ℤ :=
  match lengthField lines with
  | none => some 0
  | some value => readLen value

namespace Request

structure WellFormed (q : Request) : Prop where
  method : sp ∉ q.method
  url : sp ∉ q.url
  version : cutPair cr lf q.version = none
  lines : ∀ l ∈ q.lines, l ≠ [] ∧ cutPair cr lf l = none

/-- The bytes up to the empty line. -/
def header (q : Request) : Text :=
  startText q.method q.url q.version ++ linesText (q.lines ++ [[]])

def text (q : Request) : Text := q.header ++ q.body

/-- The header lines give `_CheckContentLen` the length of the body. -/
def LengthFits (q : Request) : Prop := readLength q.lines = some (q.body.length : ℤ)

/-- The message tells the request, its lines followed by the empty one. -/
def Told (q : Request) (m : HttpRecvMsg) : Prop :=
  m.Tells q.method q.url q.version (q.lines ++ [[]]) q.body

end Request

theorem read_request {q : Request} (hq : q.WellFormed) (rest : Text) :
    read (q.text ++ rest) =
      .body q.method q.url q.version (q.lines ++ [[]]) (q.body ++ rest) := by
  have htext : q.text ++ rest = startText q.method q.url q.version ++
      (linesText (q.lines ++ [[]]) ++ (q.body ++ rest)) := by
    simp only [Request.text, Request.header, List.append_assoc]
  rw [htext, read_message hq.method hq.url hq.version hq.lines]

/-! ## A call on a cleared message -/

/-- A message without a byte in it. -/
def Fresh (line : StartLine) (m : HttpRecvMsg) : Prop := (Reading.first []).Shows line m

theorem fresh_new (line : StartLine) : Fresh line (new line) := shows_new line

theorem fresh_clear (line : StartLine) (m : HttpRecvMsg) : Fresh line (m.clear line) :=
  ⟨rfl, rfl, rfl⟩

theorem parse_fresh {line : StartLine} {m : HttpRecvMsg} {buf : Text} (hm : Fresh line m)
    (hbuf : buf.length < 2 ^ 31) : Arrives line (read buf) [] buf (parse line m buf) := by
  have hnodup := line.nodup
  have hflag : m.flag = line.first := by
    rw [hm.fields_eq]
    rfl
  have hover : m.flag ≠ .over := by
    intro h
    rw [← hflag, h] at hnodup
    simp at hnodup
  rw [parse, if_neg hover, if_pos hflag]
  exact parseFirst_arrives hm (by simp) hm.text_eq (lt_of_le_of_lt (text_read_le buf) hbuf)

/-! ## Lengths -/

theorem readLength_bounds {lines : List Text} {z : ℤ} (h : readLength lines = some z) :
    -2 ^ 31 ≤ z ∧ z < 2 ^ 31 := by
  unfold readLength at h
  split at h
  · cases h
    decide
  · unfold readLen at h
    split at h
    · exact atoi_lt h
    · cases h

theorem lengthOk_of_readLength {lines : List Text} {n : ℕ} (h : readLength lines = some (n : ℤ)) :
    LengthOk lines ∧ bodyLen lines = n := by
  have hlt := (readLength_bounds h).2
  unfold readLength at h
  cases hfield : lengthField lines with
  | none =>
      simp only [hfield, Option.some.injEq] at h
      refine ⟨fun value hvalue ↦ ?_, ?_⟩
      · rw [hfield] at hvalue
        cases hvalue
      · simp only [bodyLen, hfield]
        omega
  | some value =>
      simp only [hfield, readLen] at h
      split at h
      · rename_i hlen
        refine ⟨fun value' hvalue ↦ ?_, ?_⟩
        · rw [hfield] at hvalue
          cases hvalue
          exact ⟨hlen, n, by omega, h⟩
        · simp [bodyLen, hfield, h]
      · cases h

theorem checkContentLen_eq {line : StartLine} {a b c : Text} {lines : List Text}
    {m : HttpRecvMsg} (hm : (Reading.body a b c lines []).Shows line m)
    (hsize : m.buffer.contents.length < 2 ^ 31) : m.checkContentLen = readLength lines := by
  obtain ⟨htext, hoffset, hfields⟩ := hm
  have hvec : m.headerVec = spans (startText a b c).length lines := by
    rw [hfields]
    rfl
  rw [checkContentLen, hvec, checkLines_spans hoffset hsize htext]
  rfl

theorem copyBody_negative {m : HttpRecvMsg} {t : Text} (hneg : m.bodysize < 0)
    (hint : -2 ^ 31 ≤ m.bodysize) (hbeg : m.body.beg = m.buffer.contents.length)
    (hlen : t.length < 2 ^ 31) : m.copyBody t = none := by
  have hpos : UInt32.ofInt m.body.beg = m.buffer.pos := by
    have hlt := m.buffer.pos.toNat_lt
    apply UInt32.toNat_inj.mp
    rw [hbeg, Buffer.length_contents, UInt32.ofInt, UInt32.toNat_ofNat']
    omega
  have hleft : (UInt32.ofInt m.bodysize - (m.buffer.pos - UInt32.ofInt m.body.beg)).toNat =
      (m.bodysize + 2 ^ 32).toNat := by
    rw [hpos, UInt32.sub_self, UInt32.sub_zero, UInt32.ofInt, UInt32.toNat_ofNat']
    omega
  have hsigned : ¬ (UInt32.ofInt m.bodysize -
      (m.buffer.pos - UInt32.ofInt m.body.beg)).toInt32.toInt > t.length := by
    rw [Int32.toInt, UInt32.toBitVec_toInt32, BitVec.toInt_eq_toNat_cond, UInt32.toNat_toBitVec,
      hleft, if_neg (by omega)]
    omega
  have hwrite : m.buffer.write t (UInt32.ofNat (m.bodysize + 2 ^ 32).toNat) = none := by
    rw [Buffer.write, dif_neg]
    rw [UInt32.toNat_ofNat']
    omega
  rw [copyBody, if_pos hneg.ne]
  simp only [if_neg hsigned, hleft, append, hwrite]
  rfl

theorem parseBody_fault {line : StartLine} {a b c t : Text} {lines : List Text}
    {m : HttpRecvMsg} (hm : (Reading.body a b c lines []).Shows line m)
    (hsize : m.buffer.contents.length < 2 ^ 31) (ht : t ≠ []) (hlen : t.length < 2 ^ 31)
    (hlines : ¬ ∃ n : ℕ, readLength lines = some (n : ℤ)) : m.parseBody t = none := by
  have hcheck := checkContentLen_eq hm hsize
  have hbodysize : m.bodysize = -1 := by
    rw [hm.fields_eq]
    rfl
  rw [parseBody, if_neg ht, sizeBody, if_pos hbodysize, hcheck]
  cases hread : readLength lines with
  | none => rfl
  | some z =>
      have hneg : z < 0 := by
        by_contra hpos
        refine hlines ⟨z.toNat, ?_⟩
        rw [hread, Int.toNat_of_nonneg (by omega)]
      have hbounds := readLength_bounds hread
      simp only [Option.bind_eq_bind, Option.bind_some, if_neg hneg.ne, Option.pure_def]
      exact copyBody_negative hneg hbounds.1 (Buffer.sizeInt_eq hsize) hlen

end Http

end Slience
