import Slience.Lib.Run
import Slience.Netio.HttpResponse

/-!
# The setters of a response in any order

`Draft` is the response that the successful setters of a sequence of calls describe: the
pieces of the first line, the header lines in the order they were set, and the body.
The buffer holds the text of the draft as long as `SetSever` and `SetDate`, which write
pointers, have no effect, and no header line is set behind the body.
-/

namespace Slience

namespace Http

open HttpSvrSendMsg

/-- `"Server: "` -/
def serverName : Text := [83, 101, 114, 118, 101, 114, 58, 32]

/-- `"Date: "` -/
def dateName : Text := [68, 97, 116, 101, 58, 32]

/-- The header lines that have a setter. -/
inductive LineKind
  | field (f : HeaderField)
  | server
  | date
  deriving DecidableEq

namespace LineKind

def flag : LineKind → SendFlag
  | field f => f.flag
  | server => .server
  | date => .date

def name : LineKind → Text
  | field f => f.name
  | server => serverName
  | date => dateName

def set (literals : Literals) : LineKind → HttpSvrSendMsg → Text → Option (Bool × HttpSvrSendMsg)
  | field f => f.set
  | server => setSever literals
  | date => setDate literals

end LineKind

/-- The calls of the setters.  The body is given with its length. -/
inductive SetCall
  | httpVersion (ver : Text)
  | statusCode (status : Text)
  | statusPhrase (phrase : Text)
  | line (k : LineKind) (value : Text)
  | body (body : Text)

namespace SetCall

def apply (literals : Literals) : SetCall → HttpSvrSendMsg → Option (Bool × HttpSvrSendMsg)
  | .httpVersion ver, m => m.setHttpVersion ver
  | .statusCode status, m => m.setStatusCode status
  | .statusPhrase phrase, m => m.setStatusPhrase phrase
  | .line k value, m => k.set literals m value
  | .body b, m => m.setBody b b.length

/-- The bytes of the argument. -/
def argument : SetCall → Text
  | .httpVersion s | .statusCode s | .statusPhrase s | .line _ s | .body s => s

/-- A C string has no NUL inside, and the length of a body is an `int`. -/
def ArgumentOk : SetCall → Prop
  | .body b => b.length < 2 ^ 31
  | c => (0 : Byte) ∉ c.argument

end SetCall

/-! ## The response that is meant -/

structure Draft where
  version : Option Text := none
  status : Option Text := none
  phrase : Option Text := none
  lines : List (LineKind × Text) := []
  body : Option Text := none

namespace Draft

/-- A piece of the first line with what ends it. -/
def piece (ending : Text) : Option Text → Text
  | none => []
  | some s => s ++ ending

def linesOf (d : Draft) : List Text := d.lines.map fun p ↦ p.1.name ++ p.2

/-- The line of the length, the empty line and the body. -/
def bodyText : Option Text → Text
  | none => []
  | some b => linesText [constr ++ decimal b.length, []] ++ b

def text (d : Draft) : Text :=
  piece [sp] d.version ++ piece [sp] d.status ++ piece crlf d.phrase ++
    linesText d.linesOf ++ bodyText d.body

/-- The draft after a setter that has returned `true`.  `SetBody` calls the setters whose
pieces are missing. -/
def add (d : Draft) : SetCall → Draft
  | .httpVersion ver => { d with version := some ver }
  | .statusCode status => { d with status := some status }
  | .statusPhrase phrase => { d with phrase := some phrase }
  | .line k value => { d with lines := d.lines ++ [(k, value)] }
  | .body body =>
      { version := some (d.version.getD defaultVersion)
        status := some (d.status.getD defaultStatus)
        phrase := some (d.phrase.getD defaultPhrase)
        lines := d.lines ++ (if .field .contentType ∈ d.lines.map Prod.fst then []
          else [(.field .contentType, defaultType)])
        body := some body }

/-- No piece is there before the one that it follows. -/
structure InOrder (d : Draft) : Prop where
  status : d.status.isSome → d.version.isSome
  phrase : d.phrase.isSome → d.status.isSome
  lines : d.lines ≠ [] → d.phrase.isSome
  body : d.body.isSome → d.phrase.isSome

theorem InOrder.isPrefix {d : Draft} (h : d.InOrder) :
    ∃ version status phrase lines body, d.text <+: startText version status phrase ++
      (linesText (lines ++ [constr ++ decimal body.length, []]) ++ body) ∧
      d.linesOf <+: lines ∧ ∀ b ∈ d.body, b = body := by
  obtain ⟨version, status, phrase, lines, body⟩ := d
  obtain ⟨hstatus, hphrase, hlines, hbody⟩ := h
  cases phrase with
  | none =>
      have hnil : lines = [] := by
        by_contra hne
        exact Bool.noConfusion (hlines hne)
      have hnone : body = none := by
        cases body with
        | none => rfl
        | some b => exact Bool.noConfusion (hbody rfl)
      subst hnil hnone
      cases status with
      | none =>
          cases version with
          | none => exact ⟨[], [], [], [], [], List.nil_prefix, List.nil_prefix, by simp⟩
          | some v =>
              refine ⟨v, [], [], [], [], ?_, List.nil_prefix, by simp⟩
              simp [text, piece, linesOf, linesText, bodyText, startText]
      | some st =>
          obtain ⟨v, hv⟩ := Option.isSome_iff_exists.mp (hstatus rfl)
          dsimp only at hv
          subst hv
          refine ⟨v, st, [], [], [], ?_, List.nil_prefix, by simp⟩
          simp [text, piece, linesOf, linesText, bodyText, startText]
  | some ph =>
      obtain ⟨st, hst⟩ := Option.isSome_iff_exists.mp (hphrase rfl)
      dsimp only at hst
      subst hst
      obtain ⟨v, hv⟩ := Option.isSome_iff_exists.mp (hstatus rfl)
      dsimp only at hv
      subst hv
      have hstart : piece [sp] (some v) ++ piece [sp] (some st) ++ piece crlf (some ph) =
          startText v st ph := by
        simp [piece, startText]
      cases body with
      | none =>
          refine ⟨v, st, ph, lines.map fun p ↦ p.1.name ++ p.2, [], ?_, List.prefix_rfl, by simp⟩
          rw [text, hstart, linesText_append, List.append_assoc, List.prefix_append_right_inj,
            linesOf, bodyText, List.append_nil]
          simp
      | some b =>
          refine ⟨v, st, ph, lines.map fun p ↦ p.1.name ++ p.2, b, ?_, List.prefix_rfl, by simp⟩
          rw [text, hstart, linesText_append, List.append_assoc, List.prefix_append_right_inj,
            linesOf, bodyText, List.append_assoc]

namespace InOrder

variable {d : Draft} (h : d.InOrder)
include h

theorem status_none (hversion : d.version = none) : d.status = none := by
  by_contra hstatus
  have hsome := h.status (Option.isSome_iff_ne_none.mpr hstatus)
  rw [hversion] at hsome
  cases hsome

theorem phrase_none (hstatus : d.status = none) : d.phrase = none := by
  by_contra hphrase
  have hsome := h.phrase (Option.isSome_iff_ne_none.mpr hphrase)
  rw [hstatus] at hsome
  cases hsome

theorem rest_none (hphrase : d.phrase = none) : d.lines = [] ∧ d.body = none := by
  constructor
  · by_contra hlines
    have hsome := h.lines hlines
    rw [hphrase] at hsome
    cases hsome
  · by_contra hbody
    have hsome := h.body (Option.isSome_iff_ne_none.mpr hbody)
    rw [hphrase] at hsome
    cases hsome

end InOrder

/-- Which setters have had an effect. -/
def Has (d : Draft) : SendFlag → Prop
  | .ver => d.version.isSome
  | .statusCode => d.status.isSome
  | .statusPhrase => d.phrase.isSome
  | .body => d.body.isSome
  | f => ∃ p ∈ d.lines, p.1.flag = f

theorem has_flag_iff (d : Draft) (k : LineKind) :
    d.Has k.flag ↔ ∃ p ∈ d.lines, p.1.flag = k.flag := by
  cases k with
  | field f => cases f <;> rfl
  | server => rfl
  | date => rfl

end Draft

/-- The buffer holds the text of the draft, and the flags are those of its pieces. -/
structure Matches (m : HttpSvrSendMsg) (d : Draft) : Prop where
  contents_eq : m.buffer.contents = d.text
  flag_iff : ∀ f, f ∈ m.flag ↔ d.Has f
  inOrder : d.InOrder

/-- What a call should do: without effect it changes nothing, and otherwise it adds its
piece. -/
def Good (literals : Literals) (m : HttpSvrSendMsg) (d : Draft) (c : SetCall) : Prop :=
  ∃ ok m', c.apply literals m = some (ok, m') ∧ (ok = false → m' = m) ∧
    Matches m' (if ok then d.add c else d)

namespace Matches

variable {literals : Literals} {m : HttpSvrSendMsg} {d : Draft}

theorem new : Matches HttpSvrSendMsg.new {} where
  contents_eq := rfl
  flag_iff f := by cases f <;> simp [HttpSvrSendMsg.new, Draft.Has]
  inOrder := ⟨by simp, by simp, by simp, by simp⟩

theorem unchanged (h : Matches m d) {c : SetCall} (happly : c.apply literals m = some (false, m)) :
    Good literals m d c :=
  ⟨false, m, happly, fun _ ↦ rfl, h⟩

theorem holds (h : Matches m d) : m.Holds d.text m.flag := ⟨h.contents_eq, rfl⟩

theorem ver_iff (h : Matches m d) : .ver ∈ m.flag ↔ d.version.isSome := h.flag_iff .ver

theorem statusCode_iff (h : Matches m d) : .statusCode ∈ m.flag ↔ d.status.isSome :=
  h.flag_iff .statusCode

theorem statusPhrase_iff (h : Matches m d) : .statusPhrase ∈ m.flag ↔ d.phrase.isSome :=
  h.flag_iff .statusPhrase

theorem httpVersion (h : Matches m d) {ver : Text} (hver : (0 : Byte) ∉ ver)
    (hsize : m.buffer.contents.length + ver.length + 2 < Buffer.writeLimit)
    (hflag : .ver ∉ m.flag) :
    ∃ m', m.setHttpVersion ver = some (true, m') ∧ Matches m' (d.add (.httpVersion ver)) ∧
      m'.buffer.contents.length ≤ m.buffer.contents.length + (ver.length + 1) := by
  rw [h.contents_eq] at hsize ⊢
  obtain ⟨m', hset, hm'⟩ := setHttpVersion_holds h.holds hflag hver (by omega)
  have hversion : d.version = none := by
    rw [h.ver_iff] at hflag
    simpa using hflag
  have hstatus := h.inOrder.status_none hversion
  have hphrase := h.inOrder.phrase_none hstatus
  obtain ⟨hlines, hbody⟩ := h.inOrder.rest_none hphrase
  refine ⟨m', hset, ⟨?_, ?_, ?_⟩, ?_⟩
  · rw [hm'.contents_eq]
    simp [Draft.text, Draft.add, Draft.linesOf, hversion, hstatus, hphrase, hlines, hbody,
      Draft.piece, Draft.bodyText, linesText]
  · intro f
    rw [hm'.flag_eq, Finset.mem_insert, h.flag_iff]
    cases f <;> simp [Draft.Has, Draft.add, hversion]
  · constructor <;> simp [Draft.add, hstatus, hphrase, hlines, hbody]
  · rw [hm'.contents_eq]
    simp

theorem statusCode (h : Matches m d) {status : Text} (hval : (0 : Byte) ∉ status)
    (hsize : m.buffer.contents.length + status.length + 2 < Buffer.writeLimit)
    (hflag : .statusCode ∉ m.flag ∧ .ver ∈ m.flag) :
    ∃ m', m.setStatusCode status = some (true, m') ∧ Matches m' (d.add (.statusCode status)) ∧
      m'.buffer.contents.length ≤ m.buffer.contents.length + (status.length + 1) := by
  rw [h.contents_eq] at hsize ⊢
  obtain ⟨m', hset, hm'⟩ := setStatusCode_holds h.holds hflag hval (by omega)
  rw [h.statusCode_iff, h.ver_iff] at hflag
  have hstatus : d.status = none := by
    simpa using hflag.1
  have hphrase := h.inOrder.phrase_none hstatus
  obtain ⟨hlines, hbody⟩ := h.inOrder.rest_none hphrase
  refine ⟨m', hset, ⟨?_, ?_, ?_⟩, ?_⟩
  · rw [hm'.contents_eq]
    simp [Draft.text, Draft.add, Draft.linesOf, hstatus, hphrase, hlines, hbody,
      Draft.piece, Draft.bodyText, linesText]
  · intro f
    rw [hm'.flag_eq, Finset.mem_insert, h.flag_iff]
    cases f <;> simp [Draft.Has, Draft.add, hstatus]
  · constructor <;> simp [Draft.add, hphrase, hlines, hbody, hflag.2]
  · rw [hm'.contents_eq]
    simp

theorem statusPhrase (h : Matches m d) {phrase : Text} (hval : (0 : Byte) ∉ phrase)
    (hsize : m.buffer.contents.length + phrase.length + 2 < Buffer.writeLimit)
    (hflag : .statusPhrase ∉ m.flag ∧ .ver ∈ m.flag ∧ .statusCode ∈ m.flag) :
    ∃ m', m.setStatusPhrase phrase = some (true, m') ∧
      Matches m' (d.add (.statusPhrase phrase)) ∧
      m'.buffer.contents.length ≤ m.buffer.contents.length + (phrase.length + 2) := by
  rw [h.contents_eq] at hsize ⊢
  obtain ⟨m', hset, hm'⟩ := setStatusPhrase_holds h.holds hflag hval (by omega)
  rw [h.statusPhrase_iff, h.statusCode_iff, h.ver_iff] at hflag
  have hphrase : d.phrase = none := by
    simpa using hflag.1
  obtain ⟨hlines, hbody⟩ := h.inOrder.rest_none hphrase
  refine ⟨m', hset, ⟨?_, ?_, ?_⟩, ?_⟩
  · rw [hm'.contents_eq]
    simp [Draft.text, Draft.add, Draft.linesOf, hphrase, hlines, hbody, Draft.piece,
      Draft.bodyText, linesText]
  · intro f
    rw [hm'.flag_eq, Finset.mem_insert, h.flag_iff]
    cases f <;> simp [Draft.Has, Draft.add, hphrase]
  · constructor <;> simp [Draft.add, hlines, hbody, hflag.2.1, hflag.2.2]
  · rw [hm'.contents_eq]
    simp [length_crlf]

end Matches

/-! ## Header lines -/

/-- The test of a setter of a header line. -/
def TakesEffect (m : HttpSvrSendMsg) (k : LineKind) : Prop :=
  k.flag ∉ m.flag ∧ .ver ∈ m.flag ∧ .statusCode ∈ m.flag ∧ .statusPhrase ∈ m.flag

theorem TakesEffect.startFlags_subset {m : HttpSvrSendMsg} {k : LineKind}
    (h : TakesEffect m k) : startFlags ⊆ m.flag := by
  intro f hf
  simp only [startFlags, Finset.mem_insert, Finset.mem_singleton] at hf
  rcases hf with rfl | rfl | rfl
  · exact h.2.1
  · exact h.2.2.1
  · exact h.2.2.2

theorem LineKind.flag_injective : Function.Injective LineKind.flag := by
  intro k l h
  cases k with
  | field f =>
      cases l with
      | field g => rw [HeaderField.flag_injective h]
      | server => cases f <;> cases h
      | date => cases f <;> cases h
  | server =>
      cases l with
      | field g => cases g <;> cases h
      | server => rfl
      | date => cases h
  | date =>
      cases l with
      | field g => cases g <;> cases h
      | server => cases h
      | date => rfl

theorem set_of_not_takesEffect {literals : Literals} {m : HttpSvrSendMsg} {k : LineKind}
    (h : ¬ TakesEffect m k) (value : Text) : k.set literals m value = some (false, m) := by
  cases k with
  | field f =>
      change f.set m value = _
      rw [HeaderField.set_eq, setField]
      exact if_neg h
  | server => exact if_neg h
  | date => exact if_neg h

theorem length_pointerBytes (p : UInt64) : (pointerBytes p).length = 8 := by
  simp [pointerBytes]

/-- What `SetSever` and `SetDate` append is sixteen bytes longer than the value. -/
theorem setPointerField_holds {m : HttpSvrSendMsg} {text value : Text} {flag : Finset SendFlag}
    {f : SendFlag} (name ending : UInt64) (hm : m.Holds text flag) (hf : f ∉ flag)
    (hstart : startFlags ⊆ flag) (hvalue : (0 : Byte) ∉ value)
    (hsize : text.length + value.length + 16 < Buffer.writeLimit) :
    ∃ m', setPointerField f name ending m value = some (true, m') ∧
      m'.buffer.contents.length = text.length + value.length + 16 := by
  have hflag : f ∉ flag ∧ .ver ∈ flag ∧ .statusCode ∈ flag ∧ .statusPhrase ∈ flag :=
    ⟨hf, hstart (by decide), hstart (by decide), hstart (by decide)⟩
  have hname := length_pointerBytes name
  have hending := length_pointerBytes ending
  obtain ⟨m₁, hwrite, hm₁⟩ := write_holds hm hname.symm (by omega)
  obtain ⟨m₂, m₃, hwrite', hwrite'', hm₃⟩ :=
    write_write_holds hm₁ (strlen_of_notMem hvalue) hending.symm (by
      rw [List.length_append]
      omega)
  refine ⟨m₃.setFlag f, ?_, ?_⟩
  · rw [setPointerField, hm.flag_eq, if_pos hflag]
    simp only [writePointer, hwrite, Option.bind_eq_bind, Option.bind_some, hwrite', hwrite'']
    rfl
  · have hcontents : (m₃.setFlag f).buffer.contents = m₃.buffer.contents := rfl
    rw [hcontents, hm₃.contents_eq]
    simp only [List.length_append]
    omega

namespace Matches

variable {literals : Literals} {m : HttpSvrSendMsg} {d : Draft}

theorem mem_flag_iff (h : Matches m d) (k : LineKind) :
    k.flag ∈ m.flag ↔ k ∈ d.lines.map Prod.fst := by
  rw [h.flag_iff, Draft.has_flag_iff, List.mem_map]
  constructor
  · rintro ⟨p, hp, hflag⟩
    exact ⟨p, hp, LineKind.flag_injective hflag⟩
  · rintro ⟨p, hp, hk⟩
    exact ⟨p, hp, by rw [hk]⟩

theorem add_line_has (k : LineKind) (value : Text) (f : SendFlag) :
    (d.add (.line k value)).Has f ↔ f = k.flag ∨ d.Has f := by
  have hne (g : SendFlag) (hg : g ∈ ({.ver, .statusCode, .statusPhrase, .body} : Finset SendFlag)) :
      k.flag ≠ g := by
    rintro rfl
    revert hg
    cases k with
    | field f => cases f <;> decide
    | server => decide
    | date => decide
  have hver := hne .ver (by decide)
  have hcode := hne .statusCode (by decide)
  have hphrase := hne .statusPhrase (by decide)
  have hbody := hne .body (by decide)
  have hline : (∃ p ∈ (d.add (.line k value)).lines, p.1.flag = f) ↔
      f = k.flag ∨ ∃ p ∈ d.lines, p.1.flag = f := by
    simp only [Draft.add, List.mem_append, List.mem_singleton, or_and_right, exists_or,
      exists_eq_left]
    rw [or_comm]
    exact or_congr_left eq_comm
  cases f with
  | ver => exact (or_iff_right hver.symm).symm
  | statusCode => exact (or_iff_right hcode.symm).symm
  | statusPhrase => exact (or_iff_right hphrase.symm).symm
  | body => exact (or_iff_right hbody.symm).symm
  | location => exact hline
  | contCoding => exact hline
  | contType => exact hline
  | contLanguage => exact hline
  | date => exact hline
  | server => exact hline

theorem field (h : Matches m d) {f : HeaderField} {value : Text} (hval : (0 : Byte) ∉ value)
    (hsize : m.buffer.contents.length + value.length + 32 < Buffer.writeLimit)
    (heffect : TakesEffect m (.field f)) (hbody : .body ∉ m.flag) :
    ∃ m', f.set m value = some (true, m') ∧ Matches m' (d.add (.line (.field f) value)) := by
  have hname : f.name.length ≤ 18 := by
    cases f <;> decide
  rw [h.contents_eq] at hsize
  obtain ⟨m', hset, hm'⟩ := setField_holds f.name h.holds heffect.1 heffect.startFlags_subset hval
    (by omega)
  have hnone : d.body = none := by
    rw [h.flag_iff] at hbody
    simpa [Draft.Has] using hbody
  have hphrase := h.statusPhrase_iff.mp heffect.2.2.2
  refine ⟨m', by rw [HeaderField.set_eq]; exact hset, ⟨?_, ?_, ?_⟩⟩
  · rw [hm'.contents_eq]
    simp [Draft.text, Draft.add, Draft.linesOf, hnone, Draft.bodyText, linesText, LineKind.name]
  · intro g
    rw [hm'.flag_eq, Finset.mem_insert, h.flag_iff, add_line_has]
  · obtain ⟨hstatus, hphr, -, hbod⟩ := h.inOrder
    exact ⟨hstatus, hphr, fun _ ↦ hphrase, hbod⟩

theorem orDefault_spec {P : HttpSvrSendMsg → Prop} {f : SendFlag} {value : Text}
    {set : HttpSvrSendMsg → Text → Option (Bool × HttpSvrSendMsg)} (hmem : f ∈ m.flag → P m)
    (heffect : f ∉ m.flag → ∃ m', set m value = some (true, m') ∧ P m') :
    ∃ m', orDefault f set value m = some m' ∧ P m' := by
  by_cases hf : f ∈ m.flag
  · exact ⟨m, orDefault_of_mem hf, hmem hf⟩
  · obtain ⟨m', hset, hm'⟩ := heffect hf
    refine ⟨m', ?_, hm'⟩
    rw [orDefault, if_pos hf, hset]
    rfl

theorem version_default (h : Matches m d)
    (hsize : m.buffer.contents.length + 10 < Buffer.writeLimit) :
    ∃ m', orDefault .ver setHttpVersion defaultVersion m = some m' ∧
      Matches m' { d with version := some (d.version.getD defaultVersion) } ∧
      m'.buffer.contents.length ≤ m.buffer.contents.length + 9 := by
  apply orDefault_spec
  · intro hmem
    obtain ⟨v, hv⟩ := Option.isSome_iff_exists.mp (h.ver_iff.mp hmem)
    have hsame : ({ d with version := some (d.version.getD defaultVersion) } : Draft) = d := by
      rw [hv, Option.getD_some, ← hv]
    rw [hsame]
    exact ⟨h, by omega⟩
  · intro hmem
    obtain ⟨m', hset, hm', hlen⟩ := @httpVersion m d h defaultVersion (by decide) hsize hmem
    have hnone : d.version = none := by
      rw [h.ver_iff] at hmem
      simpa using hmem
    rw [hnone]
    exact ⟨m', hset, hm', hlen⟩

theorem status_default (h : Matches m d) (hversion : d.version.isSome)
    (hsize : m.buffer.contents.length + 5 < Buffer.writeLimit) :
    ∃ m', orDefault .statusCode setStatusCode defaultStatus m = some m' ∧
      Matches m' { d with status := some (d.status.getD defaultStatus) } ∧
      m'.buffer.contents.length ≤ m.buffer.contents.length + 4 := by
  apply orDefault_spec
  · intro hmem
    obtain ⟨v, hv⟩ := Option.isSome_iff_exists.mp (h.statusCode_iff.mp hmem)
    have hsame : ({ d with status := some (d.status.getD defaultStatus) } : Draft) = d := by
      rw [hv, Option.getD_some, ← hv]
    rw [hsame]
    exact ⟨h, by omega⟩
  · intro hmem
    obtain ⟨m', hset, hm', hlen⟩ := @statusCode m d h defaultStatus (by decide) hsize
      ⟨hmem, h.ver_iff.mpr hversion⟩
    have hnone : d.status = none := by
      rw [h.statusCode_iff] at hmem
      simpa using hmem
    rw [hnone]
    exact ⟨m', hset, hm', hlen⟩

theorem phrase_default (h : Matches m d) (hstatus : d.status.isSome)
    (hsize : m.buffer.contents.length + 4 < Buffer.writeLimit) :
    ∃ m', orDefault .statusPhrase setStatusPhrase defaultPhrase m = some m' ∧
      Matches m' { d with phrase := some (d.phrase.getD defaultPhrase) } ∧
      m'.buffer.contents.length ≤ m.buffer.contents.length + 4 := by
  apply orDefault_spec
  · intro hmem
    obtain ⟨v, hv⟩ := Option.isSome_iff_exists.mp (h.statusPhrase_iff.mp hmem)
    have hsame : ({ d with phrase := some (d.phrase.getD defaultPhrase) } : Draft) = d := by
      rw [hv, Option.getD_some, ← hv]
    rw [hsame]
    exact ⟨h, by omega⟩
  · intro hmem
    obtain ⟨m', hset, hm', hlen⟩ := @statusPhrase m d h defaultPhrase (by decide) hsize
      ⟨hmem, h.ver_iff.mpr (h.inOrder.status hstatus), h.statusCode_iff.mpr hstatus⟩
    have hnone : d.phrase = none := by
      rw [h.statusPhrase_iff] at hmem
      simpa using hmem
    rw [hnone]
    exact ⟨m', hset, hm', hlen⟩

theorem start_default (h : Matches m d)
    (hsize : m.buffer.contents.length + 32 < Buffer.writeLimit) :
    ∃ m₁ m₂ m₃, orDefault .ver setHttpVersion defaultVersion m = some m₁ ∧
      orDefault .statusCode setStatusCode defaultStatus m₁ = some m₂ ∧
      orDefault .statusPhrase setStatusPhrase defaultPhrase m₂ = some m₃ ∧
      Matches m₃ { d with
        version := some (d.version.getD defaultVersion)
        status := some (d.status.getD defaultStatus)
        phrase := some (d.phrase.getD defaultPhrase) } ∧
      m₃.buffer.contents.length ≤ m.buffer.contents.length + 17 := by
  obtain ⟨m₁, hset₁, hm₁, hlen₁⟩ := h.version_default (by omega)
  obtain ⟨m₂, hset₂, hm₂, hlen₂⟩ := hm₁.status_default rfl (by omega)
  obtain ⟨m₃, hset₃, hm₃, hlen₃⟩ := hm₂.phrase_default rfl (by omega)
  exact ⟨m₁, m₂, m₃, hset₁, hset₂, hset₃, hm₃, by omega⟩

theorem body (h : Matches m d) {b : Text} (hlen : b.length < 2 ^ 31)
    (hsize : m.buffer.contents.length + b.length + 256 < Buffer.writeLimit)
    (hbody : .body ∉ m.flag) :
    ∃ m', m.setBody b b.length = some (true, m') ∧ Matches m' (d.add (.body b)) := by
  obtain ⟨m₁, m₂, m₃, hset₁, hset₂, hset₃, hm₃, hle⟩ := h.start_default (by omega)
  have hnone : d.body = none := by
    rw [h.flag_iff] at hbody
    simpa [Draft.Has] using hbody
  have hbody₃ : .body ∉ m₃.flag := by
    rw [hm₃.flag_iff]
    simp [Draft.Has, hnone]
  have hver : .ver ∈ m₃.flag := hm₃.ver_iff.mpr rfl
  have hcode : .statusCode ∈ m₃.flag := hm₃.statusCode_iff.mpr rfl
  have hphrase : .statusPhrase ∈ m₃.flag := hm₃.statusPhrase_iff.mpr rfl
  have hstart : startFlags ⊆ m₃.flag := by
    intro f hf
    simp only [startFlags, Finset.mem_insert, Finset.mem_singleton] at hf
    rcases hf with rfl | rfl | rfl
    · exact hver
    · exact hcode
    · exact hphrase
  have hlines : (linesText ((if .contType ∈ m₃.flag then [] else [typeName ++ defaultType]) ++
      [constr ++ decimal b.length, []])).length ≤ 96 := by
    have hdigits := length_decimal_le hlen
    have hconstr : constr.length = 16 := rfl
    have htype : (linesText [typeName ++ defaultType]).length = 39 := rfl
    rw [linesText_append, List.length_append]
    have hlast : (linesText [constr ++ decimal b.length, []]).length =
        constr.length + (decimal b.length).length + 4 := by
      simp [linesText, length_crlf]
      omega
    rw [hlast]
    split
    · simp only [linesText, List.flatMap_nil, List.length_nil]
      omega
    · omega
  obtain ⟨m₄, hset₄, hm₄⟩ := setBody_holds b hm₃.holds hstart hbody₃ rfl (by
    rw [← hm₃.contents_eq]
    omega)
  -- the three calls change nothing any more
  have hsame : m.setBody b b.length = m₃.setBody b b.length := by
    rw [setBody, setBody, if_pos hbody, if_pos hbody₃]
    simp only [hset₁, hset₂, hset₃, orDefault_of_mem hver, orDefault_of_mem hcode,
      orDefault_of_mem hphrase, Option.bind_eq_bind, Option.bind_some]
  have htype : .contType ∈ m₃.flag ↔ LineKind.field .contentType ∈ d.lines.map Prod.fst :=
    hm₃.mem_flag_iff (.field .contentType)
  refine ⟨m₄, hsame.trans hset₄, ⟨?_, ?_, ?_⟩⟩
  · rw [hm₄.contents_eq]
    simp only [htype]
    by_cases hmem : LineKind.field .contentType ∈ d.lines.map Prod.fst
    · simp [Draft.text, Draft.add, Draft.linesOf, hnone, Draft.bodyText, Draft.piece, hmem]
    · simp [Draft.text, Draft.add, Draft.linesOf, hnone, Draft.bodyText, Draft.piece, hmem,
        linesText, LineKind.name, HeaderField.name]
  · intro f
    rw [hm₄.flag_eq, Finset.mem_insert, Finset.mem_insert, hm₃.flag_iff]
    have hlast (g : SendFlag) (hg : g ≠ .contType) :
        (∃ p ∈ (d.add (.body b)).lines, p.1.flag = g) ↔ ∃ p ∈ d.lines, p.1.flag = g := by
      simp only [Draft.add]
      split
      · rw [List.append_nil]
      · simp only [List.mem_append, List.mem_singleton, or_and_right, exists_or, exists_eq_left]
        exact or_iff_left fun h ↦ hg h.symm
    cases f with
    | ver => simp [Draft.Has, Draft.add]
    | statusCode => simp [Draft.Has, Draft.add]
    | statusPhrase => simp [Draft.Has, Draft.add]
    | body => simp [Draft.Has, Draft.add]
    | location => simpa [Draft.Has] using (hlast .location (by decide)).symm
    | contCoding => simpa [Draft.Has] using (hlast .contCoding (by decide)).symm
    | contLanguage => simpa [Draft.Has] using (hlast .contLanguage (by decide)).symm
    | date => simpa [Draft.Has] using (hlast .date (by decide)).symm
    | server => simpa [Draft.Has] using (hlast .server (by decide)).symm
    | contType =>
        refine ⟨fun _ ↦ ?_, fun _ ↦ Or.inr (Or.inl rfl)⟩
        change ∃ p ∈ (d.add (.body b)).lines, p.1.flag = .contType
        simp only [Draft.add]
        split
        · rename_i hmem
          obtain ⟨p, hp, hfst⟩ := List.mem_map.mp hmem
          exact ⟨p, List.mem_append_left _ hp, by rw [hfst]; rfl⟩
        · exact ⟨_, List.mem_append_right _ (List.mem_singleton_self _), rfl⟩
  · constructor <;> simp [Draft.add]

end Matches

/-! ## Every sequence of calls -/

/-- The setters with the draft beside them. -/
def setters (literals : Literals) : System (HttpSvrSendMsg × Draft) SetCall where
  enabled _ c := c.ArgumentOk
  step s c := (c.apply literals s.1).map fun r ↦ (r.2, if r.1 then s.2.add c else s.2)

/-- The response stays within what a buffer can hold. -/
def Roomy (s : HttpSvrSendMsg × Draft) (c : SetCall) : Prop :=
  s.1.buffer.contents.length + c.argument.length + 256 < Buffer.writeLimit

/-- A setter of a header line has no effect, or writes its line in front of the body and
not as pointers. -/
def Sound (s : HttpSvrSendMsg × Draft) : SetCall → Prop
  | .line k _ => TakesEffect s.1 k → k ≠ .server ∧ k ≠ .date ∧ .body ∉ s.1.flag
  | _ => True

/-- Every call of the sequence does what it should. -/
def WellBuilt (literals : Literals) : HttpSvrSendMsg × Draft → List SetCall → Prop
  | _, [] => True
  | s, c :: calls => Good literals s.1 s.2 c ∧
      ∀ s', (setters literals).step s c = some s' → WellBuilt literals s' calls

theorem Draft.text_add_line (d : Draft) (k : LineKind) (value : Text) :
    ∃ u, d.text = u ++ Draft.bodyText d.body ∧
      (d.add (.line k value)).text = u ++ (k.name ++ value ++ crlf ++ Draft.bodyText d.body) :=
  ⟨_, rfl, by simp [Draft.text, Draft.add, Draft.linesOf, linesText]⟩

namespace Matches

variable {literals : Literals} {m : HttpSvrSendMsg} {d : Draft}

theorem not_good (h : Matches m d) {k : LineKind} {value : Text} (hval : (0 : Byte) ∉ value)
    (hroom : Roomy (m, d) (.line k value)) (hsound : ¬ Sound (m, d) (.line k value)) :
    ¬ Good literals m d (.line k value) := by
  rw [Sound, Classical.not_imp] at hsound
  obtain ⟨heffect, hunsound⟩ := hsound
  obtain ⟨u, htext, hadd⟩ := d.text_add_line k value
  rintro ⟨ok, m', happly, -, hm'⟩
  simp only [Roomy, SetCall.argument] at hroom
  rw [h.contents_eq] at hroom
  have hpointer (name ending : UInt64) (hname : k.name.length ≤ 8)
      (hset : k.set literals m value = setPointerField k.flag name ending m value) : False := by
    obtain ⟨m₁, hset₁, hlen⟩ := setPointerField_holds name ending h.holds heffect.1
      heffect.startFlags_subset hval (by omega)
    have heq : (ok, m') = (true, m₁) :=
      Option.some_inj.mp (happly.symm.trans (hset.trans hset₁))
    cases heq
    rw [hm'.contents_eq, if_pos rfl, hadd, htext] at hlen
    simp only [List.length_append, length_crlf] at hlen
    omega
  cases k with
  | server => exact hpointer literals.server literals.serverCrlf (by decide) rfl
  | date => exact hpointer literals.date literals.dateCrlf (by decide) rfl
  | field f =>
      have hbody : .body ∈ m.flag := by
        by_contra hbody
        exact hunsound ⟨LineKind.noConfusion, LineKind.noConfusion, hbody⟩
      obtain ⟨b, hb⟩ := Option.isSome_iff_exists.mp ((h.flag_iff .body).mp hbody)
      have hname : f.name.length ≤ 18 := by
        cases f <;> decide
      obtain ⟨m₁, hset₁, hm₁⟩ := setField_holds f.name h.holds heffect.1
        heffect.startFlags_subset hval (by omega)
      have happly' : f.set m value = some (ok, m') := happly
      rw [HeaderField.set_eq] at happly'
      have heq : (ok, m') = (true, m₁) := Option.some_inj.mp (happly'.symm.trans hset₁)
      cases heq
      -- the line and the line of the length begin with different names
      have hcontents := hm'.contents_eq
      rw [hm₁.contents_eq, if_pos rfl, hadd, htext, hb, List.append_assoc,
        List.append_cancel_left_eq] at hcontents
      have htake := congrArg (List.take 10) hcontents
      have hleft : (Draft.bodyText (some b) ++ (f.name ++ value ++ crlf)).take 10 =
          constr.take 10 := by
        simp [Draft.bodyText, linesText, constr]
      rw [hleft] at htake
      cases f <;> simp [HeaderField.name, LineKind.name, constr, locationName, encodingName,
        typeName, languageName] at htake

theorem good_of_sound (h : Matches m d) {c : SetCall} (harg : c.ArgumentOk)
    (hroom : Roomy (m, d) c) (hsound : Sound (m, d) c) : Good literals m d c := by
  simp only [Roomy] at hroom
  cases c with
  | httpVersion ver =>
      have hval : (0 : Byte) ∉ ver := harg
      by_cases hflag : .ver ∈ m.flag
      · apply h.unchanged
        rw [SetCall.apply, setHttpVersion, if_neg (not_not.mpr hflag)]
      · simp only [SetCall.argument] at hroom
        obtain ⟨m', hset, hm', -⟩ := h.httpVersion hval (by omega) hflag
        exact ⟨true, m', hset, Bool.noConfusion, hm'⟩
  | statusCode status =>
      have hval : (0 : Byte) ∉ status := harg
      by_cases hflag : .statusCode ∉ m.flag ∧ .ver ∈ m.flag
      · simp only [SetCall.argument] at hroom
        obtain ⟨m', hset, hm', -⟩ := h.statusCode hval (by omega) hflag
        exact ⟨true, m', hset, Bool.noConfusion, hm'⟩
      · apply h.unchanged
        rw [SetCall.apply, setStatusCode, if_neg hflag]
  | statusPhrase phrase =>
      have hval : (0 : Byte) ∉ phrase := harg
      by_cases hflag : .statusPhrase ∉ m.flag ∧ .ver ∈ m.flag ∧ .statusCode ∈ m.flag
      · simp only [SetCall.argument] at hroom
        obtain ⟨m', hset, hm', -⟩ := h.statusPhrase hval (by omega) hflag
        exact ⟨true, m', hset, Bool.noConfusion, hm'⟩
      · apply h.unchanged
        rw [SetCall.apply, setStatusPhrase, if_neg hflag]
  | line k value =>
      have hval : (0 : Byte) ∉ value := harg
      by_cases heffect : TakesEffect m k
      · obtain ⟨hserver, hdate, hbody⟩ := hsound heffect
        simp only [SetCall.argument] at hroom
        cases k with
        | field f =>
            obtain ⟨m', hset, hm'⟩ := h.field hval (by omega) heffect hbody
            exact ⟨true, m', hset, Bool.noConfusion, hm'⟩
        | server => exact absurd rfl hserver
        | date => exact absurd rfl hdate
      · exact h.unchanged (set_of_not_takesEffect heffect value)
  | body b =>
      by_cases hflag : .body ∈ m.flag
      · apply h.unchanged
        rw [SetCall.apply, setBody, if_neg (not_not.mpr hflag)]
      · obtain ⟨m', hset, hm'⟩ := h.body harg hroom hflag
        exact ⟨true, m', hset, Bool.noConfusion, hm'⟩

theorem good_iff (h : Matches m d) {c : SetCall} (harg : c.ArgumentOk)
    (hroom : Roomy (m, d) c) : Good literals m d c ↔ Sound (m, d) c := by
  constructor
  · intro hgood
    cases c with
    | line k value =>
        by_contra hsound
        exact h.not_good harg hroom hsound hgood
    | _ => trivial
  · exact h.good_of_sound harg hroom

theorem wellBuilt_iff_from {calls : List SetCall} (h : Matches m d)
    (hroom : (setters literals).Allowed Roomy (m, d) calls) :
    WellBuilt literals (m, d) calls ↔ (setters literals).Allowed Sound (m, d) calls := by
  induction calls generalizing m d with
  | nil => exact ⟨fun _ ↦ trivial, fun _ ↦ trivial⟩
  | cons c calls ih =>
      obtain ⟨harg, hroom, hrest⟩ := hroom
      have hgood := @good_iff literals m d h c harg hroom
      have hnext : Good literals m d c → ∀ s', (setters literals).step (m, d) c = some s' →
          (WellBuilt literals s' calls ↔ (setters literals).Allowed Sound s' calls) := by
        rintro ⟨ok, m', happly, -, hm'⟩ s' hstep
        have hs' : s' = (m', if ok then d.add c else d) := by
          simp only [setters, happly, Option.map_some, Option.some.injEq] at hstep
          exact hstep.symm
        subst hs'
        exact ih hm' (hrest _ hstep)
      constructor
      · rintro ⟨hc, hcalls⟩
        refine ⟨harg, hgood.mp hc, fun s' hstep ↦ ?_⟩
        exact (hnext hc s' hstep).mp (hcalls s' hstep)
      · rintro ⟨-, hsound, hcalls⟩
        have hc := hgood.mpr hsound
        refine ⟨hc, fun s' hstep ↦ ?_⟩
        exact (hnext hc s' hstep).mpr (hcalls s' hstep)

end Matches

/-- After every call the buffer holds the response that is meant exactly when no header
line is written as pointers or behind the body. -/
theorem wellBuilt_iff (literals : Literals) {calls : List SetCall}
    (hroom : (setters literals).Allowed Roomy (HttpSvrSendMsg.new, {}) calls) :
    WellBuilt literals (HttpSvrSendMsg.new, {}) calls ↔
      (setters literals).Allowed Sound (HttpSvrSendMsg.new, {}) calls :=
  Matches.new.wellBuilt_iff_from hroom

instance (c : SetCall) : Decidable c.ArgumentOk :=
  match c with
  | .httpVersion _ | .statusCode _ | .statusPhrase _ | .line _ _ =>
      inferInstanceAs (Decidable (_ ∉ _))
  | .body _ => inferInstanceAs (Decidable (_ < _))

instance (literals : Literals) (s : HttpSvrSendMsg × Draft) (c : SetCall) :
    Decidable ((setters literals).enabled s c) := inferInstanceAs (Decidable c.ArgumentOk)

instance (s : HttpSvrSendMsg × Draft) (c : SetCall) : Decidable (Roomy s c) :=
  inferInstanceAs (Decidable (_ < _))

instance (m : HttpSvrSendMsg) (k : LineKind) : Decidable (TakesEffect m k) :=
  inferInstanceAs (Decidable (_ ∧ _))

instance (s : HttpSvrSendMsg × Draft) (c : SetCall) : Decidable (Sound s c) :=
  match c with
  | .line _ _ => inferInstanceAs (Decidable (_ → _))
  | .httpVersion _ | .statusCode _ | .statusPhrase _ | .body _ => isTrue trivial

/-- Some addresses. -/
def sampleLiterals : Literals where
  server := 4198400
  serverCrlf := 4198416
  date := 4198432
  dateCrlf := 4198448

/-- A response whose setters are called in order, and `SetSever` too early. -/
def sampleCalls : List SetCall :=
  [.line .server [83], .httpVersion [72], .statusCode [50], .line (.field .location) [47],
    .statusPhrase [79], .line (.field .location) [47], .body [120]]

theorem wellBuilt_iff_sampleCalls :
    WellBuilt sampleLiterals (HttpSvrSendMsg.new, {}) sampleCalls :=
  (wellBuilt_iff sampleLiterals (by decide +kernel)).mpr (by decide +kernel)

/-- A location behind the body, and a server name. -/
theorem wellBuilt_fails :
    ¬ WellBuilt sampleLiterals (HttpSvrSendMsg.new, {})
        [.body [120], .line (.field .location) [47]] ∧
      ¬ WellBuilt sampleLiterals (HttpSvrSendMsg.new, {})
        [.httpVersion [72], .statusCode [50], .statusPhrase [79], .line .server [83]] := by
  constructor
  · rw [Matches.new.wellBuilt_iff_from (by decide +kernel)]
    decide +kernel
  · rw [Matches.new.wellBuilt_iff_from (by decide +kernel)]
    decide +kernel

end Http

end Slience
