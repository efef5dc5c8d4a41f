import Mathlib.Data.List.TakeWhile
import Slience.Netio.HttpGetters
import Slience.Netio.HttpNumber
import Slience.Netio.HttpSvrSend

/-!
# A response reads back

What the setters of `HttpSvrSendMsg` write, `HttpCliRecvMsg` reads back in any chunking: the
three tokens, the header lines in the order they were written, and the body, whose
length goes through a decimal number and `atoi`.
-/

namespace Slience

namespace Http

/-! ## Numbers -/

theorem digitsVal_decimal (n : ℕ) : digitsVal (decimal n) = n := by
  by_cases hn : n = 0
  · subst hn
    rfl
  · have hdigit : ∀ d ∈ Nat.digits 10 n, (UInt8.ofNat (48 + d)).toNat - 48 = d := by
      intro d hd
      have hlt := Nat.digits_lt_base (by decide : 1 < 10) hd
      rw [UInt8.toNat_ofNat']
      omega
    have hfold : ∀ l : List ℕ, (∀ d ∈ l, (UInt8.ofNat (48 + d)).toNat - 48 = d) →
        digitsVal (l.reverse.map fun d ↦ UInt8.ofNat (48 + d)) = Nat.ofDigits 10 l := by
      intro l hl
      induction l with
      | nil => rfl
      | cons d l ih =>
          rw [List.forall_mem_cons] at hl
          have ih := ih hl.2
          rw [digitsVal] at ih ⊢
          rw [List.reverse_cons, List.map_append, List.foldl_append, ih, List.map_cons,
            List.map_nil, List.foldl_cons, List.foldl_nil, hl.1, Nat.ofDigits_cons]
          ring
    rw [decimal, if_neg hn, hfold _ hdigit, Nat.ofDigits_digits]

theorem isDigit_decimal (n : ℕ) : ∀ b ∈ decimal n, isDigit b = true := by
  intro b hb
  unfold decimal at hb
  split at hb
  · cases List.mem_singleton.mp hb
    rfl
  · obtain ⟨d, hd, rfl⟩ := List.mem_map.mp hb
    have hlt := Nat.digits_lt_base (by decide : 1 < 10) (List.mem_reverse.mp hd)
    interval_cases d <;> rfl

theorem length_decimal_le {n : ℕ} (h : n < 2 ^ 31) : (decimal n).length ≤ 10 := by
  unfold decimal
  split
  · decide
  · rw [List.length_map, List.length_reverse, Nat.digits_length_le_iff (by decide)]
    omega

theorem decimal_ne_nil (n : ℕ) : decimal n ≠ [] := by
  unfold decimal
  split
  · decide
  · rename_i hn
    simpa [Nat.digits_ne_nil_iff_ne_zero] using hn

theorem atoi_decimal {n : ℕ} (h : n < 2 ^ 31) : atoi (decimal n) = some (n : ℤ) := by
  have hval := digitsVal_decimal n
  have hatoi := @atoi_digits [] (decimal n) [] (by simp) (decimal_ne_nil n) (isDigit_decimal n)
    (by simp) (by rw [hval]; exact h)
  rwa [hval, List.nil_append, List.append_nil] at hatoi

/-! ## The header lines -/

/-- The setters of header lines. -/
inductive HeaderField
  | location
  | contentEncode
  | contentType
  | contentLanguage
  deriving DecidableEq

namespace HeaderField

def flag : HeaderField → SendFlag
  | location => .location
  | contentEncode => .contCoding
  | contentType => .contType
  | contentLanguage => .contLanguage

def name : HeaderField → Text
  | location => locationName
  | contentEncode => encodingName
  | contentType => typeName
  | contentLanguage => languageName

def set : HeaderField → HttpSvrSendMsg → Text → Option (Bool × HttpSvrSendMsg)
  | location => HttpSvrSendMsg.setLocation
  | contentEncode => HttpSvrSendMsg.setContentEncode
  | contentType => HttpSvrSendMsg.setContentType
  | contentLanguage => HttpSvrSendMsg.setContentLanguage

theorem set_eq (f : HeaderField) : f.set = HttpSvrSendMsg.setField f.flag f.name := by
  cases f <;> rfl

theorem flag_injective : Function.Injective flag := by
  intro f g h
  cases f <;> cases g <;> first | rfl | cases h

end HeaderField

/-- The header lines of a response, the length of the body last. -/
def headerLines (fields : List (HeaderField × Text)) (body : Text) : List Text :=
  fields.map (fun p ↦ p.1.name ++ p.2) ++
    ((if HeaderField.contentType ∈ fields.map Prod.fst then [] else [typeName ++ defaultType]) ++
      [constr ++ decimal body.length])

/-- The bytes of a response. -/
def responseText (version status phrase : Text) (fields : List (HeaderField × Text))
    (body : Text) : Text :=
  startText version status phrase ++ (linesText (headerLines fields body ++ [[]]) ++ body)

theorem linesText_append (lines lines' : List Text) :
    linesText (lines ++ lines') = linesText lines ++ linesText lines' := by
  simp [linesText]

theorem fieldValue_name (f : HeaderField) (x : Text) : fieldValue (f.name ++ x) = some none := by
  cases f <;> rfl

theorem fieldValue_length {digits : Text} (h : cr ∉ digits) (x : Text) :
    fieldValue (constr ++ (digits ++ cr :: x)) = some (some digits) := by
  have hscan : scanName constr (constr ++ (digits ++ cr :: x)) =
      some ([sp], sp :: (digits ++ cr :: x)) := rfl
  have htake : (digits ++ cr :: x).takeWhile (· ≠ cr) = digits := by
    rw [takeWhile_append_cr, List.takeWhile_eq_self_iff]
    intro b hb
    have hne : b ≠ cr := fun heq ↦ h (heq ▸ hb)
    simpa using hne
  simp only [fieldValue, hscan, Option.bind_eq_bind, Option.bind_some, List.head?_cons,
    if_true, List.tail_cons, htake]
  rw [if_pos (by simp)]

theorem cr_notMem_decimal (n : ℕ) : cr ∉ decimal n := by
  intro hmem
  exact ne_of_isDigit (isDigit_decimal n cr hmem) (by decide) rfl

theorem lengthField_append {pre : List Text} (rest : List Text)
    (h : ∀ l ∈ pre, fieldValue (l ++ crlf) = some none) :
    lengthField (pre ++ rest) = lengthField rest := by
  induction pre with
  | nil => rfl
  | cons l pre ih =>
      rw [List.forall_mem_cons] at h
      rw [List.cons_append, lengthField]
      split
      · exact ih h.2
      · rw [h.1]
        exact ih h.2

theorem lengthField_headerLines (fields : List (HeaderField × Text)) (body : Text) :
    lengthField (headerLines fields body ++ [[]]) = some (decimal body.length) := by
  have hpos := List.length_pos_of_ne_nil (decimal_ne_nil body.length)
  have hconstr : constr.length = 16 := rfl
  have hlast : lengthField [constr ++ decimal body.length, []] = some (decimal body.length) := by
    rw [lengthField, if_neg (by rw [List.length_append]; omega), List.append_assoc, crlf,
      fieldValue_length (cr_notMem_decimal _)]
  rw [headerLines, List.append_assoc, List.append_assoc, lengthField_append, lengthField_append]
  · exact hlast
  · intro l hl
    split at hl
    · cases hl
    · cases List.mem_singleton.mp hl
      rw [List.append_assoc]
      exact fieldValue_name .contentType _
  · intro l hl
    obtain ⟨p, -, rfl⟩ := List.mem_map.mp hl
    rw [List.append_assoc]
    exact fieldValue_name p.1 _

end Http

/-! ## What the setters write -/

namespace HttpSvrSendMsg

open Http

/-- The bytes written so far and the setters called. -/
structure Holds (m : HttpSvrSendMsg) (text : Text) (flag : Finset SendFlag) : Prop where
  contents_eq : m.buffer.contents = text
  flag_eq : m.flag = flag

theorem strlen_of_notMem {s : Text} (h : (0 : Byte) ∉ s) : strlen s = s.length := by
  have htake : s.takeWhile (· ≠ 0) = s := by
    rw [List.takeWhile_eq_self_iff]
    intro b hb
    have hne : b ≠ 0 := fun heq ↦ h (heq ▸ hb)
    simpa using hne
  rw [strlen, htake]

theorem write_holds {m : HttpSvrSendMsg} {text s : Text} {flag : Finset SendFlag} {len : ℕ}
    (hm : m.Holds text flag) (hlen : len = s.length)
    (hsize : text.length + s.length < Buffer.writeLimit) :
    ∃ m', m.write s len = some m' ∧ m'.Holds (text ++ s) flag := by
  have hlimit : Buffer.writeLimit < 2 ^ 32 := by decide
  have hcast : (UInt32.ofNat len).toNat = s.length := by
    rw [UInt32.toNat_ofNat']
    omega
  obtain ⟨b, hwrite, hb⟩ := m.buffer.write_spec hcast.le (by
    rw [hcast, ← Buffer.length_contents, hm.contents_eq]
    exact hsize)
  refine ⟨{ m with buffer := b }, ?_, ?_, hm.flag_eq⟩
  · rw [write, hwrite]
    rfl
  · rw [hb.contents_eq, hm.contents_eq, hcast, List.take_length]

theorem write_write_holds {m : HttpSvrSendMsg} {text s s' : Text} {flag : Finset SendFlag}
    {len len' : ℕ} (hm : m.Holds text flag) (hlen : len = s.length) (hlen' : len' = s'.length)
    (hsize : text.length + s.length + s'.length < Buffer.writeLimit) :
    ∃ m₁ m', m.write s len = some m₁ ∧ m₁.write s' len' = some m' ∧
      m'.Holds (text ++ (s ++ s')) flag := by
  obtain ⟨m₁, hwrite, hm₁⟩ := write_holds hm hlen (by omega)
  obtain ⟨m', hwrite', hm'⟩ := write_holds hm₁ hlen' (by rw [List.length_append]; exact hsize)
  rw [List.append_assoc] at hm'
  exact ⟨m₁, m', hwrite, hwrite', hm'⟩

theorem setFlag_holds {m : HttpSvrSendMsg} {text : Text} {flag : Finset SendFlag}
    (hm : m.Holds text flag) (f : SendFlag) : (m.setFlag f).Holds text (insert f flag) :=
  ⟨hm.contents_eq, by rw [setFlag, hm.flag_eq]⟩

theorem setHttpVersion_holds {m : HttpSvrSendMsg} {text ver : Text} {flag : Finset SendFlag}
    (hm : m.Holds text flag) (hflag : .ver ∉ flag) (hver : (0 : Byte) ∉ ver)
    (hsize : text.length + ver.length + 1 < Buffer.writeLimit) :
    ∃ m', m.setHttpVersion ver = some (true, m') ∧
      m'.Holds (text ++ (ver ++ [sp])) (insert .ver flag) := by
  obtain ⟨m₁, m₂, hwrite, hwrite', hm₂⟩ :=
    write_write_holds hm (strlen_of_notMem hver) (show 1 = [sp].length from rfl) hsize
  refine ⟨m₂.setFlag .ver, ?_, setFlag_holds hm₂ _⟩
  rw [setHttpVersion, hm.flag_eq, if_pos hflag, hwrite]
  simp only [Option.bind_eq_bind, Option.bind_some, hwrite']
  rfl

theorem setStatusCode_holds {m : HttpSvrSendMsg} {text status : Text} {flag : Finset SendFlag}
    (hm : m.Holds text flag) (hflag : .statusCode ∉ flag ∧ .ver ∈ flag)
    (hstatus : (0 : Byte) ∉ status)
    (hsize : text.length + status.length + 1 < Buffer.writeLimit) :
    ∃ m', m.setStatusCode status = some (true, m') ∧
      m'.Holds (text ++ (status ++ [sp])) (insert .statusCode flag) := by
  obtain ⟨m₁, m₂, hwrite, hwrite', hm₂⟩ :=
    write_write_holds hm (strlen_of_notMem hstatus) (show 1 = [sp].length from rfl) hsize
  refine ⟨m₂.setFlag .statusCode, ?_, setFlag_holds hm₂ _⟩
  rw [setStatusCode, hm.flag_eq, if_pos hflag, hwrite]
  simp only [Option.bind_eq_bind, Option.bind_some, hwrite']
  rfl

theorem setStatusPhrase_holds {m : HttpSvrSendMsg} {text phrase : Text} {flag : Finset SendFlag}
    (hm : m.Holds text flag)
    (hflag : .statusPhrase ∉ flag ∧ .ver ∈ flag ∧ .statusCode ∈ flag)
    (hphrase : (0 : Byte) ∉ phrase)
    (hsize : text.length + phrase.length + 2 < Buffer.writeLimit) :
    ∃ m', m.setStatusPhrase phrase = some (true, m') ∧
      m'.Holds (text ++ (phrase ++ crlf)) (insert .statusPhrase flag) := by
  obtain ⟨m₁, m₂, hwrite, hwrite', hm₂⟩ :=
    write_write_holds hm (strlen_of_notMem hphrase) (show 2 = crlf.length from rfl) hsize
  refine ⟨m₂.setFlag .statusPhrase, ?_, setFlag_holds hm₂ _⟩
  rw [setStatusPhrase, hm.flag_eq, if_pos hflag, hwrite]
  simp only [Option.bind_eq_bind, Option.bind_some, hwrite']
  rfl

/-- The flags of the first line. -/
def startFlags : Finset SendFlag := {.ver, .statusCode, .statusPhrase}

theorem setField_holds {m : HttpSvrSendMsg} {text value : Text} {flag : Finset SendFlag}
    {f : SendFlag} (name : Text) (hm : m.Holds text flag) (hf : f ∉ flag)
    (hstart : startFlags ⊆ flag) (hvalue : (0 : Byte) ∉ value)
    (hsize : text.length + name.length + value.length + 2 < Buffer.writeLimit) :
    ∃ m', setField f name m value = some (true, m') ∧
      m'.Holds (text ++ (name ++ value ++ crlf)) (insert f flag) := by
  have hflag : f ∉ flag ∧ .ver ∈ flag ∧ .statusCode ∈ flag ∧ .statusPhrase ∈ flag :=
    ⟨hf, hstart (by decide), hstart (by decide), hstart (by decide)⟩
  obtain ⟨m₁, hwrite, hm₁⟩ := write_holds hm (rfl : name.length = name.length) (by omega)
  obtain ⟨m₂, m₃, hwrite', hwrite'', hm₃⟩ :=
    write_write_holds hm₁ (strlen_of_notMem hvalue) (show 2 = crlf.length from rfl) (by
      rw [List.length_append, length_crlf]
      exact hsize)
  rw [List.append_assoc, ← List.append_assoc name] at hm₃
  refine ⟨m₃.setFlag f, ?_, setFlag_holds hm₃ _⟩
  rw [setField, hm.flag_eq, if_pos hflag, hwrite]
  simp only [Option.bind_eq_bind, Option.bind_some, hwrite', hwrite'']
  rfl

/-- The setters of header lines, one after the other. -/
def setFields : HttpSvrSendMsg → List (HeaderField × Text) → Option HttpSvrSendMsg
  | m, [] => some m
  | m, (f, value) :: fields => do
      let (_, m) ← f.set m value
      setFields m fields

/-- A response, built as its setters are meant to be called. -/
def build (version status phrase : Text) (fields : List (HeaderField × Text)) (body : Text) :
    Option HttpSvrSendMsg := do
  let (_, m) ← new.setHttpVersion version
  let (_, m) ← m.setStatusCode status
  let (_, m) ← m.setStatusPhrase phrase
  let m ← m.setFields fields
  let (_, m) ← m.setBody body body.length
  return m

theorem setFields_holds {m : HttpSvrSendMsg} {text : Text} {flag : Finset SendFlag}
    {fields : List (HeaderField × Text)} (hm : m.Holds text flag) (hstart : startFlags ⊆ flag)
    (hnew : ∀ p ∈ fields, p.1.flag ∉ flag) (hnodup : (fields.map Prod.fst).Nodup)
    (hvalues : ∀ p ∈ fields, (0 : Byte) ∉ p.2)
    (hsize : text.length + (linesText (fields.map fun p ↦ p.1.name ++ p.2)).length <
      Buffer.writeLimit) :
    ∃ m', m.setFields fields = some m' ∧
      m'.Holds (text ++ linesText (fields.map fun p ↦ p.1.name ++ p.2))
        ((fields.map fun p ↦ p.1.flag).toFinset ∪ flag) := by
  induction fields generalizing m text flag with
  | nil => exact ⟨m, rfl, by simpa [linesText] using hm⟩
  | cons p fields ih =>
      obtain ⟨f, value⟩ := p
      rw [List.forall_mem_cons] at hnew hvalues
      rw [List.map_cons, List.nodup_cons] at hnodup
      rw [List.map_cons, length_linesText_cons, List.length_append] at hsize
      dsimp only at hsize hnew hvalues
      obtain ⟨m₁, hset, hm₁⟩ := setField_holds f.name hm hnew.1 hstart hvalues.1 (by omega)
      obtain ⟨m', hrest, hm'⟩ := ih hm₁ (hstart.trans (Finset.subset_insert _ _))
        (by
          intro p hp
          rw [Finset.mem_insert, not_or]
          refine ⟨fun heq ↦ hnodup.1 ?_, hnew.2 p hp⟩
          exact List.mem_map.mpr ⟨p, hp, HeaderField.flag_injective heq⟩)
        hnodup.2 hvalues.2
        (by
          simp only [List.length_append, length_crlf]
          omega)
      refine ⟨m', ?_, ?_, ?_⟩
      · rw [setFields, HeaderField.set_eq, hset]
        exact hrest
      · rw [hm'.contents_eq]
        simp [linesText]
      · rw [hm'.flag_eq]
        simp

theorem orDefault_of_mem {m : HttpSvrSendMsg} {f : SendFlag}
    {set : HttpSvrSendMsg → Text → Option (Bool × HttpSvrSendMsg)} {value : Text}
    (h : f ∈ m.flag) : orDefault f set value m = some m := by
  rw [orDefault, if_neg (not_not.mpr h)]

theorem orDefault_type_holds {m : HttpSvrSendMsg} {text : Text} {flag : Finset SendFlag}
    (hm : m.Holds text flag) (hstart : startFlags ⊆ flag)
    (hsize : text.length + (typeName ++ defaultType ++ crlf).length < Buffer.writeLimit) :
    ∃ m', orDefault .contType setContentType defaultType m = some m' ∧
      m'.Holds (text ++ linesText
        (if .contType ∈ flag then [] else [typeName ++ defaultType])) (insert .contType flag) := by
  by_cases htype : .contType ∈ flag
  · refine ⟨m, orDefault_of_mem (hm.flag_eq ▸ htype), ?_⟩
    rw [if_pos htype, Finset.insert_eq_of_mem htype]
    simpa [linesText] using hm
  · obtain ⟨m', hset, hm'⟩ := setField_holds typeName hm htype hstart
      (show (0 : Byte) ∉ defaultType by decide) (by
        simp only [List.length_append, length_crlf] at hsize
        omega)
    refine ⟨m', ?_, ?_⟩
    · rw [orDefault, hm.flag_eq, if_pos htype, setContentType, hset]
      rfl
    · rw [if_neg htype]
      simpa [linesText] using hm'

theorem formatInt_natCast (n : ℕ) : formatInt (n : ℤ) = decimal n := by
  rw [formatInt, if_neg (by omega), Int.toNat_natCast]

theorem setBody_holds {m : HttpSvrSendMsg} {text : Text} {flag : Finset SendFlag}
    {lines : List Text} (body : Text) (hm : m.Holds text flag) (hstart : startFlags ⊆ flag)
    (hbody : .body ∉ flag)
    (hlines : lines = (if .contType ∈ flag then [] else [typeName ++ defaultType]) ++
      [constr ++ decimal body.length, []])
    (hsize : text.length + (linesText lines).length + body.length + 40 < Buffer.writeLimit) :
    ∃ m', m.setBody body body.length = some (true, m') ∧
      m'.Holds (text ++ (linesText lines ++ body)) (insert .body (insert .contType flag)) := by
  have hlimit : Buffer.writeLimit < 2 ^ 32 := by decide
  have hname : (typeName ++ defaultType ++ crlf).length = 39 := rfl
  have hconstr : constr.length = 16 := rfl
  have hends : (crlf ++ crlf).length = 4 := rfl
  have hmem (f : SendFlag) (hf : f ∈ startFlags) : f ∈ m.flag := by
    rw [hm.flag_eq]
    exact hstart hf
  have hver : orDefault .ver setHttpVersion defaultVersion m = some m :=
    orDefault_of_mem (hmem .ver (by decide))
  have hstatus : orDefault .statusCode setStatusCode defaultStatus m = some m :=
    orDefault_of_mem (hmem .statusCode (by decide))
  have hphrase : orDefault .statusPhrase setStatusPhrase defaultPhrase m = some m :=
    orDefault_of_mem (hmem .statusPhrase (by decide))
  obtain ⟨m₁, htype, hm₁⟩ := orDefault_type_holds hm hstart (by omega)
  have hsplit : linesText lines =
      linesText (if .contType ∈ flag then [] else [typeName ++ defaultType]) ++
        (constr ++ (decimal body.length ++ (crlf ++ crlf))) := by
    rw [hlines, linesText_append]
    simp [linesText]
  rw [hsplit] at hsize ⊢
  simp only [List.length_append] at hsize
  obtain ⟨m₂, hwrite₂, hm₂⟩ := write_holds hm₁ (show 16 = constr.length from rfl) (by
    rw [List.length_append]
    omega)
  obtain ⟨m₃, m₄, hwrite₃, hwrite₄, hm₄⟩ := write_write_holds hm₂
    (rfl : (decimal body.length).length = _) (show 4 = (crlf ++ crlf).length from rfl) (by
      simp only [List.length_append]
      omega)
  have hcast : (UInt32.ofInt (body.length : ℤ)).toNat = body.length := by
    rw [UInt32.ofInt, UInt32.toNat_ofNat']
    omega
  obtain ⟨b, hwrite, hb⟩ := m₄.buffer.write_spec hcast.le (by
    rw [hcast, ← Buffer.length_contents, hm₄.contents_eq]
    simp only [List.length_append]
    omega)
  refine ⟨{ m₄ with buffer := b }.setFlag .body, ?_, ?_, ?_⟩
  · rw [setBody, hm.flag_eq, if_pos hbody]
    simp only [hver, hstatus, hphrase, htype, formatInt_natCast, Option.bind_eq_bind,
      Option.bind_some, hwrite₂, hwrite₃, hwrite₄, hwrite]
    rfl
  · have hcontents : b.contents = _ := hb.contents_eq
    rw [hcast, List.take_length, hm₄.contents_eq] at hcontents
    simpa [setFlag] using hcontents
  · rw [setFlag, hm₄.flag_eq]

theorem mem_flags_iff {fields : List (HeaderField × Text)} :
    SendFlag.contType ∈ (fields.map fun p ↦ p.1.flag).toFinset ∪ startFlags ↔
      HeaderField.contentType ∈ fields.map Prod.fst := by
  have hstart : SendFlag.contType ∉ startFlags := by decide
  rw [Finset.mem_union, or_iff_left hstart, List.mem_toFinset, List.mem_map, List.mem_map]
  constructor
  · rintro ⟨p, hp, hflag⟩
    exact ⟨p, hp, HeaderField.flag_injective hflag⟩
  · rintro ⟨p, hp, hfst⟩
    exact ⟨p, hp, by rw [hfst]; rfl⟩

theorem build_spec {version status phrase : Text} {fields : List (HeaderField × Text)}
    {body : Text} (hversion : (0 : Byte) ∉ version) (hstatus : (0 : Byte) ∉ status)
    (hphrase : (0 : Byte) ∉ phrase) (hvalues : ∀ p ∈ fields, (0 : Byte) ∉ p.2)
    (hnodup : (fields.map Prod.fst).Nodup)
    (hsize : (responseText version status phrase fields body).length + 40 < Buffer.writeLimit) :
    ∃ m, build version status phrase fields body = some m ∧
      m.buffer.contents = responseText version status phrase fields body := by
  have hstart := length_startText version status phrase
  have hheader : headerLines fields body ++ [[]] = fields.map (fun p ↦ p.1.name ++ p.2) ++
      ((if HeaderField.contentType ∈ fields.map Prod.fst then []
        else [typeName ++ defaultType]) ++ [constr ++ decimal body.length, []]) := by
    simp [headerLines]
  rw [responseText, hheader, linesText_append] at hsize ⊢
  simp only [List.length_append] at hsize
  have hnew : new.Holds [] ∅ := ⟨rfl, rfl⟩
  obtain ⟨m₁, hset₁, hm₁⟩ := setHttpVersion_holds hnew (by decide) hversion (by
    rw [List.length_nil]
    omega)
  obtain ⟨m₂, hset₂, hm₂⟩ := setStatusCode_holds hm₁ (by decide) hstatus (by
    simp only [List.length_append, List.length_nil, List.length_singleton]
    omega)
  obtain ⟨m₃, hset₃, hm₃⟩ := setStatusPhrase_holds hm₂ (by decide) hphrase (by
    simp only [List.length_append, List.length_nil, List.length_singleton]
    omega)
  have htext₃ : [] ++ (version ++ [sp]) ++ (status ++ [sp]) ++ (phrase ++ crlf) =
      startText version status phrase := by
    simp [startText]
  have hflags : (insert SendFlag.statusPhrase
      (insert SendFlag.statusCode (insert SendFlag.ver ∅))) = startFlags := by decide
  rw [htext₃, hflags] at hm₃
  obtain ⟨m₄, hset₄, hm₄⟩ := setFields_holds hm₃ subset_rfl
    (fun p _ ↦ by cases p.1 <;> decide) hnodup hvalues (by omega)
  obtain ⟨m₅, hset₅, hm₅⟩ := setBody_holds body hm₄ Finset.subset_union_right
    (by
      rw [Finset.mem_union, List.mem_toFinset, List.mem_map, not_or]
      refine ⟨?_, by decide⟩
      rintro ⟨p, -, hp⟩
      cases hfst : p.1 <;> rw [hfst] at hp <;> cases hp)
    rfl (by
      simp only [mem_flags_iff, List.length_append]
      omega)
  refine ⟨m₅, ?_, ?_⟩
  · simp only [build, hset₁, hset₂, hset₃, hset₄, hset₅, Option.bind_eq_bind, Option.bind_some]
    rfl
  · rw [hm₅.contents_eq]
    simp only [mem_flags_iff, List.append_assoc]

end HttpSvrSendMsg

end Slience
