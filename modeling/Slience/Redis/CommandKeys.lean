import Slience.Redis.CommandParse

/-!
# The keys of a command

The parser on the image of a command.  Between two arguments it is in a state of an automaton that
reads one argument at a time; what this automaton finds is told for each class of commands.  The
parser finds the same keys, at their places in the image, and refuses what the automaton refuses.
-/

namespace Slience

namespace Redis

open Logstream (decimalDigit decimalText)

namespace CmdParse

variable {cmd : Text} {s s' s'' : CmdParse}

/-- A state with another position. -/
def moveTo (s : CmdParse) (p : ℕ) : CmdParse := { s with p }

/-- The loop comes from one state to another one further on. -/
def Reaches (cmd : Text) (s s' : CmdParse) : Prop :=
  s.p ≤ s'.p ∧ ∃ n ≤ s'.p - s.p, ∀ fuel, loop cmd (fuel + n) s = loop cmd fuel s'

theorem Reaches.refl (s : CmdParse) : Reaches cmd s s :=
  ⟨le_rfl, 0, Nat.zero_le _, fun _ ↦ rfl⟩

theorem Reaches.trans (h : Reaches cmd s s') (h' : Reaches cmd s' s'') : Reaches cmd s s'' := by
  obtain ⟨hle, n, hn, hloop⟩ := h
  obtain ⟨hle', n', hn', hloop'⟩ := h'
  refine ⟨hle.trans hle', n' + n, by omega, fun fuel ↦ ?_⟩
  rw [← Nat.add_assoc, hloop, hloop']

theorem reaches_turn {p p' : ℕ} {ch : Byte} (hch : cmd[p]? = some ch)
    (h : (s.moveTo p).turn cmd ch = .next (s'.moveTo p')) (hp : p ≤ p') :
    Reaches cmd (s.moveTo p) (s'.moveTo (p' + 1)) := by
  refine ⟨hp.trans (Nat.le_succ _), 1, ?_, fun fuel ↦ ?_⟩
  · change 1 ≤ p' + 1 - p
    omega
  · rw [loop, show cmd[(s.moveTo p).p]? = some ch from hch]
    simp only [h]
    rfl

theorem getElem_of_drop {p : ℕ} {b : Byte} {t : Text} (h : cmd.drop p = b :: t) :
    cmd[p]? = some b ∧ p < cmd.length ∧ cmd.drop (p + 1) = t := by
  have hlt : p < cmd.length := by
    have hlen := congrArg List.length h
    rw [List.length_drop, List.length_cons] at hlen
    omega
  rw [List.drop_eq_getElem_cons hlt] at h
  obtain ⟨rfl, rfl⟩ := List.cons.inj h
  exact ⟨List.getElem?_eq_getElem hlt, hlt, rfl⟩

theorem drop_of_append {p : ℕ} {a t : Text} (h : cmd.drop p = a ++ t) :
    cmd.drop (p + a.length) = t := by
  rw [← List.drop_drop, h, List.drop_left]

/-- What the loop ends with. -/
theorem Reaches.loop_done {ch : Byte} {t : CmdParse} (h : Reaches cmd init s)
    (hch : cmd[s.p]? = some ch) (hturn : s.turn cmd ch = .done t) :
    loop cmd cmd.length init = .done t := by
  obtain ⟨-, n, hn, hloop⟩ := h
  have hlt : s.p < cmd.length := (List.getElem?_eq_some_iff.mp hch).1
  change n ≤ s.p - 0 at hn
  obtain ⟨fuel, hfuel⟩ := Nat.exists_eq_add_of_lt (show n < cmd.length by omega)
  rw [show cmd.length = fuel + 1 + n by omega, hloop, loop, hch]
  simp only [hturn]

theorem Reaches.loop_error {ch : Byte} {t : CmdParse} (h : Reaches cmd init s)
    (hch : cmd[s.p]? = some ch) (hturn : s.turn cmd ch = .error t) :
    loop cmd cmd.length init = .error t := by
  obtain ⟨-, n, hn, hloop⟩ := h
  have hlt : s.p < cmd.length := (List.getElem?_eq_some_iff.mp hch).1
  change n ≤ s.p - 0 at hn
  obtain ⟨fuel, hfuel⟩ := Nat.exists_eq_add_of_lt (show n < cmd.length by omega)
  rw [show cmd.length = fuel + 1 + n by omega, hloop, loop, hch]
  simp only [hturn]

theorem Reaches.loop_end (h : Reaches cmd init s) (hp : s.p = cmd.length) :
    loop cmd cmd.length init = .done s := by
  obtain ⟨-, n, hn, hloop⟩ := h
  change n ≤ s.p - 0 at hn
  have hnone : cmd[s.p]? = none := by
    rw [List.getElem?_eq_none_iff, hp]
  rw [show cmd.length = cmd.length - n + n by omega, hloop]
  cases cmd.length - n with
  | zero => rfl
  | succ fuel => rw [loop, hnone]

/-! ## Numbers -/

theorem foldl_addDigit {n : ℕ} (h : n < 2 ^ 32) :
    (numeral decimalDigit 10 n).foldl addDigit 0 = n := by
  have hval : ∀ d < 10, (decimalDigit d).toNat - 48 = d := by decide
  induction n using Nat.strong_induction_on with
  | _ n ih =>
      rcases Nat.lt_or_ge n 10 with hn | hn
      · rw [numeral_of_lt hn, List.foldl_cons, List.foldl_nil, addDigit, hval n hn]
        omega
      · rw [numeral_of_le hn, List.foldl_append, ih (n / 10) (by omega) (by omega),
          List.foldl_cons, List.foldl_nil, addDigit, hval (n % 10) (Nat.mod_lt _ (by omega))]
        omega

theorem isDigit_numeral {n : ℕ} {b : Byte} (h : b ∈ numeral decimalDigit 10 n) :
    isDigit b = true := by
  obtain ⟨d, hd, rfl⟩ := mem_numeral (by omega) h
  have hdigit : ∀ d < 10, isDigit (decimalDigit d) = true := by decide
  exact hdigit d hd

/-- Digits are read one by one. -/
theorem reaches_digits {state : ℕ → CmdParse}
    (hturn : ∀ v p ch, isDigit ch = true →
      ((state v).moveTo p).turn cmd ch = .next ((state (addDigit v ch)).moveTo p))
    {ds t : Text} (hds : ∀ b ∈ ds, isDigit b = true) (v : ℕ) {p : ℕ} (h : cmd.drop p = ds ++ t) :
    Reaches cmd ((state v).moveTo p) ((state (ds.foldl addDigit v)).moveTo (p + ds.length)) := by
  induction ds generalizing v p with
  | nil => exact .refl _
  | cons b ds ih =>
      obtain ⟨hb, -, hdrop⟩ := getElem_of_drop h
      have hstep := reaches_turn hb (hturn v p b (hds b List.mem_cons_self)) le_rfl
      have hrest := ih (fun b hb ↦ hds b (List.mem_cons_of_mem _ hb)) (addDigit v b) hdrop
      rw [List.foldl_cons, List.length_cons, Nat.add_comm ds.length, ← Nat.add_assoc]
      exact hstep.trans hrest

theorem length_encodeLine (byte : Byte) (n : ℕ) : (encodeLine byte (decimalText n)).length =
    1 + (numeral decimalDigit 10 n).length + 2 := by
  rw [encodeLine, decimalText_natCast, List.length_cons, List.length_append]
  change _ + 2 + 1 = _
  omega

/-- A line with a number: what the first byte and a digit lead to. -/
theorem reaches_number {p n : ℕ} {byte : Byte} {t : Text} (hn : n < 2 ^ 32)
    (h : cmd.drop p = encodeLine byte (decimalText n) ++ t) (start : CmdParse)
    (state : ℕ → CmdParse)
    (hfirst : (start.moveTo p).turn cmd byte = .next ((state 0).moveTo p))
    (hturn : ∀ v p ch, isDigit ch = true →
      ((state v).moveTo p).turn cmd ch = .next ((state (addDigit v ch)).moveTo p)) :
    ∃ q, p + 1 < q ∧ q + 2 = p + (encodeLine byte (decimalText n)).length ∧
      Reaches cmd (start.moveTo p) ((state n).moveTo q) ∧ cmd[q]? = some 13 ∧
        cmd[q + 1]? = some 10 := by
  have hcons : cmd.drop p = byte :: (numeral decimalDigit 10 n ++ 13 :: 10 :: t) := by
    rw [h, encodeLine, decimalText_natCast, List.cons_append, List.append_assoc]
    rfl
  obtain ⟨hbyte, -, hdigits⟩ := getElem_of_drop hcons
  obtain ⟨hcr, -, hrest⟩ := getElem_of_drop (drop_of_append hdigits)
  obtain ⟨hlf, -, -⟩ := getElem_of_drop hrest
  have hnumber := reaches_digits hturn (fun b ↦ isDigit_numeral) 0 hdigits
  rw [foldl_addDigit hn] at hnumber
  obtain ⟨d, -, l, hl⟩ := head_numeral n
  refine ⟨p + 1 + (numeral decimalDigit 10 n).length, ?_, ?_, ?_, hcr, hlf⟩
  · rw [hl, List.length_cons]
    omega
  · rw [length_encodeLine]
    omega
  · exact (reaches_turn hbyte hfirst le_rfl).trans hnumber

/-- The carriage return and the line feed behind the number. -/
theorem reaches_line {p n : ℕ} {byte : Byte} {t : Text} (hn : n < 2 ^ 32)
    (h : cmd.drop p = encodeLine byte (decimalText n) ++ t) (start : CmdParse)
    (state : ℕ → CmdParse) (feed stop : CmdParse)
    (hfirst : (start.moveTo p).turn cmd byte = .next ((state 0).moveTo p))
    (hturn : ∀ v p ch, isDigit ch = true →
      ((state v).moveTo p).turn cmd ch = .next ((state (addDigit v ch)).moveTo p))
    (hreturn : ∀ q, p + 1 < q → ((state n).moveTo q).turn cmd 13 = .next (feed.moveTo q))
    (hfeed : ∀ q, (feed.moveTo q).turn cmd 10 = .next (stop.moveTo q)) :
    Reaches cmd (start.moveTo p)
      (stop.moveTo (p + (encodeLine byte (decimalText n)).length)) := by
  obtain ⟨q, hq, hstop, hnumber, hcr, hlf⟩ := reaches_number hn h start state hfirst hturn
  rw [← hstop]
  exact (hnumber.trans (reaches_turn hcr (hreturn q hq) le_rfl)).trans
    (reaches_turn hlf (hfeed _) le_rfl)

/-- The number of arguments is read. -/
theorem reaches_narg {n : ℕ} (hn : n ≠ 0) (hlt : n < 2 ^ 32) {t : Text}
    (h : cmd.drop 0 = encodeLine 42 (decimalText n) ++ t) :
    Reaches cmd init ⟨(encodeLine 42 (decimalText n)).length, .reqTypeLen, none, 0, n, .unknown, n,
      []⟩ := by
  have hline := reaches_line hlt h init
    (fun v ↦ ⟨0, .narg, some 0, 0, v, .unknown, 0, []⟩) ⟨0, .nargLf, none, 0, n, .unknown, n, []⟩
    ⟨0, .reqTypeLen, none, 0, n, .unknown, n, []⟩ rfl
    (fun v p ch hdigit ↦ by simp only [CmdParse.turn, nargTurn, moveTo, hdigit, if_pos])
    (fun q _ ↦ by simp [CmdParse.turn, nargTurn, moveTo, hn, isDigit])
    (fun q ↦ by simp [CmdParse.turn, lineFeed, moveTo])
  rw [Nat.zero_add] at hline
  exact hline

/-- The length of the name is read. -/
theorem reaches_reqType {p r n len : ℕ} (hlen : len ≠ 0) (hlt : len < 2 ^ 32) {t : Text}
    (h : cmd.drop p = encodeLine 36 (decimalText len) ++ t) :
    Reaches cmd ⟨p, .reqTypeLen, none, 0, r + 1, .unknown, n, []⟩
      ⟨p + (encodeLine 36 (decimalText len)).length, .reqType, none, len, r, .unknown, n, []⟩ :=
  reaches_line hlt h ⟨0, .reqTypeLen, none, 0, r + 1, .unknown, n, []⟩
    (fun v ↦ ⟨0, .reqTypeLen, some p, v, r + 1, .unknown, n, []⟩)
    ⟨0, .reqTypeLenLf, none, len, r, .unknown, n, []⟩ ⟨0, .reqType, none, len, r, .unknown, n, []⟩
    rfl (fun v q ch hdigit ↦ by simp only [CmdParse.turn, reqTypeLenTurn, moveTo, hdigit, if_pos])
    (fun q _ ↦ by simp [CmdParse.turn, reqTypeLenTurn, moveTo, hlen, isDigit])
    (fun q ↦ by simp [CmdParse.turn, lineFeed, moveTo])

/-- The length of an argument is read. -/
theorem reaches_len {s : CmdParse} {arg : CmdArg} {p r len : ℕ} (hstate : s.state = .len arg)
    (htoken : s.token = none) (hr : s.rnarg = r + 1) (hlt : len < 2 ^ 32) {t : Text}
    (h : cmd.drop p = encodeLine 36 (decimalText len) ++ t) :
    Reaches cmd (s.moveTo p)
      ({ s with state := .data arg, rlen := len, rnarg := r }.moveTo
        (p + (encodeLine 36 (decimalText len)).length)) :=
  reaches_line hlt h s (fun v ↦ { s with token := some p, rlen := v })
    { s with state := .lenLf arg, rlen := len, rnarg := r }
    { s with state := .data arg, rlen := len, rnarg := r }
    (by simp [CmdParse.turn, lenTurn, moveTo, hstate, htoken])
    (fun v q ch hdigit ↦ by simp [CmdParse.turn, lenTurn, moveTo, hstate, hdigit])
    (fun q hq ↦ by
      have hlong : ¬ q - p ≤ 1 := by omega
      simp [CmdParse.turn, lenTurn, moveTo, hstate, hr, isDigit, hlong, htoken])
    (fun q ↦ by simp [CmdParse.turn, lineFeed, moveTo])

/-- The state behind the bytes of an argument. -/
def behind (s : CmdParse) (arg : CmdArg) (rnarg : ℕ) (k : KeyPos) : CmdParse :=
  { s with
    state := .dataLf arg, rlen := 0, rnarg
    keys := if arg = .key then s.keys ++ [k] else s.keys }

/-- The number of keys of `EVAL` is none. -/
def Unreadable (type : CmdType) (arg : CmdArg) (a : Text) : Prop :=
  arg = .arg2 ∧ type.redisArgeval = true ∧ (evalKeys a).getD 0 = 0

instance (type : CmdType) (arg : CmdArg) (a : Text) : Decidable (Unreadable type arg a) :=
  inferInstanceAs (Decidable (_ ∧ _ ∧ _))

section Data

variable {arg : CmdArg} {a t : Text} {p : ℕ}

theorem getElem_behind (h : cmd.drop p = a ++ 13 :: 10 :: t) :
    cmd[p + a.length]? = some 13 ∧ cmd[p + a.length + 1]? = some 10 ∧
      cmd.drop (p + a.length + 2) = t ∧ (cmd.take (p + a.length)).drop p = a := by
  obtain ⟨hcr, -, hrest⟩ := getElem_of_drop (drop_of_append h)
  obtain ⟨hlf, -, hrest⟩ := getElem_of_drop hrest
  refine ⟨hcr, hlf, hrest, ?_⟩
  rw [List.drop_take, Nat.add_sub_cancel_left, h, List.take_left]

/-- The bytes of an argument are skipped. -/
theorem turn_data (hstate : s.state = .data arg) (htoken : s.token = none)
    (hrlen : s.rlen = a.length) (h : cmd.drop p = a ++ 13 :: 10 :: t)
    (hread : ¬ Unreadable s.type arg a) (ch : Byte) :
    (s.moveTo p).turn cmd ch =
      .next ((s.behind arg s.rnarg ⟨p, p + a.length⟩).moveTo (p + a.length)) := by
  obtain ⟨hcr, -, -, htext⟩ := getElem_behind h
  cases arg with
  | key => simp [CmdParse.turn, dataTurn, keyTurn, moveTo, behind, hstate, htoken, hrlen, hcr]
  | arg1 => simp [CmdParse.turn, dataTurn, argTurn, moveTo, behind, hstate, hrlen, hcr]
  | arg3 => simp [CmdParse.turn, dataTurn, argTurn, moveTo, behind, hstate, hrlen, hcr]
  | argn => simp [CmdParse.turn, dataTurn, argTurn, moveTo, behind, hstate, hrlen, hcr]
  | arg2 =>
      cases htype : s.type.redisArgeval with
      | false =>
          simp [CmdParse.turn, dataTurn, arg2Turn, moveTo, behind, hstate, hrlen, hcr, htype]
      | true =>
          have hkeys : (evalKeys a).getD 0 ≠ 0 := fun h0 ↦ hread ⟨rfl, htype, h0⟩
          cases hnkey : evalKeys a with
          | none => exact absurd (by rw [hnkey]; rfl) hkeys
          | some nkey =>
              rw [hnkey] at hkeys
              simp [CmdParse.turn, dataTurn, arg2Turn, moveTo, behind, hstate, htoken, hrlen, hcr,
                htype, htext, hnkey, show nkey ≠ 0 from hkeys]

theorem turn_unreadable (hstate : s.state = .data arg) (htoken : s.token = none)
    (hrlen : s.rlen = a.length) (h : cmd.drop p = a ++ 13 :: 10 :: t)
    (hread : Unreadable s.type arg a) (ch : Byte) :
    ∃ t, (s.moveTo p).turn cmd ch = .error t := by
  obtain ⟨hcr, -, -, htext⟩ := getElem_behind h
  obtain ⟨rfl, htype, hkeys⟩ := hread
  cases hnkey : evalKeys a with
  | none =>
      exact ⟨_, by simp [CmdParse.turn, dataTurn, arg2Turn, moveTo, hstate, htoken, hrlen, hcr,
        htype, htext, hnkey]; rfl⟩
  | some nkey =>
      rw [hnkey] at hkeys
      exact ⟨_, by simp [CmdParse.turn, dataTurn, arg2Turn, moveTo, hstate, htoken, hrlen, hcr,
        htype, htext, hnkey, show nkey = 0 from hkeys]; rfl⟩

end Data

/-- What a line feed behind an argument does. -/
def afterTurn (s : CmdParse) : CmdNext → CmdTurn
  | .done => .done s
  | .error => .error s
  | .go next => .next { s with state := .len next }

theorem turn_dataLf {arg : CmdArg} (hstate : s.state = .dataLf arg) :
    s.turn cmd 10 = s.afterTurn (afterArg s.type s.rnarg s.narg arg) := by
  simp only [CmdParse.turn, hstate, dataLfTurn, if_pos]
  cases afterArg s.type s.rnarg s.narg arg <;> rfl

end CmdParse

/-! ## The automaton -/

/-- A key is noted with the arguments from it on. -/
def noteKey (arg : CmdArg) (args : List Text) (keys : List (List Text)) : List (List Text) :=
  if arg = .key then args :: keys else keys

/-- The arguments from each key on, where an argument of this kind is next. -/
def readArgs (type : CmdType) (narg : ℕ) : CmdArg → List Text → Option (List (List Text))
  | _, [] => some []
  | arg, a :: rest =>
      if CmdParse.Unreadable type arg a then none
      else match afterArg type rest.length narg arg with
        | .error => none
        | .done => some (noteKey arg (a :: rest) [])
        | .go next => (readArgs type narg next rest).map (noteKey arg (a :: rest))

/-- A key at its place in the image of a command, with the arguments behind it. -/
def Located (cmd : Text) (k : KeyPos) : List Text → Prop
  | [] => False
  | a :: rest =>
      k.stop = k.start + a.length ∧ cmd.drop k.start = a ++ 13 :: 10 :: rest.flatMap encodeBulk

/-- What the parser makes of a command where the automaton finds these keys. -/
def Finds (cmd : Text) (type : CmdType) (narg : ℕ) (before : List KeyPos) :
    Option (List (List Text)) → Prop
  | none => ∃ t, CmdParse.loop cmd cmd.length .init = .error t
  | some found => ∃ t keys, CmdParse.loop cmd cmd.length .init = .done t ∧ t.type = type ∧
      t.narg = narg ∧ t.keys = before ++ keys ∧ List.Forall₂ (Located cmd) keys found

namespace CmdParse

variable {cmd : Text} {arg : CmdArg} {p : ℕ}

theorem Finds.note {type : CmdType} {narg : ℕ} {before : List KeyPos} {k : KeyPos}
    {args : List Text} {found : Option (List (List Text))} (hk : Located cmd k args)
    (h : Finds cmd type narg (if arg = .key then before ++ [k] else before) found) :
    Finds cmd type narg before (found.map (noteKey arg args)) := by
  cases found with
  | none => exact h
  | some found =>
      obtain ⟨t, keys, hloop, htype, hnarg, hkeys, hall⟩ := h
      by_cases harg : arg = .key
      · rw [if_pos harg] at hkeys
        refine ⟨t, k :: keys, hloop, htype, hnarg, ?_, ?_⟩
        · rw [hkeys, List.append_assoc]
          rfl
        · rw [noteKey, if_pos harg]
          exact .cons hk hall
      · rw [if_neg harg] at hkeys
        refine ⟨t, keys, hloop, htype, hnarg, hkeys, ?_⟩
        rw [noteKey, if_neg harg]
        exact hall

/-- The parser comes to the line feed behind the next argument, or refuses it. -/
theorem reads_arg {a : Text} {rest : List Text} (hsize : a.length < 2 ^ 32) {s : CmdParse}
    (hstate : s.state = .len arg) (htoken : s.token = none) (hrnarg : s.rnarg = rest.length + 1)
    (h : cmd.drop p = (a :: rest).flatMap encodeBulk) (hreaches : Reaches cmd init (s.moveTo p)) :
    Unreadable s.type arg a ∧ (∃ t, loop cmd cmd.length init = .error t) ∨
      ¬ Unreadable s.type arg a ∧ ∃ q, Located cmd ⟨q, q + a.length⟩ (a :: rest) ∧
        Reaches cmd init
          ((s.behind arg rest.length ⟨q, q + a.length⟩).moveTo (q + a.length + 1)) := by
  have hcons : cmd.drop p = encodeLine 36 (decimalText a.length) ++
      (a ++ 13 :: 10 :: rest.flatMap encodeBulk) := by
    rw [h, List.flatMap_cons, encodeBulk, List.append_assoc, List.append_assoc]
    rfl
  have hlen := hreaches.trans (reaches_len hstate htoken hrnarg hsize hcons)
  have hdata := drop_of_append hcons
  generalize p + (encodeLine 36 (decimalText a.length)).length = q at hlen hdata
  obtain ⟨hcr, -, -, -⟩ := getElem_behind hdata
  have hlt := (List.getElem?_eq_some_iff.mp hcr).1
  have hch : cmd[q]? = some cmd[q] := List.getElem?_eq_getElem (by omega)
  by_cases hread : Unreadable s.type arg a
  · obtain ⟨t, ht⟩ := turn_unreadable (s := { s with
      state := .data arg, rlen := a.length, rnarg := rest.length }) rfl htoken rfl hdata hread
      cmd[q]
    exact Or.inl ⟨hread, t, hlen.loop_error hch ht⟩
  · have hturn := turn_data (s := { s with
      state := .data arg, rlen := a.length, rnarg := rest.length }) rfl htoken rfl hdata hread
      cmd[q]
    exact Or.inr ⟨hread, q, ⟨rfl, hdata⟩,
      hlen.trans (reaches_turn hch hturn (Nat.le_add_right _ _))⟩

theorem finds_readArgs {args : List Text} (hsize : ∀ a ∈ args, a.length < 2 ^ 32)
    {s : CmdParse} (hstate : s.state = .len arg) (htoken : s.token = none)
    (hrnarg : s.rnarg = args.length) (hp : p ≤ cmd.length)
    (h : cmd.drop p = args.flatMap encodeBulk) (hreaches : Reaches cmd init (s.moveTo p)) :
    Finds cmd s.type s.narg s.keys (readArgs s.type s.narg arg args) := by
  induction args generalizing s arg p with
  | nil =>
      have hend : p = cmd.length := by
        have hlen := congrArg List.length h
        rw [List.length_drop] at hlen
        change cmd.length - p = 0 at hlen
        omega
      exact ⟨_, [], hreaches.loop_end hend, rfl, rfl, (List.append_nil _).symm, .nil⟩
  | cons a rest ih =>
      rw [readArgs]
      rcases reads_arg (hsize a List.mem_cons_self) hstate htoken hrnarg h hreaches with
        ⟨hread, herror⟩ | ⟨hread, q, hlocated, hbehind⟩
      · rw [if_pos hread]
        exact herror
      · rw [if_neg hread]
        obtain ⟨-, hlf, hdrop, -⟩ := getElem_behind hlocated.2
        have hafter : CmdParse.turn cmd ((s.behind arg rest.length ⟨q, q + a.length⟩).moveTo
            (q + a.length + 1)) 10 = _ := turn_dataLf rfl
        change _ = afterTurn _ (afterArg s.type rest.length s.narg arg) at hafter
        cases hnext : afterArg s.type rest.length s.narg arg with
        | error =>
            rw [hnext] at hafter
            exact ⟨_, hbehind.loop_error hlf hafter⟩
        | done =>
            rw [hnext] at hafter
            have hdone : Finds cmd s.type s.narg
                (if arg = .key then s.keys ++ [⟨q, q + a.length⟩] else s.keys) (some []) :=
              ⟨_, [], hbehind.loop_done hlf hafter, rfl, rfl, (List.append_nil _).symm, .nil⟩
            exact Finds.note hlocated hdone
        | go next =>
            rw [hnext] at hafter
            have hgo : Reaches cmd init
                ({ s.behind arg rest.length ⟨q, q + a.length⟩ with state := .len next }.moveTo
                  (q + a.length + 2)) :=
              hbehind.trans (reaches_turn hlf hafter le_rfl)
            have hle : q + a.length + 2 ≤ cmd.length := (List.getElem?_eq_some_iff.mp hlf).1
            exact Finds.note hlocated (ih (fun b hb ↦ hsize b (List.mem_cons_of_mem _ hb))
              (s := { s.behind arg rest.length ⟨q, q + a.length⟩ with state := .len next })
              rfl htoken rfl hle hdrop hgo)

end CmdParse

/-! ## The name -/

/-- The command with this name, in any case. -/
def typeOf (name : Text) : CmdType :=
  (commandNames.find? fun x ↦ x.1.length = name.length && stricmp name (lit x.1)).elim
    .unknown Prod.snd

theorem length_lit (n : String) : (lit n).length = n.length := by
  rw [lit, List.length_map, String.length_toList]

theorem stricmp_append {name n : Text} (h : n.length = name.length) (t : Text) :
    stricmp (name ++ t) n = stricmp name n := by
  have hzip : (name ++ t).zip n = name.zip n := by
    have happend : (name ++ t).zip (n ++ []) = name.zip n ++ t.zip [] := List.zip_append h.symm
    rwa [List.append_nil, List.zip_nil_right, List.append_nil] at happend
  rw [stricmp, stricmp, hzip, List.length_append, h, decide_eq_true (Nat.le_add_right _ _),
    decide_eq_true le_rfl]

/-- No name of eleven letters has a carriage return for its last one. -/
theorem last_of_eleven : ∀ x ∈ commandNames, x.1.length = 11 →
    ∃ c ∈ (lit x.1)[10]?, ¬ ((13 : Byte) == c || 13 == c ^^^ 32) = true := by
  decide +kernel

theorem stricmp_ten {name : Text} (h : name.length = 10) (t : Text) {x : String × CmdType}
    (hx : x ∈ commandNames) (heleven : x.1.length = 11) :
    stricmp (name ++ 13 :: t) (lit x.1) = false := by
  obtain ⟨c, hc, hne⟩ := last_of_eleven x hx heleven
  have hcr : (name ++ 13 :: t)[10]? = some 13 := by
    rw [List.getElem?_append_right h.le, h]
    rfl
  have hmem : (13, c) ∈ (name ++ 13 :: t).zip (lit x.1) :=
    List.mem_of_getElem? (List.getElem?_zip_eq_some.mpr ⟨hcr, hc⟩)
  rw [stricmp, Bool.and_eq_false_iff]
  right
  rw [List.all_eq_false]
  exact ⟨(13, c), hmem, hne⟩

/-- The branch for names of ten letters does not fall through to one for eleven. -/
theorem commandType_append (name t : Text) :
    commandType name.length (name ++ 13 :: t) = typeOf name := by
  rw [commandType, typeOf]
  congr 1
  refine List.find?_congr fun x hx ↦ ?_
  by_cases hlen : x.1.length = name.length
  · rw [stricmp_append (by rw [length_lit, hlen])]
    simp [hlen]
  · by_cases hten : name.length = 10 ∧ x.1.length = 11
    · simp [stricmp_ten hten.1 t hx hten.2, hlen]
    · simp [hlen, hten]

theorem typeOf_nil : typeOf [] = .unknown := by
  decide +kernel

/-! ## The whole command -/

/-- The arguments from each key of a command on. -/
def commandKeys (name : Text) (args : List Text) : Option (List (List Text)) :=
  if typeOf name = .unknown then none
  else if (typeOf name).redisArgz then some []
  else readArgs (typeOf name) (args.length + 1)
    (if (typeOf name).redisArgeval then .arg1 else .key) args

namespace CmdParse

variable {cmd : Text}

/-- The parser comes to the line feed behind the name, or refuses it. -/
theorem reads_name {n p r : ℕ} {name t : Text} (hsize : name.length < 2 ^ 32)
    (h : cmd.drop p = encodeBulk name ++ t)
    (hreaches : Reaches cmd init ⟨p, .reqTypeLen, none, 0, r + 1, .unknown, n, []⟩) :
    typeOf name = .unknown ∧ (∃ t, loop cmd cmd.length init = .error t) ∨
      typeOf name ≠ .unknown ∧ ∃ q, cmd[q]? = some 10 ∧ cmd.drop (q + 1) = t ∧
        Reaches cmd init ⟨q, .reqTypeLf, none, 0, r, typeOf name, n, []⟩ := by
  have hcons : cmd.drop p = encodeLine 36 (decimalText name.length) ++ (name ++ 13 :: 10 :: t) := by
    rw [h, encodeBulk, List.append_assoc, List.append_assoc]
    rfl
  by_cases hnil : name = []
  · subst hnil
    obtain ⟨q, -, -, hnumber, hcr, -⟩ := reaches_number hsize hcons
      ⟨0, .reqTypeLen, none, 0, r + 1, .unknown, n, []⟩
      (fun v ↦ ⟨0, .reqTypeLen, some p, v, r + 1, .unknown, n, []⟩) rfl
      (fun v q ch hdigit ↦ by simp only [CmdParse.turn, reqTypeLenTurn, moveTo, hdigit, if_pos])
    exact Or.inl ⟨typeOf_nil, _, (hreaches.trans hnumber).loop_error hcr rfl⟩
  · have hlen := hreaches.trans (reaches_reqType (fun h ↦ hnil (List.eq_nil_of_length_eq_zero h))
      hsize hcons)
    have hdata := drop_of_append hcons
    generalize p + (encodeLine 36 (decimalText name.length)).length = q at hlen hdata
    obtain ⟨hcr, hlf, hrest, -⟩ := getElem_behind hdata
    have hlt := (List.getElem?_eq_some_iff.mp hcr).1
    have hch : cmd[q]? = some cmd[q] := List.getElem?_eq_getElem (by omega)
    have htype : commandType name.length (cmd.drop q) = typeOf name := by
      rw [hdata, commandType_append]
    by_cases hunknown : typeOf name = .unknown
    · have hturn : ∃ t, CmdParse.turn cmd ⟨q, .reqType, none, name.length, r, .unknown, n, []⟩
          cmd[q] = .error t := ⟨_, by simp [CmdParse.turn, reqTypeTurn, hcr, htype, hunknown]; rfl⟩
      obtain ⟨t, ht⟩ := hturn
      exact Or.inl ⟨hunknown, t, hlen.loop_error hch ht⟩
    · refine Or.inr ⟨hunknown, q + name.length + 1, hlf, hrest, hlen.trans ?_⟩
      have hturn : (moveTo ⟨0, .reqType, none, name.length, r, .unknown, n, []⟩ q).turn cmd cmd[q] =
          .next (moveTo ⟨0, .reqTypeLf, none, 0, r, typeOf name, n, []⟩ (q + name.length)) := by
        simp [CmdParse.turn, reqTypeTurn, moveTo, hcr, htype, hunknown]
      exact reaches_turn hch hturn (Nat.le_add_right _ _)

end CmdParse

/-- The parser finds in the image of a command the keys of the automaton. -/
theorem finds_commandImage {name : Text} {args : List Text} (h : totlen (name :: args) < 2 ^ 31) :
    Finds (commandImage (name :: args)) (typeOf name) (args.length + 1) []
      (commandKeys name args) := by
  have hsize {a : Text} (ha : a ∈ name :: args) : a.length < 2 ^ 32 := by
    have hle := length_le_totlen ha
    omega
  have hnarg : args.length + 1 < 2 ^ 32 := by
    have hlt := length_lt_totlen (name :: args)
    rw [List.length_cons] at hlt
    omega
  have hstart := CmdParse.reaches_narg (Nat.succ_ne_zero _) hnarg
    (show (commandImage (name :: args)).drop 0 = _ from rfl)
  have hname : (commandImage (name :: args)).drop
      (encodeLine 42 (decimalText ((args.length + 1 : ℕ) : ℤ))).length =
        encodeBulk name ++ args.flatMap encodeBulk := by
    rw [commandImage, List.length_cons, List.drop_left, List.flatMap_cons]
  rw [commandKeys]
  generalize commandImage (name :: args) = cmd at hstart hname ⊢
  rcases CmdParse.reads_name (hsize List.mem_cons_self) hname hstart with
    ⟨hunknown, herror⟩ | ⟨hunknown, q, hlf, hrest, hbehind⟩
  · rw [if_pos hunknown]
    exact herror
  · rw [if_neg hunknown]
    have hlt : q + 1 ≤ cmd.length := (List.getElem?_eq_some_iff.mp hlf).1
    split
    · rename_i hargz
      exact ⟨_, [], hbehind.loop_done hlf (by
        simp [CmdParse.turn, CmdParse.reqTypeLfTurn, hargz]; rfl), rfl, rfl, rfl, .nil⟩
    · rename_i hargz
      have hturn : (CmdParse.moveTo ⟨0, .reqTypeLf, none, 0, args.length, typeOf name,
          args.length + 1, []⟩ q).turn cmd 10 = .next (CmdParse.moveTo ⟨0, .len (if
            (typeOf name).redisArgeval then .arg1 else .key), none, 0, args.length, typeOf name,
              args.length + 1, []⟩ q) := by
        cases heval : (typeOf name).redisArgeval <;>
          simp [CmdParse.turn, CmdParse.reqTypeLfTurn, CmdParse.moveTo, hargz, heval]
      exact CmdParse.finds_readArgs (fun a ha ↦ hsize (List.mem_cons_of_mem _ ha)) rfl rfl rfl hlt
        hrest (hbehind.trans (CmdParse.reaches_turn hlf hturn le_rfl))

/-! ## The classes of commands -/

inductive CmdClass where
  | argz | arg0 | arg1 | arg2 | arg3 | argn | argx | argkvx | argeval | other
  deriving DecidableEq

/-- The class of a command, by the first function that accepts it. -/
def CmdType.cmdClass (type : CmdType) : CmdClass :=
  if type.redisArgz then .argz
  else if type.redisArg0 then .arg0
  else if type.redisArg1 then .arg1
  else if type.redisArg2 then .arg2
  else if type.redisArg3 then .arg3
  else if type.redisArgn then .argn
  else if type.redisArgx then .argx
  else if type.redisArgkvx then .argkvx
  else if type.redisArgeval then .argeval
  else .other

namespace CmdType

variable (type : CmdType)

/-- No other function accepts it. -/
theorem redisArgz_eq : type.redisArgz = decide (type.cmdClass = .argz) := by
  cases type <;> rfl

theorem redisArg0_eq : type.redisArg0 = decide (type.cmdClass = .arg0) := by
  cases type <;> rfl

theorem redisArg1_eq : type.redisArg1 = decide (type.cmdClass = .arg1) := by
  cases type <;> rfl

theorem redisArg2_eq : type.redisArg2 = decide (type.cmdClass = .arg2) := by
  cases type <;> rfl

theorem redisArg3_eq : type.redisArg3 = decide (type.cmdClass = .arg3) := by
  cases type <;> rfl

theorem redisArgn_eq : type.redisArgn = decide (type.cmdClass = .argn) := by
  cases type <;> rfl

theorem redisArgx_eq : type.redisArgx = decide (type.cmdClass = .argx) := by
  cases type <;> rfl

theorem redisArgkvx_eq : type.redisArgkvx = decide (type.cmdClass = .argkvx) := by
  cases type <;> rfl

theorem redisArgeval_eq : type.redisArgeval = decide (type.cmdClass = .argeval) := by
  cases type <;> rfl

end CmdType

theorem class_typeOf {name : Text} (h : typeOf name ≠ .unknown) :
    (typeOf name).cmdClass ≠ .other := by
  have hnames : ∀ x ∈ commandNames, x.2.cmdClass ≠ .other := by decide +kernel
  rw [typeOf] at h ⊢
  cases hfind : commandNames.find? fun x ↦ x.1.length = name.length && stricmp name (lit x.1) with
  | none =>
      rw [hfind] at h
      exact absurd rfl h
  | some x => exact hnames x (List.mem_of_find?_eq_some hfind)

/-- The list from each of its elements on. -/
def suffixes : List Text → List (List Text)
  | [] => []
  | a :: l => (a :: l) :: suffixes l

/-- The list from each second element on. -/
def pairSuffixes : List Text → List (List Text)
  | [] => []
  | [a] => [[a]]
  | a :: b :: l => (a :: b :: l) :: pairSuffixes l

section Classes

open CmdType

variable {type : CmdType} {narg : ℕ}

section Rules

variable {arg next : CmdArg} {a : Text} {rest : List Text}

theorem readArgs_done (hread : ¬ CmdParse.Unreadable type arg a)
    (h : afterArg type rest.length narg arg = .done) :
    readArgs type narg arg (a :: rest) = some (noteKey arg (a :: rest) []) := by
  rw [readArgs, if_neg hread, h]

theorem readArgs_error (h : afterArg type rest.length narg arg = .error) :
    readArgs type narg arg (a :: rest) = none := by
  rw [readArgs, h]
  split <;> rfl

theorem readArgs_go (hread : ¬ CmdParse.Unreadable type arg a)
    (h : afterArg type rest.length narg arg = .go next) :
    readArgs type narg arg (a :: rest) =
      (readArgs type narg next rest).map (noteKey arg (a :: rest)) := by
  rw [readArgs, if_neg hread, h]

end Rules

theorem not_unreadable {arg : CmdArg} (h : type.cmdClass ≠ .argeval) (a : Text) :
    ¬ CmdParse.Unreadable type arg a := by
  rintro ⟨-, htype, -⟩
  rw [redisArgeval_eq, decide_eq_true_eq] at htype
  exact h htype

/-- A fixed number of arguments behind the key. -/
theorem readArgs_arity {n : ℕ} (h : type.cmdClass = .arg0 ∧ n = 0 ∨ type.cmdClass = .arg1 ∧ n = 1 ∨
    type.cmdClass = .arg2 ∧ n = 2 ∨ type.cmdClass = .arg3 ∧ n = 3) (key : Text) (rest : List Text) :
    readArgs type narg .key (key :: rest) =
      if rest.length = n then some [key :: rest] else none := by
  have hread (arg : CmdArg) (a : Text) : ¬ CmdParse.Unreadable type arg a :=
    not_unreadable (by rcases h with ⟨h, -⟩ | ⟨h, -⟩ | ⟨h, -⟩ | ⟨h, -⟩ <;> rw [h] <;> decide) a
  rcases h with ⟨h, rfl⟩ | ⟨h, rfl⟩ | ⟨h, rfl⟩ | ⟨h, rfl⟩ <;>
    rcases rest with _ | ⟨a, _ | ⟨b, _ | ⟨c, _ | ⟨d, l⟩⟩⟩⟩ <;>
      simp [readArgs, hread, afterArg, afterKey, afterArg1, afterArg2, afterArg3, redisArg0_eq,
        redisArg1_eq, redisArg2_eq, redisArg3_eq, h, noteKey]

theorem not_unreadable_of_ne {arg : CmdArg} (h : arg ≠ .arg2) (a : Text) :
    ¬ CmdParse.Unreadable type arg a := fun hread ↦ h hread.1

theorem readArgs_argn_rest (h : type.cmdClass = .argn ∨ type.cmdClass = .argeval)
    (rest : List Text) : readArgs type narg .argn rest = some [] := by
  have hafter (n : ℕ) : afterArg type n narg .argn = if n = 0 then .done else .go .argn := by
    rcases h with h | h <;> simp [afterArg, afterArgn, redisArgn_eq, redisArgeval_eq, h]
  induction rest with
  | nil => rfl
  | cons a rest ih =>
      cases rest with
      | nil => exact readArgs_done (not_unreadable_of_ne (by decide) a) (hafter 0)
      | cons b rest =>
          rw [readArgs_go (not_unreadable_of_ne (by decide) a) (hafter (rest.length + 1)), ih]
          rfl

theorem readArgs_argn (h : type.cmdClass = .argn) (key : Text) (rest : List Text) :
    readArgs type narg .key (key :: rest) = some [key :: rest] := by
  have hkey (n : ℕ) : afterArg type n narg .key = if n = 0 then .done else .go .arg1 := by
    simp [afterArg, afterKey, redisArg0_eq, redisArg1_eq, redisArg2_eq, redisArg3_eq, redisArgn_eq,
      h]
  have harg1 (n : ℕ) : afterArg type n narg .arg1 = if n = 0 then .done else .go .argn := by
    simp [afterArg, afterArg1, redisArg1_eq, redisArg2_eq, redisArg3_eq, redisArgn_eq, h]
  cases rest with
  | nil => exact readArgs_done (not_unreadable_of_ne (by decide) key) (hkey 0)
  | cons a rest =>
      have hrest : readArgs type narg .arg1 (a :: rest) = some [] := by
        cases rest with
        | nil => exact readArgs_done (not_unreadable_of_ne (by decide) a) (harg1 0)
        | cons b rest =>
            rw [readArgs_go (not_unreadable_of_ne (by decide) a) (harg1 (rest.length + 1)),
              readArgs_argn_rest (Or.inl h)]
            rfl
      rw [readArgs_go (not_unreadable_of_ne (by decide) key) (hkey (rest.length + 1)), hrest]
      rfl

/-- All arguments are keys. -/
theorem readArgs_argx (h : type.cmdClass = .argx) (args : List Text) :
    readArgs type narg .key args = some (suffixes args) := by
  have hkey (n : ℕ) : afterArg type n narg .key = if n = 0 then .done else .go .key := by
    simp [afterArg, afterKey, redisArg0_eq, redisArg1_eq, redisArg2_eq, redisArg3_eq, redisArgn_eq,
      redisArgx_eq, h]
  induction args with
  | nil => rfl
  | cons a rest ih =>
      cases rest with
      | nil => exact readArgs_done (not_unreadable_of_ne (by decide) a) (hkey 0)
      | cons b rest =>
          rw [readArgs_go (not_unreadable_of_ne (by decide) a) (hkey (rest.length + 1)), ih]
          rfl

/-- Keys and values take turns; a single key needs no value. -/
theorem readArgs_argkvx (h : type.cmdClass = .argkvx) (args : List Text)
    (hpairs : narg % 2 = 1) (hargs : args.length % 2 = 0) :
    readArgs type narg .key args = some (pairSuffixes args) := by
  have hkey (n : ℕ) : afterArg type n narg .key = if n = 0 then .done else .go .arg1 := by
    simp [afterArg, afterKey, redisArg0_eq, redisArg1_eq, redisArg2_eq, redisArg3_eq, redisArgn_eq,
      redisArgx_eq, redisArgkvx_eq, h, hpairs]
  have harg1 (n : ℕ) : afterArg type n narg .arg1 = if n = 0 then .done else .go .key := by
    simp [afterArg, afterArg1, redisArg1_eq, redisArg2_eq, redisArg3_eq, redisArgn_eq,
      redisArgeval_eq, redisArgkvx_eq, h]
  induction args using pairSuffixes.induct with
  | case1 => rfl
  | case2 a => cases hargs
  | case3 a b rest ih =>
      have hrest : rest.length % 2 = 0 := by
        rw [List.length_cons, List.length_cons] at hargs
        omega
      rw [readArgs_go (not_unreadable_of_ne (by decide) a) (hkey (rest.length + 1))]
      cases rest with
      | nil =>
          rw [readArgs_done (not_unreadable_of_ne (by decide) b) (harg1 0)]
          rfl
      | cons c rest =>
          rw [readArgs_go (not_unreadable_of_ne (by decide) b) (harg1 (rest.length + 1)), ih hrest]
          rfl

theorem readArgs_argkvx_odd (h : type.cmdClass = .argkvx) (key : Text) {rest : List Text}
    (hnarg : narg % 2 = 0) :
    readArgs type narg .key (key :: rest) = if rest = [] then some [[key]] else none := by
  have hkey (n : ℕ) : afterArg type n narg .key = if n = 0 then .done else .error := by
    simp [afterArg, afterKey, redisArg0_eq, redisArg1_eq, redisArg2_eq, redisArg3_eq, redisArgn_eq,
      redisArgx_eq, redisArgkvx_eq, h, hnarg]
  cases rest with
  | nil => exact readArgs_done (not_unreadable_of_ne (by decide) key) (hkey 0)
  | cons a rest => exact readArgs_error (hkey (rest.length + 1))

/-- One key behind the script and the number of keys. -/
theorem readArgs_argeval (h : type.cmdClass = .argeval) (script numkeys key : Text)
    (rest : List Text) : readArgs type narg .arg1 (script :: numkeys :: key :: rest) =
      if (evalKeys numkeys).getD 0 = 0 then none else some [key :: rest] := by
  have harg1 : afterArg type (rest.length + 2) narg .arg1 = .go .arg2 := by
    simp [afterArg, afterArg1, redisArg1_eq, redisArg2_eq, redisArg3_eq, redisArgn_eq,
      redisArgeval_eq, h]
  have harg2 : afterArg type (rest.length + 1) narg .arg2 = .go .key := by
    simp [afterArg, afterArg2, redisArg2_eq, redisArg3_eq, redisArgn_eq, redisArgeval_eq, h]
  have hkey (n : ℕ) : afterArg type n narg .key = if n = 0 then .done else .go .argn := by
    simp [afterArg, afterKey, redisArg0_eq, redisArg1_eq, redisArg2_eq, redisArg3_eq, redisArgn_eq,
      redisArgx_eq, redisArgkvx_eq, redisArgeval_eq, h]
  have hlast : readArgs type narg .key (key :: rest) = some [key :: rest] := by
    cases rest with
    | nil => exact readArgs_done (not_unreadable_of_ne (by decide) key) (hkey 0)
    | cons a rest =>
        rw [readArgs_go (not_unreadable_of_ne (by decide) key) (hkey (rest.length + 1)),
          readArgs_argn_rest (Or.inr h)]
        rfl
  rw [readArgs_go (not_unreadable_of_ne (by decide) script) harg1]
  split
  · rename_i hnone
    have hread : CmdParse.Unreadable type .arg2 numkeys :=
      ⟨rfl, by rw [redisArgeval_eq, h]; rfl, hnone⟩
    rw [readArgs, if_pos hread]
    rfl
  · rename_i hsome
    rw [readArgs_go (fun hread ↦ hsome hread.2.2) harg2, hlast]
    rfl

theorem readArgs_argeval_short (h : type.cmdClass = .argeval) {args : List Text}
    (hargs : args ≠ []) (hshort : args.length < 3) : readArgs type narg .arg1 args = none := by
  cases args with
  | nil => exact absurd rfl hargs
  | cons a rest =>
      rw [List.length_cons] at hshort
      have hlt : rest.length < 2 := by omega
      exact readArgs_error (by
        simp [afterArg, afterArg1, redisArg1_eq, redisArg2_eq, redisArg3_eq, redisArgn_eq,
          redisArgeval_eq, h, hlt])

end Classes

/-! ## The keys that are found -/

/-- Every second element, from the first one on. -/
def everySecond : List Text → List Text
  | [] => []
  | [a] => [a]
  | a :: _ :: l => a :: everySecond l

/-- What a class takes for keys, with `none` for what it refuses; a name that stands alone is taken
with no keys. -/
def classKeys : CmdClass → List Text → Option (List Text)
  | .argz, _ => some []
  | .other, _ => none
  | _, [] => some []
  | .arg0, key :: rest => if rest.length = 0 then some [key] else none
  | .arg1, key :: rest => if rest.length = 1 then some [key] else none
  | .arg2, key :: rest => if rest.length = 2 then some [key] else none
  | .arg3, key :: rest => if rest.length = 3 then some [key] else none
  | .argn, key :: _ => some [key]
  | .argx, keys => some keys
  | .argkvx, [key] => some [key]
  | .argkvx, args => if args.length % 2 = 0 then some (everySecond args) else none
  | .argeval, _ :: numkeys :: key :: _ =>
      if (evalKeys numkeys).getD 0 = 0 then none else some [key]
  | .argeval, _ => none

/-- The keys of a command, by the class of its name. -/
def keysOf : List Text → Option (List Text)
  | [] => none
  | name :: args => classKeys (typeOf name).cmdClass args

/-- The key at the front of what is from it on. -/
def keyOf (args : List Text) : Text := args.headD []

theorem map_suffixes (l : List Text) : (suffixes l).map keyOf = l := by
  induction l with
  | nil => rfl
  | cons a l ih => rw [suffixes, List.map_cons, ih]; rfl

theorem map_pairSuffixes (l : List Text) : (pairSuffixes l).map keyOf = everySecond l := by
  induction l using pairSuffixes.induct with
  | case1 => rfl
  | case2 a => rfl
  | case3 a b l ih => rw [pairSuffixes, List.map_cons, ih]; rfl

theorem classKeys_eq {type : CmdType} (hother : type.cmdClass ≠ .other) (args : List Text) :
    (if type.redisArgz then some [] else readArgs type (args.length + 1)
      (if type.redisArgeval then .arg1 else .key) args).map (List.map keyOf) =
        classKeys type.cmdClass args := by
  rw [CmdType.redisArgz_eq, CmdType.redisArgeval_eq]
  cases hclass : type.cmdClass with
  | argz => rfl
  | other => exact absurd hclass hother
  | arg0 =>
      cases args with
      | nil => rfl
      | cons key rest => simp [readArgs_arity (Or.inl ⟨hclass, rfl⟩), classKeys, keyOf]
  | arg1 =>
      cases args with
      | nil => rfl
      | cons key rest => simp [readArgs_arity (Or.inr (Or.inl ⟨hclass, rfl⟩)), classKeys, keyOf]
  | arg2 =>
      cases args with
      | nil => rfl
      | cons key rest =>
          simp [readArgs_arity (Or.inr (Or.inr (Or.inl ⟨hclass, rfl⟩))), classKeys, keyOf]
  | arg3 =>
      cases args with
      | nil => rfl
      | cons key rest =>
          simp [readArgs_arity (Or.inr (Or.inr (Or.inr ⟨hclass, rfl⟩))), classKeys, keyOf]
  | argn =>
      cases args with
      | nil => rfl
      | cons key rest => simp [readArgs_argn hclass, classKeys, keyOf]
  | argx =>
      cases args with
      | nil => rfl
      | cons key rest => simp [readArgs_argx hclass, classKeys, map_suffixes]
  | argkvx =>
      rcases args with _ | ⟨key, _ | ⟨value, rest⟩⟩
      · rfl
      · simp [readArgs_argkvx_odd hclass, classKeys, keyOf]
      · by_cases heven : (key :: value :: rest).length % 2 = 0
        · have hpairs := readArgs_argkvx hclass (key :: value :: rest)
            (show ((key :: value :: rest).length + 1) % 2 = 1 by omega) heven
          have hkeys := map_pairSuffixes (key :: value :: rest)
          simp only [reduceCtorEq, decide_false, Bool.false_eq_true, if_false, hpairs,
            Option.map_some, hkeys, classKeys, if_pos heven]
        · have hodd : readArgs type _ .key (key :: value :: rest) = _ :=
            readArgs_argkvx_odd hclass key
              (show ((key :: value :: rest).length + 1) % 2 = 0 by omega)
          simp only [reduceCtorEq, decide_false, Bool.false_eq_true, if_false, hodd,
            Option.map_none, classKeys, if_neg heven]
  | argeval =>
      rcases args with _ | ⟨script, _ | ⟨numkeys, _ | ⟨key, rest⟩⟩⟩
      · rfl
      · simp [readArgs_argeval_short hclass, classKeys]
      · simp [readArgs_argeval_short hclass, classKeys]
      · simp only [decide_true, reduceCtorEq, decide_false, Bool.false_eq_true, if_false, if_true,
          readArgs_argeval hclass, classKeys]
        split <;> rfl

theorem keysOf_eq (name : Text) (args : List Text) :
    (commandKeys name args).map (List.map keyOf) = keysOf (name :: args) := by
  rw [commandKeys, keysOf]
  by_cases hunknown : typeOf name = .unknown
  · rw [if_pos hunknown, hunknown]
    rfl
  · rw [if_neg hunknown]
    exact classKeys_eq (class_typeOf hunknown) args

/-- The bytes of a key. -/
def KeyPos.text (cmd : Text) (k : KeyPos) : Text := (cmd.take k.stop).drop k.start

theorem Located.text_eq {cmd : Text} {k : KeyPos} {args : List Text} (h : Located cmd k args) :
    k.text cmd = keyOf args := by
  cases args with
  | nil => exact h.elim
  | cons a rest =>
      obtain ⟨hstop, hdrop⟩ := h
      rw [KeyPos.text, hstop]
      exact (CmdParse.getElem_behind hdrop).2.2.2

theorem Finds.parse {cmd : Text} {type : CmdType} {narg : ℕ} {found : List (List Text)}
    (h : Finds cmd type narg [] (some found)) :
    ∃ keys, redisParseCmd cmd = .ok ⟨type, narg, keys⟩ ∧ List.Forall₂ (Located cmd) keys found := by
  obtain ⟨t, keys, hloop, rfl, rfl, hkeys, hall⟩ := h
  rw [List.nil_append] at hkeys
  refine ⟨keys, ?_, hall⟩
  rw [redisParseCmd, hloop, ← hkeys]

theorem Finds.parse_none {cmd : Text} {type : CmdType} {narg : ℕ}
    (h : Finds cmd type narg [] none) : ∃ e, redisParseCmd cmd = .error e := by
  obtain ⟨t, hloop⟩ := h
  exact ⟨parseError t, by rw [redisParseCmd, hloop]⟩

theorem texts_eq {cmd : Text} {keys : List KeyPos} {found : List (List Text)}
    (h : List.Forall₂ (Located cmd) keys found) : keys.map (·.text cmd) = found.map keyOf := by
  induction h with
  | nil => rfl
  | cons hk _ ih => rw [List.map_cons, List.map_cons, hk.text_eq, ih]

/-- The parser on the image of any command: it finds the keys that the class of the command has at
their places, and refuses an unknown name and what the class refuses. -/
theorem redisParseCmd_commandImage {argv : List Text} (h : totlen argv < 2 ^ 31) :
    (redisParseCmd (commandImage argv)).toOption.map
        (fun r ↦ (r.type, r.narg, r.keys.map (·.text (commandImage argv)))) =
      (keysOf argv).map fun keys ↦ (typeOf (argv.headD []), argv.length, keys) := by
  cases argv with
  | nil => rfl
  | cons name args =>
      have hfinds := finds_commandImage h
      rw [← keysOf_eq]
      cases hfound : commandKeys name args with
      | none =>
          rw [hfound] at hfinds
          obtain ⟨e, he⟩ := hfinds.parse_none
          rw [he]
          rfl
      | some found =>
          rw [hfound] at hfinds
          obtain ⟨keys, hparse, hall⟩ := hfinds.parse
          rw [hparse, Option.map_some, Option.map_some, ← texts_eq hall]
          rfl

theorem redisParseCmd_commandImage_mset :
    totlen [lit "mSet", lit "a", lit "1", lit "b", lit "2"] < 2 ^ 31 ∧
      (redisParseCmd (commandImage [lit "mSet", lit "a", lit "1", lit "b", lit "2"])).toOption.map
          (fun r ↦ (r.type, r.narg, r.keys.map
            (·.text (commandImage [lit "mSet", lit "a", lit "1", lit "b", lit "2"])))) =
        (keysOf [lit "mSet", lit "a", lit "1", lit "b", lit "2"]).map fun keys ↦
          (typeOf (lit "mSet"), 5, keys) :=
  ⟨by decide +kernel, redisParseCmd_commandImage (by decide +kernel)⟩

end Redis

end Slience
