import Slience.Base.Logstream
import Slience.Lib.Run

/-!
# Log files

`logfile` with `_logname_` and `_issameday_`: a file is left for a new one when the local day
changes and when it has reached the roll size.  What `fopen` and `fwrite` do are inputs, and the
local time is a parameter; `fwrite` on a null pointer has no result.  The events, newest first,
are what is seen from outside.
-/

namespace Slience

open Logstream

/-- The members of `struct tm` that tell the day. -/
structure Tm where
  year : ℕ
  mon : ℕ
  mday : ℕ
  deriving DecidableEq

/-- A file opened, or one call of `fwrite`, which is the first of a call of `write` or is not. -/
inductive FileEvent where
  | opened (time : ℕ) (name : List Byte)
  | wrote (time : ℕ) (name : List Byte) (first : Bool) (bytes : List Byte)
  deriving DecidableEq

/-- `logfile`, with the name of the file for `_file`, the time of the last call and the events. -/
structure Logfile where
  file : Option (List Byte)
  writesize : ℕ
  logidx : ℕ
  rolltime : ℕ
  lastctime : ℕ
  clock : ℕ
  events : List FileEvent

namespace Logfile

/-- The arguments of the constructor, the process and the local time. -/
structure Setting where
  filename : List Byte
  pid : List Byte
  withpid : Bool
  rollsize : ℕ
  localtime : ℕ → Tm
  rollsize_pos : 1 ≤ rollsize

def twoDigits (n : ℕ) : List Byte := [decimalDigit (n / 10), decimalDigit (n % 10)]

/-- `_getcurtime_` -/
def getcurtime (tm : Tm) : List Byte :=
  decimalText (tm.year + 1900) ++ (twoDigits (tm.mon + 1) ++ twoDigits tm.mday)

/-- The name before the number. -/
def Setting.stem (c : Setting) (tm : Tm) : List Byte :=
  c.filename.takeWhile (· ≠ 0) ++ [95] ++ getcurtime tm ++ [95] ++
    if c.withpid then c.pid.takeWhile (· ≠ 0) ++ [95] else []

/-- `".log"` -/
def suffix : List Byte := [46, 108, 111, 103]

def Setting.fullName (c : Setting) (tm : Tm) (number : List Byte) : List Byte :=
  c.stem tm ++ (number ++ suffix)

/-- `_logname_`, with its buffer of a hundred bytes and the cast of the index to `int`. -/
def Setting.logname (c : Setting) (now logidx : ℕ) : List Byte :=
  (c.fullName (c.localtime now) (printD logidx)).take 99

/-- One call of `write`: the time, the data, whether `fopen` opens the file for a new day and the
one behind a full one, and what the calls of `fwrite` return, 0 behind the end of the list. -/
structure Call where
  now : ℕ
  data : List Byte
  opensDay : Bool
  opensSize : Bool
  fwrites : List ℕ
  deriving DecidableEq

variable (c : Setting)

/-- `_roll_file`, `_close` included. -/
def rollFile (s : Logfile) (newday : Bool) (now : ℕ) (opens : Bool) : Logfile :=
  let logidx := if newday then 1 else s.logidx + 1
  let name := c.logname now logidx
  let s := { s with writesize := 0, rolltime := now, logidx := logidx }
  if opens then { s with file := some name, events := .opened now name :: s.events }
  else { s with file := none }

/-- The constructor of `logfile`. -/
def logfile (now : ℕ) (opens : Bool) : Logfile :=
  rollFile c ⟨none, 0, 0, 0, 0, now, []⟩ true now opens

def checkDay (s : Logfile) (now : ℕ) (opens : Bool) : Logfile :=
  if now ≠ s.lastctime then
    let s := { s with lastctime := now }
    if c.localtime s.rolltime ≠ c.localtime now then s.rollFile c false now opens else s
  else s

def checkSize (s : Logfile) (now : ℕ) (opens : Bool) : Logfile :=
  if c.rollsize ≤ s.writesize then s.rollFile c false now opens else s

/-- `fwrite`, with what it takes of the data. -/
def fwrite (s : Logfile) (now : ℕ) (first : Bool) (bytes : List Byte) : Option Logfile :=
  match s.file with
  | none => none
  | some name =>
      some { s with
        writesize := s.writesize + bytes.length
        events := .wrote now name first bytes :: s.events }

/-- The loop of `write`, with what is left of `len`; `data` is not moved on. -/
def writeLoop (now : ℕ) (data : List Byte) : List ℕ → Bool → ℕ → Logfile → Option (Logfile × ℕ)
  | [], first, len, s =>
      if len = 0 then some (s, 0) else (s.fwrite now first []).map fun s' ↦ (s', len)
  | w :: ws, first, len, s =>
      if len = 0 then some (s, 0)
      else
        let wsize := min w len
        (s.fwrite now first (data.take wsize)).bind fun s' ↦
          if wsize = 0 then some (s', len) else writeLoop now data ws false (len - wsize) s'

def write (s : Logfile) (m : Call) : Option (Logfile × Bool) :=
  let s := { s with clock := m.now }
  match s.file with
  | none => some (s, m.data.length = 0)
  | some _ =>
      let s := s.checkDay c m.now m.opensDay
      let s := s.checkSize c m.now m.opensSize
      (writeLoop m.now m.data m.fwrites true m.data.length s).map fun r ↦ (r.1, r.2 = 0)

def system : System Logfile Call where
  enabled := fun s m ↦ s.clock ≤ m.now
  step := fun s m ↦ (s.write c m).map Prod.fst

/-! ## What is asked of the events -/

/-- The file with number `k` of a day. -/
def Setting.fileName (c : Setting) (tm : Tm) (k : ℕ) : List Byte :=
  c.fullName tm (decimalText k)

/-- The number of files opened on a day. -/
def openedOn (tm : Tm) : List FileEvent → ℕ
  | [] => 0
  | .opened time _ :: es => openedOn tm es + if c.localtime time = tm then 1 else 0
  | .wrote _ _ _ _ :: es => openedOn tm es

/-- The bytes written since a file was opened. -/
def fileSize : List FileEvent → ℕ
  | [] => 0
  | .opened _ _ :: _ => 0
  | .wrote _ _ _ bytes :: es => fileSize es + bytes.length

/-- The files of a day are numbered from 1 on, bytes go to a file of their day, and no write starts
on a file that has reached the roll size. -/
def Good : List FileEvent → Prop
  | [] => True
  | .opened time name :: es =>
      name = c.fileName (c.localtime time) (openedOn c (c.localtime time) es + 1) ∧ Good es
  | .wrote time name first _ :: es =>
      (∃ k, name = c.fileName (c.localtime time) k) ∧ (first = true → fileSize es < c.rollsize) ∧
        Good es

/-- The call has a result, its events are as asked, and data that no file was open for are not
reported as written. -/
def WritesWell (s : Logfile) (m : Call) : Prop :=
  ∃ s' result, s.write c m = some (s', result) ∧ Good c s'.events ∧
    (s'.file = none → m.data ≠ [] → result = false)

/-- The name of the file with number `k` fits, and so does its number. -/
def NameFits (now k : ℕ) : Prop :=
  (c.fileName (c.localtime now) k).length ≤ 99 ∧ k < 2 ^ 31

/-- With a file open: a call on another day than the one the file was opened on has nothing to
write and opens no file, and a call on a full file opens one under a name that fits or has nothing
to write. -/
def RollsWell (s : Logfile) (m : Call) : Prop :=
  s.file ≠ none →
    if c.localtime s.rolltime ≠ c.localtime m.now then m.opensDay = false ∧ m.data = []
    else if c.rollsize ≤ s.writesize then
      if m.opensSize = true then NameFits c m.now (s.logidx + 1) else m.data = []
    else True

/-! ## Names -/

variable {c : Setting} {s : Logfile}

theorem dot_notMem_decimalText (z : ℤ) : (46 : Byte) ∉ decimalText z := by
  have hnumeral (n : ℕ) : (46 : Byte) ∉ numeral decimalDigit 10 n := by
    intro hmem
    obtain ⟨d, hd, heq⟩ := mem_numeral (by decide) hmem
    revert d
    decide
  unfold decimalText signedNumeral
  split
  · rw [List.mem_cons, not_or]
    exact ⟨by decide, hnumeral _⟩
  · exact hnumeral _

/-- A name that was cut off is not a whole name: the suffix comes after the number only. -/
theorem take_fullName_eq_iff (tm : Tm) {number number' : List Byte} (hdot : (46 : Byte) ∉ number)
    (hdot' : (46 : Byte) ∉ number') :
    (c.fullName tm number).take 99 = c.fullName tm number' ↔
      (c.fullName tm number').length ≤ 99 ∧ number = number' := by
  have hnumber {l : List Byte} (hl : (46 : Byte) ∉ l) (rest : List Byte) :
      (l ++ 46 :: rest).takeWhile (· ≠ 46) = l := by
    have hall : ∀ b ∈ l, (decide (b ≠ 46)) = true := by
      intro b hb
      rw [decide_eq_true_iff]
      rintro rfl
      exact hl hb
    rw [List.takeWhile_append_of_pos hall, List.takeWhile_cons_of_neg (by simp), List.append_nil]
  constructor
  · intro h
    have hlen := congrArg List.length h
    rw [List.length_take] at hlen
    refine ⟨by omega, ?_⟩
    have hprefix : c.fullName tm number' <+: c.fullName tm number := by
      rw [← h]
      exact List.take_prefix 99 _
    obtain ⟨rest, hrest⟩ := (List.prefix_append_right_inj _).mp hprefix
    rw [List.append_assoc] at hrest
    have hfirst := congrArg (List.takeWhile (· ≠ 46)) hrest
    change (number' ++ 46 :: ([108, 111, 103] ++ rest)).takeWhile _ =
      (number ++ 46 :: [108, 111, 103]).takeWhile _ at hfirst
    rw [hnumber hdot', hnumber hdot] at hfirst
    exact hfirst.symm
  · rintro ⟨hlen, rfl⟩
    exact List.take_of_length_le hlen

theorem logname_eq_iff (now i k : ℕ) :
    c.logname now i = c.fileName (c.localtime now) k ↔
      (c.fileName (c.localtime now) k).length ≤ 99 ∧ printD i = decimalText k :=
  take_fullName_eq_iff _ (dot_notMem_decimalText _) (dot_notMem_decimalText _)

theorem logname_eq_fileName_iff (now k : ℕ) :
    c.logname now k = c.fileName (c.localtime now) k ↔ NameFits c now k := by
  rw [logname_eq_iff, printD_eq_iff]
  constructor
  · rintro ⟨hlen, -, hlt⟩
    exact ⟨hlen, by omega⟩
  · rintro ⟨hlen, hlt⟩
    exact ⟨hlen, by omega, by omega⟩

/-- A later number is not printed as the first one. -/
theorem logname_ne_first {now k : ℕ} (hpos : 1 ≤ k) (hlt : k < 2 ^ 31) :
    c.logname now (k + 1) ≠ c.fileName (c.localtime now) 1 := by
  intro h
  have heq := decimalText_injective ((logname_eq_iff _ _ _).mp h).2
  rw [Int.bmod_def] at heq
  split at heq <;> omega

/-! ## Soundness -/

/-- The file that is open is the last one of its day, and there was no other day. -/
structure Current (c : Setting) (s : Logfile) (name : List Byte) : Prop where
  name_eq : name = c.fileName (c.localtime s.rolltime) s.logidx
  logidx_pos : 1 ≤ s.logidx
  logidx_lt : s.logidx < 2 ^ 31
  opened : ∀ tm, openedOn c tm s.events = if c.localtime s.rolltime = tm then s.logidx else 0
  size : fileSize s.events = s.writesize
  lastctime : c.localtime s.lastctime = c.localtime s.rolltime ∨ s.lastctime = 0

structure Sound (c : Setting) (s : Logfile) : Prop where
  good : Good c s.events
  rolltime_le : s.rolltime ≤ s.clock
  current : ∀ name, s.file = some name → Current c s name

theorem Sound.tick (h : s.Sound c) {now : ℕ} (hnow : s.clock ≤ now) :
    Sound c { s with clock := now } :=
  ⟨h.good, h.rolltime_le.trans hnow, fun name hfile ↦
    ⟨(h.current name hfile).name_eq, (h.current name hfile).logidx_pos,
      (h.current name hfile).logidx_lt, (h.current name hfile).opened,
      (h.current name hfile).size, (h.current name hfile).lastctime⟩⟩

theorem sound_logfile {now : ℕ} {opens : Bool} (h : opens = true → NameFits c now 1) :
    (logfile c now opens).Sound c := by
  cases opens with
  | false => exact ⟨trivial, le_rfl, fun name hfile ↦ by cases hfile⟩
  | true =>
      have hname := (logname_eq_fileName_iff now 1).mpr (h rfl)
      refine ⟨⟨hname, trivial⟩, le_rfl, ?_⟩
      intro name hfile
      cases hfile
      refine ⟨hname, le_rfl, Nat.one_lt_two_pow (by decide), ?_, rfl, Or.inr rfl⟩
      intro tm
      exact Nat.zero_add _

/-! ## Rolling -/

theorem Good.of_append {es : List FileEvent} (new : List FileEvent) (h : Good c (new ++ es)) :
    Good c es := by
  induction new with
  | nil => exact h
  | cons e new ih =>
      cases e with
      | opened time name => exact ih h.2
      | wrote time name first bytes => exact ih h.2.2

/-- The file stays, and the call is on its day. -/
theorem Sound.checkDay_same (h : s.Sound c) {now : ℕ} (opens : Bool)
    (hday : c.localtime s.rolltime = c.localtime now) :
    (s.checkDay c now opens).Sound c ∧ (s.checkDay c now opens).file = s.file ∧
      (s.checkDay c now opens).writesize = s.writesize ∧
      (s.checkDay c now opens).logidx = s.logidx ∧
      (s.checkDay c now opens).rolltime = s.rolltime ∧
      (s.checkDay c now opens).clock = s.clock := by
  unfold checkDay
  split
  · rw [if_neg (not_not.mpr hday)]
    refine ⟨⟨h.good, h.rolltime_le, ?_⟩, rfl, rfl, rfl, rfl, rfl⟩
    intro name hfile
    have hcur := h.current name hfile
    exact ⟨hcur.name_eq, hcur.logidx_pos, hcur.logidx_lt, hcur.opened, hcur.size,
      Or.inl hday.symm⟩
  · exact ⟨h, rfl, rfl, rfl, rfl, rfl⟩

/-- On another day the file is left: the day is looked at, for the last call was not at this
time. -/
theorem Current.checkDay_other {name : List Byte} (h : Current c s name) (now : ℕ) (opens : Bool)
    (hle : s.rolltime ≤ now) (hday : c.localtime s.rolltime ≠ c.localtime now) :
    s.checkDay c now opens = { s with lastctime := now }.rollFile c false now opens := by
  have hnow : now ≠ s.lastctime := by
    rintro rfl
    rcases h.lastctime with hsame | hzero
    · exact hday hsame.symm
    · have hroll : s.rolltime = s.lastctime := by omega
      exact hday (by rw [hroll])
  unfold checkDay
  rw [if_pos hnow]
  exact if_pos hday

theorem not_good_rollFile_other {name : List Byte} (h : Current c s name) {now : ℕ}
    (hday : c.localtime s.rolltime ≠ c.localtime now) :
    ¬ Good c (s.rollFile c false now true).events := by
  rintro ⟨hname, -⟩
  rw [h.opened, if_neg hday] at hname
  exact logname_ne_first h.logidx_pos h.logidx_lt hname

/-- A new file on the same day. -/
theorem Sound.rollFile (h : s.Sound c) {name : List Byte} (hfile : s.file = some name) {now : ℕ}
    (hclock : s.clock = now) (hday : c.localtime s.rolltime = c.localtime now)
    (hlast : c.localtime s.lastctime = c.localtime now ∨ s.lastctime = 0) :
    (Good c (s.rollFile c false now true).events ↔ NameFits c now (s.logidx + 1)) ∧
      (NameFits c now (s.logidx + 1) → (s.rollFile c false now true).Sound c) := by
  have hcur := h.current name hfile
  have hcount : openedOn c (c.localtime now) s.events = s.logidx := by
    rw [hcur.opened, if_pos hday]
  have hgood : Good c (s.rollFile c false now true).events ↔ NameFits c now (s.logidx + 1) := by
    rw [← logname_eq_fileName_iff]
    change c.logname now (s.logidx + 1) = c.fileName (c.localtime now)
      (openedOn c (c.localtime now) s.events + 1) ∧ Good c s.events ↔ _
    rw [hcount, and_iff_left h.good]
  refine ⟨hgood, ?_⟩
  intro hfits
  refine ⟨hgood.mpr hfits, hclock.ge, ?_⟩
  intro name' hfile'
  cases hfile'
  refine ⟨(logname_eq_fileName_iff _ _).mpr hfits, Nat.le_add_left 1 _, hfits.2, ?_, rfl, hlast⟩
  intro tm
  change openedOn c tm s.events + (if c.localtime now = tm then 1 else 0) =
    if c.localtime now = tm then s.logidx + 1 else 0
  rw [hcur.opened, hday]
  split <;> rfl

/-! ## The loop -/

theorem writeLoop_append {now : ℕ} {data : List Byte} {ws : List ℕ} {first : Bool} {len : ℕ}
    {r : Logfile × ℕ} (h : writeLoop now data ws first len s = some r) :
    ∃ new, r.1.events = new ++ s.events := by
  have hfwrite {s s' : Logfile} {first : Bool} {bytes : List Byte}
      (h : s.fwrite now first bytes = some s') : ∃ e, s'.events = e :: s.events := by
    unfold fwrite at h
    split at h
    · cases h
    · cases h
      exact ⟨_, rfl⟩
  induction ws generalizing s first len with
  | nil =>
      unfold writeLoop at h
      split at h
      · cases h
        exact ⟨[], rfl⟩
      · obtain ⟨s', hs', rfl⟩ := Option.map_eq_some_iff.mp h
        obtain ⟨e, he⟩ := hfwrite hs'
        exact ⟨[e], he⟩
  | cons w ws ih =>
      unfold writeLoop at h
      split at h
      · cases h
        exact ⟨[], rfl⟩
      · obtain ⟨s', hs', hrest⟩ := Option.bind_eq_some_iff.mp h
        obtain ⟨e, he⟩ := hfwrite hs'
        split at hrest
        · cases hrest
          exact ⟨[e], he⟩
        · obtain ⟨new, hnew⟩ := ih hrest
          refine ⟨new ++ [e], ?_⟩
          rw [hnew, he, List.append_assoc]
          rfl

theorem writeLoop_of_null (hfile : s.file = none) (now : ℕ) (data : List Byte) (ws : List ℕ)
    (first : Bool) (len : ℕ) :
    writeLoop now data ws first len s = if len = 0 then some (s, 0) else none := by
  have hfwrite (bytes : List Byte) : s.fwrite now first bytes = none := by
    rw [fwrite, hfile]
  cases ws with
  | nil => rw [writeLoop, hfwrite, Option.map_none]
  | cons w ws => simp only [writeLoop, hfwrite, Option.bind_none]

theorem Sound.fwrite (h : s.Sound c) {name : List Byte} (hfile : s.file = some name) {now : ℕ}
    (hday : c.localtime s.rolltime = c.localtime now) {first : Bool}
    (hfirst : first = true → s.writesize < c.rollsize) (bytes : List Byte) :
    ∃ s', s.fwrite now first bytes = some s' ∧ s'.Sound c ∧ s'.file = s.file ∧
      s'.rolltime = s.rolltime := by
  have hcur := h.current name hfile
  refine ⟨{ s with
    writesize := s.writesize + bytes.length
    events := .wrote now name first bytes :: s.events }, ?_, ?_, rfl, rfl⟩
  · rw [Logfile.fwrite, hfile]
  · refine ⟨⟨⟨s.logidx, ?_⟩, ?_, h.good⟩, h.rolltime_le, ?_⟩
    · rw [← hday]
      exact hcur.name_eq
    · rw [hcur.size]
      exact hfirst
    · intro name' hfile'
      have hcur' := h.current name' hfile'
      exact ⟨hcur'.name_eq, hcur'.logidx_pos, hcur'.logidx_lt, hcur'.opened,
        congrArg (· + bytes.length) hcur'.size, hcur'.lastctime⟩

theorem Sound.writeLoop (h : s.Sound c) {name : List Byte} (hfile : s.file = some name) {now : ℕ}
    (hday : c.localtime s.rolltime = c.localtime now) {first : Bool}
    (hfirst : first = true → s.writesize < c.rollsize) (data : List Byte) (ws : List ℕ) (len : ℕ) :
    ∃ r, writeLoop now data ws first len s = some r ∧ r.1.Sound c ∧ r.1.file = s.file := by
  induction ws generalizing s first len with
  | nil =>
      unfold Logfile.writeLoop
      split
      · exact ⟨_, rfl, h, rfl⟩
      · obtain ⟨s', hs', hsound, hfile', -⟩ := h.fwrite hfile hday hfirst []
        exact ⟨(s', len), by rw [hs', Option.map_some], hsound, hfile'⟩
  | cons w ws ih =>
      unfold Logfile.writeLoop
      split
      · exact ⟨_, rfl, h, rfl⟩
      · obtain ⟨s', hs', hsound, hfile', hroll⟩ :=
          h.fwrite hfile hday hfirst (data.take (min w len))
        simp only [hs', Option.bind_some]
        split
        · exact ⟨_, rfl, hsound, hfile'⟩
        · have hrest : ∃ r, Logfile.writeLoop now data ws false (len - min w len) s' = some r ∧
              r.1.Sound c ∧ r.1.file = s'.file :=
            ih hsound (hfile'.trans hfile) (by rw [hroll, hday]) (fun hfalse ↦ by cases hfalse) _
          obtain ⟨r, hr, hsound', hfile''⟩ := hrest
          exact ⟨r, hr, hsound', hfile''.trans hfile'⟩

/-! ## A call -/

/-- The file before the loop. -/
def rolled (c : Setting) (s : Logfile) (m : Call) : Logfile :=
  ({ s with clock := m.now }.checkDay c m.now m.opensDay).checkSize c m.now m.opensSize

theorem write_eq_map {name : List Byte} (hfile : s.file = some name) (m : Call) :
    s.write c m = (writeLoop m.now m.data m.fwrites true m.data.length (s.rolled c m)).map
      fun r ↦ (r.1, decide (r.2 = 0)) := by
  unfold write rolled
  rw [hfile]

/-- What the loop needs, and that the calls which lead to it are the ones that roll well. -/
structure Rolls (c : Setting) (s : Logfile) (m : Call) : Prop where
  sound : Good c (s.rolled c m).events → (s.rolled c m).Sound c
  starts : (s.rolled c m).file ≠ none →
    c.localtime (s.rolled c m).rolltime = c.localtime m.now ∧
      (s.rolled c m).writesize < c.rollsize
  good_iff : Good c (s.rolled c m).events ∧ ((s.rolled c m).file = none → m.data = []) ↔
    RollsWell c s m

theorem Sound.rolls_other (h : s.Sound c) {name : List Byte} (hfile : s.file = some name)
    {m : Call} (hnow : s.clock ≤ m.now) (hday : c.localtime s.rolltime ≠ c.localtime m.now) :
    Rolls c s m := by
  have htick := h.tick hnow
  have hcur := htick.current name hfile
  have hroll : s.rolled c m =
      { s with clock := m.now, lastctime := m.now }.rollFile c false m.now m.opensDay := by
    have hcheck := hcur.checkDay_other m.now m.opensDay htick.rolltime_le hday
    unfold rolled
    rw [hcheck, checkSize, if_neg]
    rw [not_le, Logfile.rollFile]
    split <;> exact c.rollsize_pos
  have hwell : RollsWell c s m ↔ m.opensDay = false ∧ m.data = [] := by
    rw [RollsWell, if_pos hday, imp_iff_right (by rw [hfile]; exact Option.some_ne_none _)]
  cases hopens : m.opensDay with
  | true =>
      rw [hopens] at hroll
      have hbad : ¬ Good c (s.rolled c m).events := by
        rw [hroll]
        exact not_good_rollFile_other (s := { s with clock := m.now }) hcur hday
      refine ⟨fun hgood ↦ absurd hgood hbad, ?_, ?_⟩
      · intro _
        rw [hroll]
        exact ⟨rfl, c.rollsize_pos⟩
      · refine iff_of_false (fun hgood ↦ hbad hgood.1) ?_
        rw [hwell, hopens]
        exact fun hfalse ↦ Bool.noConfusion hfalse.1
  | false =>
      rw [hopens] at hroll
      refine ⟨?_, ?_, ?_⟩
      · rw [hroll]
        exact fun hgood ↦ ⟨hgood, le_rfl, fun name' hfile' ↦ by cases hfile'⟩
      · rw [hroll]
        exact fun hne ↦ absurd rfl hne
      · rw [hwell, hopens, hroll]
        exact ⟨fun hgood ↦ ⟨rfl, hgood.2 rfl⟩, fun hdata ↦ ⟨h.good, fun _ ↦ hdata.2⟩⟩

theorem Sound.rolls_full (h : s.Sound c) {name : List Byte} (hfile : s.file = some name)
    {m : Call} (hnow : s.clock ≤ m.now) (hday : c.localtime s.rolltime = c.localtime m.now)
    (hfull : c.rollsize ≤ s.writesize) : Rolls c s m := by
  obtain ⟨hcheck, hfile', hsize, hidx, hroll, hclock⟩ :=
    (h.tick hnow).checkDay_same m.opensDay hday
  have hname := hfile'.trans hfile
  have hrolled : s.rolled c m = ({ s with clock := m.now }.checkDay c m.now m.opensDay).rollFile
      c false m.now m.opensSize := by
    rw [rolled, checkSize, if_pos (by rw [hsize]; exact hfull)]
  have hwell : RollsWell c s m ↔
      if m.opensSize = true then NameFits c m.now (s.logidx + 1) else m.data = [] := by
    rw [RollsWell, if_neg (not_not.mpr hday), if_pos hfull,
      imp_iff_right (by rw [hfile]; exact Option.some_ne_none _)]
  cases hopens : m.opensSize with
  | false =>
      rw [hopens] at hrolled
      refine ⟨?_, ?_, ?_⟩
      · rw [hrolled]
        exact fun hgood ↦ ⟨hgood, hclock.ge, fun name' hfile'' ↦ by cases hfile''⟩
      · rw [hrolled]
        exact fun hne ↦ absurd rfl hne
      · rw [hwell, hopens, hrolled]
        exact ⟨fun hgood ↦ hgood.2 rfl, fun hdata ↦ ⟨hcheck.good, fun _ ↦ hdata⟩⟩
  | true =>
      rw [hopens] at hrolled
      have hlast := (hcheck.current name hname).lastctime
      rw [hroll] at hlast
      obtain ⟨hgood, hsound⟩ := hcheck.rollFile hname hclock (by rw [hroll]; exact hday)
        (hlast.imp_left fun heq ↦ heq.trans hday)
      refine ⟨?_, ?_, ?_⟩
      · rw [hrolled]
        exact fun hgood' ↦ hsound (hgood.mp hgood')
      · rw [hrolled]
        exact fun _ ↦ ⟨rfl, c.rollsize_pos⟩
      · rw [hwell, hopens, hrolled, hgood, hidx]
        exact ⟨And.left, fun hfits ↦ ⟨hfits, fun hnone ↦ by cases hnone⟩⟩

theorem Sound.rolls_not_full (h : s.Sound c) {name : List Byte} (hfile : s.file = some name)
    {m : Call} (hnow : s.clock ≤ m.now) (hday : c.localtime s.rolltime = c.localtime m.now)
    (hfull : ¬ c.rollsize ≤ s.writesize) : Rolls c s m := by
  obtain ⟨hcheck, hfile', hsize, -, hroll, -⟩ :=
    (h.tick hnow).checkDay_same m.opensDay hday
  have hrolled : s.rolled c m = { s with clock := m.now }.checkDay c m.now m.opensDay := by
    rw [rolled, checkSize, if_neg (by rw [hsize]; exact hfull)]
  have hwell : RollsWell c s m := by
    intro _
    rw [if_neg (not_not.mpr hday), if_neg hfull]
    trivial
  refine ⟨?_, ?_, ?_⟩
  · rw [hrolled]
    exact fun _ ↦ hcheck
  · rw [hrolled, hroll, hsize]
    exact fun _ ↦ ⟨hday, not_le.mp hfull⟩
  · refine iff_of_true ⟨?_, ?_⟩ hwell
    · rw [hrolled]
      exact hcheck.good
    · rw [hrolled, hfile', hfile]
      exact fun hnone ↦ by cases hnone

theorem Sound.rolls (h : s.Sound c) {name : List Byte} (hfile : s.file = some name) {m : Call}
    (hnow : s.clock ≤ m.now) : Rolls c s m := by
  by_cases hday : c.localtime s.rolltime = c.localtime m.now
  · by_cases hfull : c.rollsize ≤ s.writesize
    · exact h.rolls_full hfile hnow hday hfull
    · exact h.rolls_not_full hfile hnow hday hfull
  · exact h.rolls_other hfile hnow hday

/-- A call whose events stay as asked keeps the file sound. -/
theorem Rolls.sound_write {m : Call} (h : Rolls c s m) {name : List Byte}
    (hfile : s.file = some name) {s' : Logfile} {result : Bool}
    (hwrite : s.write c m = some (s', result)) (hgood : Good c s'.events) : s'.Sound c := by
  rw [write_eq_map hfile] at hwrite
  obtain ⟨r, hr, heq⟩ := Option.map_eq_some_iff.mp hwrite
  cases heq
  obtain ⟨new, hnew⟩ := writeLoop_append hr
  rw [hnew] at hgood
  have hsound := h.sound (hgood.of_append new)
  cases hfile' : (s.rolled c m).file with
  | none =>
      rw [writeLoop_of_null hfile'] at hr
      split at hr
      · cases hr
        exact hsound
      · cases hr
  | some name' =>
      obtain ⟨hday, hsize⟩ := h.starts (by rw [hfile']; exact Option.some_ne_none _)
      obtain ⟨r', hr', hsound', -⟩ :=
        hsound.writeLoop hfile' hday (fun _ ↦ hsize) m.data m.fwrites m.data.length
      rw [hr] at hr'
      cases hr'
      exact hsound'

theorem Rolls.call_writesWell_iff {m : Call} (h : Rolls c s m) {name : List Byte}
    (hfile : s.file = some name) : WritesWell c s m ↔ RollsWell c s m := by
  rw [← h.good_iff, WritesWell, write_eq_map hfile]
  constructor
  · rintro ⟨s', result, hmap, hgood, -⟩
    obtain ⟨r, hr, heq⟩ := Option.map_eq_some_iff.mp hmap
    cases heq
    obtain ⟨new, hnew⟩ := writeLoop_append hr
    rw [hnew] at hgood
    refine ⟨hgood.of_append new, ?_⟩
    intro hnull
    rw [writeLoop_of_null hnull] at hr
    split at hr
    · rename_i hlen
      exact List.length_eq_zero_iff.mp hlen
    · cases hr
  · rintro ⟨hgood, hdata⟩
    have hsound := h.sound hgood
    cases hfile' : (s.rolled c m).file with
    | none =>
        rw [writeLoop_of_null hfile', hdata hfile']
        exact ⟨_, _, rfl, hgood, fun _ hne ↦ absurd rfl hne⟩
    | some name' =>
        obtain ⟨hday, hsize⟩ := h.starts (by rw [hfile']; exact Option.some_ne_none _)
        obtain ⟨r, hr, hsound', hsame⟩ :=
          hsound.writeLoop hfile' hday (fun _ ↦ hsize) m.data m.fwrites m.data.length
        refine ⟨r.1, _, by rw [hr, Option.map_some], hsound'.good, ?_⟩
        intro hnone
        rw [hsame, hfile'] at hnone
        cases hnone

/-! ## Runs -/

theorem Sound.call_writesWell_iff (h : s.Sound c) {m : Call} (hnow : s.clock ≤ m.now) :
    WritesWell c s m ↔ RollsWell c s m := by
  cases hfile : s.file with
  | none =>
      refine iff_of_true ?_ (fun hne ↦ absurd hfile hne)
      refine ⟨{ s with clock := m.now }, m.data.length = 0, ?_, h.good, ?_⟩
      · rw [write, hfile]
      · intro _ hdata
        simpa using hdata
  | some name => exact (h.rolls hfile hnow).call_writesWell_iff hfile

theorem Sound.step (h : s.Sound c) {m : Call} (hnow : s.clock ≤ m.now) (hwell : WritesWell c s m)
    {s' : Logfile} (hstep : (system c).step s m = some s') : s'.Sound c := by
  obtain ⟨s₁, result, hwrite, hgood, -⟩ := hwell
  have hs' : (s.write c m).map Prod.fst = some s' := hstep
  rw [hwrite] at hs'
  cases hs'
  cases hfile : s.file with
  | none =>
      rw [write, hfile] at hwrite
      cases hwrite
      have htick := h.tick hnow
      rw [hfile] at htick
      exact htick
  | some name => exact (h.rolls hfile hnow).sound_write hfile hwrite hgood

theorem good_logfile_iff (now : ℕ) (opens : Bool) :
    Good c (logfile c now opens).events ↔ (opens = true → NameFits c now 1) := by
  constructor
  · rintro hgood rfl
    exact (logname_eq_fileName_iff now 1).mp hgood.1
  · exact fun hfits ↦ (sound_logfile hfits).good

/-- The constructor and the calls behind it write well exactly if each of them rolls well. -/
theorem writesWell_iff (c : Setting) (now : ℕ) (opens : Bool) (calls : List Call) :
    Good c (logfile c now opens).events ∧
        (system c).Allowed (WritesWell c) (logfile c now opens) calls ↔
      (opens = true → NameFits c now 1) ∧
        (system c).Allowed (RollsWell c) (logfile c now opens) calls := by
  rw [good_logfile_iff]
  refine and_congr_right fun hfits ↦ ?_
  refine System.allowed_congr_of_cond (I := Sound c) ?_ ?_ (sound_logfile hfits) calls
  · intro s m s' hs hnow hwell hstep
    exact hs.step hnow hwell hstep
  · intro s m hs hnow
    exact hs.call_writesWell_iff hnow

/-- A log that is named "a", in a local time without changes of the clock, from 1970 on. -/
def sampleSetting : Setting where
  filename := [97]
  pid := [49]
  withpid := false
  rollsize := 100
  localtime := fun time ↦ ⟨70, 0, 1 + time / 86400⟩
  rollsize_pos := by decide

/-- One byte is written on the next day. -/
def nextDay : Call := ⟨86400, [120], true, true, [1]⟩

theorem numbered_two_on_next_day :
    (system sampleSetting).Allowed System.anyStep (logfile sampleSetting 0 true) [nextDay] ∧
      ¬ (Good sampleSetting (logfile sampleSetting 0 true).events ∧
        (system sampleSetting).Allowed (WritesWell sampleSetting) (logfile sampleSetting 0 true)
          [nextDay]) := by
  have hfits : NameFits sampleSetting 0 1 := by
    unfold NameFits
    decide +kernel
  have hnow : (logfile sampleSetting 0 true).clock ≤ nextDay.now := by decide +kernel
  refine ⟨⟨hnow, trivial, fun _ _ ↦ trivial⟩, ?_⟩
  rintro ⟨-, -, hwell, -⟩
  have hrolls := ((sound_logfile fun _ ↦ hfits).call_writesWell_iff hnow).mp hwell
    (Option.some_ne_none _)
  rw [if_pos (by decide +kernel)] at hrolls
  exact absurd hrolls.1 (by decide)

end Logfile

end Slience
