import Slience.Lib.Cursor
import Slience.Redis.Format

/-!
# The words of a format

A format is a list of words, and a word a list of bytes and conversions, whatever the arguments
are.  `redisvFormatCommand` makes an argument of the command from each word, and takes what the
conversions of the word need from the `va_list`; so it is the same to read the words first, and
then to take the texts.
-/

namespace Slience

namespace Redis

/-- What is left of a format: the items in front of the next space, the words behind it, and
whether the end is reached, or an invalid conversion. -/
structure FormatWords where
  word : List Item
  words : List (List Item)
  valid : Bool
  deriving DecidableEq

namespace FormatWords

def all (p : FormatWords) : List (List Item) :=
  if p.word = [] then p.words else p.word :: p.words

def space (p : FormatWords) : FormatWords := ⟨[], p.all, p.valid⟩

def item (p : FormatWords) (i : Item) : FormatWords := ⟨i :: p.word, p.words, p.valid⟩

end FormatWords

/-- The words of what is left of a format behind the first `skip` bytes; nothing where its end is
passed over. -/
def formatWords : Text → ℕ → Option FormatWords
  | [], 0 => some ⟨[], [], true⟩
  | [], _ + 1 => none
  | _ :: rest, skip + 1 => formatWords rest skip
  | c :: rest, 0 =>
      if c ≠ 37 ∨ rest = [] then
        if c = 32 then (formatWords rest 0).map .space
        else (formatWords rest 0).map (·.item (.byte c))
      else
        match conversion rest with
        | none => some ⟨[], [], false⟩
        | some (item, skip) => (formatWords rest skip).map (·.item item)

/-- The text of a word. -/
def wordText (printf : Text → VaArg → Text) (word : List Item) (ap : List VaArg) :
    Option (Text × List VaArg) :=
  (readAll (Item.take printf) word ap).map (Prod.map List.flatten id)

/-- The texts of words. -/
def wordTexts (printf : Text → VaArg → Text) :
    List (List Item) → List VaArg → Option (List Text × List VaArg) :=
  readAll (wordText printf)

/-- What the loop makes of the words from a state on. -/
def FormatWords.run (printf : Text → VaArg → Text) (p : FormatWords) (s : FormatState) :
    Option (Option (List Text) × List VaArg) := do
  let (text, ap) ← wordText printf p.word s.ap
  let (argv, ap) ← wordTexts printf p.words ap
  let s := if p.word = [] then s else s.append text ap
  some (if p.valid then some (s.flush.curargv ++ argv) else none, ap)

/-- How many arguments a conversion takes. -/
def Conv.arity : Conv → ℕ
  | .binary => 2
  | _ => 1

def Item.arity : Item → ℕ
  | .byte _ => 0
  | .conv c => c.arity

def wordArity (word : List Item) : ℕ := (word.map Item.arity).sum

def wordsArity (words : List (List Item)) : ℕ := (words.map wordArity).sum

/-- The words of a format, up to its NUL. -/
def words (format : Text) : List (List Item) :=
  (formatWords (format.takeWhile (· ≠ 0)) 0).elim [] FormatWords.all

def isValid (format : Text) : Bool :=
  (formatWords (format.takeWhile (· ≠ 0)) 0).elim false FormatWords.valid

/-- How many arguments a format uses. -/
def numArgs (format : Text) : ℕ := wordsArity (words format)

variable {printf : Text → VaArg → Text} {s : FormatState} {p : FormatWords}

theorem wordText_nil (ap : List VaArg) : wordText printf [] ap = some ([], ap) :=
  rfl

theorem wordText_cons (item : Item) (word : List Item) (ap : List VaArg) :
    wordText printf (item :: word) ap = (item.take printf ap).bind fun r ↦
      (wordText printf word r.2).bind fun r' ↦ some (r.1 ++ r'.1, r'.2) := by
  rw [wordText, readAll, Option.map_bind]
  congr 1
  funext r
  rw [wordText, Function.comp_apply, Option.map_bind, Option.bind_map]
  rfl

theorem wordTexts_nil (ap : List VaArg) : wordTexts printf [] ap = some ([], ap) :=
  rfl

theorem wordTexts_cons (word : List Item) (ws : List (List Item)) (ap : List VaArg) :
    wordTexts printf (word :: ws) ap = (wordText printf word ap).bind fun r ↦
      (wordTexts printf ws r.2).bind fun r' ↦ some (r.1 :: r'.1, r'.2) :=
  rfl

/-! ## The loop reads words -/

/-- `curarg` is empty until it is touched. -/
def FormatState.Fresh (s : FormatState) : Prop := s.touched = false → s.curarg = []

theorem FormatState.Fresh.flush (h : s.Fresh) : s.flush.Fresh := by
  unfold FormatState.flush
  split
  · exact fun _ ↦ rfl
  · exact h

theorem FormatState.curarg_flush (h : s.Fresh) : s.flush.curarg = [] := by
  unfold FormatState.flush
  split
  · rfl
  · rename_i hs
    exact h (Bool.eq_false_of_not_eq_true hs)

theorem FormatWords.run_end (valid : Bool) (s : FormatState) :
    FormatWords.run printf ⟨[], [], valid⟩ s =
      some (if valid then some s.flush.curargv else none, s.ap) := by
  simp [FormatWords.run, wordText_nil, wordTexts_nil]

theorem FormatState.curargv_flush_append (s : FormatState) (text : Text) (ap : List VaArg) :
    (s.append text ap).flush.curargv = s.curargv ++ [s.curarg ++ text] :=
  rfl

theorem FormatWords.run_space (hs : s.Fresh) (p : FormatWords) :
    p.space.run printf s = p.run printf s.flush := by
  by_cases hword : p.word = []
  · simp [FormatWords.run, FormatWords.space, FormatWords.all, hword, wordText_nil, s.flush_flush]
  · have hcur := s.curarg_flush hs
    simp only [FormatWords.run, FormatWords.space, FormatWords.all, hword, if_false, if_true,
      wordText_nil, wordTexts_cons, FormatState.ap_flush, Option.bind_eq_bind, Option.bind_some,
      Option.bind_assoc, FormatState.curargv_flush_append, hcur, List.nil_append,
      List.append_assoc, List.cons_append]

theorem FormatWords.run_item (p : FormatWords) (i : Item) (s : FormatState) :
    (p.item i).run printf s =
      (i.take printf s.ap).bind fun (text, ap) ↦ p.run printf (s.append text ap) := by
  by_cases hword : p.word = []
  · simp [FormatWords.run, FormatWords.item, hword, wordText_nil, wordText_cons]
    rfl
  · simp only [FormatWords.run, FormatWords.item, hword, if_false, reduceCtorEq,
      wordText_cons, Option.bind_eq_bind, Option.bind_some, Option.bind_assoc,
      FormatState.curargv_flush_append]
    simp [FormatState.append]

theorem formatLoop_eq (f : Text) (k : ℕ) (hs : s.Fresh) :
    formatLoop printf f k s = (formatWords f k).bind fun p ↦ p.run printf s := by
  induction f generalizing k s with
  | nil =>
      cases k with
      | succ k => rfl
      | zero => exact (FormatWords.run_end true s).symm
  | cons c rest ih =>
      cases k with
      | succ k => exact ih k hs
      | zero =>
          by_cases hlit : c ≠ 37 ∨ rest = []
          · by_cases hc : c = 32
            · subst hc
              rw [formatLoop_space, ih 0 hs.flush, formatWords, if_pos hlit, if_pos rfl,
                Option.bind_map]
              congr 1
              funext p
              exact (p.run_space hs).symm
            · rw [formatLoop_byte hc hlit, ih 0 (by simp [FormatState.Fresh, FormatState.append]),
                formatWords, if_pos hlit, if_neg hc, Option.bind_map]
              congr 1
              funext p
              exact (p.run_item (.byte c) s).symm
          · obtain ⟨rfl, hrest⟩ := not_or.mp hlit |>.imp_left not_not.mp
            rw [formatLoop_percent hrest, formatWords, if_neg hlit]
            cases hconv : conversion rest with
            | none => exact (FormatWords.run_end false s).symm
            | some r =>
                obtain ⟨item, skip⟩ := r
                dsimp only
                rw [Option.bind_map]
                cases htake : item.take printf s.ap with
                | none =>
                    have hnone (p : FormatWords) : (p.item item).run printf s = none := by
                      rw [p.run_item, htake]
                      rfl
                    exact (Option.bind_eq_none_iff.mpr fun p _ ↦ hnone p).symm
                | some taken =>
                    obtain ⟨text, ap⟩ := taken
                    have hsome (p : FormatWords) :
                        (p.item item).run printf s = p.run printf (s.append text ap) := by
                      rw [p.run_item, htake]
                      rfl
                    refine (ih skip (by simp [FormatState.Fresh, FormatState.append])).trans ?_
                    congr 1
                    funext p
                    exact (hsome p).symm

theorem FormatWords.run_all (p : FormatWords) (ap : List VaArg) :
    p.run printf ⟨[], false, [], ap⟩ = (wordTexts printf p.all ap).map fun (argv, ap) ↦
      (if p.valid then some argv else none, ap) := by
  have hspace : p.space.run printf ⟨[], false, [], ap⟩ = p.run printf ⟨[], false, [], ap⟩ :=
    p.run_space fun _ ↦ rfl
  rw [← hspace]
  cases hp : wordTexts printf p.all ap <;>
    simp [FormatWords.run, FormatWords.space, wordText_nil, hp, FormatState.flush]

/-- A format that can be read: each word gives an argument. -/
theorem format_eq_some_iff {format : Text} {ap rest : List VaArg} {r : Option (List Text)} :
    redisvFormatCommand printf format ap = some (r, rest) ↔
      (formatWords (format.takeWhile (· ≠ 0)) 0).isSome ∧
        ∃ argv, wordTexts printf (words format) ap = some (argv, rest) ∧
          r = if isValid format then some argv else none := by
  rw [redisvFormatCommand, formatLoop_eq _ _ (fun _ ↦ rfl), words, isValid]
  cases formatWords (format.takeWhile (· ≠ 0)) 0 with
  | none => simp
  | some p =>
      rw [Option.bind_some, p.run_all, Option.map_eq_some_iff]
      constructor
      · rintro ⟨⟨argv, ap'⟩, htexts, heq⟩
        cases heq
        exact ⟨rfl, argv, htexts, rfl⟩
      · rintro ⟨-, argv, htexts, rfl⟩
        exact ⟨(argv, rest), htexts, rfl⟩

/-! ## The `va_list` -/

theorem take_hasArity (printf : Text → VaArg → Text) : HasArity (Item.take printf) Item.arity where
  rest_eq := by
    intro item ap rest text h
    cases item with
    | byte b =>
        cases h
        simp [Item.arity]
    | conv conv =>
        change conv.take printf ap = some (text, rest) at h
        unfold Conv.take at h
        split at h
        · split at h
          · cases h
            simp [Item.arity, Conv.arity]
          · cases h
        · split at h
          · cases h
            simp [Item.arity, Conv.arity]
          · cases h
        · split at h
          · cases h
            simp [Item.arity, Conv.arity]
          · cases h
        · cases h
  of_zero := by
    intro item hzero
    cases item with
    | byte b => exact ⟨[b], fun _ ↦ rfl⟩
    | conv conv => cases conv <;> cases hzero

theorem wordText_hasArity (printf : Text → VaArg → Text) : HasArity (wordText printf) wordArity :=
  (take_hasArity printf).readAll.map List.flatten

/-- After a format the `va_list` stands behind the arguments that the format uses. -/
theorem format_rest {format : Text} {ap rest : List VaArg} {r : Option (List Text)}
    (h : redisvFormatCommand printf format ap = some (r, rest)) :
    numArgs format ≤ ap.length ∧ rest = ap.drop (numArgs format) := by
  obtain ⟨-, argv, htexts, -⟩ := format_eq_some_iff.mp h
  exact (wordText_hasArity printf).readAll.rest_eq htexts

end Redis

end Slience
