import Slience.Base.Logstream
import Slience.Redis.ReaderRuns

/-!
# Encoding a reply

A reply as a server writes it, with arrays nested so many deep.  A line holds no newline, and a
number leaves room for its sign in a `long long`; other replies have no encoding.  What was
encoded is what the grammar reads, and so what the reader gives out.
-/

namespace Slience

namespace Redis

def crlf : Text := [13, 10]

section Numerals

open Logstream (decimalDigit decimalText)

theorem decimalText_natCast (n : ℕ) : decimalText n = numeral decimalDigit 10 n := by
  rw [decimalText, signedNumeral, if_neg (by omega), Int.toNat_natCast]

theorem numeral_of_lt {n : ℕ} (h : n < 10) : numeral decimalDigit 10 n = [decimalDigit n] := by
  unfold numeral
  split
  · rename_i hn
    rw [hn]
  · rename_i hn
    rw [Nat.digits_of_lt 10 n hn h]
    rfl

theorem numeral_of_le {n : ℕ} (h : 10 ≤ n) :
    numeral decimalDigit 10 n = numeral decimalDigit 10 (n / 10) ++ [decimalDigit (n % 10)] := by
  unfold numeral
  rw [if_neg (by omega), if_neg (by omega), Nat.digits_def' (by omega) (by omega),
    List.reverse_cons, List.map_append]
  rfl

/-- The loop of `readLongLong` over digits, the first one first. -/
theorem longLongLoop_digits (ds : List ℕ) (hds : ∀ d ∈ ds, d < 10) {v : ℕ}
    (h : ds.foldl (fun v d ↦ v * 10 + d) v < 2 ^ 63) (t : Text) :
    longLongLoop v (ds.map decimalDigit ++ 13 :: t) =
      some (some (ds.foldl (fun v d ↦ v * 10 + d) v)) := by
  induction ds generalizing v with
  | nil => rfl
  | cons d ds ih =>
      have hd := hds d List.mem_cons_self
      have hle (w : ℕ) (l : List ℕ) : w ≤ l.foldl (fun v d ↦ v * 10 + d) w := by
        induction l generalizing w with
        | nil => exact le_rfl
        | cons e l ihl => exact le_trans (by omega) (ihl (w * 10 + e))
      have hdigit : ∀ d < 10, decimalDigit d ≠ 13 ∧ isDigit (decimalDigit d) = true ∧
          (decimalDigit d).toNat - 48 = d := by decide
      obtain ⟨hne, his, hval⟩ := hdigit d hd
      rw [List.foldl_cons] at h
      have hbound : v * 10 + d < 2 ^ 63 := lt_of_le_of_lt (hle _ ds) h
      rw [List.map_cons, List.cons_append, longLongLoop, if_neg hne, if_pos his, hval]
      simp only [if_pos hbound]
      rw [ih (fun e he ↦ hds e (List.mem_cons_of_mem d he)) h, List.foldl_cons]

theorem foldl_digits (n : ℕ) : (Nat.digits 10 n).reverse.foldl (fun v d ↦ v * 10 + d) 0 = n := by
  rw [List.foldl_reverse]
  calc (Nat.digits 10 n).foldr (fun d v ↦ v * 10 + d) 0
      = Nat.ofDigits 10 (Nat.digits 10 n) := by
        rw [Nat.ofDigits_eq_foldr]
        congr 1
        funext d v
        simp only [Nat.cast_id]
        omega
    _ = n := Nat.ofDigits_digits 10 n

theorem longLongLoop_numeral {n : ℕ} (h : n < 2 ^ 63) (t : Text) :
    longLongLoop 0 (numeral decimalDigit 10 n ++ 13 :: t) = some (some n) := by
  unfold numeral
  split
  · rename_i hn
    have hzero := longLongLoop_digits [0] (by simp) (v := 0) (by simp) t
    rw [hn]
    exact hzero
  · have hdigits := longLongLoop_digits (Nat.digits 10 n).reverse
      (fun d hd ↦ Nat.digits_lt_base (by omega) (List.mem_reverse.mp hd))
      (v := 0) (by rwa [foldl_digits]) t
    rw [hdigits, foldl_digits]

theorem head_numeral (n : ℕ) : ∃ d < 10, ∃ l, numeral decimalDigit 10 n = decimalDigit d :: l := by
  induction n using Nat.strong_induction_on with
  | _ n ih =>
      rcases Nat.lt_or_ge n 10 with h | h
      · exact ⟨n, h, [], numeral_of_lt h⟩
      · obtain ⟨d, hd, l, hl⟩ := ih (n / 10) (by omega)
        exact ⟨d, hd, l ++ [decimalDigit (n % 10)], by rw [numeral_of_le h, hl, List.cons_append]⟩

/-- A number that was printed is read again. -/
theorem readLongLong_decimalText {z : ℤ} (h : z.natAbs < 2 ^ 63) (t : Text) :
    readLongLong (decimalText z ++ 13 :: t) = some z := by
  rw [decimalText, signedNumeral]
  split
  · rename_i hneg
    rw [List.cons_append, readLongLong, longLongLoop_numeral (by omega)]
    simp only [Option.map_some, Option.elim_some, Option.some.injEq]
    omega
  · rename_i hneg
    have hloop := longLongLoop_numeral (n := z.toNat) (by omega) t
    obtain ⟨d, hd, l, hl⟩ := head_numeral z.toNat
    have hdigit : ∀ d < 10, decimalDigit d ≠ 45 ∧ decimalDigit d ≠ 43 := by decide
    obtain ⟨hminus, hplus⟩ := hdigit d hd
    rw [hl, List.cons_append] at hloop ⊢
    rw [readLongLong_cons hminus hplus, hloop, Option.map_some, Option.elim_some,
      Int.toNat_of_nonneg (by omega)]

theorem cutPair_decimalText (z : ℤ) (t : Text) :
    cutPair 13 10 (decimalText z ++ 13 :: 10 :: t) = some (decimalText z, t) := by
  have hnumeral (n : ℕ) : 13 ∉ numeral decimalDigit 10 n := by
    intro hmem
    obtain ⟨d, hd, heq⟩ := mem_numeral (by omega) hmem
    have hdigit : ∀ d < 10, 13 ≠ decimalDigit d := by decide
    exact hdigit d hd heq
  refine cutPair_append_pair (by decide) (cutPair_of_notMem ?_) t
  rw [decimalText, signedNumeral]
  split
  · rw [List.mem_cons, not_or]
    exact ⟨by decide, hnumeral _⟩
  · exact hnumeral _

end Numerals

section Encode

open Logstream (decimalText)

/-- An item that is one line. -/
def encodeLine (byte : Byte) (str : Text) : Text := byte :: (str ++ crlf)

def encodeBulk (str : Text) : Text := encodeLine 36 (decimalText str.length) ++ str ++ crlf

/-- The elements of an array, each of which is written by `element`. -/
def encodeAll (element : ReplyObject → Option Text) : List (Option ReplyObject) → Option Text
  | [] => some []
  | slot :: slots => do
      let o ← slot
      let t ← element o
      let ts ← encodeAll element slots
      some (t ++ ts)

def encodeWith (element : Option (ReplyObject → Option Text)) : ReplyObject → Option Text
  | .string .string str => if str.length + 2 < 2 ^ 63 then some (encodeBulk str) else none
  | .string .status str => if cutPair 13 10 str = none then some (encodeLine 43 str) else none
  | .string .error str => if cutPair 13 10 str = none then some (encodeLine 45 str) else none
  | .string _ _ => none
  | .integer v => if v.natAbs < 2 ^ 63 then some (encodeLine 58 (decimalText v)) else none
  | .nil => some (encodeLine 36 (decimalText (-1)))
  | .array elements slots =>
      if elements = slots.length ∧ elements < 2 ^ 31 then
        (element.bind fun e ↦ encodeAll e slots).map fun ts ↦
          encodeLine 42 (decimalText elements) ++ ts
      else none

def encode : ℕ → ReplyObject → Option Text
  | 0 => encodeWith none
  | depth + 1 => encodeWith (some (encode depth))

theorem parseItemWith_line {item : Option (Text → ReplyFront)} {byte : Byte} {type : ItemType}
    (hbyte : RedisReader.itemType byte = some type) (str t : Text) :
    parseItemWith item (encodeLine byte str ++ t) =
      parseTyped item type (str ++ 13 :: 10 :: t) := by
  rw [encodeLine, List.cons_append, parseItemWith, parseBehind, hbyte, List.append_assoc]
  rfl

theorem parse_items {item : Text → ReplyFront} {element : ReplyObject → Option Text}
    (h : ∀ o t, element o = some t → ∀ s, item (t ++ s) = .done o s)
    {slots : List (Option ReplyObject)} {ts : Text} (hts : encodeAll element slots = some ts)
    (s : Text) :
    ∃ os : List ReplyObject, slots = os.map some ∧
      Front.items item slots.length (ts ++ s) = .done os s := by
  induction slots generalizing ts with
  | nil =>
      cases hts
      exact ⟨[], rfl, rfl⟩
  | cons slot slots ih =>
      obtain ⟨o, rfl, hts⟩ := Option.bind_eq_some_iff.mp hts
      obtain ⟨t, ht, hts⟩ := Option.bind_eq_some_iff.mp hts
      obtain ⟨ts', hts', hts⟩ := Option.bind_eq_some_iff.mp hts
      cases hts
      obtain ⟨os, rfl, hitems⟩ := ih hts'
      refine ⟨o :: os, rfl, ?_⟩
      rw [List.length_cons, Front.items, List.append_assoc, h o t ht, Front.bind_done, hitems,
        Front.bind_done]

theorem parse_encodeWith {item : Option (Text → ReplyFront)}
    {element : Option (ReplyObject → Option Text)}
    (hnone : item = none → element = none)
    (h : ∀ p e, item = some p → element = some e →
      ∀ o t, e o = some t → ∀ s, p (t ++ s) = .done o s)
    {o : ReplyObject} {t : Text} (ht : encodeWith element o = some t) (s : Text) :
    parseItemWith item (t ++ s) = .done o s := by
  match o with
  | .string .string str =>
      rw [encodeWith] at ht
      split at ht
      · rename_i hstr
        cases ht
        rw [encodeBulk, List.append_assoc, List.append_assoc, parseItemWith_line rfl, parseTyped,
          parseBulk, cutPair_decimalText]
        have hnumber := readLongLong_decimalText (z := str.length) (by omega)
          (10 :: (str ++ (crlf ++ s)))
        simp only [hnumber]
        rw [if_neg (by omega), if_neg (by omega), if_pos, Int.toNat_natCast, List.take_left,
          ← List.drop_drop, List.drop_left]
        · rfl
        · simp [crlf]
      · cases ht
  | .string .status str =>
      rw [encodeWith] at ht
      split at ht
      · rename_i hstr
        cases ht
        rw [parseItemWith_line rfl, parseTyped, parseLine,
          cutPair_append_pair (by decide) hstr]
        · rfl
        all_goals simp
      · cases ht
  | .string .error str =>
      rw [encodeWith] at ht
      split at ht
      · rename_i hstr
        cases ht
        rw [parseItemWith_line rfl, parseTyped, parseLine,
          cutPair_append_pair (by decide) hstr]
        · rfl
        all_goals simp
      · cases ht
  | .string .integer str => cases ht
  | .string .array str => cases ht
  | .integer v =>
      rw [encodeWith] at ht
      split at ht
      · rename_i hv
        cases ht
        rw [parseItemWith_line rfl, parseTyped, parseLine, cutPair_decimalText]
        · have hnumber := readLongLong_decimalText hv (10 :: s)
          simp only [if_pos, hnumber]
        all_goals simp
      · cases ht
  | .nil =>
      cases ht
      rw [parseItemWith_line rfl, parseTyped, parseBulk, cutPair_decimalText]
      have hnumber := readLongLong_decimalText (z := -1) (by decide) (10 :: s)
      simp only [hnumber]
      rfl
  | .array elements slots =>
      rw [encodeWith] at ht
      split at ht
      · rename_i hlen
        obtain ⟨rfl, hbound⟩ := hlen
        obtain ⟨ts, hts, rfl⟩ := Option.map_eq_some_iff.mp ht
        obtain ⟨e, rfl, hts⟩ := Option.bind_eq_some_iff.mp hts
        cases item with
        | none => cases hnone rfl
        | some p =>
            obtain ⟨os, rfl, hitems⟩ := parse_items (h p e rfl rfl) hts s
            rw [List.append_assoc, parseItemWith_line rfl, parseTyped, parseArray,
              cutPair_decimalText]
            have hnumber := readLongLong_decimalText (z := (os.map some).length) (by omega)
              (10 :: (ts ++ s))
            simp only [hnumber]
            rw [if_neg (by omega)]
            cases os with
            | nil =>
                cases hts
                rfl
            | cons o os =>
                rw [if_neg (by simp only [List.map_cons, List.length_cons]; omega),
                  if_neg (by omega), parseElements, Int.toNat_natCast, hitems]
                rfl
      · cases ht

/-- What was encoded is read again, whatever is behind it. -/
theorem parseItem_encode {depth : ℕ} {o : ReplyObject} {t : Text} (ht : encode depth o = some t)
    (s : Text) : parseItem depth (t ++ s) = .done o s := by
  induction depth generalizing o t s with
  | zero => exact parse_encodeWith (fun _ ↦ rfl) (by simp) ht s
  | succ depth ih =>
      refine parse_encodeWith (by simp) ?_ ht s
      rintro p e hp he o t ho s
      cases hp
      cases he
      exact ih ho s

theorem stream_encode {os : List ReplyObject} {ts : List Text}
    (h : List.Forall₂ (fun o t ↦ encode 8 o = some t) os ts) :
    replies.stream ts.flatten = (os, .more []) := by
  induction h with
  | nil => exact replies.stream_of_more rfl
  | @cons o t os ts ho _ ih =>
      have hdone : replies.parse (t ++ ts.flatten) = .done o ts.flatten := parseItem_encode ho _
      rw [List.flatten_cons, replies.stream_of_done hdone, ih]

/-- The encodings of replies, cut into any pieces, are read as these replies: however the requests
stand between the pieces, none of them fails, and they deliver the replies in order. -/
theorem run_encode {os : List ReplyObject} {ts : List Text}
    (h : List.Forall₂ (fun o t ↦ encode 8 o = some t) os ts) {calls : List (ReceiverCall Byte)}
    (hfed : fed calls = ts.flatten)
    (hfits : RedisReader.receiver.Fits .create (calls ++ List.replicate os.length .get)) :
    ∃ answers r,
      RedisReader.receiver.run .create (calls ++ List.replicate os.length .get) =
        some (answers, r) ∧
      (∀ answer ∈ answers, ∃ o, answer = .ok o) ∧ Incremental.delivered answers = os := by
  have hstream := stream_encode h
  rw [← hfed] at hstream
  have hall : fed (calls ++ List.replicate os.length .get) = fed calls := by
    rw [Incremental.fed_append, Incremental.fed_replicate, List.append_nil]
  obtain ⟨r, hrun⟩ := RedisReader.receiver_resumes.run (Nat.zero_le _) RedisReader.holds_create
    hfits (by rw [List.nil_append, hall, hstream]; exact fun e he ↦ by cases he)
  refine ⟨_, r, hrun, ?_, ?_⟩
  · intro answer hanswer
    refine Incremental.ok_of_expected ?_ hanswer
    rw [List.nil_append, hall, hstream]
    exact fun e he ↦ by cases he
  · rw [Incremental.delivered_all calls (by rw [hstream]), hstream]

/-- An array with a number and nil, in two pieces, and a status behind it. -/
def sampleReplies : List ReplyObject :=
  [.array 2 [some (.integer (-7)), some .nil], .string .status (lit "OK")]

def samplePieces : List (ReceiverCall Byte) :=
  [.feed (lit "*2\r\n:-7\r"), .get, .feed (lit "\n$-1\r\n+OK\r\n")]

theorem run_encode_samplePieces :
    ∃ answers r,
      RedisReader.receiver.run .create (samplePieces ++ List.replicate sampleReplies.length .get) =
        some (answers, r) ∧
      (∀ answer ∈ answers, ∃ o, answer = .ok o) ∧
        Incremental.delivered answers = sampleReplies := by
  have hencode : List.Forall₂ (fun o t ↦ encode 8 o = some t) sampleReplies
      [lit "*2\r\n:-7\r\n$-1\r\n", lit "+OK\r\n"] :=
    .cons (by decide +kernel) (.cons (by decide +kernel) .nil)
  exact run_encode hencode (by decide +kernel) (by decide +kernel)

end Encode

end Redis

end Slience
