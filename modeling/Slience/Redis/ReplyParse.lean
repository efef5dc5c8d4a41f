import Slience.Lib.Delimiter
import Slience.Lib.Incremental
import Slience.Redis.Reader

/-!
# Replies as a grammar

What the reader should make of the bytes of a server, told without a stack: `parseItem` reads one
item, and the elements of an array inside of it.  A header that announces `2 ^ 31` elements or
more, and a number that leaves the range of `long long`, are `beyond` what is described.
-/

namespace Slience

namespace Redis

/-- Why there is no reply. -/
inductive Fault where
  | error (e : RedisError)
  | beyond
  deriving DecidableEq

abbrev ReplyFront := Front Byte Fault ReplyObject

/-- The rest of an item that is one line. -/
def parseLine (type : ItemType) (s : Text) : ReplyFront :=
  match cutPair 13 10 s with
  | none => .more
  | some (line, rest) =>
      if type = .integer then
        match readLongLong s with
        | none => .fail .beyond
        | some v => .done (.integer v) rest
      else .done (.string type line) rest

def parseBulk (s : Text) : ReplyFront :=
  match cutPair 13 10 s with
  | none => .more
  | some (_, rest) =>
      match readLongLong s with
      | none => .fail .beyond
      | some len =>
          if len < 0 then .done .nil rest
          else if 2 ^ 63 ≤ len + 2 then .fail .beyond
          else if len.toNat + 2 ≤ rest.length then
            .done (.string .string (rest.take len.toNat)) (rest.drop (len.toNat + 2))
          else .more

/-- The `n` elements of an array, each of which is read by `item`. -/
def parseElements (item : Text → ReplyFront) (n : ℕ) (s : Text) : ReplyFront :=
  (Front.items item n s).bind fun element s ↦ .done (.array n (element.map some)) s

def parseArray (item : Text → ReplyFront) (s : Text) : ReplyFront :=
  match cutPair 13 10 s with
  | none => .more
  | some (_, rest) =>
      match readLongLong s with
      | none => .fail .beyond
      | some n =>
          if n = -1 then .done .nil rest
          else if n ≤ 0 then .done (createArray n) rest
          else if 2 ^ 31 ≤ n then .fail .beyond
          else parseElements item n.toNat rest

/-- An item behind its type; `item` reads the elements of an array, where one is allowed. -/
def parseTyped (item : Option (Text → ReplyFront)) : ItemType → Text → ReplyFront
  | .string, s => parseBulk s
  | .array, s =>
      match item with
      | none => .fail (.error ⟨redisErrProtocol, nestingError⟩)
      | some item => parseArray item s
  | type, s => parseLine type s

def parseBehind (item : Option (Text → ReplyFront)) (byte : Byte) (s : Text) : ReplyFront :=
  match RedisReader.itemType byte with
  | none => .fail (.error ⟨redisErrProtocol, protocolByteError byte⟩)
  | some type => parseTyped item type s

def parseItemWith (item : Option (Text → ReplyFront)) : Text → ReplyFront
  | [] => .more
  | byte :: s => parseBehind item byte s

/-- An item that may hold arrays in arrays, so many deep. -/
def parseItem : ℕ → Text → ReplyFront
  | 0 => parseItemWith none
  | depth + 1 => parseItemWith (some (parseItem depth))

/-- The reader of the elements of an array. -/
def inner : ℕ → Option (Text → ReplyFront)
  | 0 => none
  | depth + 1 => some (parseItem depth)

theorem parseItem_eq (depth : ℕ) : parseItem depth = parseItemWith (inner depth) := by
  cases depth <;> rfl

section Number

theorem longLongLoop_append {s : Text} (h : 13 ∈ s) (v : ℕ) (t : Text) :
    longLongLoop v (s ++ t) = longLongLoop v s := by
  induction s generalizing v with
  | nil => cases h
  | cons c s ih =>
      rw [List.cons_append, longLongLoop, longLongLoop]
      by_cases hc : c = 13
      · rw [if_pos hc, if_pos hc]
      · have hs : 13 ∈ s := by
          rcases List.mem_cons.mp h with h | h
          · exact absurd h.symm hc
          · exact h
        simp only [if_neg hc, ih hs]

theorem readLongLong_cons {c : Byte} (hminus : c ≠ 45) (hplus : c ≠ 43) (s : Text) :
    readLongLong (c :: s) =
      (longLongLoop 0 (c :: s)).map fun v ↦ v.elim (-1) fun v ↦ (v : ℤ) := by
  simp [readLongLong, hminus, hplus]

theorem readLongLong_append {s : Text} (h : 13 ∈ s) (t : Text) :
    readLongLong (s ++ t) = readLongLong s := by
  match s, h with
  | 45 :: s, h =>
      have hs : 13 ∈ s := by simpa using h
      simp only [List.cons_append, readLongLong, longLongLoop_append hs]
  | 43 :: s, h =>
      have hs : 13 ∈ s := by simpa using h
      simp only [List.cons_append, readLongLong, longLongLoop_append hs]
  | c :: s, h =>
      by_cases hminus : c = 45
      · subst hminus
        have hs : 13 ∈ s := by simpa using h
        simp only [List.cons_append, readLongLong, longLongLoop_append hs]
      · by_cases hplus : c = 43
        · subst hplus
          have hs : 13 ∈ s := by simpa using h
          simp only [List.cons_append, readLongLong, longLongLoop_append hs]
        · have happ := longLongLoop_append h 0 t
          rw [List.cons_append] at happ ⊢
          rw [readLongLong_cons hminus hplus, readLongLong_cons hminus hplus, happ]

theorem mem_of_cutPair {x y : Byte} {s line rest : Text} (h : cutPair x y s = some (line, rest)) :
    x ∈ s := by
  rw [cutPair_split h]
  simp

end Number

section Incremental

theorem stable_parseLine (type : ItemType) : Front.Stable (parseLine type) := by
  intro s t hmore
  unfold parseLine at hmore ⊢
  cases hs : cutPair 13 10 s with
  | none => simp [hs] at hmore
  | some p =>
      obtain ⟨line, rest⟩ := p
      rw [cutPair_append_of_some hs, readLongLong_append (mem_of_cutPair hs)]
      simp only
      split
      · split <;> rfl
      · rfl

theorem stable_parseBulk : Front.Stable parseBulk := by
  intro s t hmore
  unfold parseBulk at hmore ⊢
  cases hs : cutPair 13 10 s with
  | none => simp [hs] at hmore
  | some p =>
      obtain ⟨line, rest⟩ := p
      rw [cutPair_append_of_some hs, readLongLong_append (mem_of_cutPair hs)]
      rw [hs] at hmore
      simp only at hmore ⊢
      cases hlen : readLongLong s with
      | none => rfl
      | some len =>
          rw [hlen] at hmore
          simp only at hmore ⊢
          by_cases hneg : len < 0
          · rw [if_pos hneg, if_pos hneg]
            rfl
          · by_cases hbig : 2 ^ 63 ≤ len + 2
            · rw [if_neg hneg, if_neg hneg, if_pos hbig, if_pos hbig]
              rfl
            · rw [if_neg hneg, if_neg hbig] at hmore ⊢
              rw [if_neg hneg, if_neg hbig]
              by_cases hrest : len.toNat + 2 ≤ rest.length
              · have hlong : len.toNat + 2 ≤ (rest ++ t).length := by
                  rw [List.length_append]
                  omega
                rw [if_pos hrest, if_pos hlong, List.take_append_of_le_length (by omega),
                  List.drop_append_of_le_length hrest]
                rfl
              · rw [if_neg hrest] at hmore
                exact absurd rfl hmore

theorem stable_parseElements {item : Text → ReplyFront} (h : Front.Stable item) (n : ℕ) :
    Front.Stable (parseElements item n) :=
  (h.items n).bind fun _ ↦ Front.stable_done _

theorem stable_parseArray {item : Text → ReplyFront} (h : Front.Stable item) :
    Front.Stable (parseArray item) := by
  intro s t hmore
  unfold parseArray at hmore ⊢
  cases hs : cutPair 13 10 s with
  | none => simp [hs] at hmore
  | some p =>
      obtain ⟨line, rest⟩ := p
      rw [cutPair_append_of_some hs, readLongLong_append (mem_of_cutPair hs)]
      rw [hs] at hmore
      simp only at hmore ⊢
      cases hn : readLongLong s with
      | none => rfl
      | some n =>
          rw [hn] at hmore
          simp only at hmore ⊢
          split
          · rfl
          · split
            · rfl
            · split
              · rfl
              · rename_i hnil hempty hbig
                rw [if_neg hnil, if_neg hempty, if_neg hbig] at hmore
                exact stable_parseElements h n.toNat rest t hmore

theorem stable_parseTyped {item : Option (Text → ReplyFront)}
    (h : ∀ p, item = some p → Front.Stable p) (type : ItemType) :
    Front.Stable (parseTyped item type) := by
  cases type with
  | string => exact stable_parseBulk
  | array =>
      cases item with
      | none => exact fun _ _ _ ↦ rfl
      | some p => exact stable_parseArray (h p rfl)
  | integer => exact stable_parseLine .integer
  | status => exact stable_parseLine .status
  | error => exact stable_parseLine .error

theorem stable_parseItemWith {item : Option (Text → ReplyFront)}
    (h : ∀ p, item = some p → Front.Stable p) : Front.Stable (parseItemWith item) := by
  intro s t hmore
  cases s with
  | nil => exact absurd rfl hmore
  | cons byte s =>
      rw [List.cons_append]
      rw [parseItemWith, parseBehind] at hmore ⊢
      cases htype : RedisReader.itemType byte with
      | none =>
          rw [parseItemWith, parseBehind, htype]
          rfl
      | some type =>
          rw [htype] at hmore
          rw [parseItemWith, parseBehind, htype]
          exact stable_parseTyped h type s t hmore

theorem stable_parseItem (depth : ℕ) : Front.Stable (parseItem depth) := by
  induction depth with
  | zero => exact stable_parseItemWith (by simp)
  | succ depth ih =>
      refine stable_parseItemWith ?_
      rintro p hp
      cases hp
      exact ih

theorem parseLine_lt {type : ItemType} {s rest : Text} {o : ReplyObject}
    (h : parseLine type s = .done o rest) : rest.length < s.length := by
  unfold parseLine at h
  split at h
  · cases h
  · rename_i line rest' hs
    have hlt := length_lt_of_cutPair hs
    split at h
    · split at h
      · cases h
      · cases h
        exact hlt
    · cases h
      exact hlt

theorem parseBulk_lt {s rest : Text} {o : ReplyObject} (h : parseBulk s = .done o rest) :
    rest.length < s.length := by
  unfold parseBulk at h
  split at h
  · cases h
  · rename_i line rest' hs
    have hlt := length_lt_of_cutPair hs
    split at h
    · cases h
    · split at h
      · cases h
        exact hlt
      · split at h
        · cases h
        · split at h
          · cases h
            rw [List.length_drop]
            omega
          · cases h

theorem parseArray_lt {item : Text → ReplyFront} (hitem : Front.Consumes item) {s rest : Text}
    {o : ReplyObject} (h : parseArray item s = .done o rest) : rest.length < s.length := by
  unfold parseArray at h
  split at h
  · cases h
  · rename_i line rest' hs
    have hlt := length_lt_of_cutPair hs
    split at h
    · cases h
    · split at h
      · cases h
        exact hlt
      · split at h
        · cases h
          exact hlt
        · split at h
          · cases h
          · obtain ⟨element, s', hitems, h⟩ := Front.bind_eq_done h
            cases h
            exact (Front.items_le hitem hitems).trans_lt hlt

theorem parseTyped_lt {item : Option (Text → ReplyFront)}
    (hitem : ∀ p, item = some p → Front.Consumes p) {type : ItemType} {s rest : Text}
    {o : ReplyObject} (h : parseTyped item type s = .done o rest) : rest.length < s.length := by
  cases type with
  | string => exact parseBulk_lt h
  | array =>
      cases item with
      | none => cases h
      | some p => exact parseArray_lt (hitem p rfl) h
  | integer => exact parseLine_lt h
  | status => exact parseLine_lt h
  | error => exact parseLine_lt h

theorem consumes_parseItemWith {item : Option (Text → ReplyFront)}
    (hitem : ∀ p, item = some p → Front.Consumes p) : Front.Consumes (parseItemWith item) := by
  intro s o rest h
  cases s with
  | nil => cases h
  | cons byte s =>
      rw [parseItemWith, parseBehind] at h
      split at h
      · cases h
      · have hlt := parseTyped_lt hitem h
        rw [List.length_cons]
        omega

theorem consumes_parseItem (depth : ℕ) : Front.Consumes (parseItem depth) := by
  induction depth with
  | zero => exact consumes_parseItemWith (by simp)
  | succ depth ih =>
      refine consumes_parseItemWith ?_
      rintro p hp
      cases hp
      exact ih

end Incremental

/-- The grammar of replies, with eight levels of arrays. -/
def replies : Incremental Byte Fault ReplyObject where
  parse := parseItem 8
  stable := stable_parseItem 8
  consumes := consumes_parseItem 8

end Redis

end Slience
