import Slience.Redis.Strings
import Slience.Redis.Values

/-!
# Pairs in an array reply

`zrangewithscores`, `zrevrangewithscores` (`redis_sort_set.cpp`) and `hgetall`
(`redis_hash.cpp`) into a `std::map` of strings.  Each element of the reply goes through an
`std::istringstream`, from which `>>` takes one word.  The map is the value at each key; the order
of its keys is left out.
-/

namespace Slience

namespace Redis

def redisReplyArray : ℕ := 2

/-- `isspace` in the C locale. -/
def isSpace (b : Byte) : Bool := b = 32 || (9 ≤ b && b ≤ 13)

/-- What `>>` takes from a stream with the bytes `t` into an empty string. -/
def extract (t : Text) : Text := (t.dropWhile isSpace).takeWhile fun b ↦ !isSpace b

/-- `std::map<std::string, std::string>` -/
abbrev StringMap := Text → Option Text

namespace StringMap

def empty : StringMap := fun _ ↦ none

/-- `values.insert(std::make_pair(k, v))`, which keeps what is there. -/
def insert (values : StringMap) (k v : Text) : StringMap :=
  if (values k).isSome then values else Function.update values k (some v)

end StringMap

/-- The loop over the elements, two at a time: what is thrown, and the map.  There is no result
where an element behind the last one is read. -/
def insertPairs (values : StringMap) : List Reply → Option (Option Thrown × StringMap)
  | [] => some (none, values)
  | [_] => none
  | r₁ :: r₂ :: element =>
      if r₁.len < 0 ∨ r₂.len < 0 then some (some .lengthError, values)
      else
        let member := extract (r₁.str.take r₁.len.toNat)
        let score := extract (r₂.str.take r₂.len.toNat)
        insertPairs (values.insert member score) element

/-- The `do` block of `zrangewithscores` and `hgetall`; `element` are the elements of the reply. -/
def readPairs (values : StringMap) (element : List Reply) (r : Reply) :
    Option (Option Thrown × StringMap) :=
  if r.type = redisReplyError then some (some (.redisException r.what), values)
  else if r.type ≠ redisReplyArray then some (some notDefined, values)
  else insertPairs values element

/-- The `do` block of `zrevrangewithscores`, with its test the other way. -/
def readRevPairs (values : StringMap) (element : List Reply) (r : Reply) :
    Option (Option Thrown × StringMap) :=
  if r.type = redisReplyError then some (some (.redisException r.what), values)
  else if r.type = redisReplyArray then some (some notDefined, values)
  else insertPairs values element

/-- What a call leaves that changes a variable of its caller. -/
structure Filled (β : Type) where
  thrown : Option Thrown
  values : β
  sent : List (ℕ × List Text)
  thread : RedisThread

/-- The variable stays as it was where no reply is read. -/
def Outcome.fill {β : Type} (values : β) (o : Outcome (Option (Option Thrown × β))) :
    Option (Filled β) :=
  match o.result with
  | .error thrown => some ⟨some thrown, values, o.sent, o.thread⟩
  | .ok r => r.map fun r ↦ ⟨r.1, r.2, o.sent, o.thread⟩

namespace RedisThread

variable (printf : Text → VaArg → Text) (s : RedisThread) (x : ℕ) (key : CString)

/-- A command whose reply, with its elements, changes a variable. -/
def fill {β : Type} (format : Text) (ap : List VaArg) (e : Exchange) (values : β)
    (read : Reply → Option (Option Thrown × β)) : Option (Filled β) :=
  (s.command printf x format ap e fun r ↦ .ok (read r)).bind (Outcome.fill values)

def zrangewithscores (begIdx endIdx : ℤ) (values : StringMap) (e : Exchange)
    (element : List Reply) : Option (Filled StringMap) :=
  s.fill printf x (lit "ZRANGE %s %d %d withscores") [key.arg, .int begIdx, .int endIdx] e values
    (readPairs values element)

def zrevrangewithscores (begIdx endIdx : ℤ) (values : StringMap) (e : Exchange)
    (element : List Reply) : Option (Filled StringMap) :=
  s.fill printf x (lit "ZREVRANGE  %s %d %d withscores") [key.arg, .int begIdx, .int endIdx] e
    values (readRevPairs values element)

def hgetall (values : StringMap) (e : Exchange) (element : List Reply) :
    Option (Filled StringMap) :=
  s.fill printf x (lit "HGETALL %s") [key.arg] e values (readPairs values element)

end RedisThread

/-- The elements of a reply with these pairs. -/
def pairElements (pairs : List (Text × Text)) : List Reply :=
  pairs.flatMap fun p ↦ [stringReply p.1, stringReply p.2]

/-- What a call makes of a map and of the elements of a reply: the pairs of an array are in a map
that was empty, and nothing else; for another reply, which has no elements, something is thrown and
the map is as before. -/
structure Decodes (call : StringMap → List Reply → Option (Filled StringMap)) (r : Reply)
    (pairs : List (Text × Text)) : Prop where
  array : r.type = redisReplyArray → ∃ o, call StringMap.empty (pairElements pairs) = some o ∧
    o.thrown = none ∧ o.values = fun k ↦ pairs.lookup k
  other : r.type ≠ redisReplyArray → ∀ values, ∃ o, call values [] = some o ∧ o.thrown ≠ none ∧
    o.values = values

/-- Bytes of one word, as many as an `int` counts. -/
def IsToken (t : Text) : Prop := (∀ b ∈ t, isSpace b = false) ∧ t.length < 2 ^ 31

instance (t : Text) : Decidable (IsToken t) := inferInstanceAs (Decidable (_ ∧ _))

/-- The strings of an array are words. -/
def Tokens (r : Reply) (pairs : List (Text × Text)) : Prop :=
  r.type = redisReplyArray → ∀ p ∈ pairs, IsToken p.1 ∧ IsToken p.2

/-! ## Words -/

/-- The word that is read from an element. -/
def readWord (t : Text) : Text := extract (t.take (stringReply t).len.toNat)

theorem notMem_extract {t : Text} {b : Byte} (hb : b ∈ extract t) : isSpace b = false := by
  have hnot := List.mem_takeWhile_imp hb
  rwa [Bool.not_eq_true'] at hnot

theorem length_extract_le (t : Text) : (extract t).length ≤ t.length :=
  ((List.takeWhile_prefix _).length_le).trans (List.dropWhile_suffix _).length_le

theorem isToken_readWord (t : Text) : IsToken (readWord t) := by
  refine ⟨fun b hb ↦ notMem_extract hb, ?_⟩
  have hlen : (stringReply t).len < 2 ^ 31 := Int.bmod_lt (by decide)
  have hle := length_extract_le (t.take (stringReply t).len.toNat)
  rw [List.length_take] at hle
  change (extract _).length < _
  omega

theorem readWord_of_isToken {t : Text} (ht : IsToken t) : readWord t = t := by
  have hdrop : t.dropWhile isSpace = t := by
    rw [List.dropWhile_eq_self_iff]
    intro hpos
    rw [ht.1 _ (List.getElem_mem hpos)]
    exact Bool.noConfusion
  have htake : (t.takeWhile fun b ↦ !isSpace b) = t := by
    rw [List.takeWhile_eq_self_iff]
    intro b hb
    rw [ht.1 b hb]
    rfl
  rw [readWord, len_stringReply ht.2, Int.toNat_natCast, List.take_length, extract, hdrop, htake]

/-- The pair that is inserted for two elements. -/
def readPair (p : Text × Text) : Text × Text := (readWord p.1, readWord p.2)

/-- Neither length is negative. -/
def Counted (p : Text × Text) : Prop := 0 ≤ (stringReply p.1).len ∧ 0 ≤ (stringReply p.2).len

theorem counted_of_isToken {p : Text × Text} (h : IsToken p.1 ∧ IsToken p.2) : Counted p := by
  rw [Counted, len_stringReply h.1.2, len_stringReply h.2.2]
  exact ⟨Int.natCast_nonneg _, Int.natCast_nonneg _⟩

theorem readPair_of_isToken {p : Text × Text} (h : IsToken p.1 ∧ IsToken p.2) :
    readPair p = p := by
  rw [readPair, readWord_of_isToken h.1, readWord_of_isToken h.2]

/-! ## The map -/

variable {values : StringMap} {pairs : List (Text × Text)}

theorem StringMap.insert_apply (values : StringMap) (k v key : Text) :
    values.insert k v key = (values key).or (List.lookup key [(k, v)]) := by
  unfold StringMap.insert
  rcases eq_or_ne key k with rfl | hne
  · rw [List.lookup_cons_self]
    split
    · rename_i hsome
      obtain ⟨u, hu⟩ := Option.isSome_iff_exists.mp hsome
      rw [hu, Option.some_or]
    · rename_i hnone
      rw [Function.update_self, Option.not_isSome_iff_eq_none.mp hnone, Option.none_or]
  · have hother : List.lookup key [(k, v)] = none := by
      rw [List.lookup_cons, beq_eq_false_iff_ne.mpr hne]
      rfl
    rw [hother, Option.or_none]
    split
    · rfl
    · rw [Function.update_of_ne hne]

theorem insertPairs_cons (p : Text × Text) (hp : Counted p) :
    insertPairs values (pairElements (p :: pairs)) =
      insertPairs (values.insert (readWord p.1) (readWord p.2)) (pairElements pairs) := by
  have hnot : ¬ ((stringReply p.1).len < 0 ∨ (stringReply p.2).len < 0) := by
    rw [not_or, not_lt, not_lt]
    exact hp
  change insertPairs values (stringReply p.1 :: stringReply p.2 :: pairElements pairs) = _
  rw [insertPairs, if_neg hnot]
  rfl

/-- Of the values at one key the first is inserted. -/
theorem insertPairs_eq (hpairs : ∀ p ∈ pairs, Counted p) :
    insertPairs values (pairElements pairs) =
      some (none, fun k ↦ (values k).or ((pairs.map readPair).lookup k)) := by
  induction pairs generalizing values with
  | nil =>
      have hsame : (fun k ↦ (values k).or ((List.map readPair []).lookup k)) = values := by
        funext k
        exact Option.or_none
      rw [hsame]
      rfl
  | cons p pairs ih =>
      rw [insertPairs_cons p (hpairs p List.mem_cons_self),
        ih fun q hq ↦ hpairs q (List.mem_cons_of_mem p hq)]
      congr 2
      funext k
      rw [StringMap.insert_apply, Option.or_assoc, ← List.lookup_append]
      rfl

theorem insertPairs_thrown (values : StringMap) (hpairs : ¬ ∀ p ∈ pairs, Counted p) :
    ∃ values', insertPairs values (pairElements pairs) = some (some .lengthError, values') := by
  induction pairs generalizing values with
  | nil => exact absurd (fun p hp ↦ absurd hp List.not_mem_nil) hpairs
  | cons p pairs ih =>
      by_cases hp : Counted p
      · rw [insertPairs_cons p hp]
        refine ih _ fun hrest ↦ hpairs ?_
        exact List.forall_mem_cons.mpr ⟨hp, hrest⟩
      · have hneg : (stringReply p.1).len < 0 ∨ (stringReply p.2).len < 0 := by
          rw [Counted, not_and_or, not_le, not_le] at hp
          exact hp
        refine ⟨values, ?_⟩
        change insertPairs values (stringReply p.1 :: stringReply p.2 :: pairElements pairs) = _
        rw [insertPairs, if_pos hneg]

theorem lookup_of_mem (hkeys : (pairs.map Prod.fst).Nodup) {p : Text × Text} (hp : p ∈ pairs) :
    pairs.lookup p.1 = some p.2 := by
  induction pairs with
  | nil => cases hp
  | cons q pairs ih =>
      rw [List.map_cons, List.nodup_cons] at hkeys
      rcases List.mem_cons.mp hp with rfl | hp
      · exact List.lookup_cons_self
      · have hne : p.1 ≠ q.1 := by
          intro heq
          exact hkeys.1 (heq ▸ List.mem_map_of_mem hp)
        rw [List.lookup_cons, beq_eq_false_iff_ne.mpr hne]
        exact ih hkeys.2 hp

theorem mem_of_lookup {k v : Text} (h : pairs.lookup k = some v) : (k, v) ∈ pairs := by
  obtain ⟨init, rest, rfl, -⟩ := List.lookup_eq_some_iff.mp h
  exact List.mem_append_right _ List.mem_cons_self

/-- The inserted pairs are the pairs of the reply exactly when all strings are words. -/
theorem lookup_readPair_iff (hkeys : (pairs.map Prod.fst).Nodup) :
    (fun k ↦ (pairs.map readPair).lookup k) = (fun k ↦ pairs.lookup k) ↔
      ∀ p ∈ pairs, IsToken p.1 ∧ IsToken p.2 := by
  constructor
  · intro h p hp
    have hat := congrFun h p.1
    rw [lookup_of_mem hkeys hp] at hat
    obtain ⟨q, -, hq⟩ := List.mem_map.mp (mem_of_lookup hat)
    obtain ⟨h₁, h₂⟩ := Prod.mk.inj hq
    exact ⟨h₁ ▸ isToken_readWord q.1, h₂ ▸ isToken_readWord q.2⟩
  · intro h
    rw [List.map_congr_left fun p hp ↦ readPair_of_isToken (h p hp), List.map_id']

/-- An array is read as its pairs exactly when all strings are words. -/
theorem insertPairs_iff (hkeys : (pairs.map Prod.fst).Nodup) :
    insertPairs StringMap.empty (pairElements pairs) = some (none, fun k ↦ pairs.lookup k) ↔
      ∀ p ∈ pairs, IsToken p.1 ∧ IsToken p.2 := by
  by_cases hcounted : ∀ p ∈ pairs, Counted p
  · rw [insertPairs_eq hcounted, ← lookup_readPair_iff hkeys, Option.some.injEq, Prod.mk.injEq,
      and_iff_right rfl]
    rfl
  · refine iff_of_false ?_ fun h ↦ hcounted fun p hp ↦ counted_of_isToken (h p hp)
    obtain ⟨values', hthrown⟩ := insertPairs_thrown StringMap.empty hcounted
    rw [hthrown]
    rintro ⟨⟩

/-! ## The calls -/

variable {printf : Text → VaArg → Text} {s : RedisThread} {x context : ℕ} {c : RedisContext}
  {key : CString} {e : Exchange} {r : Reply} {format : Text} {ap rest : List VaArg}
  {argv : List Text} {begIdx endIdx : ℤ}

theorem RedisThread.fill_answered {β : Type} (h : s.connected x = some c)
    (hcontext : c.context = some context)
    (hformat : redisvFormatCommand printf format ap = some (some argv, rest))
    (hreply : ∀ argv, e.reply argv = some r) (values : β)
    (read : Reply → Option (Option Thrown × β)) :
    s.fill printf x format ap e values read =
      (read r).map fun out ↦ ⟨out.1, out.2, [(context, argv)], s⟩ := by
  rw [fill, s.command_answered h hcontext hformat (hreply argv), Option.bind_some]
  rfl

/-- A call that returns has read its values from a reply. -/
theorem RedisThread.fill_returned {β : Type} {values : β}
    {read : Reply → Option (Option Thrown × β)} {o : Filled β}
    (ho : s.fill printf x format ap e values read = some o) (hok : o.thrown = none) :
    ∃ r, read r = some (none, o.values) := by
  obtain ⟨answer, hanswer, ho⟩ := Option.bind_eq_some_iff.mp ho
  unfold Outcome.fill at ho
  split at ho
  · cases ho
    cases hok
  · rename_i out hresult
    obtain ⟨r, hread⟩ := RedisThread.command_ok hanswer hresult
    obtain ⟨⟨thrown, values'⟩, rfl, rfl⟩ := Option.map_eq_some_iff.mp ho
    cases hok
    exact ⟨r, Except.ok.inj hread⟩

theorem wordText_bytes (t : Text) (ap : List VaArg) :
    wordText printf (t.map .byte) ap = some (t, ap) := by
  induction t with
  | nil => rfl
  | cons b t ih =>
      rw [List.map_cons, wordText_cons]
      change ((wordText printf (t.map .byte) ap).bind fun r' ↦ some ([b] ++ r'.1, r'.2)) = _
      rw [ih]
      rfl

/-- A name, a key, two numbers and `withscores`. -/
theorem format_range (name : Text) (begIdx endIdx : ℤ)
    (hwords : words format = [name.map .byte, [.conv .string],
      [.conv (.printf .int (some (lit "%d")))], [.conv (.printf .int (some (lit "%d")))],
      (lit "withscores").map .byte])
    (hvalid : (formatWords (format.takeWhile (· ≠ 0)) 0).isSome ∧ isValid format = true) :
    redisvFormatCommand printf format [key.arg, .int begIdx, .int endIdx] =
      some (some [name, key.bytes, printf (lit "%d") (.int begIdx),
        printf (lit "%d") (.int endIdx), lit "withscores"], []) := by
  have hkey : wordText printf [.conv .string] [key.arg, .int begIdx, .int endIdx] =
      some (key.bytes, [.int begIdx, .int endIdx]) := by
    have htake : Item.take printf (.conv .string) [key.arg, .int begIdx, .int endIdx] =
        some ((key.bytes ++ [0]).takeWhile (· ≠ 0), [.int begIdx, .int endIdx]) :=
      if_pos (List.mem_append_right _ List.mem_cons_self)
    rw [wordText_cons, htake, key_written, Option.bind_some, wordText_nil, Option.bind_some,
      List.append_nil]
  have hnumber (v : ℤ) (ap : List VaArg) :
      wordText printf [.conv (.printf .int (some (lit "%d")))] (.int v :: ap) =
        some (printf (lit "%d") (.int v), ap) := by
    have htake : Item.take printf (.conv (.printf .int (some (lit "%d")))) (.int v :: ap) =
        some (printf (lit "%d") (.int v), ap) := rfl
    rw [wordText_cons, htake, Option.bind_some, wordText_nil, Option.bind_some, List.append_nil]
  have htexts : wordTexts printf (words format) [key.arg, .int begIdx, .int endIdx] =
      some ([name, key.bytes, printf (lit "%d") (.int begIdx), printf (lit "%d") (.int endIdx),
        lit "withscores"], []) := by
    rw [hwords, wordTexts_cons, wordText_bytes, Option.bind_some, wordTexts_cons, hkey,
      Option.bind_some, wordTexts_cons, hnumber, Option.bind_some, wordTexts_cons, hnumber,
      Option.bind_some, wordTexts_cons, wordText_bytes]
    rfl
  exact format_eq_some_iff.mpr ⟨hvalid.1, _, htexts, (if_pos hvalid.2).symm⟩

/-- A call that gets the reply `r` makes of it what its `do` block does. -/
def Answered (s : RedisThread) (call : StringMap → List Reply → Option (Filled StringMap))
    (read : StringMap → List Reply → Reply → Option (Option Thrown × StringMap)) (r : Reply) :
    Prop :=
  ∀ values element, ∃ sent,
    call values element = (read values element r).map fun out ↦ ⟨out.1, out.2, sent, s⟩

theorem zrangewithscores_answered (h : s.connected x = some c)
    (hcontext : c.context = some context) (hreply : ∀ argv, e.reply argv = some r) :
    Answered s (fun values ↦ s.zrangewithscores printf x key begIdx endIdx values e)
      readPairs r := by
  intro values element
  exact ⟨_, RedisThread.fill_answered h hcontext
    (format_range (lit "ZRANGE") begIdx endIdx (by decide +kernel) (by decide +kernel)) hreply
    values _⟩

theorem zrevrangewithscores_answered (h : s.connected x = some c)
    (hcontext : c.context = some context) (hreply : ∀ argv, e.reply argv = some r) :
    Answered s (fun values ↦ s.zrevrangewithscores printf x key begIdx endIdx values e)
      readRevPairs r := by
  intro values element
  exact ⟨_, RedisThread.fill_answered h hcontext
    (format_range (lit "ZREVRANGE") begIdx endIdx (by decide +kernel) (by decide +kernel)) hreply
    values _⟩

theorem hgetall_answered (h : s.connected x = some c) (hcontext : c.context = some context)
    (hreply : ∀ argv, e.reply argv = some r) :
    Answered s (fun values ↦ s.hgetall printf x key values e) readPairs r := by
  intro values element
  have hname : IsWord (lit "HGETALL") := by decide
  exact ⟨_, RedisThread.fill_answered h hcontext
    (format_strings hname (by decide) [key.bytes ++ [0]] (by simp)) hreply values _⟩

/-- What the calls make of a reply is what their `do` blocks make of it. -/
theorem decodes_iff_of_answered {call : StringMap → List Reply → Option (Filled StringMap)}
    {read : StringMap → List Reply → Reply → Option (Option Thrown × StringMap)}
    (hcall : Answered s call read r) :
    Decodes call r pairs ↔
      (r.type = redisReplyArray →
        read StringMap.empty (pairElements pairs) r = some (none, fun k ↦ pairs.lookup k)) ∧
      (r.type ≠ redisReplyArray →
        ∀ values, ∃ thrown, read values [] r = some (some thrown, values)) := by
  constructor
  · rintro ⟨harray, hother⟩
    constructor
    · intro htype
      obtain ⟨o, ho, hthrown, hvalues⟩ := harray htype
      obtain ⟨sent, hsent⟩ := hcall StringMap.empty (pairElements pairs)
      obtain ⟨⟨thrown, values⟩, hread, rfl⟩ := Option.map_eq_some_iff.mp (hsent ▸ ho)
      cases hthrown
      cases hvalues
      exact hread
    · intro htype values
      obtain ⟨o, ho, hthrown, hvalues⟩ := hother htype values
      obtain ⟨sent, hsent⟩ := hcall values []
      obtain ⟨⟨thrown, values'⟩, hread, rfl⟩ := Option.map_eq_some_iff.mp (hsent ▸ ho)
      obtain ⟨what, rfl⟩ := Option.ne_none_iff_exists'.mp hthrown
      cases hvalues
      exact ⟨what, hread⟩
  · rintro ⟨harray, hother⟩
    constructor
    · intro htype
      obtain ⟨sent, hsent⟩ := hcall StringMap.empty (pairElements pairs)
      rw [hsent, harray htype]
      exact ⟨_, rfl, rfl, rfl⟩
    · intro htype values
      obtain ⟨sent, hsent⟩ := hcall values []
      obtain ⟨what, hwhat⟩ := hother htype values
      rw [hsent, hwhat]
      exact ⟨_, rfl, Option.some_ne_none what, rfl⟩

theorem readPairs_other (htype : r.type ≠ redisReplyArray) (values : StringMap)
    (element : List Reply) :
    ∃ thrown, readPairs values element r = some (some thrown, values) := by
  unfold readPairs
  split
  · exact ⟨_, rfl⟩
  · exact ⟨_, rfl⟩

theorem readPairs_array (htype : r.type = redisReplyArray) (values : StringMap)
    (element : List Reply) : readPairs values element r = insertPairs values element := by
  rw [readPairs, htype, if_neg (by decide), if_neg (not_not_intro rfl)]

theorem readRevPairs_array (htype : r.type = redisReplyArray) (values : StringMap)
    (element : List Reply) : readRevPairs values element r = some (some notDefined, values) := by
  rw [readRevPairs, htype, if_neg (by decide), if_pos rfl]

theorem readRevPairs_error (htype : r.type = redisReplyError) (values : StringMap)
    (element : List Reply) :
    readRevPairs values element r = some (some (.redisException r.what), values) :=
  if_pos htype

theorem readRevPairs_other (hne : r.type ≠ redisReplyError) (htype : r.type ≠ redisReplyArray)
    (values : StringMap) (element : List Reply) :
    readRevPairs values element r = insertPairs values element := by
  rw [readRevPairs, if_neg hne, if_neg htype]

/-- The test that `zrangewithscores` and `hgetall` share. -/
theorem readPairs_decodes_iff {call : StringMap → List Reply → Option (Filled StringMap)}
    (hkeys : (pairs.map Prod.fst).Nodup)
    (hcall : Answered s call readPairs r) :
    Decodes call r pairs ↔ Tokens r pairs := by
  rw [decodes_iff_of_answered hcall,
    and_iff_left fun htype values ↦ readPairs_other htype values []]
  refine forall_congr' fun htype ↦ ?_
  rw [readPairs_array htype]
  exact insertPairs_iff hkeys

/-- The other test, which only an error passes as it should. -/
theorem readRevPairs_decodes_iff {call : StringMap → List Reply → Option (Filled StringMap)}
    (hcall : Answered s call readRevPairs r) :
    Decodes call r pairs ↔ r.type = redisReplyError := by
  rw [decodes_iff_of_answered hcall]
  constructor
  · rintro ⟨harray, hother⟩
    by_contra hne
    by_cases htype : r.type = redisReplyArray
    · have hread := harray htype
      rw [readRevPairs_array htype] at hread
      cases hread
    · obtain ⟨what, hread⟩ := hother htype StringMap.empty
      rw [readRevPairs_other hne htype] at hread
      cases hread
  · intro htype
    have hne : r.type ≠ redisReplyArray := by
      rw [htype]
      decide
    exact ⟨fun harray ↦ absurd harray hne, fun _ values ↦ ⟨_, readRevPairs_error htype values []⟩⟩

/-- `zrangewithscores` and `hgetall` read an array right exactly when its strings are words, and
every other reply; `zrevrangewithscores` reads only an error right. -/
theorem decodes_iff (h : s.connected x = some c) (hcontext : c.context = some context)
    (hreply : ∀ argv, e.reply argv = some r) (begIdx endIdx : ℤ)
    (hkeys : (pairs.map Prod.fst).Nodup) :
    (Decodes (fun values ↦ s.zrangewithscores printf x key begIdx endIdx values e) r pairs ↔
        Tokens r pairs) ∧
      (Decodes (fun values ↦ s.zrevrangewithscores printf x key begIdx endIdx values e) r pairs ↔
        r.type = redisReplyError) ∧
      (Decodes (fun values ↦ s.hgetall printf x key values e) r pairs ↔ Tokens r pairs) :=
  ⟨readPairs_decodes_iff hkeys (zrangewithscores_answered h hcontext hreply),
    readRevPairs_decodes_iff (zrevrangewithscores_answered h hcontext hreply),
    readPairs_decodes_iff hkeys (hgetall_answered h hcontext hreply)⟩

/-- A server that answers every command with an array. -/
def sampleArray : Exchange where
  reply := fun _ ↦ some ⟨redisReplyArray, 0, []⟩
  net := ⟨none, .error ""⟩
  again := fun _ ↦ .error []

theorem decodes_iff_two :
    Decodes (fun values ↦ sampleThread.zrangewithscores samplePrintf 0 sampleKey 0 (-1) values
        sampleArray) ⟨redisReplyArray, 0, []⟩ [(lit "a", lit "1"), (lit "b", lit "2.5")] ∧
      Decodes (fun values ↦ sampleThread.hgetall samplePrintf 0 sampleKey values sampleArray)
        ⟨redisReplyArray, 0, []⟩ [(lit "a", lit "1"), (lit "b", lit "2.5")] := by
  have hreply : ∀ argv, sampleArray.reply argv = some ⟨redisReplyArray, 0, []⟩ := fun _ ↦ rfl
  have hkeys : ([(lit "a", lit "1"), (lit "b", lit "2.5")].map Prod.fst).Nodup := by decide
  have htokens : Tokens ⟨redisReplyArray, 0, []⟩ [(lit "a", lit "1"), (lit "b", lit "2.5")] := by
    intro _
    decide +kernel
  exact ⟨(decodes_iff connected_sampleThread rfl hreply 0 (-1) hkeys).1.mpr htokens,
    (decodes_iff connected_sampleThread rfl hreply 0 (-1) hkeys).2.2.mpr htokens⟩

/-- `zrevrangewithscores` throws on an array and does not on an integer; the other two take the
first word of a member. -/
theorem zrevrangewithscores_throws :
    ¬ Decodes (fun values ↦ sampleThread.zrevrangewithscores samplePrintf 0 sampleKey 0 (-1) values
        sampleArray) ⟨redisReplyArray, 0, []⟩ [(lit "a", lit "1")] ∧
      ¬ Decodes (fun values ↦ sampleThread.zrevrangewithscores samplePrintf 0 sampleKey 0 (-1)
        values ValuesCall.sampleExchange) ⟨redisReplyInteger, 1, []⟩ [] ∧
      ¬ Decodes (fun values ↦ sampleThread.zrangewithscores samplePrintf 0 sampleKey 0 (-1) values
        sampleArray) ⟨redisReplyArray, 0, []⟩ [(lit "a b", lit "1")] ∧
      ¬ Decodes (fun values ↦ sampleThread.hgetall samplePrintf 0 sampleKey values sampleArray)
        ⟨redisReplyArray, 0, []⟩ [(lit "a b", lit "1")] := by
  refine ⟨fun h ↦ ?_, fun h ↦ ?_, fun h ↦ ?_, fun h ↦ ?_⟩
  · obtain ⟨o, ho, hthrown, -⟩ := h.array rfl
    have hthrows : (sampleThread.zrevrangewithscores samplePrintf 0 sampleKey 0 (-1)
        StringMap.empty sampleArray (pairElements [(lit "a", lit "1")])).map (·.thrown) =
        some (some notDefined) := by
      decide +kernel
    rw [ho, Option.map_some, hthrown] at hthrows
    cases hthrows
  · obtain ⟨o, ho, hthrown, -⟩ := h.other (by decide) StringMap.empty
    have hreturns : (sampleThread.zrevrangewithscores samplePrintf 0 sampleKey 0 (-1)
        StringMap.empty ValuesCall.sampleExchange []).map (·.thrown) = some none := by
      decide +kernel
    rw [ho] at hreturns
    exact hthrown (Option.some.inj hreturns)
  · obtain ⟨o, ho, -, hvalues⟩ := h.array rfl
    have hcut : (sampleThread.zrangewithscores samplePrintf 0 sampleKey 0 (-1) StringMap.empty
        sampleArray (pairElements [(lit "a b", lit "1")])).map (·.values (lit "a b")) =
        some none := by
      decide +kernel
    rw [ho, Option.map_some, hvalues] at hcut
    revert hcut
    decide
  · obtain ⟨o, ho, -, hvalues⟩ := h.array rfl
    have hcut : (sampleThread.hgetall samplePrintf 0 sampleKey StringMap.empty sampleArray
        (pairElements [(lit "a b", lit "1")])).map (·.values (lit "a b")) = some none := by
      decide +kernel
    rw [ho, Option.map_some, hvalues] at hcut
    revert hcut
    decide

end Redis

end Slience
