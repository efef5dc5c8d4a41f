import Slience.Redis.PairReplies

/-!
# Fields of a hash

`hmget` (`redis_hash.cpp`) into a vector of `TriangleValule` entries with a `std::string` value
(`redis_wrapper_config.hpp`).  The entries are those of the caller, and `SetValue` appends to them.
-/

namespace Slience

namespace Redis

/-- `TriangleValule<T, std::string>`, also for a `std::string` key. -/
structure TriangleValule (T : Type) where
  valid : Bool
  key : T
  value : Text
  deriving DecidableEq

def arraySizeNotMatch : Thrown := .redisException (lit "array size doesn't match")

namespace TriangleValule

variable {T : Type}

def setValue (t : TriangleValule T) (value : Text) (len : UInt32) : TriangleValule T :=
  { t with value := t.value ++ value.take len.toNat }

/-- The body of the loop over the elements. -/
def setElement (t : TriangleValule T) (rep : Reply) : TriangleValule T :=
  if rep.type = redisReplyNil then { t with valid := false }
  else { t with valid := true }.setValue rep.str (UInt32.ofInt rep.len)

end TriangleValule

variable {T : Type}

/-- The `do` block of `hmget`; `element` are the elements of the reply. -/
def readFields (values : List (TriangleValule T)) (element : List Reply) (r : Reply) :
    Option (Option Thrown × List (TriangleValule T)) :=
  if r.type = redisReplyError then some (some (.redisException r.what), values)
  else if r.type ≠ redisReplyArray then some (some notDefined, values)
  else if element.length ≠ values.length then some (some arraySizeNotMatch, values)
  else some (none, List.zipWith TriangleValule.setElement values element)

/-- `text` is what `Key` makes of a key. -/
def RedisThread.hmget (printf : Text → VaArg → Text) (text : T → Text) (s : RedisThread) (x : ℕ)
    (key : CString) (values : List (TriangleValule T)) (e : Exchange) (element : List Reply) :
    Option (Filled (List (TriangleValule T))) :=
  if values = [] then some ⟨none, values, [], s⟩
  else
    let k := values.foldl (fun k t ↦ k ++ (text t.key ++ lit " "))
      (lit "HMGET " ++ key.bytes ++ lit " ")
    s.fill printf x k [] e values (readFields values element)

/-- An entry holds what its element says. -/
def TriangleValule.Holds (t : TriangleValule T) (rep : Reply) : Prop :=
  (t.valid = false ↔ rep.type = redisReplyNil) ∧ (rep.type ≠ redisReplyNil → t.value = rep.str)

/-- The entry is empty, unless its element is nil.  A length is counted modulo `2 ^ 32`, so that a
longer element asks for the bytes that are not counted. -/
def TriangleValule.Blank (t : TriangleValule T) (rep : Reply) : Prop :=
  rep.type ≠ redisReplyNil →
    if rep.str.length < 2 ^ 32 then t.value = []
    else t.value ++ rep.str.take (rep.str.length % 2 ^ 32) = rep.str

/-! ## One entry -/

theorem Reply.toNat_len (rep : Reply) : (UInt32.ofInt rep.len).toNat = rep.str.length % 2 ^ 32 := by
  have hmod : rep.len % 2 ^ 32 = rep.str.length % 2 ^ 32 := Int.bmod_emod
  rw [UInt32.ofInt, hmod, UInt32.toNat_ofNat']
  omega

namespace TriangleValule

variable {t : TriangleValule T} {rep : Reply}

theorem setElement_nil (h : rep.type = redisReplyNil) :
    t.setElement rep = { t with valid := false } :=
  if_pos h

theorem setElement_value (h : rep.type ≠ redisReplyNil) :
    t.setElement rep =
      ⟨true, t.key, t.value ++ rep.str.take (rep.str.length % 2 ^ 32)⟩ := by
  rw [setElement, if_neg h, setValue, Reply.toNat_len]

theorem holds_setElement_iff : (t.setElement rep).Holds rep ↔ t.Blank rep := by
  by_cases h : rep.type = redisReplyNil
  · rw [setElement_nil h]
    exact iff_of_true ⟨iff_of_true rfl h, fun hne ↦ absurd h hne⟩ fun hne ↦ absurd h hne
  · have hvalid : (true = false ↔ rep.type = redisReplyNil) :=
      iff_of_false (Bool.noConfusion) h
    rw [setElement_value h, Holds, Blank, and_iff_right hvalid]
    refine forall_congr' fun _ ↦ ?_
    split
    · rename_i hlen
      rw [Nat.mod_eq_of_lt hlen, List.take_length, List.append_left_eq_self]
    · exact Iff.rfl

/-- A second element of the same bytes is appended again. -/
theorem setElement_again_iff :
    (t.setElement rep).setElement rep = t.setElement rep ↔
      (rep.type ≠ redisReplyNil → rep.str.length % 2 ^ 32 = 0) := by
  by_cases h : rep.type = redisReplyNil
  · rw [setElement_nil h, setElement_nil h]
    exact iff_of_true rfl fun hne ↦ absurd h hne
  · rw [setElement_value h, setElement_value h, mk.injEq, and_iff_right rfl, and_iff_right rfl,
      List.append_right_eq_self, List.take_eq_nil_iff, forall_prop_of_true h]
    refine or_iff_left_of_imp fun hnil ↦ ?_
    rw [hnil]
    rfl

end TriangleValule

/-! ## A vector of entries -/

variable {printf : Text → VaArg → Text} {text : T → Text} {s : RedisThread} {x : ℕ} {key : CString}
  {e : Exchange} {values : List (TriangleValule T)} {element : List Reply}

theorem holds_zipWith_iff (hlen : element.length = values.length) :
    List.Forall₂ TriangleValule.Holds (List.zipWith TriangleValule.setElement values element)
        element ↔
      List.Forall₂ TriangleValule.Blank values element := by
  induction values generalizing element with
  | nil =>
      rw [List.length_nil, List.length_eq_zero_iff] at hlen
      rw [hlen]
      exact iff_of_true .nil .nil
  | cons t values ih =>
      obtain ⟨rep, element, rfl⟩ := List.exists_cons_of_length_eq_add_one hlen
      rw [List.zipWith_cons_cons, List.forall₂_cons, List.forall₂_cons,
        ih (Nat.succ.inj hlen), TriangleValule.holds_setElement_iff]

theorem zipWith_again_iff (hlen : element.length = values.length) :
    List.zipWith TriangleValule.setElement
        (List.zipWith TriangleValule.setElement values element) element =
        List.zipWith TriangleValule.setElement values element ↔
      ∀ rep ∈ element, rep.type ≠ redisReplyNil → rep.str.length % 2 ^ 32 = 0 := by
  induction values generalizing element with
  | nil =>
      rw [List.length_nil, List.length_eq_zero_iff] at hlen
      rw [hlen]
      exact iff_of_true rfl fun rep hrep ↦ absurd hrep List.not_mem_nil
  | cons t values ih =>
      obtain ⟨rep, element, rfl⟩ := List.exists_cons_of_length_eq_add_one hlen
      rw [List.zipWith_cons_cons, List.zipWith_cons_cons, List.cons.injEq, List.forall_mem_cons,
        ih (Nat.succ.inj hlen), TriangleValule.setElement_again_iff]

theorem readFields_returned {r : Reply} {values' : List (TriangleValule T)}
    (h : readFields values element r = some (none, values')) :
    values' = List.zipWith TriangleValule.setElement values element := by
  unfold readFields at h
  split at h
  · cases h
  · split at h
    · cases h
    · split at h
      · cases h
      · cases h
        rfl

/-- What `hmget` leaves where it returns. -/
theorem hmget_returned {o : Filled (List (TriangleValule T))}
    (ho : s.hmget printf text x key values e element = some o) (hok : o.thrown = none) :
    o.values = List.zipWith TriangleValule.setElement values element := by
  unfold RedisThread.hmget at ho
  split at ho
  · rename_i hnil
    cases ho
    rw [hnil, List.zipWith_nil_left]
  · obtain ⟨r, hread⟩ := RedisThread.fill_returned ho hok
    exact readFields_returned hread

/-- The entries hold the elements exactly when they were blank, and a second call with them leaves
the same exactly when it has no byte to append. -/
theorem hmget_holds_iff (hlen : element.length = values.length)
    {o : Filled (List (TriangleValule T))}
    (ho : s.hmget printf text x key values e element = some o) (hok : o.thrown = none) :
    (List.Forall₂ TriangleValule.Holds o.values element ↔
        List.Forall₂ TriangleValule.Blank values element) ∧
      ∀ (e' : Exchange) (o' : Filled (List (TriangleValule T))),
        o.thread.hmget printf text x key o.values e' element = some o' → o'.thrown = none →
          (o'.values = o.values ↔
            ∀ rep ∈ element, rep.type ≠ redisReplyNil → rep.str.length % 2 ^ 32 = 0) := by
  have hvalues := hmget_returned ho hok
  have hsame : element.length = o.values.length := by
    rw [hvalues, List.length_zipWith, hlen, min_self]
  refine ⟨?_, fun e' o' ho' hok' ↦ ?_⟩
  · rw [hvalues]
    exact holds_zipWith_iff hlen
  · rw [hmget_returned ho' hok', hvalues]
    exact zipWith_again_iff hlen

/-- The elements of a reply in which the second field is missing. -/
def sampleElements : List Reply := [stringReply (lit "b"), ⟨redisReplyNil, 0, []⟩]

theorem hmget_holds_iff_two :
    ∃ o, sampleThread.hmget samplePrintf id 0 sampleKey
        [⟨false, lit "f", []⟩, ⟨true, lit "g", lit "c"⟩] sampleArray sampleElements = some o ∧
      List.Forall₂ TriangleValule.Holds o.values sampleElements := by
  have hreturns : ((sampleThread.hmget samplePrintf id 0 sampleKey
      [⟨false, lit "f", []⟩, ⟨true, lit "g", lit "c"⟩] sampleArray sampleElements).map
        (·.thrown)) = some none := by
    decide +kernel
  obtain ⟨o, ho, hok⟩ := Option.map_eq_some_iff.mp hreturns
  have hblank : List.Forall₂ TriangleValule.Blank
      [⟨false, lit "f", []⟩, ⟨true, lit "g", lit "c"⟩] sampleElements :=
    .cons (fun _ ↦ rfl) (.cons (fun hne ↦ absurd rfl hne) .nil)
  exact ⟨o, ho, (hmget_holds_iff rfl ho hok).1.mpr hblank⟩

/-- The value that an entry had stays in front of the element, and a second call appends again. -/
theorem hmget_appends :
    ∃ o, sampleThread.hmget samplePrintf id 0 sampleKey [⟨true, lit "f", lit "a"⟩] sampleArray
        [stringReply (lit "b")] = some o ∧ o.thrown = none ∧
      ¬ List.Forall₂ TriangleValule.Holds o.values [stringReply (lit "b")] ∧
      ∃ o', o.thread.hmget samplePrintf id 0 sampleKey o.values sampleArray
        [stringReply (lit "b")] = some o' ∧ o'.thrown = none ∧ o'.values ≠ o.values := by
  have honce : (sampleThread.hmget samplePrintf id 0 sampleKey [⟨true, lit "f", lit "a"⟩]
      sampleArray [stringReply (lit "b")]).map (fun o ↦ (o.thrown, o.values)) =
      some (none, [⟨true, lit "f", lit "ab"⟩]) := by
    decide +kernel
  have htwice : ((sampleThread.hmget samplePrintf id 0 sampleKey [⟨true, lit "f", lit "a"⟩]
      sampleArray [stringReply (lit "b")]).bind fun o ↦ o.thread.hmget samplePrintf id 0 sampleKey
        o.values sampleArray [stringReply (lit "b")]).map (fun o ↦ (o.thrown, o.values)) =
      some (none, [⟨true, lit "f", lit "abb"⟩]) := by
    decide +kernel
  obtain ⟨o, ho, hfirst⟩ := Option.map_eq_some_iff.mp honce
  obtain ⟨o', ho', hsecond⟩ := Option.map_eq_some_iff.mp htwice
  rw [ho, Option.bind_some] at ho'
  obtain ⟨hok, hvalues⟩ := Prod.mk.inj hfirst
  obtain ⟨hok', hvalues'⟩ := Prod.mk.inj hsecond
  refine ⟨o, ho, hok, ?_, o', ho', hok', ?_⟩
  · rw [hvalues]
    rintro (_ | ⟨⟨-, hvalue⟩, -⟩)
    exact absurd (hvalue (by decide)) (by decide)
  · rw [hvalues, hvalues']
    decide

end Redis

end Slience
