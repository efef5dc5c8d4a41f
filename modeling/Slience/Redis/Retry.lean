import Slience.Redis.Strings

/-!
# A command that is sent again

When the first attempt of `w_redisCommand` gets no reply, the second one reads the same format
with the `va_list` that the first one has gone through.  It sends the same command only if the
format uses no arguments, or if the arguments that stand behind those that it uses happen to give
the same words.
-/

namespace Slience

namespace Redis

/-- A command was formatted, as `argv`, and sent on `context` and on `context'`; for an invalid
format both sent nothing. -/
def Resent (o : Option (Outcome (Except Text Reply))) (context context' : ℕ)
    (argv : Option (List Text)) : Prop :=
  ∃ r, o = some r ∧
    r.sent = argv.toList.map (context, ·) ++ argv.toList.map (context', ·)

/-- The arguments behind those that the format uses give the words of the format once more; the
words of an invalid one only have to be read. -/
def RepeatsWords (printf : Text → VaArg → Text) (format : Text) (ap : List VaArg) : Prop :=
  ReadsBoth (wordText printf) (fun text text' ↦ isValid format → text = text') (words format) ap
    (ap.drop (numArgs format))

variable {printf : Text → VaArg → Text} {s s' : RedisThread} {x ptr context context' : ℕ}
  {c : RedisContext} {format : Text} {ap rest : List VaArg} {e : Exchange}
  {argv : Option (List Text)}

/-- The second attempt goes on with what the first one has left of the `va_list`. -/
theorem RedisThread.wRedisCommand_again (hcontext : c.context = some context)
    (hfirst : redisvFormatCommand printf format ap = some (argv, rest))
    (hreply : ∀ a ∈ argv, e.reply a = none)
    (hconnect : (s.releaseConnection x).getConnection (c.again e.net) = (.ok ptr, s'))
    (hnew : s'.contextOf ptr = some context') :
    s.wRedisCommand printf x c format ap e =
      (redisvCommand printf context' format rest e.again).map fun second ↦
        ⟨.ok second.reply, argv.toList.map (context, ·) ++ second.sent,
          s'.setConn x (some ptr)⟩ := by
  have hattempt : ∃ errstr, redisvCommand printf context format ap
      (fun a ↦ (e.reply a).elim (.error []) .ok) =
        some ⟨.error errstr, argv.toList.map (context, ·), rest⟩ := by
    cases argv with
    | none => exact ⟨_, by rw [redisvCommand, hfirst]; rfl⟩
    | some a => exact ⟨[], by rw [redisvCommand, hfirst]; simp [hreply a rfl]⟩
  obtain ⟨errstr, hattempt⟩ := hattempt
  simp only [wRedisCommand, hcontext, hattempt, hconnect, hnew, Option.bind_eq_bind,
    Option.bind_some]
  cases redisvCommand printf context' format rest e.again <;> rfl

theorem redisvCommand_sent_iff (answer : List Text → Except Text Reply) :
    (∃ second, redisvCommand printf context format rest answer = some second ∧
      second.sent = argv.toList.map (context, ·)) ↔
        ∃ rest', redisvFormatCommand printf format rest = some (argv, rest') := by
  unfold redisvCommand
  constructor
  · rintro ⟨second, hsecond, hsent⟩
    split at hsecond
    · cases hsecond
    · rename_i rest' hformat
      cases hsecond
      have hnone : argv = none := by
        simpa using hsent.symm
      exact ⟨rest', hnone ▸ hformat⟩
    · rename_i a rest' hformat
      cases hsecond
      have hsome : argv = some a := by
        cases argv with
        | none => cases hsent
        | some a' =>
            cases hsent
            rfl
      exact ⟨rest', hsome ▸ hformat⟩
  · rintro ⟨rest', hformat⟩
    rw [hformat]
    cases argv with
    | none => exact ⟨_, rfl, rfl⟩
    | some a => exact ⟨_, rfl, rfl⟩

/-- The texts of the words are the same, or only read. -/
theorem format_again_iff (hfirst : redisvFormatCommand printf format ap = some (argv, rest)) :
    (∃ rest', redisvFormatCommand printf format rest = some (argv, rest')) ↔
      numArgs format = 0 ∨ numArgs format < ap.length ∧ RepeatsWords printf format ap := by
  obtain ⟨hsome, texts, htexts, rfl⟩ := format_eq_some_iff.mp hfirst
  have hagain := readAgain_iff (R := fun text text' : Text ↦ isValid format → text = text')
    (fun _ _ ↦ rfl) (wordText_hasArity printf) htexts
  refine Iff.trans ?_ hagain
  constructor
  · rintro ⟨rest', hformat⟩
    obtain ⟨-, texts', htexts', heq⟩ := format_eq_some_iff.mp hformat
    refine ⟨texts', rest', htexts', ?_⟩
    by_cases hvalid : isValid format
    · rw [if_pos hvalid, if_pos hvalid, Option.some.injEq] at heq
      subst heq
      exact List.forall₂_same.mpr fun _ _ _ ↦ rfl
    · rw [List.forall₂_iff_get]
      refine ⟨(length_of_readAll htexts).trans (length_of_readAll htexts').symm, ?_⟩
      intro i hi hi' h
      exact absurd h hvalid
  · rintro ⟨texts', rest', htexts', hall⟩
    refine ⟨rest', format_eq_some_iff.mpr ⟨hsome, texts', htexts', ?_⟩⟩
    by_cases hvalid : isValid format
    · have heq : texts = texts' := by
        rw [← List.forall₂_eq_eq_eq]
        exact hall.imp fun _ _ h ↦ h hvalid
      rw [heq]
    · rw [if_neg hvalid, if_neg hvalid]

/-- The second attempt sends the command of the first one exactly if the format uses no arguments,
or the arguments behind those that it uses give its words once more. -/
theorem resent_iff (hcontext : c.context = some context)
    (hfirst : redisvFormatCommand printf format ap = some (argv, rest))
    (hreply : ∀ a ∈ argv, e.reply a = none)
    (hconnect : (s.releaseConnection x).getConnection (c.again e.net) = (.ok ptr, s'))
    (hnew : s'.contextOf ptr = some context') :
    Resent (s.wRedisCommand printf x c format ap e) context context' argv ↔
      numArgs format = 0 ∨ numArgs format < ap.length ∧ RepeatsWords printf format ap := by
  rw [← format_again_iff hfirst, ← redisvCommand_sent_iff e.again, Resent,
    s.wRedisCommand_again hcontext hfirst hreply hconnect hnew]
  constructor
  · rintro ⟨r, hr, hsent⟩
    obtain ⟨second, hsecond, rfl⟩ := Option.map_eq_some_iff.mp hr
    exact ⟨second, hsecond, List.append_cancel_left hsent⟩
  · rintro ⟨second, hsecond, hsent⟩
    refine ⟨_, Option.map_eq_some_iff.mpr ⟨second, hsecond, rfl⟩, ?_⟩
    exact congrArg (argv.toList.map (context, ·) ++ ·) hsent

/-- With strings that are all used the second attempt has nothing to read, so that `set`, `get`,
`hset` and `hget` have no result once the server was lost. -/
theorem RedisThread.strings_lost (h : s.connected x = some c) (hcontext : c.context = some context)
    {name : Text} (hname : IsWord name) (hpercent : 37 ∉ name) {mems : List Text}
    (hne : mems ≠ []) (hnul : ∀ m ∈ mems, 0 ∈ m) (hreply : ∀ a, e.reply a = none)
    (hconnect : (s.releaseConnection x).getConnection (c.again e.net) = (.ok ptr, s'))
    (hnew : s'.contextOf ptr = some context') {α : Type} (read : Reply → Except Thrown α) :
    s.command printf x (name ++ mems.flatMap fun _ ↦ lit " %s") (mems.map .ptr) e read = none := by
  have hfirst : redisvFormatCommand printf (name ++ mems.flatMap fun _ ↦ lit " %s")
      (mems.map .ptr) = some (some (name :: mems.map fun m ↦ m.takeWhile (· ≠ 0)), []) :=
    format_strings hname hpercent mems hnul
  generalize (name ++ mems.flatMap fun _ ↦ lit " %s") = format at hfirst ⊢
  have hused : (mems.map VaArg.ptr).drop (numArgs format) = [] := (format_rest hfirst).2.symm
  rw [List.drop_eq_nil_iff, List.length_map] at hused
  have hpos : 0 < mems.length := List.length_pos_iff.mpr hne
  have hagain : redisvCommand printf context' format [] e.again = none := by
    rw [redisvCommand]
    cases hformat : redisvFormatCommand printf format [] with
    | none => rfl
    | some r =>
        have hle := (format_rest hformat).1
        rw [List.length_nil] at hle
        omega
  rw [command, h]
  change (s.wRedisCommand printf x c format _ e).map _ = none
  rw [s.wRedisCommand_again hcontext hfirst (fun a _ ↦ hreply a) hconnect hnew, hagain]
  rfl

/-- The server is lost, and found again by the connect. -/
def sampleLost : Exchange where
  reply := fun _ ↦ none
  net := ⟨some (0, ""), .error ""⟩
  again := fun _ ↦ .ok ⟨redisReplyNil, 0, []⟩

/-- What `w_redisCommand` does on the sample thread while the server is lost. -/
def sampleCommand (format : Text) (ap : List VaArg) :
    Option (Outcome (Except Text Reply)) :=
  sampleThread.wRedisCommand samplePrintf 0 ⟨some 0, "127.0.0.1", 6379, 0⟩ format ap sampleLost

theorem reconnect_sample :
    ∃ s', (sampleThread.releaseConnection 0).getConnection
      (RedisContext.again ⟨some 0, "127.0.0.1", 6379, 0⟩ sampleLost.net) = (.ok 1, s') ∧
        s'.contextOf 1 = some 1 := by
  have hptr : ((sampleThread.releaseConnection 0).getConnection
      (RedisContext.again ⟨some 0, "127.0.0.1", 6379, 0⟩ sampleLost.net)).1.toOption = some 1 := by
    decide +kernel
  have hnew : ((sampleThread.releaseConnection 0).getConnection (RedisContext.again
      ⟨some 0, "127.0.0.1", 6379, 0⟩ sampleLost.net)).2.contextOf 1 = some 1 := by
    decide +kernel
  rcases h : (sampleThread.releaseConnection 0).getConnection
    (RedisContext.again ⟨some 0, "127.0.0.1", 6379, 0⟩ sampleLost.net) with ⟨r, s'⟩
  rw [h] at hptr hnew
  cases r with
  | error what => cases hptr
  | ok ptr =>
      cases Option.some.inj hptr
      exact ⟨s', rfl, hnew⟩

/-- A format without arguments, and one whose argument was passed twice. -/
theorem resent_iff_sample :
    Resent (sampleCommand (lit "PING") []) 0 1 (some [lit "PING"]) ∧
      Resent (sampleCommand (lit "GET %s") [sampleKey.arg, sampleKey.arg]) 0 1
        (some [lit "GET", lit "queue"]) := by
  obtain ⟨s', hconnect, hnew⟩ := reconnect_sample
  have hping : redisvFormatCommand samplePrintf (lit "PING") [] = some (some [lit "PING"], []) := by
    decide +kernel
  have hget : redisvFormatCommand samplePrintf (lit "GET %s") [sampleKey.arg, sampleKey.arg] =
      some (some [lit "GET", lit "queue"], [sampleKey.arg]) := by
    decide +kernel
  have hwords : words (lit "GET %s") = [(lit "GET").map .byte, [.conv .string]] := by
    decide +kernel
  have hargs : numArgs (lit "GET %s") = 1 := by decide +kernel
  refine ⟨(resent_iff rfl hping (fun _ _ ↦ rfl) hconnect hnew).mpr (Or.inl (by decide +kernel)),
    (resent_iff rfl hget (fun _ _ ↦ rfl) hconnect hnew).mpr (Or.inr ⟨?_, ?_⟩)⟩
  · rw [hargs]
    decide
  · rw [RepeatsWords, hwords, hargs]
    exact ⟨lit "GET", _, lit "GET", _, rfl, rfl, fun _ ↦ rfl, lit "queue", _, lit "queue", _, rfl,
      rfl, fun _ ↦ rfl, trivial⟩

/-- The second attempt reads behind the only argument, or takes another key. -/
theorem get_not_resent :
    ¬ Resent (sampleCommand (lit "GET %s") [sampleKey.arg]) 0 1
        (some [lit "GET", lit "queue"]) ∧
      ¬ Resent (sampleCommand (lit "GET %s") [sampleKey.arg, cStr (lit "lost")]) 0 1
        (some [lit "GET", lit "queue"]) := by
  constructor
  · rintro ⟨r, hr, -⟩
    have hnone : (sampleCommand (lit "GET %s") [sampleKey.arg]).isNone := by decide +kernel
    rw [hr] at hnone
    cases hnone
  · rintro ⟨r, hr, hsent⟩
    have hother : (sampleCommand (lit "GET %s") [sampleKey.arg, cStr (lit "lost")]).map (·.sent) =
        some [(0, [lit "GET", lit "queue"]), (1, [lit "GET", lit "lost"])] := by
      decide +kernel
    rw [hr, Option.map_some, hsent] at hother
    exact absurd hother (by decide)

end Redis

end Slience
