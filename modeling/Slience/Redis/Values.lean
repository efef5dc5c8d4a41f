import Slience.Redis.Command
import Slience.Redis.LiteralFormat

/-!
# Commands with many values

`lpushs`, `rpushs`, `sadds`, `zadds` and `hmset` of `RedisConnection`, for containers of
`std::string`, paste the key and the values into the format of the command.  A `std::map` is the
list of its pairs in the order of its keys.
-/

namespace Slience

namespace Redis

/-- `StringAdd` for `std::string` -/
def stringAdd (src v delimiter : Text) : Text := src ++ delimiter ++ v

namespace RedisThread

variable (printf : Text → VaArg → Text) (s : RedisThread) (x : ℕ) (key : CString)

/-- The body of `lpushs` and `rpushs`; `name` is the text in front of the key. -/
def pushs (name : Text) (values : List Text) (e : Exchange) : Option (Outcome ℤ) :=
  if values = [] then some ⟨.ok 0, [], s⟩
  else
    let k := values.foldl (fun k v ↦ stringAdd k v (lit " ")) (name ++ key.bytes)
    s.command printf x k [] e readInteger

def lpushs (values : List Text) (e : Exchange) : Option (Outcome ℤ) :=
  s.pushs printf x key (lit "LPUSH ") values e

def rpushs (values : List Text) (e : Exchange) : Option (Outcome ℤ) :=
  s.pushs printf x key (lit "RPUSH ") values e

def sadds (values : List Text) (e : Exchange) : Option (Outcome ℤ) :=
  let k := values.foldl (fun k v ↦ k ++ (lit " " ++ v ++ lit " ")) (lit "SADD " ++ key.bytes)
  s.command printf x k [] e readInteger

/-- The pairs are a member and its score. -/
def zadds (values : List (Text × Text)) (e : Exchange) : Option (Outcome ℤ) :=
  let k := values.foldl (fun k p ↦ k ++ (p.2 ++ lit " " ++ p.1 ++ lit " "))
    (lit "ZADD " ++ key.bytes ++ lit " ")
  s.command printf x k [] e readInteger

/-- The pairs are a field and its value. -/
def hmset (values : List (Text × Text)) (e : Exchange) : Option (Outcome Unit) :=
  if values = [] then some ⟨.ok (), [], s⟩
  else
    let k := values.foldl (fun k p ↦ k ++ (p.1 ++ lit " " ++ p.2 ++ lit " "))
      (lit "HMSET " ++ key.bytes ++ lit " ")
    s.command printf x k [] e readStatus

end RedisThread

/-- A call with many values. -/
inductive ValuesCall where
  | lpushs (values : List Text)
  | rpushs (values : List Text)
  | sadds (values : List Text)
  | zadds (values : List (Text × Text))
  | hmset (values : List (Text × Text))

namespace ValuesCall

/-- The commands that a call sends. -/
def sent (printf : Text → VaArg → Text) (s : RedisThread) (x : ℕ) (key : CString)
    (e : Exchange) : ValuesCall → Option (List (ℕ × List Text))
  | .lpushs values => (s.lpushs printf x key values e).map (·.sent)
  | .rpushs values => (s.rpushs printf x key values e).map (·.sent)
  | .sadds values => (s.sadds printf x key values e).map (·.sent)
  | .zadds values => (s.zadds printf x key values e).map (·.sent)
  | .hmset values => (s.hmset printf x key values e).map (·.sent)

def name : ValuesCall → Text
  | .lpushs _ => lit "LPUSH"
  | .rpushs _ => lit "RPUSH"
  | .sadds _ => lit "SADD"
  | .zadds _ => lit "ZADD"
  | .hmset _ => lit "HMSET"

/-- The values in the order of the command: a score is in front of its member, and a field in
front of its value. -/
def values : ValuesCall → List Text
  | .lpushs values => values
  | .rpushs values => values
  | .sadds values => values
  | .zadds values => values.flatMap fun p ↦ [p.2, p.1]
  | .hmset values => values.flatMap fun p ↦ [p.1, p.2]

def argv (call : ValuesCall) (key : CString) : List Text := call.name :: key.bytes :: call.values

/-- The last value ends the format. -/
def endsFormat : ValuesCall → Bool
  | .lpushs _ | .rpushs _ => true
  | .sadds _ | .zadds _ | .hmset _ => false

/-- The key and the values are nonempty and hold no NUL, no space and no `%`; where the last value
ends the format, its last byte may be a `%`. -/
def Literal (call : ValuesCall) (key : CString) : Prop :=
  (∀ t ∈ key.bytes :: call.values, IsWord t) ∧
    (∀ t ∈ key.bytes :: call.values.dropLast, 37 ∉ t) ∧
    ∀ t ∈ call.values.getLast?, 37 ∉ if call.endsFormat then t.dropLast else t

instance (call : ValuesCall) (key : CString) : Decidable (call.Literal key) :=
  inferInstanceAs (Decidable (_ ∧ _ ∧ _))

end ValuesCall

/-! ## The formats -/

/-- The format of a call with values. -/
def ValuesCall.format (call : ValuesCall) (key : CString) : Text :=
  call.name ++ 32 :: (key.bytes ++
    match call with
    | .lpushs values | .rpushs values => values.flatMap fun v ↦ 32 :: v
    | .sadds values => values.flatMap fun v ↦ 32 :: (v ++ [32])
    | .zadds _ | .hmset _ => 32 :: call.values.flatMap fun v ↦ v ++ [32])

theorem foldl_pasted {α : Type} (g : α → Text) (vs : List α) (f : Text) :
    vs.foldl (fun k v ↦ k ++ g v) f = f ++ vs.flatMap g := by
  rw [List.foldl_append_eq_append, List.flatMap_def]

theorem foldl_stringAdd (vs : List Text) (f : Text) :
    vs.foldl (fun k v ↦ stringAdd k v (lit " ")) f = f ++ vs.flatMap fun v ↦ 32 :: v := by
  rw [← foldl_pasted]
  congr 1
  funext k v
  exact List.append_assoc ..

theorem pasted_pairs (g₁ g₂ : Text × Text → Text) (vs : List (Text × Text)) :
    (vs.flatMap fun p ↦ g₁ p ++ lit " " ++ g₂ p ++ lit " ") =
      (vs.flatMap fun p ↦ [g₁ p, g₂ p]).flatMap fun v ↦ v ++ [32] := by
  rw [List.flatMap_assoc]
  congr 1
  funext p
  simp [show lit " " = [32] from rfl]

/-- Values with a space in front of each. -/
theorem spells_behind (w : Text) (vs : List Text) :
    Spells (w :: vs) (w ++ vs.flatMap fun v ↦ 32 :: v) := by
  induction vs generalizing w with
  | nil => exact Spells.cons w 0 (fun h ↦ absurd rfl h) (Spells.nil 0)
  | cons v vs ih => exact Spells.cons w 1 (fun _ ↦ Nat.one_ne_zero) (ih v)

/-- Values with a space in front of and behind each. -/
theorem spells_around (w : Text) (n : ℕ) (vs : List Text) :
    Spells (w :: vs) (w ++ (List.replicate n 32 ++ vs.flatMap fun v ↦ 32 :: (v ++ [32]))) := by
  induction vs generalizing w n with
  | nil => exact Spells.cons w n (fun h ↦ absurd rfl h) (Spells.nil 0)
  | cons v vs ih =>
      have hcons := Spells.cons w (n + 1) (fun _ ↦ Nat.succ_ne_zero n) (ih v 1)
      rw [List.replicate_succ'] at hcons
      simpa using hcons

/-- Values with a space behind each. -/
theorem spells_before (w : Text) (vs : List Text) :
    Spells (w :: vs) (w ++ 32 :: vs.flatMap fun v ↦ v ++ [32]) := by
  induction vs generalizing w with
  | nil => exact Spells.cons w 1 (fun h ↦ absurd rfl h) (Spells.nil 0)
  | cons v vs ih =>
      have hcons := Spells.cons w 1 (fun _ ↦ Nat.one_ne_zero) (ih v)
      simpa using hcons

namespace ValuesCall

variable {printf : Text → VaArg → Text} {s : RedisThread} {x context : ℕ} {c : RedisContext}
  {e : Exchange} {call : ValuesCall} {key : CString} {argv : List Text}

theorem spells (call : ValuesCall) (key : CString) : Spells (call.argv key) (call.format key) := by
  cases call with
  | lpushs values | rpushs values =>
      exact Spells.cons _ 1 (fun _ ↦ Nat.one_ne_zero) (spells_behind key.bytes values)
  | sadds values =>
      exact Spells.cons _ 1 (fun _ ↦ Nat.one_ne_zero) (spells_around key.bytes 0 values)
  | zadds values | hmset values =>
      exact Spells.cons _ 1 (fun _ ↦ Nat.one_ne_zero) (spells_before key.bytes _)

theorem pushs_eq (name : Text) {values : List Text} (hne : values ≠ []) :
    s.pushs printf x key name values e = s.command printf x
      (name ++ (key.bytes ++ values.flatMap fun v ↦ 32 :: v)) [] e readInteger := by
  rw [RedisThread.pushs, if_neg hne, foldl_stringAdd, List.append_assoc]

theorem sadds_eq (values : List Text) :
    s.sadds printf x key values e =
      s.command printf x ((sadds values).format key) [] e readInteger := by
  rw [RedisThread.sadds, foldl_pasted, List.append_assoc]
  rfl

theorem zadds_eq (values : List (Text × Text)) :
    s.zadds printf x key values e =
      s.command printf x ((zadds values).format key) [] e readInteger := by
  rw [RedisThread.zadds, foldl_pasted, pasted_pairs, List.append_assoc, List.append_assoc]
  rfl

theorem hmset_eq {values : List (Text × Text)} (hne : values ≠ []) :
    s.hmset printf x key values e =
      s.command printf x ((hmset values).format key) [] e readStatus := by
  rw [RedisThread.hmset, if_neg hne, foldl_pasted, pasted_pairs, List.append_assoc,
    List.append_assoc]
  rfl

/-- What a call sends is what its format says. -/
theorem sent_iff (h : s.connected x = some c) (hcontext : c.context = some context)
    (hreply : ∀ argv, ∃ reply, e.reply argv = some reply) (hne : call.values ≠ []) :
    call.sent printf s x key e = some [(context, argv)] ↔
      ∃ ap, redisvFormatCommand printf (call.format key) [] = some (some argv, ap) := by
  cases call with
  | lpushs values =>
      have hvalues : values ≠ [] := hne
      rw [sent, RedisThread.lpushs, pushs_eq _ hvalues]
      exact Option.map_eq_some_iff.trans (RedisThread.command_sent_iff h hcontext hreply _)
  | rpushs values =>
      have hvalues : values ≠ [] := hne
      rw [sent, RedisThread.rpushs, pushs_eq _ hvalues]
      exact Option.map_eq_some_iff.trans (RedisThread.command_sent_iff h hcontext hreply _)
  | sadds values =>
      rw [sent, sadds_eq]
      exact Option.map_eq_some_iff.trans (RedisThread.command_sent_iff h hcontext hreply _)
  | zadds values =>
      rw [sent, zadds_eq]
      exact Option.map_eq_some_iff.trans (RedisThread.command_sent_iff h hcontext hreply _)
  | hmset values =>
      have hvalues : values ≠ [] := by
        rintro rfl
        exact hne rfl
      rw [sent, hmset_eq hvalues]
      exact Option.map_eq_some_iff.trans (RedisThread.command_sent_iff h hcontext hreply _)

theorem isWord_name (call : ValuesCall) : IsWord call.name ∧ 37 ∉ call.name := by
  cases call with
  | lpushs values => exact (by decide : IsWord (lit "LPUSH") ∧ 37 ∉ lit "LPUSH")
  | rpushs values => exact (by decide : IsWord (lit "RPUSH") ∧ 37 ∉ lit "RPUSH")
  | sadds values => exact (by decide : IsWord (lit "SADD") ∧ 37 ∉ lit "SADD")
  | zadds values => exact (by decide : IsWord (lit "ZADD") ∧ 37 ∉ lit "ZADD")
  | hmset values => exact (by decide : IsWord (lit "HMSET") ∧ 37 ∉ lit "HMSET")

theorem notMem_format (call : ValuesCall) (key : CString) :
    37 ∉ call.format key ↔ ∀ t ∈ key.bytes :: call.values, 37 ∉ t := by
  have hname := call.isWord_name.2
  rw [(call.spells key).mem_iff (by decide), argv]
  simp [hname]

theorem dropLast_concat_cons {f last : Text} (hlast : last ≠ []) :
    37 ∉ (f ++ 32 :: last).dropLast ↔ 37 ∉ f ∧ 37 ∉ last.dropLast := by
  rw [List.dropLast_append_of_ne_nil (List.cons_ne_nil 32 last),
    List.dropLast_cons_of_ne_nil hlast, List.mem_append, not_or, List.mem_cons, not_or]
  simp

theorem exists_space (key : CString) (hends : call.endsFormat = false) {init : List Text}
    {last : Text} (hvalues : call.values = init ++ [last]) : ∃ f, call.format key = f ++ [32] := by
  cases call with
  | lpushs values | rpushs values => cases hends
  | sadds values =>
      have hvalues' : values = init ++ [last] := hvalues
      subst hvalues'
      refine ⟨lit "SADD" ++ 32 :: (key.bytes ++
        ((init.flatMap fun v ↦ 32 :: (v ++ [32])) ++ 32 :: last)), ?_⟩
      simp [format, name]
  | zadds values =>
      refine ⟨lit "ZADD" ++ 32 :: (key.bytes ++ 32 ::
        ((init.flatMap fun v ↦ v ++ [32]) ++ last)), ?_⟩
      simp [format, hvalues, name]
  | hmset values =>
      refine ⟨lit "HMSET" ++ 32 :: (key.bytes ++ 32 ::
        ((init.flatMap fun v ↦ v ++ [32]) ++ last)), ?_⟩
      simp [format, hvalues, name]

/-- Where a `%` may stand in a format that is made of words. -/
theorem percent_iff {init : List Text} {last : Text} (hvalues : call.values = init ++ [last])
    (hlast : last ≠ []) :
    37 ∉ (call.format key).dropLast ↔
      (∀ t ∈ key.bytes :: init, 37 ∉ t) ∧ 37 ∉ if call.endsFormat then last.dropLast else last := by
  cases hends : call.endsFormat with
  | false =>
      obtain ⟨f, hf⟩ := exists_space key hends hvalues
      have hspace : 37 ∉ (f ++ [32]).dropLast ↔ 37 ∉ f ++ [32] := by
        rw [List.dropLast_concat, List.mem_append]
        simp
      rw [hf, hspace, ← hf, notMem_format, hvalues]
      simp [or_imp, forall_and, and_assoc]
  | true =>
      cases call with
      | sadds values | zadds values | hmset values => cases hends
      | lpushs values =>
          have hvalues' : values = init ++ [last] := hvalues
          have hformat : (lpushs values).format key = (lpushs init).format key ++ 32 :: last := by
            simp [format, name, hvalues']
          rw [hformat, dropLast_concat_cons hlast, notMem_format]
          rfl
      | rpushs values =>
          have hvalues' : values = init ++ [last] := hvalues
          have hformat : (rpushs values).format key = (rpushs init).format key ++ 32 :: last := by
            simp [format, name, hvalues']
          rw [hformat, dropLast_concat_cons hlast, notMem_format]
          rfl

/-- On a connection that answers, a call with values sends one command whose arguments are the
name, the key and the values exactly if key and values are literal. -/
theorem sent_argv_iff (h : s.connected x = some c) (hcontext : c.context = some context)
    (hreply : ∀ argv, ∃ reply, e.reply argv = some reply) (hne : call.values ≠ []) :
    call.sent printf s x key e = some [(context, call.argv key)] ↔ call.Literal key := by
  have hname := call.isWord_name.1
  obtain ⟨init, last, hvalues⟩ : ∃ init last, call.values = init ++ [last] :=
    ⟨_, _, (List.dropLast_append_getLast hne).symm⟩
  rw [sent_iff h hcontext hreply hne, format_spells_iff (call.spells key), argv,
    List.forall_mem_cons, Literal]
  constructor
  · rintro ⟨⟨-, hwords⟩, hpercent⟩
    have hlast : IsWord last := hwords last (by simp [hvalues])
    rw [percent_iff hvalues hlast.1] at hpercent
    refine ⟨hwords, ?_, ?_⟩
    · rw [hvalues, List.dropLast_concat]
      exact hpercent.1
    · rw [hvalues, List.getLast?_concat]
      rintro t ⟨⟩
      exact hpercent.2
  · rintro ⟨hwords, hinit, hend⟩
    have hlast : IsWord last := hwords last (by simp [hvalues])
    rw [hvalues, List.dropLast_concat] at hinit
    rw [hvalues, List.getLast?_concat] at hend
    exact ⟨⟨hname, hwords⟩, (percent_iff hvalues hlast.1).mpr ⟨hinit, hend last rfl⟩⟩

/-- A server that answers every command with the integer 1. -/
def sampleExchange : Exchange where
  reply := fun _ ↦ some ⟨redisReplyInteger, 1, []⟩
  net := ⟨none, .error ""⟩
  again := fun _ ↦ .error []

theorem sent_argv_iff_sample :
    (rpushs [lit "10", lit "100%"]).sent samplePrintf sampleThread 0 sampleKey sampleExchange =
      some [(0, [lit "RPUSH", lit "queue", lit "10", lit "100%"])] := by
  have hvalues : (rpushs [lit "10", lit "100%"]).values ≠ [] := List.cons_ne_nil _ _
  exact (sent_argv_iff connected_sampleThread rfl (fun _ ↦ ⟨_, rfl⟩) hvalues).mpr
    (by decide +kernel)

/-- A space in a value makes two values of it. -/
theorem lpushs_with_space :
    (lpushs [lit "a b"]).sent samplePrintf sampleThread 0 sampleKey sampleExchange =
        some [(0, [lit "LPUSH", lit "queue", lit "a", lit "b"])] ∧
      (lpushs [lit "a b"]).sent samplePrintf sampleThread 0 sampleKey sampleExchange ≠
        some [(0, (lpushs [lit "a b"]).argv sampleKey)] := by
  decide +kernel

end ValuesCall

end Redis

end Slience
