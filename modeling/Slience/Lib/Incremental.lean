import Mathlib.Data.List.Basic
import Mathlib.Tactic

/-!
# Parsing a stream that arrives in pieces

A parser says of the front of a stream that it needs more of it, that it fails, or what it reads
and what it leaves.  It is incremental when what it decided stays decided as more of the stream
arrives.  `stream` cuts a whole stream into the items of a parser.

A receiver is fed pieces and asked for items in any order.  The simplest one keeps the bytes that
it has not parsed, and `expected` is what it answers, read off the whole stream.  Another receiver
that `Resumes` the parser gives the same answers.
-/

namespace Slience

universe u v w

variable {β : Type u} {ε : Type v} {α : Type w} {γ : Type*}

/-- What a parser says about the front of a stream. -/
inductive Front (β : Type u) (ε : Type v) (α : Type w) where
  | more
  | fail (e : ε)
  | done (a : α) (rest : List β)

namespace Front

/-- What was said, as `t` arrives. -/
def feed : Front β ε α → List β → Front β ε α
  | more, _ => more
  | fail e, _ => fail e
  | done a rest, t => done a (rest ++ t)

def bind : Front β ε α → (α → List β → Front β ε γ) → Front β ε γ
  | more, _ => more
  | fail e, _ => fail e
  | done a rest, f => f a rest

/-- What is decided of a stream stays decided as more of it arrives. -/
def Stable (p : List β → Front β ε α) : Prop :=
  ∀ s t, p s ≠ more → p (s ++ t) = (p s).feed t

/-- Nothing is read without taking from the stream. -/
def Consumes (p : List β → Front β ε α) : Prop :=
  ∀ s a rest, p s = done a rest → rest.length < s.length

/-- `n` items, one behind the other. -/
def items (p : List β → Front β ε α) : ℕ → List β → Front β ε (List α)
  | 0, s => done [] s
  | n + 1, s => (p s).bind fun a s ↦ (items p n s).bind fun as s ↦ done (a :: as) s

@[simp] theorem bind_more (f : α → List β → Front β ε γ) : (more : Front β ε α).bind f = more := rfl

@[simp] theorem bind_fail (e : ε) (f : α → List β → Front β ε γ) :
    (fail e : Front β ε α).bind f = fail e := rfl

@[simp] theorem bind_done (a : α) (rest : List β) (f : α → List β → Front β ε γ) :
    (done a rest).bind f = f a rest := rfl

theorem bind_assoc {δ : Type*} (x : Front β ε α) (f : α → List β → Front β ε γ)
    (g : γ → List β → Front β ε δ) :
    (x.bind f).bind g = x.bind fun a s ↦ (f a s).bind g := by
  cases x <;> rfl

theorem bind_eq_done {x : Front β ε α} {f : α → List β → Front β ε γ} {c : γ} {rest : List β}
    (h : x.bind f = done c rest) : ∃ a s, x = done a s ∧ f a s = done c rest := by
  cases x with
  | more => cases h
  | fail e => cases h
  | done a s => exact ⟨a, s, rfl, h⟩

theorem stable_done (a : α) : Stable fun s : List β ↦ (done a s : Front β ε α) :=
  fun _ _ _ ↦ rfl

theorem Stable.bind {p : List β → Front β ε α} {f : α → List β → Front β ε γ} (hp : Stable p)
    (hf : ∀ a, Stable (f a)) : Stable fun s ↦ (p s).bind f := by
  intro s t hmore
  have hne : p s ≠ more := by
    intro h
    exact hmore (by simp [h])
  simp only at hmore ⊢
  rw [hp s t hne]
  cases hs : p s with
  | more => exact absurd hs hne
  | fail e => rfl
  | done a rest =>
      rw [hs, bind_done] at hmore
      exact hf a rest t hmore

theorem Stable.items {p : List β → Front β ε α} (hp : Stable p) (n : ℕ) :
    Stable (items p n) := by
  induction n with
  | zero => exact stable_done []
  | succ n ih => exact hp.bind fun a ↦ ih.bind fun as ↦ stable_done (a :: as)

theorem items_le {p : List β → Front β ε α} (hp : Consumes p) {n : ℕ} {s rest : List β}
    {as : List α} (h : items p n s = done as rest) : rest.length ≤ s.length := by
  induction n generalizing s as with
  | zero =>
      cases h
      exact le_rfl
  | succ n ih =>
      obtain ⟨a, s', hs', h⟩ := bind_eq_done h
      obtain ⟨as', s'', hs'', h⟩ := bind_eq_done h
      cases h
      have hlt := hp s a s' hs'
      have hle := ih hs''
      omega

end Front

/-- An incremental parser of a stream of items. -/
structure Incremental (β : Type u) (ε : Type v) (α : Type w) where
  parse : List β → Front β ε α
  stable : Front.Stable parse
  consumes : Front.Consumes parse

/-- How a stream ends behind its last complete item. -/
inductive Ending (β : Type u) (ε : Type v) where
  | more (rest : List β)
  | fail (e : ε)

namespace Incremental

variable (P : Incremental β ε α)

/-- The items of a whole stream, and how it ends. -/
def stream (s : List β) : List α × Ending β ε :=
  match _h : P.parse s with
  | .more => ([], .more s)
  | .fail e => ([], .fail e)
  | .done a rest => (a :: (stream rest).1, (stream rest).2)
termination_by s.length
decreasing_by all_goals exact P.consumes s a rest _h

variable {P}

theorem stream_of_more {s : List β} (h : P.parse s = .more) : P.stream s = ([], .more s) := by
  rw [stream]
  split <;> simp_all

theorem stream_of_fail {s : List β} {e : ε} (h : P.parse s = .fail e) :
    P.stream s = ([], .fail e) := by
  rw [stream]
  split <;> simp_all

theorem stream_of_done {s rest : List β} {a : α} (h : P.parse s = .done a rest) :
    P.stream s = (a :: (P.stream rest).1, (P.stream rest).2) := by
  rw [stream]
  split <;> simp_all

/-- Of a stream that begins with an item, every part begins with this item or needs more. -/
theorem parse_of_append {s t rest : List β} {a : α} (h : P.parse (s ++ t) = .done a rest) :
    P.parse s = .more ∨ ∃ s', P.parse s = .done a s' ∧ s' ++ t = rest := by
  have happ := P.stable s t
  rw [h] at happ
  cases hs : P.parse s with
  | more => exact Or.inl rfl
  | fail e =>
      rw [hs] at happ
      cases happ (fun h ↦ by cases h)
  | done b s' =>
      rw [hs] at happ
      cases happ (fun h ↦ by cases h)
      exact Or.inr ⟨s', rfl, rfl⟩

/-- What is behind the last complete item is all that is needed to go on. -/
theorem stream_append_of_more {s rest : List β} (h : (P.stream s).2 = .more rest) (t : List β) :
    P.stream (s ++ t) =
      ((P.stream s).1 ++ (P.stream (rest ++ t)).1, (P.stream (rest ++ t)).2) := by
  induction hn : s.length using Nat.strong_induction_on generalizing s with
  | _ n ih =>
      cases hs : P.parse s with
      | more =>
          rw [stream_of_more hs] at h ⊢
          cases h
          rfl
      | fail e =>
          rw [stream_of_fail hs] at h
          cases h
      | done a s' =>
          have happ : P.parse (s ++ t) = .done a (s' ++ t) := by
            rw [P.stable s t (by rw [hs]; exact fun h ↦ by cases h), hs]
            rfl
          rw [stream_of_done hs] at h ⊢
          rw [stream_of_done happ, ih s'.length (hn ▸ P.consumes s a s' hs) h rfl, List.cons_append]

theorem stream_append_of_fail {s : List β} {e : ε} (h : (P.stream s).2 = .fail e) (t : List β) :
    P.stream (s ++ t) = P.stream s := by
  induction hn : s.length using Nat.strong_induction_on generalizing s with
  | _ n ih =>
      cases hs : P.parse s with
      | more =>
          rw [stream_of_more hs] at h
          cases h
      | fail e' =>
          have happ : P.parse (s ++ t) = .fail e' := by
            rw [P.stable s t (by rw [hs]; exact fun h ↦ by cases h), hs]
            rfl
          rw [stream_of_fail hs, stream_of_fail happ]
      | done a s' =>
          have happ : P.parse (s ++ t) = .done a (s' ++ t) := by
            rw [P.stable s t (by rw [hs]; exact fun h ↦ by cases h), hs]
            rfl
          rw [stream_of_done hs] at h ⊢
          rw [stream_of_done happ, ih s'.length (hn ▸ P.consumes s a s' hs) h rfl]

/-- The items of a stream are those of a longer one, as far as they go. -/
theorem stream_append_fst (s t : List β) : (P.stream s).1 <+: (P.stream (s ++ t)).1 := by
  cases h : (P.stream s).2 with
  | more rest =>
      rw [stream_append_of_more h]
      exact List.prefix_append _ _
  | fail e => rw [stream_append_of_fail h]

/-- A failure of a stream is one of every longer stream. -/
theorem stream_fail_mono {s : List β} {e : ε} (t : List β) (h : (P.stream s).2 = .fail e) :
    (P.stream (s ++ t)).2 = .fail e := by
  rw [stream_append_of_fail h, h]

end Incremental

/-- A call of a receiver: a piece of the stream, or a request for an item. -/
inductive ReceiverCall (β : Type u) where
  | feed (t : List β)
  | get
  deriving DecidableEq

/-- The bytes that the calls feed. -/
def fed : List (ReceiverCall β) → List β
  | [] => []
  | .feed t :: calls => t ++ fed calls
  | .get :: calls => fed calls

namespace Incremental

/-- What is answered to the requests when `s` was fed and `k` items were given out before. -/
def expected (P : Incremental β ε α) :
    List β → ℕ → List (ReceiverCall β) → List (Except ε (Option α))
  | _, _, [] => []
  | s, k, .feed t :: calls => P.expected (s ++ t) k calls
  | s, k, .get :: calls =>
      match (P.stream s).1[k]? with
      | some a => .ok (some a) :: P.expected s (k + 1) calls
      | none =>
          (match (P.stream s).2 with
            | .more _ => .ok none
            | .fail e => .error e) :: P.expected s k calls

/-- What is left of a stream behind its first `k` items. -/
def behind (P : Incremental β ε α) : ℕ → List β → List β
  | 0, s => s
  | k + 1, s =>
      match P.parse s with
      | .done _ rest => P.behind k rest
      | _ => s

variable {P : Incremental β ε α}

theorem stream_behind {k : ℕ} {s : List β} (hk : k ≤ (P.stream s).1.length) :
    P.stream s = ((P.stream s).1.take k ++ (P.stream (P.behind k s)).1,
      (P.stream (P.behind k s)).2) := by
  induction k generalizing s with
  | zero => rfl
  | succ k ih =>
      cases hs : P.parse s with
      | more => rw [stream_of_more hs] at hk; simp at hk
      | fail e => rw [stream_of_fail hs] at hk; simp at hk
      | done a rest =>
          rw [stream_of_done hs] at hk ⊢
          have hrest := ih (Nat.le_of_succ_le_succ hk)
          have hbehind : P.behind (k + 1) s = P.behind k rest := by rw [behind, hs]
          rw [hbehind, List.take_succ_cons, List.cons_append]
          exact congrArg (fun r ↦ (a :: r.1, r.2)) hrest

theorem behind_append {k : ℕ} {s : List β} (hk : k ≤ (P.stream s).1.length) (t : List β) :
    P.behind k (s ++ t) = P.behind k s ++ t := by
  induction k generalizing s with
  | zero => rfl
  | succ k ih =>
      cases hs : P.parse s with
      | more => rw [stream_of_more hs] at hk; simp at hk
      | fail e => rw [stream_of_fail hs] at hk; simp at hk
      | done a rest =>
          have happ : P.parse (s ++ t) = .done a (rest ++ t) := by
            rw [P.stable s t (by rw [hs]; exact fun h ↦ by cases h), hs]
            rfl
          rw [stream_of_done hs] at hk
          rw [behind, behind, hs, happ]
          exact ih (Nat.le_of_succ_le_succ hk)

theorem behind_succ {k : ℕ} {s rest : List β} {a : α} (hk : k ≤ (P.stream s).1.length)
    (h : P.parse (P.behind k s) = .done a rest) : P.behind (k + 1) s = rest := by
  induction k generalizing s with
  | zero =>
      rw [behind] at h
      rw [behind, h]
      rfl
  | succ k ih =>
      cases hs : P.parse s with
      | more => rw [stream_of_more hs] at hk; simp at hk
      | fail e => rw [stream_of_fail hs] at hk; simp at hk
      | done b s' =>
          rw [stream_of_done hs] at hk
          rw [behind, hs] at h ⊢
          exact ih (Nat.le_of_succ_le_succ hk) h

/-- The items among the answers. -/
def delivered (answers : List (Except ε (Option α))) : List α :=
  answers.filterMap fun
    | .ok a => a
    | .error _ => none

theorem delivered_cons (answer : Except ε (Option α)) (answers : List (Except ε (Option α))) :
    delivered (answer :: answers) = delivered [answer] ++ delivered answers :=
  List.filterMap_append (l := [answer])

theorem expected_get_of_some {s : List β} {k : ℕ} {a : α} (h : (P.stream s).1[k]? = some a)
    (calls : List (ReceiverCall β)) :
    P.expected s k (.get :: calls) = .ok (some a) :: P.expected s (k + 1) calls := by
  rw [expected, h]

theorem expected_get_of_none {s : List β} {k : ℕ} (h : (P.stream s).1[k]? = none)
    (calls : List (ReceiverCall β)) :
    ∃ answer, delivered [answer] = [] ∧
      ((∀ e, (P.stream s).2 ≠ .fail e) → answer = .ok none) ∧
        P.expected s k (.get :: calls) = answer :: P.expected s k calls := by
  rw [expected, h]
  cases hs : (P.stream s).2 with
  | more rest => exact ⟨_, rfl, fun _ ↦ rfl, rfl⟩
  | fail e => exact ⟨_, rfl, fun h ↦ absurd rfl (h e), rfl⟩

/-- The calls deliver items in their order, from the `k`-th on, and the calls behind them go on
there. -/
theorem expected_append {s : List β} {k : ℕ} (hk : k ≤ (P.stream s).1.length)
    (calls calls' : List (ReceiverCall β)) :
    ∃ m, k ≤ m ∧ m ≤ (P.stream (s ++ fed calls)).1.length ∧
      delivered (P.expected s k calls) = ((P.stream (s ++ fed calls)).1.take m).drop k ∧
        P.expected s k (calls ++ calls') =
          P.expected s k calls ++ P.expected (s ++ fed calls) m calls' := by
  induction calls generalizing s k with
  | nil =>
      refine ⟨k, le_rfl, ?_, ?_, ?_⟩
      · rwa [fed, List.append_nil]
      · rw [List.drop_of_length_le (List.length_take_le _ _)]
        rfl
      · rw [fed, List.append_nil]
        rfl
  | cons call calls ih =>
      cases call with
      | feed t =>
          have hk' : k ≤ (P.stream (s ++ t)).1.length :=
            hk.trans (P.stream_append_fst s t).length_le
          obtain ⟨m, hkm, hm, hdelivered, happ⟩ := ih hk'
          rw [List.append_assoc] at hm hdelivered happ
          exact ⟨m, hkm, hm, hdelivered, happ⟩
      | get =>
          cases hget : (P.stream s).1[k]? with
          | none =>
              obtain ⟨answer, hnil, -, hexpected⟩ := expected_get_of_none hget calls
              obtain ⟨answer', -, -, hexpected'⟩ := expected_get_of_none hget (calls ++ calls')
              obtain ⟨m, hkm, hm, hdelivered, happ⟩ := ih hk
              refine ⟨m, hkm, hm, ?_, ?_⟩
              · rw [hexpected, delivered_cons, hnil]
                exact hdelivered
              · rw [expected, hget] at hexpected
                rw [List.cons_append, expected, expected, hget]
                simp only [List.cons_append, List.cons.injEq, true_and]
                exact happ
          | some a =>
              obtain ⟨hlt, ha⟩ := List.getElem?_eq_some_iff.mp hget
              obtain ⟨m, hkm, hm, hdelivered, happ⟩ := ih (k := k + 1) hlt
              refine ⟨m, by omega, hm, ?_, ?_⟩
              · have hprefix := P.stream_append_fst s (fed calls)
                have hget' : (P.stream (s ++ fed calls)).1[k]? = some a := by
                  obtain ⟨l, hl⟩ := hprefix
                  rw [← hl, List.getElem?_append_left hlt, hget]
                obtain ⟨hlt', ha'⟩ := List.getElem?_eq_some_iff.mp hget'
                have hcons : ((P.stream (s ++ fed calls)).1.take m).drop k =
                    a :: ((P.stream (s ++ fed calls)).1.take m).drop (k + 1) := by
                  rw [List.drop_eq_getElem_cons (by rw [List.length_take]; omega),
                    List.getElem_take, ha']
                rw [expected_get_of_some hget, delivered_cons, hdelivered]
                exact hcons.symm
              · rw [List.cons_append, expected_get_of_some hget, expected_get_of_some hget, happ]
                rfl

theorem delivered_replicate {s : List β} {k : ℕ} (hk : k ≤ (P.stream s).1.length) (n : ℕ) :
    delivered (P.expected s k (List.replicate n .get)) = ((P.stream s).1.drop k).take n := by
  induction n generalizing k with
  | zero => rfl
  | succ n ih =>
      rw [List.replicate_succ]
      cases hget : (P.stream s).1[k]? with
      | none =>
          have hlen : (P.stream s).1.length ≤ k := List.getElem?_eq_none_iff.mp hget
          obtain ⟨answer, hnil, -, hexpected⟩ := expected_get_of_none hget (List.replicate n .get)
          rw [hexpected, delivered_cons, hnil, ih hk, List.drop_of_length_le hlen, List.take_nil,
            List.take_nil]
          rfl
      | some a =>
          obtain ⟨hlt, ha⟩ := List.getElem?_eq_some_iff.mp hget
          rw [expected_get_of_some hget, delivered_cons, ih hlt, List.drop_eq_getElem_cons hlt, ha,
            List.take_succ_cons]
          rfl

/-- Enough requests at the end deliver what is left. -/
theorem delivered_all (calls : List (ReceiverCall β)) {n : ℕ}
    (hn : (P.stream (fed calls)).1.length ≤ n) :
    delivered (P.expected [] 0 (calls ++ List.replicate n .get)) = (P.stream (fed calls)).1 := by
  obtain ⟨m, -, hm, hdelivered, happ⟩ :=
    P.expected_append (s := []) (Nat.zero_le _) calls (List.replicate n .get)
  rw [List.nil_append] at hm hdelivered happ
  rw [happ, delivered, List.filterMap_append]
  change delivered _ ++ delivered _ = _
  have hrest : ((P.stream (fed calls)).1.drop m).length ≤ n := by
    rw [List.length_drop]
    omega
  rw [hdelivered, delivered_replicate hm, List.drop_zero, List.take_of_length_le hrest,
    List.take_append_drop]

theorem fed_append (calls calls' : List (ReceiverCall β)) :
    fed (calls ++ calls') = fed calls ++ fed calls' := by
  induction calls with
  | nil => rfl
  | cons call calls ih =>
      cases call with
      | feed t => rw [List.cons_append, fed, fed, ih, List.append_assoc]
      | get => exact ih

theorem fed_replicate (n : ℕ) : fed (List.replicate n (.get : ReceiverCall β)) = [] := by
  induction n with
  | zero => rfl
  | succ n ih => exact ih

/-- No answer is an error where the stream has none. -/
theorem ok_of_expected {s : List β} {k : ℕ} {calls : List (ReceiverCall β)}
    (h : ∀ e, (P.stream (s ++ fed calls)).2 ≠ .fail e) {answer : Except ε (Option α)}
    (hanswer : answer ∈ P.expected s k calls) : ∃ a, answer = .ok a := by
  induction calls generalizing s k with
  | nil => cases hanswer
  | cons call calls ih =>
      cases call with
      | feed t =>
          refine ih ?_ hanswer
          rwa [List.append_assoc]
      | get =>
          cases hget : (P.stream s).1[k]? with
          | none =>
              obtain ⟨answer', -, hok, hexpected⟩ := expected_get_of_none hget calls
              rw [hexpected] at hanswer
              rcases List.mem_cons.mp hanswer with rfl | hanswer
              · exact ⟨none, hok fun e he ↦ h e (P.stream_fail_mono _ he)⟩
              · exact ih h hanswer
          | some a =>
              rw [expected_get_of_some hget] at hanswer
              rcases List.mem_cons.mp hanswer with rfl | hanswer
              · exact ⟨some a, rfl⟩
              · exact ih h hanswer

end Incremental

/-- A receiver; it may have no room for a piece, and a request may have no result. -/
structure Receiver (σ : Type*) (β : Type u) (ε : Type v) (α : Type w) where
  feed : σ → List β → Option σ
  get : σ → Option (Except ε (Option α) × σ)

namespace Receiver

variable {σ : Type*} (M : Receiver σ β ε α)

/-- The answers to the requests among the calls, and the receiver behind them. -/
def run : σ → List (ReceiverCall β) → Option (List (Except ε (Option α)) × σ)
  | x, [] => some ([], x)
  | x, .feed t :: calls => (M.feed x t).bind fun x ↦ run x calls
  | x, .get :: calls =>
      (M.get x).bind fun (answer, x) ↦ (run x calls).map fun (answers, x) ↦ (answer :: answers, x)

/-- There is room for every piece. -/
def Fits : σ → List (ReceiverCall β) → Prop
  | _, [] => True
  | x, .feed t :: calls => ∃ x', M.feed x t = some x' ∧ Fits x' calls
  | x, .get :: calls => ∀ answer x', M.get x = some (answer, x') → Fits x' calls

instance decidableFits (x : σ) (calls : List (ReceiverCall β)) : Decidable (M.Fits x calls) :=
  match calls with
  | [] => isTrue trivial
  | .feed t :: calls =>
      letI : Decidable (∃ x', M.feed x t = some x' ∧ M.Fits x' calls) :=
        match h : M.feed x t with
        | none => isFalse (by simp)
        | some x' => @decidable_of_iff _ (M.Fits x' calls) (by simp) (decidableFits x' calls)
      inferInstanceAs (Decidable (∃ x', _))
  | .get :: calls =>
      letI : Decidable (∀ answer x', M.get x = some (answer, x') → M.Fits x' calls) :=
        match h : M.get x with
        | none => isTrue (by simp)
        | some (answer, x') =>
            @decidable_of_iff _ (M.Fits x' calls) (by simp) (decidableFits x' calls)
      inferInstanceAs (Decidable (∀ answer x', _))

variable {M}

theorem run_feed {x x' : σ} {t : List β} (hfeed : M.feed x t = some x')
    (calls : List (ReceiverCall β)) : M.run x (.feed t :: calls) = M.run x' calls := by
  rw [run, hfeed, Option.bind_some]

theorem run_get {x x' x'' : σ} {answer : Except ε (Option α)} {answers}
    {calls : List (ReceiverCall β)}
    (hget : M.get x = some (answer, x')) (hrun : M.run x' calls = some (answers, x'')) :
    M.run x (.get :: calls) = some (answer :: answers, x'') := by
  rw [run, hget, Option.bind_some]
  simp only
  rw [hrun]
  rfl

variable (M) in
/-- A receiver parses where it was left: `R` says for which bytes it stands.  Failures that are
not `defined` are left open. -/
structure Resumes (P : Incremental β ε α) (defined : ε → Prop) (R : σ → List β → Prop) :
    Prop where
  feed : ∀ {x x' s} t, R x s → M.feed x t = some x' → R x' (s ++ t)
  more : ∀ {x s}, R x s → P.parse s = .more → ∃ x', M.get x = some (.ok none, x') ∧ R x' s
  done : ∀ {x s a rest}, R x s → P.parse s = .done a rest →
    ∃ x', M.get x = some (.ok (some a), x') ∧ R x' rest
  fail : ∀ {x s e}, R x s → defined e → P.parse s = .fail e →
    ∃ x', M.get x = some (.error e, x') ∧ R x' s

variable {P : Incremental β ε α} {defined : ε → Prop} {R : σ → List β → Prop}

/-- A receiver that parses where it was left answers what the whole stream says, however the
stream was cut and whenever it is asked. -/
theorem Resumes.run (h : M.Resumes P defined R) {x : σ} {s : List β} {k : ℕ}
    (hk : k ≤ (P.stream s).1.length) (hx : R x (P.behind k s)) {calls : List (ReceiverCall β)}
    (hfits : M.Fits x calls)
    (hdefined : ∀ e, (P.stream (s ++ fed calls)).2 = .fail e → defined e) :
    ∃ x', M.run x calls = some (P.expected s k calls, x') := by
  induction calls generalizing x s k with
  | nil => exact ⟨x, rfl⟩
  | cons call calls ih =>
      cases call with
      | feed t =>
          obtain ⟨x', hfeed, hfits⟩ := hfits
          have hk' : k ≤ (P.stream (s ++ t)).1.length :=
            hk.trans (P.stream_append_fst s t).length_le
          have hx' : R x' (P.behind k (s ++ t)) := by
            rw [P.behind_append hk]
            exact h.feed t hx hfeed
          rw [run_feed hfeed]
          refine ih hk' hx' hfits ?_
          rwa [List.append_assoc]
      | get =>
          have hstream := P.stream_behind hk
          have htake : ((P.stream s).1.take k).length = k := by
            rw [List.length_take, min_eq_left hk]
          cases hs : P.parse (P.behind k s) with
          | more =>
              obtain ⟨x', hget, hx'⟩ := h.more hx hs
              obtain ⟨x'', hrun⟩ := ih hk hx' (hfits _ x' hget) hdefined
              rw [P.stream_of_more hs, List.append_nil] at hstream
              have hnone : (P.stream s).1[k]? = none := by
                rw [hstream, List.getElem?_eq_none]
                exact htake.le
              refine ⟨x'', ?_⟩
              rw [run_get hget hrun, Incremental.expected, hnone, hstream]
          | fail e =>
              rw [P.stream_of_fail hs, List.append_nil] at hstream
              have hfail : (P.stream s).2 = .fail e := congrArg Prod.snd hstream
              obtain ⟨x', hget, hx'⟩ := h.fail hx (hdefined e (P.stream_fail_mono _ hfail)) hs
              obtain ⟨x'', hrun⟩ := ih hk hx' (hfits _ x' hget) hdefined
              have hnone : (P.stream s).1[k]? = none := by
                rw [hstream, List.getElem?_eq_none]
                exact htake.le
              refine ⟨x'', ?_⟩
              rw [run_get hget hrun, Incremental.expected, hnone, hfail]
          | done a rest =>
              obtain ⟨x', hget, hx'⟩ := h.done hx hs
              have hrest := P.behind_succ hk hs
              rw [P.stream_of_done hs] at hstream
              have hsome : (P.stream s).1[k]? = some a := by
                rw [hstream, List.getElem?_append_right htake.le, htake, Nat.sub_self]
                rfl
              have hk' : k + 1 ≤ (P.stream s).1.length := (List.getElem?_eq_some_iff.mp hsome).1
              obtain ⟨x'', hrun⟩ := ih hk' (hrest ▸ hx') (hfits _ x' hget) hdefined
              refine ⟨x'', ?_⟩
              rw [run_get hget hrun, Incremental.expected, hsome]

end Receiver

end Slience
