import Slience.Lib.Run
import Slience.Netio.HttpDelivery

/-!
# What a call of `Parse` may read

A message gets any chunks, its owner asks for header lines in between and clears it when
he likes.  In every state reached so the next call stays within its chunk exactly when
it does not need the length of the body or the header lines give it one.  A negative
number, and one that does not fit the eleven bytes it is copied to, make it leave the
chunk.
-/

namespace Slience

open Http

namespace HttpRecvMsg

/-! ## The owner of a message -/

/-- What the owner of a message calls. -/
inductive RecvMove
  | parse (chunk : Text)
  | clear
  | nextHeader
  | initHeaderIter

/-- The length of a chunk is an `int`. -/
def receiver (line : StartLine) : System HttpRecvMsg RecvMove where
  enabled _
    | .parse chunk => chunk ≠ [] ∧ chunk.length < 2 ^ 31
    | _ => True
  step m
    | .parse chunk => (parse line m chunk).map Prod.fst
    | .clear => some (m.clear line)
    | .nextHeader => m.nextHeader.map Prod.snd
    | .initHeaderIter => some m.initHeaderIter

/-- The message stays shorter than `2 ^ 31` bytes. -/
def Small (m : HttpRecvMsg) : RecvMove → Prop
  | .parse chunk => m.flag ≠ .over → (read (m.buffer.contents ++ chunk)).text.length < 2 ^ 31
  | _ => True

/-- The call takes the first bytes of its chunk and reads no others. -/
def Within (line : StartLine) (m : HttpRecvMsg) (chunk : Text) : Prop :=
  ∃ m' c, parse line m chunk = some (m', c) ∧ c ≤ chunk.length ∧
    m'.buffer.contents = m.buffer.contents ++ chunk.take c

end HttpRecvMsg

/-- Where bytes behind the empty line were read, the header lines give a length. -/
def Http.Reading.Measured : Reading → Prop
  | .body _ _ _ lines t => t ≠ [] → ∃ n : ℕ, readLength lines = some (n : ℤ)
  | _ => True

/-- The message that the chunk goes on with gives a length when it is needed. -/
def HttpRecvMsg.Measured (m : HttpRecvMsg) (chunk : Text) : Prop :=
  m.flag ≠ .over → (read (m.buffer.contents ++ chunk)).Measured

namespace HttpRecvMsg

/-! ## The iterator over the header lines -/

def setIter (i : ℕ) (p : HttpRecvMsg × ℕ) : HttpRecvMsg × ℕ :=
  ({ p.1 with headerIter := i }, p.2)

/-- Setting the iterator before a call is setting it behind the call. -/
def IterFree (f : HttpRecvMsg → Option (HttpRecvMsg × ℕ)) : Prop :=
  ∀ ⦃m m' : HttpRecvMsg⦄ ⦃i : ℕ⦄, m' = { m with headerIter := i } →
    f m' = (f m).map (setIter i)

theorem append_iter (m : HttpRecvMsg) (i : ℕ) (buf : Text) (k : ℕ) :
    ({ m with headerIter := i }).append buf k =
      (m.append buf k).map ({ · with headerIter := i }) := by
  simp only [append]
  cases m.buffer.write buf (UInt32.ofNat k) <;> rfl

theorem append_assist_iter (m : HttpRecvMsg) (i : ℕ) (assist : Bool) (buf : Text) (k : ℕ) :
    ({ m with headerIter := i, assistflag := assist } : HttpRecvMsg).append buf k =
      (({ m with assistflag := assist } : HttpRecvMsg).append buf k).map
        ({ · with headerIter := i }) :=
  append_iter { m with assistflag := assist } i buf k

theorem noteCr_iter (m : HttpRecvMsg) (i : ℕ) :
    ({ m with headerIter := i }).noteCr = m.noteCr.map ({ · with headerIter := i }) := by
  simp only [noteCr]
  split
  · rfl
  · cases m.buffer.dataAt (m.buffer.sizeInt - 1) with
    | none => rfl
    | some last =>
        simp only [Option.bind_eq_bind, Option.bind_some, Option.pure_def, Option.map_some]
        split <;> rfl

theorem sizeBody_iter (m : HttpRecvMsg) (i : ℕ) :
    ({ m with headerIter := i }).sizeBody = m.sizeBody.map ({ · with headerIter := i }) := by
  simp only [sizeBody, checkContentLen]
  split
  · cases checkLines m.buffer m.headerVec with
    | none => rfl
    | some n =>
        simp only [Option.bind_eq_bind, Option.bind_some]
        split <;> rfl
  · rfl

theorem copyBody_iter (buf : Text) : IterFree (copyBody · buf) := by
  rintro m _ i rfl
  simp only [copyBody]
  split
  · rw [show ∀ flag : ParseFlag, ({ m with headerIter := i, flag := flag } : HttpRecvMsg) =
      { ({ m with flag := flag } : HttpRecvMsg) with headerIter := i } from fun _ ↦ rfl]
    rw [append_iter]
    cases append _ _ _ with
    | none => rfl
    | some m' =>
        simp only [Option.map_some, Option.bind_eq_bind, Option.bind_some]
        split <;> rfl
  · rfl

theorem parseBody_iter (buf : Text) : IterFree (parseBody · buf) := by
  rintro m _ i rfl
  simp only [parseBody]
  split
  · rfl
  · rw [sizeBody_iter]
    cases m.sizeBody with
    | none => rfl
    | some m' => exact copyBody_iter buf rfl

theorem iter_rest {res res' : Option (HttpRecvMsg × ℕ)} {i : ℕ} (k : ℕ)
    (h : res' = res.map (setIter i)) :
    (do
      let (m, n) ← res'
      return (m, k + n)) =
      (do
        let (m, n) ← res
        return (m, k + n)).map (setIter i) := by
  rw [h]
  cases res <;> rfl

theorem parseHead_iter (buf : Text) : IterFree (parseHead · buf) := by
  induction hlen : buf.length using Nat.strong_induction_on generalizing buf with
  | _ n ih =>
      rintro m _ i rfl
      dsimp only
      rw [parseHead, parseHead]
      dsimp only
      split
      · rfl
      · rename_i hbuf
        rw [append_assist_iter]
        cases append _ _ _ with
        | none => rfl
        | some m₁ =>
            simp only [Option.map_some, Option.bind_eq_bind, Option.bind_some]
            split
            · have hend : ({ m₁ with headerIter := i } : HttpRecvMsg).endLine =
                  { m₁.endLine with headerIter := i } := rfl
              rw [hend]
              generalize m₁.endLine = m₂
              dsimp only
              cases addInt m₂.header2.beg 2 with
              | none => rfl
              | some e =>
                  simp only [Option.bind_some]
                  by_cases hblank : e = m₂.header2.fin
                  · rw [if_pos hblank, if_pos hblank]
                    exact iter_rest _ (parseBody_iter _ rfl)
                  · rw [if_neg hblank, if_neg hblank]
                    refine iter_rest _ (ih _ ?_ _ rfl rfl)
                    rw [← hlen]
                    exact drop_seekCrlf_lt _ hbuf
            · rw [noteCr_iter]
              cases m₁.noteCr <;> rfl

theorem parseThird_iter (buf : Text) : IterFree (parseThird · buf) := by
  rintro m _ i rfl
  simp only [parseThird]
  split
  · rfl
  · rw [append_assist_iter]
    cases append _ _ _ with
    | none => rfl
    | some m₁ =>
        simp only [Option.map_some, Option.bind_eq_bind, Option.bind_some]
        split
        · cases addInt m₁.buffer.sizeInt (-2) with
          | none => rfl
          | some fin => exact iter_rest _ (parseHead_iter _ rfl)
        · rw [noteCr_iter]
          cases m₁.noteCr <;> rfl

theorem parseSecond_iter (line : StartLine) (buf : Text) :
    IterFree (parseSecond line · buf) := by
  rintro m _ i rfl
  simp only [parseSecond]
  split
  · rfl
  · rw [append_iter]
    cases append _ _ _ with
    | none => rfl
    | some m₁ =>
        simp only [Option.map_some, Option.bind_eq_bind, Option.bind_some]
        split
        · cases addInt m₁.buffer.sizeInt (-1) with
          | none => rfl
          | some fin => exact iter_rest _ (parseThird_iter _ rfl)
        · rfl

theorem parseFirst_iter (line : StartLine) (buf : Text) : IterFree (parseFirst line · buf) := by
  rintro m _ i rfl
  simp only [parseFirst]
  rw [append_iter]
  cases append _ _ _ with
  | none => rfl
  | some m₁ =>
      simp only [Option.map_some, Option.bind_eq_bind, Option.bind_some]
      split
      · cases addInt m₁.buffer.sizeInt (-1) with
        | none => rfl
        | some fin => exact iter_rest _ (parseSecond_iter line _ rfl)
      · rfl

theorem parse_iter (line : StartLine) (buf : Text) : IterFree (parse line · buf) := by
  rintro m _ i rfl
  simp only [parse]
  split
  · rfl
  · split
    · exact parseFirst_iter line buf rfl
    · split
      · exact parseSecond_iter line buf rfl
      · split
        · exact parseThird_iter buf rfl
        · split
          · exact parseHead_iter buf rfl
          · split
            · exact parseBody_iter buf rfl
            · rfl

end HttpRecvMsg

namespace Http

open HttpRecvMsg HttpBaseSocket

/-! ## One call -/

theorem Reading.Measured.lengthOk {r : Reading} (h : r.Measured) : r.LengthOk := by
  cases r with
  | body a b c lines t =>
      intro ht
      obtain ⟨n, hn⟩ := h ht
      exact (lengthOk_of_readLength hn).1
  | _ => trivial

theorem parse_unmeasured {line : StartLine} {m : HttpRecvMsg} {s chunk : Text}
    (hm : (read s).Shows line m) (hmeasured : (read s).Measured) (hflag : m.flag ≠ .over)
    (hlen : chunk.length < 2 ^ 31) (hsize : (read (s ++ chunk)).text.length < 2 ^ 31)
    (h : ¬ (read (s ++ chunk)).Measured) : parse line m chunk = none := by
  rw [read_append] at hsize h
  have hr : ∀ a b c lines t, read s = .body a b c lines t → t = [] := by
    intro a b c lines t hread
    by_contra ht
    rw [hread] at hmeasured h
    exact h fun _ ↦ hmeasured ht
  have harrive := parse_arrives hm (open_read s) hflag hsize hr
  cases hread : (read s).extend chunk with
  | body a b c lines t =>
      rw [hread] at harrive hsize h
      obtain ⟨m₁, k, hm₁, -, hk, hdrop, hres⟩ := harrive
      rw [Reading.Measured, Classical.not_imp] at h
      have hsmall : m₁.buffer.contents.length < 2 ^ 31 := by
        rw [hm₁.text_eq]
        simp only [Reading.text, List.length_append, List.take_nil, List.length_nil] at hsize ⊢
        omega
      have hrest : t.length < 2 ^ 31 := by
        rw [← hdrop, List.length_drop]
        omega
      rw [hres, parseBody_fault hm₁ hsmall h.1 hrest h.2]
      rfl
  | first t =>
      rw [hread] at h
      exact absurd trivial h
  | second a t =>
      rw [hread] at h
      exact absurd trivial h
  | third a b t =>
      rw [hread] at h
      exact absurd trivial h
  | head a b c lines t =>
      rw [hread] at h
      exact absurd trivial h

/-- What a message has read that is in state `m`, wherever its iterator stands. -/
structure Received (line : StartLine) (m : HttpRecvMsg) (s : Text) : Prop where
  shows : (read s).Shows line m.initHeaderIter
  measured : (read s).Measured
  all : m.flag ≠ .over → s = m.buffer.contents

theorem parse_initHeaderIter (line : StartLine) (m : HttpRecvMsg) (chunk : Text) :
    parse line m chunk = (parse line m.initHeaderIter chunk).map (setIter m.headerIter) :=
  parse_iter line chunk (m := m.initHeaderIter) rfl

theorem headerIter_fields (line : StartLine) (r : Reading) : (r.fields line).headerIter = 0 := by
  cases r with
  | body a b c lines t =>
      simp only [Reading.fields]
      split
      · rfl
      · split
        · rfl
        · split <;> rfl
  | _ => rfl

theorem Received.parse {line : StartLine} {m : HttpRecvMsg} {s chunk : Text}
    (hm : Received line m s) (hflag : m.flag ≠ .over)
    (hsize : (read (m.buffer.contents ++ chunk)).text.length < 2 ^ 31)
    (h : (read (m.buffer.contents ++ chunk)).Measured) :
    ∃ m' c, HttpRecvMsg.parse line m chunk = some (m', c) ∧ c ≤ chunk.length ∧
      m'.buffer.contents = m.buffer.contents ++ chunk.take c ∧
      Received line m' (m.buffer.contents ++ chunk) := by
  obtain ⟨hshows, -, hall⟩ := hm
  obtain rfl := hall hflag
  have hok := h.lengthOk
  rw [read_append] at hsize hok
  obtain ⟨m', c, hparse, hshows', hcontents, hc, hover⟩ :=
    parse_reaches hshows (open_read _) hflag hok hsize
  have hiter : m'.headerIter = 0 := by
    rw [hshows'.fields_eq]
    exact headerIter_fields _ _
  have hsame : m'.initHeaderIter = m' := by
    change { m' with headerIter := 0 } = m'
    rw [← hiter]
  rw [parse_initHeaderIter, hparse]
  refine ⟨_, c, rfl, hc, hcontents, ?_, h, ?_⟩
  · rw [read_append]
    rw [← hsame] at hshows'
    exact hshows'
  · intro hflag'
    have hcount := hover hflag'
    have htake : chunk.take c = chunk := by
      rw [hcount, List.take_length]
    exact (hcontents.trans (by rw [htake]; rfl)).symm

theorem Received.measured_of_parse {line : StartLine} {m : HttpRecvMsg} {s chunk : Text}
    {res : HttpRecvMsg × ℕ} (hm : Received line m s) (hlen : chunk.length < 2 ^ 31)
    (hsize : m.Small (.parse chunk)) (hparse : HttpRecvMsg.parse line m chunk = some res) :
    m.Measured chunk := by
  intro hflag
  by_contra h
  obtain rfl := hm.all hflag
  have hnone := parse_unmeasured hm.shows hm.measured hflag hlen (hsize hflag) h
  rw [parse_initHeaderIter, hnone] at hparse
  cases hparse

/-- The next call stays within its chunk exactly when it has the length it needs. -/
theorem Received.within_iff {line : StartLine} {m : HttpRecvMsg} {s chunk : Text}
    (hm : Received line m s) (hlen : chunk.length < 2 ^ 31)
    (hsize : m.Small (.parse chunk)) : Within line m chunk ↔ m.Measured chunk := by
  constructor
  · rintro ⟨m', c, hparse, -⟩
    exact hm.measured_of_parse hlen hsize hparse
  · intro h
    by_cases hflag : m.flag = .over
    · refine ⟨m, 0, ?_, Nat.zero_le _, by simp⟩
      rw [HttpRecvMsg.parse, if_pos hflag]
    · obtain ⟨m', c, hparse, hc, hcontents, -⟩ := hm.parse hflag (hsize hflag) (h hflag)
      exact ⟨m', c, hparse, hc, hcontents⟩

/-! ## Every reachable state -/

theorem received_blank (line : StartLine) {b : Buffer} (hb : b.contents = [])
    (hoffset : b.offset = 0) : Received line (blank line b) [] where
  shows := ⟨hb, hoffset, rfl⟩
  measured := trivial
  all _ := hb.symm

theorem Received.step {line : StartLine} {m m' : HttpRecvMsg} {a : RecvMove}
    (h : ∃ s, Received line m s) (henabled : (receiver line).enabled m a) (hsmall : m.Small a)
    (hstep : (receiver line).step m a = some m') : ∃ s, Received line m' s := by
  obtain ⟨s, hm⟩ := h
  cases a with
  | parse chunk =>
      obtain ⟨⟨m₁, c⟩, hparse, rfl⟩ := Option.map_eq_some_iff.mp hstep
      by_cases hflag : m.flag = .over
      · rw [HttpRecvMsg.parse, if_pos hflag] at hparse
        cases hparse
        exact ⟨s, hm⟩
      · have hmeasured := hm.measured_of_parse henabled.2 hsmall hparse
        obtain ⟨m₂, c₂, hparse₂, -, -, hm₂⟩ := hm.parse hflag (hsmall hflag) (hmeasured hflag)
        rw [hparse] at hparse₂
        cases hparse₂
        exact ⟨_, hm₂⟩
  | clear =>
      cases hstep
      exact ⟨[], received_blank line rfl rfl⟩
  | nextHeader =>
      obtain ⟨⟨text, m₁⟩, hnext, rfl⟩ := Option.map_eq_some_iff.mp hstep
      have hiter : ∃ i, m₁ = { m with headerIter := i } := by
        rw [nextHeader] at hnext
        split at hnext
        · cases hnext
          exact ⟨m.headerIter, rfl⟩
        · obtain ⟨p, -, hnext⟩ := Option.bind_eq_some_iff.mp hnext
          obtain ⟨size, -, hnext⟩ := Option.bind_eq_some_iff.mp hnext
          obtain ⟨len, -, hnext⟩ := Option.bind_eq_some_iff.mp hnext
          obtain ⟨t, -, hnext⟩ := Option.bind_eq_some_iff.mp hnext
          cases hnext
          exact ⟨_, rfl⟩
      obtain ⟨i, rfl⟩ := hiter
      exact ⟨s, hm.shows, hm.measured, hm.all⟩
  | initHeaderIter =>
      cases hstep
      exact ⟨s, hm.shows, hm.measured, hm.all⟩

theorem received_of_run {line : StartLine} {m : HttpRecvMsg} {moves : List RecvMove}
    (hallowed : (receiver line).Allowed Small (new line) moves)
    (hrun : (receiver line).run (new line) moves = some m) : ∃ s, Received line m s := by
  refine System.invariant_of_run (I := fun m ↦ ∃ s, Received line m s) ?_ ?_ hallowed hrun
  · intro m a m' hm henabled hsmall hstep
    exact Received.step hm henabled hsmall hstep
  · exact ⟨[], received_blank line rfl rfl⟩

/-! ## A chunk with several messages -/

theorem text_ne_nil {s : Text} (h : s ≠ []) : (read s).text ≠ [] := by
  cases hcut : cutAt sp s with
  | none => simpa only [read, hcut, Reading.text] using h
  | some p =>
      intro htext
      have hsplit := readSecond_text_append_rest p.1 p.2
      have hrest : (readSecond p.1 p.2).text = [] := by
        simpa only [read, hcut] using htext
      rw [hrest, List.nil_append] at hsplit
      cases hread : readSecond p.1 p.2 with
      | body a b c lines t =>
          rw [hread] at hrest
          simp [Reading.text, startText] at hrest
      | first t =>
          rw [hread] at hsplit
          simp [Reading.rest] at hsplit
      | second a t =>
          rw [hread] at hsplit
          simp [Reading.rest] at hsplit
      | third a b t =>
          rw [hread] at hsplit
          simp [Reading.rest] at hsplit
      | head a b c lines t =>
          rw [hread] at hsplit
          simp [Reading.rest] at hsplit

theorem length_rest_lt {s : Text} (h : s ≠ []) : (read s).rest.length < s.length := by
  have hsplit := congrArg List.length (text_append_rest s)
  have hpos := List.length_pos_of_ne_nil (text_ne_nil h)
  rw [List.length_append] at hsplit
  omega

/-- Each message of a chunk gives a length when it is needed. -/
def Cuttable (chunk : Text) : Prop :=
  if h : chunk = [] then True
  else
    have := length_rest_lt h
    (read chunk).Measured ∧ Cuttable (read chunk).rest
termination_by chunk.length

theorem cuttable_nil : Cuttable [] := by
  rw [Cuttable, dif_pos rfl]
  trivial

theorem cuttable_iff (chunk : Text) :
    Cuttable chunk ↔ (read chunk).Measured ∧ Cuttable (read chunk).rest := by
  by_cases h : chunk = []
  · subst h
    exact ⟨fun _ ↦ ⟨trivial, cuttable_nil⟩, fun _ ↦ cuttable_nil⟩
  · rw [Cuttable, dif_neg h]

/-- A cleared message stays within the chunk exactly when it has the length it needs. -/
theorem parse_fresh_isSome_iff {line : StartLine} {m : HttpRecvMsg} {chunk : Text}
    (hm : Fresh line m) (hlen : chunk.length < 2 ^ 31) :
    (parse line m chunk).isSome ↔ (read chunk).Measured := by
  have hflag : m.flag ≠ .over := by
    rw [hm.fields_eq]
    exact flag_new_ne_over line
  have hsize := lt_of_le_of_lt (text_read_le chunk) hlen
  constructor
  · intro hsome
    by_contra h
    rw [parse_unmeasured (s := []) hm trivial hflag hlen hsize h] at hsome
    cases hsome
  · intro h
    obtain ⟨d, k, hparse, -⟩ := (parse_fresh hm hlen).reaches h.lengthOk hsize
    rw [hparse]
    rfl

variable {line : StartLine} {onReceiveData : HttpRecvMsg → HttpRecvMsg}

theorem cutLoop_isSome_iff {rounds : ℕ} {m : HttpRecvMsg} {chunk : Text} (hm : Fresh line m)
    (hlen : chunk.length < 2 ^ 31) (hrounds : chunk.length < rounds) :
    (cutLoop line onReceiveData rounds m chunk).isSome ↔ Cuttable chunk := by
  induction rounds generalizing m chunk with
  | zero => omega
  | succ rounds ih =>
      rw [cuttable_iff, ← parse_fresh_isSome_iff hm hlen]
      cases hparse : parse line m chunk with
      | none => simp [cutLoop, hparse]
      | some p =>
          obtain ⟨d, k⟩ := p
          obtain ⟨hd, hcontents, hk⟩ := parse_shows hm hlen hparse
          have htaken : chunk.take k = (read chunk).text := hcontents.symm.trans hd.text_eq
          have hrest : chunk.drop k = (read chunk).rest := by
            have hsplit := text_append_rest chunk
            rw [← htaken] at hsplit
            exact List.append_cancel_left ((List.take_append_drop k chunk).trans hsplit.symm)
          rw [cutLoop_succ rounds hk hparse, ← hrest]
          by_cases hall : chunk.length ≤ k
          · rw [if_pos hall, List.drop_eq_nil_of_le hall]
            simp [cuttable_nil]
          · -- the rest of the chunk goes to a cleared message
            have hne : chunk ≠ [] := by
              rintro rfl
              exact hall (Nat.zero_le _)
            have hlt := length_rest_lt hne
            rw [← hrest] at hlt
            have hmore := ih (fresh_clear line (onReceiveData d)) (hlt.trans hlen)
              (lt_of_lt_of_le hlt (Nat.le_of_lt_succ hrounds))
            rw [if_neg hall, ← hmore]
            cases cutLoop line onReceiveData rounds ((onReceiveData d).clear line)
              (chunk.drop k) <;> simp

theorem receive_isSome_iff {m : HttpRecvMsg} {chunks : List Text} (hm : Fresh line m)
    (hchunks : ∀ c ∈ chunks, c.length < 2 ^ 31) :
    (receive line onReceiveData m chunks).isSome ↔ ∀ c ∈ chunks, Cuttable c := by
  induction chunks generalizing m with
  | nil => simp [receive]
  | cons c chunks ih =>
      have hc := hchunks c List.mem_cons_self
      have hfirst := @cutLoop_isSome_iff line onReceiveData _ m c hm hc (Nat.lt_succ_self _)
      rw [List.forall_mem_cons, ← hfirst, receive, cutMsgPack]
      cases hcut : cutLoop line onReceiveData (c.length + 1) m c with
      | none => simp
      | some p =>
          obtain ⟨ds, m'⟩ := p
          obtain ⟨-, hm'⟩ := cut_of_cutLoop hm hc hcut
          have hrest := ih hm' fun d hd ↦ hchunks d (List.mem_cons_of_mem c hd)
          rw [← hrest]
          simp only [Option.bind_eq_bind, Option.bind_some, Option.isSome_some, true_and]
          cases receive line onReceiveData m' chunks <;> rfl

/-- In every state a call stays within its chunk exactly when it has the length it needs,
and so does the loop over a chunk for each message in it. -/
theorem parse_within_iff (line : StartLine) (onReceiveData : HttpRecvMsg → HttpRecvMsg)
    {moves : List RecvMove} {m : HttpRecvMsg}
    (hallowed : (receiver line).Allowed Small (new line) moves)
    (hrun : (receiver line).run (new line) moves = some m) :
    (∀ chunk : Text, chunk ≠ [] → chunk.length < 2 ^ 31 → m.Small (.parse chunk) →
      (Within line m chunk ↔ m.Measured chunk)) ∧
    ∀ chunks : List Text, (∀ c ∈ chunks, c.length ≤ socketReadSize) →
      ((receive line onReceiveData (new line) chunks).isSome ↔ ∀ c ∈ chunks, Cuttable c) := by
  obtain ⟨s, hm⟩ := received_of_run hallowed hrun
  constructor
  · intro chunk _ hlen hsmall
    exact hm.within_iff hlen hsmall
  · intro chunks hchunks
    apply receive_isSome_iff (fresh_new line)
    intro c hc
    exact lt_of_le_of_lt (hchunks c hc) (by decide)

/-- A request with a body, behind a cleared one. -/
theorem parse_within_iff_bodyRequest :
    Within .svrRecv ((new .svrRecv).clear .svrRecv) bodyRequest.text ∧
      (receive .svrRecv id (new .svrRecv) [bodyRequest.text]).isSome := by
  have hread : read bodyRequest.text = .body [80] [47] [72] [constr ++ [49], []] [120] := by
    have h := read_request wellFormed_bodyRequest []
    rwa [List.append_nil, List.append_nil] at h
  have hmeasured : (read bodyRequest.text).Measured := by
    rw [hread]
    exact fun _ ↦ ⟨1, by decide⟩
  have hrest : (read bodyRequest.text).rest = [] := by
    rw [hread]
    decide
  have h := @parse_within_iff .svrRecv id [.clear] _ ⟨trivial, trivial, fun _ _ ↦ trivial⟩ rfl
  constructor
  · refine (h.1 bodyRequest.text (by decide) (by decide) ?_).mpr fun _ ↦ hmeasured
    exact fun _ ↦ lt_of_le_of_lt (text_read_le bodyRequest.text) (by decide)
  · rw [h.2 [bodyRequest.text] (by decide)]
    intro c hc
    rw [List.mem_singleton.mp hc, cuttable_iff]
    exact ⟨hmeasured, hrest ▸ cuttable_nil⟩

/-- `"P / H\r\nContent-Length: -5\r\n\r\nx"` -/
def negativeRequest : Request where
  method := [80]
  url := [47]
  version := [72]
  lines := [constr ++ [45, 53]]
  body := [120]

theorem wellFormed_negativeRequest : negativeRequest.WellFormed where
  method := by decide
  url := by decide
  version := by decide
  lines := by
    intro l hl
    cases List.mem_singleton.mp hl
    decide

/-- The first call of a new message leaves its chunk, and the loop with it. -/
theorem parse_within_fails :
    ¬ Within .svrRecv (new .svrRecv) negativeRequest.text ∧
      receive .svrRecv id (new .svrRecv) [negativeRequest.text] = none := by
  have hread : read negativeRequest.text =
      .body [80] [47] [72] [constr ++ [45, 53], []] [120] := by
    have h := read_request wellFormed_negativeRequest []
    rwa [List.append_nil, List.append_nil] at h
  have hlength : readLength [constr ++ [45, 53], []] = some (-5) := by decide
  have hnot : ¬ (read negativeRequest.text).Measured := by
    rw [hread]
    intro h
    obtain ⟨n, hn⟩ := h (by decide)
    rw [hlength, Option.some.injEq] at hn
    omega
  constructor
  · rintro ⟨m', c, hparse, -⟩
    apply hnot
    apply (parse_fresh_isSome_iff (fresh_new .svrRecv) (by decide)).mp
    rw [hparse]
    rfl
  · rw [← Option.not_isSome_iff_eq_none, receive_isSome_iff (fresh_new _) (by decide)]
    intro h
    have hcut := h _ (List.mem_singleton_self _)
    rw [cuttable_iff] at hcut
    exact hnot hcut.1

end Http

end Slience
