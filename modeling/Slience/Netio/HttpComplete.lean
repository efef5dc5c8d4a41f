import Slience.Netio.HttpBounds
import Slience.Netio.HttpLength

/-!
# When a message is over

`_ParseBody` does nothing without bytes, so a message is found to be over with a byte
behind its empty line: with the last one of its body when that has the length that was
read, and never when there is no body.
-/

namespace Slience

namespace Http

open HttpRecvMsg

/-- Fed with the bytes of the request in any chunks the message is over, and with fewer of
them it is not. -/
structure Completes (line : StartLine) (q : Request) : Prop where
  whole : ∀ chunks : List Text, (∀ c ∈ chunks, c ≠ []) → chunks.flatten = q.text →
    ∃ m ks, feed line (new line) chunks = some (m, ks) ∧ m.flag = .over
  part : ∀ chunks : List Text, (∀ c ∈ chunks, c ≠ []) → chunks.flatten <+: q.text →
    chunks.flatten ≠ q.text →
    ∃ m ks, feed line (new line) chunks = some (m, ks) ∧ m.flag ≠ .over

/-- The request has a body of the length that is read for it; a body of one byte may also
be read for none. -/
def Request.BodyRead (q : Request) : Prop :=
  q.body ≠ [] ∧ (q.LengthFits ∨ q.body.length = 1 ∧ readLength q.lines = some 0)

/-- Bytes behind the empty line, as many as the lines announce. -/
def Reading.Over : Reading → Prop
  | body _ _ _ lines t => t ≠ [] ∧ bodyLen lines ≤ t.length
  | _ => False

theorem flag_fields_over_iff (line : StartLine) (r : Reading) :
    (r.fields line).flag = .over ↔ r.Over := by
  have hnodup := line.nodup
  simp only [List.nodup_cons, List.mem_cons, List.not_mem_nil, or_false, not_or] at hnodup
  obtain ⟨⟨-, -, -, -, h1⟩, ⟨-, -, -, h2⟩, ⟨-, -, h3⟩, -⟩ := hnodup
  cases r with
  | first t => exact ⟨fun h ↦ h1 h, False.elim⟩
  | second a t => exact ⟨fun h ↦ h2 h, False.elim⟩
  | third a b t => exact ⟨fun h ↦ h3 h, False.elim⟩
  | head a b c lines t => exact ⟨fun h ↦ ParseFlag.noConfusion h, False.elim⟩
  | body a b c lines t =>
      rw [Reading.fields, Reading.Over]
      by_cases ht : t = []
      · rw [if_pos ht]
        exact ⟨fun h ↦ ParseFlag.noConfusion h, fun h ↦ absurd ht h.1⟩
      · rw [if_neg ht]
        by_cases hzero : bodyLen lines = 0
        · rw [if_pos hzero]
          exact ⟨fun _ ↦ ⟨ht, by omega⟩, fun _ ↦ rfl⟩
        · rw [if_neg hzero]
          by_cases hlen : t.length < bodyLen lines
          · rw [if_pos hlen]
            exact ⟨fun h ↦ ParseFlag.noConfusion h, fun h ↦ absurd h.2 (by omega)⟩
          · rw [if_neg hlen]
            exact ⟨fun _ ↦ ⟨ht, by omega⟩, fun _ ↦ rfl⟩

theorem feed_over_iff {line : StartLine} {chunks : List Text}
    (hmeasured : (read chunks.flatten).Measured)
    (hsize : (read chunks.flatten).text.length < 2 ^ 31) :
    ∃ m ks, feed line (new line) chunks = some (m, ks) ∧
      (m.flag = .over ↔ (read chunks.flatten).Over) := by
  obtain ⟨m, ks, hfeed, hm, -⟩ := parse_chunks line chunks hmeasured.lengthOk hsize
  refine ⟨m, ks, hfeed, ?_⟩
  rw [← flag_fields_over_iff line, hm.fields_eq]

/-- A part of a request that goes beyond its empty line is its header and a part of its
body. -/
theorem body_of_isPrefix {q : Request} (hq : q.WellFormed) {s a b c t : Text}
    {lines : List Text} (h : s <+: q.text) (hread : read s = .body a b c lines t) :
    lines = q.lines ++ [[]] ∧ t <+: q.body ∧ (t = q.body → s = q.text) := by
  obtain ⟨x, hx⟩ := h
  have hwhole := read_request hq []
  rw [List.append_nil, List.append_nil, ← hx, read_append, hread] at hwhole
  simp only [Reading.extend, Reading.body.injEq] at hwhole
  obtain ⟨-, -, -, hlines, hbody⟩ := hwhole
  refine ⟨hlines, ⟨x, hbody⟩, ?_⟩
  rintro rfl
  have hnil : x = [] := by
    simpa using hbody
  rw [← hx, hnil, List.append_nil]

theorem text_ne_nil_of_request (q : Request) : q.text ≠ [] :=
  List.ne_nil_of_length_pos (length_text_pos q)

theorem read_take_body {q : Request} (hq : q.WellFormed) (k : ℕ) :
    read (q.header ++ q.body.take k) =
      .body q.method q.url q.version (q.lines ++ [[]]) (q.body.take k) := by
  rw [Request.header, List.append_assoc]
  exact read_message hq.method hq.url hq.version hq.lines

/-- In one chunk, too, a request is over when bytes behind the empty line were read. -/
theorem measured_of_completes {line : StartLine} {q : Request} (hq : q.WellFormed)
    (hsize : q.text.length < 2 ^ 31) (h : Completes line q) :
    ∃ n : ℕ, n ≤ q.body.length ∧ q.body ≠ [] ∧ readLength q.lines = some (n : ℤ) := by
  obtain ⟨m, ks, hfeed, hover⟩ := h.whole [q.text]
    (by simpa using text_ne_nil_of_request q) (by simp)
  have hsome : (parse line (new line) q.text).isSome := by
    rw [feed] at hfeed
    cases hparse : parse line (new line) q.text with
    | none =>
        rw [hparse] at hfeed
        cases hfeed
    | some p => rfl
  have hmeasured := (parse_fresh_isSome_iff (fresh_new line) hsize).mp hsome
  have hread := read_request hq []
  rw [List.append_nil, List.append_nil] at hread
  have hflat : [q.text].flatten = q.text := by simp
  obtain ⟨m', ks', hfeed', hiff⟩ := @feed_over_iff line [q.text] (by rwa [hflat])
    (lt_of_le_of_lt (text_read_le _) (by rwa [hflat]))
  rw [hfeed] at hfeed'
  cases hfeed'
  have hread' := hiff.mp hover
  rw [hflat, hread] at hread'
  rw [hread] at hmeasured
  obtain ⟨n, hn⟩ := hmeasured hread'.1
  have hlen := (lengthOk_of_readLength hn).2
  rw [readLength_concat] at hn
  refine ⟨n, ?_, hread'.1, hn⟩
  rw [← hlen]
  exact hread'.2

/-- A message is recognised as over with its last byte, and not before, exactly when it
has a body and its length is read. -/
theorem completes_iff (line : StartLine) {q : Request} (hq : q.WellFormed)
    (hsize : q.text.length < 2 ^ 31) : Completes line q ↔ q.BodyRead := by
  constructor
  · intro h
    obtain ⟨n, hle, hne, hn⟩ := measured_of_completes hq hsize h
    refine ⟨hne, ?_⟩
    have hpos := List.length_pos_of_ne_nil hne
    by_contra hnot
    rw [not_or, Request.LengthFits, hn, Option.some.injEq, Nat.cast_inj, Option.some.injEq]
      at hnot
    -- the first bytes of the body that are taken for all of it
    have hk : max n 1 < q.body.length := by omega
    have hread := read_take_body hq (max n 1)
    have hlen : (q.body.take (max n 1)).length = max n 1 := List.length_take_of_le hk.le
    have hconcat : readLength (q.lines ++ [[]]) = some (n : ℤ) := by
      rw [readLength_concat, hn]
    have hflat : [q.header ++ q.body.take (max n 1)].flatten =
        q.header ++ q.body.take (max n 1) := by simp
    have hpart : q.header ++ q.body.take (max n 1) <+: q.text := by
      rw [Request.text]
      exact (List.prefix_append_right_inj _).mpr (List.take_prefix _ _)
    have hneq : q.header ++ q.body.take (max n 1) ≠ q.text := by
      intro heq
      have hcount := congrArg List.length (List.append_cancel_left heq)
      omega
    have hnonempty : q.header ++ q.body.take (max n 1) ≠ [] := by
      apply List.append_ne_nil_of_right_ne_nil
      apply List.ne_nil_of_length_pos
      omega
    obtain ⟨m, ks, hfeed, hflag⟩ := h.part [q.header ++ q.body.take (max n 1)]
      (by simpa using hnonempty) (by rwa [hflat]) (by rwa [hflat])
    obtain ⟨m', ks', hfeed', hiff⟩ := @feed_over_iff line [q.header ++ q.body.take (max n 1)]
      (by rw [hflat, hread]; exact fun _ ↦ ⟨n, hconcat⟩)
      (lt_of_le_of_lt (text_read_le _)
        (by rw [hflat]; exact lt_of_le_of_lt hpart.length_le hsize))
    rw [hfeed] at hfeed'
    cases hfeed'
    apply hflag
    rw [hiff, hflat, hread]
    refine ⟨List.ne_nil_of_length_pos (by omega), ?_⟩
    rw [(lengthOk_of_readLength hconcat).2, hlen]
    exact le_max_left _ _
  · rintro ⟨hne, hbody⟩
    have hpos := List.length_pos_of_ne_nil hne
    obtain ⟨n, hn, hcase⟩ : ∃ n : ℕ, readLength (q.lines ++ [[]]) = some (n : ℤ) ∧
        (n = q.body.length ∨ n = 0 ∧ q.body.length = 1) := by
      rw [readLength_concat]
      rcases hbody with hfits | ⟨hone, hzero⟩
      · exact ⟨_, hfits, Or.inl rfl⟩
      · exact ⟨0, hzero, Or.inr ⟨rfl, hone⟩⟩
    have hlen := (lengthOk_of_readLength hn).2
    -- a part of the request is over exactly when it is all of it
    have hover : ∀ s, s <+: q.text → (read s).Measured ∧ ((read s).Over ↔ s = q.text) := by
      intro s hs
      cases hread : read s with
      | body a b c lines t =>
          obtain ⟨rfl, htake, hall⟩ := body_of_isPrefix hq hs hread
          refine ⟨fun _ ↦ ⟨n, hn⟩, ?_⟩
          constructor
          · rintro ⟨ht, hle⟩
            have htpos := List.length_pos_of_ne_nil ht
            apply hall
            apply htake.eq_of_length_le
            omega
          · rintro rfl
            have hwhole := read_request hq []
            rw [List.append_nil, List.append_nil, hread] at hwhole
            have hbodyEq : t = q.body := by
              simpa using (Reading.body.injEq .. ▸ hwhole).2.2.2.2
            subst hbodyEq
            refine ⟨hne, ?_⟩
            omega
      | _ =>
          refine ⟨trivial, False.elim, ?_⟩
          rintro rfl
          have hwhole := read_request hq []
          rw [List.append_nil, List.append_nil, hread] at hwhole
          cases hwhole
    have hfeed : ∀ chunks : List Text, chunks.flatten <+: q.text →
        ∃ m ks, feed line (new line) chunks = some (m, ks) ∧
          (m.flag = .over ↔ chunks.flatten = q.text) := by
      intro chunks hchunks
      obtain ⟨hmeasured, hiff⟩ := hover _ hchunks
      rw [← hiff]
      apply feed_over_iff hmeasured
      exact lt_of_le_of_lt (text_read_le _) (lt_of_le_of_lt hchunks.length_le hsize)
    constructor
    · intro chunks _ hchunks
      obtain ⟨m, ks, hm, hiff⟩ := hfeed chunks (by rw [hchunks])
      exact ⟨m, ks, hm, hiff.mpr hchunks⟩
    · intro chunks _ hchunks hneq
      obtain ⟨m, ks, hm, hiff⟩ := hfeed chunks hchunks
      exact ⟨m, ks, hm, fun h ↦ hneq (hiff.mp h)⟩

theorem completes_iff_bodyRequest : Completes .svrRecv bodyRequest :=
  (completes_iff .svrRecv wellFormed_bodyRequest (by decide)).mpr
    ⟨by decide, Or.inl (by rw [Request.LengthFits]; decide)⟩

/-- Without a body the last byte does not end the message. -/
theorem completes_fails :
    bareRequest.WellFormed ∧ Declares bareRequest.lines bareRequest.body.length ∧
      ¬ Completes .svrRecv bareRequest := by
  refine ⟨wellFormed_bareRequest, Or.inr ⟨rfl, by simp [bareRequest]⟩, fun h ↦ ?_⟩
  obtain ⟨n, -, hne, -⟩ := measured_of_completes wellFormed_bareRequest (by decide) h
  exact hne rfl

end Http

end Slience
