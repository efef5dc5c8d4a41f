import Slience.Netio.HttpSocket

/-!
# Which requests an HTTP socket delivers

Every call of `OnReceiveData` gets a message that was parsed from a cleared one.  A message
that tells a request has taken at least the bytes of that request, so when the calls
tell all requests of a stream, they have taken exactly their bytes, and no chunk
ends inside a request.
-/

namespace Slience

namespace Http

open HttpRecvMsg HttpBaseSocket

/-! ## Messages that tell a request -/

/-- The complete lines of an unfinished header are not empty. -/
def Reading.Unfinished : Reading → Prop
  | head _ _ _ lines _ => [] ∉ lines
  | _ => True

theorem unfinished_readHead {a b c : Text} {lines : List Text} {s : Text}
    (h : [] ∉ lines) : (readHead a b c lines s).Unfinished := by
  induction lines, s using readHead.induct with
  | case1 lines s hcut =>
      rw [readHead_of_none hcut]
      exact h
  | case2 lines s r hcut =>
      rw [readHead_of_some hcut, if_pos rfl]
      trivial
  | case3 lines s l r hcut hl ih =>
      rw [readHead_of_some hcut, if_neg hl]
      apply ih
      rw [List.mem_append, List.mem_singleton]
      rintro (hmem | heq)
      · exact h hmem
      · exact hl heq.symm

theorem unfinished_read (s : Text) : (read s).Unfinished := by
  unfold read
  split
  · trivial
  · unfold readSecond
    split
    · trivial
    · unfold readThird
      split
      · trivial
      · exact unfinished_readHead (by simp)

theorem Request.Told.unique {q : Request} {m : HttpRecvMsg} {a b c body : Text}
    {lines : List Text} (h : q.Told m) (h' : m.Tells a b c lines body) :
    a = q.method ∧ b = q.url ∧ c = q.version ∧ lines = q.lines ++ [[]] ∧ body = q.body :=
  ⟨Option.some_inj.mp (h'.first.symm.trans h.first),
    Option.some_inj.mp (h'.second.symm.trans h.second),
    Option.some_inj.mp (h'.third.symm.trans h.third),
    Option.some_inj.mp (h'.lines.symm.trans h.lines),
    Option.some_inj.mp (h'.body.symm.trans h.body)⟩

theorem lengthField_concat (lines : List Text) :
    lengthField (lines ++ [[]]) = lengthField lines := by
  induction lines with
  | nil => rfl
  | cons l lines ih => rw [List.cons_append, lengthField, lengthField, ih]

theorem readLength_concat (lines : List Text) : readLength (lines ++ [[]]) = readLength lines := by
  rw [readLength, readLength, lengthField_concat]

theorem length_take_eq {buf u : Text} {k : ℕ} (hk : k ≤ buf.length) (h : buf.take k = u) :
    k = u.length := by
  rw [← h, List.length_take]
  omega

/-- A call on a cleared message that stays in memory has read the length of the body when
there were bytes behind the empty line. -/
theorem readLength_of_parse {line : StartLine} {m d : HttpRecvMsg} {buf a b c t : Text}
    {lines : List Text} {k : ℕ} (hm : Fresh line m) (hbuf : buf.length < 2 ^ 31)
    (hparse : parse line m buf = some (d, k)) (hread : read buf = .body a b c lines t)
    (ht : t ≠ []) : ∃ n : ℕ, readLength lines = some (n : ℤ) := by
  by_contra hlines
  have harrive := parse_fresh hm hbuf
  rw [hparse, hread] at harrive
  obtain ⟨m₁, k₁, hm₁, hcontents, hk₁, hdrop, hres⟩ := harrive
  have hsize : m₁.buffer.contents.length < 2 ^ 31 := by
    rw [hcontents, List.nil_append, List.length_take]
    omega
  have hlen : t.length < 2 ^ 31 := by
    rw [← hdrop, List.length_drop]
    omega
  rw [parseBody_fault hm₁ hsize ht hlen hlines] at hres
  cases hres

theorem parse_shows {line : StartLine} {m d : HttpRecvMsg} {buf : Text} {k : ℕ}
    (hm : Fresh line m) (hbuf : buf.length < 2 ^ 31) (hparse : parse line m buf = some (d, k)) :
    (read buf).Shows line d ∧ d.buffer.contents = buf.take k ∧ k ≤ buf.length := by
  have hok : (read buf).LengthOk := by
    cases hread : read buf with
    | body a b c lines t =>
        intro ht
        obtain ⟨n, hn⟩ := readLength_of_parse hm hbuf hparse hread ht
        exact (lengthOk_of_readLength hn).1
    | _ => trivial
  have hsize := lt_of_le_of_lt (text_read_le buf) hbuf
  obtain ⟨d', k', heq, hd, hcontents, hk, -⟩ := (parse_fresh hm hbuf).reaches hok hsize
  rw [hparse] at heq
  cases heq
  exact ⟨hd, hcontents, hk⟩

/-- The call hands over a request that the chunk starts with, when its length is found. -/
theorem parse_request {line : StartLine} {m : HttpRecvMsg} {q : Request} {rest : Text}
    (hm : Fresh line m) (hq : q.WellFormed) (hbuf : (q.text ++ rest).length < 2 ^ 31)
    (hfits : q.body ≠ [] ∨ rest ≠ [] → q.LengthFits) :
    ∃ d, parse line m (q.text ++ rest) = some (d, q.text.length) ∧ q.Told d := by
  have harrive := parse_fresh hm hbuf
  have hsize := lt_of_le_of_lt (text_read_le (q.text ++ rest)) hbuf
  rw [read_request hq] at harrive hsize
  have hlen : q.body ++ rest ≠ [] → LengthOk (q.lines ++ [[]]) ∧
      bodyLen (q.lines ++ [[]]) = q.body.length := by
    intro hne
    apply lengthOk_of_readLength
    rw [readLength_concat]
    apply hfits
    by_contra hnil
    rw [not_or, not_not, not_not] at hnil
    exact hne (by rw [hnil.1, hnil.2, List.append_nil])
  have htake : (q.body ++ rest).take (bodyLen (q.lines ++ [[]])) = q.body := by
    by_cases hne : q.body ++ rest = []
    · rw [hne, List.take_nil, (List.append_eq_nil_iff.mp hne).1]
    · rw [(hlen hne).2, List.take_left]
  have hbody : bodyText (q.lines ++ [[]]) (q.body ++ rest) = q.body := by
    rw [bodyText, htake]
    split
    · rfl
    · rename_i hlt
      by_cases hne : q.body ++ rest = []
      · rw [(List.append_eq_nil_iff.mp hne).1]
      · rw [(hlen hne).2, List.length_append] at hlt
        omega
  obtain ⟨d, k, hparse, hd, hcontents, hk, -⟩ := harrive.reaches (fun hne ↦ (hlen hne).1) hsize
  have htold := hd.tells hsize
  rw [hbody] at htold
  have hcount : (q.text ++ rest).take k = q.text := by
    rw [hd.text_eq, Reading.text, htake, List.nil_append] at hcontents
    rw [← hcontents, Request.text, Request.header, List.append_assoc]
  exact ⟨d, by rw [hparse, length_take_eq hk hcount], htold⟩

theorem read_of_told {line : StartLine} {m d : HttpRecvMsg} {q : Request} {buf : Text} {k : ℕ}
    (hm : Fresh line m) (hbuf : buf.length < 2 ^ 31) (hparse : parse line m buf = some (d, k))
    (htold : q.Told d) :
    ∃ t, read buf = .body q.method q.url q.version (q.lines ++ [[]]) t ∧
      q.body = bodyText (q.lines ++ [[]]) t := by
  obtain ⟨hd, -, -⟩ := parse_shows hm hbuf hparse
  have hsize := lt_of_le_of_lt (text_read_le buf) hbuf
  have hlines : (read buf).lines = q.lines ++ [[]] :=
    Option.some_inj.mp ((hd.nextHeaders hsize).symm.trans htold.lines)
  have hunfinished := unfinished_read buf
  cases hread : read buf with
  | body a b c lines t =>
      rw [hread] at hd hsize
      obtain ⟨rfl, rfl, rfl, rfl, hbody⟩ := htold.unique (hd.tells hsize)
      exact ⟨t, rfl, hbody.symm⟩
  | head a b c lines t =>
      rw [hread] at hlines hunfinished
      rw [Reading.lines] at hlines
      exact absurd (hlines ▸ List.mem_append_right _ (List.mem_singleton_self _)) hunfinished
  | first t => simp [hread, Reading.lines] at hlines
  | second a t => simp [hread, Reading.lines] at hlines
  | third a b t => simp [hread, Reading.lines] at hlines

theorem length_le_of_told {line : StartLine} {m d : HttpRecvMsg} {q : Request} {buf : Text}
    {k : ℕ} (hm : Fresh line m) (hbuf : buf.length < 2 ^ 31)
    (hparse : parse line m buf = some (d, k)) (htold : q.Told d) :
    q.text.length ≤ d.buffer.contents.length := by
  obtain ⟨t, hread, hbody⟩ := read_of_told hm hbuf hparse htold
  obtain ⟨hd, -, -⟩ := parse_shows hm hbuf hparse
  have hle : q.body.length ≤ (t.take (bodyLen (q.lines ++ [[]]))).length := by
    rw [hbody, bodyText]
    split
    · exact le_rfl
    · exact Nat.zero_le _
  rw [hd.text_eq, hread, Reading.text, Request.text, Request.header]
  simp only [List.length_append]
  omega

/-- When it has taken just these bytes, and the request has a body or is not the last of its
chunk, the length was found. -/
theorem lengthFits_of_told {line : StartLine} {m d : HttpRecvMsg} {q : Request} {rest : Text}
    {k : ℕ} (hm : Fresh line m) (hq : q.WellFormed) (hbuf : (q.text ++ rest).length < 2 ^ 31)
    (hparse : parse line m (q.text ++ rest) = some (d, k)) (htold : q.Told d)
    (hd : d.buffer.contents = q.text) (hne : q.body ≠ [] ∨ rest ≠ []) : q.LengthFits := by
  have hread := read_request hq rest
  obtain ⟨t, hread', hbody⟩ := read_of_told hm hbuf hparse htold
  obtain ⟨hshows, -, -⟩ := parse_shows hm hbuf hparse
  rw [hread] at hread'
  cases hread'
  have ht : q.body ++ rest ≠ [] := by
    rcases hne with hne | hne
    · exact List.append_ne_nil_of_left_ne_nil hne rest
    · exact List.append_ne_nil_of_right_ne_nil q.body hne
  obtain ⟨n, hn⟩ := readLength_of_parse hm hbuf hparse hread ht
  obtain ⟨-, hbodyLen⟩ := lengthOk_of_readLength hn
  have hcount := congrArg List.length (hshows.text_eq.symm.trans hd)
  rw [hread, Reading.text, Request.text, Request.header, hbodyLen] at hcount
  simp only [List.length_append, List.length_take] at hcount
  rw [bodyText, hbodyLen] at hbody
  rw [readLength_concat] at hn
  rw [Request.LengthFits, hn]
  split at hbody
  · rename_i hle
    rw [List.length_append] at hle
    have heq : n = q.body.length := by omega
    rw [heq]
  · rename_i hlt
    rw [List.length_append] at hlt
    rw [hbody, List.length_nil] at hcount
    rw [hbody, List.nil_append] at ht
    have hpos := List.length_pos_of_ne_nil ht
    omega

/-! ## One chunk -/

/-- The messages that the calls of `Parse` leave one after the other for a chunk, each
starting from a cleared message. -/
inductive Cut (line : StartLine) : Text → List HttpRecvMsg → Prop
  | last {m d : HttpRecvMsg} {buf : Text} {k : ℕ} (hm : Fresh line m)
      (hparse : parse line m buf = some (d, k)) (hk : buf.length ≤ k) : Cut line buf [d]
  | more {m d : HttpRecvMsg} {buf : Text} {k : ℕ} {ds : List HttpRecvMsg} (hm : Fresh line m)
      (hparse : parse line m buf = some (d, k)) (hk : k < buf.length)
      (hrest : Cut line (buf.drop k) ds) : Cut line buf (d :: ds)

variable {line : StartLine} {onReceiveData : HttpRecvMsg → HttpRecvMsg}

theorem cutLoop_succ {m d : HttpRecvMsg} {buf : Text} {k : ℕ} (rounds : ℕ)
    (hk : k ≤ buf.length) (hparse : parse line m buf = some (d, k)) :
    cutLoop line onReceiveData (rounds + 1) m buf =
      if buf.length ≤ k then some ([d], (onReceiveData d).clear line)
      else do
        let (more, httpmsg) ←
          cutLoop line onReceiveData rounds ((onReceiveData d).clear line) (buf.drop k)
        return (d :: more, httpmsg) := by
  rw [cutLoop, hparse]
  simp only [Option.bind_eq_bind, Option.bind_some, if_pos (Or.inr hk), Nat.sub_eq_zero_iff_le]
  split
  · rfl
  · rfl

theorem cut_of_cutLoop {rounds : ℕ} {m m' : HttpRecvMsg} {buf : Text} {ds : List HttpRecvMsg}
    (hm : Fresh line m) (hbuf : buf.length < 2 ^ 31)
    (h : cutLoop line onReceiveData rounds m buf = some (ds, m')) :
    Cut line buf ds ∧ Fresh line m' := by
  induction rounds generalizing m buf ds with
  | zero => cases h
  | succ rounds ih =>
      cases hparse : parse line m buf with
      | none =>
          rw [cutLoop, hparse] at h
          cases h
      | some p =>
          obtain ⟨d, k⟩ := p
          obtain ⟨-, -, hk⟩ := parse_shows hm hbuf hparse
          rw [cutLoop_succ rounds hk hparse] at h
          split at h
          · rename_i hall
            cases h
            exact ⟨Cut.last hm hparse hall, fresh_clear _ _⟩
          · rename_i hall
            obtain ⟨⟨more, m''⟩, hmore, heq⟩ := Option.bind_eq_some_iff.mp h
            cases heq
            have hshort : (buf.drop k).length < 2 ^ 31 := by
              rw [List.length_drop]
              omega
            obtain ⟨hcut, hm''⟩ := ih (fresh_clear _ _) hshort hmore
            exact ⟨Cut.more hm hparse (not_le.mp hall) hcut, hm''⟩

theorem Cut.flatten {buf : Text} {ds : List HttpRecvMsg} (h : Cut line buf ds)
    (hbuf : buf.length < 2 ^ 31) : (ds.map (·.buffer.contents)).flatten = buf := by
  induction h with
  | last hm hparse hall =>
      obtain ⟨-, hd, -⟩ := parse_shows hm hbuf hparse
      simp only [List.map_cons, List.map_nil, List.flatten_cons, List.flatten_nil,
        List.append_nil, hd, List.take_of_length_le hall]
  | more hm hparse hk hrest ih =>
      obtain ⟨-, hd, -⟩ := parse_shows hm hbuf hparse
      rw [List.length_drop] at ih
      rw [List.map_cons, List.flatten_cons, ih (by omega), hd, List.take_append_drop]

theorem Cut.length_le {buf : Text} {ds : List HttpRecvMsg} {qs : List Request}
    (h : Cut line buf ds) (hbuf : buf.length < 2 ^ 31)
    (htold : List.Forall₂ Request.Told qs ds) :
    List.Forall₂ (fun x y ↦ x.length ≤ y.length) (qs.map Request.text)
      (ds.map (·.buffer.contents)) := by
  induction h generalizing qs with
  | last hm hparse hall =>
      cases htold with
      | cons hq hnil =>
          cases hnil
          exact List.Forall₂.cons (length_le_of_told hm hbuf hparse hq) List.Forall₂.nil
  | @more m d buf k ds hm hparse hk hrest ih =>
      cases htold with
      | cons hq hqs =>
          have hshort : (buf.drop k).length < 2 ^ 31 := by
            rw [List.length_drop]
            omega
          exact List.Forall₂.cons (length_le_of_told hm hbuf hparse hq) (ih hshort hqs)

/-- The requests of a chunk whose length must be found: those with a body, and all but the
last. -/
def LengthsFit (qs : List Request) : Prop :=
  ∀ pre q post, qs = pre ++ q :: post → q.body ≠ [] ∨ post ≠ [] → q.LengthFits

theorem lengthsFit_cons {q : Request} {qs : List Request} :
    LengthsFit (q :: qs) ↔ (q.body ≠ [] ∨ qs ≠ [] → q.LengthFits) ∧ LengthsFit qs := by
  constructor
  · intro h
    refine ⟨h [] q qs rfl, fun pre q' post hqs ↦ h (q :: pre) q' post ?_⟩
    rw [hqs, List.cons_append]
  · rintro ⟨hq, hqs⟩ pre q' post heq
    cases pre with
    | nil =>
        cases heq
        exact hq
    | cons q'' pre =>
        cases heq
        exact hqs pre q' post rfl

theorem lengthsFit_nil : LengthsFit [] := by
  intro pre q post h
  simp at h

theorem Cut.lengthsFit {buf : Text} {ds : List HttpRecvMsg} {qs : List Request}
    (h : Cut line buf ds) (hbuf : buf.length < 2 ^ 31) (hwf : ∀ q ∈ qs, q.WellFormed)
    (htold : List.Forall₂ Request.Told qs ds)
    (htexts : qs.map Request.text = ds.map (·.buffer.contents)) : LengthsFit qs := by
  induction h generalizing qs with
  | @last m d buf k hm hparse hall =>
      cases htold with
      | @cons q d qs ds hq hnil =>
          cases hnil
          obtain ⟨htext, -⟩ := List.cons_eq_cons.mp htexts
          obtain ⟨-, hd, -⟩ := parse_shows hm hbuf hparse
          have hwhole : buf = q.text ++ [] := by
            rw [htext]
            change buf = d.buffer.contents ++ []
            rw [hd, List.take_of_length_le hall, List.append_nil]
          rw [hwhole] at hparse hbuf
          rw [lengthsFit_cons]
          refine ⟨fun hne ↦ ?_, lengthsFit_nil⟩
          exact lengthFits_of_told hm (hwf q List.mem_cons_self) hbuf hparse hq htext.symm
            (hne.imp id (fun h ↦ absurd rfl h))
  | @more m d buf k ds hm hparse hk hrest ih =>
      cases htold with
      | @cons q d qs ds hq hqs =>
          obtain ⟨htext, htexts⟩ := List.cons_eq_cons.mp htexts
          obtain ⟨-, hd, -⟩ := parse_shows hm hbuf hparse
          have hshort : (buf.drop k).length < 2 ^ 31 := by
            rw [List.length_drop]
            omega
          have hne : buf.drop k ≠ [] := by
            apply List.ne_nil_of_length_pos
            rw [List.length_drop]
            omega
          have hwhole : buf = q.text ++ buf.drop k := by
            rw [htext]
            change buf = d.buffer.contents ++ buf.drop k
            rw [hd, List.take_append_drop]
          rw [hwhole] at hparse hbuf
          rw [lengthsFit_cons]
          refine ⟨fun _ ↦ lengthFits_of_told hm (hwf q List.mem_cons_self) hbuf hparse hq
            htext.symm (Or.inr hne), ?_⟩
          exact ih hshort (fun q' hq' ↦ hwf q' (List.mem_cons_of_mem q hq')) hqs htexts

theorem length_text_pos (q : Request) : 0 < q.text.length := by
  rw [Request.text, Request.header, List.length_append, List.length_append, length_startText]
  omega

theorem cutLoop_requests {rounds : ℕ} {m : HttpRecvMsg} {qs : List Request} (hm : Fresh line m)
    (hne : qs ≠ []) (hwf : ∀ q ∈ qs, q.WellFormed) (hfit : LengthsFit qs)
    (hbuf : (qs.map Request.text).flatten.length < 2 ^ 31) (hrounds : qs.length ≤ rounds) :
    ∃ ds m', cutLoop line onReceiveData rounds m (qs.map Request.text).flatten = some (ds, m') ∧
      List.Forall₂ Request.Told qs ds ∧ Fresh line m' := by
  induction qs generalizing rounds m with
  | nil => exact absurd rfl hne
  | cons q qs ih =>
      obtain ⟨rounds, rfl⟩ : ∃ r, rounds = r + 1 := ⟨rounds - 1, by
        rw [List.length_cons] at hrounds
        omega⟩
      rw [List.map_cons, List.flatten_cons] at hbuf ⊢
      rw [lengthsFit_cons] at hfit
      have hqs : (qs.map Request.text).flatten ≠ [] → qs ≠ [] := by
        rintro hrest rfl
        exact hrest rfl
      obtain ⟨d, hparse, htold⟩ := parse_request hm (hwf q List.mem_cons_self) hbuf
        (fun h ↦ hfit.1 (h.imp id hqs))
      have hk : q.text.length ≤ (q.text ++ (qs.map Request.text).flatten).length := by
        rw [List.length_append]
        omega
      rw [cutLoop_succ rounds hk hparse]
      cases qs with
      | nil =>
          rw [if_pos (by simp)]
          exact ⟨[d], _, rfl, List.Forall₂.cons htold List.Forall₂.nil, fresh_clear _ _⟩
      | cons q' qs =>
          have hpos := length_text_pos q'
          rw [List.length_append] at hbuf
          have hlong : ¬ (q.text ++ ((q' :: qs).map Request.text).flatten).length ≤
              q.text.length := by
            rw [List.length_append, List.map_cons, List.flatten_cons, List.length_append]
            omega
          obtain ⟨ds, m', hloop, hds, hm'⟩ := ih
            (fresh_clear line (onReceiveData d)) (List.cons_ne_nil _ _)
            (fun p hp ↦ hwf p (List.mem_cons_of_mem q hp)) hfit.2 (by omega)
            (Nat.le_of_succ_le_succ hrounds)
          rw [if_neg hlong, List.drop_left, hloop]
          exact ⟨d :: ds, m', rfl, List.Forall₂.cons htold hds, hm'⟩

/-! ## Every chunk -/

theorem cut_of_receive {m : HttpRecvMsg} {chunks : List Text} {dss : List (List HttpRecvMsg)}
    (hm : Fresh line m) (hchunks : ∀ c ∈ chunks, c.length < 2 ^ 31)
    (h : receive line onReceiveData m chunks = some dss) :
    List.Forall₂ (Cut line) chunks dss := by
  induction chunks generalizing m dss with
  | nil =>
      cases h
      exact List.Forall₂.nil
  | cons c chunks ih =>
      rw [receive] at h
      obtain ⟨⟨ds, m'⟩, hcut, h⟩ := Option.bind_eq_some_iff.mp h
      obtain ⟨more, hmore, h⟩ := Option.bind_eq_some_iff.mp h
      cases h
      obtain ⟨hds, hm'⟩ := cut_of_cutLoop hm (hchunks c List.mem_cons_self) hcut
      exact List.Forall₂.cons hds
        (ih hm' (fun c' hc' ↦ hchunks c' (List.mem_cons_of_mem c hc')) hmore)

/-- The requests were handed over one by one, in order. -/
def Delivers (line : StartLine) (onReceiveData : HttpRecvMsg → HttpRecvMsg)
    (requests : List Request) (chunks : List Text) : Prop :=
  ∃ dss, receive line onReceiveData (new line) chunks = some dss ∧
    List.Forall₂ Request.Told requests dss.flatten

/-- Each chunk consists of whole requests, and the lengths that matter are found. -/
def WholeRequests (requests : List Request) (chunks : List Text) : Prop :=
  ∃ groups : List (List Request), groups.flatten = requests ∧
    groups.map (fun g ↦ (g.map Request.text).flatten) = chunks ∧ ∀ g ∈ groups, LengthsFit g

theorem length_le_flatten_texts (qs : List Request) :
    qs.length ≤ (qs.map Request.text).flatten.length := by
  induction qs with
  | nil => exact le_rfl
  | cons q qs ih =>
      have hpos := length_text_pos q
      rw [List.map_cons, List.flatten_cons, List.length_append, List.length_cons]
      omega

theorem delivers_of_wholeRequests {m : HttpRecvMsg} {groups : List (List Request)}
    {chunks : List Text} (hm : Fresh line m) (hwf : ∀ q ∈ groups.flatten, q.WellFormed)
    (hchunks : ∀ c ∈ chunks, c ≠ [] ∧ c.length < 2 ^ 31)
    (hgroups : groups.map (fun g ↦ (g.map Request.text).flatten) = chunks)
    (hfit : ∀ g ∈ groups, LengthsFit g) :
    ∃ dss, receive line onReceiveData m chunks = some dss ∧
      List.Forall₂ Request.Told groups.flatten dss.flatten := by
  induction groups generalizing m chunks with
  | nil =>
      cases hgroups
      exact ⟨[], rfl, List.Forall₂.nil⟩
  | cons g groups ih =>
      subst hgroups
      rw [List.map_cons, List.forall_mem_cons] at hchunks
      obtain ⟨⟨hne, hlen⟩, hchunks⟩ := hchunks
      have hg : g ≠ [] := by
        rintro rfl
        exact hne rfl
      have hrounds := length_le_flatten_texts g
      obtain ⟨ds, m', hloop, hds, hm'⟩ : ∃ ds m', cutLoop line onReceiveData
          ((g.map Request.text).flatten.length + 1) m (g.map Request.text).flatten =
            some (ds, m') ∧ List.Forall₂ Request.Told g ds ∧ Fresh line m' :=
        cutLoop_requests hm hg
          (fun q hq ↦ hwf q (List.mem_flatten.mpr ⟨g, List.mem_cons_self, hq⟩))
          (hfit g List.mem_cons_self) hlen (Nat.le_succ_of_le hrounds)
      obtain ⟨dss, hreceive, hdss⟩ := ih hm'
        (fun q hq ↦ hwf q (by rw [List.flatten_cons]; exact List.mem_append_right g hq)) hchunks
        rfl (fun g' hg' ↦ hfit g' (List.mem_cons_of_mem g hg'))
      refine ⟨ds :: dss, ?_, ?_⟩
      · rw [List.map_cons, receive, cutMsgPack, hloop]
        simp only [Option.bind_eq_bind, Option.bind_some, hreceive]
        rfl
      · rw [List.flatten_cons, List.flatten_cons]
        exact List.rel_append hds hdss

theorem flatten_of_cuts {chunks : List Text} {dss : List (List HttpRecvMsg)}
    (hcuts : List.Forall₂ (Cut line) chunks dss) (hchunks : ∀ c ∈ chunks, c.length < 2 ^ 31) :
    (dss.flatten.map (·.buffer.contents)).flatten = chunks.flatten := by
  induction hcuts with
  | nil => rfl
  | cons hcut _ ih =>
      rw [List.forall_mem_cons] at hchunks
      rw [List.flatten_cons, List.map_append, List.flatten_append, hcut.flatten hchunks.1,
        ih hchunks.2, List.flatten_cons]

theorem length_le_of_cuts {chunks : List Text} {dss : List (List HttpRecvMsg)}
    {groups : List (List Request)} (hcuts : List.Forall₂ (Cut line) chunks dss)
    (hchunks : ∀ c ∈ chunks, c.length < 2 ^ 31)
    (htold : List.Forall₂ (List.Forall₂ Request.Told) groups dss) :
    List.Forall₂ (fun x y ↦ x.length ≤ y.length) (groups.flatten.map Request.text)
      (dss.flatten.map (·.buffer.contents)) := by
  induction hcuts generalizing groups with
  | nil =>
      cases htold
      exact List.Forall₂.nil
  | cons hcut _ ih =>
      rw [List.forall_mem_cons] at hchunks
      cases htold with
      | cons hg hgroups =>
          rw [List.flatten_cons, List.flatten_cons, List.map_append, List.map_append]
          exact List.rel_append (hcut.length_le hchunks.1 hg) (ih hchunks.2 hgroups)

/-- Calls that have taken just the bytes of the requests cut every chunk between two
requests. -/
theorem whole_of_cuts {chunks : List Text} {dss : List (List HttpRecvMsg)}
    {groups : List (List Request)} (hcuts : List.Forall₂ (Cut line) chunks dss)
    (hchunks : ∀ c ∈ chunks, c.length < 2 ^ 31) (hwf : ∀ q ∈ groups.flatten, q.WellFormed)
    (htold : List.Forall₂ (List.Forall₂ Request.Told) groups dss)
    (htexts : groups.flatten.map Request.text = dss.flatten.map (·.buffer.contents)) :
    groups.map (fun g ↦ (g.map Request.text).flatten) = chunks ∧ ∀ g ∈ groups, LengthsFit g := by
  induction hcuts generalizing groups with
  | nil =>
      cases htold
      simp
  | cons hcut _ ih =>
      rw [List.forall_mem_cons] at hchunks
      cases htold with
      | cons hg hgroups =>
          rw [List.flatten_cons, List.flatten_cons, List.map_append, List.map_append] at htexts
          obtain ⟨hhead, hrest⟩ := List.append_inj htexts (by
            rw [List.length_map, List.length_map, hg.length_eq])
          obtain ⟨hmap, hfit⟩ := ih hchunks.2
            (fun q hq ↦ hwf q (by rw [List.flatten_cons]; exact List.mem_append_right _ hq))
            hgroups hrest
          refine ⟨?_, List.forall_mem_cons.mpr ⟨?_, hfit⟩⟩
          · rw [List.map_cons, hmap, hhead, hcut.flatten hchunks.1]
          · exact hcut.lengthsFit hchunks.1
              (fun q hq ↦ hwf q (by rw [List.flatten_cons]; exact List.mem_append_left _ hq))
              hg hhead

theorem wholeRequests_of_delivers {requests : List Request} {chunks : List Text}
    (hwf : ∀ q ∈ requests, q.WellFormed) (hchunks : ∀ c ∈ chunks, c.length < 2 ^ 31)
    (hcut : chunks.flatten = (requests.map Request.text).flatten)
    (h : Delivers line onReceiveData requests chunks) : WholeRequests requests chunks := by
  obtain ⟨dss, hreceive, htold⟩ := h
  have hcuts := cut_of_receive (fresh_new line) hchunks hreceive
  obtain ⟨groups, rfl, hgroups⟩ := forall₂_flatten htold
  have htexts := eq_of_flatten_eq (length_le_of_cuts hcuts hchunks hgroups)
    (by rw [flatten_of_cuts hcuts hchunks, hcut])
  obtain ⟨hmap, hfit⟩ := whole_of_cuts hcuts hchunks hwf hgroups htexts
  exact ⟨groups, rfl, hmap, hfit⟩

/-- The requests of a stream are handed over one by one exactly when no chunk ends inside
a request, and the lengths that matter are found. -/
theorem delivers_iff (onReceiveData : HttpRecvMsg → HttpRecvMsg) (requests : List Request)
    (chunks : List Text) (hwf : ∀ q ∈ requests, q.WellFormed)
    (hchunks : ∀ c ∈ chunks, c ≠ [] ∧ c.length ≤ socketReadSize)
    (hcut : chunks.flatten = (requests.map Request.text).flatten) :
    Delivers .svrRecv onReceiveData requests chunks ↔ WholeRequests requests chunks := by
  have hsmall : ∀ c ∈ chunks, c ≠ [] ∧ c.length < 2 ^ 31 := fun c hc ↦
    ⟨(hchunks c hc).1, lt_of_le_of_lt (hchunks c hc).2 (by decide)⟩
  constructor
  · exact wholeRequests_of_delivers hwf (fun c hc ↦ (hsmall c hc).2) hcut
  · rintro ⟨groups, rfl, hgroups, hfit⟩
    exact delivers_of_wholeRequests (fresh_new _) hwf hsmall hgroups hfit

/-- `"G / H\r\n\r\n"` -/
def bareRequest : Request where
  method := [71]
  url := [47]
  version := [72]
  lines := []
  body := []

/-- `"P / H\r\nContent-Length: 1\r\n\r\nx"` -/
def bodyRequest : Request where
  method := [80]
  url := [47]
  version := [72]
  lines := [constr ++ [49]]
  body := [120]

theorem wellFormed_bareRequest : bareRequest.WellFormed where
  method := by decide
  url := by decide
  version := by decide
  lines := by simp [bareRequest]

theorem wellFormed_bodyRequest : bodyRequest.WellFormed where
  method := by decide
  url := by decide
  version := by decide
  lines := by
    intro l hl
    cases List.mem_singleton.mp hl
    decide

/-- Two requests in one chunk. -/
theorem delivers_iff_oneChunk :
    Delivers .svrRecv id [bareRequest, bodyRequest] [bareRequest.text ++ bodyRequest.text] := by
  refine (delivers_iff id [bareRequest, bodyRequest] [bareRequest.text ++ bodyRequest.text]
    ?_ ?_ ?_).mpr ⟨[[bareRequest, bodyRequest]], rfl, rfl, ?_⟩
  · simp [wellFormed_bareRequest, wellFormed_bodyRequest]
  · decide
  · rfl
  · intro g hg
    cases List.mem_singleton.mp hg
    rw [lengthsFit_cons, lengthsFit_cons]
    refine ⟨fun _ ↦ ?_, fun _ ↦ ?_, lengthsFit_nil⟩
    · rw [Request.LengthFits]
      decide
    · rw [Request.LengthFits]
      decide

/-- One request in two chunks. -/
theorem delivers_fails :
    bareRequest.WellFormed ∧ [[71], bareRequest.text.tail].flatten = bareRequest.text ∧
      ¬ Delivers .svrRecv id [bareRequest] [[71], bareRequest.text.tail] := by
  refine ⟨wellFormed_bareRequest, by decide, fun h ↦ ?_⟩
  have hwf : ∀ q ∈ [bareRequest], q.WellFormed := by simp [wellFormed_bareRequest]
  obtain ⟨groups, hflat, hmap, -⟩ :=
    wholeRequests_of_delivers hwf (by decide) (by decide) h
  obtain ⟨g, groups, rfl⟩ : ∃ g gs, groups = g :: gs := by
    cases groups with
    | nil => cases hmap
    | cons g gs => exact ⟨g, gs, rfl⟩
  rw [List.map_cons] at hmap
  obtain ⟨hfirst, -⟩ := List.cons_eq_cons.mp hmap
  rw [List.flatten_cons] at hflat
  cases g with
  | nil => cases hfirst
  | cons q g =>
      rw [List.cons_append] at hflat
      obtain ⟨rfl, -⟩ := List.cons_eq_cons.mp hflat
      have hlen := congrArg List.length hfirst
      rw [List.map_cons, List.flatten_cons, List.length_append,
        show bareRequest.text.length = 9 by decide, List.length_singleton] at hlen
      omega

end Http

end Slience
