import Mathlib.Data.List.Basic
import Mathlib.Tactic

/-!
# Streams of length-prefixed frames

A frame is a header of fixed length that announces the size of the body behind
it.  `Format.parse` cuts a whole stream into bodies.  What it cannot cut is the
tail: an incomplete frame, or a frame whose header announces too much.
Parsing can be resumed: of a stream read so far only the incomplete tail is
needed to parse what follows.
-/

namespace Slience

variable {α : Type*}

structure Format (α : Type*) where
  hdrlen : ℕ
  hdrlen_pos : 0 < hdrlen
  /-- The size of the body that a header announces. -/
  size : List α → ℕ
  /-- The largest size that is accepted. -/
  limit : ℕ

/-- What is left of a stream behind its last complete frame. -/
inductive Tail (α : Type*)
  | incomplete (rest : List α)
  | oversized (rest : List α)

namespace Format

variable (F : Format α)

/-- The bodies of the complete frames at the front of a stream, and the tail. -/
def parse (s : List α) : List (List α) × Tail α :=
  if s.length < F.hdrlen then ([], .incomplete s)
  else if F.limit < F.size (s.take F.hdrlen) then ([], .oversized s)
  else if s.length < F.hdrlen + F.size (s.take F.hdrlen) then ([], .incomplete s)
  else
    let n := F.size (s.take F.hdrlen)
    let rest := parse (s.drop (F.hdrlen + n))
    ((s.drop F.hdrlen).take n :: rest.1, rest.2)
termination_by s.length
decreasing_by
  have hpos := F.hdrlen_pos
  rw [List.length_drop]
  omega

/-- `r` is the beginning of one acceptable frame, or nothing at all. -/
def Incomplete (r : List α) : Prop :=
  r.length < F.hdrlen ∨
    F.size (r.take F.hdrlen) ≤ F.limit ∧
      r.length < F.hdrlen + F.size (r.take F.hdrlen)

variable {F}

theorem parse_of_incomplete {r : List α} (h : F.Incomplete r) :
    F.parse r = ([], .incomplete r) := by
  rw [parse]
  rcases h with h | ⟨hlimit, h⟩
  · rw [if_pos h]
  · by_cases hshort : r.length < F.hdrlen
    · rw [if_pos hshort]
    · rw [if_neg hshort, if_neg (not_lt.mpr hlimit), if_pos h]

theorem incomplete_nil : F.Incomplete [] := Or.inl F.hdrlen_pos

theorem parse_nil : F.parse [] = ([], .incomplete []) :=
  parse_of_incomplete incomplete_nil

theorem parse_of_oversized {hdr s : List α} (hlen : hdr.length = F.hdrlen)
    (hsize : F.limit < F.size hdr) : F.parse (hdr ++ s) = ([], .oversized (hdr ++ s)) := by
  have htake : (hdr ++ s).take F.hdrlen = hdr := by rw [← hlen, List.take_left]
  rw [parse, htake, if_neg, if_pos hsize]
  rw [List.length_append]
  omega

theorem parse_frame {hdr body s : List α} (hlen : hdr.length = F.hdrlen)
    (hsize : F.size hdr = body.length) (hlimit : body.length ≤ F.limit) :
    F.parse (hdr ++ (body ++ s)) = (body :: (F.parse s).1, (F.parse s).2) := by
  have htake : (hdr ++ (body ++ s)).take F.hdrlen = hdr := by rw [← hlen, List.take_left]
  have hdrop : (hdr ++ (body ++ s)).drop F.hdrlen = body ++ s := by rw [← hlen, List.drop_left]
  have hrest : (hdr ++ (body ++ s)).drop (F.hdrlen + body.length) = s := by
    rw [← List.drop_drop, hdrop, List.drop_left]
  rw [parse, htake, hsize, if_neg, if_neg (not_lt.mpr hlimit), if_neg]
  · simp only [hdrop, hrest, List.take_left]
  · simp only [List.length_append]
    omega
  · simp only [List.length_append]
    omega

/-- Every stream is an incomplete frame, starts with a header that announces too
much, or starts with a complete frame. -/
theorem stream_cases (F : Format α) (s : List α) :
    F.Incomplete s ∨
      (∃ hdr t, s = hdr ++ t ∧ hdr.length = F.hdrlen ∧ F.limit < F.size hdr) ∨
      ∃ hdr body t, s = hdr ++ (body ++ t) ∧ hdr.length = F.hdrlen ∧
        F.size hdr = body.length ∧ body.length ≤ F.limit := by
  by_cases hshort : s.length < F.hdrlen
  · exact Or.inl (Or.inl hshort)
  · have hsplit : s = s.take F.hdrlen ++ s.drop F.hdrlen := (List.take_append_drop _ _).symm
    have hhdr : (s.take F.hdrlen).length = F.hdrlen := by
      rw [List.length_take]
      omega
    by_cases hlimit : F.limit < F.size (s.take F.hdrlen)
    · exact Or.inr (Or.inl ⟨_, _, hsplit, hhdr, hlimit⟩)
    · by_cases hbody : s.length < F.hdrlen + F.size (s.take F.hdrlen)
      · exact Or.inl (Or.inr ⟨not_lt.mp hlimit, hbody⟩)
      · have hblen : ((s.drop F.hdrlen).take (F.size (s.take F.hdrlen))).length =
            F.size (s.take F.hdrlen) := by
          rw [List.length_take, List.length_drop]
          omega
        refine Or.inr (Or.inr ⟨_, (s.drop F.hdrlen).take (F.size (s.take F.hdrlen)),
          (s.drop F.hdrlen).drop (F.size (s.take F.hdrlen)), ?_, hhdr, hblen.symm, ?_⟩)
        · rw [List.take_append_drop, List.take_append_drop]
        · rw [hblen]
          exact not_lt.mp hlimit

theorem stream_induction {P : List α → Prop}
    (incomplete : ∀ r, F.Incomplete r → P r)
    (oversized : ∀ hdr t, hdr.length = F.hdrlen → F.limit < F.size hdr → P (hdr ++ t))
    (frame : ∀ hdr body t, hdr.length = F.hdrlen → F.size hdr = body.length →
      body.length ≤ F.limit → P t → P (hdr ++ (body ++ t)))
    (s : List α) : P s := by
  induction hn : s.length using Nat.strong_induction_on generalizing s with
  | _ n ih =>
      rcases F.stream_cases s with h | ⟨hdr, t, rfl, hlen, hsize⟩ |
        ⟨hdr, body, t, rfl, hlen, hsize, hlimit⟩
      · exact incomplete s h
      · exact oversized hdr t hlen hsize
      · refine frame hdr body t hlen hsize hlimit (ih t.length ?_ t rfl)
        have hpos := F.hdrlen_pos
        rw [← hn, List.length_append, List.length_append]
        omega

theorem parse_append {s r : List α} (h : (F.parse s).2 = .incomplete r) (t : List α) :
    F.parse (s ++ t) = ((F.parse s).1 ++ (F.parse (r ++ t)).1, (F.parse (r ++ t)).2) := by
  induction s using stream_induction (F := F) with
  | incomplete s hs =>
      rw [parse_of_incomplete hs] at h ⊢
      cases h
      rfl
  | oversized hdr s hlen hsize =>
      rw [parse_of_oversized hlen hsize] at h
      cases h
  | frame hdr body s hlen hsize hlimit ih =>
      rw [parse_frame hlen hsize hlimit] at h ⊢
      rw [List.append_assoc, List.append_assoc, parse_frame hlen hsize hlimit, ih h,
        List.cons_append]

theorem parse_append_of_oversized {s r : List α} (h : (F.parse s).2 = .oversized r)
    (t : List α) : F.parse (s ++ t) = ((F.parse s).1, .oversized (r ++ t)) := by
  induction s using stream_induction (F := F) with
  | incomplete s hs =>
      rw [parse_of_incomplete hs] at h
      cases h
  | oversized hdr s hlen hsize =>
      rw [parse_of_oversized hlen hsize] at h ⊢
      cases h
      rw [List.append_assoc, parse_of_oversized hlen hsize]
  | frame hdr body s hlen hsize hlimit ih =>
      rw [parse_frame hlen hsize hlimit] at h ⊢
      rw [List.append_assoc, List.append_assoc, parse_frame hlen hsize hlimit, ih h]

theorem parse_flatMap {β : Type*} (hdr body : β → List α) (xs : List β)
    (hlen : ∀ x ∈ xs, (hdr x).length = F.hdrlen)
    (hsize : ∀ x ∈ xs, F.size (hdr x) = (body x).length)
    (hlimit : ∀ x ∈ xs, (body x).length ≤ F.limit) :
    F.parse (xs.flatMap fun x ↦ hdr x ++ body x) = (xs.map body, .incomplete []) := by
  induction xs with
  | nil => exact parse_nil
  | cons x xs ih =>
      rw [List.flatMap_cons, List.append_assoc,
        parse_frame (hlen x (by simp)) (hsize x (by simp)) (hlimit x (by simp)),
        ih (fun y hy ↦ hlen y (by simp [hy])) (fun y hy ↦ hsize y (by simp [hy]))
          (fun y hy ↦ hlimit y (by simp [hy])), List.map_cons]

end Format

end Slience
