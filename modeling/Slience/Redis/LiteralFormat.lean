import Mathlib.Data.List.TakeWhile
import Slience.Redis.Format

/-!
# Formats that are made of values

A format that was put together from texts and spaces, and is read without any arguments.  Every
argument that comes out is a nonempty row of bytes other than NUL and space, and each `%%` makes
the arguments one byte shorter than the format.  So they are the texts again exactly if these are
such rows and no conversion starts in the format.
-/

namespace Slience

namespace Redis

/-- What an argument of a command looks like that was read off a format. -/
def IsWord (t : Text) : Prop := t ≠ [] ∧ 0 ∉ t ∧ 32 ∉ t

instance (t : Text) : Decidable (IsWord t) := inferInstanceAs (Decidable (_ ∧ _))

/-- The texts `ws` one after the other, with spaces between any two of them and perhaps at the
end. -/
inductive Spells : List Text → Text → Prop
  | nil (n : ℕ) : Spells [] (List.replicate n 32)
  | cons (w : Text) (n : ℕ) {ws : List Text} {f : Text} (hn : ws ≠ [] → n ≠ 0)
      (hf : Spells ws f) : Spells (w :: ws) (w ++ (List.replicate n 32 ++ f))

def countLetters (f : Text) : ℕ := f.countP (· ≠ 32)

/-- The bytes in the arguments so far. -/
def FormatState.weight (s : FormatState) : ℕ := s.curargv.flatten.length + s.curarg.length

/-- A state of the loop over a format without NUL. -/
structure FormatState.Tidy (s : FormatState) : Prop where
  touched : s.touched = true ↔ s.curarg ≠ []
  curarg : 0 ∉ s.curarg ∧ 32 ∉ s.curarg
  curargv : ∀ a ∈ s.curargv, IsWord a

variable {printf : Text → VaArg → Text} {s : FormatState} {f : Text} {ws : List Text}

namespace FormatState

theorem Tidy.flush (h : s.Tidy) : s.flush.Tidy := by
  unfold FormatState.flush
  split
  · rename_i htouched
    refine ⟨by simp, by simp, ?_⟩
    intro a ha
    rcases List.mem_append.mp ha with ha | ha
    · exact h.curargv a ha
    · cases List.mem_singleton.mp ha
      exact ⟨h.touched.mp htouched, h.curarg⟩
  · exact h

theorem Tidy.append (h : s.Tidy) {b : Byte} (hb : b ≠ 0 ∧ b ≠ 32) (ap : List VaArg) :
    (s.append [b] ap).Tidy := by
  refine ⟨by simp [FormatState.append], ?_, h.curargv⟩
  have hcur := h.curarg
  simp only [FormatState.append, List.mem_append, List.mem_singleton, not_or]
  exact ⟨⟨hcur.1, hb.1.symm⟩, hcur.2, hb.2.symm⟩

theorem weight_flush (s : FormatState) : s.flush.weight = s.weight := by
  unfold FormatState.flush
  split
  · simp [weight]
  · rfl

@[simp] theorem weight_append (b : Byte) (ap : List VaArg) :
    (s.append [b] ap).weight = s.weight + 1 := by
  simp [weight, FormatState.append, Nat.add_assoc]

end FormatState

theorem countLetters_cons (b : Byte) (f : Text) :
    countLetters (b :: f) = countLetters f + if b = 32 then 0 else 1 := by
  simp [countLetters, List.countP_cons]

theorem notMem_dropLast_cons {b : Byte} (hb : b ≠ 37) (h : 37 ∉ f.dropLast) :
    37 ∉ (b :: f).dropLast := by
  cases f with
  | nil => simp
  | cons c f =>
      rw [List.dropLast_cons_cons, List.mem_cons, not_or]
      exact ⟨hb.symm, h⟩

/-- What comes out of the loop without arguments has no more bytes than went in, and as many only
where no `%%` was read. -/
theorem formatLoop_account {k : ℕ} {argv : List Text} {ap : List VaArg} (hf : 0 ∉ f)
    (hs : s.Tidy) (hap : s.ap = []) (h : formatLoop printf f k s = some (some argv, ap)) :
    (∀ a ∈ argv, IsWord a) ∧ argv.flatten.length ≤ s.weight + countLetters (f.drop k) ∧
      (argv.flatten.length = s.weight + countLetters (f.drop k) → 37 ∉ (f.drop k).dropLast) := by
  induction f generalizing k s with
  | nil =>
      cases k with
      | succ k => cases h
      | zero =>
          rw [formatLoop, Option.some.injEq, Prod.mk.injEq, Option.some.injEq] at h
          obtain ⟨rfl, -⟩ := h
          have hweight := s.weight_flush
          refine ⟨hs.flush.curargv, ?_, by simp⟩
          rw [← hweight, FormatState.weight]
          omega
  | cons c rest ih =>
      rw [List.mem_cons, not_or] at hf
      cases k with
      | succ k => exact ih hf.2 hs hap h
      | zero =>
          rw [List.drop_zero, countLetters_cons]
          by_cases hlit : c ≠ 37 ∨ rest = []
          · by_cases hc : c = 32
            · subst hc
              rw [formatLoop_space] at h
              obtain ⟨hwords, hle, hno⟩ := ih hf.2 hs.flush (by rw [FormatState.ap_flush, hap]) h
              rw [s.weight_flush, List.drop_zero] at hle hno
              refine ⟨hwords, by simpa using hle, ?_⟩
              intro heq
              exact notMem_dropLast_cons (by decide) (hno (by simpa using heq))
            · rw [formatLoop_byte hc hlit] at h
              obtain ⟨hwords, hle, hno⟩ := ih hf.2 (hs.append ⟨Ne.symm hf.1, hc⟩ s.ap) hap h
              rw [FormatState.weight_append, List.drop_zero] at hle hno
              rw [if_neg hc]
              refine ⟨hwords, by omega, ?_⟩
              intro heq
              rcases hlit with hne | rfl
              · exact notMem_dropLast_cons hne (hno (by omega))
              · simp
          · obtain ⟨rfl, hrest⟩ := not_or.mp hlit |>.imp_left not_not.mp
            rw [formatLoop_percent hrest, hap] at h
            cases hconv : conversion rest with
            | none =>
                rw [hconv] at h
                cases h
            | some r =>
                obtain ⟨item, skip⟩ := r
                rw [hconv] at h
                dsimp only at h
                cases htake : item.take printf [] with
                | none =>
                    rw [htake] at h
                    cases h
                | some r =>
                    rw [htake] at h
                    obtain ⟨rfl, rfl, rfl, rest', rfl⟩ := conversion_of_take_nil hconv htake
                    obtain ⟨hwords, hle, -⟩ := ih hf.2 (hs.append (by decide) []) rfl h
                    rw [FormatState.weight_append, List.drop_one, List.tail_cons] at hle
                    rw [countLetters_cons, if_neg (show (37 : Byte) ≠ 32 by decide)]
                    exact ⟨hwords, by omega, fun heq ↦ by omega⟩

/-! ## Formats without conversions -/

/-- A word whose bytes start no conversion. -/
theorem formatLoop_word {w : Text} (hne : w ≠ []) (h32 : 32 ∉ w) (rest : Text)
    (hlit : ∀ u v, w = u ++ 37 :: v → v ++ rest = []) (s : FormatState) :
    formatLoop printf (w ++ rest) 0 s = formatLoop printf rest 0 (s.append w s.ap) := by
  induction w generalizing s with
  | nil => exact absurd rfl hne
  | cons b w ih =>
      rw [List.mem_cons, not_or] at h32
      have hb : b ≠ 37 ∨ w ++ rest = [] := by
        by_cases hb : b = 37
        · exact Or.inr (hlit [] w (by rw [hb]; rfl))
        · exact Or.inl hb
      rw [List.cons_append, formatLoop_byte (Ne.symm h32.1) hb]
      cases w with
      | nil => rfl
      | cons d w =>
          rw [ih (List.cons_ne_nil d w) h32.2 fun u v h ↦ hlit (b :: u) v (by rw [h]; rfl)]
          simp [FormatState.append]

theorem eq_nil_of_notMem_dropLast {u v : Text} (h : 37 ∉ (u ++ 37 :: v).dropLast) : v = [] := by
  by_contra hne
  rw [List.dropLast_append_of_ne_nil (List.cons_ne_nil _ _), List.dropLast_cons_of_ne_nil hne]
    at h
  exact h (by simp)

theorem formatLoop_spaces (n : ℕ) (rest : Text) (hs : s.touched = false) :
    formatLoop printf (List.replicate n 32 ++ rest) 0 s = formatLoop printf rest 0 s := by
  have hflush : s.flush = s := by
    rw [FormatState.flush, hs]
    rfl
  induction n with
  | zero => rfl
  | succ n ih => rw [List.replicate_succ, List.cons_append, formatLoop_space, hflush, ih]

/-- A word ends at the end of the format or at a space. -/
theorem formatLoop_flush (hrest : f = [] ∨ ∃ rest, f = 32 :: rest) (s : FormatState) :
    formatLoop printf f 0 s = formatLoop printf f 0 s.flush := by
  rcases hrest with rfl | ⟨rest, rfl⟩
  · rw [formatLoop, formatLoop, s.flush_flush, FormatState.ap_flush]
  · rw [formatLoop_space, formatLoop_space, s.flush_flush]

theorem formatLoop_spells (h : Spells ws f) (hwords : ∀ w ∈ ws, IsWord w)
    (hlit : 37 ∉ f.dropLast) (argv : List Text) (ap : List VaArg) :
    formatLoop printf f 0 ⟨[], false, argv, ap⟩ = some (some (argv ++ ws), ap) := by
  induction h generalizing argv with
  | nil n =>
      have hend : formatLoop printf (List.replicate n 32 ++ []) 0 ⟨[], false, argv, ap⟩ =
          formatLoop printf [] 0 ⟨[], false, argv, ap⟩ := formatLoop_spaces n [] rfl
      rw [List.append_nil] at hend
      rw [hend, List.append_nil]
      rfl
  | @cons w n ws f hn hf ih =>
      have hw := hwords w List.mem_cons_self
      have hrest : List.replicate n 32 ++ f = [] ∨
          ∃ rest, List.replicate n 32 ++ f = 32 :: rest := by
        cases n with
        | succ n => exact Or.inr ⟨_, rfl⟩
        | zero =>
            have hnil : ws = [] := by
              by_contra hne
              exact hn hne rfl
            subst hnil
            cases hf with
            | nil m =>
                cases m with
                | zero => exact Or.inl rfl
                | succ m => exact Or.inr ⟨_, rfl⟩
      have hword (u v : Text) (heq : w = u ++ 37 :: v) : v ++ (List.replicate n 32 ++ f) = [] := by
        rw [heq, List.append_assoc, List.cons_append] at hlit
        exact eq_nil_of_notMem_dropLast hlit
      rw [formatLoop_word hw.1 hw.2.2 _ hword, formatLoop_flush hrest]
      have hflush : (FormatState.append ⟨[], false, argv, ap⟩ w ap).flush =
          ⟨[], false, argv ++ [w], ap⟩ := rfl
      rw [hflush, formatLoop_spaces n f rfl, ih _ _, List.append_assoc]
      · rfl
      · exact fun w' hw' ↦ hwords w' (List.mem_cons_of_mem w hw')
      · by_cases hf : f = []
        · simp [hf]
        · rw [List.dropLast_append_of_ne_nil (by simp [hf]), List.dropLast_append_of_ne_nil hf,
            List.mem_append, List.mem_append, not_or, not_or] at hlit
          exact hlit.2.2

theorem Spells.mem_iff (h : Spells ws f) {b : Byte} (hb : b ≠ 32) :
    b ∈ f ↔ ∃ w ∈ ws, b ∈ w := by
  induction h with
  | nil n => simp [hb]
  | cons w n hn hf ih => simp [hb, ih]

theorem Spells.countLetters_eq (h : Spells ws f) (hwords : ∀ w ∈ ws, IsWord w) :
    countLetters f = ws.flatten.length := by
  induction h with
  | nil n => simp [countLetters]
  | @cons w n ws f hn hf ih =>
      have hw := hwords w List.mem_cons_self
      have hcount : w.countP (· ≠ 32) = w.length := by
        rw [List.countP_eq_length]
        intro b hb
        exact decide_eq_true fun heq ↦ hw.2.2 (heq ▸ hb)
      have hrest := ih fun w' hw' ↦ hwords w' (List.mem_cons_of_mem w hw')
      unfold countLetters at hrest ⊢
      rw [List.countP_append, List.countP_append, hrest, hcount, List.flatten_cons,
        List.length_append]
      simp

/-- The texts that a format is made of are the arguments of its command exactly if each of them
is a word and no conversion starts in the format. -/
theorem format_spells_iff (h : Spells ws f) :
    (∃ ap, redisvFormatCommand printf f [] = some (some ws, ap)) ↔
      (∀ w ∈ ws, IsWord w) ∧ 37 ∉ f.dropLast := by
  have htidy : FormatState.Tidy ⟨[], false, [], []⟩ := ⟨by simp, by simp, by simp⟩
  have hcut (hwords : ∀ w ∈ ws, IsWord w) : f.takeWhile (· ≠ 0) = f := by
    rw [List.takeWhile_eq_self_iff]
    intro b hb
    refine decide_eq_true ?_
    rintro rfl
    obtain ⟨w, hw, hmem⟩ := (h.mem_iff (by decide)).mp hb
    exact (hwords w hw).2.1 hmem
  constructor
  · rintro ⟨ap, hrun⟩
    have hnul : 0 ∉ f.takeWhile (· ≠ 0) := by
      intro hmem
      simpa using List.mem_takeWhile_imp hmem
    obtain ⟨hwords, -, hno⟩ := formatLoop_account hnul htidy rfl hrun
    rw [hcut hwords, List.drop_zero] at hno
    refine ⟨hwords, hno ?_⟩
    rw [h.countLetters_eq hwords]
    exact (Nat.zero_add _).symm
  · rintro ⟨hwords, hlit⟩
    refine ⟨[], ?_⟩
    rw [redisvFormatCommand, hcut hwords]
    exact formatLoop_spells h hwords hlit [] []

end Redis

end Slience
