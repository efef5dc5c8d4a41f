import Slience.Base.BufferData

/-!
# Buffers used in any order

The operations of `base::Buffer` on the buffers of a family, and what they should do: each buffer
is a sequence of bytes with a cursor, at which they are read.  `Write` and `Read` are called with
an array of the length that they are told.  The array of a `Read` is appended to `results` as the
call leaves it.
-/

namespace Slience

/-- The operations on a family of buffers.  A constructor makes the buffer anew. -/
inductive BufferMove (ι : Type)
  | new (i : ι) (fill : ℕ → Byte)
  | newHdr (i : ι) (hdrlen : UInt32) (fill : ℕ → Byte)
  | clear (i : ι)
  | cutData (i : ι) (len : Int32)
  | write (i : ι) (src : List Byte) (len : UInt32) (fill : ℕ → Byte)
  | read (i : ι) (dst : List Byte) (len : UInt32)
  | swap (i j : ι)

/-- With the reads of a string, which `Buffer` makes of reads of its own. -/
inductive BufferCall (ι : Type)
  | plain (m : BufferMove ι)
  | readString (i : ι) (value : List Byte) (fill : ℕ → Byte)

structure Buffers (ι : Type) where
  buffer : ι → BufferData
  results : List (List Byte)

namespace Buffers

variable {ι : Type}

/-- Buffers made without an argument. -/
def initial (fill : ι → ℕ → Byte) : Buffers ι := ⟨fun i ↦ BufferData.new (fill i), []⟩

def set [DecidableEq ι] (s : Buffers ι) (i : ι) (b : BufferData) : Buffers ι :=
  { s with buffer := Function.update s.buffer i b }

/-- The buffer `i` after a read, and what the caller has then. -/
def afterRead [DecidableEq ι] (s : Buffers ι) (i : ι) (r : List Byte × BufferData) : Buffers ι :=
  ⟨Function.update s.buffer i r.2, s.results ++ [r.1]⟩

def step [DecidableEq ι] (s : Buffers ι) : BufferMove ι → Option (Buffers ι)
  | .new i fill => some (s.set i (BufferData.new fill))
  | .newHdr i hdrlen fill => some (s.set i (BufferData.newHdr hdrlen fill))
  | .clear i => some (s.set i (s.buffer i).clear)
  | .cutData i len => some (s.set i ((s.buffer i).cutData len))
  | .write i src len fill => ((s.buffer i).write src len fill).map (s.set i)
  | .read i dst len => ((s.buffer i).read dst len).map (s.afterRead i)
  | .swap i j => some { s with buffer := s.buffer ∘ Equiv.swap i j }

def stepCall [DecidableEq ι] (s : Buffers ι) : BufferCall ι → Option (Buffers ι)
  | .plain m => s.step m
  | .readString i value fill => ((s.buffer i).readString value fill).map (s.afterRead i)

/-- The caller's array has the length that is given with it. -/
def arrayGiven : BufferMove ι → Prop
  | .write _ src len _ => src.length = len.toNat
  | .read _ dst len => dst.length = len.toNat
  | _ => True

instance (m : BufferMove ι) : Decidable (arrayGiven m) :=
  match m with
  | .write _ src len _ => inferInstanceAs (Decidable (src.length = len.toNat))
  | .read _ dst len => inferInstanceAs (Decidable (dst.length = len.toNat))
  | .new _ _ | .newHdr _ _ _ | .clear _ | .cutData _ _ | .swap _ _ => isTrue trivial

def arrayGivenCall : BufferCall ι → Prop
  | .plain m => arrayGiven m
  | .readString _ _ _ => True

instance (m : BufferCall ι) : Decidable (arrayGivenCall m) :=
  match m with
  | .plain m => inferInstanceAs (Decidable (arrayGiven m))
  | .readString _ _ _ => isTrue trivial

def system (ι : Type) [DecidableEq ι] : System (Buffers ι) (BufferMove ι) where
  enabled := fun _ m ↦ arrayGiven m
  step := step

instance [DecidableEq ι] (s : Buffers ι) (m : BufferMove ι) :
    Decidable ((system ι).enabled s m) :=
  inferInstanceAs (Decidable (arrayGiven m))

def callSystem (ι : Type) [DecidableEq ι] : System (Buffers ι) (BufferCall ι) where
  enabled := fun _ m ↦ arrayGivenCall m
  step := stepCall

instance [DecidableEq ι] (s : Buffers ι) (m : BufferCall ι) :
    Decidable ((callSystem ι).enabled s m) :=
  inferInstanceAs (Decidable (arrayGivenCall m))

/-! ## No copy outside of the blocks -/

/-- No sum of a cursor and a length reaches the end of the 32-bit numbers. -/
def InRange (s : Buffers ι) : BufferMove ι → Prop
  | .write i _ len _ => (s.buffer i).Fits len
  | .read i _ len => (s.buffer i).offset.toNat + len.toNat < 2 ^ 32
  | _ => True

instance (s : Buffers ι) (m : BufferMove ι) : Decidable (InRange s m) :=
  match m with
  | .write i _ len _ => inferInstanceAs (Decidable ((s.buffer i).Fits len))
  | .read _ _ _ => inferInstanceAs (Decidable (_ < 2 ^ 32))
  | .new _ _ | .newHdr _ _ _ | .clear _ | .cutData _ _ | .swap _ _ => isTrue trivial

def InRangeCall (s : Buffers ι) : BufferCall ι → Prop
  | .plain m => InRange s m
  | .readString i _ _ => (s.buffer i).StringFits

instance (s : Buffers ι) (m : BufferCall ι) : Decidable (InRangeCall s m) :=
  match m with
  | .plain m => inferInstanceAs (Decidable (InRange s m))
  | .readString i _ _ => inferInstanceAs (Decidable (s.buffer i).StringFits)

variable [DecidableEq ι] {s s' : Buffers ι} {i : ι} {b : BufferData}

theorem valid_update (h : ∀ k, (s.buffer k).Valid) (hb : b.Valid) (k : ι) :
    (Function.update s.buffer i b k).Valid := by
  by_cases hk : k = i
  · subst hk
    rw [Function.update_self]
    exact hb
  · rw [Function.update_of_ne hk]
    exact h k

/-- A read that keeps the buffer valid is one step that keeps all buffers valid. -/
theorem valid_afterRead_iff (h : ∀ k, (s.buffer k).Valid)
    (r : Option (List Byte × BufferData)) :
    (∃ s', r.map (s.afterRead i) = some s' ∧ ∀ k, (s'.buffer k).Valid) ↔
      ∃ dst b, r = some (dst, b) ∧ b.Valid := by
  constructor
  · rintro ⟨s', hs', hvalid⟩
    obtain ⟨⟨dst, b⟩, hr, rfl⟩ := Option.map_eq_some_iff.mp hs'
    have hb : (Function.update s.buffer i b i).Valid := hvalid i
    rw [Function.update_self] at hb
    exact ⟨dst, b, hr, hb⟩
  · rintro ⟨dst, b, rfl, hb⟩
    exact ⟨_, rfl, valid_update h hb⟩

theorem valid_step_iff (h : ∀ k, (s.buffer k).Valid) {m : BufferMove ι} (harray : arrayGiven m) :
    (∃ s', s.step m = some s' ∧ ∀ k, (s'.buffer k).Valid) ↔ InRange s m := by
  cases m with
  | new i fill =>
      exact iff_of_true ⟨_, rfl, valid_update h (BufferData.valid_new fill)⟩ trivial
  | newHdr i hdrlen fill =>
      exact iff_of_true ⟨_, rfl, valid_update h (BufferData.valid_newHdr hdrlen fill)⟩ trivial
  | clear i => exact iff_of_true ⟨_, rfl, valid_update h (h i).clear⟩ trivial
  | cutData i len => exact iff_of_true ⟨_, rfl, valid_update h ((h i).cutData len)⟩ trivial
  | write i src len fill =>
      constructor
      · rintro ⟨s', hs', -⟩
        obtain ⟨b, hb, -⟩ := Option.map_eq_some_iff.mp hs'
        exact BufferData.fits_of_write (h i) hb
      · intro hfits
        obtain ⟨b, hb, hvalid, -⟩ :=
          BufferData.write_spec (h i) (le_of_eq harray.symm) hfits fill
        exact ⟨_, congrArg (Option.map (s.set i)) hb, valid_update h hvalid⟩
  | read i dst len =>
      rw [step, valid_afterRead_iff h, BufferData.read_isSome_iff (h i) (le_of_eq harray.symm)]
      exact Iff.rfl
  | swap i j => exact iff_of_true ⟨_, rfl, fun k ↦ h (Equiv.swap i j k)⟩ trivial

theorem valid_stepCall_iff (h : ∀ k, (s.buffer k).Valid) {m : BufferCall ι}
    (harray : arrayGivenCall m) :
    (∃ s', s.stepCall m = some s' ∧ ∀ k, (s'.buffer k).Valid) ↔ InRangeCall s m := by
  cases m with
  | plain m => exact valid_step_iff h harray
  | readString i value fill =>
      rw [stepCall, valid_afterRead_iff h, BufferData.readString_isSome_iff (h i)]
      exact Iff.rfl

theorem allowed_of_arrays {cond : Buffers ι → BufferCall ι → Prop} {calls : List (BufferCall ι)}
    (harrays : ∀ m ∈ calls, arrayGivenCall m) (hcond : ∀ s m, cond s m) (s : Buffers ι) :
    (callSystem ι).Allowed cond s calls := by
  induction calls generalizing s with
  | nil => trivial
  | cons m calls ih =>
      have hrest : ∀ m ∈ calls, arrayGivenCall m := fun m hm ↦ harrays m (List.mem_cons_of_mem _ hm)
      exact ⟨harrays m List.mem_cons_self, hcond s m, fun s' _ ↦ ih hrest s'⟩

/-- The cursors stay in order inside of a block of `size` bytes, and nothing is copied from or to
outside of a block, exactly as long as no sum comes near the end of the 32-bit numbers. -/
theorem valid_iff_inRange (fill : ι → ℕ → Byte) {calls : List (BufferCall ι)}
    (harrays : ∀ m ∈ calls, arrayGivenCall m) :
    (∀ before, before <+: calls → ∃ s', (callSystem ι).run (initial fill) before = some s' ∧
        ∀ i, (s'.buffer i).Valid) ↔
      (callSystem ι).Allowed InRangeCall (initial fill) calls := by
  have hstep (s : Buffers ι) (t : Unit) (m : BufferCall ι) (_ : True)
      (h : ∀ k, (s.buffer k).Valid) (harray : (callSystem ι).enabled s m) :
      (∃ s', (callSystem ι).step s m = some s' ∧ ∀ k, (s'.buffer k).Valid) ↔ InRangeCall s m :=
    valid_stepCall_iff h harray
  exact System.simulates_iff (R := fun (s : Buffers ι) (_ : Unit) ↦ ∀ i, (s.buffer i).Valid)
    (f := fun t _ ↦ t) (t := ()) (fun _ _ _ _ _ _ _ _ _ ↦ trivial) hstep trivial
    (fun i ↦ BufferData.valid_new (fill i)) (allowed_of_arrays harrays (fun _ _ ↦ trivial) _)

/-- A buffer made with a header, and another one with which it is swapped. -/
theorem valid_iff_inRange_swapped :
    (∀ before, before <+: [.plain (.newHdr true 8 fun _ ↦ 7),
        .plain (.write true [1, 2] 2 fun _ ↦ 0), .plain (.cutData true 3),
        .plain (.swap true false), .readString false [5] fun _ ↦ 9] →
      ∃ s', (callSystem Bool).run (initial fun _ _ ↦ 0) before = some s' ∧
        ∀ i, (s'.buffer i).Valid) ↔
      (callSystem Bool).Allowed InRangeCall (initial fun _ _ ↦ 0)
        [.plain (.newHdr true 8 fun _ ↦ 7), .plain (.write true [1, 2] 2 fun _ ↦ 0),
          .plain (.cutData true 3), .plain (.swap true false), .readString false [5] fun _ ↦ 9] :=
  valid_iff_inRange _ (by decide)

/-- A string with the greatest length word is read into a block of no bytes, from behind the
buffer. -/
theorem readString_outside :
    ¬ ∀ before, before <+: [.plain (.write () [255, 255, 255, 255] 4 fun _ ↦ 0),
        .readString () [] fun _ ↦ 0] →
      ∃ s', (callSystem Unit).run (initial fun _ _ ↦ 0) before = some s' ∧
        ∀ i, (s'.buffer i).Valid := by
  intro h
  obtain ⟨s', hs', -⟩ := h _ (List.prefix_refl _)
  have hnone : ((callSystem Unit).run (initial fun _ _ ↦ 0)
      [.plain (.write () [255, 255, 255, 255] 4 fun _ ↦ 0),
        .readString () [] fun _ ↦ 0]).isNone = true := by decide +kernel
  rw [hs'] at hnone
  cases hnone

end Buffers

end Slience
