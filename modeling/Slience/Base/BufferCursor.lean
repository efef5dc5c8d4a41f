import Slience.Base.BufferRun

/-!
# The buffer as a byte sequence with a cursor

What a buffer is for: bytes are written at its end and read from its cursor on.  As long as less
than 2 GB are written and nothing is asked for beyond that, the buffers of a family are such
sequences, across all new blocks.
-/

namespace Slience

/-- Bytes, and how many of them are read; `written` counts those written since the sequence was
made or emptied. -/
structure ByteSequence where
  bytes : List Byte
  cursor : ℕ
  written : ℕ
  deriving DecidableEq

namespace ByteSequence

def empty : ByteSequence := ⟨[], 0, 0⟩

/-- The bytes that were not read. -/
def rest (q : ByteSequence) : List Byte := q.bytes.drop q.cursor

/-- A header of `hdrlen` bytes that no one wrote, unless it is longer than the first block. -/
def ofHeader (hdrlen : ℕ) (fill : ℕ → Byte) : ByteSequence :=
  if hdrlen ≤ 1024 then ⟨(List.range hdrlen).map fill, 0, 0⟩ else empty

def append (q : ByteSequence) (src : List Byte) : ByteSequence :=
  ⟨q.bytes ++ src, q.cursor, q.written + src.length⟩

/-- Forward at most to the end, or back. -/
def move (q : ByteSequence) (len : ℤ) : ByteSequence :=
  if 0 ≤ len then { q with cursor := q.cursor + min len.toNat q.rest.length }
  else { q with cursor := q.cursor - (-len).toNat }

/-- The next bytes, as many as `dst` has, or `dst` itself. -/
def next (q : ByteSequence) (dst : List Byte) : List Byte × ByteSequence :=
  if dst.length ≤ q.rest.length then
    (q.rest.take dst.length, { q with cursor := q.cursor + dst.length })
  else (dst, q)

/-- A header aside, there are as many bytes as were written. -/
structure Bounded (q : ByteSequence) : Prop where
  length_le : q.bytes.length ≤ 1024 + q.written
  written_lt : q.written < 2 ^ 31 - 1024

variable {q : ByteSequence}

theorem length_rest (q : ByteSequence) : q.rest.length = q.bytes.length - q.cursor :=
  List.length_drop

@[simp] theorem bytes_move (q : ByteSequence) (len : ℤ) : (q.move len).bytes = q.bytes := by
  unfold move
  split <;> rfl

@[simp] theorem written_move (q : ByteSequence) (len : ℤ) : (q.move len).written = q.written := by
  unfold move
  split <;> rfl

@[simp] theorem bytes_next (q : ByteSequence) (dst : List Byte) :
    (q.next dst).2.bytes = q.bytes := by
  unfold next
  split <;> rfl

@[simp] theorem written_next (q : ByteSequence) (dst : List Byte) :
    (q.next dst).2.written = q.written := by
  unfold next
  split <;> rfl

theorem bounded_empty : Bounded empty := ⟨Nat.zero_le _, by decide⟩

theorem bounded_ofHeader (hdrlen : ℕ) (fill : ℕ → Byte) : Bounded (ofHeader hdrlen fill) := by
  unfold ofHeader
  split
  · rename_i hle
    refine ⟨?_, bounded_empty.written_lt⟩
    rw [List.length_map, List.length_range]
    exact hle
  · exact bounded_empty

theorem Bounded.move (h : Bounded q) (len : ℤ) : Bounded (q.move len) :=
  ⟨by rw [bytes_move, written_move]; exact h.length_le, by rw [written_move]; exact h.written_lt⟩

theorem Bounded.next (h : Bounded q) (dst : List Byte) : Bounded (q.next dst).2 :=
  ⟨by rw [bytes_next, written_next]; exact h.length_le, by rw [written_next]; exact h.written_lt⟩

theorem Bounded.append (h : Bounded q) {src : List Byte}
    (hsmall : q.written + src.length < 2 ^ 31 - 1024) : Bounded (q.append src) := by
  have hlen := h.length_le
  refine ⟨?_, hsmall⟩
  rw [ByteSequence.append, List.length_append]
  exact (Nat.add_le_add_right hlen _).trans_eq (Nat.add_assoc _ _ _)

end ByteSequence

structure ByteSequences (ι : Type) where
  sequence : ι → ByteSequence
  results : List (List Byte)

namespace ByteSequences

variable {ι : Type}

def initial : ByteSequences ι := ⟨fun _ ↦ ByteSequence.empty, []⟩

variable [DecidableEq ι]

def set (t : ByteSequences ι) (i : ι) (q : ByteSequence) : ByteSequences ι :=
  { t with sequence := Function.update t.sequence i q }

def step (t : ByteSequences ι) : BufferMove ι → ByteSequences ι
  | .new i _ => t.set i ByteSequence.empty
  | .newHdr i hdrlen fill => t.set i (ByteSequence.ofHeader hdrlen.toNat fill)
  | .clear i => t.set i ByteSequence.empty
  | .cutData i len => t.set i ((t.sequence i).move len.toInt)
  | .write i src _ _ => t.set i ((t.sequence i).append src)
  | .read i dst _ =>
      let r := (t.sequence i).next dst
      ⟨Function.update t.sequence i r.2, t.results ++ [r.1]⟩
  | .swap i j => { t with sequence := t.sequence ∘ Equiv.swap i j }

/-- Less than 2 GB are written, and no more is asked for at once or taken back than there is. -/
def small (t : ByteSequences ι) : BufferMove ι → Prop
  | .write i src _ _ => (t.sequence i).written + src.length < 2 ^ 31 - 1024
  | .read _ _ len => len.toNat < 2 ^ 31
  | .cutData i len => -((t.sequence i).cursor : ℤ) ≤ len.toInt
  | _ => True

instance (t : ByteSequences ι) (m : BufferMove ι) : Decidable (small t m) :=
  match m with
  | .write _ _ _ _ | .read _ _ _ => inferInstanceAs (Decidable (_ < _))
  | .cutData _ _ => inferInstanceAs (Decidable (_ ≤ _))
  | .new _ _ | .newHdr _ _ _ | .clear _ | .swap _ _ => isTrue trivial

def system (ι : Type) [DecidableEq ι] : System (ByteSequences ι) (BufferMove ι) where
  enabled := fun _ m ↦ Buffers.arrayGiven m
  step := fun t m ↦ some (t.step m)

instance (t : ByteSequences ι) (m : BufferMove ι) : Decidable ((system ι).enabled t m) :=
  inferInstanceAs (Decidable (Buffers.arrayGiven m))

end ByteSequences

namespace BufferData

/-- The buffer is the sequence `q`. -/
structure Shows (b : BufferData) (q : ByteSequence) : Prop where
  valid : b.Valid
  contents_eq : b.contents = q.bytes
  offset_eq : b.offset.toNat = q.cursor
  size_eq : b.pos.toNat = q.bytes.length
  length_eq : b.length.toNat = q.rest.length

variable {b b' : BufferData} {q : ByteSequence} {fill : ℕ → Byte}

theorem shows_of_contents (hv : b.Valid) (hcontents : b.contents = q.bytes)
    (hoffset : b.offset.toNat = q.cursor) : b.Shows q := by
  have hsize : b.pos.toNat = q.bytes.length := by rw [← hcontents, length_contents hv]
  refine ⟨hv, hcontents, hoffset, hsize, ?_⟩
  rw [length, UInt32.toNat_sub_of_le _ _ (UInt32.le_iff_toNat_le.mpr hv.offset_le),
    ByteSequence.rest, List.length_drop, hsize, hoffset]

theorem Shows.unread_eq (h : b.Shows q) : b.unread = q.rest := by
  rw [unread, ByteSequence.rest, h.contents_eq, h.offset_eq]

theorem Shows.cursor_le (h : b.Shows q) : q.cursor ≤ q.bytes.length := by
  rw [← h.offset_eq, ← h.size_eq]
  exact h.valid.offset_le

theorem shows_new (fill : ℕ → Byte) : (new fill).Shows ByteSequence.empty :=
  shows_of_contents (valid_new fill) rfl rfl

theorem newHdr_of_le {hdrlen : UInt32} (hle : hdrlen ≤ (new fill).size) :
    newHdr hdrlen fill = { new fill with pos := (new fill).pos + hdrlen } := by
  rw [newHdr]
  exact if_pos hle

theorem newHdr_of_gt {hdrlen : UInt32} (hgt : ¬ hdrlen ≤ (new fill).size) :
    newHdr hdrlen fill = new fill := by
  rw [newHdr]
  exact if_neg hgt

theorem shows_newHdr (hdrlen : UInt32) (fill : ℕ → Byte) :
    (newHdr hdrlen fill).Shows (ByteSequence.ofHeader hdrlen.toNat fill) := by
  have hsize : (new fill).size.toNat = 1024 := rfl
  have hvalid := valid_newHdr hdrlen fill
  by_cases hle : hdrlen ≤ (new fill).size
  · have hnat : hdrlen.toNat ≤ 1024 := hsize ▸ UInt32.le_iff_toNat_le.mp hle
    have hpos : (new fill).pos + hdrlen = hdrlen := UInt32.zero_add hdrlen
    rw [newHdr_of_le hle] at hvalid ⊢
    rw [ByteSequence.ofHeader, if_pos hnat]
    refine shows_of_contents hvalid ?_ rfl
    rw [contents, hpos, new, malloc, ← List.map_take, List.take_range]
    congr 2
    exact Nat.min_eq_left hnat
  · have hnat : ¬ hdrlen.toNat ≤ 1024 := fun h ↦ hle (UInt32.le_iff_toNat_le.mpr h)
    rw [newHdr_of_gt hle, ByteSequence.ofHeader, if_neg hnat]
    exact shows_new fill

theorem shows_clear (h : b.Shows q) : b.clear.Shows ByteSequence.empty :=
  shows_of_contents h.valid.clear rfl rfl

theorem toInt_eq (len : Int32) :
    len.toInt = if 2 * len.toUInt32.toNat < 2 ^ 32 then (len.toUInt32.toNat : ℤ)
      else len.toUInt32.toNat - 2 ^ 32 :=
  BitVec.toInt_eq_toNat_cond len.toBitVec

theorem contents_cutData (b : BufferData) (len : Int32) :
    (b.cutData len).contents = b.contents := by
  unfold cutData
  split <;> rfl

/-- Forward the sum stays below the end of the 32-bit numbers; back it wraps around to the
difference. -/
theorem shows_cutData (h : b.Shows q) {len : Int32} (hsize : q.bytes.length < 2 ^ 31)
    (hback : -(q.cursor : ℤ) ≤ len.toInt) : (b.cutData len).Shows (q.move len.toInt) := by
  have hoffset := h.offset_eq
  have hpos := h.size_eq
  have hcursor := h.cursor_le
  have hint := toInt_eq len
  have hlt := len.toUInt32.toNat_lt
  have hrest := q.length_rest
  have hvalid := h.valid.cutData len
  refine shows_of_contents hvalid
    (by rw [contents_cutData, ByteSequence.bytes_move, h.contents_eq]) ?_
  have hsum : (b.offset + len.toUInt32).toNat =
      (b.offset.toNat + len.toUInt32.toNat) % 2 ^ 32 := UInt32.toNat_add _ _
  unfold cutData ByteSequence.move
  split
  · rename_i hgt
    rw [gt_iff_lt, UInt32.lt_iff_toNat_lt, hsum] at hgt
    split at hint <;> split <;> dsimp only <;> omega
  · rename_i hle
    rw [gt_iff_lt, UInt32.not_lt, UInt32.le_iff_toNat_le, hsum] at hle
    split at hint <;> split <;> dsimp only <;> rw [hsum] <;> omega

theorem shows_write (h : b.Shows q) {src : List Byte} {len : UInt32}
    (harray : src.length = len.toNat)
    (hfits : q.bytes.length + src.length < Buffer.writeLimit) (fill : ℕ → Byte) :
    ∃ b', b.write src len fill = some b' ∧ b'.Shows (q.append src) := by
  have hroom : b.Fits len := Or.inr (by rw [h.size_eq, ← harray]; exact hfits)
  obtain ⟨b', hwrite, hvalid, hcontents, hoffset⟩ := write_spec h.valid harray.ge hroom fill
  refine ⟨b', hwrite, shows_of_contents hvalid ?_ ?_⟩
  · rw [hcontents, h.contents_eq, ← harray, List.take_length]
    rfl
  · rw [hoffset, h.offset_eq]
    rfl

theorem shows_read (h : b.Shows q) {dst : List Byte} {len : UInt32}
    (harray : dst.length = len.toNat)
    (hwrap : q.cursor + len.toNat < 2 ^ 32) :
    ∃ b', b.read dst len = some ((q.next dst).1, b') ∧ b'.Shows (q.next dst).2 := by
  have hrest := q.length_rest
  have hcursor := h.cursor_le
  by_cases hroom : dst.length ≤ q.rest.length
  · have hfits : b.offset.toNat + len.toNat ≤ b.pos.toNat := by
      rw [h.offset_eq, h.size_eq]
      omega
    obtain ⟨dst', b', hread, hvalid, hbytes, hlen, hcontents, hoffset⟩ :=
      read_spec h.valid harray.ge hfits
    have hdst : dst' = q.rest.take dst.length := by
      rw [harray, ← h.unread_eq, ← hbytes, ← harray, ← hlen, List.take_length]
    rw [ByteSequence.next, if_pos hroom]
    refine ⟨b', by rw [hread, hdst], shows_of_contents hvalid ?_ ?_⟩
    · rw [hcontents, h.contents_eq]
    · rw [hoffset, h.offset_eq, harray]
  · have hshort : b.pos.toNat < b.offset.toNat + len.toNat := by
      rw [h.offset_eq, h.size_eq]
      omega
    rw [ByteSequence.next, if_neg hroom]
    exact ⟨b, read_short hshort (h.offset_eq ▸ hwrap) dst, h⟩

end BufferData

namespace Buffers

variable {ι : Type} {s s' : Buffers ι} {t : ByteSequences ι}

/-- The buffers are the sequences, and the callers got the same bytes. -/
structure Agrees (s : Buffers ι) (t : ByteSequences ι) : Prop where
  shows : ∀ i, (s.buffer i).Shows (t.sequence i)
  results_eq : s.results = t.results

theorem agrees_initial (fill : ι → ℕ → Byte) : Agrees (initial fill) ByteSequences.initial :=
  ⟨fun i ↦ BufferData.shows_new (fill i), rfl⟩

variable [DecidableEq ι]

theorem shows_update (h : Agrees s t) {i : ι} {b : BufferData} {q : ByteSequence}
    (hb : b.Shows q) (k : ι) :
    (Function.update s.buffer i b k).Shows (Function.update t.sequence i q k) := by
  by_cases hk : k = i
  · subst hk
    rw [Function.update_self, Function.update_self]
    exact hb
  · rw [Function.update_of_ne hk, Function.update_of_ne hk]
    exact h.shows k

theorem bounded_update (hb : ∀ i, (t.sequence i).Bounded) {i : ι} {q : ByteSequence}
    (hq : q.Bounded) (k : ι) : (Function.update t.sequence i q k).Bounded := by
  by_cases hk : k = i
  · subst hk
    rw [Function.update_self]
    exact hq
  · rw [Function.update_of_ne hk]
    exact hb k

/-- A step of the sequences, within the bounds, is a step of the buffers. -/
theorem agrees_step (h : Agrees s t) (hb : ∀ i, (t.sequence i).Bounded) {m : BufferMove ι}
    (harray : arrayGiven m) (hm : t.small m) :
    ∃ s', s.step m = some s' ∧ Agrees s' (t.step m) ∧ ∀ i, ((t.step m).sequence i).Bounded := by
  cases m with
  | new i fill =>
      exact ⟨_, rfl, ⟨shows_update h (BufferData.shows_new fill), h.results_eq⟩,
        bounded_update hb ByteSequence.bounded_empty⟩
  | newHdr i hdrlen fill =>
      exact ⟨_, rfl, ⟨shows_update h (BufferData.shows_newHdr hdrlen fill), h.results_eq⟩,
        bounded_update hb (ByteSequence.bounded_ofHeader _ fill)⟩
  | clear i =>
      exact ⟨_, rfl, ⟨shows_update h (BufferData.shows_clear (h.shows i)), h.results_eq⟩,
        bounded_update hb ByteSequence.bounded_empty⟩
  | cutData i len =>
      have hlen := (hb i).length_le
      have hwritten := (hb i).written_lt
      exact ⟨_, rfl,
        ⟨shows_update h (BufferData.shows_cutData (h.shows i) (by omega) hm), h.results_eq⟩,
        bounded_update hb ((hb i).move len.toInt)⟩
  | write i src len fill =>
      have hlen := (hb i).length_le
      have hsmall : (t.sequence i).written + src.length < 2 ^ 31 - 1024 := hm
      obtain ⟨b, hwrite, hshows⟩ := BufferData.shows_write (h.shows i) harray
        (by simp only [Buffer.writeLimit]; omega) fill
      exact ⟨_, congrArg (Option.map (s.set i)) hwrite,
        ⟨shows_update h hshows, h.results_eq⟩, bounded_update hb ((hb i).append hsmall)⟩
  | read i dst len =>
      have hlen := (hb i).length_le
      have hwritten := (hb i).written_lt
      have hcursor := (h.shows i).cursor_le
      have hsmall : len.toNat < 2 ^ 31 := hm
      obtain ⟨b, hread, hshows⟩ := BufferData.shows_read (h.shows i) harray (by omega)
      exact ⟨_, congrArg (Option.map (s.afterRead i)) hread,
        ⟨shows_update h hshows, congrArg (· ++ [((t.sequence i).next dst).1]) h.results_eq⟩,
        bounded_update hb ((hb i).next dst)⟩
  | swap i j =>
      exact ⟨_, rfl, ⟨fun k ↦ h.shows (Equiv.swap i j k), h.results_eq⟩,
        fun k ↦ hb (Equiv.swap i j k)⟩

theorem agrees_run_of (h : Agrees s t) (hb : ∀ i, (t.sequence i).Bounded)
    {moves : List (BufferMove ι)}
    (hsmall : (ByteSequences.system ι).Allowed ByteSequences.small t moves) :
    ∃ s', (system ι).run s moves = some s' ∧ Agrees s' (moves.foldl ByteSequences.step t) := by
  induction moves generalizing s t with
  | nil => exact ⟨s, rfl, h⟩
  | cons m moves ih =>
      obtain ⟨harray, hm, hrest⟩ := hsmall
      obtain ⟨s₁, hstep, hagrees, hbounded⟩ := agrees_step h hb harray hm
      obtain ⟨s', hrun, hagrees'⟩ := ih hagrees hbounded (hrest _ rfl)
      refine ⟨s', ?_, hagrees'⟩
      rw [System.run_cons]
      change (s.step m).bind _ = _
      rw [hstep, Option.bind_some, hrun]

/-- The buffers are sequences of bytes that are written at the end and read at a cursor, as long
as less than 2 GB are written and no more is asked for at once or taken back than there is. -/
theorem agrees_run (fill : ι → ℕ → Byte) {moves : List (BufferMove ι)}
    (hsmall : (ByteSequences.system ι).Allowed ByteSequences.small ByteSequences.initial moves) :
    ∃ s', (system ι).run (initial fill) moves = some s' ∧
      Agrees s' (moves.foldl ByteSequences.step ByteSequences.initial) :=
  agrees_run_of (agrees_initial fill) (fun _ ↦ ByteSequence.bounded_empty) hsmall

/-- Bytes written to one buffer are read from another one, and then again. -/
theorem agrees_run_swapped :
    ∃ s', (system Bool).run (initial fun _ _ ↦ 9) [.write true [1, 2, 3] 3 fun _ ↦ 0,
        .swap true false, .read false [0, 0] 2, .cutData false (-1), .read false [0] 1,
        .read true [5] 1, .clear false] = some s' ∧
      Agrees s' ([.write true [1, 2, 3] 3 fun _ ↦ 0, .swap true false, .read false [0, 0] 2,
        .cutData false (-1), .read false [0] 1, .read true [5] 1, .clear false].foldl
          ByteSequences.step ByteSequences.initial) :=
  agrees_run _ (by decide +kernel)

end Buffers

end Slience
