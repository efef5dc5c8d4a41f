import Slience.Redis.ReplyParse

/-!
# The reader reads the grammar

The tasks of a reader and its half-built reply are a list of arrays that were begun.  `resume` is
what the grammar makes of the bytes behind them.  One item leaves what `resume` says as it is, and
so a reader that is fed in pieces answers what the grammar says of the whole stream.
-/

namespace Slience

namespace Redis

/-- An array that was begun: the number of its elements, and those that are complete. -/
structure Begun where
  elements : ℕ
  element : List ReplyObject

namespace Begun

/-- The array with this element next, and without those behind it. -/
def fill (f : Begun) (slot : Option ReplyObject) : ReplyObject :=
  .array f.elements
    (f.element.map some ++ slot :: List.replicate (f.elements - f.element.length - 1) none)

/-- An element is missing, and the count is an `int`. -/
structure Open (f : Begun) : Prop where
  lt : f.element.length < f.elements
  bounded : f.elements < 2 ^ 31

end Begun

/-- The reply with `slot` as the next element of the arrays, the innermost of which comes first. -/
def plug : List Begun → Option ReplyObject → Option ReplyObject
  | [], slot => slot
  | f :: frames, slot => plug frames (some (f.fill slot))

def indexIn : List Begun → ℤ
  | [] => -1
  | f :: _ => f.element.length

/-- The tasks of the arrays. -/
def outerTasks : List Begun → List ReadTask
  | [] => []
  | f :: frames => ⟨some .array, f.elements, indexIn frames⟩ :: outerTasks frames

def tasks (frames : List Begun) (type : Option ItemType) (elements : ℤ) : List ReadTask :=
  ⟨type, elements, indexIn frames⟩ :: outerTasks frames

/-- The grammar behind an item with the value `o`. -/
def close : List Begun → ReplyObject → Text → ReplyFront
  | [], o, s => .done o s
  | f :: frames, o, s =>
      (Front.items (parseItem (7 - frames.length)) (f.elements - f.element.length - 1) s).bind
        fun os s ↦ close frames (.array f.elements ((f.element ++ o :: os).map some)) s

/-- The grammar of the current item, whose type may have been read. -/
def parseCurrent (depth : ℕ) : Option ItemType → Text → ReplyFront
  | none, s => parseItem depth s
  | some type, s => parseTyped (inner depth) type s

/-- What the grammar makes of the bytes that are read next. -/
def resume (frames : List Begun) (type : Option ItemType) (s : Text) : ReplyFront :=
  (parseCurrent (8 - frames.length) type s).bind (close frames)

namespace RedisReader

/-- The arrays that a reader has begun, and the type of the item that it reads. -/
structure Reads (r : RedisReader) (frames : List Begun) (type : Option ItemType) : Prop where
  err : r.err = none
  rstack : r.rstack = tasks frames type (-1)
  reply : r.reply = plug frames none
  pos : r.pos ≤ r.buf.length
  depth : frames.length ≤ 8
  opened : ∀ f ∈ frames, f.Open

end RedisReader

section Write

def pathOf : List Begun → List ℕ
  | [] => []
  | f :: frames => pathOf frames ++ [f.element.length]

theorem write_fill {f : Begun} {slot : Option ReplyObject} {obj new : ReplyObject} {path : List ℕ}
    (h : obj.write path slot = some new) :
    obj.write (f.element.length :: path) (some (f.fill slot)) = some (f.fill (some new)) := by
  have hlen : f.element.length = (f.element.map some).length := (List.length_map some).symm
  have hget : (f.element.map some ++
      slot :: List.replicate (f.elements - f.element.length - 1) none)[f.element.length]? =
      some slot := by
    rw [List.getElem?_append_right hlen.ge, ← hlen, Nat.sub_self]
    rfl
  rw [Begun.fill, ReplyObject.write, hget]
  simp only [h, Option.map_some]
  rw [List.set_append_right _ _ hlen.ge, ← hlen, Nat.sub_self]
  rfl

theorem write_plug {frames : List Begun} {slot : Option ReplyObject} {obj new : ReplyObject}
    {path : List ℕ} (h : obj.write path slot = some new) :
    obj.write (pathOf frames ++ path) (plug frames slot) = plug frames (some new) := by
  induction frames generalizing slot new path with
  | nil => exact h
  | cons f frames ih =>
      rw [pathOf, List.append_assoc]
      exact ih (write_fill h)

theorem path_tasks (frames : List Begun) (type : Option ItemType) (elements : ℤ) :
    ((tasks frames type elements).dropLast.map fun task ↦ task.idx.toNat).reverse =
      pathOf frames := by
  induction frames generalizing type elements with
  | nil => rfl
  | cons f frames ih =>
      have hdrop : (tasks (f :: frames) type elements).dropLast =
          ⟨type, elements, f.element.length⟩ ::
            (tasks frames (some .array) f.elements).dropLast := rfl
      rw [hdrop, List.map_cons, List.reverse_cons, ih, pathOf, Int.toNat_natCast]

theorem plug_isSome (frames : List Begun) (obj : ReplyObject) :
    ∃ reply, plug frames (some obj) = some reply := by
  induction frames generalizing obj with
  | nil => exact ⟨obj, rfl⟩
  | cons f frames ih => exact ih _

end Write

section Next

/-- What becomes of the stack when an item is complete: the arrays that it completes are left. -/
theorem moveToNextTask_tasks {frames : List Begun} (hopen : ∀ f ∈ frames, f.Open)
    (hdepth : frames.length ≤ 8) (type : Option ItemType) (elements : ℤ) (o : ReplyObject) :
    (moveToNextTask (tasks frames type elements) = some [] ∧
      ∃ reply, plug frames (some o) = some reply ∧ ∀ s, close frames o s = .done reply s) ∨
    ∃ frames', moveToNextTask (tasks frames type elements) = some (tasks frames' none (-1)) ∧
      plug frames (some o) = plug frames' none ∧ (∀ s, close frames o s = resume frames' none s) ∧
      frames'.length ≤ 8 ∧ ∀ f ∈ frames', f.Open := by
  induction frames generalizing type elements o with
  | nil => exact Or.inl ⟨rfl, o, rfl, fun s ↦ rfl⟩
  | cons f frames ih =>
      have hf := hopen f List.mem_cons_self
      have hlen : frames.length + 1 ≤ 8 := hdepth
      have htasks : tasks (f :: frames) type elements =
          ⟨type, elements, f.element.length⟩ :: tasks frames (some .array) f.elements := rfl
      by_cases hlast : (f.element.length : ℤ) = f.elements - 1
      · -- The array is complete, and it is the item of the next task.
        have hleft : f.elements - f.element.length - 1 = 0 := by omega
        have hmove : moveToNextTask (tasks (f :: frames) type elements) =
            moveToNextTask (tasks frames (some .array) f.elements) := by
          rw [htasks, tasks, moveToNextTask, if_neg (by simp), if_pos hlast]
        have hplug : plug (f :: frames) (some o) =
            plug frames (some (.array f.elements ((f.element ++ [o]).map some))) := by
          rw [plug, Begun.fill, hleft, List.map_append]
          rfl
        have hclose (s : Text) : close (f :: frames) o s =
            close frames (.array f.elements ((f.element ++ [o]).map some)) s := by
          rw [close, hleft]
          rfl
        rw [hmove, hplug]
        simp only [hclose]
        exact ih (fun g hg ↦ hopen g (List.mem_cons_of_mem f hg)) (by omega) _ _ _
      · -- The next element is read.
        obtain ⟨left, hleft⟩ : ∃ left, f.elements - f.element.length - 1 = left + 1 :=
          ⟨f.elements - f.element.length - 2, by have := hf.lt; omega⟩
        have hleft' : f.elements - (f.element ++ [o]).length - 1 = left := by
          rw [List.length_append, List.length_singleton]
          omega
        refine Or.inr ⟨⟨f.elements, f.element ++ [o]⟩ :: frames, ?_, ?_, ?_, hdepth, ?_⟩
        · have hlt : (f.element.length : ℤ) < f.elements := by exact_mod_cast hf.lt
          rw [htasks, tasks, moveToNextTask, if_neg (by simp), if_neg hlast, if_pos hlt, tasks,
            outerTasks, indexIn, List.length_append, List.length_singleton]
          rfl
        · rw [plug, plug, Begun.fill, Begun.fill, hleft, hleft', List.map_append,
            List.append_assoc]
          rfl
        · intro s
          rw [close, hleft, Front.items, resume, parseCurrent, Front.bind_assoc]
          have hd : 8 - (⟨f.elements, f.element ++ [o]⟩ :: frames : List Begun).length =
              7 - frames.length := by
            rw [List.length_cons]
            omega
          rw [hd]
          congr 1
          funext a s'
          rw [Front.bind_assoc, close, hleft']
          congr 1
          funext os s''
          rw [Front.bind_done, List.append_assoc]
          rfl
        · intro g hg
          rcases List.mem_cons.mp hg with rfl | hg
          · have hlt := hf.lt
            refine ⟨?_, hf.bounded⟩
            change (f.element ++ [o]).length < f.elements
            rw [List.length_append, List.length_singleton]
            omega
          · exact hopen g (List.mem_cons_of_mem f hg)

end Next

section Newline

theorem seekNewlineLoop_eq {s : Text} {left : ℕ} (hleft : left = s.length - 1) (skipped : Bool)
    (pos : ℕ) :
    seekNewlineLoop left skipped s pos = (cutPair 13 10 s).map fun p ↦ pos + p.1.length := by
  induction s generalizing left skipped pos with
  | nil => cases left <;> rfl
  | cons c s ih =>
      cases s with
      | nil =>
          subst hleft
          rw [List.length_singleton, Nat.sub_self, seekNewlineLoop, if_neg (by simp)]
          rfl
      | cons d s =>
          have hpred : left = (d :: s).length - 1 + 1 := by
            rw [hleft, List.length_cons, List.length_cons]
            omega
          rw [hpred, seekNewlineLoop, cutPair, List.head?_cons]
          by_cases hc : c = 13
          · by_cases hd : d = 10
            · rw [if_neg (by simp [hc]), if_pos (by rw [hd]), if_pos ⟨hc, hd⟩]
              rfl
            · rw [if_neg (by simp [hc]), if_neg (by simpa using hd), if_neg (by simp [hd]),
                ih rfl, Option.map_map]
              congr 1
              funext p
              simp only [Function.comp_apply, Prod.map_fst, List.length_cons]
              omega
          · rw [if_pos hc, if_neg (by simp [hc]), ih rfl, Option.map_map]
            congr 1
            funext p
            simp only [Function.comp_apply, Prod.map_fst, List.length_cons]
            omega

theorem seekNewline_eq (s : Text) :
    seekNewline s = (cutPair 13 10 s).map fun p ↦ p.1.length := by
  rw [seekNewline, seekNewlineLoop_eq rfl]
  simp

end Newline

namespace RedisReader

variable {r : RedisReader} {frames : List Begun} {type : Option ItemType}

/-- What a step of the reader leaves when it goes on. -/
inductive Next (r : RedisReader) (f : Text → ReplyFront) : Prop
  | item (frames : List Begun) (type : Option ItemType) (h : r.Reads frames type)
      (hf : ∀ t, f t = resume frames type (r.unread ++ t))
  | reply (o : ReplyObject) (herr : r.err = none) (hstack : r.rstack = [])
      (hreply : r.reply = some o) (hpos : r.pos ≤ r.buf.length)
      (hf : ∀ t, f t = .done o (r.unread ++ t))

theorem unread_move (r : RedisReader) (n : ℕ) :
    ({ r with pos := r.pos + n } : RedisReader).unread = r.unread.drop n := by
  rw [unread, unread, List.drop_drop]

theorem path_of_reads (h : r.Reads frames type) : r.path = pathOf frames := by
  rw [path, h.rstack, path_tasks]

theorem created_of_reads (h : r.Reads frames type) (obj : ReplyObject) :
    ∃ reply, plug frames (some obj) = some reply ∧
      r.created obj = some { r with reply := some reply } := by
  obtain ⟨reply, hreply⟩ := plug_isSome frames obj
  refine ⟨reply, hreply, ?_⟩
  have hwrite : obj.write (pathOf frames ++ []) (plug frames none) = plug frames (some obj) :=
    write_plug rfl
  rw [List.append_nil] at hwrite
  rw [created, path_of_reads h, h.reply, hwrite, hreply]
  rfl

/-- An item that is complete: what is behind it goes on as the arrays around it say. -/
theorem finish_of_reads (h : r.Reads frames type) (o : ReplyObject) {n : ℕ}
    (hn : n ≤ r.unread.length) :
    ∃ r', r.finish o (r.pos + n) = some (true, r') ∧ r'.unread = r.unread.drop n ∧
      Next r' fun t ↦ close frames o (r'.unread ++ t) := by
  have hpos : r.pos + n ≤ r.buf.length := by
    have := h.pos
    rw [unread, List.length_drop] at hn
    omega
  obtain ⟨reply, hreply, hcreated⟩ := created_of_reads h o
  rcases moveToNextTask_tasks h.opened h.depth type (-1) o with
    ⟨hmove, o', ho', hclose⟩ | ⟨frames', hmove, hplug, hclose, hdepth, hopen⟩
  · rw [hreply] at ho'
    cases ho'
    refine ⟨⟨r.err, r.buf, r.pos + n, [], some reply⟩, ?_, unread_move r n, ?_⟩
    · rw [finish, hcreated]
      simp only [Option.bind_eq_bind, Option.bind_some, moveToNextTask, h.rstack, hmove,
        Option.map_some]
    · exact .reply reply h.err rfl rfl hpos fun t ↦ hclose _
  · refine ⟨⟨r.err, r.buf, r.pos + n, tasks frames' none (-1), some reply⟩, ?_,
      unread_move r n, ?_⟩
    · rw [finish, hcreated]
      simp only [Option.bind_eq_bind, Option.bind_some, moveToNextTask, h.rstack, hmove,
        Option.map_some]
    · exact .item frames' none
        ⟨h.err, rfl, hreply.symm.trans hplug, hpos, hdepth, hopen⟩ fun t ↦ hclose _

/-- A typed item: it is complete, or an array was begun; or it needs more; or it is an error. -/
inductive Typed (r : RedisReader) (frames : List Begun) (type : ItemType) : Prop
  | next (r' : RedisReader) (hstep : r.processTyped type = some (true, r'))
      (hlt : r'.unread.length < r.unread.length)
      (hnext : Next r' fun t ↦ resume frames (some type) (r.unread ++ t))
  | more (hstep : r.processTyped type = some (false, r))
      (hmore : resume frames (some type) r.unread = .more)
  | error (r' : RedisReader) (e : RedisError) (hstep : r.processTyped type = some (false, r'))
      (herr : r'.err = some e)
      (hf : resume frames (some type) r.unread = .fail (.error e))

theorem resume_of_more {type : ItemType}
    (hparse : parseTyped (inner (8 - frames.length)) type r.unread = .more) :
    resume frames (some type) r.unread = .more := by
  rw [resume, parseCurrent, hparse]
  rfl

theorem resume_of_fail {type : ItemType} {e : Fault}
    (hparse : parseTyped (inner (8 - frames.length)) type r.unread = .fail e) :
    resume frames (some type) r.unread = .fail e := by
  rw [resume, parseCurrent, hparse]
  rfl

theorem stable_inner (depth : ℕ) : ∀ p, inner depth = some p → Front.Stable p := by
  intro p hp
  cases depth with
  | zero => cases hp
  | succ depth =>
      cases hp
      exact stable_parseItem depth

theorem typed_of_done {type : ItemType} (h : r.Reads frames (some type)) {o : ReplyObject} {n : ℕ}
    (hpos : 0 < n) (hn : n ≤ r.unread.length)
    (hparse : parseTyped (inner (8 - frames.length)) type r.unread = .done o (r.unread.drop n))
    (hstep : r.processTyped type = r.finish o (r.pos + n)) : Typed r frames type := by
  obtain ⟨r', hfinish, hunread, hnext⟩ := finish_of_reads h o hn
  refine .next r' (hstep.trans hfinish) ?_ ?_
  · rw [hunread, List.length_drop]
    omega
  · have hresume (t : Text) : resume frames (some type) (r.unread ++ t) =
        close frames o (r'.unread ++ t) := by
      have happ := stable_parseTyped (stable_inner _) type r.unread t
        (by rw [hparse]; exact fun h ↦ by cases h)
      rw [resume, parseCurrent, happ, hparse, hunread]
      rfl
    simp only [hresume]
    exact hnext

/-- A line that was found, by its place in the bytes that were not read. -/
theorem newline_spec {s line rest : Text} (hs : cutPair 13 10 s = some (line, rest)) :
    seekNewline s = some line.length ∧ s.take line.length = line ∧
      s.drop (line.length + 2) = rest ∧ line.length + 2 ≤ s.length := by
  have hsplit := cutPair_split hs
  refine ⟨by rw [seekNewline_eq, hs]; rfl, by rw [hsplit, List.take_left], ?_, ?_⟩
  · rw [hsplit, ← List.drop_drop, List.drop_left]
    rfl
  · rw [hsplit]
    simp

theorem typed_line {type : ItemType} (h : r.Reads frames (some type))
    (hparse : ∀ s, parseTyped (inner (8 - frames.length)) type s = parseLine type s)
    (hstep : r.processTyped type = r.processLineItem type)
    (hdefined : resume frames (some type) r.unread ≠ .fail .beyond) : Typed r frames type := by
  cases hs : cutPair 13 10 r.unread with
  | none =>
      refine .more ?_ (resume_of_more ?_)
      · rw [hstep, processLineItem, seekNewline_eq, hs]
        rfl
      · rw [hparse, parseLine, hs]
  | some p =>
      obtain ⟨line, rest⟩ := p
      obtain ⟨hseek, htake, hdrop, hlen⟩ := newline_spec hs
      by_cases htype : type = .integer
      · cases hv : readLongLong r.unread with
        | none =>
            refine absurd (resume_of_fail ?_) hdefined
            rw [hparse, parseLine, hs]
            simp only [if_pos htype, hv]
        | some v =>
            refine typed_of_done h (o := .integer v) (Nat.succ_pos _) hlen ?_ ?_
            · rw [hparse, parseLine, hs, hdrop]
              simp only [if_pos htype, hv]
            · rw [hstep, processLineItem, hseek]
              simp only [lineObject, if_pos htype, hv, Option.map_some, Option.bind_eq_bind,
                Option.bind_some]
      · refine typed_of_done h (o := .string type line) (Nat.succ_pos _) hlen ?_ ?_
        · rw [hparse, parseLine, hs, hdrop]
          simp only [if_neg htype]
        · rw [hstep, processLineItem, hseek]
          simp only [lineObject, if_neg htype, htake, Option.bind_eq_bind, Option.bind_some]

theorem length_unread (r : RedisReader) (h : r.pos ≤ r.buf.length) :
    r.buf.length = r.pos + r.unread.length := by
  rw [unread, List.length_drop]
  omega

theorem typed_bulk (h : r.Reads frames (some .string))
    (hdefined : resume frames (some .string) r.unread ≠ .fail .beyond) :
    Typed r frames .string := by
  have hparse (s : Text) : parseTyped (inner (8 - frames.length)) .string s = parseBulk s := rfl
  have hstep : r.processTyped .string = r.processBulkItem := rfl
  cases hs : cutPair 13 10 r.unread with
  | none =>
      refine .more ?_ (resume_of_more ?_)
      · rw [hstep, processBulkItem, seekNewline_eq, hs]
        rfl
      · rw [hparse, parseBulk, hs]
  | some p =>
      obtain ⟨line, rest⟩ := p
      obtain ⟨hseek, htake, hdrop, hlen⟩ := newline_spec hs
      cases hv : readLongLong r.unread with
      | none =>
          refine absurd (resume_of_fail ?_) hdefined
          rw [hparse, parseBulk, hs]
          simp only [hv]
      | some len =>
          by_cases hneg : len < 0
          · refine typed_of_done h (o := .nil) (Nat.succ_pos _) hlen ?_ ?_
            · rw [hparse, parseBulk, hs, hdrop]
              simp only [hv, if_pos hneg]
            · rw [hstep, processBulkItem, hseek]
              simp only [hv, if_pos hneg, Option.bind_eq_bind, Option.bind_some]
          · by_cases hbig : 2 ^ 63 ≤ len + 2
            · refine absurd (resume_of_fail ?_) hdefined
              rw [hparse, parseBulk, hs]
              simp only [hv, if_neg hneg, if_pos hbig]
            · have hbuf := length_unread r h.pos
              have hrest : rest.length + (line.length + 2) = r.unread.length := by
                rw [← hdrop, List.length_drop]
                omega
              by_cases henough : len.toNat + 2 ≤ rest.length
              · have hfits : r.pos + (line.length + 2 + (len.toNat + 2)) ≤ r.buf.length := by omega
                refine typed_of_done h (o := .string .string (rest.take len.toNat))
                  (n := line.length + 2 + (len.toNat + 2)) (by omega) (by omega) ?_ ?_
                · rw [hparse, parseBulk, hs, ← List.drop_drop, hdrop]
                  simp only [hv, if_neg hneg, if_neg hbig, if_pos henough]
                · rw [hstep, processBulkItem, hseek]
                  simp only [hv, if_neg hneg, if_neg hbig, if_pos hfits, hdrop,
                    Option.bind_eq_bind, Option.bind_some]
              · have hshort : ¬ r.pos + (line.length + 2 + (len.toNat + 2)) ≤ r.buf.length := by
                  omega
                refine .more ?_ (resume_of_more ?_)
                · rw [hstep, processBulkItem, hseek]
                  simp only [hv, if_neg hneg, if_neg hbig, if_neg hshort, Option.bind_eq_bind,
                    Option.bind_some]
                · rw [hparse, parseBulk, hs]
                  simp only [hv, if_neg hneg, if_neg hbig, if_neg henough]

/-- An array of `n` elements is begun. -/
theorem begin_of_reads (h : r.Reads frames (some .array)) (hdepth : frames.length < 8) {n : ℕ}
    (hpos : 0 < n) (hn : n < 2 ^ 31) {pos : ℕ} (hbuf : pos ≤ r.buf.length) :
    ∃ reply, r.created (createArray n) = some { r with reply := some reply } ∧
      ({ r with
        pos, reply := some reply,
        rstack := tasks (⟨n, []⟩ :: frames) none (-1) } : RedisReader).Reads
          (⟨n, []⟩ :: frames) none := by
  obtain ⟨reply, hreply, hcreated⟩ := created_of_reads h (createArray n)
  have hmod : (n : ℤ).bmod (2 ^ 32) = n := Int.bmod_eq_of_le (by omega) (by omega)
  have harray : createArray n = (⟨n, []⟩ : Begun).fill none := by
    have hcount : ((n : ℤ) % 2 ^ 64).toNat = n := by
      rw [Int.emod_eq_of_lt (by omega) (by omega), Int.toNat_natCast]
    obtain ⟨m, rfl⟩ : ∃ m, n = m + 1 := ⟨n - 1, by omega⟩
    rw [createArray]
    simp only [hmod]
    rw [hcount, Begun.fill, Int.toNat_natCast]
    rfl
  refine ⟨reply, hcreated, h.err, rfl, ?_, hbuf, hdepth, ?_⟩
  · rw [plug, ← harray, hreply]
  · intro f hf
    rcases List.mem_cons.mp hf with rfl | hf
    · exact ⟨hpos, hn⟩
    · exact h.opened f hf

theorem resume_array (frames : List Begun) (n : ℕ) (s : Text) :
    (parseElements (parseItem (7 - frames.length)) (n + 1) s).bind (close frames) =
      resume (⟨n + 1, []⟩ :: frames) none s := by
  have hd : 8 - (⟨n + 1, []⟩ :: frames : List Begun).length = 7 - frames.length := by
    rw [List.length_cons]
    omega
  rw [parseElements, Front.items, resume, parseCurrent, hd, Front.bind_assoc, Front.bind_assoc]
  congr 1
  funext a s'
  rw [Front.bind_assoc, close]
  rfl

theorem typed_array (h : r.Reads frames (some .array))
    (hdefined : resume frames (some .array) r.unread ≠ .fail .beyond) :
    Typed r frames .array := by
  have hstep : r.processTyped .array = r.processMultiBulkItem := rfl
  have hlength : r.rstack.length = frames.length + 1 := by
    have houter : ∀ l : List Begun, (outerTasks l).length = l.length := by
      intro l
      induction l with
      | nil => rfl
      | cons f l ih => rw [outerTasks, List.length_cons, List.length_cons, ih]
    rw [h.rstack, tasks, List.length_cons, houter]
  rcases Nat.lt_or_ge frames.length 8 with hdepth | hdepth
  · have hinner : inner (8 - frames.length) = some (parseItem (7 - frames.length)) := by
      have hsucc : 8 - frames.length = 7 - frames.length + 1 := by omega
      rw [hsucc]
      rfl
    have hparse (s : Text) : parseTyped (inner (8 - frames.length)) .array s =
        parseArray (parseItem (7 - frames.length)) s := by
      rw [hinner]
      rfl
    have hnot : ¬ r.rstack.length = 9 := by omega
    cases hs : cutPair 13 10 r.unread with
    | none =>
        refine .more ?_ (resume_of_more ?_)
        · rw [hstep, processMultiBulkItem, if_neg hnot, seekNewline_eq, hs]
          rfl
        · rw [hparse, parseArray, hs]
    | some p =>
        obtain ⟨line, rest⟩ := p
        obtain ⟨hseek, htake, hdrop, hlen⟩ := newline_spec hs
        cases hv : readLongLong r.unread with
        | none =>
            refine absurd (resume_of_fail ?_) hdefined
            rw [hparse, parseArray, hs]
            simp only [hv]
        | some n =>
            by_cases hnil : n = -1
            · refine typed_of_done h (o := .nil) (Nat.succ_pos _) hlen ?_ ?_
              · rw [hparse, parseArray, hs, hdrop]
                simp only [hv, if_pos hnil]
              · rw [hstep, processMultiBulkItem, if_neg hnot, hseek]
                simp only [hv, if_pos hnil, Option.bind_eq_bind, Option.bind_some]
            · by_cases hempty : n ≤ 0
              · refine typed_of_done h (o := createArray n) (Nat.succ_pos _) hlen ?_ ?_
                · rw [hparse, parseArray, hs, hdrop]
                  simp only [hv, if_neg hnil, if_pos hempty]
                · rw [hstep, processMultiBulkItem, if_neg hnot, hseek]
                  simp only [hv, if_neg hnil, if_pos hempty, Option.bind_eq_bind, Option.bind_some]
              · by_cases hbig : 2 ^ 31 ≤ n
                · refine absurd (resume_of_fail ?_) hdefined
                  rw [hparse, parseArray, hs]
                  simp only [hv, if_neg hnil, if_neg hempty, if_pos hbig]
                · obtain ⟨m, rfl⟩ : ∃ m : ℕ, n = (m + 1 : ℕ) := ⟨n.toNat - 1, by omega⟩
                  have hbuf := length_unread r h.pos
                  obtain ⟨reply, hcreated, hreads⟩ :=
                    begin_of_reads h hdepth (Nat.succ_pos m) (by omega)
                      (show r.pos + (line.length + 2) ≤ r.buf.length by omega)
                  refine .next _ ?_ ?_ (.item _ none hreads ?_)
                  · have hmod : ((m + 1 : ℕ) : ℤ).bmod (2 ^ 32) = (m + 1 : ℕ) :=
                      Int.bmod_eq_of_le (by omega) (by omega)
                    rw [hstep, processMultiBulkItem, if_neg hnot, hseek]
                    simp only [hv, if_neg hnil, if_neg hempty, Option.bind_eq_bind,
                      Option.bind_some, hcreated, h.rstack, tasks, hmod]
                    rfl
                  · change (r.buf.drop (r.pos + (line.length + 2))).length < _
                    rw [List.length_drop]
                    omega
                  · intro t
                    change _ = resume _ none (r.buf.drop (r.pos + (line.length + 2)) ++ t)
                    have hrest : r.buf.drop (r.pos + (line.length + 2)) = rest := by
                      rw [← hdrop, unread, List.drop_drop]
                    have happ := cutPair_append_of_some hs t
                    have hnumber := readLongLong_append (mem_of_cutPair hs) t
                    rw [hrest, ← resume_array, resume, parseCurrent, hparse, parseArray,
                      happ, hnumber, hv]
                    simp only [if_neg hnil, if_neg hempty, if_neg hbig]
                    rfl
  · have hfull : frames.length = 8 := le_antisymm h.depth hdepth
    refine .error (r.setError redisErrProtocol nestingError) ⟨redisErrProtocol, nestingError⟩
      ?_ ?_ (resume_of_fail ?_)
    · rw [hstep, processMultiBulkItem, if_pos (by omega)]
    · rw [setError]
      rfl
    · rw [hfull]
      rfl

theorem processTyped_of_reads {type : ItemType} (h : r.Reads frames (some type))
    (hdefined : resume frames (some type) r.unread ≠ .fail .beyond) : Typed r frames type := by
  cases type with
  | string => exact typed_bulk h hdefined
  | array => exact typed_array h hdefined
  | integer => exact typed_line h (fun _ ↦ rfl) rfl hdefined
  | status => exact typed_line h (fun _ ↦ rfl) rfl hdefined
  | error => exact typed_line h (fun _ ↦ rfl) rfl hdefined

/-- One item: the reader goes on; or it needs more, with what it read of the item kept; or there is
an error. -/
inductive Step (r : RedisReader) (frames : List Begun) (type : Option ItemType) : Prop
  | next (r' : RedisReader) (hstep : r.processItem = some (true, r'))
      (hlt : r'.unread.length < r.unread.length)
      (hnext : Next r' fun t ↦ resume frames type (r.unread ++ t))
  | more (r' : RedisReader) (type' : Option ItemType) (hstep : r.processItem = some (false, r'))
      (hreads : r'.Reads frames type')
      (hmore : resume frames type r.unread = .more)
      (hf : ∀ t, resume frames type (r.unread ++ t) = resume frames type' (r'.unread ++ t))
  | error (r' : RedisReader) (e : RedisError) (hstep : r.processItem = some (false, r'))
      (herr : r'.err = some e) (hf : resume frames type r.unread = .fail (.error e))

theorem resume_none {byte : Byte} {type : ItemType} (htype : itemType byte = some type) (s : Text) :
    resume frames none (byte :: s) = resume frames (some type) s := by
  rw [resume, resume, parseCurrent, parseCurrent, parseItem_eq, parseItemWith, parseBehind, htype]

theorem processItem_of_reads (h : r.Reads frames type)
    (hdefined : resume frames type r.unread ≠ .fail .beyond) : Step r frames type := by
  have hitem : r.processItem = some (false, r) ∧ type = none ∧ r.unread = [] ∨
      (∃ byte s, type = none ∧ r.unread = byte :: s ∧ itemType byte = none ∧
        r.processItem = some (false, r.setError redisErrProtocol (protocolByteError byte))) ∨
      (∃ byte s type', type = none ∧ r.unread = byte :: s ∧ itemType byte = some type' ∧
        r.processItem = ({ r with
          pos := r.pos + 1, rstack := tasks frames (some type') (-1) } :
            RedisReader).processTyped type') ∨
      ∃ type', type = some type' ∧ r.processItem = r.processTyped type' := by
    rw [processItem, h.rstack, tasks]
    cases type with
    | some type' => exact Or.inr (Or.inr (Or.inr ⟨type', rfl, rfl⟩))
    | none =>
        cases hu : r.unread with
        | nil => exact Or.inl ⟨rfl, rfl, rfl⟩
        | cons byte s =>
            cases htype : itemType byte with
            | none => exact Or.inr (Or.inl ⟨byte, s, rfl, rfl, htype, by simp only [htype]⟩)
            | some type' =>
                exact Or.inr (Or.inr (Or.inl ⟨byte, s, type', rfl, rfl, htype, by
                  simp only [htype]
                  rfl⟩))
  rcases hitem with ⟨hstep, rfl, hu⟩ | ⟨byte, s, rfl, hu, htype, hstep⟩ |
    ⟨byte, s, type', rfl, hu, htype, hstep⟩ | ⟨type', rfl, hstep⟩
  · refine .more r none hstep h ?_ fun t ↦ rfl
    rw [hu, resume, parseCurrent, parseItem_eq]
    rfl
  · refine .error _ ⟨redisErrProtocol, protocolByteError byte⟩ hstep ?_ ?_
    · rw [setError, List.take_of_length_le (length_protocolByteError byte)]
    · rw [hu, resume, parseCurrent, parseItem_eq, parseItemWith, parseBehind, htype]
      rfl
  · have hpos : r.pos + 1 ≤ r.buf.length := by
      have hbuf := length_unread r h.pos
      rw [hu, List.length_cons] at hbuf
      omega
    have hreads : ({ r with
        pos := r.pos + 1, rstack := tasks frames (some type') (-1) } :
          RedisReader).Reads frames (some type') :=
      ⟨h.err, rfl, h.reply, hpos, h.depth, h.opened⟩
    have hunread : ({ r with
        pos := r.pos + 1, rstack := tasks frames (some type') (-1) } : RedisReader).unread = s := by
      have hdrop := unread_move r 1
      rw [hu] at hdrop
      exact hdrop
    have hresume (t : Text) : resume frames none (r.unread ++ t) =
        resume frames (some type') (s ++ t) := by
      rw [hu, List.cons_append, resume_none htype]
    have hresume' : resume frames none r.unread = resume frames (some type') s := by
      rw [hu, resume_none htype]
    rcases processTyped_of_reads hreads (by rwa [hunread, ← hresume']) with
      ⟨r', htyped, hlt, hnext⟩ | ⟨htyped, hmore⟩ | ⟨r', e, htyped, herr, hf⟩
    · refine .next r' (hstep.trans htyped) ?_ ?_
      · rw [hunread] at hlt
        rw [hu, List.length_cons]
        omega
      · simp only [hresume]
        simpa only [hunread] using hnext
    · refine .more _ (some type') (hstep.trans htyped) hreads ?_ ?_
      · rwa [hresume', ← hunread]
      · intro t
        rw [hresume, hunread]
    · refine .error r' e (hstep.trans htyped) herr ?_
      rwa [hresume', ← hunread]
  · rcases processTyped_of_reads h hdefined with
      ⟨r', htyped, hlt, hnext⟩ | ⟨htyped, hmore⟩ | ⟨r', e, htyped, herr, hf⟩
    · exact .next r' (hstep.trans htyped) hlt hnext
    · exact .more r (some type') (hstep.trans htyped) h hmore fun t ↦ rfl
    · exact .error r' e (hstep.trans htyped) herr hf

/-- Where the loop over the items stops, when it began at what `f` makes of the bytes to come. -/
inductive Stopped (r : RedisReader) (f : Text → ReplyFront) : Prop
  | more (frames : List Begun) (type : Option ItemType) (h : r.Reads frames type)
      (hmore : f [] = .more) (hf : ∀ t, f t = resume frames type (r.unread ++ t))
  | reply (o : ReplyObject) (herr : r.err = none) (hstack : r.rstack = [])
      (hreply : r.reply = some o) (hpos : r.pos ≤ r.buf.length)
      (hf : ∀ t, f t = .done o (r.unread ++ t))
  | error (e : RedisError) (herr : r.err = some e) (hf : f [] = .fail (.error e))

/-- The loop ends, for every item that is complete takes bytes. -/
theorem processItems_of_reads {n : ℕ} (h : r.Reads frames type) (hn : r.unread.length < n)
    (hdefined : resume frames type r.unread ≠ .fail .beyond) :
    ∃ r', processItems n r = some r' ∧
      Stopped r' fun t ↦ resume frames type (r.unread ++ t) := by
  induction n generalizing r frames type with
  | zero => cases hn
  | succ n ih =>
      have hstack : r.rstack ≠ [] := by
        rw [h.rstack]
        exact List.cons_ne_nil _ _
      have hloop (ok : Bool) (r' : RedisReader) (hstep : r.processItem = some (ok, r')) :
          processItems (n + 1) r = if ok then processItems n r' else some r' := by
        rw [processItems, if_neg hstack, hstep]
        rfl
      rcases processItem_of_reads h hdefined with ⟨r', hstep, hlt, hnext⟩ |
        ⟨r', type', hstep, hreads, hmore, hf⟩ | ⟨r', e, hstep, herr, hf⟩
      · rw [hloop true r' hstep, if_pos rfl]
        rcases hnext with ⟨frames', type', h', hf⟩ | ⟨o, herr, hnil, hreply, hpos, hf⟩
        · simp only [hf]
          have hsame := hf []
          rw [List.append_nil, List.append_nil] at hsame
          exact ih h' (by omega) (by rwa [← hsame])
        · obtain ⟨m, rfl⟩ : ∃ m, n = m + 1 := ⟨n - 1, by omega⟩
          refine ⟨r', by rw [processItems, if_pos hnil], .reply o herr hnil hreply hpos hf⟩
      · refine ⟨r', hloop false r' hstep, .more frames type' hreads ?_ hf⟩
        rwa [List.append_nil]
      · refine ⟨r', hloop false r' hstep, .error e herr ?_⟩
        rwa [List.append_nil]

/-- A reader stands for the bytes behind the last reply: it has begun to read them, or it has
found an error in them. -/
inductive Holds (r : RedisReader) (s : Text) : Prop
  | reads (frames : List Begun) (type : Option ItemType) (h : r.setFirst.Reads frames type)
      (hnested : resume frames type [] = .more)
      (hs : ∀ t, parseItem 8 (s ++ t) = resume frames type (r.unread ++ t))
  | error (e : RedisError) (herr : r.err = some e) (hs : parseItem 8 s = .fail (.error e))

@[simp] theorem unread_setFirst (r : RedisReader) : r.setFirst.unread = r.unread := by
  rw [setFirst]
  split <;> rfl

@[simp] theorem buf_setFirst (r : RedisReader) : r.setFirst.buf = r.buf := by
  rw [setFirst]
  split <;> rfl

@[simp] theorem err_setFirst (r : RedisReader) : r.setFirst.err = r.err := by
  rw [setFirst]
  split <;> rfl

theorem resume_nil (s : Text) : resume [] none s = parseItem 8 s := by
  rw [resume, parseCurrent]
  change (parseItem 8 s).bind (close []) = _
  cases parseItem 8 s <;> rfl

theorem reads_setFirst (herr : r.err = none) (hstack : r.rstack = []) (hreply : r.reply = none)
    (hpos : r.pos ≤ r.buf.length) : r.setFirst.Reads [] none := by
  rw [setFirst, if_pos hstack]
  exact ⟨herr, rfl, hreply, hpos, Nat.zero_le _, by simp⟩

theorem holds_create : create.Holds [] :=
  .reads [] none (reads_setFirst rfl rfl rfl le_rfl) rfl fun t ↦ (resume_nil t).symm

/-- An item that needs more where bytes are there needs more where there are none. -/
theorem resume_empty {s : Text} (h : resume frames type s = .more) :
    resume frames type [] = .more := by
  cases type with
  | none =>
      rw [resume, parseCurrent, parseItem_eq]
      rfl
  | some type =>
      cases type with
      | array =>
          rw [resume, parseCurrent] at h ⊢
          cases hinner : inner (8 - frames.length) with
          | none =>
              rw [hinner] at h
              cases h
          | some item => rfl
      | string => rfl
      | integer => rfl
      | status => rfl
      | error => rfl

theorem reads_setFirst_of_reads (h : r.Reads frames type) : r.setFirst = r := by
  rw [setFirst, if_neg]
  rw [h.rstack]
  exact List.cons_ne_nil _ _

theorem Reads.discard (h : r.Reads frames type) : r.discard.Reads frames type := by
  rw [RedisReader.discard]
  split
  · exact ⟨h.err, h.rstack, h.reply, Nat.zero_le _, h.depth, h.opened⟩
  · exact h

theorem unread_discard (r : RedisReader) : r.discard.unread = r.unread := by
  rw [discard]
  split <;> rfl

theorem pos_discard (h : r.pos ≤ r.buf.length) : r.discard.pos ≤ r.discard.buf.length := by
  rw [discard]
  split
  · exact Nat.zero_le _
  · exact h

theorem pos_discard_lt (r : RedisReader) : r.discard.pos < 1024 := by
  rw [discard]
  split
  · exact Nat.zero_lt_succ _
  · rename_i h
    exact Nat.lt_of_not_le h

theorem rstack_discard (r : RedisReader) : r.discard.rstack = r.rstack := by
  rw [discard]
  split <;> rfl

theorem reply_discard (r : RedisReader) : r.discard.reply = r.reply := by
  rw [discard]
  split <;> rfl

theorem err_discard (r : RedisReader) : r.discard.err = r.err := by
  rw [discard]
  split <;> rfl

/-- The reader as a receiver of replies. -/
def receiver : Receiver RedisReader Byte Fault ReplyObject where
  feed r t := (r.feed t).map Prod.snd
  get r := r.getReply.map fun (answer, r) ↦ (answer.mapError .error, r)

theorem pos_of_setFirst (h : r.setFirst.Reads frames type) : r.pos ≤ r.buf.length := by
  have hpos := h.pos
  rw [buf_setFirst] at hpos
  refine le_trans ?_ hpos
  rw [setFirst]
  split <;> exact le_rfl

theorem feed_holds {r' : RedisReader} {s : Text} (t : Text) (h : r.Holds s)
    (hfed : receiver.feed r t = some r') : r'.Holds (s ++ t) := by
  obtain ⟨⟨ok, r''⟩, hfeed, rfl⟩ := Option.map_eq_some_iff.mp hfed
  rw [RedisReader.feed] at hfeed
  rcases h with ⟨frames, type, h, hnested, hs⟩ | ⟨e, herr, hs⟩
  · have herr : r.err.isSome = false := by
      rw [← err_setFirst, h.err]
      rfl
    rw [herr, if_neg (by simp)] at hfeed
    split at hfeed
    · cases hfeed
      have hpos := pos_of_setFirst h
      have hunread : ({ r with buf := r.buf ++ t } : RedisReader).unread = r.unread ++ t := by
        rw [unread, unread, List.drop_append_of_le_length hpos]
      have hfirst : ({ r with buf := r.buf ++ t } : RedisReader).setFirst =
          { r.setFirst with buf := r.buf ++ t } := by
        rw [setFirst, setFirst]
        split <;> rfl
      refine .reads frames type ?_ hnested ?_
      · rw [hfirst]
        refine ⟨h.err, h.rstack, h.reply, ?_, h.depth, h.opened⟩
        have hle := h.pos
        rw [buf_setFirst] at hle
        change r.setFirst.pos ≤ (r.buf ++ t).length
        rw [List.length_append]
        omega
      · intro t'
        rw [List.append_assoc, hs, hunread, List.append_assoc]
    · cases hfeed
  · rw [herr] at hfeed
    cases hfeed
    refine .error e herr ?_
    rw [stable_parseItem 8 s t (by rw [hs]; exact fun h ↦ by cases h), hs]
    rfl

/-- What a call of `redisReaderGetReply` answers, by what the grammar says. -/
inductive Answers (r : RedisReader) (s : Text) : Prop
  | more (r' : RedisReader) (hget : r.getReply = some (.ok none, r'))
      (hs : parseItem 8 s = .more) (h : r'.Holds s)
  | reply (o : ReplyObject) (rest : Text) (r' : RedisReader)
      (hget : r.getReply = some (.ok (some o), r')) (hs : parseItem 8 s = .done o rest)
      (h : r'.Holds rest) (hbuf : r'.buf.length < 1024 + rest.length)
  | error (e : RedisError) (r' : RedisReader) (hget : r.getReply = some (.error e, r'))
      (hs : parseItem 8 s = .fail (.error e)) (h : r'.Holds s)

theorem getReply_of_holds {s : Text} (h : r.Holds s) (hdefined : parseItem 8 s ≠ .fail .beyond) :
    Answers r s := by
  rcases h with ⟨frames, type, h, hnested, hs⟩ | ⟨e, herr, hs⟩
  · have hs₀ := hs []
    rw [List.append_nil, List.append_nil] at hs₀
    have herr : r.err = none := by rw [← err_setFirst, h.err]
    by_cases hbuf : r.buf = []
    · refine .more r ?_ ?_ (.reads frames type h hnested hs)
      · rw [getReply, herr]
        simp only [if_pos hbuf]
      · rw [hs₀, unread, hbuf, List.drop_nil, hnested]
    · have hunread := unread_setFirst r
      obtain ⟨r', hloop, hstop⟩ := processItems_of_reads (n := r.unread.length + 1) h
        (by rw [hunread]; exact Nat.lt_succ_self _) (by rwa [hunread, ← hs₀])
      have hget : r.getReply = some r'.answer := by
        rw [getReply, herr]
        simp only [if_neg hbuf, hloop, Option.map_some]
      simp only [hunread, ← hs] at hstop
      rcases hstop with ⟨frames', type', h', hmore, hf⟩ | ⟨o, herr', hnil, hreply, hpos, hf⟩ |
        ⟨e, herr', hf⟩
      · have hne : r'.discard.rstack ≠ [] := by
          rw [h'.discard.rstack]
          exact List.cons_ne_nil _ _
        have hf₀ := hf []
        rw [List.append_nil] at hmore hf₀
        refine .more r'.discard ?_ hmore ?_
        · rw [hget, answer, h'.err, emit, if_neg hne]
        · refine .reads frames' type' ?_ ?_ ?_
          · rw [reads_setFirst_of_reads h'.discard]
            exact h'.discard
          · exact resume_empty (hf₀.symm.trans hmore)
          · simpa only [unread_discard] using hf
      · have hf₀ := hf []
        rw [List.append_nil, List.append_nil] at hf₀
        refine .reply o r'.unread { r'.discard with reply := none } ?_ hf₀ ?_ ?_
        · rw [hget, answer, herr', emit, if_pos (by rw [rstack_discard, hnil]), reply_discard,
            hreply]
        · refine .reads [] none (reads_setFirst ?_ ?_ rfl ?_) rfl fun t ↦ ?_
          · exact (err_discard r').trans herr'
          · exact (rstack_discard r').trans hnil
          · exact pos_discard hpos
          · rw [resume_nil]
            congr 2
            exact (unread_discard r').symm
        · change r'.discard.buf.length < _
          rw [length_unread _ (pos_discard hpos), unread_discard]
          have hlt := pos_discard_lt r'
          omega
      · rw [List.append_nil] at hf
        exact .error e r' (by rw [hget, answer, herr']) hf (.error e herr' hf)
  · exact .error e r (by rw [getReply, herr]) hs (.error e herr hs)

/-- No header announces too much, and no number is too large. -/
def Described : Fault → Prop := (· ≠ .beyond)

theorem receiver_resumes : receiver.Resumes replies Described Holds where
  feed t h hfeed := feed_holds t h hfeed
  more h hs := by
    rcases getReply_of_holds h (by rw [show parseItem 8 _ = _ from hs]; exact fun h ↦ by cases h)
      with ⟨r', hget, -, h'⟩ | ⟨o, rest, r', -, hs', -, -⟩ | ⟨e, r', -, hs', -⟩
    · exact ⟨r', by rw [receiver]; simp only [hget]; rfl, h'⟩
    · cases hs.symm.trans hs'
    · cases hs.symm.trans hs'
  done h hs := by
    rcases getReply_of_holds h (by rw [show parseItem 8 _ = _ from hs]; exact fun h ↦ by cases h)
      with ⟨r', -, hs', -⟩ | ⟨o, rest, r', hget, hs', h', -⟩ | ⟨e, r', -, hs', -⟩
    · cases hs.symm.trans hs'
    · cases hs.symm.trans hs'
      exact ⟨r', by rw [receiver]; simp only [hget]; rfl, h'⟩
    · cases hs.symm.trans hs'
  fail h hdefined hs := by
    rcases getReply_of_holds h (by
      rw [show parseItem 8 _ = _ from hs]
      exact fun h ↦ hdefined (by cases h; rfl))
      with ⟨r', -, hs', -⟩ | ⟨o, rest, r', -, hs', -, -⟩ | ⟨e, r', hget, hs', h'⟩
    · cases hs.symm.trans hs'
    · cases hs.symm.trans hs'
    · cases hs.symm.trans hs'
      exact ⟨r', by rw [receiver]; simp only [hget]; rfl, h'⟩

/-- However the bytes of a server are cut into pieces, and whenever a reply is asked for, the
reader answers what the grammar says of all that was fed. -/
theorem run_create {calls : List (ReceiverCall Byte)} (hfits : receiver.Fits create calls)
    (hdefined : (replies.stream (fed calls)).2 ≠ .fail .beyond) :
    ∃ r, receiver.run create calls = some (replies.expected [] 0 calls, r) := by
  refine receiver_resumes.run (Nat.zero_le _) holds_create hfits ?_
  rintro e he rfl
  exact hdefined he

/-- A status in two pieces, and behind it a byte that is no reply type. -/
def sampleCalls : List (ReceiverCall Byte) :=
  [.feed (lit "+O"), .get, .feed (lit "K\r\n?"), .get, .get]

theorem run_create_sampleCalls :
    ∃ r, receiver.run create sampleCalls = some (replies.expected [] 0 sampleCalls, r) := by
  have hdone : replies.parse (fed sampleCalls) = .done (.string .status (lit "OK")) (lit "?") := rfl
  have hfail : replies.parse (lit "?") =
      .fail (.error ⟨redisErrProtocol, protocolByteError 63⟩) := rfl
  refine run_create (by decide +kernel) ?_
  rw [replies.stream_of_done hdone, replies.stream_of_fail hfail]
  exact fun h ↦ by cases h

end RedisReader

end Redis

end Slience
