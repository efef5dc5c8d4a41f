import Slience.Base.LoggerRing
import Slience.Base.Logfile

/-!
# From the ring to the files

`dump` gives each node of the ring to `logfile::write` and to the console.  A record goes to one
node as a whole, and a node goes to one file as a whole, so that the files, where they can be
opened and written, hold whole records in the order in which `log` accepted them.
-/

namespace Slience

namespace Logger

/-! ## Whole records in the nodes -/

/-- What the nodes hold. -/
def datas (r : List BufferNode) : List (List UInt8) := r.map (·.buffer.data)

/-- These bytes are the first records. -/
def Whole (accepted : List (List UInt8)) (bytes : List UInt8) : Prop :=
  ∃ j, bytes = (accepted.take j).flatten

/-- The bytes before each node of the ring are the first records. -/
def Aligned {n : ℕ} (s : Logger n) : Prop :=
  ∀ k, Whole s.accepted (s.file ++ unwritten s.phase (s.ring.take k))

variable {n : ℕ}

theorem whole_all (accepted : List (List UInt8)) : Whole accepted accepted.flatten :=
  ⟨accepted.length, by rw [List.take_length]⟩

theorem Whole.append {accepted : List (List UInt8)} {bytes : List UInt8} (h : Whole accepted bytes)
    (new : List (List UInt8)) : Whole (accepted ++ new) bytes := by
  obtain ⟨j, rfl⟩ := h
  refine ⟨min j accepted.length, ?_⟩
  rw [List.take_append_of_le_length (Nat.min_le_right _ _), ← List.take_eq_take_min]

theorem contents_eq_flatten (r : List BufferNode) : contents r = (datas r).flatten :=
  List.flatMap_def

/-- The nodes of the ring that are in the file. -/
def skip : DumpPhase → ℕ
  | .written => 1
  | .idle | .waiting | .writing => 0

theorem unwritten_eq (phase : DumpPhase) (r : List BufferNode) :
    unwritten phase r = contents (r.drop (skip phase)) := by
  cases phase with
  | written => rw [unwritten, skip, List.drop_one]
  | idle => rfl
  | waiting => rfl
  | writing => rfl

theorem unwritten_congr {r r' : List BufferNode} (h : datas r = datas r') (phase : DumpPhase) :
    unwritten phase r = unwritten phase r' := by
  have hdrop := congrArg (List.drop (skip phase)) h
  rw [datas, datas, ← List.map_drop, ← List.map_drop] at hdrop
  rw [unwritten_eq, unwritten_eq, contents_eq_flatten, contents_eq_flatten]
  exact congrArg List.flatten hdrop

/-- Behind the last node that holds something there is nothing to be written. -/
theorem unwritten_take {r : List BufferNode} {k : ℕ} (h : contents (r.drop k) = [])
    (phase : DumpPhase) (hk : k ≠ 0) : unwritten phase (r.take k) = unwritten phase r := by
  have hskip : skip phase ≤ k := by
    cases phase <;> simp only [skip] <;> omega
  have hr : r.drop (skip phase) = (r.take k).drop (skip phase) ++ r.drop k := by
    conv_lhs => rw [← List.take_append_drop k r]
    rcases Nat.lt_or_ge r.length k with hlen | hlen
    · rw [List.drop_eq_nil_of_le hlen.le, List.append_nil, List.append_nil]
    · rw [List.drop_append_of_le_length (by rw [List.length_take]; omega)]
  rw [unwritten_eq, unwritten_eq, hr, contents_append, h, List.append_nil]

/-- A record that `log` takes changes nothing before some node, and nothing is behind it. -/
structure Extends (r r' : List BufferNode) (d : ℕ) : Prop where
  before : ∀ k ≤ d, datas (r'.take k) = datas (r.take k)
  behind : ∀ k, d < k → contents (r'.drop k) = []

theorem extends_of_append {before cur cur' rest : List BufferNode} {x : BufferNode} (d : ℕ)
    (hd : before.length = d) (hbefore : datas before = datas cur) (hrest : ∀ b ∈ rest, IsEmpty b) :
    Extends (cur ++ cur') (before ++ x :: rest) d where
  before := by
    intro k hk
    have hlen : cur.length = before.length := by
      have := congrArg List.length hbefore
      rw [datas, datas, List.length_map, List.length_map] at this
      exact this.symm
    rw [List.take_append_of_le_length (by omega), List.take_append_of_le_length (by omega)]
    have htake := congrArg (List.take k) hbefore
    rwa [datas, datas, ← List.map_take, ← List.map_take] at htake
  behind := by
    intro k hk
    obtain ⟨m, rfl⟩ := Nat.exists_eq_add_of_lt hk
    have hdrop : (before ++ x :: rest).drop (d + m + 1) = rest.drop m := by
        rw [← hd, Nat.add_assoc, List.drop_length_add_append, List.drop_succ_cons]
    rw [hdrop]
    exact contents_of_empty fun b hb ↦ hrest b (List.mem_of_mem_drop hb)

variable {s : Logger n}

/-- The status of a node does not matter. -/
theorem datas_ring_status (s : Logger n) (i : Fin n) (status : NodeStatus) :
    datas (s.setNode i { s.nodes i with status }).ring = datas s.ring := by
  rw [datas, datas, ring, ring, Circular.toList, Circular.toList, List.map_ofFn, List.map_ofFn]
  congr 1
  funext k
  change (Function.update s.nodes i _ (s.consumer + k)).buffer.data = _
  by_cases hi : s.consumer + k = i
  · rw [hi, Function.update_self, Function.comp_apply, hi]
  · rw [Function.update_of_ne hi]
    rfl

theorem Aligned.congr {s' : Logger n} (h : s.Aligned) (hphase : ¬ Busy s.phase)
    (hfile : s'.file = s.file) (haccepted : s'.accepted = s.accepted)
    (hphase' : s'.phase ≠ .written) (hring : datas s'.ring = datas s.ring) : s'.Aligned := by
  intro k
  have hk := h k
  rw [unwritten_of_not_busy hphase, contents_eq_flatten] at hk
  have hunwritten : unwritten s'.phase (s'.ring.take k) = contents (s'.ring.take k) := by
    cases hp : s'.phase with
    | written => exact absurd hp hphase'
    | idle => rfl
    | waiting => rfl
    | writing => rfl
  rw [hunwritten, contents_eq_flatten, hfile, haccepted]
  rw [datas, List.map_take] at hk ⊢
  rwa [show List.map _ s'.ring = _ from hring]

theorem Aligned.lock (h : s.Aligned) (hphase : s.phase = .idle) : s.lock.Aligned := by
  have hidle : ¬ Busy s.phase := by
    rw [hphase]
    exact not_false
  unfold Logger.lock
  split
  · exact h.congr hidle rfl rfl (by simp) rfl
  · exact h.congr hidle rfl rfl (by simp [handOver]) rfl

theorem Aligned.wake (h : s.Aligned) (hphase : s.phase = .waiting) : s.wake.Aligned := by
  have hidle : ¬ Busy s.phase := by
    rw [hphase]
    exact not_false
  unfold Logger.wake
  dsimp only
  split
  · split
    · exact h.congr hidle rfl rfl (by simp [handOver]) (datas_ring_status s _ _)
    · exact h.congr hidle rfl rfl (by simp) rfl
  · exact h.congr hidle rfl rfl (by simp [handOver]) rfl

variable [NeZero n]

theorem log_extends (h : s.Ordered) (data : List UInt8) :
    (s.step (.log data)).ring = s.ring ∧ (s.step (.log data)).accepted = s.accepted ∨
      ∃ d, Extends s.ring (s.step (.log data)).ring d := by
  obtain ⟨k, hk, hshape⟩ := h.shape
  generalize hring : s.ring = r, hval : k.val = d at hshape
  cases hshape with
  | @stuck first full rest hfirst hfull hrest =>
      have hnode : s.nodes s.producer = first := producer_eq_head hk hring hval
      left
      rw [step, log_of_full (by rw [hnode]; exact hfirst)]
      exact ⟨hring, rfl⟩
  | @filling full rest cur hfull hcur hrest =>
      have hnode := producer_eq hk hring hval
      right
      by_cases havail : data.length < cur.buffer.avail
      · refine ⟨full.length, ?_⟩
        rw [step, log_of_avail hnode hcur havail]
        change Extends _ (s.setNode s.producer _).ring _
        rw [setNode_eq hk hring hval]
        exact extends_of_append _ rfl rfl hrest
      · have hturned := turn_ring hk hring hval
        have hk' := turn_producer hk
        rw [step, log_of_turn hnode hcur havail]
        cases rest with
        | nil =>
            refine ⟨full.length, ?_⟩
            have hcount : full.length + 1 = n := by
              rw [← length_ring s, hring, List.length_append, List.length_singleton]
            have hval' : (k + 1).val = 0 := by
              rw [Circular.val_add_one, hval, hcount, Nat.mod_self]
            obtain ⟨first, full', hcons⟩ := List.exists_cons_of_ne_nil
              (List.append_ne_nil_of_right_ne_nil full
                (List.cons_ne_nil { cur with status := .full } []))
            have hfull' := full_turned cur hfull
            rw [hcons] at hfull'
            have hfirst : s.turn.nodes s.turn.producer = first :=
              producer_eq_head hk' (hturned.trans hcons) hval'
            rw [hfirst, if_pos (hfull' first List.mem_cons_self)]
            change Extends _ s.turn.ring _
            rw [hturned]
            exact extends_of_append _ rfl rfl hrest
        | cons x rest =>
            obtain ⟨hval', hturned'⟩ := turn_next hk hring hval
            have hx := hrest x List.mem_cons_self
            have hfree : x.status ≠ .full := by
              rw [hx.1]
              decide
            rw [producer_eq hk' hturned' hval', if_neg hfree]
            refine ⟨full.length + 1, ?_⟩
            change Extends _ (s.turn.setNode s.turn.producer _).ring _
            rw [setNode_eq hk' hturned' hval', List.append_cons full cur]
            refine extends_of_append _ ?_ ?_ fun b hb ↦ hrest b (List.mem_cons_of_mem _ hb)
            · rw [List.length_append, List.length_singleton]
            · rw [datas, datas, List.map_append, List.map_append]
              rfl

theorem log_frame (s : Logger n) (data : List UInt8) :
    (s.step (.log data)).phase = s.phase ∧ (s.step (.log data)).file = s.file ∧
      ∃ new, (s.step (.log data)).accepted = s.accepted ++ new := by
  unfold step log
  dsimp only
  split
  · exact ⟨rfl, rfl, [], (List.append_nil _).symm⟩
  · split
    · exact ⟨rfl, rfl, [data], rfl⟩
    · split
      · exact ⟨rfl, rfl, [], (List.append_nil _).symm⟩
      · exact ⟨rfl, rfl, [data], rfl⟩

theorem Aligned.log (h : s.Aligned) (hs : s.Ordered) {data : List UInt8}
    (hlen : data.length ≤ recordSize) : (s.step (.log data)).Aligned := by
  obtain ⟨hphase, hfile, new, haccepted⟩ := log_frame s data
  intro k
  rw [hphase, hfile]
  rcases log_extends hs data with ⟨hring, hsame⟩ | ⟨d, hd⟩
  · rw [hring, hsame]
    exact h k
  · rcases Nat.lt_or_ge d k with hk | hk
    · have hbytes := (hs.log hlen).bytes
      rw [pending, hphase, hfile] at hbytes
      rw [unwritten_take (hd.behind k hk) _ (by omega), hbytes]
      exact whole_all _
    · rw [unwritten_congr (hd.before k hk), haccepted]
      exact (h k).append new

theorem Aligned.write (h : s.Aligned) (hphase : s.phase = .writing) : s.write.Aligned := by
  have hold (k : ℕ) : Whole s.accepted (s.file ++ contents (s.ring.take (k + 1))) := by
    have := h (k + 1)
    rwa [hphase] at this
  intro k
  change Whole s.accepted (s.file ++ (s.nodes s.consumer).buffer.data ++
    contents (s.ring.take k).tail)
  have hk := hold (k - 1)
  rw [ring_eq_cons, List.take_succ_cons, contents_cons, ← List.append_assoc] at hk
  rw [← List.drop_one, List.drop_take, List.drop_one]
  exact hk

theorem Aligned.release (h : s.Aligned) (hphase : s.phase = .written) : s.release.Aligned := by
  have hfile : s.release.file = s.file := by
    unfold Logger.release
    split <;> rfl
  have haccepted : s.release.accepted = s.accepted := by
    unfold Logger.release
    split <;> rfl
  have hidle : s.release.phase = .idle := by
    unfold Logger.release
    split <;> rfl
  intro k
  have hk := h (k + 1)
  rw [hphase] at hk
  change Whole _ (_ ++ contents (s.ring.take (k + 1)).tail) at hk
  rw [← List.drop_one, List.drop_take, List.drop_one, Nat.add_sub_cancel] at hk
  rw [hfile, haccepted, hidle, ring_release]
  change Whole _ (_ ++ contents ((s.ring.tail ++ ([⟨.clear, .free⟩] : List BufferNode)).take k))
  rw [List.take_append, contents_append]
  have hlast : contents (([⟨.clear, .free⟩] : List BufferNode).take (k - s.ring.tail.length)) =
      [] := by
    apply contents_of_empty
    intro b hb
    cases List.mem_singleton.mp (List.mem_of_mem_take hb)
    exact ⟨rfl, rfl⟩
  rw [hlast, List.append_nil]
  exact hk

theorem aligned_initial : (initial : Logger n).Aligned := by
  intro k
  refine ⟨0, ?_⟩
  change contents ((initial : Logger n).ring.take k) = []
  apply contents_of_empty
  intro b hb
  obtain ⟨i, rfl⟩ := List.mem_ofFn.mp (List.mem_of_mem_take hb)
  exact ⟨rfl, rfl⟩

theorem Aligned.step (h : s.Aligned) (hs : s.Ordered) {m : LogMove} (hcan : s.CanMove m) :
    (s.step m).Aligned := by
  cases m with
  | log data => exact h.log hs hcan
  | lock => exact h.lock hcan
  | wake => exact h.wake hcan
  | write => exact h.write hcan
  | release => exact h.release hcan

end Logger

/-! ## The files -/

namespace Logfile

/-- More bytes for the last file. -/
def appendLast : List (List Byte) → List Byte → List (List Byte)
  | [], _ => []
  | [f], bytes => [f ++ bytes]
  | f :: g :: fs, bytes => f :: appendLast (g :: fs) bytes

/-- What was written to each file from its opening on, the first one first. -/
def files : List FileEvent → List (List Byte)
  | [] => []
  | .opened _ _ :: es => files es ++ [[]]
  | .wrote _ _ _ bytes :: es => appendLast (files es) bytes

theorem appendLast_concat (fs : List (List Byte)) (f bytes : List Byte) :
    appendLast (fs ++ [f]) bytes = fs ++ [f ++ bytes] := by
  induction fs with
  | nil => rfl
  | cons g fs ih =>
      cases fs with
      | nil => rfl
      | cons g' fs => exact congrArg (g :: ·) ih

/-- The last file is open, and has the size that was counted. -/
structure Writing (s : Logfile) (fs : List (List Byte)) (f : List Byte) : Prop where
  file : s.file ≠ none
  files_eq : files s.events = fs ++ [f]
  size : s.writesize = f.length

variable {c : Setting} {s : Logfile} {fs : List (List Byte)} {f : List Byte}

theorem writing_logfile (c : Setting) (now : ℕ) : (logfile c now true).Writing [] [] := by
  constructor
  · rw [logfile, rollFile, if_pos rfl]
    exact Option.some_ne_none _
  · rw [logfile, rollFile, if_pos rfl]
    rfl
  · rw [logfile, rollFile, if_pos rfl]
    rfl

theorem Writing.rollFile (h : s.Writing fs f) (newday : Bool) (now : ℕ) :
    (s.rollFile c newday now true).Writing (fs ++ [f]) [] := by
  constructor
  · rw [Logfile.rollFile, if_pos rfl]
    exact Option.some_ne_none _
  · rw [Logfile.rollFile, if_pos rfl, ← h.files_eq]
    rfl
  · rw [Logfile.rollFile, if_pos rfl]
    rfl

/-- Bytes go to the last file, or to a new one. -/
def Next (fs : List (List Byte)) (f : List Byte) (fs' : List (List Byte)) (f' : List Byte) : Prop :=
  fs' = fs ∧ f' = f ∨ fs' = fs ++ [f] ∧ f' = []

theorem Writing.checkDay (h : s.Writing fs f) (c : Setting) (now : ℕ) :
    ∃ fs' f', (s.checkDay c now true).Writing fs' f' ∧ Next fs f fs' f' := by
  unfold Logfile.checkDay
  split
  · have h' : ({ s with lastctime := now } : Logfile).Writing fs f := ⟨h.file, h.files_eq, h.size⟩
    dsimp only
    split
    · exact ⟨_, _, h'.rollFile false now, Or.inr ⟨rfl, rfl⟩⟩
    · exact ⟨_, _, h', Or.inl ⟨rfl, rfl⟩⟩
  · exact ⟨_, _, h, Or.inl ⟨rfl, rfl⟩⟩

/-- A file that was just opened is not full. -/
theorem Writing.rolled (h : s.Writing fs f) (c : Setting) {m : Call} (hday : m.opensDay = true)
    (hsize : m.opensSize = true) :
    ∃ fs' f', (s.rolled c m).Writing fs' f' ∧ Next fs f fs' f' ∧ f'.length < c.rollsize := by
  have htick : ({ s with clock := m.now } : Logfile).Writing fs f := ⟨h.file, h.files_eq, h.size⟩
  have hpos := c.rollsize_pos
  obtain ⟨fs₁, f₁, h₁, hnext⟩ := htick.checkDay c m.now
  rw [Logfile.rolled, hday, hsize]
  unfold checkSize
  split
  · rename_i hfull
    rw [h₁.size] at hfull
    rcases hnext with ⟨rfl, rfl⟩ | ⟨rfl, rfl⟩
    · exact ⟨_, _, h₁.rollFile false m.now, Or.inr ⟨rfl, rfl⟩, hpos⟩
    · exact absurd hfull (not_le.mpr hpos)
  · rename_i hfull
    rw [h₁.size] at hfull
    exact ⟨_, _, h₁, hnext, not_le.mp hfull⟩

/-- `fwrite` takes everything at once. -/
theorem Writing.writeLoop (h : s.Writing fs f) (now : ℕ) {data : List Byte} {ws : List ℕ}
    (hws : ws.head? = some data.length) :
    ∃ s', Logfile.writeLoop now data ws true data.length s = some (s', 0) ∧
      s'.Writing fs (f ++ data) := by
  obtain ⟨rest, rfl⟩ := List.head?_eq_some_iff.mp hws
  unfold Logfile.writeLoop
  split
  · rename_i hnil
    rw [List.eq_nil_of_length_eq_zero hnil, List.append_nil]
    exact ⟨s, rfl, h⟩
  · rename_i hne
    obtain ⟨name, hfile⟩ := Option.ne_none_iff_exists'.mp h.file
    refine ⟨{ s with
      writesize := s.writesize + data.length
      events := .wrote now name true data :: s.events }, ?_, ?_, ?_, ?_⟩
    · have hfwrite : s.fwrite now true (data.take (min data.length data.length)) = some { s with
          writesize := s.writesize + data.length
          events := .wrote now name true data :: s.events } := by
        rw [Nat.min_self, List.take_length, fwrite, hfile]
      dsimp only
      rw [hfwrite, Option.bind_some, Nat.min_self, if_neg hne, Nat.sub_self]
      cases rest with
      | nil => rw [Logfile.writeLoop, if_pos rfl]
      | cons w rest => rw [Logfile.writeLoop, if_pos rfl]
    · exact h.file
    · rw [files, h.files_eq, appendLast_concat]
    · rw [List.length_append, ← h.size]

theorem Writing.write (h : s.Writing fs f) (c : Setting) {m : Call} (hday : m.opensDay = true)
    (hsize : m.opensSize = true) (hws : m.fwrites.head? = some m.data.length) :
    ∃ s' fs' f', s.write c m = some (s', true) ∧ s'.Writing fs' (f' ++ m.data) ∧
      Next fs f fs' f' ∧ f'.length < c.rollsize := by
  obtain ⟨name, hfile⟩ := Option.ne_none_iff_exists'.mp h.file
  obtain ⟨fs', f', h', hnext, hlt⟩ := h.rolled c hday hsize
  obtain ⟨s', hloop, hs'⟩ := h'.writeLoop m.now hws
  refine ⟨s', fs', f', ?_, hs', hnext, hlt⟩
  rw [write_eq_map hfile, hloop]
  rfl

end Logfile

/-! ## The logger with its file -/

/-- A logger whose file is set, and what was given to `_output`. -/
structure FileLogger (n : ℕ) where
  logger : Logger n
  logfile : Logfile
  output : List UInt8

namespace FileLogger

open Logger

/-- The steps.  The write of `dump` comes with the time and with what `fopen` and `fwrite` do. -/
inductive Act where
  | log (data : List UInt8)
  | lock
  | wake
  | write (now : ℕ) (opensDay opensSize : Bool) (fwrites : List ℕ)
  | release
  deriving DecidableEq

def Act.move : Act → LogMove
  | .log data => .log data
  | .lock => .lock
  | .wake => .wake
  | .write _ _ _ _ => .write
  | .release => .release

variable {n : ℕ} [NeZero n]

/-- `setfilename` -/
def started (c : Logfile.Setting) (n : ℕ) [NeZero n] (now : ℕ) : FileLogger n :=
  ⟨initial, .logfile c now true, []⟩

/-- `_file->write` and `_output` with the buffer of the consumer. -/
def write (c : Logfile.Setting) (s : FileLogger n) (now : ℕ) (opensDay opensSize : Bool)
    (fwrites : List ℕ) : Option (FileLogger n) :=
  let data := (s.logger.nodes s.logger.consumer).buffer.data
  (s.logfile.write c ⟨now, data, opensDay, opensSize, fwrites⟩).map fun r ↦
    ⟨s.logger.write, r.1, s.output ++ data⟩

def step (c : Logfile.Setting) (s : FileLogger n) : Act → Option (FileLogger n)
  | .write now opensDay opensSize fwrites => s.write c now opensDay opensSize fwrites
  | a => some { s with logger := s.logger.step a.move }

def enabled (s : FileLogger n) (a : Act) : Prop :=
  s.logger.CanMove a.move ∧
    match a with
    | .write now _ _ _ => s.logfile.clock ≤ now
    | _ => True

def system (c : Logfile.Setting) (n : ℕ) [NeZero n] : System (FileLogger n) Act :=
  ⟨enabled, step c⟩

/-- The files can be opened, and `fwrite` takes what it is given. -/
def Works (s : FileLogger n) : Act → Prop
  | .write _ opensDay opensSize fwrites =>
      opensDay = true ∧ opensSize = true ∧
        fwrites.head? = some (s.logger.nodes s.logger.consumer).buffer.data.length
  | _ => True

def files (s : FileLogger n) : List (List UInt8) := Logfile.files s.logfile.events

instance (s : FileLogger n) (a : Act) : Decidable (s.enabled a) :=
  match a with
  | .log _ => inferInstanceAs (Decidable (s.logger.CanMove _ ∧ True))
  | .lock => inferInstanceAs (Decidable (s.logger.CanMove _ ∧ True))
  | .wake => inferInstanceAs (Decidable (s.logger.CanMove _ ∧ True))
  | .write now _ _ _ => inferInstanceAs (Decidable (s.logger.CanMove _ ∧ s.logfile.clock ≤ now))
  | .release => inferInstanceAs (Decidable (s.logger.CanMove _ ∧ True))

instance (c : Logfile.Setting) (s : FileLogger n) (a : Act) :
    Decidable ((system c n).enabled s a) :=
  inferInstanceAs (Decidable (s.enabled a))

instance (s : FileLogger n) (a : Act) : Decidable (s.Works a) :=
  match a with
  | .write _ opensDay opensSize fwrites =>
      inferInstanceAs (Decidable (opensDay = true ∧ opensSize = true ∧ fwrites.head? = some _))
  | .log _ | .lock | .wake | .release => inferInstanceAs (Decidable True)

/-- The files and the console have what the ring gave away, each file begins with a record and
none is longer than a full one and a node. -/
structure Inv (c : Logfile.Setting) (s : FileLogger n) : Prop where
  ordered : s.logger.Ordered
  aligned : s.logger.Aligned
  writing : ∃ fs f, s.logfile.Writing fs f
  output : s.output = s.logger.file
  files_eq : s.files.flatten = s.logger.file
  whole : ∀ k, Whole s.logger.accepted (s.files.take k).flatten
  size : ∀ f ∈ s.files, f.length < c.rollsize + nodeSize

variable {c : Logfile.Setting} {s : FileLogger n}

theorem files_started (c : Logfile.Setting) (now : ℕ) : (started c n now).files = [[]] :=
  (Logfile.writing_logfile c now).files_eq

theorem inv_started (c : Logfile.Setting) (now : ℕ) : (started c n now).Inv c where
  ordered := ordered_initial
  aligned := aligned_initial
  writing := ⟨_, _, Logfile.writing_logfile c now⟩
  output := rfl
  files_eq := by
    rw [files_started]
    rfl
  whole k := by
    rw [files_started]
    refine ⟨0, ?_⟩
    cases k <;> simp
  size f hf := by
    have hpos := c.rollsize_pos
    rw [files_started, List.mem_singleton] at hf
    rw [hf, List.length_nil]
    omega

theorem logger_frame (s : Logger n) {m : LogMove} (h : m ≠ .write) :
    (s.step m).file = s.file ∧ ∃ new, (s.step m).accepted = s.accepted ++ new := by
  have hsame : s.accepted = s.accepted ++ [] := (List.append_nil _).symm
  cases m with
  | log data => exact (log_frame s data).2
  | lock =>
      change s.lock.file = s.file ∧ ∃ new, s.lock.accepted = s.accepted ++ new
      unfold Logger.lock
      split <;> exact ⟨rfl, [], hsame⟩
  | wake =>
      change s.wake.file = s.file ∧ ∃ new, s.wake.accepted = s.accepted ++ new
      unfold Logger.wake
      dsimp only
      split
      · split <;> exact ⟨rfl, [], hsame⟩
      · exact ⟨rfl, [], hsame⟩
  | write => exact absurd rfl h
  | release =>
      change s.release.file = s.file ∧ ∃ new, s.release.accepted = s.accepted ++ new
      unfold Logger.release
      split <;> exact ⟨rfl, [], hsame⟩

/-- A step that writes nothing. -/
theorem Inv.move (h : s.Inv c) {m : LogMove} (hm : m ≠ .write) (hcan : s.logger.CanMove m) :
    ({ s with logger := s.logger.step m } : FileLogger n).Inv c := by
  obtain ⟨hfile, new, haccepted⟩ := logger_frame s.logger hm
  refine ⟨h.ordered.step hcan, h.aligned.step h.ordered hcan, h.writing, h.output.trans hfile.symm,
    h.files_eq.trans hfile.symm, ?_, h.size⟩
  intro k
  change Whole (s.logger.step m).accepted _
  rw [haccepted]
  exact (h.whole k).append new

theorem flatten_next {fs fs' : List (List UInt8)} {f f' : List UInt8}
    (h : Logfile.Next fs f fs' f') (data : List UInt8) :
    (fs' ++ [f' ++ data]).flatten = (fs ++ [f]).flatten ++ data := by
  rcases h with ⟨rfl, rfl⟩ | ⟨rfl, rfl⟩ <;> simp

theorem begins_next {fs fs' : List (List UInt8)} {f f' : List UInt8}
    (h : Logfile.Next fs f fs' f') : fs' <+: fs ++ [f] := by
  rcases h with ⟨rfl, rfl⟩ | ⟨rfl, rfl⟩
  · exact List.prefix_append _ _
  · exact List.prefix_rfl

theorem Inv.write (h : s.Inv c) (hphase : s.logger.phase = .writing) {now : ℕ}
    {opensDay opensSize : Bool} {fwrites : List ℕ}
    (hworks : s.Works (.write now opensDay opensSize fwrites)) :
    ∃ s', s.write c now opensDay opensSize fwrites = some s' ∧ s'.Inv c := by
  obtain ⟨hday, hsize, hfwrites⟩ := hworks
  obtain ⟨fs, f, hwriting⟩ := h.writing
  have hbuffer := (s.logger.nodes s.logger.consumer).buffer.length_le
  generalize hdata : (s.logger.nodes s.logger.consumer).buffer.data = data at hfwrites hbuffer
  obtain ⟨l, fs', f', hwrite, hwriting', hnext, hlt⟩ :=
    hwriting.write c (m := ⟨now, data, opensDay, opensSize, fwrites⟩) hday hsize hfwrites
  have hfiles : s.files = fs ++ [f] := hwriting.files_eq
  have hfiles' : Logfile.files l.events = fs' ++ [f' ++ data] := hwriting'.files_eq
  have hcan : s.logger.CanMove .write := hphase
  have haligned := h.aligned.step h.ordered hcan
  have hflatten : (fs' ++ [f' ++ data]).flatten = s.logger.write.file := by
    rw [flatten_next hnext, ← hfiles, h.files_eq, Logger.write, hdata]
  refine ⟨⟨s.logger.write, l, s.output ++ data⟩, ?_, h.ordered.step hcan, haligned,
    ⟨_, _, hwriting'⟩, ?_, ?_, ?_, ?_⟩
  · rw [FileLogger.write, hdata]
    simp only [hwrite, Option.map_some]
  · rw [Logger.write, ← hdata, h.output]
  · rw [files, hfiles']
    exact hflatten
  · intro k
    rw [files, hfiles']
    rcases Nat.lt_or_ge fs'.length k with hk | hk
    · rw [List.take_of_length_le (by simpa using hk), hflatten]
      have hall := haligned 0
      have hnil : unwritten (s.logger.step .write).phase [] = [] := rfl
      rwa [List.take_zero, hnil, List.append_nil] at hall
    · rw [List.take_append_of_le_length hk]
      have hwhole := h.whole k
      rw [hfiles] at hwhole
      obtain ⟨rest, hrest⟩ := begins_next hnext
      rwa [← hrest, List.take_append_of_le_length hk] at hwhole
  · intro g hg
    rw [files, hfiles', List.mem_append, List.mem_singleton] at hg
    rcases hg with hg | rfl
    · apply h.size
      rw [hfiles]
      exact (begins_next hnext).subset hg
    · rw [List.length_append]
      omega

theorem Inv.step (h : s.Inv c) {a : Act} (henabled : s.enabled a) (hworks : s.Works a) :
    ∃ s', s.step c a = some s' ∧ s'.Inv c := by
  cases a with
  | write now opensDay opensSize fwrites => exact h.write henabled.1 hworks
  | log data => exact ⟨_, rfl, h.move (by simp [Act.move]) henabled.1⟩
  | lock => exact ⟨_, rfl, h.move (by simp [Act.move]) henabled.1⟩
  | wake => exact ⟨_, rfl, h.move (by simp [Act.move]) henabled.1⟩
  | release => exact ⟨_, rfl, h.move (by simp [Act.move]) henabled.1⟩

/-- Where the files can be opened and written, the files one after the other are what the console
got, which is, with what waits in the ring, all records that `log` accepted, in the order of the
lock.  No record is torn apart: each file ends with a whole record.  And no file is longer than a
full one and a node. -/
theorem records_in_files (c : Logfile.Setting) (now : ℕ) {acts : List Act}
    (h : (system c n).Allowed Works (started c n now) acts) :
    ∃ s, (system c n).run (started c n now) acts = some s ∧
      s.files.flatten = s.output ∧ s.output ++ s.logger.pending = s.logger.accepted.flatten ∧
        (∀ k, ∃ j, (s.files.take k).flatten = (s.logger.accepted.take j).flatten) ∧
          ∀ f ∈ s.files, f.length < c.rollsize + nodeSize := by
  obtain ⟨s, hrun, hinv⟩ := System.run_invariant (I := Inv c)
    (fun _ _ hs henabled hworks ↦ hs.step henabled hworks) (inv_started c now) h
  refine ⟨s, hrun, ?_, ?_, hinv.whole, hinv.size⟩
  · rw [hinv.files_eq, hinv.output]
  · rw [hinv.output]
    exact hinv.ordered.bytes

/-- The second record is discarded, and the third one is written on the next day. -/
def sampleActs : List Act :=
  [.log [1, 2], .lock, .wake, .write 5 true true [2], .log [3], .release, .lock, .log [4], .wake,
    .write 86400 true true [1], .release, .lock, .log [5, 6], .wake, .write 86401 true true [2]]

theorem records_in_files_sampleActs :
    ∃ s, (system Logfile.sampleSetting 2).run (started Logfile.sampleSetting 2 0) sampleActs =
        some s ∧
      s.files.flatten = s.output ∧ s.output ++ s.logger.pending = s.logger.accepted.flatten ∧
        (∀ k, ∃ j, (s.files.take k).flatten = (s.logger.accepted.take j).flatten) ∧
          ∀ f ∈ s.files, f.length < Logfile.sampleSetting.rollsize + nodeSize :=
  records_in_files Logfile.sampleSetting 0 (by decide +kernel)

end FileLogger

end Slience
