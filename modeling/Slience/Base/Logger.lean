import Slience.Lib.Circular
import Slience.Lib.Run

/-!
# The ring of log buffers

`logger::log` and `logger::dump` with the `buffer_circular` between them (`logger.hpp` and
`logger.cpp`), for a logger whose file is set.  `log` and the two locked sections of `dump` are
one step each; the wait in the first section, during which the lock is free, and the write
between the sections are others.  A `fixedbuffer` is the part of its data before `_pos`.
-/

namespace Slience

/-- `fixedbuffer<SIZE>` -/
structure FixedBuffer (SIZE : ℕ) where
  data : List UInt8
  length_le : data.length ≤ SIZE
  deriving DecidableEq

namespace FixedBuffer

variable {SIZE : ℕ}

def clear : FixedBuffer SIZE := ⟨[], Nat.zero_le SIZE⟩

def length (b : FixedBuffer SIZE) : ℕ := b.data.length

def avail (b : FixedBuffer SIZE) : ℕ := SIZE - b.length

/-- What does not fit is cut off. -/
def append (b : FixedBuffer SIZE) (data : List UInt8) : FixedBuffer SIZE where
  data := b.data ++ data.take (if b.avail < data.length then b.avail else data.length)
  length_le := by
    have h := b.length_le
    rw [List.length_append, List.length_take, avail, length]
    split <;> omega

theorem data_append {b : FixedBuffer SIZE} {data : List UInt8} (h : data.length ≤ b.avail) :
    (b.append data).data = b.data ++ data := by
  change b.data ++ data.take (if b.avail < data.length then b.avail else data.length) = _
  rw [if_neg (not_lt.mpr h), List.take_length]

end FixedBuffer

namespace Logger

/-- The size of the buffer of a node, four megabytes. -/
def nodeSize : ℕ := 4 * 1024 * 1024

/-- The longest record, four kilobytes. -/
def recordSize : ℕ := 4 * 1024

inductive NodeStatus where
  | free
  | full
  deriving DecidableEq

structure BufferNode where
  buffer : FixedBuffer nodeSize
  status : NodeStatus
  deriving DecidableEq

/-- Where `dump` is: before its first section, in the wait, before the write and after it. -/
inductive DumpPhase where
  | idle
  | waiting
  | writing
  | written
  deriving DecidableEq

end Logger

open Logger

/-- The state of a logger with `n` nodes, with the records that were not reported as discarded
and what the first section has left to be written. -/
structure Logger (n : ℕ) where
  nodes : Fin n → BufferNode
  producer : Fin n
  consumer : Fin n
  phase : DumpPhase
  file : List UInt8
  accepted : List (List UInt8)
  handed : List UInt8

namespace Logger

variable {n : ℕ} [NeZero n]

def initial : Logger n where
  nodes := fun _ ↦ ⟨.clear, .free⟩
  producer := 0
  consumer := 0
  phase := .idle
  file := []
  accepted := []
  handed := []

/-- `buffer_circular::next` -/
def next (node : Fin n) : Fin n := ⟨(node + 1) % n, Nat.mod_lt _ (NeZero.pos n)⟩

def setNode (s : Logger n) (i : Fin n) (node : BufferNode) : Logger n :=
  { s with nodes := Function.update s.nodes i node }

/-- `logger::log`, with whether the record is reported as discarded. -/
def log (s : Logger n) (data : List UInt8) : Logger n × Bool :=
  let node := s.nodes s.producer
  if node.status = .full then (s, true)
  else if data.length < node.buffer.avail then
    (s.setNode s.producer { node with buffer := node.buffer.append data }, false)
  else
    let s : Logger n :=
      { s.setNode s.producer { node with status := .full } with producer := next s.producer }
    let node := s.nodes s.producer
    if node.status = .full then (s, true)
    else (s.setNode s.producer { node with buffer := node.buffer.append data }, false)

/-- The first section is left, and the buffer of the consumer is written next. -/
def handOver (s : Logger n) : Logger n :=
  { s with phase := .writing, handed := (s.nodes s.consumer).buffer.data }

/-- The first section, up to the wait. -/
def lock (s : Logger n) : Logger n :=
  if (s.nodes s.consumer).status = .free then { s with phase := .waiting } else s.handOver

/-- The first section, after the wait. -/
def wake (s : Logger n) : Logger n :=
  let node := s.nodes s.consumer
  if node.status = .free then
    if 0 < node.buffer.length then (s.setNode s.consumer { node with status := .full }).handOver
    else { s with phase := .idle }
  else s.handOver

/-- `logfile::write`, without the lock. -/
def write (s : Logger n) : Logger n :=
  { s with phase := .written, file := s.file ++ (s.nodes s.consumer).buffer.data }

/-- The second section. -/
def release (s : Logger n) : Logger n :=
  let s := if s.consumer = s.producer then { s with producer := next s.producer } else s
  { s.setNode s.consumer ⟨.clear, .free⟩ with consumer := next s.consumer, phase := .idle }

inductive LogMove where
  | log (data : List UInt8)
  | lock
  | wake
  | write
  | release
  deriving DecidableEq

def step (s : Logger n) : LogMove → Logger n
  | .log data =>
      let (s', discarded) := s.log data
      { s' with accepted := if discarded then s.accepted else s.accepted ++ [data] }
  | .lock => s.lock
  | .wake => s.wake
  | .write => s.write
  | .release => s.release

def CanMove (s : Logger n) : LogMove → Prop
  | .log data => data.length ≤ recordSize
  | .lock => s.phase = .idle
  | .wake => s.phase = .waiting
  | .write => s.phase = .writing
  | .release => s.phase = .written

instance (s : Logger n) (m : LogMove) : Decidable (s.CanMove m) :=
  match m with
  | .log data => inferInstanceAs (Decidable (data.length ≤ recordSize))
  | .lock => inferInstanceAs (Decidable (s.phase = .idle))
  | .wake => inferInstanceAs (Decidable (s.phase = .waiting))
  | .write => inferInstanceAs (Decidable (s.phase = .writing))
  | .release => inferInstanceAs (Decidable (s.phase = .written))

def system (n : ℕ) [NeZero n] : System (Logger n) LogMove where
  enabled := CanMove
  step := fun s m ↦ some (s.step m)

instance (s : Logger n) (m : LogMove) : Decidable ((system n).enabled s m) :=
  inferInstanceAs (Decidable (s.CanMove m))

/-! ## What the ring holds -/

/-- The nodes in ring order, from the consumer on. -/
def ring (s : Logger n) : List BufferNode := Circular.toList s.nodes s.consumer

def contents (r : List BufferNode) : List UInt8 := r.flatMap (·.buffer.data)

/-- What these nodes hold that is not in the file: the first one, that of the consumer, is left
out when it has been written. -/
def unwritten (phase : DumpPhase) (r : List BufferNode) : List UInt8 :=
  match phase with
  | .written => contents r.tail
  | .idle | .waiting | .writing => contents r

def pending (s : Logger n) : List UInt8 := unwritten s.phase s.ring

end Logger

end Slience
