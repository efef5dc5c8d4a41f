import Slience.Base.Logger

/-!
# The records in the ring

Seen from the consumer the ring has one of two shapes.  Either full nodes are followed by the
free node of the producer and then by empty nodes, or producer and consumer are on the same full
node: a flush has filled it, or the ring has overflown, and the producer goes along with the
consumer until all full nodes are written.  In both shapes new bytes come after all others.
-/

namespace Slience

namespace Logger

/-- A node that nothing was written to since it was cleared. -/
def IsEmpty (node : BufferNode) : Prop := node.status = .free ∧ node.buffer.data = []

/-- The ring from the consumer on, and how far the producer is from the consumer. -/
inductive Shape : List BufferNode → ℕ → Prop
  | filling {full rest : List BufferNode} {cur : BufferNode} (hfull : ∀ b ∈ full, b.status = .full)
      (hcur : cur.status = .free) (hrest : ∀ b ∈ rest, IsEmpty b) :
      Shape (full ++ cur :: rest) full.length
  | stuck {first : BufferNode} {full rest : List BufferNode} (hfirst : first.status = .full)
      (hfull : ∀ b ∈ full, b.status = .full) (hrest : ∀ b ∈ rest, IsEmpty b) :
      Shape (first :: (full ++ rest)) 0

/-- The first node belongs to `dump`. -/
def Busy : DumpPhase → Prop
  | .writing | .written => True
  | .idle | .waiting => False

variable {n : ℕ}

structure Ordered (s : Logger n) : Prop where
  shape : ∃ k : Fin n, s.producer = s.consumer + k ∧ Shape s.ring k
  busy : Busy s.phase → ∀ b ∈ s.ring.head?, b.status = .full ∧ b.buffer.data = s.handed
  bytes : s.file ++ s.pending = s.accepted.flatten

/-! ## Nodes and their contents -/

theorem contents_append (r r' : List BufferNode) : contents (r ++ r') = contents r ++ contents r' :=
  List.flatMap_append

theorem contents_cons (b : BufferNode) (r : List BufferNode) :
    contents (b :: r) = b.buffer.data ++ contents r :=
  List.flatMap_cons

theorem contents_of_empty {r : List BufferNode} (h : ∀ b ∈ r, IsEmpty b) : contents r = [] := by
  rw [contents, List.flatMap_eq_nil_iff]
  exact fun b hb ↦ (h b hb).2

theorem unwritten_append {phase : DumpPhase} {r : List BufferNode} (r' : List BufferNode)
    (h : Busy phase → r ≠ []) : unwritten phase (r ++ r') = unwritten phase r ++ contents r' := by
  cases phase with
  | written =>
      cases r with
      | nil => exact absurd rfl (h trivial)
      | cons b r => exact contents_append r r'
  | idle => exact contents_append r r'
  | waiting => exact contents_append r r'
  | writing => exact contents_append r r'

theorem unwritten_of_not_busy {phase : DumpPhase} (h : ¬ Busy phase) (r : List BufferNode) :
    unwritten phase r = contents r := by
  cases phase with
  | idle => rfl
  | waiting => rfl
  | writing => exact absurd trivial h
  | written => exact absurd trivial h

theorem ring_setNode (s : Logger n) (k : Fin n) (node : BufferNode) :
    (s.setNode (s.consumer + k) node).ring = s.ring.set k node :=
  Circular.toList_update ..

theorem length_ring (s : Logger n) : s.ring.length = n :=
  Circular.length_toList ..

theorem getElem?_ring (s : Logger n) {k : Fin n} (hk : s.producer = s.consumer + k) :
    s.ring[k.val]? = some (s.nodes s.producer) := by
  rw [hk]
  exact Circular.getElem?_toList ..

theorem producer_eq {s : Logger n} {k : Fin n} (hk : s.producer = s.consumer + k)
    {full rest : List BufferNode} {cur : BufferNode} (hring : s.ring = full ++ cur :: rest)
    (hval : k.val = full.length) : s.nodes s.producer = cur := by
  have hget := getElem?_ring s hk
  rw [hring, hval, List.getElem?_append_right le_rfl, Nat.sub_self] at hget
  exact (Option.some.inj hget).symm

theorem producer_eq_head {s : Logger n} {k : Fin n} (hk : s.producer = s.consumer + k)
    {first : BufferNode} {rest : List BufferNode} (hring : s.ring = first :: rest)
    (hval : k.val = 0) : s.nodes s.producer = first :=
  producer_eq hk (show s.ring = [] ++ first :: rest from hring) hval

theorem setNode_eq {s : Logger n} {k : Fin n} (hk : s.producer = s.consumer + k)
    {full rest : List BufferNode} {cur : BufferNode} (hring : s.ring = full ++ cur :: rest)
    (hval : k.val = full.length) (node : BufferNode) :
    (s.setNode s.producer node).ring = full ++ node :: rest := by
  rw [hk, ring_setNode, hring, hval]
  simp

theorem Ordered.full_ne_nil {s : Logger n} (h : s.Ordered) {full rest : List BufferNode}
    {cur : BufferNode} (hring : s.ring = full ++ cur :: rest) (hcur : cur.status = .free) :
    Busy s.phase → full ≠ [] := by
  rintro hbusy rfl
  have hfirst := (h.busy hbusy cur (by rw [hring]; rfl)).1
  rw [hcur] at hfirst
  cases hfirst

/-- Bytes that come to the node of the producer or to the one after it come after all others. -/
theorem Ordered.bytes_extend {s : Logger n} (h : s.Ordered) {full rest : List BufferNode}
    {cur : BufferNode} (hring : s.ring = full ++ cur :: rest) (hcur : cur.status = .free)
    {data : List UInt8} {r : List BufferNode} (hr : contents r = contents (cur :: rest) ++ data) :
    s.file ++ unwritten s.phase (full ++ r) = s.accepted.flatten ++ data := by
  have hfull := h.full_ne_nil hring hcur
  rw [← h.bytes, pending, hring, unwritten_append _ hfull, unwritten_append _ hfull, hr]
  simp only [List.append_assoc]

theorem Ordered.busy_extend {s : Logger n} (h : s.Ordered) {full rest r : List BufferNode}
    {cur : BufferNode} (hring : s.ring = full ++ cur :: rest) (hcur : cur.status = .free)
    (hbusy : Busy s.phase) :
    ∀ b ∈ (full ++ r).head?, b.status = .full ∧ b.buffer.data = s.handed := by
  cases full with
  | nil => exact absurd rfl (h.full_ne_nil hring hcur hbusy)
  | cons f full =>
      have hold := h.busy hbusy
      rw [hring] at hold
      exact hold

theorem Ordered.rephase {s : Logger n} (h : s.Ordered) (hphase : ¬ Busy s.phase)
    {phase : DumpPhase} (hphase' : ¬ Busy phase) : { s with phase := phase }.Ordered := by
  refine ⟨h.shape, fun hbusy ↦ absurd hbusy hphase', ?_⟩
  have hbytes := h.bytes
  rw [pending, unwritten_of_not_busy hphase] at hbytes
  rw [pending, unwritten_of_not_busy hphase']
  exact hbytes

variable [NeZero n] {s : Logger n}

theorem next_eq (node : Fin n) : next node = node + 1 := by
  apply Fin.ext
  rw [Circular.val_add_one]
  rfl

theorem ring_eq_cons (s : Logger n) : s.ring = s.nodes s.consumer :: s.ring.tail :=
  Circular.toList_eq_cons ..

theorem ordered_initial : (initial : Logger n).Ordered := by
  have hempty : ∀ b ∈ (initial : Logger n).ring, IsEmpty b := by
    intro b hb
    obtain ⟨k, rfl⟩ := List.mem_ofFn.mp hb
    exact ⟨rfl, rfl⟩
  refine ⟨⟨0, (add_zero _).symm, ?_⟩, False.elim, contents_of_empty hempty⟩
  rw [ring_eq_cons] at hempty ⊢
  change Shape ([] ++ _ :: _) ([] : List BufferNode).length
  exact Shape.filling (by simp) rfl fun b hb ↦ hempty b (List.mem_cons_of_mem _ hb)

/-! ## `log` -/

theorem log_of_full {data : List UInt8} (h : (s.nodes s.producer).status = .full) :
    s.log data = (s, true) :=
  if_pos h

theorem log_of_avail {data : List UInt8} {cur : BufferNode} (hnode : s.nodes s.producer = cur)
    (hcur : cur.status = .free) (havail : data.length < cur.buffer.avail) :
    s.log data =
      (s.setNode s.producer { cur with buffer := cur.buffer.append data }, false) := by
  have hfree : cur.status ≠ .full := by
    rw [hcur]
    decide
  unfold log
  rw [hnode, if_neg hfree, if_pos havail]

/-- The node of the producer is marked full, and the producer goes on. -/
def turn (s : Logger n) : Logger n :=
  { s.setNode s.producer { s.nodes s.producer with status := .full } with
    producer := next s.producer }

theorem log_of_turn {data : List UInt8} {cur : BufferNode} (hnode : s.nodes s.producer = cur)
    (hcur : cur.status = .free) (havail : ¬ data.length < cur.buffer.avail) :
    s.log data =
      if (s.turn.nodes s.turn.producer).status = .full then (s.turn, true)
      else (s.turn.setNode s.turn.producer { s.turn.nodes s.turn.producer with
        buffer := (s.turn.nodes s.turn.producer).buffer.append data }, false) := by
  have hfree : (s.nodes s.producer).status ≠ .full := by
    rw [hnode, hcur]
    decide
  rw [← hnode] at havail
  unfold log
  rw [if_neg hfree, if_neg havail]
  rfl

theorem turn_producer {k : Fin n} (hk : s.producer = s.consumer + k) :
    s.turn.producer = s.turn.consumer + (k + 1) := by
  change next s.producer = s.consumer + (k + 1)
  rw [next_eq, hk, add_assoc]

section Turned

variable {k : Fin n} {full rest : List BufferNode} {cur : BufferNode}

theorem turn_ring (hk : s.producer = s.consumer + k) (hring : s.ring = full ++ cur :: rest)
    (hval : k.val = full.length) :
    s.turn.ring = full ++ { cur with status := .full } :: rest := by
  change (s.setNode s.producer { s.nodes s.producer with status := .full }).ring = _
  rw [producer_eq hk hring hval, setNode_eq hk hring hval]

theorem full_turned (cur : BufferNode) (hfull : ∀ b ∈ full, b.status = .full) :
    ∀ b ∈ full ++ [{ cur with status := .full }], b.status = .full :=
  List.forall_mem_append.mpr ⟨hfull, List.forall_mem_singleton.mpr rfl⟩

/-- The next node of the producer is one that nothing was written to. -/
theorem turn_next {x : BufferNode} (hk : s.producer = s.consumer + k)
    (hring : s.ring = full ++ cur :: x :: rest) (hval : k.val = full.length) :
    (k + 1).val = (full ++ [{ cur with status := .full }]).length ∧
      s.turn.ring = (full ++ [{ cur with status := .full }]) ++ x :: rest := by
  have hcount : full.length + (rest.length + 2) = n := by
    rw [← length_ring s, hring, List.length_append, List.length_cons, List.length_cons]
  constructor
  · rw [Circular.val_add_one, hval, Nat.mod_eq_of_lt (by omega), List.length_append,
      List.length_singleton]
  · rw [turn_ring hk hring hval, List.append_assoc]
    rfl

end Turned

theorem Ordered.log_fill (h : s.Ordered) {k : Fin n} (hk : s.producer = s.consumer + k)
    {full rest : List BufferNode} {cur : BufferNode} (hring : s.ring = full ++ cur :: rest)
    (hval : k.val = full.length) (hfull : ∀ b ∈ full, b.status = .full) (hcur : cur.status = .free)
    (hrest : ∀ b ∈ rest, IsEmpty b) {data : List UInt8} (havail : data.length < cur.buffer.avail) :
    (s.step (.log data)).Ordered := by
  have hnode := producer_eq hk hring hval
  have hring' := setNode_eq hk hring hval { cur with buffer := cur.buffer.append data }
  have hcontents : contents ({ cur with buffer := cur.buffer.append data } :: rest) =
      contents (cur :: rest) ++ data := by
    rw [contents_cons, contents_cons, contents_of_empty hrest, FixedBuffer.data_append havail.le]
    simp
  rw [step, log_of_avail hnode hcur havail]
  refine ⟨⟨k, hk, ?_⟩, ?_, ?_⟩
  · change Shape (s.setNode s.producer _).ring k
    rw [hring', hval]
    exact Shape.filling hfull hcur hrest
  · change Busy s.phase → ∀ b ∈ (s.setNode s.producer _).ring.head?, _
    rw [hring']
    exact h.busy_extend hring hcur
  · change s.file ++ unwritten s.phase (s.setNode s.producer _).ring =
      (s.accepted ++ [data]).flatten
    rw [hring', h.bytes_extend hring hcur hcontents]
    simp

theorem Ordered.log_turn (h : s.Ordered) {k : Fin n} (hk : s.producer = s.consumer + k)
    {full rest : List BufferNode} {cur : BufferNode} (hring : s.ring = full ++ cur :: rest)
    (hval : k.val = full.length) (hfull : ∀ b ∈ full, b.status = .full) (hcur : cur.status = .free)
    (hrest : ∀ b ∈ rest, IsEmpty b) {data : List UInt8} (hlen : data.length ≤ recordSize)
    (havail : ¬ data.length < cur.buffer.avail) : (s.step (.log data)).Ordered := by
  have hnode := producer_eq hk hring hval
  have hturned := turn_ring hk hring hval
  have hk' := turn_producer hk
  have hfull' := full_turned cur hfull
  rw [step, log_of_turn hnode hcur havail]
  cases rest with
  | nil =>
      -- the ring is full: the next node is the one of the consumer
      have hcount : full.length + 1 = n := by
        rw [← length_ring s, hring, List.length_append, List.length_singleton]
      have hval' : (k + 1).val = 0 := by
        rw [Circular.val_add_one, hval, hcount, Nat.mod_self]
      obtain ⟨first, full', hcons⟩ := List.exists_cons_of_ne_nil
        (List.append_ne_nil_of_right_ne_nil full (List.cons_ne_nil { cur with status := .full } []))
      rw [hcons] at hturned hfull'
      have hfirst : s.turn.nodes s.turn.producer = first := producer_eq_head hk' hturned hval'
      have hstatus : first.status = .full := hfull' first List.mem_cons_self
      rw [hfirst, if_pos hstatus]
      refine ⟨⟨k + 1, hk', ?_⟩, ?_, ?_⟩
      · change Shape s.turn.ring _
        rw [hturned, hval', ← List.append_nil full']
        exact Shape.stuck hstatus (fun b hb ↦ hfull' b (List.mem_cons_of_mem _ hb)) (by simp)
      · change Busy s.phase → ∀ b ∈ s.turn.ring.head?, _
        rw [hturned, ← hcons]
        exact h.busy_extend hring hcur
      · change s.file ++ unwritten s.phase s.turn.ring = s.accepted.flatten
        have hsame : contents [{ cur with status := .full }] = contents [cur] ++ [] := by
          rw [List.append_nil]
          rfl
        rw [hturned, ← hcons, h.bytes_extend hring hcur hsame, List.append_nil]
  | cons x rest =>
      obtain ⟨hval', hturned'⟩ := turn_next hk hring hval
      have hx := hrest x List.mem_cons_self
      have hrest' : ∀ b ∈ rest, IsEmpty b := fun b hb ↦ hrest b (List.mem_cons_of_mem _ hb)
      have hfree : x.status ≠ .full := by
        rw [hx.1]
        decide
      have hnode' := producer_eq hk' hturned' hval'
      have hring' := setNode_eq hk' hturned' hval' { x with buffer := x.buffer.append data }
      have hroom : data.length ≤ x.buffer.avail := by
        rw [FixedBuffer.avail, FixedBuffer.length, hx.2]
        exact hlen.trans (by decide)
      rw [hnode', if_neg hfree]
      refine ⟨⟨k + 1, hk', ?_⟩, ?_, ?_⟩
      · change Shape (s.turn.setNode s.turn.producer _).ring _
        rw [hring', hval']
        exact Shape.filling hfull' hx.1 hrest'
      · change Busy s.phase → ∀ b ∈ (s.turn.setNode s.turn.producer _).ring.head?, _
        rw [hring', List.append_assoc]
        exact h.busy_extend hring hcur
      · change s.file ++ unwritten s.phase (s.turn.setNode s.turn.producer _).ring =
          (s.accepted ++ [data]).flatten
        have hcontents : contents ([{ cur with status := .full }] ++
            { x with buffer := x.buffer.append data } :: rest) =
            contents (cur :: x :: rest) ++ data := by
          rw [contents_append, contents_cons, contents_cons, contents_cons, contents_cons,
            contents_of_empty hrest', FixedBuffer.data_append hroom, hx.2]
          simp [contents]
        rw [hring', List.append_assoc, h.bytes_extend hring hcur hcontents]
        simp

theorem Ordered.log (h : s.Ordered) {data : List UInt8} (hlen : data.length ≤ recordSize) :
    (s.step (.log data)).Ordered := by
  obtain ⟨k, hk, hshape⟩ := h.shape
  generalize hring : s.ring = r, hval : k.val = d at hshape
  cases hshape with
  | @filling full rest cur hfull hcur hrest =>
      by_cases havail : data.length < cur.buffer.avail
      · exact h.log_fill hk hring hval hfull hcur hrest havail
      · exact h.log_turn hk hring hval hfull hcur hrest hlen havail
  | @stuck first full rest hfirst hfull hrest =>
      have hnode : s.nodes s.producer = first := producer_eq_head hk hring hval
      rw [step, log_of_full (by rw [hnode]; exact hfirst)]
      exact h

/-! ## `dump` -/

theorem eq_full_of_ne_free {status : NodeStatus} (h : status ≠ .free) : status = .full := by
  cases status with
  | free => exact absurd rfl h
  | full => rfl

theorem Ordered.handOver (h : s.Ordered) (hphase : ¬ Busy s.phase)
    (hfull : (s.nodes s.consumer).status = .full) : s.handOver.Ordered := by
  refine ⟨h.shape, ?_, ?_⟩
  · intro _ b hb
    change b ∈ s.ring.head? at hb
    rw [ring_eq_cons] at hb
    cases hb
    exact ⟨hfull, rfl⟩
  · have hbytes := h.bytes
    rw [pending, unwritten_of_not_busy hphase] at hbytes
    exact hbytes

theorem Ordered.lock (h : s.Ordered) (hphase : s.phase = .idle) : s.lock.Ordered := by
  have hidle : ¬ Busy s.phase := by
    rw [hphase]
    exact not_false
  unfold Logger.lock
  split
  · exact h.rephase hidle not_false
  · rename_i hstatus
    apply h.handOver hidle
    exact eq_full_of_ne_free hstatus

theorem Ordered.flush (h : s.Ordered) (hphase : ¬ Busy s.phase)
    (hfree : (s.nodes s.consumer).status = .free) :
    (s.setNode s.consumer { s.nodes s.consumer with status := .full }).Ordered := by
  obtain ⟨k, hk, hshape⟩ := h.shape
  have hcons := ring_eq_cons s
  generalize hring : s.ring = r, hval : k.val = d at hshape
  cases hshape with
  | @stuck first full rest hfirst hfull hrest =>
      rw [hring] at hcons
      rw [(List.cons.inj hcons).1, hfree] at hfirst
      cases hfirst
  | @filling full rest cur hfull hcur hrest =>
      cases full with
      | cons f full =>
          rw [hring] at hcons
          have hf := hfull f List.mem_cons_self
          rw [(List.cons.inj hcons).1, hfree] at hf
          cases hf
      | nil =>
          have hk0 : k = 0 := Fin.ext hval
          have hproducer : s.producer = s.consumer := by rw [hk, hk0, add_zero]
          have hnode : s.nodes s.consumer = cur := by
            rw [← hproducer]
            exact producer_eq hk hring hval
          have hring' : (s.setNode s.consumer { cur with status := .full }).ring =
              { cur with status := .full } :: rest := by
            rw [← hproducer]
            exact setNode_eq hk hring hval _
          rw [hnode]
          refine ⟨⟨k, hk, ?_⟩, fun hbusy ↦ absurd hbusy hphase, ?_⟩
          · rw [hring', hval]
            change Shape (_ :: ([] ++ rest)) 0
            exact Shape.stuck rfl (by simp) hrest
          · change s.file ++ unwritten s.phase (s.setNode s.consumer _).ring = s.accepted.flatten
            have hsame : contents ({ cur with status := .full } :: rest) =
                contents (cur :: rest) ++ [] := by
              rw [List.append_nil]
              rfl
            have hbytes := h.bytes_extend hring hcur hsame
            rw [List.append_nil] at hbytes
            rw [hring']
            exact hbytes

theorem Ordered.wake (h : s.Ordered) (hphase : s.phase = .waiting) : s.wake.Ordered := by
  have hidle : ¬ Busy s.phase := by
    rw [hphase]
    exact not_false
  unfold Logger.wake
  dsimp only
  split
  · rename_i hfree
    split
    · apply (h.flush hidle hfree).handOver hidle
      change (Function.update s.nodes s.consumer _ s.consumer).status = .full
      rw [Function.update_self]
    · exact h.rephase hidle not_false
  · rename_i hstatus
    apply h.handOver hidle
    exact eq_full_of_ne_free hstatus

theorem Ordered.write (h : s.Ordered) (hphase : s.phase = .writing) : s.write.Ordered := by
  refine ⟨h.shape, fun _ ↦ h.busy (by rw [hphase]; trivial), ?_⟩
  have hbytes := h.bytes
  rw [pending, hphase] at hbytes
  change s.file ++ contents s.ring = _ at hbytes
  rw [ring_eq_cons, contents_cons, ← List.append_assoc] at hbytes
  exact hbytes

/-- The ring after the second section: the first node is cleared and comes last. -/
theorem ring_release (s : Logger n) :
    s.release.ring = s.ring.tail ++ [⟨.clear, .free⟩] := by
  have hring : s.release.ring = Circular.toList
      (Function.update s.nodes s.consumer ⟨.clear, .free⟩) (s.consumer + 1) := by
    unfold Logger.release ring
    split <;> rw [← next_eq] <;> rfl
  have hset := Circular.toList_update s.nodes s.consumer 0 ⟨.clear, .free⟩
  rw [add_zero] at hset
  have hcons := Circular.toList_eq_cons s.nodes s.consumer
  rw [hring, Circular.toList_add_one, hset, Function.update_self]
  change (s.ring.set 0 _).tail ++ _ = _
  rw [ring_eq_cons]
  rfl

theorem Ordered.release (h : s.Ordered) (hphase : s.phase = .written) : s.release.Ordered := by
  obtain ⟨k, hk, hshape⟩ := h.shape
  have hfirst := (h.busy (by rw [hphase]; trivial) _ (by rw [ring_eq_cons]; rfl)).1
  have hcons := ring_eq_cons s
  have hlast : IsEmpty ⟨.clear, .free⟩ := ⟨rfl, rfl⟩
  have hconsumer : s.release.consumer = s.consumer + 1 := by
    unfold Logger.release
    split <;> exact next_eq _
  have hrelease := ring_release s
  refine ⟨?_, False.elim, ?_⟩
  · generalize hring : s.ring = r, hval : k.val = d at hshape
    rw [hring] at hrelease hcons
    cases hshape with
    | @filling full rest cur hfull hcur hrest =>
        cases full with
        | nil =>
            rw [← (List.cons.inj hcons).1, hcur] at hfirst
            cases hfirst
        | cons f full =>
            -- the consumer comes one node closer to the producer
            have hlt : full.length + 1 < n := by
              rw [← List.length_cons, ← hval]
              exact k.isLt
            have hne : s.consumer ≠ s.producer := by
              intro heq
              rw [heq] at hk
              have hzero : k = 0 := by simpa using hk.symm
              rw [hzero] at hval
              cases hval
            have hk' : k = ⟨full.length, by omega⟩ + 1 := by
              apply Fin.ext
              rw [Circular.val_add_one, hval, Nat.mod_eq_of_lt hlt, List.length_cons]
            refine ⟨⟨full.length, by omega⟩, ?_, ?_⟩
            · have hproducer : s.release.producer = s.producer := by
                unfold Logger.release
                rw [if_neg hne]
                rfl
              rw [hproducer, hconsumer, hk, hk', add_assoc, add_comm 1]
            · have hrelease' : s.release.ring = full ++ cur :: (rest ++ [⟨.clear, .free⟩]) := by
                rw [hrelease, List.cons_append, List.tail_cons, List.append_assoc]
                rfl
              rw [hrelease']
              refine Shape.filling (fun b hb ↦ hfull b (List.mem_cons_of_mem _ hb)) hcur ?_
              intro b hb
              rw [List.mem_append, List.mem_singleton] at hb
              rcases hb with hb | rfl
              · exact hrest b hb
              · exact hlast
    | @stuck first full rest hfirst hfull hrest =>
        -- the producer goes along
        have hk0 : k = 0 := Fin.ext hval
        have heq : s.consumer = s.producer := by rw [hk, hk0, add_zero]
        have hproducer : s.release.producer = s.release.consumer + 0 := by
          unfold Logger.release
          rw [if_pos heq, add_zero]
          change next s.producer = next s.consumer
          rw [heq]
        have hrest' : ∀ b ∈ rest ++ [⟨.clear, .free⟩], IsEmpty b := by
          intro b hb
          rw [List.mem_append, List.mem_singleton] at hb
          rcases hb with hb | rfl
          · exact hrest b hb
          · exact hlast
        refine ⟨0, hproducer, ?_⟩
        rw [hrelease, List.tail_cons, List.append_assoc]
        cases full with
        | cons f full =>
            exact Shape.stuck (hfull f List.mem_cons_self)
              (fun b hb ↦ hfull b (List.mem_cons_of_mem _ hb)) hrest'
        | nil =>
            obtain ⟨cur, rest', hcur⟩ := List.exists_cons_of_ne_nil
              (List.append_ne_nil_of_right_ne_nil rest (List.cons_ne_nil _ []))
            rw [List.nil_append, hcur]
            rw [hcur] at hrest'
            change Shape ([] ++ cur :: rest') ([] : List BufferNode).length
            exact Shape.filling (by simp) (hrest' cur List.mem_cons_self).1
              fun b hb ↦ hrest' b (List.mem_cons_of_mem _ hb)
  · have hbytes := h.bytes
    rw [pending, hphase] at hbytes
    have hfile : s.release.file = s.file := by
      unfold Logger.release
      split <;> rfl
    have haccepted : s.release.accepted = s.accepted := by
      unfold Logger.release
      split <;> rfl
    change s.release.file ++ contents s.release.ring = s.release.accepted.flatten
    rw [hfile, haccepted, hrelease, contents_append, contents_cons, ← hbytes]
    simp [contents, unwritten, FixedBuffer.clear]

/-! ## Runs -/

theorem Ordered.step (h : s.Ordered) {m : LogMove} (hcan : s.CanMove m) : (s.step m).Ordered := by
  cases m with
  | log data => exact h.log hcan
  | lock => exact h.lock hcan
  | wake => exact h.wake hcan
  | write => exact h.write hcan
  | release => exact h.release hcan

/-- The bytes in the file and those that wait in the ring are the records that were accepted, in
the order of the lock, and the buffer that is written stays as the first section left it. -/
theorem records_of_run {moves : List LogMove}
    (hmoves : (system n).Allowed System.anyStep initial moves)
    (hrun : (system n).run initial moves = some s) :
    s.file ++ s.pending = s.accepted.flatten ∧
      (s.phase = .writing ∨ s.phase = .written →
        (s.nodes s.consumer).buffer.data = s.handed) := by
  have h : s.Ordered := by
    refine System.invariant_of_run (I := Ordered) ?_ ordered_initial hmoves hrun
    intro s m s' hs hcan _ hstep
    cases hstep
    exact hs.step hcan
  refine ⟨h.bytes, ?_⟩
  rintro hphase
  have hbusy : Busy s.phase := by
    rcases hphase with hphase | hphase
    all_goals
      rw [hphase]
      trivial
  refine (h.busy hbusy _ ?_).2
  rw [ring_eq_cons]
  rfl

/-- A flush under the producer of a ring of one node; the record that comes during the write is
discarded. -/
def sampleMoves : List LogMove :=
  [.log [1, 2], .lock, .log [3], .wake, .log [4], .write, .log [5], .release, .log [6]]

theorem records_of_run_sampleMoves :
    ∃ s, (system 1).run initial sampleMoves = some s ∧ s.file ++ s.pending = s.accepted.flatten ∧
      s.accepted = [[1, 2], [3], [6]] := by
  have haccepted : ((system 1).run initial sampleMoves).map (·.accepted) =
      some [[1, 2], [3], [6]] := by
    decide +kernel
  obtain ⟨s, hs, heq⟩ := Option.map_eq_some_iff.mp haccepted
  exact ⟨s, hs, (records_of_run (by decide +kernel) hs).1, heq⟩

end Logger

end Slience
