import Slience.Base.LoggerRing

/-!
# Discarded records

`log` discards a record for two reasons.  When it has itself marked the node of the producer as
full and the next node is full too, then the whole ring is full.  When it finds the producer on a
full node, then this is the node of the consumer, and the nodes behind it need not be full: a
flush has marked the node, or the ring has overflown and `dump` is not through with it.
-/

namespace Slience

namespace Logger

variable {n : ℕ}

def AllFull (s : Logger n) : Prop := ∀ i, (s.nodes i).status = .full

instance (s : Logger n) : Decidable s.AllFull :=
  inferInstanceAs (Decidable (∀ i, (s.nodes i).status = .full))

theorem allFull_iff_ring (s : Logger n) : s.AllFull ↔ ∀ b ∈ s.ring, b.status = .full := by
  constructor
  · intro h b hb
    obtain ⟨k, rfl⟩ := List.mem_ofFn.mp hb
    exact h (s.consumer + k)
  · intro h i
    have : NeZero n := ⟨(Nat.zero_lt_of_lt i.isLt).ne'⟩
    refine h (s.nodes i) (List.mem_ofFn.mpr ⟨i - s.consumer, ?_⟩)
    rw [add_sub_cancel]

/-- Where the producer can be when its node is full. -/
theorem Ordered.producer_eq_consumer {s : Logger n} (h : s.Ordered)
    (hfull : (s.nodes s.producer).status = .full) : s.producer = s.consumer := by
  obtain ⟨k, hk, hshape⟩ := h.shape
  have : NeZero n := ⟨(Nat.zero_lt_of_lt k.isLt).ne'⟩
  generalize hring : s.ring = r, hval : k.val = d at hshape
  cases hshape with
  | filling _ hcur _ =>
      rw [producer_eq hk hring hval, hcur] at hfull
      cases hfull
  | stuck _ _ _ =>
      have hk0 : k = 0 := Fin.ext hval
      rw [hk, hk0, add_zero]

variable [NeZero n] {s : Logger n}

/-- When `log` fills a node and cannot go on to the next one, the ring is full. -/
theorem Ordered.allFull_turn (h : s.Ordered) (hfree : (s.nodes s.producer).status = .free)
    (hnext : (s.turn.nodes s.turn.producer).status = .full) : s.turn.AllFull := by
  obtain ⟨k, hk, hshape⟩ := h.shape
  generalize hring : s.ring = r, hval : k.val = d at hshape
  cases hshape with
  | @stuck first full rest hfirst _ _ =>
      rw [producer_eq_head hk hring hval, hfirst] at hfree
      cases hfree
  | @filling full rest cur hfull hcur hrest =>
      cases rest with
      | nil =>
          rw [allFull_iff_ring, turn_ring hk hring hval]
          exact full_turned cur hfull
      | cons x rest =>
          obtain ⟨hval', hturned⟩ := turn_next hk hring hval
          rw [producer_eq (turn_producer hk) hturned hval', (hrest x List.mem_cons_self).1] at hnext
          cases hnext

/-! ## When a record is discarded -/

/-- What `log` has found when it discards a record. -/
def DiscardsFull (s : Logger n) : LogMove → Prop
  | .log data => (s.log data).2 = true → (s.log data).1.AllFull
  | .lock | .wake | .write | .release => True

instance (s : Logger n) (m : LogMove) : Decidable (s.DiscardsFull m) :=
  match m with
  | .log data => inferInstanceAs (Decidable ((s.log data).2 = true → (s.log data).1.AllFull))
  | .lock | .wake | .write | .release => isTrue trivial

/-- A record that comes while the producer is on the full node of the consumer finds the other
nodes full. -/
def NoneBehind (s : Logger n) : LogMove → Prop
  | .log _ => s.producer = s.consumer → (s.nodes s.consumer).status = .full → s.AllFull
  | .lock | .wake | .write | .release => True

instance (s : Logger n) (m : LogMove) : Decidable (s.NoneBehind m) :=
  match m with
  | .log _ => inferInstanceAs
      (Decidable (s.producer = s.consumer → (s.nodes s.consumer).status = .full → s.AllFull))
  | .lock | .wake | .write | .release => isTrue trivial

theorem Ordered.discardsFull_log_iff (h : s.Ordered) (data : List UInt8) :
    s.DiscardsFull (.log data) ↔ s.NoneBehind (.log data) := by
  change ((s.log data).2 = true → (s.log data).1.AllFull) ↔
    (s.producer = s.consumer → (s.nodes s.consumer).status = .full → s.AllFull)
  cases hstatus : (s.nodes s.producer).status with
  | full =>
      rw [log_of_full hstatus, ← h.producer_eq_consumer hstatus]
      constructor
      · intro hall _ _
        exact hall rfl
      · intro hall _
        exact hall rfl hstatus
  | free =>
      have hbehind : s.producer = s.consumer → (s.nodes s.consumer).status = .full →
          s.AllFull := by
        intro heq hfull
        rw [← heq, hstatus] at hfull
        cases hfull
      refine iff_of_true ?_ hbehind
      by_cases havail : data.length < (s.nodes s.producer).buffer.avail
      · rw [log_of_avail rfl hstatus havail]
        intro hfalse
        cases hfalse
      · rw [log_of_turn rfl hstatus havail]
        split
        · rename_i hnext
          intro _
          exact h.allFull_turn hstatus hnext
        · intro hfalse
          cases hfalse

theorem Ordered.discardsFull_iff (h : s.Ordered) (m : LogMove) :
    s.DiscardsFull m ↔ s.NoneBehind m := by
  cases m with
  | log data => exact h.discardsFull_log_iff data
  | lock => exact Iff.rfl
  | wake => exact Iff.rfl
  | write => exact Iff.rfl
  | release => exact Iff.rfl

/-- A run discards records only in a full ring exactly if no record comes while the producer is on
the full node of the consumer and another node is free. -/
theorem discards_iff (moves : List LogMove) :
    (system n).Allowed DiscardsFull initial moves ↔
      (system n).Allowed NoneBehind initial moves := by
  refine System.allowed_congr (I := Ordered) ?_ ?_ ordered_initial moves
  · intro s m s' hs hcan hstep
    cases hstep
    exact hs.step hcan
  · intro s m hs _
    exact hs.discardsFull_iff m

theorem discards_iff_sampleMoves :
    ((system 1).Allowed DiscardsFull initial sampleMoves ↔
      (system 1).Allowed NoneBehind initial sampleMoves) ∧
      (system 1).Allowed NoneBehind initial sampleMoves :=
  ⟨discards_iff sampleMoves, by decide +kernel⟩

/-- A flush under the producer of a ring of two nodes, and a record that comes during the write. -/
def flushMoves : List LogMove := [.log [1, 2], .lock, .wake, .log [3]]

theorem discarded_in_free_ring : (system 2).Allowed System.anyStep initial flushMoves ∧
    ¬ (system 2).Allowed DiscardsFull initial flushMoves := by
  decide +kernel

end Logger

end Slience
