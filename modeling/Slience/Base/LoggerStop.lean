import Slience.Base.LoggerRing

/-!
# Stopping the logger

`logger::stop` clears `_run` and waits for the thread of `dump`, which tests `_run` once before
each round and writes one node in a round.  So at most the node of the consumer is written
after `stop` was called, and that only by a thread that is behind its test.
-/

namespace Slience

namespace Logger

/-- A logger with its thread; `entered` tells that `dump` is behind the test of its loop. -/
structure Stopping (n : ℕ) where
  ring : Logger n
  run : Bool
  entered : Bool
  ended : Bool

inductive StopMove where
  | ring (m : LogMove)
  /-- `while (_run)` -/
  | test
  | stop
  deriving DecidableEq

/-- Not called by the thread of `dump`. -/
def LogMove.isLog : LogMove → Bool
  | .log _ => true
  | .lock | .wake | .write | .release => false

namespace Stopping

variable {n : ℕ} [NeZero n]

/-- `setfilename` -/
def started : Stopping n := ⟨initial, true, false, false⟩

def step (s : Stopping n) : StopMove → Stopping n
  | .ring m =>
      let ring := s.ring.step m
      { s with
        ring := ring
        entered := if m.isLog then s.entered else decide (ring.phase ≠ .idle) }
  | .test => if s.run then { s with entered := true } else { s with ended := true }
  | .stop => { s with run := false }

/-- The calls of `log` return before `stop` is called. -/
def CanMove (s : Stopping n) : StopMove → Prop
  | .ring m => s.ring.CanMove m ∧ (if m.isLog then s.run else s.entered) = true
  | .test => s.entered = false ∧ s.ended = false
  | .stop => s.run = true

instance (s : Stopping n) (m : StopMove) : Decidable (s.CanMove m) :=
  match m with
  | .ring _ => inferInstanceAs (Decidable (_ ∧ _))
  | .test => inferInstanceAs (Decidable (_ ∧ _))
  | .stop => inferInstanceAs (Decidable (s.run = true))

def system (n : ℕ) [NeZero n] : System (Stopping n) StopMove where
  enabled := CanMove
  step := fun s m ↦ some (s.step m)

instance (s : Stopping n) (m : StopMove) : Decidable ((system n).enabled s m) :=
  inferInstanceAs (Decidable (s.CanMove m))

/-- What a thread that is stopped does not write any more. -/
def left (s : Stopping n) : List UInt8 :=
  if s.entered then contents s.ring.ring.tail else contents s.ring.ring

structure Inside (s : Stopping n) : Prop where
  ordered : s.ring.Ordered
  idle : s.entered = false → s.ring.phase = .idle
  ended : s.ended = true → s.entered = false

variable {s t : Stopping n}

theorem inside_started : (started : Stopping n).Inside :=
  ⟨ordered_initial, fun _ ↦ rfl, Bool.noConfusion⟩

theorem phase_log (r : Logger n) (data : List UInt8) : (r.step (.log data)).phase = r.phase := by
  unfold Logger.step Logger.log
  dsimp only
  split
  · rfl
  · split
    · rfl
    · split <;> rfl

theorem Inside.step (h : s.Inside) {m : StopMove} (hcan : s.CanMove m) : (s.step m).Inside := by
  cases m with
  | ring m =>
      cases hlog : m.isLog with
      | true =>
          cases m with
          | log data =>
              refine ⟨h.ordered.step hcan.1, ?_, h.ended⟩
              intro hentered
              exact (phase_log s.ring data).trans (h.idle hentered)
          | _ => cases hlog
      | false =>
          obtain ⟨hcan, hentered⟩ := hcan
          rw [hlog] at hentered
          refine ⟨h.ordered.step hcan, ?_, ?_⟩
          · intro hleft
            simp only [Stopping.step, hlog, Bool.false_eq_true, if_false,
              decide_eq_false_iff_not, not_not] at hleft
            exact hleft
          · intro hended
            have hout := h.ended hended
            rw [show s.entered = true from hentered] at hout
            cases hout
  | test =>
      unfold Stopping.step
      dsimp only
      split
      · refine ⟨h.ordered, Bool.noConfusion, ?_⟩
        intro hended
        rw [show s.ended = false from hcan.2] at hended
        cases hended
      · exact ⟨h.ordered, h.idle, fun _ ↦ hcan.1⟩
  | stop => exact ⟨h.ordered, h.idle, h.ended⟩

omit [NeZero n] in
theorem tail_lock (r : Logger n) : r.lock.ring = r.ring := by
  unfold Logger.lock
  split <;> rfl

theorem tail_wake (r : Logger n) : r.wake.ring.tail = r.ring.tail := by
  unfold Logger.wake
  dsimp only
  split
  · split
    · have hset := ring_setNode r 0 { r.nodes r.consumer with status := .full }
      rw [add_zero] at hset
      change (r.setNode r.consumer _).ring.tail = _
      rw [hset, ring_eq_cons]
      rfl
    · rfl
  · rfl

theorem contents_wake {r : Logger n} (h : r.wake.phase = .idle) :
    contents r.wake.ring = contents r.wake.ring.tail := by
  unfold Logger.wake at h ⊢
  dsimp only at h ⊢
  split at h
  · rename_i hfree
    rw [if_pos hfree]
    split at h
    · cases h
    · rename_i hempty
      rw [if_neg hempty]
      change contents r.ring = contents r.ring.tail
      have hnil : (r.nodes r.consumer).buffer.data = [] := by
        apply List.eq_nil_of_length_eq_zero
        exact Nat.eq_zero_of_not_pos hempty
      rw [ring_eq_cons, contents_cons, hnil]
      rfl
  · cases h

theorem left_step {m : StopMove} (hcan : s.CanMove m) (hrun : s.run = false) :
    (s.step m).left = s.left ∧ (s.step m).run = false := by
  cases m with
  | test =>
      unfold Stopping.step
      rw [hrun]
      exact ⟨rfl, rfl⟩
  | stop =>
      rw [show s.run = true from hcan] at hrun
      cases hrun
  | ring m =>
      refine ⟨?_, hrun⟩
      obtain ⟨hcan, hentered⟩ := hcan
      cases m with
      | log data =>
          rw [show s.run = true from hentered] at hrun
          cases hrun
      | lock =>
          have hleft : s.left = contents s.ring.ring.tail := if_pos hentered
          have hbusy : s.ring.lock.phase ≠ .idle := by
            unfold Logger.lock
            split
            · exact DumpPhase.noConfusion
            · exact DumpPhase.noConfusion
          rw [hleft]
          change (if decide (s.ring.lock.phase ≠ .idle) = true then contents s.ring.lock.ring.tail
            else contents s.ring.lock.ring) = _
          rw [if_pos (decide_eq_true hbusy), tail_lock]
      | wake =>
          have hleft : s.left = contents s.ring.ring.tail := if_pos hentered
          rw [hleft]
          change (if decide (s.ring.wake.phase ≠ .idle) = true then contents s.ring.wake.ring.tail
            else contents s.ring.wake.ring) = _
          split
          · rw [tail_wake]
          · rename_i hidle
            rw [contents_wake (not_not.mp fun hne ↦ hidle (decide_eq_true hne)), tail_wake]
      | write =>
          have hleft : s.left = contents s.ring.ring.tail := if_pos hentered
          rw [hleft]
          rfl
      | release =>
          have hleft : s.left = contents s.ring.ring.tail := if_pos hentered
          have hidle : s.ring.release.phase = .idle := rfl
          rw [hleft]
          change (if decide (s.ring.release.phase ≠ .idle) = true then
            contents s.ring.release.ring.tail else contents s.ring.release.ring) = _
          rw [hidle, if_neg (by decide), ring_release, contents_append, contents_cons]
          simp [contents, FixedBuffer.clear]

theorem run_left {moves : List StopMove} (hrun : s.run = false)
    (hmoves : (system n).Allowed System.anyStep s moves)
    (hs : (system n).run s moves = some t) : t.left = s.left := by
  have h : t.left = s.left ∧ t.run = false := by
    refine System.invariant_of_run (I := fun u ↦ u.left = s.left ∧ u.run = false) ?_
      ⟨rfl, hrun⟩ hmoves hs
    rintro u m u' ⟨hleft, hu⟩ hcan _ hstep
    cases hstep
    obtain ⟨hleft', hu'⟩ := left_step hcan hu
    exact ⟨hleft'.trans hleft, hu'⟩
  exact h.1

theorem inside_of_run {moves : List StopMove}
    (hmoves : (system n).Allowed System.anyStep started moves)
    (hs : (system n).run started moves = some s) : s.Inside := by
  refine System.invariant_of_run (I := Inside) ?_ inside_started hmoves hs
  intro u m u' hu hcan _ hstep
  cases hstep
  exact hu.step hcan

/-- When `stop` returns, all accepted records were written exactly if nothing was left when it was
called. -/
theorem written_iff {before after : List StopMove}
    (hmoves : (system n).Allowed System.anyStep started (before ++ .stop :: after))
    (hbefore : (system n).run started before = some t)
    (hafter : (system n).run t (.stop :: after) = some s) (hended : s.ended = true) :
    s.ring.file = s.ring.accepted.flatten ↔ t.left = [] := by
  have hinside : s.Inside := by
    apply inside_of_run hmoves
    rw [System.run_append, hbefore]
    exact hafter
  have hentered := hinside.ended hended
  have hleft : s.left = t.left := by
    obtain ⟨-, -, hrest⟩ := (hmoves.append hbefore).2
    refine (run_left (s := t.step .stop) rfl (hrest _ rfl) ?_).trans rfl
    rw [System.run_cons] at hafter
    exact hafter
  have hbytes := hinside.ordered.bytes
  rw [pending, hinside.idle hentered] at hbytes
  change s.ring.file ++ contents s.ring.ring = _ at hbytes
  have hpending : contents s.ring.ring = s.left := by
    unfold left
    rw [hentered]
    rfl
  rw [← hbytes, hpending, hleft, List.self_eq_append_right]

/-- A record is written by a flush before the logger is stopped, another one after that. -/
def sampleBefore : List StopMove :=
  [.ring (.log [1, 2]), .test, .ring .lock, .ring .wake, .ring .write, .ring .release, .test,
    .ring (.log [3]), .ring .lock]

theorem written_iff_sampleBefore :
    ∃ t s, (system 2).run started sampleBefore = some t ∧
      (system 2).run t [.stop, .ring .wake, .ring .write, .ring .release, .test] = some s ∧
      (s.ring.file = s.ring.accepted.flatten ↔ t.left = []) := by
  have hsome : ((system 2).run started sampleBefore).isSome = true := rfl
  obtain ⟨t, ht⟩ := Option.isSome_iff_exists.mp hsome
  have hended : ((system 2).run started (sampleBefore ++
      [.stop, .ring .wake, .ring .write, .ring .release, .test])).map (·.ended) = some true := by
    decide +kernel
  rw [System.run_append, ht] at hended
  obtain ⟨s, hs, hended⟩ := Option.map_eq_some_iff.mp hended
  exact ⟨t, s, ht, hs, written_iff (by decide +kernel) ht hs hended⟩

/-- The logger is stopped before `dump` has begun a round. -/
theorem not_written :
    ∃ s, (system 2).Allowed System.anyStep started [.ring (.log [1]), .stop, .test] ∧
      (system 2).run started [.ring (.log [1]), .stop, .test] = some s ∧ s.ended = true ∧
      s.ring.file ≠ s.ring.accepted.flatten := by
  refine ⟨_, by decide +kernel, rfl, rfl, ?_⟩
  decide +kernel

end Stopping

end Logger

end Slience
