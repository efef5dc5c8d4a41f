import Slience.App.Lane

/-!
# Connections that were silent for too long

`CheckTcpSocketExpire` goes through the container in the order of the times of the last message and
closes what is ten seconds old.  It stops at the first entry that is not both old and connected,
so that an old connection is not reached behind one that is disconnected.
-/

namespace Slience

/-- The entries of a container in the order of its index `tag_socket_context_active`. -/
structure ActiveIndex (c : Container) where
  entries : List Context
  perm : entries.Perm c.entries
  sorted : entries.Pairwise fun x y ↦ x.tt ≤ y.tt

namespace Container

/-- The age an entry is closed at. -/
def Expired (now : ℤ) (x : Context) : Prop := now - x.tt.toNat ≥ 10

instance (now : ℤ) (x : Context) : Decidable (Expired now x) := inferInstanceAs (Decidable (_ ≥ _))

/-- The loop of `CheckTcpSocketExpire`: the entries `Close` is called on, and which sockets are
connected afterwards. -/
def closeExpired (now : ℤ) : List Context → (ℕ → Bool) → List Context × (ℕ → Bool)
  | [], connected => ([], connected)
  | x :: xs, connected =>
      if Expired now x ∧ connected x.ptr = true then
        let (closed, connected) := closeExpired now xs (Function.update connected x.ptr false)
        (x :: closed, connected)
      else ([], connected)

/-- What `CheckTcpSocketExpire` leaves: `last_check_time`, the entries it called `Close` on, and
which sockets are connected. -/
structure ExpireCheck where
  lastCheckTime : ℤ
  closed : List Context
  connected : ℕ → Bool

/-- `CheckTcpSocketExpire` -/
def checkTcpSocketExpire (lastCheckTime now : ℤ) (ttIndex : List Context) (connected : ℕ → Bool) :
    ExpireCheck :=
  if now - lastCheckTime ≥ 15 then
    let (closed, connected) := closeExpired now ttIndex connected
    ⟨now, closed, connected⟩
  else ⟨lastCheckTime, [], connected⟩

/-- All old connections among the entries were closed, and nothing else. -/
structure ClosesExpired (now : ℤ) (entries : List Context) (connected : ℕ → Bool)
    (closed : List Context) : Prop where
  complete : ∀ x ∈ entries, connected x.ptr = true → Expired now x → x ∈ closed
  sound : ∀ x ∈ entries, ¬ Expired now x → x ∉ closed

/-- No old connection is behind a disconnected one, or behind one of the same socket. -/
def Unhindered (now : ℤ) (entries : List Context) (connected : ℕ → Bool) : Prop :=
  ∀ front x back, entries = front ++ x :: back → connected x.ptr = true → Expired now x →
    (∀ y ∈ front, connected y.ptr = true) ∧ ((front ++ [x]).map (·.ptr)).Nodup

variable {now : ℤ} {connected : ℕ → Bool} {entries : List Context}

theorem closeExpired_isPrefix (now : ℤ) (entries : List Context) (connected : ℕ → Bool) :
    (closeExpired now entries connected).1 <+: entries := by
  induction entries generalizing connected with
  | nil => exact List.prefix_refl []
  | cons x xs ih =>
      rw [closeExpired]
      split
      · exact (List.prefix_cons_inj x).mpr (ih _)
      · exact List.nil_prefix

/-- Closing a socket makes it disconnected for the entries behind. -/
theorem forall_update_iff {front : List Context} (ptr : ℕ) :
    (∀ y ∈ front, Function.update connected ptr false y.ptr = true) ↔
      (∀ y ∈ front, connected y.ptr = true) ∧ ptr ∉ front.map (·.ptr) := by
  induction front with
  | nil => simp
  | cons y front ih =>
      rw [List.forall_mem_cons, ih, List.forall_mem_cons, List.map_cons, List.mem_cons, not_or]
      by_cases hptr : y.ptr = ptr
      · simp [hptr]
      · rw [Function.update_of_ne hptr]
        have hptr' : ptr ≠ y.ptr := Ne.symm hptr
        tauto

/-- The entries that are reached are those of the longest part in front that is old and
connected. -/
theorem isPrefix_closeExpired_iff {front : List Context} :
    front <+: (closeExpired now entries connected).1 ↔
      front <+: entries ∧ (∀ y ∈ front, Expired now y) ∧ (∀ y ∈ front, connected y.ptr = true) ∧
        (front.map (·.ptr)).Nodup := by
  induction entries generalizing connected front with
  | nil =>
      rw [closeExpired, List.prefix_nil]
      constructor
      · rintro rfl
        simp
      · exact fun h ↦ h.1
  | cons x xs ih =>
      cases front with
      | nil => simp
      | cons z front =>
          rw [closeExpired]
          split
          · rename_i hx
            rw [List.cons_prefix_cons, ih, forall_update_iff, List.cons_prefix_cons,
              List.forall_mem_cons, List.forall_mem_cons, List.map_cons, List.nodup_cons]
            constructor
            · rintro ⟨rfl, hfront, hold, ⟨hconn, hptr⟩, hnodup⟩
              exact ⟨⟨rfl, hfront⟩, ⟨hx.1, hold⟩, ⟨hx.2, hconn⟩, hptr, hnodup⟩
            · rintro ⟨⟨rfl, hfront⟩, hold, hconn, hptr, hnodup⟩
              exact ⟨rfl, hfront, hold.2, ⟨hconn.2, hptr⟩, hnodup⟩
          · rename_i hx
            rw [List.prefix_nil]
            constructor
            · intro h
              cases h
            · rintro ⟨hfront, hold, hconn, -⟩
              obtain rfl := (List.cons_prefix_cons.mp hfront).1
              exact absurd ⟨hold z List.mem_cons_self, hconn z List.mem_cons_self⟩ hx

/-- An entry is closed when all in front of it were. -/
theorem mem_closeExpired_iff {front back : List Context} {x : Context} (hnodup : entries.Nodup)
    (h : entries = front ++ x :: back) :
    x ∈ (closeExpired now entries connected).1 ↔
      front ++ [x] <+: (closeExpired now entries connected).1 := by
  have hclosed := closeExpired_isPrefix now entries connected
  have hfront : front ++ [x] <+: entries := ⟨back, by simp [h]⟩
  constructor
  · intro hmem
    rcases List.prefix_or_prefix_of_prefix hfront hclosed with hle | hle
    · exact hle
    · rcases List.prefix_concat_iff.mp hle with heq | hshort
      · rw [heq]
      · rw [h, List.nodup_middle, List.nodup_cons] at hnodup
        exact absurd (List.mem_append_left back (hshort.subset hmem)) hnodup.1
  · intro hle
    exact hle.subset (by simp)

/-- A check that is made closes what is old and connected, and nothing else, exactly where nothing
disconnected is in front. -/
theorem closesExpired_iff {c : Container} (index : ActiveIndex c) {lastCheckTime : ℤ}
    (hdue : now - lastCheckTime ≥ 15) (connected : ℕ → Bool) :
    ClosesExpired now c.entries connected
        (checkTcpSocketExpire lastCheckTime now index.entries connected).closed ↔
      Unhindered now index.entries connected := by
  have hclosed : (checkTcpSocketExpire lastCheckTime now index.entries connected).closed =
      (closeExpired now index.entries connected).1 := by
    rw [checkTcpSocketExpire, if_pos hdue]
  have hnodup : index.entries.Nodup := index.perm.nodup_iff.mpr (List.Nodup.of_map _ c.nodup)
  rw [hclosed]
  constructor
  · intro h front x back hsplit hconn hold
    have hmem : x ∈ index.entries := by simp [hsplit]
    have hreached := (mem_closeExpired_iff hnodup hsplit).mp
      (h.complete x (index.perm.mem_iff.mp hmem) hconn hold)
    obtain ⟨-, -, hall, hptr⟩ := isPrefix_closeExpired_iff.mp hreached
    exact ⟨fun y hy ↦ hall y (List.mem_append_left [x] hy), hptr⟩
  · intro h
    constructor
    · intro x hx hconn hold
      obtain ⟨front, back, hsplit⟩ := List.append_of_mem (index.perm.mem_iff.mpr hx)
      obtain ⟨hfront, hptr⟩ := h front x back hsplit hconn hold
      rw [mem_closeExpired_iff hnodup hsplit, isPrefix_closeExpired_iff]
      have hsorted := index.sorted
      rw [hsplit, List.pairwise_append] at hsorted
      refine ⟨⟨back, by simp [hsplit]⟩, ?_, ?_, hptr⟩
      · rw [List.forall_mem_append, List.forall_mem_singleton]
        refine ⟨?_, hold⟩
        -- what is in front is at least as old
        intro y hy
        have hle := UInt32.le_iff_toNat_le.mp (hsorted.2.2 y hy x List.mem_cons_self)
        unfold Expired at hold ⊢
        omega
      · rw [List.forall_mem_append, List.forall_mem_singleton]
        exact ⟨hfront, hconn⟩
    · intro x _ hyoung hmem
      have hx := (closeExpired_isPrefix now index.entries connected).subset hmem
      obtain ⟨front, back, hsplit⟩ := List.append_of_mem hx
      have hreached := (mem_closeExpired_iff hnodup hsplit).mp hmem
      exact hyoung ((isPrefix_closeExpired_iff.mp hreached).2.1 x (by simp))

/-- Three connections that have been silent for 30, 20 and 5 seconds at the time 100. -/
def sampleContainer : Container where
  entries := [⟨7, 1, 70, 0⟩, ⟨8, 1, 80, 1⟩, ⟨9, 1, 95, 2⟩]
  nodup := by decide

def sampleIndex : ActiveIndex sampleContainer := ⟨_, List.Perm.refl _, by decide⟩

theorem closesExpired_sample : (100 : ℤ) - 85 ≥ 15 ∧
    ClosesExpired 100 sampleContainer.entries (fun _ ↦ true)
      (checkTcpSocketExpire 85 100 sampleIndex.entries fun _ ↦ true).closed := by
  refine ⟨by decide, (closesExpired_iff sampleIndex (by decide) _).mpr ?_⟩
  intro front x back hsplit _ _
  have hall : (sampleIndex.entries.map (·.ptr)).Nodup := by decide
  refine ⟨fun _ _ ↦ rfl, ?_⟩
  rw [hsplit, List.map_append, List.map_cons] at hall
  rw [List.map_append, List.map_singleton]
  exact hall.sublist (List.Sublist.append_left (by simp) _)

/-- The first of the three is disconnected, and its message of that not processed yet: the second
stays open. -/
theorem closesExpired_fails : (100 : ℤ) - 85 ≥ 15 ∧
    ¬ ClosesExpired 100 sampleContainer.entries (fun ptr ↦ ptr != 0)
      (checkTcpSocketExpire 85 100 sampleIndex.entries fun ptr ↦ ptr != 0).closed := by
  refine ⟨by decide, ?_⟩
  intro h
  exact absurd (h.complete ⟨8, 1, 80, 1⟩ (by decide) (by decide) (by decide)) (by decide)

end Container

end Slience
