import Slience.Socket.Registry

/-!
# The counters of the threads

While no thread leaves, the keys of the sockets are instances of running threads, and a socket
whose close is asked for has its close flag.  Then what a move does to the counters is right exactly
where it is a move of `KeepsRegistry`.
-/

namespace Slience

namespace IoAccess

open Epoll (StateBit Os)

open Locking

/-! ## The invariant -/

namespace Registry

/-- The threads of the two are the same, but for their counters and requests. -/
structure SameThreads (r r' : Registry) : Prop where
  implvector_eq : r'.implvector = r.implvector
  implmap_eq : r'.implmap = r.implmap
  handler_eq : ∀ p, (r'.impls p).handler = (r.impls p).handler

/-- The map finds the running threads, and a thread that does not run was never counted. -/
structure Runs (r : Registry) : Prop where
  handlers : Function.Injective fun p ↦ (r.impls p).handler
  nodup : r.implvector.Nodup
  running : ∀ p ∈ r.implvector, (r.impls p).handler ≠ 0 ∧ r.implmap (r.impls p).handler = some p
  idle : ∀ p, p ∉ r.implvector → (r.impls p).fdcnt = 0

/-- The key of the socket is the instance of a running thread, and a bound socket has one and is
nonblocking. -/
structure Keyed (r : Registry) (c : Core) : Prop where
  key : ∀ h, c.io = some h → ∃ p ∈ r.implvector, (r.impls p).handler = h
  io_of_bind : .bind ∈ c.state → c.io ≠ none
  block_of_bind : .bind ∈ c.state → .block ∉ c.state

theorem SameThreads.refl (r : Registry) : r.SameThreads r := ⟨rfl, rfl, fun _ ↦ rfl⟩

theorem impls_setImpl (r : Registry) (p q : ℕ) (f : ThreadImpl → ThreadImpl) :
    (r.setImpl p f).impls q = if q = p then f (r.impls q) else r.impls q := by
  rw [setImpl]
  dsimp only
  split
  · rename_i hq
    rw [hq, Function.update_self]
  · rename_i hq
    rw [Function.update_of_ne hq]

theorem sameThreads_setImpl (r : Registry) (p : ℕ) {f : ThreadImpl → ThreadImpl}
    (hf : ∀ t, (f t).handler = t.handler) : r.SameThreads (r.setImpl p f) := by
  refine ⟨rfl, rfl, fun q ↦ ?_⟩
  rw [impls_setImpl]
  split
  · rw [hf]
  · rfl

theorem Runs.of_same {r r' : Registry} (h : r.Runs) (hsame : r.SameThreads r')
    (hidle : ∀ p, p ∉ r.implvector → (r'.impls p).fdcnt = (r.impls p).fdcnt) : r'.Runs where
  handlers := by
    simp only [hsame.handler_eq]
    exact h.handlers
  nodup := hsame.implvector_eq ▸ h.nodup
  running p hp := by
    rw [hsame.handler_eq, hsame.implmap_eq]
    exact h.running p (hsame.implvector_eq ▸ hp)
  idle p hp := by
    rw [hsame.implvector_eq] at hp
    rw [hidle p hp, h.idle p hp]

theorem Keyed.of_same {r r' : Registry} {c : Core} (h : r.Keyed c) (hsame : r.SameThreads r') :
    r'.Keyed c where
  key k hk := by
    obtain ⟨p, hp, hhandler⟩ := h.key k hk
    exact ⟨p, hsame.implvector_eq ▸ hp, (hsame.handler_eq p).trans hhandler⟩
  io_of_bind := h.io_of_bind
  block_of_bind := h.block_of_bind

end Registry

namespace Sockets

/-- While no thread left. -/
structure Kept (s : Sockets) : Prop where
  runs : s.service.Runs
  keyed : ∀ (i : ℕ) (c : Core), s.socks[i]? = some c → s.service.Keyed c
  asked : ∀ p, ∀ r ∈ (s.service.impls p).closereqs, ∃ c, s.socks[r.sock]? = some c ∧
    .close ∈ c.state
  once : ∀ p q, ∀ r ∈ (s.service.impls p).closereqs, ∀ r' ∈ (s.service.impls q).closereqs,
    r.sock = r'.sock → p = q

variable {s : Sockets}

theorem callOn_none {i : ℕ} (h : s.socks[i]? = none) (f : World → World) : s.callOn i f = s := by
  rw [callOn, h]

theorem callOn_some {i : ℕ} {c : Core} (h : s.socks[i]? = some c) (f : World → World) :
    s.callOn i f = ⟨s.socks.set i (f ⟨c, s.service⟩).core, (f ⟨c, s.service⟩).service⟩ := by
  rw [callOn, h]

/-- A call that asks for a close asks for that of its own socket, for the first time. -/
theorem Kept.callOn (h : s.Kept) {i : ℕ} {c : Core} (hc : s.socks[i]? = some c) {w : World}
    (hsame : s.service.SameThreads w.service)
    (hidle : ∀ p, p ∉ s.service.implvector → (w.service.impls p).fdcnt = (s.service.impls p).fdcnt)
    (hkeyed : s.service.Keyed w.core) (hclose : .close ∈ c.state → .close ∈ w.core.state)
    (hreqs : ∃ k, ∀ p, ∀ r ∈ (w.service.impls p).closereqs, r ∈ (s.service.impls p).closereqs ∨
      (p = k ∧ r.sock = i ∧ .close ∉ c.state ∧ .close ∈ w.core.state)) :
    Kept ⟨s.socks.set i w.core, w.service⟩ := by
  obtain ⟨k, hreqs⟩ := hreqs
  refine ⟨h.runs.of_same hsame hidle, ?_, ?_, ?_⟩
  · intro j d hd
    rw [List.getElem?_set] at hd
    split at hd
    · split at hd
      · cases hd
        exact hkeyed.of_same hsame
      · cases hd
    · exact (h.keyed j d hd).of_same hsame
  · intro p r hr
    rcases hreqs p r hr with hold | ⟨-, hsock, -, hnew⟩
    · obtain ⟨d, hd, hasked⟩ := h.asked p r hold
      by_cases hi : i = r.sock
      · rw [hi, hd] at hc
        cases hc
        refine ⟨w.core, ?_, hclose hasked⟩
        rw [hi, List.getElem?_set_self (List.getElem?_eq_some_iff.mp hd).1]
      · exact ⟨d, (List.getElem?_set_ne hi).trans hd, hasked⟩
    · refine ⟨w.core, ?_, hnew⟩
      rw [hsock, List.getElem?_set_self (List.getElem?_eq_some_iff.mp hc).1]
  · -- nobody had asked for the close of a socket that has just been asked
    have hfirst : .close ∉ c.state → ∀ q, ∀ r ∈ (s.service.impls q).closereqs, r.sock ≠ i := by
      rintro hnot q r hr rfl
      obtain ⟨d, hd, hasked⟩ := h.asked q r hr
      cases hc.symm.trans hd
      exact hnot hasked
    intro p q r hr r' hr' heq
    rcases hreqs p r hr with hold | ⟨hp, hsock, hnot, -⟩
    · rcases hreqs q r' hr' with hold' | ⟨-, hsock', hnot', -⟩
      · exact h.once p q r hold r' hold' heq
      · exact absurd (heq.trans hsock') (hfirst hnot' p r hold)
    · rcases hreqs q r' hr' with hold' | ⟨hq, -, -, -⟩
      · exact absurd (heq.symm.trans hsock) (hfirst hnot q r' hold')
      · rw [hp, hq]

/-! ## The counters -/

theorem bound_set {i : ℕ} {c : Core} (hc : s.socks[i]? = some c) (d : Core) (r : Registry)
    (k : ℕ) :
    bound ⟨s.socks.set i d, r⟩ k + (if c.counted = some k then 1 else 0) =
      s.bound k + if d.counted = some k then 1 else 0 := by
  obtain ⟨hi, rfl⟩ := List.getElem?_eq_some_iff.mp hc
  rw [bound, bound, List.countP_set hi]
  simp only [decide_eq_true_eq]
  split
  · rename_i hcounted
    have hpos : 0 < s.socks.countP (·.counted = some k) :=
      List.countP_pos_iff.mpr ⟨_, List.getElem_mem hi, decide_eq_true hcounted⟩
    omega
  · omega

/-- Behind a call on a socket the registry is right if the counters are. -/
theorem Registered.callOn_iff (h : s.Registered) {d : List Core} {r : Registry}
    (hsame : s.service.SameThreads r) : Registered ⟨d, r⟩ ↔
      ∀ p ∈ s.service.implvector,
        (r.impls p).fdcnt.toNat = bound ⟨d, r⟩ (s.service.impls p).handler := by
  constructor
  · intro hafter p hp
    rw [hafter.fdcnt p (hsame.implvector_eq ▸ hp), hsame.handler_eq]
  · intro hcounts
    constructor
    · intro k p hk
      dsimp only at hk ⊢
      rw [hsame.implmap_eq] at hk
      rw [hsame.implvector_eq, hsame.handler_eq]
      exact h.implmap k p hk
    · intro p hp
      dsimp only at hp ⊢
      rw [hsame.implvector_eq] at hp
      rw [hsame.handler_eq]
      exact hcounts p hp

theorem io_of_counted {c : Core} {k : ℕ} (h : c.counted = some k) : c.io = some k := by
  rw [Core.counted] at h
  split at h
  · exact h
  · cases h

/-- Where no counter changes, the socket must count as before. -/
theorem registered_same_iff (h : s.Registered) {i : ℕ} {c d : Core} (hc : s.socks[i]? = some c)
    {r : Registry} (hsame : s.service.SameThreads r)
    (hfdcnt : ∀ p, (r.impls p).fdcnt = (s.service.impls p).fdcnt) (hkc : s.service.Keyed c)
    (hkd : s.service.Keyed d) : Registered ⟨s.socks.set i d, r⟩ ↔ d.counted = c.counted := by
  rw [h.callOn_iff hsame]
  constructor
  · intro hcounts
    have hrunning : ∀ p ∈ s.service.implvector, (d.counted = some (s.service.impls p).handler ↔
        c.counted = some (s.service.impls p).handler) := by
      intro p hp
      have hset := bound_set hc d r (s.service.impls p).handler
      rw [← hcounts p hp, hfdcnt, h.fdcnt p hp] at hset
      split at hset <;> split at hset <;> simp_all
    apply Option.ext
    intro k
    constructor
    · intro hk
      obtain ⟨p, hp, rfl⟩ := hkd.key k (io_of_counted hk)
      exact (hrunning p hp).mp hk
    · intro hk
      obtain ⟨p, hp, rfl⟩ := hkc.key k (io_of_counted hk)
      exact (hrunning p hp).mpr hk
  · intro heq p hp
    have hset := bound_set hc d r (s.service.impls p).handler
    rw [heq] at hset
    rw [hfdcnt, h.fdcnt p hp]
    omega

theorem toNat_add_one {x : UInt32} {n : ℕ} (hn : n ≤ 1) :
    (x + 1).toNat = x.toNat + n ↔ n = 1 ∧ x.toNat + 1 < 2 ^ 32 := by
  have hx := x.toNat_lt
  have hadd : (x + 1).toNat = (x.toNat + 1) % 2 ^ 32 := UInt32.toNat_add x 1
  rw [hadd]
  omega

theorem toNat_sub_one {x : UInt32} {n m : ℕ} (hn : n ≤ 1) (hm : m + n = x.toNat) :
    (x - 1).toNat = m ↔ n = 1 := by
  have hx := x.toNat_lt
  have hsub : (x - 1).toNat = (2 ^ 32 - 1 + x.toNat) % 2 ^ 32 := UInt32.toNat_sub x 1
  rw [hsub]
  omega

/-- Where the counter of the chosen thread goes up, the socket must begin to count. -/
theorem registered_chosen_iff (h : s.Registered) (hruns : s.service.Runs) {i : ℕ} {c d : Core}
    (hc : s.socks[i]? = some c) {r : Registry} (hsame : s.service.SameThreads r) {p : ℕ}
    (hp : p ∈ s.service.implvector) (hfdcnt : ∀ q, (r.impls q).fdcnt =
      if q = p then (s.service.impls q).fdcnt + 1 else (s.service.impls q).fdcnt)
    (hio : c.io = none) (hio' : d.io = some (s.service.impls p).handler) :
    Registered ⟨s.socks.set i d, r⟩ ↔ d.counted = some (s.service.impls p).handler ∧
      (s.service.impls p).fdcnt.toNat + 1 < 2 ^ 32 := by
  have hnot : ∀ k, c.counted ≠ some k := by
    intro k hk
    rw [io_of_counted hk] at hio
    cases hio
  rw [h.callOn_iff hsame]
  constructor
  · intro hcounts
    have hset := bound_set hc d r (s.service.impls p).handler
    rw [← hcounts p hp, hfdcnt, if_pos rfl, ← h.fdcnt p hp, if_neg (hnot _), add_zero] at hset
    obtain ⟨hone, hroom⟩ := (toNat_add_one (by split <;> omega)).mp hset
    exact ⟨by_contra fun hnone ↦ absurd hone (by rw [if_neg hnone]; decide), hroom⟩
  · rintro ⟨hcounted, hroom⟩ q hq
    have hset := bound_set hc d r (s.service.impls q).handler
    rw [if_neg (hnot _), ← h.fdcnt q hq, add_zero] at hset
    rw [hfdcnt, hset]
    by_cases hqp : q = p
    · subst hqp
      rw [if_pos rfl, if_pos hcounted]
      exact (toNat_add_one le_rfl).mpr ⟨rfl, hroom⟩
    · have hother : d.counted ≠ some (s.service.impls q).handler := by
        rw [hcounted]
        exact fun heq ↦ hqp (hruns.handlers (Option.some.inj heq)).symm
      rw [if_neg hqp, if_neg hother, add_zero]

/-- Where the counter of a thread goes down, the socket must have counted. -/
theorem registered_forgotten_iff (h : s.Registered) (hruns : s.service.Runs) {i : ℕ} {c d : Core}
    (hc : s.socks[i]? = some c) {r : Registry} (hsame : s.service.SameThreads r) {p : ℕ}
    (hp : p ∈ s.service.implvector) (hfdcnt : ∀ q, (r.impls q).fdcnt =
      if q = p then (s.service.impls q).fdcnt - 1 else (s.service.impls q).fdcnt)
    (hio : c.io = some (s.service.impls p).handler) (hcounted' : d.counted = none) :
    Registered ⟨s.socks.set i d, r⟩ ↔ c.counted = some (s.service.impls p).handler := by
  have hnot : ∀ k, d.counted ≠ some k := by
    intro k hk
    rw [hcounted'] at hk
    cases hk
  rw [h.callOn_iff hsame]
  constructor
  · intro hcounts
    have hset := bound_set hc d r (s.service.impls p).handler
    have hless := hcounts p hp
    rw [hfdcnt, if_pos rfl] at hless
    rw [← h.fdcnt p hp, if_neg (hnot _), add_zero] at hset
    by_contra hnone
    rw [if_neg hnone] at hset
    exact absurd ((toNat_sub_one zero_le_one hset).mp hless) zero_ne_one
  · intro hcounted q hq
    have hset := bound_set hc d r (s.service.impls q).handler
    rw [← h.fdcnt q hq, if_neg (hnot _), add_zero] at hset
    rw [hfdcnt]
    by_cases hqp : q = p
    · subst hqp
      rw [if_pos hcounted] at hset
      rw [if_pos rfl]
      exact (toNat_sub_one le_rfl hset).mpr rfl
    · have hother : c.counted ≠ some (s.service.impls q).handler := by
        rw [hcounted]
        exact fun heq ↦ hqp (hruns.handlers (Option.some.inj heq)).symm
      rw [if_neg hother, add_zero] at hset
      rw [if_neg hqp, hset]

/-! ## The moves -/

theorem counted_congr {c d : Core} (hio : d.io = c.io) (hbind : .bind ∈ d.state ↔ .bind ∈ c.state)
    (hclose : .close ∈ d.state ↔ .close ∈ c.state) : d.counted = c.counted := by
  simp only [Core.counted, hio, hbind, hclose]

/-- Two sockets with one key and close flag count alike. -/
theorem counted_eq_iff {c d : Core} (hio : d.io = c.io)
    (hclose : .close ∈ d.state ↔ .close ∈ c.state) (hc : .bind ∈ c.state → c.io ≠ none)
    (hd : .bind ∈ d.state → d.io ≠ none) : d.counted = c.counted ↔
      .close ∈ c.state ∨ (.bind ∈ d.state ↔ .bind ∈ c.state) := by
  by_cases hasked : .close ∈ c.state
  · simp [Core.counted, hclose, hasked]
  · by_cases hbc : .bind ∈ c.state <;> by_cases hbd : .bind ∈ d.state <;>
      simp_all [Core.counted]
    exact fun h ↦ hc h.symm

theorem counted_eq_some {d : Core} {k : ℕ} (hio : d.io = some k) :
    d.counted = some k ↔ .bind ∈ d.state ∧ .close ∉ d.state := by
  simp [Core.counted, hio]

/-- A call that only changes flags, and binds nothing. -/
structure Calm (c d : Core) : Prop where
  io_eq : d.io = c.io
  bind : .bind ∈ d.state → .bind ∈ c.state
  block : .bind ∈ d.state → .block ∈ d.state → .block ∈ c.state
  close : .close ∈ c.state ↔ .close ∈ d.state

theorem Calm.keyed {c d : Core} {r : Registry} (h : Calm c d) (hc : r.Keyed c) : r.Keyed d where
  key k hk := hc.key k (h.io_eq ▸ hk)
  io_of_bind hbind := h.io_eq.trans_ne (hc.io_of_bind (h.bind hbind))
  block_of_bind hbind hblock := hc.block_of_bind (h.bind hbind) (h.block hbind hblock)

theorem Kept.calm (h : s.Kept) (i : ℕ) {f : Core → Core}
    (hf : ∀ c, s.socks[i]? = some c → Calm c (f c)) : (s.callOn i (World.setCore f)).Kept := by
  cases hc : s.socks[i]? with
  | none => rwa [callOn_none hc]
  | some c =>
      rw [callOn_some hc]
      exact h.callOn hc (w := ⟨f c, s.service⟩) (Registry.SameThreads.refl _) (fun _ _ ↦ rfl)
        ((hf c hc).keyed (h.keyed i c hc)) (hf c hc).close.mp ⟨0, fun _ _ ↦ Or.inl⟩

theorem Registered.calm_iff (h : s.Registered) (hkept : s.Kept) (i : ℕ) {f : Core → Core}
    (hf : ∀ c, s.socks[i]? = some c → Calm c (f c)) :
    (s.callOn i (World.setCore f)).Registered ↔
      ∀ c, s.socks[i]? = some c → (f c).counted = c.counted := by
  cases hc : s.socks[i]? with
  | none =>
      rw [callOn_none hc]
      exact iff_of_true h fun c hc' ↦ by cases hc'
  | some c =>
      rw [callOn_some hc]
      refine (registered_same_iff h hc (Registry.SameThreads.refl _) (fun _ ↦ rfl)
        (hkept.keyed i c hc) ((hf c hc).keyed (hkept.keyed i c hc))).trans ?_
      exact ⟨fun heq d hd ↦ Option.some.inj hd ▸ heq, fun hall ↦ hall c rfl⟩

theorem calm_constructImpl (c : Core) : Calm c c.constructImpl where
  io_eq := rfl
  bind h := by simp [Core.constructImpl] at h
  block h := by simp [Core.constructImpl] at h
  close := by simp [Core.constructImpl]

theorem calm_openSocket (c : Core) (v6 : Bool) (socket : Except SocketError ℕ)
    (error : SocketError) : Calm c (c.openSocket v6 socket error).1 ∧
      (c.openSocket v6 socket error).1.counted = c.counted := by
  rw [Core.openSocket]
  split
  · exact ⟨⟨rfl, id, fun _ ↦ id, Iff.rfl⟩, rfl⟩
  · have hmem : ∀ b : StateBit, b ≠ .v6 →
        (b ∈ (if v6 then insert .v6 c.state else c.state.erase .v6) ↔ b ∈ c.state) := by
      intro b hb
      split <;> simp [hb]
    have hbind := hmem .bind (by decide)
    have hclose := hmem .close (by decide)
    have hblock := hmem .block (by decide)
    cases socket with
    | error last =>
        exact ⟨⟨rfl, hbind.mp, fun _ ↦ hblock.mp, hclose.symm⟩, counted_congr rfl hbind hclose⟩
    | ok fd =>
        exact ⟨⟨rfl, hbind.mp, fun _ ↦ hblock.mp, hclose.symm⟩, counted_congr rfl hbind hclose⟩

theorem calm_complete (c : Core) (p : Post) :
    Calm c (if c.fd ≠ none then c.clearFlag p.flag else c) ∧
      (if c.fd ≠ none then c.clearFlag p.flag else c).counted = c.counted := by
  obtain ⟨hbind, hclose, hblock⟩ := p.ne_flag
  split
  · have hbind' : .bind ∈ (c.clearFlag p.flag).state ↔ .bind ∈ c.state := by
      simp [Core.clearFlag, hbind]
    have hclose' : .close ∈ (c.clearFlag p.flag).state ↔ .close ∈ c.state := by
      simp [Core.clearFlag, hclose]
    refine ⟨⟨rfl, hbind'.mp, ?_, hclose'.symm⟩, counted_congr rfl hbind' hclose'⟩
    intro _ hmem
    exact (Finset.mem_erase.mp hmem).2
  · exact ⟨⟨rfl, id, fun _ ↦ id, Iff.rfl⟩, rfl⟩

theorem registered_constructImpl_iff (h : s.Registered) (hkept : s.Kept) (i : ℕ) :
    (s.move (.constructImpl i)).Registered ↔ KeepsRegistry s (.constructImpl i) := by
  refine (h.calm_iff hkept i fun c _ ↦ calm_constructImpl c).trans ?_
  refine forall_congr' fun c ↦ imp_congr_right fun _ ↦ ?_
  have hnone : c.constructImpl.counted = none :=
    if_neg fun hand ↦ absurd hand.1 (by simp [Core.constructImpl])
  rw [hnone, eq_comm]

theorem sameThreads_counting (r : Registry) (t : ℕ) : r.SameThreads (r.counting t) := by
  obtain ⟨hvector, hmap, hhandler⟩ :=
    r.sameThreads_setImpl t (f := fun s ↦ { s with fdcnt := s.fdcnt + 1 }) fun _ ↦ rfl
  exact ⟨hvector, hmap, hhandler⟩

theorem impls_counting (r : Registry) (t q : ℕ) : (r.counting t).impls q =
    if q = t then { r.impls q with fdcnt := (r.impls q).fdcnt + 1 } else r.impls q :=
  r.impls_setImpl t q fun s ↦ { s with fdcnt := s.fdcnt + 1 }

/-- A post counts its socket exactly where it meets the condition. -/
theorem Kept.post (h : s.Kept) (i : ℕ) (p : Post) (os : Os) (error : SocketError) :
    (s.move (.post i p os error)).Kept ∧ (s.Registered →
      ((s.move (.post i p os error)).Registered ↔ KeepsRegistry s (.post i p os error))) := by
  rw [move, KeepsRegistry]
  cases hc : s.socks[i]? with
  | none =>
      rw [callOn_none hc]
      exact ⟨h, fun hreg ↦ iff_of_true hreg fun c hc' ↦ by cases hc'⟩
  | some c =>
      have hkeyed := h.keyed i c hc
      obtain ⟨hclose, hblock, hcases⟩ :=
        World.asyncPost_cases (w := ⟨c, s.service⟩) p os error hkeyed.io_of_bind
      rw [callOn_some hc]
      generalize (World.asyncPost p ⟨c, s.service⟩ os error).1 = w at hclose hblock hcases ⊢
      have hnew : (∀ d, some c = some d → p.Counts os error ⟨d, s.service⟩) ↔
          p.Counts os error ⟨c, s.service⟩ :=
        ⟨fun hall ↦ hall c rfl, fun hone d hd ↦ Option.some.inj hd ▸ hone⟩
      rw [hnew]
      rcases hcases with ⟨hservice, hio, hbind, hiff⟩ | ⟨t, ht, hnone, hservice, hio, hiff⟩
      · have hsame : s.service.SameThreads w.service := hservice ▸ Registry.SameThreads.refl _
        have hkeyed' : s.service.Keyed w.core :=
          ⟨fun k hk ↦ hkeyed.key k (hio ▸ hk), fun hmem ↦ hio.trans_ne (hbind hmem),
            fun hmem hmode ↦
              hkeyed.block_of_bind (hblock hmem hmode).1 (hblock hmem hmode).2⟩
        constructor
        · refine h.callOn hc hsame ?_ hkeyed' hclose.mpr ⟨0, ?_⟩
          · intro q _
            rw [hservice]
          · intro q r hr
            rw [hservice] at hr
            exact Or.inl hr
        · intro hreg
          rw [registered_same_iff hreg hc hsame (fun q ↦ by rw [hservice]) hkeyed hkeyed', hiff]
          exact counted_eq_iff hio hclose hkeyed.io_of_bind hkeyed'.io_of_bind
      · have hsame : s.service.SameThreads w.service := hservice ▸ sameThreads_counting _ t
        have hkeyed' : s.service.Keyed w.core := by
          refine ⟨fun k hk ↦ ⟨t, ht, Option.some.inj (hio.symm.trans hk)⟩, ?_, fun hmem hmode ↦
            hkeyed.block_of_bind (hblock hmem hmode).1 (hblock hmem hmode).2⟩
          intro _
          rw [hio]
          exact Option.some_ne_none _
        have himpls : ∀ q, (w.service.impls q) = if q = t then
            { s.service.impls q with fdcnt := (s.service.impls q).fdcnt + 1 } else
            s.service.impls q := by
          intro q
          rw [hservice, impls_counting]
        constructor
        · refine h.callOn hc hsame ?_ hkeyed' hclose.mpr ⟨0, ?_⟩
          · intro q hq
            rw [himpls, if_neg (ne_of_mem_of_not_mem ht hq).symm]
          · intro q r hr
            rw [himpls] at hr
            refine Or.inl ?_
            split at hr <;> exact hr
        · intro hreg
          rw [registered_chosen_iff hreg h.runs hc hsame ht ?_ hnone hio, hiff]
          · rw [counted_eq_some hio, hclose, and_assoc, and_left_comm]
          · intro q
            rw [himpls]
            split <;> rfl

/-- `_GetIoServiceImpl` finds the thread whose instance is the key of the socket. -/
theorem find_of_keyed {r : Registry} {c : Core} (hruns : r.Runs) (hc : r.Keyed c) :
    (c.io = none ∧ r.getIoServiceImpl c.io = none) ∨
      ∃ t ∈ r.implvector, c.io = some (r.impls t).handler ∧ r.getIoServiceImpl c.io = some t := by
  cases hio : c.io with
  | none => exact Or.inl ⟨rfl, rfl⟩
  | some k =>
      obtain ⟨t, ht, rfl⟩ := hc.key k hio
      obtain ⟨hpos, hmap⟩ := hruns.running t ht
      refine Or.inr ⟨t, ht, rfl, ?_⟩
      rw [Registry.getIoServiceImpl, if_neg fun h ↦ hpos (Option.some.inj h)]
      exact hmap

/-- The registry behind a `Close` that finds thread `t`. -/
theorem impls_request (r : Registry) (close : Epoll.CloseRequest) (t q : ℕ) :
    ((r.forget (some t)).request close (some t)).impls q =
      if q = t then ⟨(r.impls q).handler, (r.impls q).fdcnt - 1, (r.impls q).closereqs ++ [close]⟩
      else r.impls q := by
  rw [Registry.request, Registry.impls_setImpl, Registry.forget, Registry.impls_setImpl]
  split <;> rfl

theorem sameThreads_request (r : Registry) (close : Epoll.CloseRequest) (t : ℕ) :
    r.SameThreads ((r.forget (some t)).request close (some t)) := by
  refine ⟨rfl, rfl, fun q ↦ ?_⟩
  rw [impls_request]
  split <;> rfl

theorem counted_close {c : Core} (hopen : c.fd ≠ none ∧ .close ∉ c.state) :
    c.close.counted = none := by
  rw [Core.close, if_pos hopen]
  split <;> simp [Core.counted, Core.shut, Core.setFlag]

theorem keyed_close {r : Registry} {c : Core} (h : r.Keyed c) : r.Keyed c.close := by
  rw [Core.close]
  split
  · split
    · exact ⟨h.key, fun hmem ↦ absurd hmem (Finset.notMem_empty _),
        fun hmem ↦ absurd hmem (Finset.notMem_empty _)⟩
    · refine ⟨h.key, fun hmem ↦ h.io_of_bind ?_, fun hmem ↦ ?_⟩
      · simpa [Core.setFlag] using hmem
      · have hbind : .bind ∈ c.state := by simpa [Core.setFlag] using hmem
        simpa [Core.setFlag] using h.block_of_bind hbind
  · exact h

/-- `Close` counts its socket down exactly where it meets the condition. -/
theorem Kept.close (h : s.Kept) (hreg : s.Registered) (i : ℕ) (handler : Option ℕ)
    (closed : Option SocketError) (error : SocketError) :
    ((s.move (.close i handler closed error)).Registered ↔
        KeepsRegistry s (.close i handler closed error)) ∧
      ((s.move (.close i handler closed error)).Registered →
        (s.move (.close i handler closed error)).Kept) := by
  rw [move, KeepsRegistry]
  cases hc : s.socks[i]? with
  | none =>
      rw [callOn_none hc]
      exact ⟨iff_of_true hreg (fun c hc' ↦ by cases hc'), fun _ ↦ h⟩
  | some c =>
      have hkeyed := h.keyed i c hc
      have hnew : (∀ d, some c = some d → d.fd ≠ none → .close ∉ d.state → d.io ≠ none →
          .bind ∈ d.state) ↔ (c.fd ≠ none → .close ∉ c.state → c.io ≠ none → .bind ∈ c.state) :=
        ⟨fun hall ↦ hall c rfl, fun hone d hd ↦ Option.some.inj hd ▸ hone⟩
      rw [hnew, callOn_some hc, (close_alone rfl).1, Holder.enter]
      by_cases hopen : c.fd ≠ none ∧ .close ∉ c.state
      · have hworld : World.close i handler ⟨c, s.service⟩ = ⟨c.close,
            (s.service.forget (s.service.getIoServiceImpl c.io)).request ⟨i, handler⟩
              (s.service.getIoServiceImpl c.io)⟩ := if_pos hopen
        rw [hworld]
        dsimp only
        rw [forall_prop_of_true hopen.1, forall_prop_of_true hopen.2]
        rcases find_of_keyed h.runs hkeyed with ⟨hnone, hfind⟩ | ⟨t, ht, hio, hfind⟩
        · rw [hfind]
          have hcounted : c.counted = none := by rw [Core.counted, hnone, ite_self]
          constructor
          · refine (registered_same_iff hreg hc (Registry.SameThreads.refl _) (fun _ ↦ rfl) hkeyed
              (keyed_close hkeyed)).trans ?_
            rw [counted_close hopen, hcounted]
            exact iff_of_true rfl fun hio ↦ absurd hnone hio
          · intro _
            exact h.callOn hc (w := ⟨c.close, s.service⟩) (Registry.SameThreads.refl _)
              (fun _ _ ↦ rfl) (keyed_close hkeyed) (fun hmem ↦ absurd hmem hopen.2)
              ⟨0, fun _ _ ↦ Or.inl⟩
        · rw [hfind, hio, forall_prop_of_true (Option.some_ne_none _)]
          have hsame := sameThreads_request s.service ⟨i, handler⟩ t
          have himpls := impls_request s.service ⟨i, handler⟩ t
          generalize (s.service.forget (some t)).request ⟨i, handler⟩ (some t) = after
            at hsame himpls ⊢
          have hbound : c.counted = some (s.service.impls t).handler ↔ .bind ∈ c.state := by
            rw [counted_eq_some hio, and_iff_left hopen.2]
          have hiff := registered_forgotten_iff hreg h.runs hc hsame ht (d := c.close)
            (fun q ↦ by rw [himpls]; split <;> rfl) hio (counted_close hopen)
          rw [hbound] at hiff
          refine ⟨hiff, fun hafter ↦ ?_⟩
          have hblock := hkeyed.block_of_bind (hiff.mp hafter)
          have hclosed : .close ∈ c.close.state := by
            rw [Core.close, if_pos hopen, if_neg hblock]
            exact Finset.mem_insert_self ..
          refine h.callOn hc (w := ⟨c.close, after⟩) hsame ?_ (keyed_close hkeyed) (fun _ ↦ hclosed)
            ⟨t, ?_⟩
          · intro q hq
            rw [himpls, if_neg (ne_of_mem_of_not_mem ht hq).symm]
          · intro q r hr
            rw [himpls] at hr
            split at hr
            · rename_i hq
              rcases List.mem_append.mp hr with hold | hnew
              · exact Or.inl hold
              · cases List.mem_singleton.mp hnew
                exact Or.inr ⟨hq, rfl, hopen.2, hclosed⟩
            · exact Or.inl hr
      · have hsame : World.close i handler ⟨c, s.service⟩ = ⟨c, s.service⟩ := if_neg hopen
        obtain ⟨hi, rfl⟩ := List.getElem?_eq_some_iff.mp hc
        rw [hsame, List.set_getElem_self hi]
        exact ⟨iff_of_true hreg fun hfd hclose ↦ absurd ⟨hfd, hclose⟩ hopen, fun _ ↦ h⟩

theorem bound_eq_of_map {t : Sockets} (h : t.socks.map Core.counted = s.socks.map Core.counted)
    (k : ℕ) : t.bound k = s.bound k := by
  have hmap : ∀ u : Sockets, u.bound k = (u.socks.map Core.counted).countP (· = some k) := by
    intro u
    rw [bound, List.countP_map]
    rfl
  rw [hmap, hmap, h]

theorem getElem?_doClose (p i : ℕ) : (s.doClose p).socks[i]? = (s.socks[i]?).map fun c ↦
    if ∃ r ∈ (s.service.impls p).closereqs, r.sock = i then c.shut else c := by
  rw [doClose, List.getElem?_mapIdx]

/-- The sockets that `_DoClose` closes do not count any more. -/
theorem Kept.doClose (h : s.Kept) (hreg : s.Registered) (p : ℕ) :
    (s.move (.doClose p)).Registered ∧ (s.move (.doClose p)).Kept := by
  rw [move]
  have hsame := s.service.sameThreads_setImpl p (f := fun t ↦ { t with closereqs := [] })
    fun _ ↦ rfl
  have himpls := fun q ↦ s.service.impls_setImpl p q fun t ↦ { t with closereqs := [] }
  have hshut : ∀ i c, s.socks[i]? = some c → (∃ r ∈ (s.service.impls p).closereqs, r.sock = i) →
      c.counted = none := by
    rintro i c hc ⟨r, hr, rfl⟩
    obtain ⟨d, hd, hasked⟩ := h.asked p r hr
    cases hc.symm.trans hd
    exact if_neg fun hand ↦ hand.2 hasked
  constructor
  · have hbound : ∀ k, (s.doClose p).bound k = s.bound k := by
      refine bound_eq_of_map (List.ext_getElem? fun i ↦ ?_)
      rw [List.getElem?_map, List.getElem?_map, getElem?_doClose, Option.map_map]
      cases hc : s.socks[i]? with
      | none => rfl
      | some c =>
          simp only [Option.map_some, Function.comp_apply, Option.some.injEq]
          split
          · rename_i hasked
            rw [hshut i c hc hasked]
            exact if_neg fun hand ↦ absurd hand.1 (Finset.notMem_empty _)
          · rfl
    refine (hreg.callOn_iff hsame).mpr fun q hq ↦ ?_
    have hfdcnt : ((s.doClose p).service.impls q).fdcnt = (s.service.impls q).fdcnt := by
      rw [Sockets.doClose, himpls]
      split <;> rfl
    exact (congrArg UInt32.toNat hfdcnt).trans ((hreg.fdcnt q hq).trans (hbound _).symm)
  · refine ⟨h.runs.of_same hsame ?_, ?_, ?_, ?_⟩
    · intro q _
      rw [Sockets.doClose, himpls]
      split <;> rfl
    · intro i c hc
      rw [getElem?_doClose] at hc
      obtain ⟨d, hd, rfl⟩ := Option.map_eq_some_iff.mp hc
      refine Registry.Keyed.of_same ?_ hsame
      split
      · exact ⟨(h.keyed i d hd).key, fun hmem ↦ absurd hmem (Finset.notMem_empty _),
          fun hmem ↦ absurd hmem (Finset.notMem_empty _)⟩
      · exact h.keyed i d hd
    · intro q r hr
      have hq : q ≠ p := by
        rintro rfl
        rw [Sockets.doClose, himpls, if_pos rfl] at hr
        cases hr
      rw [Sockets.doClose, himpls, if_neg hq] at hr
      obtain ⟨d, hd, hasked⟩ := h.asked q r hr
      refine ⟨d, ?_, hasked⟩
      rw [getElem?_doClose, hd, Option.map_some, if_neg]
      rintro ⟨r', hr', hsock⟩
      exact hq (h.once q p r hr r' hr' hsock.symm)
    · have hold : ∀ q, ∀ r ∈ ((s.doClose p).service.impls q).closereqs,
          r ∈ (s.service.impls q).closereqs := by
        intro q r hr
        rw [Sockets.doClose, himpls] at hr
        split at hr
        · cases hr
        · exact hr
      intro q q' r hr r' hr' heq
      exact h.once q q' r (hold q r hr) r' (hold q' r' hr') heq

theorem Kept.create (h : s.Kept) (hreg : s.Registered) :
    (s.move .create).Registered ∧ (s.move .create).Kept := by
  have hnew : ∀ (i : ℕ) (c : Core), (s.socks ++ [Core.new.constructImpl])[i]? = some c →
      s.socks[i]? = some c ∨ c = Core.new.constructImpl := by
    intro i c hc
    by_cases hi : i < s.socks.length
    · exact Or.inl ((List.getElem?_append_left hi).symm.trans hc)
    · rw [List.getElem?_append_right (not_lt.mp hi)] at hc
      exact Or.inr (List.mem_singleton.mp (List.mem_of_getElem? hc))
  constructor
  · refine ⟨hreg.implmap, fun p hp ↦ (hreg.fdcnt p hp).trans ?_⟩
    have hnone : ¬ Core.new.constructImpl.counted = some (s.service.impls p).handler := by
      rw [show Core.new.constructImpl.counted = none by decide]
      exact Option.some_ne_none _ ∘ Eq.symm
    rw [move, bound, bound, List.countP_append, List.countP_cons, List.countP_nil,
      decide_eq_false hnone]
    rfl
  · refine ⟨h.runs, ?_, ?_, h.once⟩
    · intro i c hc
      rcases hnew i c hc with hold | rfl
      · exact h.keyed i c hold
      · exact ⟨nofun, fun hmem ↦ absurd hmem (by decide), fun hmem ↦ absurd hmem (by decide)⟩
    · intro p r hr
      obtain ⟨c, hc, hasked⟩ := h.asked p r hr
      exact ⟨c, (List.getElem?_append_left (List.getElem?_eq_some_iff.mp hc).1).trans hc, hasked⟩

/-- A thread that enters finds its counter at zero, and no socket has its instance for a key. -/
theorem Kept.enter (h : s.Kept) (hreg : s.Registered) {p : ℕ} (hp : p ∉ s.service.implvector) :
    (s.move (.enter p)).Registered ∧ (s.move (.enter p)).Kept := by
  rw [move, Registry.createIoImpl]
  by_cases hzero : (s.service.impls p).handler = 0
  · rw [if_pos hzero]
    exact ⟨hreg, h⟩
  · rw [if_neg hzero]
    have hne : ∀ q ∈ s.service.implvector,
        (s.service.impls q).handler ≠ (s.service.impls p).handler :=
      fun q hq heq ↦ hp (h.runs.handlers heq ▸ hq)
    constructor
    · constructor
      · intro k q hk
        dsimp only at hk ⊢
        by_cases hkp : k = (s.service.impls p).handler
        · rw [hkp, Function.update_self] at hk
          cases hk
          exact ⟨List.mem_append_right _ (List.mem_singleton_self _), hkp.symm⟩
        · rw [Function.update_of_ne hkp] at hk
          obtain ⟨hq, hhandler⟩ := hreg.implmap k q hk
          exact ⟨List.mem_append_left _ hq, hhandler⟩
      · intro q hq
        rcases List.mem_append.mp hq with hold | hnew
        · exact hreg.fdcnt q hold
        · cases List.mem_singleton.mp hnew
          dsimp only
          rw [h.runs.idle _ hp]
          refine (List.countP_eq_zero.mpr ?_).symm
          intro c hc
          obtain ⟨i, hi⟩ := List.mem_iff_getElem?.mp hc
          intro hcounted
          obtain ⟨t, ht, heq⟩ := (h.keyed i c hi).key _ (io_of_counted (of_decide_eq_true hcounted))
          exact hne t ht heq
    · refine ⟨⟨h.runs.handlers, ?_, ?_, ?_⟩, ?_, h.asked, h.once⟩
      · exact List.nodup_append.mpr ⟨h.runs.nodup, List.nodup_singleton p,
          fun a ha b hb ↦ by rw [List.mem_singleton.mp hb]; exact ne_of_mem_of_not_mem ha hp⟩
      · intro q hq
        dsimp only at hq ⊢
        rcases List.mem_append.mp hq with hold | hnew
        · obtain ⟨hpos, hmap⟩ := h.runs.running q hold
          rw [Function.update_of_ne (hne q hold)]
          exact ⟨hpos, hmap⟩
        · cases List.mem_singleton.mp hnew
          rw [Function.update_self]
          exact ⟨hzero, rfl⟩
      · exact fun q hq ↦ h.runs.idle q fun hold ↦ hq (List.mem_append_left _ hold)
      · intro i c hc
        obtain ⟨hkey, hbind, hblock⟩ := h.keyed i c hc
        refine ⟨fun k hk ↦ ?_, hbind, hblock⟩
        obtain ⟨t, ht, heq⟩ := hkey k hk
        exact ⟨t, List.mem_append_left _ ht, heq⟩

/-- A thread that leaves stays in the map. -/
theorem Kept.not_registered_leave (h : s.Kept) {p : ℕ} (handler : ℕ)
    (hp : p ∈ s.service.implvector) :
    ¬ (s.move (.leave p handler)).Registered := by
  intro hafter
  obtain ⟨-, hmap⟩ := h.runs.running p hp
  exact h.runs.nodup.not_mem_erase (hafter.implmap _ p hmap).1

/-- What a move does to the registry is right exactly where the move meets the condition. -/
theorem Kept.move_iff (h : s.Kept) (hreg : s.Registered) {a : RegistryMove}
    (henabled : system.enabled s a) :
    ((s.move a).Registered ↔ KeepsRegistry s a) ∧ ((s.move a).Registered → (s.move a).Kept) := by
  cases a with
  | enter p =>
      obtain ⟨hafter, hkept⟩ := h.enter hreg henabled
      exact ⟨iff_of_true hafter trivial, fun _ ↦ hkept⟩
  | leave p handler =>
      have hnot := h.not_registered_leave handler henabled.1
      exact ⟨iff_of_false hnot not_false, fun hafter ↦ absurd hafter hnot⟩
  | create =>
      obtain ⟨hafter, hkept⟩ := h.create hreg
      exact ⟨iff_of_true hafter trivial, fun _ ↦ hkept⟩
  | constructImpl i =>
      exact ⟨registered_constructImpl_iff hreg h i,
        fun _ ↦ h.calm i fun c _ ↦ calm_constructImpl c⟩
  | openSocket i v6 socket error =>
      have hcalm := fun c ↦ calm_openSocket c v6 socket error
      refine ⟨iff_of_true ((hreg.calm_iff h i fun c _ ↦ (hcalm c).1).mpr fun c _ ↦ (hcalm c).2)
        trivial, fun _ ↦ h.calm i fun c _ ↦ (hcalm c).1⟩
  | post i p os error =>
      obtain ⟨hkept, hiff⟩ := h.post i p os error
      exact ⟨hiff hreg, fun _ ↦ hkept⟩
  | complete i p =>
      have hcalm := fun c ↦ calm_complete c p
      refine ⟨iff_of_true ((hreg.calm_iff h i fun c _ ↦ (hcalm c).1).mpr fun c _ ↦ (hcalm c).2)
        trivial, fun _ ↦ h.calm i fun c _ ↦ (hcalm c).1⟩
  | close i handler closed error => exact h.close hreg i handler closed error
  | doClose p =>
      obtain ⟨hafter, hkept⟩ := h.doClose hreg p
      exact ⟨iff_of_true hafter trivial, fun _ ↦ hkept⟩

/-- In every state reached the map has the running threads under their instances and their counters
are right, exactly where every move keeps the registry right. -/
theorem registered_reached_iff (handlers : ℕ ↪ ℕ) (as : List RegistryMove)
    (h : system.Allowed System.anyStep (start handlers) as) :
    (∀ bs, bs <+: as → ∀ t, system.run (start handlers) bs = some t → t.Registered) ↔
      system.Allowed KeepsRegistry (start handlers) as := by
  refine System.reached_iff_allowed (I := Kept) ?_ ?_ ?_ ?_ h
  · intro t a t' ht hreg henabled hstep hreg'
    cases hstep
    exact (ht.move_iff hreg henabled).2 hreg'
  · intro t a ht hreg henabled
    rw [← (ht.move_iff hreg henabled).1]
    exact ⟨fun hall ↦ hall _ rfl, fun hafter t' ht' ↦ Option.some.inj ht' ▸ hafter⟩
  · exact ⟨⟨handlers.injective, List.nodup_nil, nofun, fun _ _ ↦ rfl⟩, nofun, nofun, nofun⟩
  · exact ⟨nofun, nofun⟩

/-! ## Runs -/

theorem allowed_cons {cond : Sockets → RegistryMove → Prop} {a : RegistryMove}
    {as : List RegistryMove} (henabled : system.enabled s a) (ha : cond s a)
    (has : system.Allowed cond (s.move a) as) : system.Allowed cond s (a :: as) :=
  ⟨henabled, ha, fun _ hstep ↦ Option.some.inj hstep ▸ has⟩

def sampleHandlers : ℕ ↪ ℕ := ⟨(· + 3), add_left_injective 3⟩

/-- A socket is opened, read from and closed by the one thread. -/
def oneSocket : List RegistryMove :=
  [.enter 0, .create, .openSocket 0 false (.ok 7) 0, .post 0 (.some .read) .good 0,
    .complete 0 (.some .read), .close 0 none none 0, .doClose 0]

/-- The same socket is opened again, read from and closed. -/
def twice : List RegistryMove :=
  oneSocket ++ [.openSocket 0 false (.ok 7) 0, .post 0 (.some .read) .good 0,
    .close 0 none none 0]

theorem allowed_oneSocket : system.Allowed System.anyStep (start sampleHandlers) oneSocket :=
  allowed_cons List.not_mem_nil trivial <| allowed_cons trivial trivial <|
    allowed_cons trivial trivial <| allowed_cons trivial trivial <|
    allowed_cons trivial trivial <| allowed_cons trivial trivial <|
    allowed_cons (List.mem_singleton_self 0) trivial trivial

theorem registered_oneSocket :
    system.Allowed System.anyStep (start sampleHandlers) oneSocket ∧
      ∀ bs, bs <+: oneSocket → ∀ t, system.run (start sampleHandlers) bs = some t →
        t.Registered := by
  refine ⟨allowed_oneSocket,
    (registered_reached_iff sampleHandlers oneSocket allowed_oneSocket).mpr ?_⟩
  refine allowed_cons List.not_mem_nil trivial <| allowed_cons trivial trivial <|
    allowed_cons trivial trivial <| allowed_cons trivial ?_ <|
    allowed_cons trivial trivial <| allowed_cons trivial ?_ <|
    allowed_cons (List.mem_singleton_self 0) trivial trivial
  · rintro c hc -
    obtain rfl : Core.mk none (some 7) {.block} false = c :=
      Option.some.inj (Eq.trans (by decide +kernel) hc)
    rw [if_neg (by decide), if_pos rfl]
    refine Or.inr ⟨by decide, rfl, rfl, fun p hp ↦ ?_⟩
    obtain rfl : 0 = p := Option.some.inj (Eq.trans (by decide +kernel) hp)
    decide +kernel
  · rintro c hc - - -
    obtain rfl : Core.mk (some 3) (some 7) {.bind} true = c :=
      Option.some.inj (Eq.trans (by decide +kernel) hc)
    decide

/-- A thread that left is still in the map; and a socket that is opened again is counted down when
it is closed, below zero, because it was not counted up. -/
theorem registered_reached_fails :
    (system.Allowed System.anyStep (start sampleHandlers) [.enter 0, .leave 0 2] ∧
        ∃ t, system.run (start sampleHandlers) [.enter 0, .leave 0 2] = some t ∧
          t.service.implmap 3 = some 0 ∧ t.service.implvector = []) ∧
      system.Allowed System.anyStep (start sampleHandlers) twice ∧
        ∃ t, system.run (start sampleHandlers) twice = some t ∧
          t.service.implvector = [0] ∧ (t.service.impls 0).fdcnt = 4294967295 ∧
          t.bound (t.service.impls 0).handler = 0 := by
  refine ⟨⟨?_, _, rfl, by decide +kernel⟩, ?_, _, rfl, by decide +kernel⟩
  · refine allowed_cons List.not_mem_nil trivial <| allowed_cons ⟨List.mem_singleton_self 0, ?_⟩
      trivial trivial
    intro q _ heq
    exact absurd heq (Nat.succ_succ_ne_one _ ∘ Nat.succ.inj)
  · exact System.Allowed.concat allowed_oneSocket fun t _ ↦ allowed_cons trivial trivial <|
      allowed_cons trivial trivial <| allowed_cons trivial trivial trivial

end Sockets

end IoAccess

end Slience
