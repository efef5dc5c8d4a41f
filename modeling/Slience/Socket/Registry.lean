import Slience.Socket.Posts

/-!
# The registry of a service

A thread enters the registry in `_CreateIoImpl` and leaves it in `_ReleaseIoImpl`.  The map from
the handlers to the objects of the threads is written on entering only, so a thread that left
stays in it.  The counter of an object goes up where `CtlEpoll` chooses it, which is where a socket
has no key yet, and down in `Close` where the key of the socket is in the map; a socket keeps its
key when it is closed.
-/

namespace Slience

namespace IoAccess

open Epoll (StateBit Os)

open Locking

/-- The sockets that were created, and the registry. -/
structure Sockets where
  socks : List Core
  service : Registry

inductive RegistryMove
  /-- thread `p` enters `Run` -/
  | enter (p : ℕ)
  /-- it leaves `Run`; its new `epoll` instance is `handler` -/
  | leave (p handler : ℕ)
  | create
  | constructImpl (i : ℕ)
  | openSocket (i : ℕ) (v6 : Bool) (socket : Except SocketError ℕ) (error : SocketError)
  | post (i : ℕ) (p : Post) (os : Os) (error : SocketError)
  | complete (i : ℕ) (p : Post)
  | close (i : ℕ) (handler : Option ℕ) (closed : Option SocketError) (error : SocketError)
  | doClose (p : ℕ)

/-- The `epoll` instance in which the socket counts: it is bound and its close was not asked for. -/
def Core.counted (c : Core) : Option ℕ :=
  if .bind ∈ c.state ∧ .close ∉ c.state then c.io else none

namespace Sockets

/-- How many sockets count for an instance. -/
def bound (s : Sockets) (handler : ℕ) : ℕ := s.socks.countP (·.counted = some handler)

/-- A call on socket `i`. -/
def callOn (s : Sockets) (i : ℕ) (f : World → World) : Sockets :=
  match s.socks[i]? with
  | none => s
  | some c => ⟨s.socks.set i (f ⟨c, s.service⟩).core, (f ⟨c, s.service⟩).service⟩

/-- `_DoClose` of thread `p`. -/
def doClose (s : Sockets) (p : ℕ) : Sockets where
  socks := s.socks.mapIdx fun i c ↦
    if ∃ r ∈ (s.service.impls p).closereqs, r.sock = i then c.shut else c
  service := s.service.setImpl p fun t ↦ { t with closereqs := [] }

def move (s : Sockets) : RegistryMove → Sockets
  | .enter p => { s with service := (s.service.createIoImpl p 0).1 }
  | .leave p handler => { s with service := s.service.releaseIoImpl p handler }
  | .create => { s with socks := s.socks ++ [Core.new.constructImpl] }
  | .constructImpl i => s.callOn i (World.setCore Core.constructImpl)
  | .openSocket i v6 socket error =>
      s.callOn i (World.setCore fun c ↦ (c.openSocket v6 socket error).1)
  | .post i p os error => s.callOn i fun w ↦ (w.asyncPost p os error).1
  | .complete i p => s.callOn i (World.setCore fun c ↦
      if c.fd ≠ none then c.clearFlag p.flag else c)
  | .close i handler closed error => s.callOn i fun w ↦
      (IoAccess.close i handler closed error (Holder.enter w [])).2.state
  | .doClose p => s.doClose p

/-- A thread that runs is in `_implvector`, and the kernel has one open instance for a number. -/
def system : System Sockets RegistryMove where
  enabled s
    | .enter p => p ∉ s.service.implvector
    | .leave p handler =>
        p ∈ s.service.implvector ∧ ∀ q, q ≠ p → (s.service.impls q).handler ≠ handler
    | .doClose p => p ∈ s.service.implvector
    | _ => True
  step s a := some (s.move a)

/-- No socket was created and no thread entered.  The instance of thread `p` is `handlers p`. -/
def start (handlers : ℕ ↪ ℕ) : Sockets := ⟨[], ⟨fun p ↦ ⟨handlers p, 0, []⟩, [], fun _ ↦ none, 0⟩⟩

/-- The map has the running threads under their instances, and their counters are right. -/
structure Registered (s : Sockets) : Prop where
  implmap : ∀ h p, s.service.implmap h = some p →
    p ∈ s.service.implvector ∧ (s.service.impls p).handler = h
  fdcnt : ∀ p ∈ s.service.implvector,
    (s.service.impls p).fdcnt.toNat = s.bound (s.service.impls p).handler

/-! ## The condition -/

end Sockets

/-- The post comes to its binding. -/
def Post.Passes (p : Post) (os : Os) (c : Core) : Prop :=
  c.fd ≠ none ∧ p.flag ∉ c.state ∧ p.valid = true ∧ (.block ∈ c.state → os.nonblock = true) ∧
    p.connected = true

/-- The counter that `CtlEpoll` would count up is not the largest. -/
def Registry.HasRoom (r : Registry) : Prop :=
  ∀ p, r.implvector[(r.implidx + 1).toNat % r.implvector.length]? = some p →
    (r.impls p).fdcnt.toNat + 1 < 2 ^ 32

/-- A post that comes to its binding counts what it binds: on a socket that is bound it does not
fail, on one that has a key it does, and on a new one it chooses a thread and succeeds. -/
def Post.Counts (p : Post) (os : Os) (error : SocketError) (w : World) : Prop :=
  p.Passes os w.core →
    if .bind ∈ w.core.state then
      .close ∈ w.core.state ∨ (error = 0 ∧ (p.modifies = true → os.ctl = true))
    else if w.core.io = none then
      w.service.implvector = [] ∨
        (.close ∉ w.core.state ∧ os.ctl = true ∧ error = 0 ∧ w.service.HasRoom)
    else .close ∈ w.core.state ∨ ¬ (os.ctl = true ∧ error = 0)

/-- The move keeps the registry right. -/
def KeepsRegistry (s : Sockets) : RegistryMove → Prop
  | .leave _ _ => False
  | .constructImpl i => ∀ c, s.socks[i]? = some c → c.counted = none
  | .post i p os error => ∀ c, s.socks[i]? = some c → p.Counts os error ⟨c, s.service⟩
  | .close i _ _ _ => ∀ c, s.socks[i]? = some c →
      c.fd ≠ none → .close ∉ c.state → c.io ≠ none → .bind ∈ c.state
  | _ => True

/-! ## A post -/

/-- The registry once thread `p` was chosen. -/
def Registry.counting (r : Registry) (p : ℕ) : Registry :=
  { r.setImpl p fun s ↦ { s with fdcnt := s.fdcnt + 1 } with implidx := r.implidx + 1 }

namespace World

variable {w : World} {os : Os} {error : SocketError}

theorem ctlEpoll_keyed (hio : w.core.io ≠ none) (flag : Epoll.Ctl) :
    w.ctlEpoll flag os error = (w, if os.ctl then error else os.last) := by
  have hsame : (if flag = .add ∧ w.core.io = none then w.chooseImpl else w) = w :=
    if_neg fun hand ↦ hio hand.2
  rw [ctlEpoll, hsame, if_neg hio]
  split <;> rfl

theorem ctlEpoll_empty (hio : w.core.io = none) (hvec : w.service.implvector = []) :
    w.ctlEpoll .add os error = (w, .notService) := by
  have hsame : (if Epoll.Ctl.add = .add ∧ w.core.io = none then w.chooseImpl else w) = w :=
    (if_pos ⟨rfl, hio⟩).trans (dif_pos hvec)
  rw [ctlEpoll, hsame, if_pos hio]

theorem ctlEpoll_chosen (os : Os) (error : SocketError) (hio : w.core.io = none)
    (hvec : w.service.implvector ≠ []) :
    ∃ p ∈ w.service.implvector,
      w.service.implvector[(w.service.implidx + 1).toNat % w.service.implvector.length]? =
          some p ∧
        w.ctlEpoll .add os error =
          (⟨{ w.core with io := some (w.service.impls p).handler }, w.service.counting p⟩,
            if os.ctl then error else os.last) := by
  have hlt := Nat.mod_lt (w.service.implidx + 1).toNat (List.length_pos_iff.mpr hvec)
  refine ⟨w.service.implvector.get ⟨_, hlt⟩, List.get_mem .., List.getElem?_eq_getElem hlt, ?_⟩
  have hchoose : w.chooseImpl.core.io ≠ none := by
    rw [chooseImpl, dif_neg hvec]
    exact Option.some_ne_none _
  have hsame : (if Epoll.Ctl.add = .add ∧ w.core.io = none then w.chooseImpl else w) =
      w.chooseImpl := if_pos ⟨rfl, hio⟩
  rw [ctlEpoll, hsame, if_neg hchoose, chooseImpl, dif_neg hvec]
  split <;> rfl

/-- The flags of a post are set. -/
def marked (p : Post) (w : World) : World :=
  (w.setCore Core.becomeNonblock).setCore (·.setFlag p.flag)

/-- The end of a post. -/
def finish (p : Post) (r : World × SocketError) : World :=
  if r.2 ≠ 0 then r.1.setCore fun c ↦ (c.clearFlag p.flag).clearFlag .bind else r.1

theorem asyncPost_of_passes {p : Post} (h : p.Passes os w.core) :
    (w.asyncPost p os error).1 = finish p ((w.marked p).bindPost p os error) := by
  obtain ⟨hfd, hflag, hvalid, hblock, hconnected⟩ := h
  rw [asyncPost, if_neg hfd, if_neg hflag, if_neg (not_not.mpr hvalid),
    if_neg fun hand ↦ hand.2 (hblock hand.1), if_neg (not_not.mpr hconnected), finish, marked]
  dsimp only
  split <;> rfl

theorem asyncPost_of_not_passes {p : Post} (error : SocketError) (h : ¬ p.Passes os w.core) :
    (w.asyncPost p os error).1 = w ∨
      (w.asyncPost p os error).1 = w.setCore Core.becomeNonblock := by
  rw [asyncPost]
  split
  · exact Or.inl rfl
  rename_i hfd
  split
  · exact Or.inl rfl
  rename_i hflag
  split
  · exact Or.inl rfl
  rename_i hvalid
  split
  · exact Or.inl rfl
  rename_i hblock
  dsimp only
  rw [if_pos]
  · exact Or.inr rfl
  · intro hconnected
    exact h ⟨hfd, hflag, not_not.mp hvalid,
      fun hmem ↦ by_contra fun hmode ↦ hblock ⟨hmem, hmode⟩, hconnected⟩

variable {p : Post}

@[simp] theorem service_finish (r : World × SocketError) : (finish p r).service = r.1.service := by
  rw [finish]
  split <;> rfl

@[simp] theorem io_finish (r : World × SocketError) : (finish p r).core.io = r.1.core.io := by
  rw [finish]
  split <;> rfl

theorem mem_finish {b : StateBit} (hflag : b ≠ p.flag) (hbind : b ≠ .bind)
    (r : World × SocketError) : b ∈ (finish p r).core.state ↔ b ∈ r.1.core.state := by
  rw [finish]
  split
  · simp [setCore, Core.clearFlag, hflag, hbind]
  · rfl

theorem bind_finish (r : World × SocketError) :
    .bind ∈ (finish p r).core.state ↔ r.2 = 0 ∧ .bind ∈ r.1.core.state := by
  rw [finish]
  split
  · rename_i herror
    exact iff_of_false (by simp [setCore, Core.clearFlag]) fun hand ↦ herror hand.1
  · rename_i hzero
    rw [and_iff_right (not_not.mp hzero)]

theorem mem_marked {b : StateBit} (hflag : b ≠ p.flag) (hblock : b ≠ .block) :
    b ∈ (w.marked p).core.state ↔ b ∈ w.core.state := by
  simp [marked, setCore, Core.setFlag, hflag, hblock]

theorem block_notMem_marked (hflag : .block ≠ p.flag) : .block ∉ (w.marked p).core.state := by
  simp [marked, setCore, Core.setFlag, hflag]

@[simp] theorem io_marked : (w.marked p).core.io = w.core.io := w.core.io_becomeNonblock

end World

theorem Post.ne_flag (p : Post) : StateBit.bind ≠ p.flag ∧ StateBit.close ≠ p.flag ∧
    StateBit.block ≠ p.flag := by
  cases p with
  | accept => decide
  | connect valid connected => exact ⟨nofun, nofun, nofun⟩
  | some d => cases d <;> decide

namespace World

variable {w : World} (p : Post) (os : Os) (error : SocketError)

/-- The binding of a socket that is bound. -/
theorem bindPost_bound (hbind : .bind ∈ w.core.state) (hio : w.core.io ≠ none) :
    ∃ code, w.bindPost p os error = (w, code) ∧
      (code = 0 ↔ error = 0 ∧ (p.modifies = true → os.ctl = true)) := by
  have hlast := os.last_ne
  rw [bindPost, if_pos hbind]
  split
  · rename_i hmodifies
    rw [ctlEpoll_keyed hio]
    refine ⟨_, rfl, ?_⟩
    split <;> simp_all
  · rename_i hmodifies
    exact ⟨error, rfl, by simp [hmodifies]⟩

/-- The binding of a socket that is not bound and has a key. -/
theorem bindPost_keyed (hbind : .bind ∉ w.core.state) (hio : w.core.io ≠ none) :
    ∃ code, w.bindPost p os error = (w.setCore (·.setFlag .bind), code) ∧
      (code = 0 ↔ os.ctl = true ∧ error = 0) := by
  have hlast := os.last_ne
  have hio' : (w.setCore (·.setFlag .bind)).core.io ≠ none := hio
  rw [bindPost, if_neg hbind, ctlEpoll_keyed hio']
  refine ⟨_, rfl, ?_⟩
  split <;> simp_all

/-- The binding of a new socket while no thread runs. -/
theorem bindPost_empty (hbind : .bind ∉ w.core.state) (hio : w.core.io = none)
    (hvec : w.service.implvector = []) :
    w.bindPost p os error = (w.setCore (·.setFlag .bind), .notService) := by
  have hio' : (w.setCore (·.setFlag .bind)).core.io = none := hio
  rw [bindPost, if_neg hbind, ctlEpoll_empty hio' hvec]

/-- The binding of a new socket. -/
theorem bindPost_chosen (hbind : .bind ∉ w.core.state) (hio : w.core.io = none)
    (hvec : w.service.implvector ≠ []) :
    ∃ t ∈ w.service.implvector, ∃ code,
      w.service.implvector[(w.service.implidx + 1).toNat % w.service.implvector.length]? =
          some t ∧
        w.bindPost p os error =
          (⟨{ w.core.setFlag .bind with io := some (w.service.impls t).handler },
            w.service.counting t⟩, code) ∧
        (code = 0 ↔ os.ctl = true ∧ error = 0) := by
  have hlast := os.last_ne
  have hio' : (w.setCore (·.setFlag .bind)).core.io = none := hio
  obtain ⟨t, ht, hchosen, hctl⟩ := ctlEpoll_chosen os error hio' hvec
  rw [bindPost, if_neg hbind, hctl]
  refine ⟨t, ht, _, hchosen, rfl, ?_⟩
  split <;> simp_all

/-- Behind a binding that leaves the registry and the key. -/
theorem finish_kept (w v : World) (code : SocketError) (hservice : v.service = w.service)
    (hio : v.core.io = w.core.io) (hbind : .bind ∈ v.core.state)
    (hclose : .close ∈ v.core.state ↔ .close ∈ w.core.state) (hblock : .block ∉ v.core.state) :
    (.close ∈ (finish p (v, code)).core.state ↔ .close ∈ w.core.state) ∧
      .block ∉ (finish p (v, code)).core.state ∧ (finish p (v, code)).service = w.service ∧
      (finish p (v, code)).core.io = w.core.io ∧
      (.bind ∈ (finish p (v, code)).core.state ↔ code = 0) := by
  obtain ⟨-, hnclose, hnblock⟩ := p.ne_flag
  refine ⟨(mem_finish hnclose (by decide) _).trans hclose,
    (mem_finish hnblock (by decide) _).not.mpr hblock, ?_, ?_, ?_⟩
  · rw [service_finish, hservice]
  · rw [io_finish, hio]
  · rw [bind_finish, and_iff_left hbind]

end World

/-- What a post comes to: it leaves the registry and the key of its socket, or it gives a socket
without a key the instance of a thread, whose counter it counts up. -/
theorem World.asyncPost_cases {w : World} (p : Post) (os : Os) (error : SocketError)
    (hio : .bind ∈ w.core.state → w.core.io ≠ none) :
    (.close ∈ (w.asyncPost p os error).1.core.state ↔ .close ∈ w.core.state) ∧
      (.bind ∈ (w.asyncPost p os error).1.core.state →
        .block ∈ (w.asyncPost p os error).1.core.state →
        .bind ∈ w.core.state ∧ .block ∈ w.core.state) ∧
      (((w.asyncPost p os error).1.service = w.service ∧
          (w.asyncPost p os error).1.core.io = w.core.io ∧
          (.bind ∈ (w.asyncPost p os error).1.core.state → w.core.io ≠ none) ∧
          (p.Counts os error w ↔ .close ∈ w.core.state ∨
            (.bind ∈ (w.asyncPost p os error).1.core.state ↔ .bind ∈ w.core.state))) ∨
        ∃ t ∈ w.service.implvector, w.core.io = none ∧
          (w.asyncPost p os error).1.service = w.service.counting t ∧
          (w.asyncPost p os error).1.core.io = some (w.service.impls t).handler ∧
          (p.Counts os error w ↔ .close ∉ w.core.state ∧
            .bind ∈ (w.asyncPost p os error).1.core.state ∧
            (w.service.impls t).fdcnt.toNat + 1 < 2 ^ 32)) := by
  obtain ⟨hbind, hclose, hblock⟩ := p.ne_flag
  by_cases hpass : p.Passes os w.core
  · rw [asyncPost_of_passes hpass, Post.Counts, forall_prop_of_true hpass]
    have hclose' := mem_marked (w := w) hclose (by decide)
    have hbind' := mem_marked (w := w) hbind (by decide)
    have hblock' := block_notMem_marked (w := w) hblock
    have hio' : (w.marked p).core.io = w.core.io := io_marked
    by_cases hmem : .bind ∈ w.core.state
    · obtain ⟨code, hpost, hcode⟩ :=
        bindPost_bound p os error (hbind'.mpr hmem) (hio'.trans_ne (hio hmem))
      obtain ⟨h₁, h₂, h₃, h₄, h₅⟩ :=
        finish_kept p w (w.marked p) code rfl hio' (hbind'.mpr hmem) hclose' hblock'
      rw [hpost, if_pos hmem]
      refine ⟨h₁, fun _ hmode ↦ absurd hmode h₂, Or.inl ⟨h₃, h₄, fun _ ↦ hio hmem, ?_⟩⟩
      rw [h₅, hcode, iff_true_right hmem]
    · -- the bind flag changes nothing that the other flags are asked for
      have hset : .close ∈ ((w.marked p).setCore (·.setFlag .bind)).core.state ↔
          .close ∈ w.core.state := by
        rw [← hclose']
        simp [setCore, Core.setFlag]
      have hset' : .block ∉ ((w.marked p).setCore (·.setFlag .bind)).core.state := by
        simpa [setCore, Core.setFlag] using hblock'
      have hself : .bind ∈ ((w.marked p).setCore (·.setFlag .bind)).core.state :=
        Finset.mem_insert_self ..
      rw [if_neg hmem]
      by_cases hnone : w.core.io = none
      · rw [if_pos hnone]
        by_cases hvec : w.service.implvector = []
        · rw [bindPost_empty p os error (hbind'.not.mpr hmem) (hio'.trans hnone) hvec]
          obtain ⟨h₁, h₂, h₃, h₄, h₅⟩ := finish_kept p w
            ((w.marked p).setCore (·.setFlag .bind)) .notService rfl hio' hself hset hset'
          have hfree : .bind ∉ (finish p ((w.marked p).setCore (·.setFlag .bind),
              .notService)).core.state := h₅.not.mpr (by decide)
          refine ⟨h₁, fun _ hmode ↦ absurd hmode h₂, Or.inl ⟨h₃, h₄, fun h ↦ absurd h hfree, ?_⟩⟩
          exact iff_of_true (Or.inl hvec) (Or.inr (iff_of_false hfree hmem))
        · obtain ⟨t, ht, code, hchosen, hpost, hcode⟩ :=
            bindPost_chosen p os error (hbind'.not.mpr hmem) (hio'.trans hnone) hvec
          have hroom : w.service.HasRoom ↔ (w.service.impls t).fdcnt.toNat + 1 < 2 ^ 32 := by
            refine ⟨fun h ↦ h t hchosen, fun h q hq ↦ ?_⟩
            cases hchosen.symm.trans hq
            exact h
          rw [hpost]
          refine ⟨(mem_finish hclose (by decide) _).trans hset,
            fun _ hmode ↦ absurd ((mem_finish hblock (by decide) _).mp hmode) hset',
            Or.inr ⟨t, ht, hnone, ?_, ?_, ?_⟩⟩
          · rw [service_finish]
            rfl
          · rw [io_finish]
            rfl
          · rw [or_iff_right hvec, bind_finish]
            dsimp only
            rw [hcode, hroom, and_assoc, and_assoc]
            exact and_congr_right fun _ ↦ and_congr_right fun _ ↦ and_congr_right fun _ ↦
              (and_iff_right hself).symm
      · obtain ⟨code, hpost, hcode⟩ :=
          bindPost_keyed p os error (hbind'.not.mpr hmem) (hio'.trans_ne hnone)
        obtain ⟨h₁, h₂, h₃, h₄, h₅⟩ := finish_kept p w
          ((w.marked p).setCore (·.setFlag .bind)) code rfl hio' hself hset hset'
        rw [hpost, if_neg hnone]
        refine ⟨h₁, fun _ hmode ↦ absurd hmode h₂, Or.inl ⟨h₃, h₄, fun _ ↦ hnone, ?_⟩⟩
        rw [h₅, hcode, iff_false_right hmem]
  · have hcounts : p.Counts os error w := fun h ↦ absurd h hpass
    rcases asyncPost_of_not_passes error hpass with hsame | hmode
    · rw [hsame]
      exact ⟨Iff.rfl, fun h h' ↦ ⟨h, h'⟩,
        Or.inl ⟨rfl, rfl, hio, iff_of_true hcounts (Or.inr Iff.rfl)⟩⟩
    · rw [hmode]
      have hbind' : .bind ∈ (w.setCore Core.becomeNonblock).core.state ↔ .bind ∈ w.core.state := by
        simp [setCore]
      refine ⟨by simp [setCore], fun _ h' ↦ absurd h' (by simp [setCore]), Or.inl ⟨rfl,
        w.core.io_becomeNonblock, fun h ↦ hio (hbind'.mp h), iff_of_true hcounts (Or.inr hbind')⟩⟩

end IoAccess

end Slience
