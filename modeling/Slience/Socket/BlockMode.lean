import Slience.Socket.Posts

/-!
# The block bit and the descriptor

The block bit of a socket stands for the mode of its descriptor in the kernel.  `ConstructImpl` sets
it, a post clears it when it makes the descriptor nonblocking, and closing clears all bits.  A
descriptor from `socket` or `accept` is blocking, whatever the bit says, and `Connect` with a
timeout makes its descriptor blocking at its end, whatever the bit says.
-/

namespace Slience

namespace IoAccess

open Epoll (StateBit Os)

open Locking

/-- A call on the socket, or what a thread does to it. -/
inductive ModeMove
  | constructImpl
  | openSocket (v6 : Bool) (socket : Except SocketError ℕ) (error : SocketError)
  /-- the socket is the client of an accept; `v6` is empty for `Accept` -/
  | adopt (fd : ℕ) (v6 : Option Bool)
  | connect (valid : Bool) (timeo : Option ℕ) (os : ConnectCalls) (error : SocketError)
  | post (p : Post) (os : Os) (error : SocketError)
  /-- the locked section of `Complete` -/
  | complete (p : Post)
  | close (handler : Option ℕ) (closed : Option SocketError) (error : SocketError)
  /-- `_DoClose` of a thread -/
  | doClose (p : ℕ)

namespace Core

/-- The descriptor of an accept. -/
def adopt (c : Core) (fd : ℕ) (v6 : Option Bool) : Core :=
  { c with
    fd := some fd
    nonblock := false
    state :=
      if v6 = some true then insert .v6 c.state
      else if v6 = some false then c.state.erase .v6
      else c.state }

/-- What `Connect` does to the socket. -/
def connect (c : Core) (valid : Bool) (timeo : Option ℕ) (os : ConnectCalls) : Core :=
  if c.fd = none ∨ .connect ∈ c.state ∨ ¬ valid ∨ (timeo = none ∧ .block ∉ c.state) then c
  else
    let c := if timeo ≠ none ∧ .block ∈ c.state then c.setNonBlock os.nonblock else c
    let c := c.setFlag .connect
    let c :=
      if os.connect = some .shouldBlock ∧ timeo ≠ none ∧ os.select ≠ .ready 0 then c.close else c
    (c.setBlock os.block).clearFlag .connect

/-- The block bit is clear exactly when the descriptor is nonblocking. -/
def Agrees (c : Core) : Prop := c.fd ≠ none → (.block ∉ c.state ↔ c.nonblock = true)

end Core

namespace World

/-- `_DoClose` of thread `p`, for socket `i`. -/
def doClose (i p : ℕ) (w : World) : World where
  core := if ∃ r ∈ (w.service.impls p).closereqs, r.sock = i then w.core.shut else w.core
  service := w.service.setImpl p fun s ↦ { s with closereqs := [] }

/-- A move of socket `i` whose calls nothing comes between. -/
def moveMode (i : ℕ) (w : World) : ModeMove → World
  | .constructImpl => w.setCore Core.constructImpl
  | .openSocket v6 socket error => w.setCore fun c ↦ (c.openSocket v6 socket error).1
  | .adopt fd v6 => w.setCore fun c ↦ c.adopt fd v6
  | .connect valid timeo os error =>
      (IoAccess.connect i valid timeo os error (Holder.enter w [])).2.state
  | .post p os error => (w.asyncPost p os error).1
  | .complete p => if w.core.fd ≠ none then w.setCore (·.clearFlag p.flag) else w
  | .close handler closed error =>
      (IoAccess.close i handler closed error (Holder.enter w [])).2.state
  | .doClose p => w.doClose i p

end World

/-- The calls on socket `i`. -/
def modeSystem (i : ℕ) : System World ModeMove where
  enabled _ _ := True
  step w a := some (w.moveMode i a)

/-- A new socket of a service. -/
def World.start (service : Registry) : World := ⟨.new, service⟩

/-- `Connect` gives its descriptor up when it fails. -/
def ConnectCalls.Abandons (os : ConnectCalls) (c : Core) : Prop :=
  os.connect = some .shouldBlock ∧ os.select ≠ .ready 0 ∧ .close ∉ c.state

/-- The descriptor of a `Connect` with a timeout is again in the mode it was in, or given up. -/
def ConnectCalls.Restores (os : ConnectCalls) (c : Core) : Prop :=
  if .block ∈ c.state then os.nonblock = false ∨ os.block = true ∨ os.Abandons c
  else os.block = false

/-- The move leaves the bit and the descriptor in one mode. -/
def KeepsMode (w : World) : ModeMove → Prop
  | .constructImpl => w.core.fd = none ∨ w.core.nonblock = false
  | .openSocket _ socket _ =>
      w.core.fd ≠ none ∨ (∃ last, socket = .error last) ∨ .block ∈ w.core.state
  | .adopt _ _ => .block ∈ w.core.state
  | .connect valid timeo os _ =>
      timeo = none ∨ w.core.fd = none ∨ .connect ∈ w.core.state ∨ valid = false ∨
        os.Restores w.core
  | _ => True

/-! ## The core behind a call -/

section

variable {sock : ℕ} {error : SocketError} {h : Holder World}

theorem select_ne_zero (r : SelectResult) (error : SocketError) :
    (select r error).1 ≠ 0 ↔ r ≠ .ready 0 := by
  cases r with
  | timeout => simp [select]
  | failed last => simp [select]
  | ready code =>
      rw [select]
      split <;> simp_all

theorem awaitConnect_alone {timeo : Option ℕ} {os : ConnectCalls} (halone : h.others = []) :
    (awaitConnect sock timeo os error h).2.state.core =
        (if os.connect = some .shouldBlock ∧ timeo ≠ none ∧ os.select ≠ .ready 0 then
          h.state.core.close else h.state.core) ∧
      (awaitConnect sock timeo os error h).2.others = [] := by
  by_cases hwait : os.connect = some .shouldBlock ∧ timeo ≠ none
  · rw [awaitConnect, if_pos hwait]
    by_cases hret : (select os.select error).1 ≠ 0
    · rw [if_pos hret, if_pos ⟨hwait.1, hwait.2, (select_ne_zero ..).mp hret⟩]
      obtain ⟨hstate, hothers⟩ := close_alone halone
      refine ⟨?_, hothers⟩
      rw [← World.core_close sock none, ← hstate]
      rfl
    · rw [if_neg hret, if_neg fun hand ↦ hret ((select_ne_zero ..).mpr hand.2.2)]
      exact ⟨rfl, halone⟩
  · rw [awaitConnect, if_neg hwait]
    refine ⟨?_, halone⟩
    exact (if_neg fun hand ↦ hwait ⟨hand.1, hand.2.1⟩).symm

theorem connect_alone {valid : Bool} {timeo : Option ℕ} {os : ConnectCalls}
    (halone : h.others = []) :
    (connect sock valid timeo os error h).2.state.core = h.state.core.connect valid timeo os := by
  have hfound : h.found = h.state := Holder.found_alone halone
  rw [connect, leaving, Core.connect, bind_apply, bind_apply, lock_apply, bind_apply, look_apply]
  dsimp only
  rw [hfound]
  by_cases hfd : h.state.core.fd = none
  · simp [hfd]
  by_cases hflag : .connect ∈ h.state.core.state
  · simp [hfd, hflag]
  by_cases hvalid : valid = true
  · by_cases hmode : timeo = none ∧ .block ∉ h.state.core.state
    · simp [hfd, hflag, hvalid, hmode]
    · rw [if_neg hfd, if_neg hflag, if_neg (not_not.mpr hvalid), if_neg hmode,
        if_neg (by simp [hfd, hflag, hvalid, hmode])]
      simp only [bind_apply, change_apply, unlock_apply, pure_apply, lock_apply, decide_eq_true_eq]
      have halone' : h.others.tail = [] := by rw [halone, List.tail_nil]
      obtain ⟨hcore, hothers⟩ := @awaitConnect_alone sock error
        ⟨_, released (h.held.map (· + 1)), h.others.tail⟩ timeo os halone'
      rw [Holder.found_alone hothers]
      exact congrArg (fun c ↦ (Core.setBlock os.block c).clearFlag .connect) hcore
  · simp [hfd, hflag, hvalid]

end

/-! ## The mode -/

theorem Post.flag_ne_block (p : Post) : p.flag ≠ .block := by
  cases p with
  | accept => decide
  | connect valid connected => exact StateBit.noConfusion
  | some d => cases d <;> decide

namespace Core

variable {c : Core}

theorem Agrees.of_eq {c' : Core} (h : c.Agrees) (hfd : c'.fd = c.fd)
    (hblock : .block ∈ c'.state ↔ .block ∈ c.state) (hmode : c'.nonblock = c.nonblock) :
    c'.Agrees := by
  intro hopen
  rw [hblock, hmode]
  exact h (hfd ▸ hopen)

theorem Agrees.shut (c : Core) : c.shut.Agrees := fun h ↦ absurd rfl h

theorem agrees_constructImpl : c.constructImpl.Agrees ↔ c.fd = none ∨ c.nonblock = false := by
  have hmem : .block ∈ c.constructImpl.state := Finset.mem_insert_self ..
  rw [Agrees, iff_false_left (not_not.mpr hmem), Bool.not_eq_true, imp_iff_not_or, not_ne_iff]
  rfl

theorem agrees_openSocket (h : c.Agrees) (v6 : Bool) (socket : Except SocketError ℕ)
    (error : SocketError) : (c.openSocket v6 socket error).1.Agrees ↔
      c.fd ≠ none ∨ (∃ last, socket = .error last) ∨ .block ∈ c.state := by
  rw [openSocket]
  split
  · rename_i hopen
    exact iff_of_true h (Or.inl hopen)
  · rename_i hopen
    rw [or_iff_right hopen]
    have hblock : .block ∈ (if v6 then insert .v6 c.state else c.state.erase .v6) ↔
        .block ∈ c.state := by
      split <;> simp
    cases socket with
    | error last => exact iff_of_true (fun hfd ↦ absurd hfd hopen) (Or.inl ⟨last, rfl⟩)
    | ok fd => simp [Agrees, hblock]

theorem agrees_adopt (fd : ℕ) (v6 : Option Bool) : (c.adopt fd v6).Agrees ↔ .block ∈ c.state := by
  have hblock : .block ∈ (c.adopt fd v6).state ↔ .block ∈ c.state := by
    rw [adopt]
    dsimp only
    split
    · simp
    · split <;> simp
  rw [Agrees, hblock]
  simp [adopt]

theorem Agrees.clearFlag (h : c.Agrees) {b : StateBit} (hb : b ≠ .block) :
    (c.clearFlag b).Agrees :=
  h.of_eq rfl (by simp [Core.clearFlag, hb.symm]) rfl

theorem Agrees.setFlag (h : c.Agrees) {b : StateBit} (hb : b ≠ .block) :
    (c.setFlag b).Agrees :=
  h.of_eq rfl (by simp [Core.setFlag, hb.symm]) rfl

theorem Agrees.becomeNonblock (h : c.Agrees) : c.becomeNonblock.Agrees := by
  rw [Core.becomeNonblock]
  split
  · intro hfd
    have hsome : c.fd.isSome = true := Option.isSome_iff_ne_none.mpr hfd
    simp [Core.clearFlag, Core.setNonBlock, hsome]
  · exact h

theorem Agrees.close (h : c.Agrees) : c.close.Agrees := by
  rw [Core.close]
  split
  · split
    · exact Agrees.shut c
    · exact h.setFlag (by decide)
  · exact h

/-- Behind the `SetBlock` of a `Connect`. -/
theorem agrees_setBlock (done : Bool) : ((c.setBlock done).clearFlag .connect).Agrees ↔
    (c.fd ≠ none → (.block ∉ c.state ↔ c.nonblock = true ∧ done = false)) := by
  refine imp_congr_right fun hfd ↦ ?_
  have hsome : c.fd.isSome = true := Option.isSome_iff_ne_none.mpr hfd
  simp [Core.clearFlag, Core.setBlock, hsome]

theorem agrees_connect (h : c.Agrees) (valid : Bool) (timeo : Option ℕ) (os : ConnectCalls) :
    (c.connect valid timeo os).Agrees ↔
      timeo = none ∨ c.fd = none ∨ .connect ∈ c.state ∨ valid = false ∨ os.Restores c := by
  rw [connect]
  split
  · rename_i hrefused
    refine iff_of_true h ?_
    rcases hrefused with hfd | hflag | hvalid | ⟨htimeo, -⟩
    · exact Or.inr (Or.inl hfd)
    · exact Or.inr (Or.inr (Or.inl hflag))
    · exact Or.inr (Or.inr (Or.inr (Or.inl (Bool.eq_false_of_not_eq_true hvalid))))
    · exact Or.inl htimeo
  · rename_i hposted
    push Not at hposted
    obtain ⟨hfd, hflag, hvalid, hmode⟩ := hposted
    have hagree := h hfd
    have hvalid' : ¬ valid = false := Bool.not_eq_false _ ▸ hvalid
    have hsome : c.fd.isSome = true := Option.isSome_iff_ne_none.mpr hfd
    rw [or_iff_right hfd, or_iff_right hflag, or_iff_right hvalid', agrees_setBlock]
    by_cases htimeo : timeo = none
    · have hblock := hmode htimeo
      have hnonblock : c.nonblock = false := by simpa [hblock] using hagree
      simp [htimeo, setFlag, hblock, hnonblock]
    · rw [or_iff_right htimeo, ConnectCalls.Restores]
      by_cases hblock : .block ∈ c.state
      · have hnonblock : c.nonblock = false := by simpa [hblock] using hagree
        have hset : (if timeo ≠ none ∧ .block ∈ c.state then c.setNonBlock os.nonblock else c) =
            c.setNonBlock os.nonblock := if_pos ⟨htimeo, hblock⟩
        rw [if_pos hblock, hset]
        by_cases habandons : os.Abandons c
        · obtain ⟨hwait, hready, hclose⟩ := habandons
          rw [if_pos ⟨hwait, htimeo, hready⟩]
          refine iff_of_true ?_ (Or.inr (Or.inr ⟨hwait, hready, hclose⟩))
          simp [Core.close, setFlag, setNonBlock, hfd, hclose, hblock, shut]
        · rw [or_iff_left habandons]
          have hkept : (if os.connect = some .shouldBlock ∧ timeo ≠ none ∧ os.select ≠ .ready 0 then
              ((c.setNonBlock os.nonblock).setFlag .connect).close
              else (c.setNonBlock os.nonblock).setFlag .connect) =
                (c.setNonBlock os.nonblock).setFlag .connect := by
            split
            · rename_i hwait
              have hclose : .close ∈ c.state := by_contra fun hnot ↦
                habandons ⟨hwait.1, hwait.2.2, hnot⟩
              simp [Core.close, setFlag, setNonBlock, hclose]
            · rfl
          rw [hkept]
          cases os.nonblock <;> cases os.block <;>
            simp [setFlag, setNonBlock, hblock, hnonblock, hfd, hsome]
      · have hnonblock : c.nonblock = true := by simpa [hblock] using hagree
        have hset : (if timeo ≠ none ∧ .block ∈ c.state then c.setNonBlock os.nonblock else c) =
            c := if_neg fun hand ↦ hblock hand.2
        rw [if_neg hblock, hset]
        have hclosed : ((c.setFlag .connect).close).fd = c.fd ∧
            ((c.setFlag .connect).close).nonblock = true ∧
            .block ∉ ((c.setFlag .connect).close).state := by
          rw [Core.close]
          split
          · rw [if_neg (by simp [setFlag, hblock])]
            simp [setFlag, hblock, hnonblock]
          · simp [setFlag, hblock, hnonblock]
        split
        · simp [hclosed.1, hclosed.2.1, hclosed.2.2, hfd]
        · simp [setFlag, hblock, hnonblock, hfd]

end Core

namespace World

variable {w : World}

theorem agrees_ctlEpoll (h : w.core.Agrees) (flag : Epoll.Ctl) (os : Os) (error : SocketError) :
    (w.ctlEpoll flag os error).1.core.Agrees := by
  obtain ⟨io, hio⟩ := w.core_ctlEpoll flag os error
  rw [hio]
  exact h.of_eq rfl Iff.rfl rfl

theorem agrees_bindPost (h : w.core.Agrees) (p : Post) (os : Os) (error : SocketError) :
    (w.bindPost p os error).1.core.Agrees := by
  rw [bindPost]
  split
  · split
    · exact agrees_ctlEpoll h .mod os error
    · exact h
  · have hbind : (w.setCore (·.setFlag .bind)).core.Agrees := h.setFlag (by decide)
    exact agrees_ctlEpoll hbind .add os error

theorem agrees_asyncPost (h : w.core.Agrees) (p : Post) (os : Os) (error : SocketError) :
    (w.asyncPost p os error).1.core.Agrees := by
  have hflag := p.flag_ne_block
  rw [asyncPost]
  split
  · exact h
  split
  · exact h
  split
  · exact h
  split
  · exact h
  have hmode : (w.setCore Core.becomeNonblock).core.Agrees := h.becomeNonblock
  dsimp only
  split
  · exact hmode
  have hset : ((w.setCore Core.becomeNonblock).setCore (·.setFlag p.flag)).core.Agrees :=
    hmode.setFlag hflag
  generalize (w.setCore Core.becomeNonblock).setCore (·.setFlag p.flag) = w₁ at hset ⊢
  have hbind := agrees_bindPost hset p os error
  split
  · exact (hbind.clearFlag hflag).clearFlag (by decide)
  · exact hbind

/-- A move leaves the bit and the descriptor in one mode exactly where it is one that does. -/
theorem agrees_moveMode (h : w.core.Agrees) (i : ℕ) (a : ModeMove) :
    (w.moveMode i a).core.Agrees ↔ KeepsMode w a := by
  cases a with
  | constructImpl => exact Core.agrees_constructImpl
  | openSocket v6 socket error => exact Core.agrees_openSocket h v6 socket error
  | adopt fd v6 => exact Core.agrees_adopt fd v6
  | connect valid timeo os error =>
      rw [moveMode, connect_alone rfl]
      exact Core.agrees_connect h valid timeo os
  | post p os error => exact iff_of_true (agrees_asyncPost h p os error) trivial
  | complete p =>
      refine iff_of_true ?_ trivial
      rw [moveMode]
      split
      · exact Core.Agrees.clearFlag h p.flag_ne_block
      · exact h
  | close handler closed error =>
      refine iff_of_true ?_ trivial
      rw [moveMode, (close_alone rfl).1, core_close]
      exact Core.Agrees.close h
  | doClose p =>
      refine iff_of_true ?_ trivial
      rw [moveMode, doClose]
      split
      · exact Core.Agrees.shut _
      · exact h

end World

theorem allowed_modeSystem (i : ℕ) (w : World) (as : List ModeMove) :
    (modeSystem i).Allowed System.anyStep w as := by
  induction as generalizing w with
  | nil => trivial
  | cons a as ih => exact ⟨trivial, trivial, fun w' _ ↦ ih w'⟩

/-- In every state that the calls on a new socket reach, its block bit is clear exactly when its
descriptor is nonblocking, as far as it has one, exactly where each call leaves the two in one
mode. -/
theorem agrees_reached_iff (i : ℕ) (service : Registry) (as : List ModeMove) :
    (∀ bs, bs <+: as → ∀ w, (modeSystem i).run (.start service) bs = some w → w.core.Agrees) ↔
      (modeSystem i).Allowed KeepsMode (.start service) as := by
  refine System.reached_iff_allowed (I := fun _ ↦ True) (fun _ _ _ _ _ _ _ _ ↦ trivial) ?_ trivial
    (fun hfd ↦ absurd rfl hfd) ?_
  · intro w a _ hw _
    rw [← World.agrees_moveMode hw i a]
    exact ⟨fun h ↦ h _ rfl, fun h w' hw' ↦ Option.some.inj hw' ▸ h⟩
  · exact allowed_modeSystem i _ as

/-- A service with one running thread, and a post that succeeds. -/
def sampleService : Registry :=
  ⟨fun _ ↦ ⟨3, 0, []⟩, [0], Function.update (fun _ ↦ none) 3 (some 0), 0⟩

/-- A socket is opened, read from, closed and opened again. -/
def reopening : List ModeMove :=
  [.constructImpl, .openSocket false (.ok 7) 0, .post (.some .read) .good 0,
    .complete (.some .read), .close none none 0, .doClose 0, .openSocket false (.ok 7) 0]

/-- A timed connect on a socket that posts made nonblocking. -/
def reconnecting : List ModeMove :=
  [.constructImpl, .openSocket false (.ok 7) 0, .post (.connect true true) .good 0,
    .complete (.connect true true),
    .connect true (some 5) ⟨true, none, .ready 0, none, 1, true⟩ 0]

/-- The reopened descriptor is blocking and its bit says that it is not; the connected one too. -/
theorem agrees_reached_fails :
    (∃ w, (modeSystem 0).run (.start sampleService) reopening = some w ∧ w.core.fd = some 7 ∧
        .block ∉ w.core.state ∧ w.core.nonblock = false) ∧
      ∃ w, (modeSystem 0).run (.start sampleService) reconnecting = some w ∧ w.core.fd = some 7 ∧
        .block ∉ w.core.state ∧ w.core.nonblock = false := by
  refine ⟨⟨_, rfl, ?_⟩, ⟨_, rfl, ?_⟩⟩ <;> decide +kernel

end IoAccess

end Slience
