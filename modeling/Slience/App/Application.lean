import Slience.App.Lane
import Slience.Lib.Run

/-!
# The loop of `ApplicationBase::Run`

The main thread goes through its loop while the IO threads make callbacks.  One step is one
callback, or a change of a descriptor in the IO layer, or one round of one of the loops of
the main thread; the callbacks, the swap of the lists and their return happen under
`_msg_lock`.

`AppInv R J` is the form of all invariants here: the lists of both lanes are owned as
`MsgLists.Owned` says, the messages on their way agree one by one, by `R`, with the
callbacks still to be served, and `J` holds of the connections and these callbacks.
`AppInv.step` derives each such invariant from what it says about a callback, about a
descriptor and about one message.
-/

namespace Slience

inductive Kind
  | connector | socket
  deriving DecidableEq

/-- Where the main thread is in its loop. -/
inductive LoopPhase
  | top | connectors | sockets | recycle
  deriving DecidableEq

structure App where
  lane : Kind → Lane
  now : UInt32
  phase : LoopPhase

namespace App

inductive IoStep
  | callback (e : Callback)
  | setFd (clisock : ℕ) (fd : ℤ)

inductive Step
  | io (k : Kind) (a : IoStep)
  | tick (now : UInt32)
  | main

def init (packing : Packing) : App := ⟨fun _ ↦ Lane.init packing, 0, .top⟩

def setLane (s : App) (k : Kind) (L : Lane) : App := { s with lane := Function.update s.lane k L }

/-- A loop over the messages taken, and what follows it. -/
def processLoop (s : App) (k : Kind) (next : LoopPhase) : Option App :=
  if (s.lane k).lists.tmp.count ≠ 0 then do
    let L ← (s.lane k).process s.now
    some (s.setLane k L)
  else some { s with phase := next }

/-- `swap message` -/
def swapMessage (s : App) : App :=
  if (s.lane .socket).lists.list.count ≠ 0 ∨ (s.lane .connector).lists.list.count ≠ 0 then
    { s with lane := fun k ↦ { s.lane k with lists := (s.lane k).lists.swap } }
  else s

/-- One of the lists of messages gone through has a message. -/
def HasSpent (s : App) : Prop :=
  (s.lane .connector).lists.tmp2.count ≠ 0 ∨ (s.lane .socket).lists.tmp2.count ≠ 0

instance (s : App) : Decidable s.HasSpent := inferInstanceAs (Decidable (_ ∨ _))

/-- `recycle msg buffer` -/
def recycleMsg (s : App) : Option App :=
  if s.HasSpent then do
    let connectors ← (s.lane .connector).lists.recycle
    let sockets ← (s.lane .socket).lists.recycle
    some ((s.setLane .connector { s.lane .connector with lists := connectors }).setLane .socket
      { s.lane .socket with lists := sockets })
  else some s

/-- The next step of the main thread. -/
def runMain (s : App) : Option App :=
  match s.phase with
  | .top => some { s.swapMessage with phase := .connectors }
  | .connectors => s.processLoop .connector .sockets
  | .sockets => s.processLoop .socket .recycle
  | .recycle => do
      let s ← s.recycleMsg
      some { s with phase := .top }

def step (s : App) : Step → Option App
  | .io k (.callback e) => do
      let L ← (s.lane k).callback e
      some (s.setLane k L)
  | .io k (.setFd clisock fd) =>
      some (s.setLane k { s.lane k with toConns := (s.lane k).toConns.setFd clisock fd })
  | .tick now => some { s with now := now }
  | .main => s.runMain

/-- What the IO layer passes on: accepted sockets are connected without an error, and no
message is longer than the largest package. -/
def Possible (k : Kind) : Callback → Prop
  | .onConnected _ error => k = .socket → error = 0
  | .onDisconnected _ => True
  | .onReceiveData _ buffer => buffer.unread.length ≤ socketPackSize.toNat

instance (k : Kind) (e : Callback) : Decidable (Possible k e) :=
  match e with
  | .onConnected _ error => inferInstanceAs (Decidable (k = .socket → error = 0))
  | .onDisconnected _ => inferInstanceAs (Decidable True)
  | .onReceiveData _ buffer =>
      inferInstanceAs (Decidable (buffer.unread.length ≤ socketPackSize.toNat))

/-- The time is read at the top of the loop only. -/
def Enabled (s : App) : Step → Prop
  | .io k (.callback e) => Possible k e
  | .io _ (.setFd _ _) => True
  | .tick _ => s.phase = .top
  | .main => True

instance (s : App) (a : Step) : Decidable (s.Enabled a) :=
  match a with
  | .io k (.callback e) => inferInstanceAs (Decidable (Possible k e))
  | .io _ (.setFd _ _) => inferInstanceAs (Decidable True)
  | .tick _ => inferInstanceAs (Decidable (s.phase = .top))
  | .main => inferInstanceAs (Decidable True)

def system : System App Step := ⟨Enabled, step⟩

instance (s : App) (a : Step) : Decidable (system.enabled s a) :=
  inferInstanceAs (Decidable (s.Enabled a))

end App

/-! ## Invariants of a lane -/

/-- The buffer of an object starts at its block, and the block can hold a frame. -/
def Msg.Framed (m : Msg) : Prop :=
  m.buf.offset = 0 ∧ AppHeadFrame.size ≤ m.buf.size.toNat

theorem Msg.framed_new : Msg.new.Framed := ⟨rfl, by decide⟩

theorem Callback.framed_of_fill {e : Callback} {old filled : Msg} (hold : old.Framed)
    (hfill : e.fill old = some filled) : filled.Framed := by
  cases e with
  | onConnected clisock error =>
      cases hfill
      exact hold
  | onDisconnected clisock =>
      cases hfill
      exact hold
  | onReceiveData clisock buffer =>
      obtain ⟨buf, hwrite, hfill⟩ := Option.bind_eq_some_iff.mp hfill
      cases hfill
      constructor
      · exact (Buffer.appended_of_write hwrite).1.offset_eq.trans hold.1
      · exact hold.2.trans (Buffer.size_le_of_write hwrite)

/-- The used object the next callback takes. -/
def MsgLists.reusable (L : MsgLists) : Option Msg := do
  let p ← L.list2.front L.nodes
  L.objs.read p

open MsgLists (View Owned Exact)

/-- The messages on their way are the callbacks `pending`. -/
structure LaneInv (R : Msg → Received → Prop) (J : Conns → List Received → Prop) (L : Lane)
    (V : View) (pending : List Received) : Prop where
  owned : Owned L.lists V []
  framed : ∀ o m, L.lists.objs.read o = some m → m.Framed
  queue : List.Forall₂ (fun x r ↦ ∃ m, L.lists.objs.read x.2 = some m ∧ R m r)
    (V .tmp ++ V .list) pending
  conns : J L.toConns pending

namespace LaneInv

variable {R : Msg → Received → Prop} {J : Conns → List Received → Prop} {L L' : Lane} {V : View}
  {pending : List Received}

theorem init {packing : Packing} (hJ : J (Conns.init packing) []) :
    LaneInv R J (Lane.init packing) (fun _ ↦ []) [] where
  owned := MsgLists.owned_init
  framed := by simp [Lane.init, MsgLists.init]
  queue := List.Forall₂.nil
  conns := hJ

theorem queue_frame {objs objs' : Heap Msg} {xs : List (ℕ × ℕ)} {rs : List Received}
    (hqueue : List.Forall₂ (fun x r ↦ ∃ m, objs.read x.2 = some m ∧ R m r) xs rs)
    (hsame : ∀ o ∈ xs.map Prod.snd, objs'.read o = objs.read o) :
    List.Forall₂ (fun x r ↦ ∃ m, objs'.read x.2 = some m ∧ R m r) xs rs := by
  induction hqueue with
  | nil => exact List.Forall₂.nil
  | cons hx _ ih =>
      obtain ⟨m, hm, hR⟩ := hx
      refine List.Forall₂.cons ⟨m, ?_, hR⟩ (ih ?_)
      · rw [hsame _ (by simp), hm]
      · intro o ho
        exact hsame o (by simp [ho])

theorem callback {e : Callback} (hinv : LaneInv R J L V pending)
    (hcallback : L.callback e = some L')
    (hR : ∀ old filled, e.fill old = some filled →
      L.lists.reusable = some old ∨ old = Msg.new → R filled e.received)
    (hJ : J (L.toConns.record e.received) (pending ++ [e.received])) :
    ∃ V', LaneInv R J L' V' (pending ++ [e.received]) ∧ V' .tmp = V .tmp ∧ V' .tmp2 = V .tmp2 ∧
      (V' .list).length = (V .list).length + 1 ∧ (Exact L.lists V [] → Exact L'.lists V' []) := by
  obtain ⟨lists, hlists, hcallback⟩ := Option.bind_eq_some_iff.mp hcallback
  cases hcallback
  obtain ⟨V', old, filled, henq⟩ := MsgLists.callback_enqueued hinv.owned hlists
  obtain ⟨x, hx, hfilled⟩ := henq.list_eq
  have hsource : L.lists.reusable = some old ∨ old = Msg.new := by
    rcases henq.old_eq with ⟨o, hfront, hread, -⟩ | hnew
    · exact Or.inl (by simp [MsgLists.reusable, hfront, hread])
    · exact Or.inr hnew
  have hold : old.Framed := by
    rcases henq.old_eq with ⟨o, -, hread, -⟩ | rfl
    · exact hinv.framed o old hread
    · exact Msg.framed_new
  refine ⟨V', ⟨henq.owned, ?_, ?_, hJ⟩, henq.tmp_eq, henq.tmp2_eq, by simp [hx],
    henq.exact_of_exact⟩
  · intro o n ho
    rcases henq.read_of_read o n ho with rfl | rfl | hread
    · exact Callback.framed_of_fill hold henq.fill_old
    · exact Msg.framed_new
    · exact hinv.framed o n hread
  · rw [henq.tmp_eq, hx, ← List.append_assoc]
    refine List.rel_append (queue_frame hinv.queue ?_)
      (List.Forall₂.cons ⟨filled, hfilled, hR old filled henq.fill_old hsource⟩ List.Forall₂.nil)
    intro o ho
    rw [List.map_append, List.mem_append] at ho
    rcases ho with ho | ho
    · exact henq.read_eq .tmp (by simp) o ho
    · exact henq.read_eq .list (by simp) o ho

theorem swap (hinv : LaneInv R J L V pending) (htmp : V .tmp = []) :
    LaneInv R J { L with lists := L.lists.swap } (V ∘ MsgLists.swapNames) pending where
  owned := (MsgLists.swap_owned hinv.owned).1
  framed := hinv.framed
  queue := by
    have hqueue := hinv.queue
    rw [htmp, List.nil_append] at hqueue
    change List.Forall₂ _ (V .list ++ V .tmp) _
    rw [htmp, List.append_nil]
    exact hqueue
  conns := hinv.conns

theorem recycle {lists : MsgLists} (hinv : LaneInv R J L V pending)
    (hrecycle : L.lists.recycle = some lists) :
    ∃ V', LaneInv R J { L with lists } V' pending ∧ V' .tmp = V .tmp ∧ V' .list = V .list ∧
      V' .tmp2 = [] ∧
      (V .tmp2 ≠ [] ∨ V .list2 = [] → Exact L.lists V [] → Exact lists V' []) := by
  obtain ⟨V', htmp2, hret, hexact⟩ := MsgLists.recycle_returned hinv.owned hrecycle
  refine ⟨V', ⟨hret.owned, ?_, ?_, hinv.conns⟩, hret.tmp_eq, hret.list_eq, htmp2, hexact⟩
  · intro o m ho
    exact hinv.framed o m (hret.read_of_read o m ho)
  · rw [hret.tmp_eq, hret.list_eq]
    apply queue_frame hinv.queue
    intro o ho
    apply hret.read_eq
    rw [List.map_append, List.mem_append] at ho
    rcases ho with ho | ho
    · exact MsgLists.mem_objects.mpr ⟨.tmp, by rwa [hret.tmp_eq]⟩
    · exact MsgLists.mem_objects.mpr ⟨.list, by rwa [hret.list_eq]⟩

theorem front {p : ℕ} {m : Msg} (hinv : LaneInv R J L V pending)
    (hfront : L.lists.frontMsg = some (p, m)) :
    ∃ a rest r later, V .tmp = (a, p) :: rest ∧ pending = r :: later ∧ R m r ∧
      List.Forall₂ (fun x r ↦ ∃ m, L.lists.objs.read x.2 = some m ∧ R m r)
        (rest ++ V .list) later := by
  obtain ⟨a, rest, hV, hread⟩ := MsgLists.frontMsg_owned hinv.owned hfront
  have hqueue := hinv.queue
  rw [hV, List.cons_append, List.forall₂_cons_left_iff] at hqueue
  obtain ⟨r, later, ⟨m', hread', hR⟩, hrest, hpending⟩ := hqueue
  rw [hread] at hread'
  cases hread'
  exact ⟨a, rest, r, later, hV, hpending, hR, hrest⟩

theorem process {now : UInt32} (hinv : LaneInv R J L V pending)
    (hprocess : L.process now = some L')
    (hJ : ∀ p m clisock r later conns, L.lists.frontMsg = some (p, m) → m.ptr = some clisock →
      R m r → pending = r :: later → L.toConns.serve now clisock m = some conns →
      J conns later) :
    ∃ V' later, LaneInv R J L' V' later ∧ V' .list = V .list ∧
      (V' .tmp).length + (V' .tmp2).length = (V .tmp).length + (V .tmp2).length ∧
      (Exact L.lists V [] → Exact L'.lists V' []) := by
  obtain ⟨⟨p, m⟩, hfront, hprocess⟩ := Option.bind_eq_some_iff.mp hprocess
  obtain ⟨clisock, hptr, hprocess⟩ := Option.bind_eq_some_iff.mp hprocess
  obtain ⟨conns, hserve, hprocess⟩ := Option.bind_eq_some_iff.mp hprocess
  obtain ⟨lists, hretire, hprocess⟩ := Option.bind_eq_some_iff.mp hprocess
  cases hprocess
  obtain ⟨a, rest, r, later, hV, hpending, hR, hrest⟩ := hinv.front hfront
  obtain ⟨V', howned, hexact, hobjs, hlist, htmp, b, htmp2⟩ :=
    MsgLists.retire_owned hV hinv.owned hretire
  refine ⟨V', later, ⟨howned, ?_, ?_, ?_⟩, hlist, ?_, hexact⟩
  · intro o n ho
    rw [hobjs] at ho
    exact hinv.framed o n ho
  · rw [htmp, hlist, hobjs]
    exact hrest
  · exact hJ p m clisock r later conns hfront hptr hR hpending hserve
  · rw [htmp, htmp2, hV]
    simp only [List.length_append, List.length_cons, List.length_nil]
    omega

end LaneInv

/-! ## Invariants of the application -/

/-- The main thread may hold messages of the lane that it has not gone through. -/
def LoopPhase.holds : LoopPhase → Kind → Bool
  | .connectors, _ => true
  | .sockets, .socket => true
  | _, _ => false

/-- The main thread goes through the messages of the lane. -/
def LoopPhase.serves : LoopPhase → Kind → Bool
  | .connectors, .connector => true
  | .sockets, .socket => true
  | _, _ => false

namespace App

/-- The invariant of both lanes, with the nodes of their lists and the callbacks still to be
served. -/
structure At (R : Msg → Received → Prop) (J : Kind → Conns → List Received → Prop) (s : App)
    (V : Kind → View) (pending : Kind → List Received) : Prop where
  lane : ∀ k, LaneInv R (J k) (s.lane k) (V k) (pending k)
  tmp_nil : ∀ k, s.phase.holds k = false → V k .tmp = []
  tmp2_nil : ∀ k, s.phase = .top → V k .tmp2 = []

/-- What an invariant has to say about a step. -/
structure Keeps (R : Msg → Received → Prop) (J : Kind → Conns → List Received → Prop) (s : App)
    (a : Step) : Prop where
  fill : ∀ k e, a = .io k (.callback e) → ∀ old filled, e.fill old = some filled →
    (s.lane k).lists.reusable = some old ∨ old = Msg.new → R filled e.received
  record : ∀ k e, a = .io k (.callback e) → ∀ pending, J k (s.lane k).toConns pending →
    J k ((s.lane k).toConns.record e.received) (pending ++ [e.received])
  setFd : ∀ k clisock fd, a = .io k (.setFd clisock fd) → ∀ pending,
    J k (s.lane k).toConns pending → J k ((s.lane k).toConns.setFd clisock fd) pending
  serve : a = .main → ∀ k, s.phase.serves k = true → ∀ p m clisock r later conns,
    (s.lane k).lists.frontMsg = some (p, m) → m.ptr = some clisock → R m r →
    J k (s.lane k).toConns (r :: later) →
    (s.lane k).toConns.serve s.now clisock m = some conns → J k conns later

/-- The lists of both lanes are exact, and no counter is near its limit. -/
structure ExactAt (s : App) (V : Kind → View) : Prop where
  exact : ∀ k, Exact (s.lane k).lists (V k) []
  list_le : ∀ k, (V k .list).length ≤ MsgLists.waitLimit
  taken_le : ∀ k, (V k .tmp).length + (V k .tmp2).length ≤ MsgLists.waitLimit

/-- The step joins no empty list to a list of used objects that is not empty. -/
def JoinsMessages (s : App) : Prop :=
  s.phase = .recycle → s.HasSpent →
    ∀ k, (s.lane k).lists.tmp2.count ≠ 0 ∨ (s.lane k).lists.list2.count = 0

variable {R : Msg → Received → Prop} {J : Kind → Conns → List Received → Prop} {s s' : App}
  {V : Kind → View} {pending : Kind → List Received}

@[simp] theorem setLane_lane_self (s : App) (k : Kind) (L : Lane) :
    (s.setLane k L).lane k = L := by
  simp [setLane]

theorem setLane_lane_of_ne (s : App) {k j : Kind} (h : j ≠ k) (L : Lane) :
    (s.setLane k L).lane j = s.lane j := by
  simp [setLane, h]

theorem At.setLane {k : Kind} {L : Lane} {W : View} {later : List Received}
    (hat : At R J s V pending) (hL : LaneInv R (J k) L W later)
    (htmp : s.phase.holds k = false → W .tmp = []) (htmp2 : s.phase = .top → W .tmp2 = []) :
    At R J (s.setLane k L) (Function.update V k W) (Function.update pending k later) where
  lane := by
    intro j
    by_cases hjk : j = k
    · subst hjk
      simpa using hL
    · rw [setLane_lane_of_ne s hjk, Function.update_of_ne hjk, Function.update_of_ne hjk]
      exact hat.lane j
  tmp_nil := by
    intro j hj
    by_cases hjk : j = k
    · subst hjk
      simpa using htmp hj
    · rw [Function.update_of_ne hjk]
      exact hat.tmp_nil j hj
  tmp2_nil := by
    intro j hj
    by_cases hjk : j = k
    · subst hjk
      simpa using htmp2 hj
    · rw [Function.update_of_ne hjk]
      exact hat.tmp2_nil j hj

theorem ExactAt.setLane {k : Kind} {L : Lane} {W : View} (hx : ExactAt s V)
    (hL : Exact L.lists W []) (hlist : (W .list).length ≤ MsgLists.waitLimit)
    (htaken : (W .tmp).length + (W .tmp2).length ≤ MsgLists.waitLimit) :
    ExactAt (s.setLane k L) (Function.update V k W) := by
  constructor <;> intro j <;> by_cases hjk : j = k
  · subst hjk
    simpa using hL
  · rw [setLane_lane_of_ne s hjk, Function.update_of_ne hjk]
    exact hx.exact j
  · subst hjk
    simpa using hlist
  · rw [Function.update_of_ne hjk]
    exact hx.list_le j
  · subst hjk
    simpa using htaken
  · rw [Function.update_of_ne hjk]
    exact hx.taken_le j

theorem At.setPhase (hat : At R J s V pending) {phase : LoopPhase}
    (htmp : ∀ k, phase.holds k = false → V k .tmp = [])
    (htmp2 : ∀ k, phase = .top → V k .tmp2 = []) :
    At R J { s with phase } V pending :=
  ⟨hat.lane, htmp, htmp2⟩

theorem At.callback {k : Kind} {e : Callback} {L : Lane} (hat : At R J s V pending)
    (hkeeps : Keeps R J s (.io k (.callback e))) (hcallback : (s.lane k).callback e = some L) :
    ∃ V' pending', At R J (s.setLane k L) V' pending' ∧
      ((s.lane k).lists.list.count < MsgLists.waitLimit → ExactAt s V →
        ExactAt (s.setLane k L) V') := by
  obtain ⟨W, hinv, htmp, htmp2, hlen, hexact⟩ := (hat.lane k).callback hcallback
    (hkeeps.fill k e rfl) (hkeeps.record k e rfl _ (hat.lane k).conns)
  refine ⟨_, _, hat.setLane hinv ?_ ?_, ?_⟩
  · intro hphase
    rw [htmp]
    exact hat.tmp_nil k hphase
  · intro hphase
    rw [htmp2]
    exact hat.tmp2_nil k hphase
  · intro hroom hx
    have hcount : (s.lane k).lists.list.count = (V k .list).length :=
      ((hat.lane k).owned.rep .list (by simp)).count_eq
    apply hx.setLane (hexact (hx.exact k))
    · omega
    · rw [htmp, htmp2]
      exact hx.taken_le k

theorem At.swapMessage (hat : At R J s V pending) (htop : s.phase = .top) :
    ∃ V', At R J { s.swapMessage with phase := .connectors } V' pending ∧
      (ExactAt s V → ExactAt { s.swapMessage with phase := .connectors } V') := by
  have hfree : ∀ k, V k .tmp = [] := by
    intro k
    apply hat.tmp_nil k
    rw [htop]
    cases k <;> rfl
  unfold App.swapMessage
  split
  · refine ⟨fun k ↦ V k ∘ MsgLists.swapNames, ⟨fun k ↦ (hat.lane k).swap (hfree k), ?_, ?_⟩, ?_⟩
    · intro k hk
      cases k <;> cases hk
    · intro k hk
      cases hk
    · intro hx
      refine ⟨fun k ↦ (MsgLists.swap_owned (hat.lane k).owned).2 (hx.exact k), ?_, ?_⟩
      · intro k
        change (V k .tmp).length ≤ _
        rw [hfree k]
        exact Nat.zero_le _
      · intro k
        change (V k .list).length + (V k .tmp2).length ≤ _
        rw [hat.tmp2_nil k htop]
        exact hx.list_le k
  · refine ⟨V, hat.setPhase ?_ ?_, fun hx ↦ ⟨hx.exact, hx.list_le, hx.taken_le⟩⟩
    · intro k _
      exact hfree k
    · intro k hk
      cases hk

theorem At.processLoop {k : Kind} {next : LoopPhase} (hat : At R J s V pending)
    (hkeeps : Keeps R J s .main) (hserves : s.phase.serves k = true)
    (hnext : ∀ j, next.holds j = false → j = k ∨ s.phase.holds j = false) (hne : next ≠ .top)
    (hloop : s.processLoop k next = some s') :
    ∃ V' pending', At R J s' V' pending' ∧ (ExactAt s V → ExactAt s' V') := by
  unfold App.processLoop at hloop
  split at hloop
  · obtain ⟨L, hprocess, hloop⟩ := Option.bind_eq_some_iff.mp hloop
    cases hloop
    obtain ⟨W, later, hinv, hlist, hlen, hexact⟩ := (hat.lane k).process hprocess (by
      intro p m clisock r later conns hfront hptr hR hpending hserve
      apply hkeeps.serve rfl k hserves p m clisock r later conns hfront hptr hR _ hserve
      rw [← hpending]
      exact (hat.lane k).conns)
    refine ⟨_, _, hat.setLane hinv ?_ ?_, ?_⟩
    · intro hphase
      revert hserves hphase
      cases s.phase <;> cases k <;> simp [LoopPhase.serves, LoopPhase.holds]
    · intro hphase
      rw [hphase] at hserves
      cases k <;> cases hserves
    · intro hx
      apply hx.setLane (hexact (hx.exact k))
      · rw [hlist]
        exact hx.list_le k
      · rw [hlen]
        exact hx.taken_le k
  · rename_i hcount
    cases hloop
    have hnil : V k .tmp = [] :=
      ((hat.lane k).owned.rep .tmp (by simp)).eq_nil_of_count (not_not.mp hcount)
    refine ⟨V, pending, hat.setPhase ?_ ?_, fun hx ↦ ⟨hx.exact, hx.list_le, hx.taken_le⟩⟩
    · intro j hj
      rcases hnext j hj with rfl | hold
      · exact hnil
      · exact hat.tmp_nil j hold
    · intro j hj
      exact absurd hj hne

theorem At.recycleMsg (hat : At R J s V pending) (hphase : s.phase = .recycle)
    (hrecycle : s.recycleMsg = some s') :
    ∃ V', At R J { s' with phase := .top } V' pending ∧
      (JoinsMessages s → ExactAt s V → ExactAt { s' with phase := .top } V') := by
  have hfree : ∀ k, V k .tmp = [] := by
    intro k
    apply hat.tmp_nil k
    rw [hphase]
    cases k <;> rfl
  have hcount : ∀ k, (s.lane k).lists.tmp2.count = (V k .tmp2).length := fun k ↦
    ((hat.lane k).owned.rep .tmp2 (by simp)).count_eq
  unfold App.recycleMsg at hrecycle
  split at hrecycle
  · rename_i hspent
    obtain ⟨connectors, hconnectors, hrecycle⟩ := Option.bind_eq_some_iff.mp hrecycle
    obtain ⟨sockets, hsockets, hrecycle⟩ := Option.bind_eq_some_iff.mp hrecycle
    cases hrecycle
    obtain ⟨W₁, hinv₁, htmp₁, hlist₁, htmp2₁, hexact₁⟩ := (hat.lane .connector).recycle hconnectors
    obtain ⟨W₂, hinv₂, htmp₂, hlist₂, htmp2₂, hexact₂⟩ := (hat.lane .socket).recycle hsockets
    refine ⟨fun | .connector => W₁ | .socket => W₂, ⟨?_, ?_, ?_⟩, ?_⟩
    · rintro (_ | _)
      · exact hinv₁
      · exact hinv₂
    · rintro (_ | _) -
      · exact htmp₁.trans (hfree .connector)
      · exact htmp₂.trans (hfree .socket)
    · rintro (_ | _) -
      · exact htmp2₁
      · exact htmp2₂
    · intro hjoins hx
      have hne : ∀ k, V k .tmp2 ≠ [] ∨ V k .list2 = [] := by
        intro k
        refine (hjoins hphase hspent k).imp ?_ ?_
        · intro hc hnil
          rw [hcount k, hnil] at hc
          exact hc rfl
        · exact (hx.exact k).list2_rep.eq_nil_of_count
      refine ⟨?_, ?_, ?_⟩
      · rintro (_ | _)
        · exact hexact₁ (hne .connector) (hx.exact .connector)
        · exact hexact₂ (hne .socket) (hx.exact .socket)
      · rintro (_ | _)
        · exact (congrArg List.length hlist₁).trans_le (hx.list_le .connector)
        · exact (congrArg List.length hlist₂).trans_le (hx.list_le .socket)
      · rintro (_ | _)
        · simp [htmp₁, hfree .connector, htmp2₁]
        · simp [htmp₂, hfree .socket, htmp2₂]
  · rename_i hspent
    cases hrecycle
    have hnil : ∀ k, V k .tmp2 = [] := by
      intro k
      apply ((hat.lane k).owned.rep .tmp2 (by simp)).eq_nil_of_count
      simp only [HasSpent, not_or, not_not] at hspent
      cases k
      · exact hspent.1
      · exact hspent.2
    exact ⟨V, hat.setPhase (fun k _ ↦ hfree k) (fun k _ ↦ hnil k),
      fun _ hx ↦ ⟨hx.exact, hx.list_le, hx.taken_le⟩⟩

/-- The step keeps the counters of the lists from overflowing and the list of used objects
well formed. -/
def KeepsLists (s : App) : Step → Prop
  | .io k (.callback _) => (s.lane k).lists.list.count < MsgLists.waitLimit
  | .main => JoinsMessages s
  | _ => True

/-- What an invariant says about a callback, a descriptor and a message, it says about every
step. -/
theorem At.step {a : Step} (hat : At R J s V pending) (hkeeps : Keeps R J s a)
    (hstep : s.step a = some s') :
    ∃ V' pending', At R J s' V' pending' ∧ (KeepsLists s a → ExactAt s V → ExactAt s' V') := by
  cases a with
  | io k a =>
      cases a with
      | callback e =>
          obtain ⟨L, hcallback, hstep⟩ := Option.bind_eq_some_iff.mp hstep
          cases hstep
          exact hat.callback hkeeps hcallback
      | setFd clisock fd =>
          cases hstep
          have hinv := hat.lane k
          refine ⟨_, _, hat.setLane ⟨hinv.owned, hinv.framed, hinv.queue,
            hkeeps.setFd k clisock fd rfl _ hinv.conns⟩ (hat.tmp_nil k) (hat.tmp2_nil k), ?_⟩
          intro _ hx
          exact hx.setLane (hx.exact k) (hx.list_le k) (hx.taken_le k)
  | tick now =>
      cases hstep
      exact ⟨V, pending, ⟨hat.lane, hat.tmp_nil, hat.tmp2_nil⟩,
        fun _ hx ↦ ⟨hx.exact, hx.list_le, hx.taken_le⟩⟩
  | main =>
      unfold App.step runMain at hstep
      cases hphase : s.phase with
      | top =>
          simp only [hphase] at hstep
          cases hstep
          obtain ⟨V', hat', hexact⟩ := hat.swapMessage hphase
          exact ⟨V', pending, hat', fun _ ↦ hexact⟩
      | connectors =>
          simp only [hphase] at hstep
          obtain ⟨V', pending', hat', hexact⟩ := hat.processLoop hkeeps (by rw [hphase]; rfl)
            (by rintro (_ | _) hj; exacts [Or.inl rfl, by cases hj]) (by simp) hstep
          exact ⟨V', pending', hat', fun _ ↦ hexact⟩
      | sockets =>
          simp only [hphase] at hstep
          obtain ⟨V', pending', hat', hexact⟩ := hat.processLoop hkeeps (by rw [hphase]; rfl)
            (by rintro (_ | _) _; exacts [Or.inr (by rw [hphase]; rfl), Or.inl rfl]) (by simp) hstep
          exact ⟨V', pending', hat', fun _ ↦ hexact⟩
      | recycle =>
          simp only [hphase] at hstep
          obtain ⟨s₁, hrecycle, hstep⟩ := Option.bind_eq_some_iff.mp hstep
          cases hstep
          obtain ⟨V', hat', hexact⟩ := hat.recycleMsg hphase hrecycle
          exact ⟨V', pending, hat', hexact⟩

theorem At.init {packing : Packing} (hJ : ∀ k, J k (Conns.init packing) []) :
    At R J (App.init packing) (fun _ _ ↦ []) (fun _ ↦ []) where
  lane k := LaneInv.init (hJ k)
  tmp_nil _ _ := rfl
  tmp2_nil _ _ := rfl

theorem ExactAt.init {packing : Packing} : ExactAt (App.init packing) (fun _ _ ↦ []) where
  exact _ := MsgLists.exact_init
  list_le _ := Nat.zero_le _
  taken_le _ := Nat.zero_le _

end App

end Slience
