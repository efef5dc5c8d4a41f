import Slience.App.Application

/-!
# The message lists stay well formed

`Run` returns the objects of both lanes whenever it has gone through a message of either.
In a lane that had no message it then joins an empty list to the list of used objects, and
that list loses its tail.  Apart from this step, and as long as no counter and no buffer
reaches the end of its type, nothing goes wrong: the four lists of a lane are well formed,
every object is in one of them, and no list is asked for an element it does not have.  In the
build of g++ the loop also stops at the first message with data of a socket it knows.
-/

namespace Slience

/-- The bytes in the object the next callback takes. -/
def MsgLists.usedBytes (L : MsgLists) : ℕ :=
  match L.reusable with
  | none => 0
  | some m => m.buf.pos.toNat

namespace App

open MsgLists (View Owned Exact ListName)

/-- The message fits, behind the bytes that are there, into the buffer of its object. -/
def FitsBuffer (s : App) : Step → Prop
  | .io k (.callback (.onReceiveData _ buffer)) =>
      (s.lane k).lists.usedBytes + buffer.unread.length < Buffer.writeLimit
  | _ => True

variable {R : Msg → Received → Prop} {J : Kind → Conns → List Received → Prop} {s : App}
  {V : Kind → View} {pending : Kind → List Received}

theorem fill_isSome {e : Callback} {old : Msg} {k : Kind} (hpossible : Possible k e)
    (hfits : FitsBuffer s (.io k (.callback e)))
    (hold : (s.lane k).lists.reusable = some old ∨ old = Msg.new) : (e.fill old).isSome := by
  cases e with
  | onConnected clisock error => rfl
  | onDisconnected clisock => rfl
  | onReceiveData clisock buffer =>
      have hlen := buffer.toNat_length
      have hroom : old.buf.pos.toNat + buffer.length.toNat < Buffer.writeLimit := by
        rcases hold with hold | rfl
        · simp only [FitsBuffer, MsgLists.usedBytes, hold] at hfits
          omega
        · have hpack : socketPackSize.toNat < Buffer.writeLimit := by decide
          have hle : buffer.unread.length ≤ socketPackSize.toNat := hpossible
          change 0 + _ < _
          omega
      obtain ⟨buf, hwrite, -⟩ := old.buf.write_spec hlen.le hroom
      simp [Callback.fill, hwrite]

theorem callback_isSome {e : Callback} {k : Kind} (hx : ExactAt s V) (hpossible : Possible k e)
    (hroom : (s.lane k).lists.list.count < MsgLists.waitLimit)
    (hfits : FitsBuffer s (.io k (.callback e))) : ∃ L, (s.lane k).callback e = some L := by
  have hcount : (s.lane k).lists.list.count = (V k .list).length :=
    ((hx.exact k).rep .list (by simp)).count_eq
  have hlists : ∃ lists, (s.lane k).lists.callback e = some lists := by
    apply MsgLists.callback_isSome (hx.exact k) (by omega)
    intro old hold
    apply fill_isSome hpossible hfits
    refine hold.imp_left ?_
    rintro ⟨o, hfront, hread⟩
    simp [MsgLists.reusable, hfront, hread]
  obtain ⟨lists, hlists⟩ := hlists
  exact ⟨_, by rw [Lane.callback, hlists]; rfl⟩

/-- The message the lane goes through next, if it has data and its socket is in the container, is
read in the build with `#pragma pack`. -/
def ReadsNext (L : Lane) : Prop :=
  match L.lists.frontMsg with
  | none => True
  | some (_, m) => ∀ clisock ∈ m.ptr, m.type = .socketData → L.toConns.Finds clisock →
      L.packing = .pragmaPack

def ReadsLength (s : App) : Step → Prop
  | .main => ∀ k, s.phase.serves k = true → ReadsNext (s.lane k)
  | _ => True

theorem serve_isSome {c : Conns} {m : Msg} (hframed : m.Framed) (now : UInt32) {clisock : ℕ}
    (hreads : m.type = .socketData → c.Finds clisock → c.packing = .pragmaPack) :
    ∃ c', c.serve now clisock m = some c' := by
  have hdispatch : ∃ out, c.dispatch now clisock m = some out := by
    unfold Conns.dispatch
    cases htype : m.type with
    | socketIn => exact ⟨_, rfl⟩
    | socketOut => exact ⟨_, rfl⟩
    | socketData =>
        cases hfind : c.container.find (c.fds clisock) with
        | none => exact ⟨_, rfl⟩
        | some entry =>
            have hroom : m.buf.offset.toNat + AppHeadFrame.size ≤ m.buf.size.toNat := by
              rw [hframed.1]
              simpa using hframed.2
            have hpacking : c.packing = .pragmaPack :=
              hreads htype fun hnone ↦ Option.some_ne_none entry (hfind.symm.trans hnone)
            have hproc : (c.procData now (c.fds clisock) entry m.buf).isSome := by
              rw [Conns.procData, if_pos hroom, hpacking]
              rfl
            exact Option.isSome_iff_exists.mp hproc
  obtain ⟨out, hout⟩ := hdispatch
  exact ⟨_, by rw [Conns.serve, hout]; rfl⟩

theorem process_isSome {k : Kind} (hat : At R J s V pending) (hx : ExactAt s V)
    (hR : ∀ m r, R m r → m.ptr ≠ none) (hreads : ReadsNext (s.lane k))
    (hcount : (s.lane k).lists.tmp.count ≠ 0) : ∃ L, (s.lane k).process s.now = some L := by
  obtain ⟨p, m, hfront⟩ := MsgLists.frontMsg_isSome (hx.exact k).toOwned hcount
  obtain ⟨a, rest, r, later, hV, -, hm, -⟩ := (hat.lane k).front hfront
  obtain ⟨-, -, -, hread⟩ := MsgLists.frontMsg_owned (hat.lane k).owned hfront
  obtain ⟨clisock, hptr⟩ := Option.ne_none_iff_exists'.mp (hR m r hm)
  simp only [ReadsNext, hfront] at hreads
  obtain ⟨conns, hserve⟩ := serve_isSome (c := (s.lane k).toConns)
    ((hat.lane k).framed p m hread) s.now (hreads clisock hptr)
  obtain ⟨lists, hretire⟩ := MsgLists.retire_isSome (hx.exact k).toOwned hV (hx.taken_le k)
  exact ⟨⟨conns, lists⟩, by simp [Lane.process, hfront, hptr, hserve, hretire]⟩

theorem recycleMsg_isSome (hx : ExactAt s V) : ∃ s', s.recycleMsg = some s' := by
  have hroom : ∀ k, (V k .tmp2).length ≤ MsgLists.waitLimit := fun k ↦
    (Nat.le_add_left _ _).trans (hx.taken_le k)
  obtain ⟨connectors, hconnectors⟩ :=
    MsgLists.recycle_isSome (hx.exact .connector) (hroom .connector)
  obtain ⟨sockets, hsockets⟩ := MsgLists.recycle_isSome (hx.exact .socket) (hroom .socket)
  unfold recycleMsg
  split
  · exact ⟨_, by rw [hconnectors, hsockets]; rfl⟩
  · exact ⟨_, rfl⟩

theorem step_isSome {a : Step} (hat : At R J s V pending) (hx : ExactAt s V)
    (hR : ∀ m r, R m r → m.ptr ≠ none) (henabled : s.Enabled a) (hlists : KeepsLists s a)
    (hfits : FitsBuffer s a) (hreads : ReadsLength s a) : ∃ s', s.step a = some s' := by
  cases a with
  | io k a =>
      cases a with
      | callback e =>
          obtain ⟨L, hL⟩ := callback_isSome hx henabled hlists hfits
          exact ⟨s.setLane k L, by simp [step, hL]⟩
      | setFd clisock fd => exact ⟨_, rfl⟩
  | tick now => exact ⟨_, rfl⟩
  | main =>
      have hloop : ∀ k next, s.phase.serves k = true → ∃ s', s.processLoop k next = some s' := by
        intro k next hserves
        unfold processLoop
        split
        · rename_i hcount
          obtain ⟨L, hL⟩ := process_isSome hat hx hR (hreads k hserves) hcount
          exact ⟨s.setLane k L, by rw [hL]; rfl⟩
        · exact ⟨_, rfl⟩
      change ∃ s', s.runMain = some s'
      unfold runMain
      cases hphase : s.phase with
      | top => exact ⟨_, rfl⟩
      | connectors => exact hloop .connector .sockets (by rw [hphase]; rfl)
      | sockets => exact hloop .socket .recycle (by rw [hphase]; rfl)
      | recycle =>
          obtain ⟨s₁, hs₁⟩ := recycleMsg_isSome hx
          exact ⟨_, by rw [hs₁]; rfl⟩

/-! ## Whole runs -/

/-- The condition under which a step leaves the lists as they should be. -/
def ListsCond (s : App) (a : Step) : Prop := KeepsLists s a ∧ FitsBuffer s a ∧ ReadsLength s a

/-- The four lists of the lane are well formed, no object is in them twice, those that exist
are in them, and there are not too many used ones. -/
def Safe (L : MsgLists) : Prop :=
  ∃ V : View, (∀ w, Slist.Rep L.nodes (L.get w) (V w)) ∧ (MsgLists.objects V).Nodup ∧
    (∀ o, (∃ m, L.objs.read o = some m) ↔ o ∈ MsgLists.objects V) ∧
    L.list2.count ≤ MsgLists.msgCacheSize

theorem safe_of_exact {L : MsgLists} {V : View} (hx : Exact L V []) : Safe L := by
  refine ⟨V, ?_, hx.nodup, ?_, ?_⟩
  · intro w
    by_cases hw : w = .list2
    · subst hw
      exact hx.list2_rep
    · exact hx.rep w hw
  · intro o
    exact ⟨fun ⟨m, hm⟩ ↦ hx.all o m hm, hx.live o⟩
  · rw [hx.list2_rep.count_eq]
    exact_mod_cast hx.cached

theorem keeps_tellsOf (s : App) (a : Step) : Keeps Msg.TellsOf (fun _ _ _ ↦ True) s a where
  fill _ _ _ _ _ hfill _ := Callback.tellsOf_of_fill hfill
  record _ _ _ _ _ := trivial
  setFd _ _ _ _ _ _ := trivial
  serve _ _ _ _ _ _ _ _ _ _ _ _ _ _ := trivial

theorem ptr_ne_none_of_tellsOf {m : Msg} {r : Received} (h : m.TellsOf r) : m.ptr ≠ none := by
  rw [h.ptr_eq]
  exact Option.some_ne_none _

/-- Along every run whose steps meet the condition, all lists stay well formed. -/
theorem lists_safe (packing : Packing) (as : List Step)
    (h : system.Allowed ListsCond (init packing) as) :
    ∃ s, system.run (init packing) as = some s ∧ ∀ k, Safe (s.lane k).lists := by
  let I : App → Prop := fun s ↦ ∃ V pending,
    At Msg.TellsOf (fun _ _ _ ↦ True) s V pending ∧ ExactAt s V
  have hinit : I (init packing) := ⟨_, _, At.init (fun _ ↦ trivial), ExactAt.init⟩
  obtain ⟨s, hrun, V, pending, -, hx⟩ := System.run_invariant (I := I) (by
    rintro s a ⟨V, pending, hat, hx⟩ henabled ⟨hlists, hfits, hreads⟩
    obtain ⟨s', hstep⟩ :=
      step_isSome hat hx (fun _ _ ↦ ptr_ne_none_of_tellsOf) henabled hlists hfits hreads
    obtain ⟨V', pending', hat', hexact⟩ := hat.step (keeps_tellsOf s a) hstep
    exact ⟨s', hstep, V', pending', hat', hexact hlists hx⟩) hinit h
  exact ⟨s, hrun, fun k ↦ safe_of_exact (hx.exact k)⟩

instance {P : Kind → Prop} [∀ k, Decidable (P k)] : Decidable (∀ k, P k) :=
  decidable_of_iff (P .connector ∧ P .socket)
    ⟨fun h k ↦ match k with | .connector => h.1 | .socket => h.2, fun h ↦ ⟨h _, h _⟩⟩

instance (s : App) (a : Step) : Decidable (KeepsLists s a) :=
  match a with
  | .io k (.callback _) =>
      inferInstanceAs (Decidable ((s.lane k).lists.list.count < MsgLists.waitLimit))
  | .io _ (.setFd _ _) | .tick _ => inferInstanceAs (Decidable True)
  | .main => inferInstanceAs (Decidable (s.phase = .recycle → s.HasSpent → ∀ k,
      (s.lane k).lists.tmp2.count ≠ 0 ∨ (s.lane k).lists.list2.count = 0))

instance (s : App) (a : Step) : Decidable (FitsBuffer s a) :=
  match a with
  | .io k (.callback (.onReceiveData _ buffer)) => inferInstanceAs
      (Decidable ((s.lane k).lists.usedBytes + buffer.unread.length < Buffer.writeLimit))
  | .io _ (.callback (.onConnected _ _)) | .io _ (.callback (.onDisconnected _))
  | .io _ (.setFd _ _) | .tick _ | .main => inferInstanceAs (Decidable True)

instance (L : Lane) : Decidable (ReadsNext L) :=
  match h : L.lists.frontMsg with
  | none => isTrue (by simp [ReadsNext, h])
  | some (_, m) => decidable_of_iff (∀ clisock ∈ m.ptr, m.type = .socketData →
      L.toConns.Finds clisock → L.packing = .pragmaPack) (by simp [ReadsNext, h])

instance (s : App) (a : Step) : Decidable (ReadsLength s a) :=
  match a with
  | .main => inferInstanceAs (Decidable (∀ k, s.phase.serves k = true → ReadsNext (s.lane k)))
  | .io _ _ | .tick _ => inferInstanceAs (Decidable True)

instance (s : App) (a : Step) : Decidable (ListsCond s a) := inferInstanceAs (Decidable (_ ∧ _))

/-- A socket and a connector come in, in one round of `Run` and then in the other order. -/
def bothRun : List Step :=
  let socketIn := Step.io .socket (.callback (.onConnected 1 0))
  let connectorIn := Step.io .connector (.callback (.onConnected 2 0))
  [socketIn, connectorIn, .main, .main, .main, .main, .main, .main,
    connectorIn, socketIn, .main, .main, .main, .main, .main, .main]

theorem lists_safe_bothRun : system.Allowed ListsCond (init .pragmaPack) bothRun ∧
    ∃ s, system.run (init .pragmaPack) bothRun = some s ∧ ∀ k, Safe (s.lane k).lists :=
  ⟨by decide, lists_safe .pragmaPack bothRun (by decide)⟩

/-- A socket comes in and its message object is returned; then only a connector comes in. -/
def oneSidedRun : List Step :=
  [.io .socket (.callback (.onConnected 1 0)), .main, .main, .main, .main, .main,
    .io .connector (.callback (.onConnected 2 0)), .main, .main, .main, .main, .main]

theorem lists_safe_fails : ¬ ∀ as, system.Allowed System.anyStep (init .pragmaPack) as →
    ∃ s, system.run (init .pragmaPack) as = some s ∧ ∀ k, Safe (s.lane k).lists := by
  intro h
  obtain ⟨s, hrun, hsafe⟩ := h oneSidedRun (by decide)
  have hlist2 : (system.run (init .pragmaPack) oneSidedRun).map
      (fun s ↦ (s.lane .socket).lists.list2) = some ⟨1, some 1, none⟩ := by decide
  rw [hrun, Option.map_some, Option.some.injEq] at hlist2
  obtain ⟨V, hrep, -⟩ := hsafe .socket
  have hlost := hrep .list2
  rw [MsgLists.get_list2, hlist2] at hlost
  have hnil : V .list2 = [] := Slist.lastAddr_eq_none_iff.mp hlost.tail_eq.symm
  have hcount := hlost.count_eq
  rw [hnil] at hcount
  cases hcount

end App

end Slience
