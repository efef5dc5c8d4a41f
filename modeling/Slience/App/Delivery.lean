import Slience.App.ListSafety

/-!
# What `OnProc` sees of the messages

The messages of a lane are served in the order of the callbacks, and a message of a
connection in the container leads to one call of `OnProc`, where the build reads the frame
at all.  The call is about the bytes of the message when three things hold: the object
`OnReceiveData` took was not used for bytes before, for it does not clear the buffer; no
empty list was joined to the used objects; and the entry of the socket is still found under
its descriptor, which the IO layer may have changed.
-/

namespace Slience

/-- The call is about exactly these bytes: the frame begins with the first of them, and the
data are what follows the frame. -/
structure ProcCall.Carries (c : ProcCall) (bytes : List Byte) : Prop where
  frame_eq : c.frame.take bytes.length = bytes.take AppHeadFrame.size
  data_eq : c.data = bytes.drop AppHeadFrame.size

/-- The message holds the bytes of the callback. -/
structure Msg.Holds (m : Msg) (r : Received) : Prop extends Msg.TellsOf m r where
  offset_eq : r.type = .socketData → m.buf.offset = 0
  contents_eq : r.type = .socketData → m.buf.contents = r.bytes

/-- What serving a callback has to lead to. -/
structure Served.Delivers (v : Served) (r : Received) : Prop where
  ptr_eq : v.ptr = r.ptr
  type_eq : v.type = r.type
  call : r.type = .socketData → v.listed = true → ∃ c, v.calls = [c] ∧ c.Carries r.bytes

/-- The callbacks not served are the last ones, and those before them were served in their
order. -/
def Conns.Delivers (c : Conns) (pending : List Received) : Prop :=
  ∃ done, c.received = done ++ pending ∧ List.Forall₂ (fun r v ↦ v.Delivers r) done c.served

theorem Conns.Delivers.at {c : Conns} {pending : List Received} (hc : c.Delivers pending) {i : ℕ}
    {r : Received} {v : Served} (hr : c.received[i]? = some r) (hv : c.served[i]? = some v) :
    v.Delivers r := by
  obtain ⟨done, hreceived, hdone⟩ := hc
  have hi : i < done.length := by
    rw [hdone.length_eq]
    exact (List.getElem?_eq_some_iff.mp hv).1
  rw [hreceived, List.getElem?_append_left hi] at hr
  obtain ⟨hi₁, rfl⟩ := List.getElem?_eq_some_iff.mp hr
  obtain ⟨hi₂, rfl⟩ := List.getElem?_eq_some_iff.mp hv
  exact (List.forall₂_iff_get.mp hdone).2 i hi₁ hi₂

/-! ## One message -/

theorem carries_of_contents {buf : Buffer} (hoffset : buf.offset = 0) (fd : ℤ) (n : UInt32) :
    ProcCall.Carries ⟨fd, (buf.data.drop buf.offset.toNat).take AppHeadFrame.size,
      buf.unread.drop AppHeadFrame.size, n⟩ buf.contents where
  frame_eq := by
    change ((buf.data.drop buf.offset.toNat).take AppHeadFrame.size).take buf.contents.length = _
    rw [hoffset, UInt32.toNat_zero, List.drop_zero, Buffer.length_contents, Buffer.contents,
      List.take_take, List.take_take, Nat.min_comm]
  data_eq := by
    change buf.unread.drop AppHeadFrame.size = _
    rw [Buffer.unread_eq_contents hoffset]

/-- What was received stands behind what was in the buffer of the message. -/
theorem Callback.buf_of_fill {e : Callback} {old filled : Msg} (h : e.fill old = some filled)
    (hdata : e.received.type = .socketData) :
    filled.buf.offset = old.buf.offset ∧
      filled.buf.contents = old.buf.contents ++ e.received.bytes := by
  cases e with
  | onConnected clisock error => cases hdata
  | onDisconnected clisock => cases hdata
  | onReceiveData clisock buffer =>
      obtain ⟨buf, hwrite, h⟩ := Option.bind_eq_some_iff.mp h
      cases h
      obtain ⟨happ, -, -⟩ := Buffer.appended_of_write hwrite
      have hcontents := happ.contents_eq
      rw [Buffer.toNat_length, List.take_length] at hcontents
      exact ⟨happ.offset_eq, hcontents⟩

theorem Callback.holds_of_fill {e : Callback} {old filled : Msg} (hoffset : old.buf.offset = 0)
    (hempty : e.received.type = .socketData → old.buf.pos = 0) (h : e.fill old = some filled) :
    filled.Holds e.received where
  toTellsOf := Callback.tellsOf_of_fill h
  offset_eq hdata := (Callback.buf_of_fill h hdata).1.trans hoffset
  contents_eq hdata := by
    have hold : old.buf.contents = [] := by simp [Buffer.contents, hempty hdata]
    rw [(Callback.buf_of_fill h hdata).2, hold, List.nil_append]

theorem Container.find_isSome {c : Container} {x : Context} (hx : x ∈ c.entries) :
    ∃ entry, c.find x.fd = some entry := by
  have hsome : (c.find x.fd).isSome := by
    rw [Container.find, List.find?_isSome]
    exact ⟨x, hx, by simp⟩
  exact Option.isSome_iff_exists.mp hsome

theorem Conns.delivers_of_serve {c c' : Conns} {now : UInt32} {m : Msg} {r : Received}
    {clisock : ℕ} {later : List Received} (hc : c.Delivers (r :: later)) (hm : m.Holds r)
    (hptr : m.ptr = some clisock)
    (hfd : m.type = .socketData → ∀ x ∈ c.container.entries, x.ptr = clisock →
      x.fd = c.fds clisock)
    (hserve : c.serve now clisock m = some c') : c'.Delivers later := by
  obtain ⟨done, hreceived, hdone⟩ := hc
  obtain ⟨⟨container, calls⟩, hdispatch, hserve⟩ := Option.bind_eq_some_iff.mp hserve
  cases hserve
  have hsock : r.ptr = clisock := by
    rw [hm.ptr_eq] at hptr
    exact Option.some.inj hptr
  refine ⟨done ++ [r], by rw [List.append_assoc]; exact hreceived, ?_⟩
  refine List.rel_append hdone (List.Forall₂.cons ⟨hsock.symm, hm.type_eq, ?_⟩ List.Forall₂.nil)
  intro hdata hlisted
  have htype : m.type = .socketData := hm.type_eq.trans hdata
  obtain ⟨x, hx, hxptr⟩ := of_decide_eq_true hlisted
  obtain ⟨entry, hentry⟩ := Container.find_isSome hx
  rw [hfd htype x hx hxptr] at hentry
  simp only [Conns.dispatch, htype, hentry] at hdispatch
  obtain ⟨-, rfl⟩ := Conns.procData_eq_some hdispatch
  refine ⟨_, rfl, ?_⟩
  rw [← hm.contents_eq hdata]
  exact carries_of_contents (hm.offset_eq hdata) _ _

/-! ## Whole runs -/

namespace App

open MsgLists (View Owned Exact ListName)

/-- `OnReceiveData` takes an object whose buffer is empty. -/
def FreshBuffer (s : App) : Step → Prop
  | .io k (.callback (.onReceiveData _ _)) => (s.lane k).lists.usedBytes = 0
  | _ => True

/-- The message of the lane that the main thread goes through next, if it has data, is of a
socket whose entry in the container has its present descriptor. -/
def FindsEntry (L : Lane) : Prop :=
  match L.lists.frontMsg with
  | none => True
  | some (_, m) => ∀ clisock ∈ m.ptr, m.type = .socketData →
      ∀ x ∈ L.container.entries, x.ptr = clisock → x.fd = L.fds clisock

def KeepsEntry (s : App) : Step → Prop
  | .main => ∀ k, s.phase.serves k = true → FindsEntry (s.lane k)
  | _ => True

/-- The condition under which a step delivers the messages as they were received. -/
structure DeliveryCond (s : App) (a : Step) : Prop where
  lists : KeepsLists s a
  fresh : FreshBuffer s a
  entry : KeepsEntry s a
  reads : ReadsLength s a

theorem keeps_delivers {s : App} {a : Step} {V : Kind → View} {pending : Kind → List Received}
    (hat : At Msg.Holds (fun _ ↦ Conns.Delivers) s V pending) (hcond : DeliveryCond s a) :
    Keeps Msg.Holds (fun _ ↦ Conns.Delivers) s a where
  fill := by
    rintro k e rfl old filled hfill hold
    have hframed : old.Framed := by
      rcases hold with hold | rfl
      · obtain ⟨o, -, hread⟩ := Option.bind_eq_some_iff.mp hold
        exact (hat.lane k).framed o old hread
      · exact Msg.framed_new
    refine Callback.holds_of_fill hframed.1 ?_ hfill
    intro hdata
    rcases hold with hold | rfl
    · cases e with
      | onReceiveData clisock buffer =>
          have hused := hcond.fresh
          simp only [FreshBuffer, MsgLists.usedBytes, hold] at hused
          exact UInt32.toNat_inj.mp hused
      | onConnected clisock error => cases hdata
      | onDisconnected clisock => cases hdata
    · rfl
  record := by
    rintro k e - pending ⟨done, hreceived, hdone⟩
    refine ⟨done, ?_, hdone⟩
    rw [← List.append_assoc, ← hreceived]
    rfl
  setFd _ _ _ _ _ h := h
  serve := by
    rintro rfl k hserves p m clisock r later conns hfront hptr hm hc hserve
    have hentry := hcond.entry k hserves
    simp only [FindsEntry, hfront] at hentry
    exact Conns.delivers_of_serve hc hm hptr (hentry clisock hptr) hserve

theorem fitsBuffer_of_fresh {s : App} {a : Step} (henabled : s.Enabled a)
    (hfresh : FreshBuffer s a) : FitsBuffer s a := by
  unfold FitsBuffer
  split
  · rename_i k clisock buffer
    have hused : (s.lane k).lists.usedBytes = 0 := hfresh
    have hpack : socketPackSize.toNat < Buffer.writeLimit := by decide
    have hle : buffer.unread.length ≤ socketPackSize.toNat := henabled
    omega
  · trivial

/-- The callbacks not served wait in the lists, with their bytes and in their order. -/
def Waits (L : MsgLists) (pending : List Received) : Prop :=
  ∃ zs xs, Slist.Rep L.nodes L.tmp zs ∧ Slist.Rep L.nodes L.list xs ∧
    List.Forall₂ (fun x r ↦ ∃ m, L.objs.read x.2 = some m ∧ m.Holds r) (zs ++ xs) pending

/-- Along every run whose steps meet the condition, every callback is served, or waits to be
served, in its place, and the data of a connection in the container reach `OnProc` as they
were received. -/
theorem data_delivered (packing : Packing) (as : List Step)
    (h : system.Allowed DeliveryCond (init packing) as) :
    ∃ s, system.run (init packing) as = some s ∧ ∀ k, ∃ pending,
      (s.lane k).toConns.Delivers pending ∧ Waits (s.lane k).lists pending := by
  let I : App → Prop := fun s ↦ ∃ V pending,
    At Msg.Holds (fun _ ↦ Conns.Delivers) s V pending ∧ ExactAt s V
  have hinit : I (init packing) :=
    ⟨_, _, At.init (fun _ ↦ ⟨[], rfl, List.Forall₂.nil⟩), ExactAt.init⟩
  obtain ⟨s, hrun, V, pending, hat, -⟩ := System.run_invariant (I := I) (by
    rintro s a ⟨V, pending, hat, hx⟩ henabled hcond
    obtain ⟨s', hstep⟩ := step_isSome hat hx (fun m r hm ↦ ptr_ne_none_of_tellsOf hm.toTellsOf)
      henabled hcond.lists (fitsBuffer_of_fresh henabled hcond.fresh) hcond.reads
    obtain ⟨V', pending', hat', hexact⟩ := hat.step (keeps_delivers hat hcond) hstep
    exact ⟨s', hstep, V', pending', hat', hexact hcond.lists hx⟩) hinit h
  refine ⟨s, hrun, fun k ↦ ⟨pending k, (hat.lane k).conns, V k .tmp, V k .list, ?_, ?_, ?_⟩⟩
  · exact (hat.lane k).owned.rep .tmp (by simp)
  · exact (hat.lane k).owned.rep .list (by simp)
  · exact (hat.lane k).queue

instance (s : App) (a : Step) : Decidable (FreshBuffer s a) :=
  match a with
  | .io k (.callback (.onReceiveData _ _)) =>
      inferInstanceAs (Decidable ((s.lane k).lists.usedBytes = 0))
  | .io _ (.callback (.onConnected _ _)) | .io _ (.callback (.onDisconnected _))
  | .io _ (.setFd _ _) | .tick _ | .main => inferInstanceAs (Decidable True)

instance (L : Lane) : Decidable (FindsEntry L) :=
  match h : L.lists.frontMsg with
  | none => isTrue (by simp [FindsEntry, h])
  | some (_, m) => decidable_of_iff (∀ clisock ∈ m.ptr, m.type = .socketData →
      ∀ x ∈ L.container.entries, x.ptr = clisock → x.fd = L.fds clisock) (by simp [FindsEntry, h])

instance (s : App) (a : Step) : Decidable (KeepsEntry s a) :=
  match a with
  | .main => inferInstanceAs (Decidable (∀ k, s.phase.serves k = true → FindsEntry (s.lane k)))
  | .io _ _ | .tick _ => inferInstanceAs (Decidable True)

instance (s : App) (a : Step) : Decidable (DeliveryCond s a) :=
  decidable_of_iff (KeepsLists s a ∧ FreshBuffer s a ∧ KeepsEntry s a ∧ ReadsLength s a)
    ⟨fun ⟨hlists, hfresh, hentry, hreads⟩ ↦ ⟨hlists, hfresh, hentry, hreads⟩,
      fun h ↦ ⟨h.lists, h.fresh, h.entry, h.reads⟩⟩

/-- A buffer that holds one byte. -/
def byteBuffer (b : Byte) : Buffer where
  size := 1
  pos := 1
  offset := 0
  data := [b]
  data_length := rfl
  pos_le_size := le_rfl
  offset_le_pos := by decide

/-- One round of `Run` that goes through one message of a socket. -/
def socketRound : List Step := [.main, .main, .main, .main, .main]

/-- A socket connects and sends a byte. -/
def oneByteRun : List Step :=
  [.io .socket (.setFd 1 5), .io .socket (.callback (.onConnected 1 0))] ++ socketRound ++
    [.io .socket (.callback (.onReceiveData 1 (byteBuffer 7)))] ++ socketRound

theorem data_delivered_oneByteRun : system.Allowed DeliveryCond (init .pragmaPack) oneByteRun ∧
    ∃ s, system.run (init .pragmaPack) oneByteRun = some s ∧ ∀ k, ∃ pending,
      (s.lane k).toConns.Delivers pending ∧ Waits (s.lane k).lists pending :=
  ⟨by decide, data_delivered .pragmaPack oneByteRun (by decide)⟩

/-- It sends a second byte after the object of the first was returned. -/
def twoByteRun : List Step :=
  oneByteRun ++ [.io .socket (.callback (.onReceiveData 1 (byteBuffer 8)))] ++ socketRound

theorem data_delivered_fails : ¬ ∀ as, system.Allowed System.anyStep (init .pragmaPack) as →
    ∃ s, system.run (init .pragmaPack) as = some s ∧ ∀ k, ∃ pending,
      (s.lane k).toConns.Delivers pending ∧ Waits (s.lane k).lists pending := by
  intro h
  obtain ⟨s, hrun, hs⟩ := h twoByteRun (by decide)
  have hreceived : ((system.run (init .pragmaPack) twoByteRun).bind fun s ↦
      (s.lane .socket).received[2]?) = some ⟨1, .socketData, 0, [8]⟩ := by decide
  have hserved : ((system.run (init .pragmaPack) twoByteRun).bind fun s ↦
      (s.lane .socket).served[2]?).map (fun v ↦ (v.listed, v.calls.map fun c ↦ c.frame.take 1)) =
        some (true, [[7]]) := by decide
  rw [hrun, Option.bind_some] at hreceived hserved
  obtain ⟨v, hv, hcalls⟩ := Option.map_eq_some_iff.mp hserved
  obtain ⟨pending, hdelivers, -⟩ := hs .socket
  obtain ⟨c, hc, hcarries⟩ := (hdelivers.at hreceived hv).call rfl (congrArg Prod.fst hcalls)
  have hframe := congrArg Prod.snd hcalls
  rw [hc, List.map_singleton] at hframe
  have hbytes : c.frame.take 1 = [8] := hcarries.frame_eq
  rw [List.singleton_inj.mp hframe] at hbytes
  cases hbytes

end App

end Slience
