import Slience.Base.Buffer
import Slience.Base.SlistFamily

/-!
# The message lists of the application

The IO threads hand their events to the main thread in message objects.  An object is
taken from the list of used objects (`list2`, for `_tcp_socket_msg_list2` or
`_tcp_connector_msg_list2`) or is new, is filled and goes to the end of the list of
waiting messages (`list`).  The main thread swaps that list with an empty one of its own
(`tmp`), goes through it, collects the objects in a second list of its own (`tmp2`) and
returns them to `list2` in the end.

There is one such set of lists for the accepted sockets and one for the connectors, with
the same code; a `TcpSocketMsg` is a `TcpConnectorMsg` without the error.
-/

namespace Slience

/-- `M_SOCKET_IN`, `M_SOCKET_OUT` and `M_SOCKET_DATA` -/
inductive MsgType
  | socketIn | socketOut | socketData
  deriving DecidableEq

/-- `TcpConnectorMsg`; of a `TcpSocketMsg` the field `error` stays 0. -/
structure Msg where
  ptr : Option ℕ
  error : ℤ
  buf : Buffer
  type : MsgType

/-- `new TcpSocketMsg`.  The type of a new object is indeterminate in C++; it is
written before the object is passed on. -/
def Msg.new : Msg := ⟨none, 0, Buffer.empty, .socketIn⟩

/-- The callbacks of the IO layer. -/
inductive Callback
  | onConnected (clisock : ℕ) (error : ℤ)
  | onDisconnected (clisock : ℕ)
  | onReceiveData (clisock : ℕ) (buffer : Buffer)

/-- The fields a callback sets in its message object. -/
def Callback.fill : Callback → Msg → Option Msg
  | .onConnected clisock error, m =>
      some { m with error := error, ptr := some clisock, type := .socketIn }
  | .onDisconnected clisock, m => some { m with ptr := some clisock, type := .socketOut }
  | .onReceiveData clisock buffer, m => do
      let buf ← m.buf.write buffer.unread buffer.length
      some { m with ptr := some clisock, type := .socketData, buf }

structure MsgLists where
  nodes : Heap (Node ℕ)
  objs : Heap Msg
  list : Slist
  list2 : Slist
  tmp : Slist
  tmp2 : Slist

namespace MsgLists

def init : MsgLists := ⟨Heap.empty, Heap.empty, Slist.empty, Slist.empty, Slist.empty, Slist.empty⟩

/-- `_msg_cache_size` -/
def msgCacheSize : ℕ := 5000

/-- The object a callback fills: the first used one, or a new one. -/
def takeMsg (L : MsgLists) : Option (ℕ × MsgLists) :=
  if L.list2.count > 0 then do
    let p ← L.list2.front L.nodes
    let (list2, nodes) ← L.list2.popFront L.nodes
    some (p, { L with list2, nodes })
  else some (L.objs.fresh, { L with objs := L.objs.alloc Msg.new })

/-- `push_back` of an object that was filled. -/
def putMsg (L : MsgLists) (p : ℕ) (m : Msg) : Option MsgLists := do
  let objs ← L.objs.write p m
  let (list, nodes) ← L.list.pushBack L.nodes p
  some { L with objs, list, nodes }

/-- `OnConnected`, `OnDisconnected` and `OnReceiveData`: take an object, fill it, pass it
on. -/
def callback (L : MsgLists) (e : Callback) : Option MsgLists := do
  let (p, L) ← L.takeMsg
  let m ← L.objs.read p
  let m ← e.fill m
  L.putMsg p m

/-- The main thread takes the waiting messages. -/
def swap (L : MsgLists) : MsgLists := { L with tmp := L.list, list := L.tmp }

/-- The object the main thread works on. -/
def frontMsg (L : MsgLists) : Option (ℕ × Msg) := do
  let p ← L.tmp.front L.nodes
  let m ← L.objs.read p
  some (p, m)

/-- `tmp.pop_front(); tmp2.push_back(pmsg)` -/
def retire (L : MsgLists) (p : ℕ) : Option MsgLists := do
  let (tmp, nodes) ← L.tmp.popFront L.nodes
  let (tmp2, nodes) ← L.tmp2.pushBack nodes p
  some { L with tmp, tmp2, nodes }

/-- An object goes back to the used ones, or is deleted when there are enough of them. -/
def returnMsg (L : MsgLists) (p : ℕ) : Option MsgLists :=
  if L.list2.count < msgCacheSize then do
    let (list2, nodes) ← L.list2.pushBack L.nodes p
    some { L with list2, nodes }
  else do
    let objs ← L.objs.free p
    some { L with objs }

/-- The body of the loop that returns the objects one by one. -/
def recycleOne (L : MsgLists) : Option MsgLists := do
  let p ← L.tmp2.front L.nodes
  let L ← L.returnMsg p
  let (tmp2, nodes) ← L.tmp2.popFront L.nodes
  some { L with tmp2, nodes }

/-- `while (tmp2.size())`; every round takes one from the size or has no result. -/
def recycleLoop : ℕ → MsgLists → Option MsgLists
  | 0, L => if L.tmp2.count = 0 then some L else none
  | n + 1, L => L.recycleOne.bind fun L ↦ recycleLoop n L

/-- The main thread returns the objects it has gone through. -/
def recycle (L : MsgLists) : Option MsgLists := do
  let size ← addInt L.tmp2.count L.list2.count
  if size ≤ msgCacheSize then
    let (list2, nodes) ← L.list2.join L.tmp2 L.nodes
    some { L with list2, nodes, tmp2 := Slist.empty }
  else L.recycleLoop L.tmp2.count.toNat

/-! ## Who has an object -/

inductive ListName
  | list | list2 | tmp | tmp2
  deriving DecidableEq

/-- The nodes of the four lists, each with the object it holds. -/
abbrev View := ListName → List (ℕ × ℕ)

def get (L : MsgLists) : ListName → Slist
  | .list => L.list
  | .list2 => L.list2
  | .tmp => L.tmp
  | .tmp2 => L.tmp2

@[simp] theorem get_list (L : MsgLists) : L.get .list = L.list := rfl

@[simp] theorem get_list2 (L : MsgLists) : L.get .list2 = L.list2 := rfl

@[simp] theorem get_tmp (L : MsgLists) : L.get .tmp = L.tmp := rfl

@[simp] theorem get_tmp2 (L : MsgLists) : L.get .tmp2 = L.tmp2 := rfl

def objects (V : View) : List ℕ := (V .list ++ V .tmp ++ V .tmp2 ++ V .list2).map Prod.snd

/-- The lists are separate and all but the list of used objects are well formed; each object
of a list or in `held`, which is none of the lists', is there once and is alive. -/
structure Owned (L : MsgLists) (V : View) (held : List ℕ) : Prop where
  separate : Slist.Separate L.nodes L.get V
  rep : ∀ w, w ≠ .list2 → Slist.Rep L.nodes (L.get w) (V w)
  nodup : (held ++ objects V).Nodup
  live : ∀ o ∈ held ++ objects V, ∃ m, L.objs.read o = some m

/-- In addition the list of used objects is well formed and not too long, and no object is
lost. -/
structure Exact (L : MsgLists) (V : View) (held : List ℕ) : Prop extends Owned L V held where
  list2_rep : Slist.Rep L.nodes L.list2 (V .list2)
  all : ∀ o m, L.objs.read o = some m → o ∈ held ++ objects V
  cached : (V .list2).length ≤ msgCacheSize

variable {L L' : MsgLists} {V : View} {held : List ℕ} {p : ℕ}

theorem mem_objects {o : ℕ} : o ∈ objects V ↔ ∃ w, o ∈ (V w).map Prod.snd := by
  simp only [objects, List.map_append, List.mem_append]
  constructor
  · rintro (((h | h) | h) | h)
    exacts [⟨_, h⟩, ⟨_, h⟩, ⟨_, h⟩, ⟨_, h⟩]
  · rintro ⟨w, h⟩
    cases w <;> simp [h]

theorem mem_iff_of_count {xs ys : List ℕ} (h : ∀ o, xs.count o = ys.count o) (o : ℕ) :
    o ∈ xs ↔ o ∈ ys := by
  rw [← List.count_pos_iff, ← List.count_pos_iff, h]

theorem nodup_of_count_le {xs ys : List ℕ} (hys : ys.Nodup)
    (h : ∀ o, xs.count o ≤ ys.count o) : xs.Nodup := by
  rw [List.nodup_iff_count_le_one] at hys ⊢
  intro o
  exact (h o).trans (hys o)

theorem Owned.transfer {V' : View} {held' : List ℕ} (hL : Owned L V held)
    (hsep : Slist.Separate L'.nodes L'.get V')
    (hrep : ∀ w, w ≠ .list2 → Slist.Rep L'.nodes (L'.get w) (V' w))
    (hcount : ∀ o, (held' ++ objects V').count o ≤ (held ++ objects V).count o)
    (hread : ∀ o ∈ held' ++ objects V', ∀ m, L.objs.read o = some m →
      ∃ m', L'.objs.read o = some m') : Owned L' V' held' where
  separate := hsep
  rep := hrep
  nodup := nodup_of_count_le hL.nodup hcount
  live := by
    intro o ho
    have hmem : o ∈ held ++ objects V := by
      rw [← List.count_pos_iff] at ho ⊢
      exact ho.trans_le (hcount o)
    obtain ⟨m, hm⟩ := hL.live o hmem
    exact hread o ho m hm

theorem owned_init : Owned init (fun _ ↦ []) [] where
  separate := by
    constructor
    · intro w
      cases w <;> exact (Slist.rep_empty _).loose
    · intro w w' _ a ha
      cases w <;> simp [init, get, Slist.empty] at ha
  rep := by
    intro w _
    cases w <;> exact Slist.rep_empty _
  nodup := List.nodup_nil
  live := by simp [objects]

theorem exact_init : Exact init (fun _ ↦ []) [] where
  toOwned := owned_init
  list2_rep := Slist.rep_empty _
  all := by simp [init]
  cached := Nat.zero_le _

/-! ## The operations of the IO threads -/

theorem takeMsg_cases (htake : L.takeMsg = some (p, L')) :
    (0 < L.list2.count ∧ L.list2.front L.nodes = some p ∧ ∃ list2 nodes,
        L.list2.popFront L.nodes = some (list2, nodes) ∧ L' = { L with list2, nodes }) ∨
      (L.list2.count ≤ 0 ∧ p = L.objs.fresh ∧ L' = { L with objs := L.objs.alloc Msg.new }) := by
  unfold takeMsg at htake
  split at htake
  · rename_i hcount
    obtain ⟨q, hfront, htake⟩ := Option.bind_eq_some_iff.mp htake
    obtain ⟨⟨list2, nodes⟩, hpop, htake⟩ := Option.bind_eq_some_iff.mp htake
    cases htake
    exact Or.inl ⟨hcount, hfront, list2, nodes, hpop, rfl⟩
  · rename_i hcount
    cases htake
    exact Or.inr ⟨not_lt.mp hcount, rfl, rfl⟩

/-- The thread holds the object it took, which came from the list of used objects or is
new. -/
theorem takeMsg_owned (hL : Owned L V []) (htake : L.takeMsg = some (p, L')) :
    ∃ V', Owned L' V' [p] ∧ (Exact L V [] → Exact L' V' [p]) ∧
      (∀ w, w ≠ .list2 → V' w = V w) ∧ (∀ o ∈ objects V, L'.objs.read o = L.objs.read o) ∧
      (p ∈ (V .list2).map Prod.snd ∧ L.list2.front L.nodes = some p ∨
        L'.objs.read p = some Msg.new) := by
  rcases takeMsg_cases htake with ⟨-, hfront, list2, nodes, hpop, rfl⟩ | ⟨hcount, rfl, rfl⟩
  · obtain ⟨a, rest, hV⟩ := Slist.chain_of_front (hL.separate.loose .list2).chain hfront
    obtain ⟨hsep, hrep⟩ := Slist.Separate.popFront hV hL.separate hpop
    have honly := Slist.Separate.onlyAt_of_popFront hV hL.separate hpop
    have hget : MsgLists.get { L with list2, nodes } = Function.update L.get .list2 list2 := by
      funext w
      cases w <;> rfl
    have hperm : ∀ o, ([p] ++ objects (Function.update V .list2 rest)).count o =
        ([] ++ objects V).count o := by
      intro o
      simp only [objects, hV, Function.update_self, Function.update_of_ne, ne_eq, reduceCtorEq,
        not_false_eq_true, List.map_append, List.map_cons, List.count_append, List.count_cons,
        List.count_nil]
      omega
    have howned : Owned { L with list2, nodes } (Function.update V .list2 rest) [p] := by
      refine hL.transfer (by rw [hget]; exact hsep) ?_ (fun o ↦ (hperm o).le)
        (fun o _ m hm ↦ ⟨m, hm⟩)
      intro w hw
      rw [hget, Function.update_of_ne hw, Function.update_of_ne hw]
      exact hL.separate.rep_of_onlyAt honly hw (hL.rep w hw)
    refine ⟨_, howned, ?_, ?_, fun _ _ ↦ rfl, Or.inl ⟨by simp [hV], hfront⟩⟩
    · intro hx
      refine ⟨howned, ?_, fun o m ho ↦ (mem_iff_of_count hperm o).mpr (hx.all o m ho), ?_⟩
      · rw [Function.update_self]
        exact hrep hx.list2_rep
      · have hlen := hx.cached
        rw [hV, List.length_cons] at hlen
        rw [Function.update_self]
        omega
    · intro w hw
      rw [Function.update_of_ne hw]
  · have hfresh : L.objs.fresh ∉ objects V := by
      intro hmem
      obtain ⟨m, hm⟩ := hL.live _ (by simpa using hmem)
      simp at hm
    have hread : ∀ o ∈ objects V, (L.objs.alloc Msg.new).read o = L.objs.read o := by
      intro o ho
      apply Heap.read_alloc_of_ne
      rintro rfl
      exact hfresh ho
    have howned : Owned { L with objs := L.objs.alloc Msg.new } V [L.objs.fresh] := by
      refine ⟨hL.separate, hL.rep, ?_, ?_⟩
      · exact List.nodup_cons.mpr ⟨hfresh, hL.nodup⟩
      · intro o ho
        rcases List.mem_cons.mp ho with rfl | ho
        · exact ⟨_, Heap.read_alloc_fresh _ _⟩
        · obtain ⟨m, hm⟩ := hL.live o ho
          exact ⟨m, by rw [hread o ho, hm]⟩
    refine ⟨V, howned, ?_, fun _ _ ↦ rfl, hread, Or.inr (Heap.read_alloc_fresh _ _)⟩
    intro hx
    refine ⟨howned, hx.list2_rep, ?_, hx.cached⟩
    intro o m ho
    by_cases heq : o = L.objs.fresh
    · simp [heq]
    · rw [Heap.read_alloc_of_ne _ heq] at ho
      exact List.mem_cons_of_mem _ (hx.all o m ho)

theorem putMsg_cases {m : Msg} (hput : L.putMsg p m = some L') :
    ∃ objs list nodes, L.objs.write p m = some objs ∧
      L.list.pushBack L.nodes p = some (list, nodes) ∧ L' = { L with objs, list, nodes } := by
  obtain ⟨objs, hwrite, hput⟩ := Option.bind_eq_some_iff.mp hput
  obtain ⟨⟨list, nodes⟩, hpush, hput⟩ := Option.bind_eq_some_iff.mp hput
  cases hput
  exact ⟨objs, list, nodes, hwrite, hpush, rfl⟩

theorem putMsg_owned {m : Msg} (hL : Owned L V [p]) (hput : L.putMsg p m = some L') :
    let V' := Function.update V .list (V .list ++ [(L.nodes.fresh, p)])
    Owned L' V' [] ∧ (Exact L V [p] → Exact L' V' []) ∧ L'.objs.read p = some m ∧
      ∀ o, o ≠ p → L'.objs.read o = L.objs.read o := by
  intro V'
  obtain ⟨objs, list, nodes, hwrite, hpush, rfl⟩ := putMsg_cases hput
  obtain ⟨u, hu⟩ := hL.live p (by simp)
  obtain ⟨objs', hwrite', hself, hother⟩ := Heap.write_spec m hu
  rw [hwrite] at hwrite'
  cases hwrite'
  obtain ⟨xs, hsep, -, hrep⟩ := hL.separate.pushBack (i := ListName.list) hpush
  obtain ⟨rfl, hlist⟩ := hrep (hL.rep .list (by simp))
  have honly : Slist.Separate.OnlyAt L.get V .list L.nodes nodes :=
    Slist.Separate.onlyAt_of_pushBack hpush
  have hget : MsgLists.get { L with objs, list, nodes } = Function.update L.get .list list := by
    funext w
    cases w <;> rfl
  have hperm : ∀ o, ([] ++ objects V').count o = ([p] ++ objects V).count o := by
    intro o
    simp only [V', objects, Function.update_self, Function.update_of_ne, ne_eq, reduceCtorEq,
      not_false_eq_true, List.map_append, List.map_cons, List.map_nil, List.count_append,
      List.count_cons, List.count_nil]
    omega
  have howned : Owned { L with objs, list, nodes } V' [] := by
    refine hL.transfer (by rw [hget]; exact hsep) ?_ (fun o ↦ (hperm o).le) ?_
    · intro w hw
      rw [hget]
      by_cases hwl : w = .list
      · subst hwl
        simpa [V'] using hlist
      · rw [Function.update_of_ne hwl]
        simp only [V', Function.update_of_ne hwl]
        exact hL.separate.rep_of_onlyAt honly hwl (hL.rep w hw)
    · intro o _ n hn
      by_cases heq : o = p
      · exact ⟨m, heq ▸ hself⟩
      · exact ⟨n, by rw [hother o heq, hn]⟩
  refine ⟨howned, ?_, hself, hother⟩
  intro hx
  refine ⟨howned, ?_, ?_, ?_⟩
  · simp only [V', Function.update_of_ne, ne_eq, reduceCtorEq, not_false_eq_true]
    exact hL.separate.rep_of_onlyAt honly (j := ListName.list2) (by simp) hx.list2_rep
  · intro o n ho
    rw [mem_iff_of_count hperm]
    by_cases heq : o = p
    · simp [heq]
    · exact hx.all o n (by rw [← hother o heq]; exact ho)
  · simpa [V'] using hx.cached

/-- What a callback does: an object that held `old`, a used one or a new one, now holds
`filled` and is the last of the waiting messages; the messages waiting before it are
unchanged. -/
structure Enqueued (L L' : MsgLists) (V V' : View) (e : Callback) (old filled : Msg) :
    Prop where
  owned : Owned L' V' []
  exact_of_exact : Exact L V [] → Exact L' V' []
  fill_old : e.fill old = some filled
  old_eq : (∃ o, L.list2.front L.nodes = some o ∧ L.objs.read o = some old ∧
    o ∈ (V .list2).map Prod.snd) ∨ old = Msg.new
  tmp_eq : V' .tmp = V .tmp
  tmp2_eq : V' .tmp2 = V .tmp2
  list_eq : ∃ x, V' .list = V .list ++ [x] ∧ L'.objs.read x.2 = some filled
  read_eq : ∀ w, w ≠ .list2 → ∀ o ∈ (V w).map Prod.snd, L'.objs.read o = L.objs.read o
  read_of_read : ∀ o n, L'.objs.read o = some n → n = filled ∨ n = Msg.new ∨ L.objs.read o = some n

theorem notMem_of_held (hL : Owned L V (p :: held)) {w : ListName} {o : ℕ}
    (ho : o ∈ (V w).map Prod.snd) : o ≠ p := by
  rintro rfl
  have hnodup := hL.nodup
  rw [List.cons_append, List.nodup_cons] at hnodup
  exact hnodup.1 (List.mem_append_right _ (mem_objects.mpr ⟨w, ho⟩))

theorem callback_enqueued {e : Callback} (hL : Owned L V []) (henq : L.callback e = some L') :
    ∃ V' old filled, Enqueued L L' V V' e old filled := by
  obtain ⟨⟨p, L₁⟩, htake, henq⟩ := Option.bind_eq_some_iff.mp henq
  obtain ⟨old, hold, henq⟩ := Option.bind_eq_some_iff.mp henq
  obtain ⟨filled, hfill, hput⟩ := Option.bind_eq_some_iff.mp henq
  obtain ⟨V₁, howned₁, hexact₁, hV₁, hread₁, hsource⟩ := takeMsg_owned hL htake
  obtain ⟨howned₂, hexact₂, hself, hother⟩ := putMsg_owned howned₁ hput
  refine ⟨_, old, filled, howned₂, fun hx ↦ hexact₂ (hexact₁ hx), hfill, ?_, ?_, ?_, ?_, ?_, ?_⟩
  · rcases hsource with ⟨hmem, hfront⟩ | hnew
    · have hobj : p ∈ objects V := mem_objects.mpr ⟨_, hmem⟩
      exact Or.inl ⟨p, hfront, by rw [← hread₁ p hobj]; exact hold, hmem⟩
    · rw [hold] at hnew
      exact Or.inr (Option.some.inj hnew)
  · simpa using hV₁ .tmp (by simp)
  · simpa using hV₁ .tmp2 (by simp)
  · refine ⟨(L₁.nodes.fresh, p), ?_, hself⟩
    rw [Function.update_self, hV₁ .list (by simp)]
  · intro w hw o ho
    have hne : o ≠ p := by
      apply notMem_of_held howned₁ (w := w)
      rwa [hV₁ w hw]
    rw [hother o hne, hread₁ o (mem_objects.mpr ⟨w, ho⟩)]
  · intro o n ho
    by_cases heq : o = p
    · rw [heq, hself] at ho
      exact Or.inl (Option.some.inj ho).symm
    · rw [hother o heq] at ho
      rcases takeMsg_cases htake with ⟨-, -, list2, nodes, -, rfl⟩ | ⟨-, rfl, rfl⟩
      · exact Or.inr (Or.inr ho)
      · rw [Heap.read_alloc_of_ne _ heq] at ho
        exact Or.inr (Or.inr ho)

end MsgLists

end Slience
