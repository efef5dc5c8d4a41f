import Slience.App.MsgLists

/-!
# Returning the message objects

What the main thread does with the objects it has taken: it moves them one by one to its
second list and then returns that list, as a whole while the cache has room for it and else
object by object, deleting what is too much.
-/

namespace Slience

namespace MsgLists

variable {L L' : MsgLists} {V V' : View} {p : ℕ}

/-- The name of the list that is at a place after the swap. -/
def swapNames : ListName ≃ ListName := Equiv.swap .list .tmp

theorem swap_owned (hL : Owned L V []) : Owned L.swap (V ∘ swapNames) [] ∧
    (Exact L V [] → Exact L.swap (V ∘ swapNames) []) := by
  have hget : L.swap.get = L.get ∘ swapNames := by
    funext w
    cases w <;> rfl
  have hperm : ∀ o, ([] ++ objects (V ∘ swapNames)).count o = ([] ++ objects V).count o := by
    intro o
    have h₁ : swapNames .list = .tmp := rfl
    have h₂ : swapNames .tmp = .list := rfl
    have h₃ : swapNames .tmp2 = .tmp2 := rfl
    have h₄ : swapNames .list2 = .list2 := rfl
    simp only [objects, Function.comp_apply, h₁, h₂, h₃, h₄, List.map_append, List.count_append]
    omega
  have howned : Owned L.swap (V ∘ swapNames) [] := by
    refine hL.transfer (by rw [hget]; exact hL.separate.reindex swapNames) ?_
      (fun o ↦ (hperm o).le) (fun o _ m hm ↦ ⟨m, hm⟩)
    intro w hw
    rw [hget]
    apply hL.rep
    cases w <;> simp_all [swapNames, Equiv.swap_apply_def]
  refine ⟨howned, ?_⟩
  intro hx
  exact ⟨howned, hx.list2_rep, fun o m ho ↦ (mem_iff_of_count hperm o).mpr (hx.all o m ho),
    hx.cached⟩

theorem frontMsg_owned {m : Msg} (hL : Owned L V []) (hfront : L.frontMsg = some (p, m)) :
    ∃ a rest, V .tmp = (a, p) :: rest ∧ L.objs.read p = some m := by
  obtain ⟨q, hq, hfront⟩ := Option.bind_eq_some_iff.mp hfront
  obtain ⟨n, hn, hfront⟩ := Option.bind_eq_some_iff.mp hfront
  cases hfront
  obtain ⟨a, rest, hV⟩ := Slist.chain_of_front (hL.separate.loose .tmp).chain hq
  exact ⟨a, rest, hV, hn⟩

theorem frontMsg_isSome (hL : Owned L V []) (hcount : L.tmp.count ≠ 0) :
    ∃ p m, L.frontMsg = some (p, m) := by
  obtain ⟨a, p, rest, hV⟩ := (hL.rep .tmp (by simp)).exists_cons_of_count hcount
  obtain ⟨m, hm⟩ := hL.live p (List.mem_append_right _ (mem_objects.mpr ⟨.tmp, by simp [hV]⟩))
  have hfront : L.tmp.front L.nodes = some p := by
    have hchain := (hL.separate.loose .tmp).chain
    rw [hV] at hchain
    exact Slist.front_of_chain hchain
  exact ⟨p, m, by simp [frontMsg, hfront, hm]⟩

theorem retire_cases (hretire : L.retire p = some L') :
    ∃ tmp nodes₁ tmp2 nodes, L.tmp.popFront L.nodes = some (tmp, nodes₁) ∧
      L.tmp2.pushBack nodes₁ p = some (tmp2, nodes) ∧ L' = { L with tmp, tmp2, nodes } := by
  obtain ⟨⟨tmp, nodes₁⟩, hpop, hretire⟩ := Option.bind_eq_some_iff.mp hretire
  obtain ⟨⟨tmp2, nodes⟩, hpush, hretire⟩ := Option.bind_eq_some_iff.mp hretire
  cases hretire
  exact ⟨tmp, nodes₁, tmp2, nodes, hpop, hpush, rfl⟩

theorem retire_owned {a : ℕ} {rest : List (ℕ × ℕ)} (hV : V .tmp = (a, p) :: rest)
    (hL : Owned L V []) (hretire : L.retire p = some L') :
    ∃ V', Owned L' V' [] ∧ (Exact L V [] → Exact L' V' []) ∧ L'.objs = L.objs ∧
      V' .list = V .list ∧ V' .tmp = rest ∧ ∃ b, V' .tmp2 = V .tmp2 ++ [(b, p)] := by
  obtain ⟨tmp, nodes₁, tmp2, nodes, hpop, hpush, rfl⟩ := retire_cases hretire
  have honly₁ : Slist.Separate.OnlyAt L.get V .tmp L.nodes nodes₁ :=
    Slist.Separate.onlyAt_of_popFront hV hL.separate hpop
  obtain ⟨hsep₁, hrep₁⟩ := Slist.Separate.popFront hV hL.separate hpop
  have hpush₁ : (Function.update L.get .tmp tmp ListName.tmp2).pushBack nodes₁ p =
      some (tmp2, nodes) := hpush
  have honly₂ : Slist.Separate.OnlyAt (Function.update L.get .tmp tmp)
      (Function.update V .tmp rest) .tmp2 nodes₁ nodes :=
    Slist.Separate.onlyAt_of_pushBack hpush₁
  have htmp2 : Slist.Rep nodes₁ L.tmp2 (V .tmp2) :=
    hL.separate.rep_of_onlyAt honly₁ (j := ListName.tmp2) (by simp) (hL.rep .tmp2 (by simp))
  obtain ⟨xs, hsep, -, hrep⟩ := hsep₁.pushBack hpush₁
  obtain ⟨rfl, htmp2'⟩ := hrep htmp2
  have hget : MsgLists.get { L with tmp, tmp2, nodes } =
      Function.update (Function.update L.get .tmp tmp) .tmp2 tmp2 := by
    funext w
    cases w <;> rfl
  have hkeep : ∀ w, w ≠ .tmp → w ≠ .tmp2 → Slist.Rep L.nodes (L.get w) (V w) →
      Slist.Rep nodes (L.get w) (V w) := by
    intro w h₁ h₂ hw
    have hw₁ := hL.separate.rep_of_onlyAt honly₁ h₁ hw
    have hw₂ := hsep₁.rep_of_onlyAt honly₂ h₂ (by
      rw [Function.update_of_ne h₁, Function.update_of_ne h₁]
      exact hw₁)
    rwa [Function.update_of_ne h₁, Function.update_of_ne h₁] at hw₂
  have htmp' : Slist.Rep nodes tmp rest := by
    have hw := hsep₁.rep_of_onlyAt honly₂ (j := ListName.tmp) (by simp) (by
      simpa using hrep₁ (hL.rep .tmp (by simp)))
    simpa using hw
  let W : View := Function.update (Function.update V .tmp rest) .tmp2
    (V .tmp2 ++ [(nodes₁.fresh, p)])
  have hperm : ∀ o, ([] ++ objects W).count o = ([] ++ objects V).count o := by
    intro o
    simp only [W, objects, hV, Function.update_self, Function.update_of_ne, ne_eq, reduceCtorEq,
      not_false_eq_true, List.map_append, List.map_cons, List.map_nil, List.count_append,
      List.count_cons, List.count_nil]
    omega
  have howned : Owned { L with tmp, tmp2, nodes } W [] := by
    refine hL.transfer (by rw [hget]; exact hsep) ?_ (fun o ↦ (hperm o).le)
      (fun o _ m hm ↦ ⟨m, hm⟩)
    intro w hw
    cases w with
    | list => exact hkeep .list (by simp) (by simp) (hL.rep .list (by simp))
    | list2 => exact absurd rfl hw
    | tmp => exact htmp'
    | tmp2 => exact htmp2'
  refine ⟨W, howned, ?_, rfl, by simp [W], by simp [W], nodes₁.fresh, by simp [W]⟩
  intro hx
  refine ⟨howned, ?_, fun o m ho ↦ (mem_iff_of_count hperm o).mpr (hx.all o m ho), ?_⟩
  · exact hkeep .list2 (by simp) (by simp) hx.list2_rep
  · simpa [W] using hx.cached

/-! ## The objects go back -/

theorem recycleOne_cases (hone : L.recycleOne = some L') :
    ∃ p L₁ tmp2 nodes, L.tmp2.front L.nodes = some p ∧ L.returnMsg p = some L₁ ∧
      L₁.tmp2.popFront L₁.nodes = some (tmp2, nodes) ∧ L' = { L₁ with tmp2, nodes } := by
  obtain ⟨p, hfront, hone⟩ := Option.bind_eq_some_iff.mp hone
  obtain ⟨L₁, hreturn, hone⟩ := Option.bind_eq_some_iff.mp hone
  obtain ⟨⟨tmp2, nodes⟩, hpop, hone⟩ := Option.bind_eq_some_iff.mp hone
  cases hone
  exact ⟨p, L₁, tmp2, nodes, hfront, hreturn, hpop, rfl⟩

theorem returnMsg_cases (hreturn : L.returnMsg p = some L') :
    (L.list2.count < msgCacheSize ∧ ∃ list2 nodes,
        L.list2.pushBack L.nodes p = some (list2, nodes) ∧ L' = { L with list2, nodes }) ∨
      (msgCacheSize ≤ L.list2.count ∧ ∃ objs,
        L.objs.free p = some objs ∧ L' = { L with objs }) := by
  unfold returnMsg at hreturn
  split at hreturn
  · rename_i hcount
    obtain ⟨⟨list2, nodes⟩, hpush, hreturn⟩ := Option.bind_eq_some_iff.mp hreturn
    cases hreturn
    exact Or.inl ⟨hcount, list2, nodes, hpush, rfl⟩
  · rename_i hcount
    obtain ⟨objs, hfree, hreturn⟩ := Option.bind_eq_some_iff.mp hreturn
    cases hreturn
    exact Or.inr ⟨not_lt.mp hcount, objs, hfree, rfl⟩

/-- What returning objects does: the messages that wait or were taken stay as they are, and
every object that is left in a list is unchanged. -/
structure Returned (L L' : MsgLists) (V V' : View) : Prop where
  owned : Owned L' V' []
  list_eq : V' .list = V .list
  tmp_eq : V' .tmp = V .tmp
  read_eq : ∀ o ∈ objects V', L'.objs.read o = L.objs.read o
  read_of_read : ∀ o n, L'.objs.read o = some n → L.objs.read o = some n

theorem Returned.trans {L'' : MsgLists} {V'' : View} (h : Returned L L' V V')
    (h' : Returned L' L'' V' V'') (hsub : ∀ o ∈ objects V'', o ∈ objects V') :
    Returned L L'' V V'' where
  owned := h'.owned
  list_eq := h'.list_eq.trans h.list_eq
  tmp_eq := h'.tmp_eq.trans h.tmp_eq
  read_eq := by
    intro o ho
    rw [h'.read_eq o ho, h.read_eq o (hsub o ho)]
  read_of_read o n ho := h.read_of_read o n (h'.read_of_read o n ho)

/-- Taking the first object off the second list of the main thread, in a state where that
object may already be in another list: the lists stay separate. -/
theorem popTmp2_lists {a : ℕ} {rest : List (ℕ × ℕ)} {tmp2 : Slist} {nodes : Heap (Node ℕ)}
    (hV : V .tmp2 = (a, p) :: rest) (hsep : Slist.Separate L.nodes L.get V)
    (hrep : ∀ w, w ≠ .list2 → Slist.Rep L.nodes (L.get w) (V w))
    (hpop : L.tmp2.popFront L.nodes = some (tmp2, nodes)) :
    Slist.Separate nodes (MsgLists.get { L with tmp2, nodes }) (Function.update V .tmp2 rest) ∧
      (∀ w, w ≠ .list2 → Slist.Rep nodes (MsgLists.get { L with tmp2, nodes } w)
        (Function.update V .tmp2 rest w)) ∧
      (Slist.Rep L.nodes L.list2 (V .list2) → Slist.Rep nodes L.list2 (V .list2)) := by
  have hget : MsgLists.get { L with tmp2, nodes } = Function.update L.get .tmp2 tmp2 := by
    funext w
    cases w <;> rfl
  obtain ⟨hsep', hrep'⟩ := Slist.Separate.popFront hV hsep hpop
  have honly : Slist.Separate.OnlyAt L.get V .tmp2 L.nodes nodes :=
    Slist.Separate.onlyAt_of_popFront hV hsep hpop
  refine ⟨by rw [hget]; exact hsep', ?_, ?_⟩
  · intro w hw
    rw [hget]
    by_cases hwt : w = .tmp2
    · subst hwt
      simpa using hrep' (hrep .tmp2 (by simp))
    · rw [Function.update_of_ne hwt, Function.update_of_ne hwt]
      exact hsep.rep_of_onlyAt honly hwt (hrep w hw)
  · exact hsep.rep_of_onlyAt honly (j := ListName.list2) (by simp)

theorem recycleOne_returned (hL : Owned L V []) (hone : L.recycleOne = some L') :
    ∃ x rest V', V .tmp2 = x :: rest ∧ V' .tmp2 = rest ∧ Returned L L' V V' ∧
      (∀ o ∈ objects V', o ∈ objects V) ∧ (Exact L V [] → Exact L' V' []) := by
  obtain ⟨p, L₁, tmp2, nodes, hfront, hreturn, hpop, rfl⟩ := recycleOne_cases hone
  obtain ⟨a, rest, hV⟩ := Slist.chain_of_front (hL.separate.loose .tmp2).chain hfront
  rcases returnMsg_cases hreturn with
    ⟨hroom, list2, nodes₁, hpush, rfl⟩ | ⟨hfull, objs, hfree, rfl⟩
  · obtain ⟨ys, hsep₁, hsub, hys⟩ := hL.separate.pushBack (i := ListName.list2) hpush
    have honly : Slist.Separate.OnlyAt L.get V .list2 L.nodes nodes₁ :=
      Slist.Separate.onlyAt_of_pushBack hpush
    have hget : MsgLists.get { L with list2, nodes := nodes₁ } =
        Function.update L.get .list2 list2 := by
      funext w
      cases w <;> rfl
    have hrep₁ : ∀ w, w ≠ .list2 →
        Slist.Rep nodes₁ (MsgLists.get { L with list2, nodes := nodes₁ } w)
          (Function.update V .list2 ys w) := by
      intro w hw
      rw [hget, Function.update_of_ne hw, Function.update_of_ne hw]
      exact hL.separate.rep_of_onlyAt honly hw (hL.rep w hw)
    have hV₁ : Function.update V .list2 ys .tmp2 = (a, p) :: rest := hV
    obtain ⟨hsep, hrep, hlist2⟩ := popTmp2_lists hV₁ (by rw [hget]; exact hsep₁) hrep₁ hpop
    let W : View := Function.update (Function.update V .list2 ys) .tmp2 rest
    have hcount : ∀ o, ([] ++ objects W).count o ≤ ([] ++ objects V).count o := by
      intro o
      have hle := (hsub.map Prod.snd).count_le o
      simp only [List.map_append, List.count_append, List.map_cons, List.map_nil, List.count_cons,
        List.count_nil] at hle
      simp only [W, objects, hV, Function.update_self, Function.update_of_ne, ne_eq, reduceCtorEq,
        not_false_eq_true, List.map_append, List.map_cons, List.count_append, List.count_cons]
      omega
    have howned : Owned { L with list2, tmp2, nodes } W [] :=
      hL.transfer hsep hrep hcount (fun o _ m hm ↦ ⟨m, hm⟩)
    refine ⟨_, rest, W, hV, by simp [W], ?_, ?_, ?_⟩
    · exact ⟨howned, by simp [W], by simp [W], fun _ _ ↦ rfl, fun _ _ ho ↦ ho⟩
    · intro o ho
      have hpos := List.count_pos_iff.mpr ho
      exact List.count_pos_iff.mp (hpos.trans_le (hcount o))
    · intro hx
      obtain ⟨rfl, hrep2⟩ := hys hx.list2_rep
      refine ⟨howned, hlist2 hrep2, ?_, ?_⟩
      · intro o m ho
        have hmem := List.count_pos_iff.mpr (hx.all o m ho)
        apply List.count_pos_iff.mp
        simp only [W, objects, hV, Function.update_self, Function.update_of_ne, ne_eq, reduceCtorEq,
          not_false_eq_true, List.map_append, List.map_cons, List.map_nil, List.count_append,
          List.count_cons, List.count_nil] at hmem ⊢
        omega
      · have hlen := hx.list2_rep.count_eq
        simp only [W, Function.update_self, Function.update_of_ne, ne_eq, reduceCtorEq,
          not_false_eq_true, List.length_append, List.length_singleton]
        omega
  · obtain ⟨hsep, hrep, hlist2⟩ := popTmp2_lists hV hL.separate hL.rep hpop
    obtain ⟨m, hm⟩ := Heap.read_of_free hfree
    obtain ⟨objs', hfree', hgone, hother⟩ := Heap.free_spec hm
    rw [hfree] at hfree'
    cases hfree'
    let W : View := Function.update V .tmp2 rest
    have hperm : ∀ o, (p :: objects W).count o = ([] ++ objects V).count o := by
      intro o
      simp only [W, objects, hV, Function.update_self, Function.update_of_ne, ne_eq, reduceCtorEq,
        not_false_eq_true, List.map_append, List.map_cons, List.count_append, List.count_cons,
        List.count_nil]
      omega
    have hp : p ∉ objects W :=
      (List.nodup_cons.mp (nodup_of_count_le hL.nodup fun o ↦ (hperm o).le)).1
    have hread : ∀ o ∈ objects W, objs.read o = L.objs.read o := by
      intro o ho
      apply hother
      rintro rfl
      exact hp ho
    have howned : Owned { L with objs, tmp2, nodes } W [] := by
      refine hL.transfer hsep hrep ?_ (fun o ho m hm ↦ ⟨m, by rw [hread o ho, hm]⟩)
      intro o
      have hle := hperm o
      simp only [List.count_cons, List.nil_append] at hle ⊢
      omega
    refine ⟨_, rest, W, hV, by simp [W], ?_, ?_, ?_⟩
    · refine ⟨howned, by simp [W], by simp [W], hread, ?_⟩
      intro o n ho
      by_cases heq : o = p
      · rw [heq, hgone] at ho
        cases ho
      · rw [← hother o heq]
        exact ho
    · intro o ho
      exact (mem_iff_of_count hperm o).mp (List.mem_cons_of_mem _ ho)
    · intro hx
      refine ⟨howned, hlist2 hx.list2_rep, ?_, by simpa [W] using hx.cached⟩
      intro o n ho
      have hne : o ≠ p := by
        rintro rfl
        rw [hgone] at ho
        cases ho
      rw [hother o hne] at ho
      exact (List.mem_cons.mp ((mem_iff_of_count hperm o).mpr (hx.all o n ho))).resolve_left hne

theorem Returned.refl (hL : Owned L V []) : Returned L L V V :=
  ⟨hL, rfl, rfl, fun _ _ ↦ rfl, fun _ _ ho ↦ ho⟩

theorem recycleLoop_returned {n : ℕ} (hL : Owned L V []) (hloop : L.recycleLoop n = some L') :
    ∃ V', V' .tmp2 = [] ∧ Returned L L' V V' ∧ (Exact L V [] → Exact L' V' []) := by
  suffices h : ∃ V', V' .tmp2 = [] ∧ Returned L L' V V' ∧ (∀ o ∈ objects V', o ∈ objects V) ∧
      (Exact L V [] → Exact L' V' []) by
    obtain ⟨V', htmp2, hreturned, -, hexact⟩ := h
    exact ⟨V', htmp2, hreturned, hexact⟩
  induction n generalizing L V with
  | zero =>
      unfold recycleLoop at hloop
      split at hloop
      · rename_i hcount
        cases hloop
        exact ⟨V, (hL.rep .tmp2 (by simp)).eq_nil_of_count hcount, Returned.refl hL,
          fun _ ho ↦ ho, id⟩
      · cases hloop
  | succ n ih =>
      obtain ⟨L₁, hone, hloop⟩ := Option.bind_eq_some_iff.mp hloop
      obtain ⟨x, rest, V₁, -, -, hreturned₁, hsub₁, hexact₁⟩ := recycleOne_returned hL hone
      obtain ⟨V', htmp2, hreturned, hsub, hexact⟩ := ih hreturned₁.owned hloop
      exact ⟨V', htmp2, hreturned₁.trans hreturned hsub, fun o ho ↦ hsub₁ o (hsub o ho),
        fun hx ↦ hexact (hexact₁ hx)⟩

theorem recycle_cases (hrecycle : L.recycle = some L') :
    (L.tmp2.count + L.list2.count ≤ msgCacheSize ∧ ∃ list2 nodes,
        L.list2.join L.tmp2 L.nodes = some (list2, nodes) ∧
        L' = { L with list2, nodes, tmp2 := Slist.empty }) ∨
      L.recycleLoop L.tmp2.count.toNat = some L' := by
  obtain ⟨size, hsize, hrecycle⟩ := Option.bind_eq_some_iff.mp hrecycle
  cases eq_of_addInt hsize
  split at hrecycle
  · rename_i hroom
    obtain ⟨⟨list2, nodes⟩, hjoin, hrecycle⟩ := Option.bind_eq_some_iff.mp hrecycle
    cases hrecycle
    exact Or.inl ⟨hroom, list2, nodes, hjoin, rfl⟩
  · exact Or.inr hrecycle

/-- Specification of `recycle`.  It keeps the used objects in a well-formed list when it does
not join an empty list to a list with nodes. -/
theorem recycle_returned (hL : Owned L V []) (hrecycle : L.recycle = some L') :
    ∃ V', V' .tmp2 = [] ∧ Returned L L' V V' ∧
      (V .tmp2 ≠ [] ∨ V .list2 = [] → Exact L V [] → Exact L' V' []) := by
  rcases recycle_cases hrecycle with ⟨hroom, list2, nodes, hjoin, rfl⟩ | hloop
  · obtain ⟨ys, hsep, hsub, hys⟩ := hL.separate.join (i := ListName.list2) (j := ListName.tmp2)
      (by simp) (hL.rep .tmp2 (by simp)) hjoin
    have honly : Slist.Separate.OnlyAt L.get V .list2 L.nodes nodes :=
      Slist.Separate.onlyAt_of_join hjoin
    have hget : MsgLists.get { L with list2, nodes, tmp2 := Slist.empty } =
        Function.update (Function.update L.get .tmp2 Slist.empty) .list2 list2 := by
      funext w
      cases w <;> rfl
    let W : View := Function.update (Function.update V .tmp2 []) .list2 ys
    have hcount : ∀ o, ([] ++ objects W).count o ≤ ([] ++ objects V).count o := by
      intro o
      have hle := (hsub.map Prod.snd).count_le o
      simp only [List.map_append, List.count_append] at hle
      simp only [W, objects, Function.update_self, Function.update_of_ne, ne_eq, reduceCtorEq,
        not_false_eq_true, List.map_append, List.map_nil, List.count_append, List.count_nil]
      omega
    have howned : Owned { L with list2, nodes, tmp2 := Slist.empty } W [] := by
      refine hL.transfer (by rw [hget]; exact hsep) ?_ hcount (fun o _ m hm ↦ ⟨m, hm⟩)
      intro w hw
      cases w with
      | list => exact hL.separate.rep_of_onlyAt honly (by simp) (hL.rep .list (by simp))
      | list2 => exact absurd rfl hw
      | tmp => exact hL.separate.rep_of_onlyAt honly (by simp) (hL.rep .tmp (by simp))
      | tmp2 => exact Slist.rep_empty nodes
    refine ⟨W, by simp [W], ?_, ?_⟩
    · exact ⟨howned, by simp [W], by simp [W], fun _ _ ↦ rfl, fun _ _ ho ↦ ho⟩
    · intro hne hx
      obtain ⟨rfl, hlist2⟩ := hys hx.list2_rep hne
      refine ⟨howned, hlist2, ?_, ?_⟩
      · intro o m ho
        have hmem := List.count_pos_iff.mpr (hx.all o m ho)
        apply List.count_pos_iff.mp
        simp only [W, objects, Function.update_self, Function.update_of_ne, ne_eq, reduceCtorEq,
          not_false_eq_true, List.map_append, List.map_nil, List.count_append,
          List.count_nil] at hmem ⊢
        omega
      · have h₁ := hx.list2_rep.count_eq
        have h₂ : L.tmp2.count = (V .tmp2).length := (hL.rep .tmp2 (by simp)).count_eq
        simp only [W, Function.update_self, List.length_append]
        omega
  · obtain ⟨V', htmp2, hreturned, hexact⟩ := recycleLoop_returned hL hloop
    exact ⟨V', htmp2, hreturned, fun _ ↦ hexact⟩

/-! ## The operations have results -/

/-- The most messages that may wait so that no counter overflows. -/
def waitLimit : ℕ := 2 ^ 31 - 1 - msgCacheSize

theorem callback_isSome {e : Callback} (hx : Exact L V []) (hroom : (V .list).length < waitLimit)
    (hfill : ∀ old, (∃ o, L.list2.front L.nodes = some o ∧ L.objs.read o = some old) ∨
      old = Msg.new → (e.fill old).isSome) : ∃ L', L.callback e = some L' := by
  simp only [waitLimit, msgCacheSize] at hroom
  have htake : ∃ p L₁, L.takeMsg = some (p, L₁) := by
    unfold takeMsg
    split
    · rename_i hcount
      obtain ⟨a, p, rest, hV⟩ := hx.list2_rep.exists_cons_of_count (ne_of_gt hcount)
      have hrep := hx.list2_rep
      have hlen := hx.cached
      rw [hV] at hrep hlen
      simp only [msgCacheSize, List.length_cons] at hlen
      obtain ⟨list2, nodes, hpop⟩ := Slist.popFront_isSome hrep.chain hrep.count_eq (by omega)
      exact ⟨p, { L with list2, nodes },
        by simp [Slist.front_of_chain hrep.chain, hpop]⟩
    · exact ⟨_, _, rfl⟩
  obtain ⟨p, L₁, htake⟩ := htake
  obtain ⟨V₁, howned₁, hexact₁, hV₁, hread₁, hsource⟩ := takeMsg_owned hx.toOwned htake
  obtain ⟨old, hold⟩ := howned₁.live p (by simp)
  have hsome : (e.fill old).isSome := by
    apply hfill
    rcases hsource with ⟨hmem, hfront⟩ | hnew
    · refine Or.inl ⟨p, hfront, ?_⟩
      rw [← hread₁ p (mem_objects.mpr ⟨_, hmem⟩)]
      exact hold
    · rw [hold] at hnew
      exact Or.inr (Option.some.inj hnew)
  obtain ⟨filled, hfilled⟩ := Option.isSome_iff_exists.mp hsome
  obtain ⟨objs, hwrite, -, -⟩ := Heap.write_spec filled hold
  have hlist : Slist.Rep L₁.nodes L₁.list (V .list) := by
    rw [← hV₁ .list (by simp)]
    exact howned₁.rep .list (by simp)
  obtain ⟨list, nodes, hpush⟩ := Slist.pushBack_isSome hlist (by omega) p
  exact ⟨{ L₁ with objs, list, nodes },
    by simp [callback, htake, hold, hfilled, putMsg, hwrite, hpush]⟩

theorem retire_isSome {a : ℕ} {rest : List (ℕ × ℕ)} (hL : Owned L V [])
    (hV : V .tmp = (a, p) :: rest)
    (hroom : (V .tmp).length + (V .tmp2).length ≤ waitLimit) : ∃ L', L.retire p = some L' := by
  simp only [waitLimit, msgCacheSize, hV, List.length_cons] at hroom
  have htmp : Slist.Rep L.nodes L.tmp ((a, p) :: rest) := hV ▸ hL.rep .tmp (by simp)
  obtain ⟨tmp, nodes₁, hpop⟩ := Slist.popFront_isSome htmp.chain htmp.count_eq (by omega)
  have honly : Slist.Separate.OnlyAt L.get V .tmp L.nodes nodes₁ :=
    Slist.Separate.onlyAt_of_popFront hV hL.separate hpop
  have htmp2 : Slist.Rep nodes₁ L.tmp2 (V .tmp2) :=
    hL.separate.rep_of_onlyAt honly (j := ListName.tmp2) (by simp) (hL.rep .tmp2 (by simp))
  obtain ⟨tmp2, nodes, hpush⟩ := Slist.pushBack_isSome htmp2 (by omega) p
  exact ⟨{ L with tmp, tmp2, nodes }, by simp [retire, hpop, hpush]⟩

theorem recycleOne_isSome {x : ℕ × ℕ} {rest : List (ℕ × ℕ)} (hx : Exact L V [])
    (hV : V .tmp2 = x :: rest) (hroom : (V .tmp2).length ≤ waitLimit) :
    ∃ L', L.recycleOne = some L' := by
  obtain ⟨a, p⟩ := x
  simp only [waitLimit, msgCacheSize, hV, List.length_cons] at hroom
  have hcached := hx.cached
  simp only [msgCacheSize] at hcached
  have htmp2 : Slist.Rep L.nodes L.tmp2 ((a, p) :: rest) := hV ▸ hx.rep .tmp2 (by simp)
  have hfront := Slist.front_of_chain htmp2.chain
  have hreturn : ∃ L₁, L.returnMsg p = some L₁ ∧
      Slist.Rep L₁.nodes L₁.tmp2 ((a, p) :: rest) := by
    unfold returnMsg
    split
    · obtain ⟨list2, nodes, hpush⟩ := Slist.pushBack_isSome hx.list2_rep (by omega) p
      have honly : Slist.Separate.OnlyAt L.get V .list2 L.nodes nodes :=
        Slist.Separate.onlyAt_of_pushBack hpush
      refine ⟨{ L with list2, nodes }, by simp [hpush], ?_⟩
      have hkeep := hx.separate.rep_of_onlyAt honly (j := ListName.tmp2) (by simp)
        (hx.rep .tmp2 (by simp))
      rwa [hV] at hkeep
    · obtain ⟨m, hm⟩ := hx.live p (mem_objects.mpr ⟨.tmp2, by simp [hV]⟩)
      obtain ⟨objs, hfree, -, -⟩ := Heap.free_spec hm
      exact ⟨{ L with objs }, by simp [hfree], htmp2⟩
  obtain ⟨L₁, hreturn, htmp2₁⟩ := hreturn
  obtain ⟨tmp2, nodes, hpop⟩ := Slist.popFront_isSome htmp2₁.chain htmp2₁.count_eq (by omega)
  exact ⟨{ L₁ with tmp2, nodes }, by simp [recycleOne, hfront, hreturn, hpop]⟩

theorem recycleLoop_isSome {n : ℕ} (hx : Exact L V []) (hn : (V .tmp2).length = n)
    (hroom : n ≤ waitLimit) : ∃ L', L.recycleLoop n = some L' := by
  induction n generalizing L V with
  | zero =>
      have hcount : L.tmp2.count = (V .tmp2).length := (hx.rep .tmp2 (by simp)).count_eq
      rw [hn] at hcount
      exact ⟨L, by simp [recycleLoop, hcount]⟩
  | succ n ih =>
      obtain ⟨x, rest, hV⟩ := List.exists_of_length_succ _ hn
      obtain ⟨L₁, hone⟩ := recycleOne_isSome hx hV (by omega)
      obtain ⟨x', rest', V₁, hV', hrest, -, -, hexact⟩ := recycleOne_returned hx.toOwned hone
      rw [hV] at hV'
      cases hV'
      have hlen : (V₁ .tmp2).length = n := by
        rw [hrest]
        rw [hV, List.length_cons] at hn
        omega
      obtain ⟨L', hloop⟩ := ih (hexact hx) hlen (by omega)
      exact ⟨L', by rw [recycleLoop, hone, Option.bind_some, hloop]⟩

theorem recycle_isSome (hx : Exact L V []) (hroom : (V .tmp2).length ≤ waitLimit) :
    ∃ L', L.recycle = some L' := by
  have hcached := hx.cached
  have htmp2 : L.tmp2.count = (V .tmp2).length := (hx.rep .tmp2 (by simp)).count_eq
  have hlist2 := hx.list2_rep.count_eq
  have hsmall : (V .tmp2).length + (V .list2).length < 2 ^ 31 := by
    simp only [waitLimit, msgCacheSize] at hroom hcached
    omega
  have hsize : addInt L.tmp2.count L.list2.count = some (L.tmp2.count + L.list2.count) := by
    apply addInt_of_bounds <;> omega
  unfold recycle
  rw [hsize, Option.bind_eq_bind, Option.bind_some]
  split
  · obtain ⟨list2, nodes, hjoin⟩ := Slist.join_isSome hx.list2_rep (hx.rep .tmp2 (by simp)).count_eq
      (by omega)
    exact ⟨{ L with list2, nodes, tmp2 := Slist.empty }, by
      rw [get_tmp2] at hjoin
      simp [hjoin]⟩
  · apply recycleLoop_isSome hx _ _
    · omega
    · omega

end MsgLists

end Slience
