import Slience.Redis.Cluster

/-!
# Redirections

However a command is sent from node to node, what comes back is the answer of the node that has
served it, once; a command without an answer was served at most once, and the context says why.
-/

namespace Slience

namespace Redis

/-- The outcome of an exchange with a node: it has served the command, or sends it on, or the
connection fails, and then nobody knows. -/
def Exchanged {σ D : Type} (db : σ → D) (serve : D → List Text → D × ReplyObject) (s : σ)
    (argv : List Text) : σ × Except RedisError ReplyObject → Prop
  | (s', .ok reply) =>
      if Redirects reply then db s' = db s else (db s', reply) = serve (db s) argv
  | (s', .error _) => db s' = db s ∨ db s' = (serve (db s) argv).1

/-- The nodes together hold the data `db`, and each command that one of them does not send on is
served on it. -/
structure ServesData {σ ν D : Type} (net : ClusterNet σ ν) (db : σ → D)
    (serve : D → List Text → D × ReplyObject) : Prop where
  ctx : ∀ s n, db (net.ctxGetByNode s n).1 = db s
  connected : ∀ s, db (net.nodeGetWitchConnected s).1 = db s
  add : ∀ s addr host port, db (net.nodeAdd s addr host port).1 = db s
  update : ∀ s, db (net.updateRoute s).1 = db s
  asking : ∀ s n, db (net.exchange s n (commandImage [lit "ASKING"])).1 = db s
  answers : ∀ s n argv, Exchanged db serve s argv (net.exchange s n (commandImage argv))

/-- The data are the same, and the redirections are counted upwards. -/
structure Keeps {σ D : Type} (db : σ → D) (cc cc' : ClusterContext σ) : Prop where
  data : db cc'.nodes = db cc.nodes
  max : cc'.maxRedirectCount = cc.maxRedirectCount
  count : cc.retryCount ≤ cc'.retryCount

/-- A part of the way of a command: it keeps the data, and where it ends there is an error. -/
structure Goes {σ D α : Type} (db : σ → D) (cc : ClusterContext σ)
    (r : ClusterContext σ × Option α) : Prop where
  keeps : Keeps db cc r.1
  error : r.2 = none → r.1.err.isSome

section Ways

variable {σ ν D α : Type} {net : ClusterNet σ ν} {db : σ → D}
  {serve : D → List Text → D × ReplyObject} {cc cc' cc'' : ClusterContext σ}

theorem Keeps.trans (h : Keeps db cc cc') (h' : Keeps db cc' cc'') : Keeps db cc cc'' :=
  ⟨h'.data.trans h.data, h'.max.trans h.max, h.count.trans h'.count⟩

theorem Keeps.fail (h : Keeps db cc cc') (type : ℕ) (str : Text) :
    Goes db cc (cc'.fail (α := α) type str) :=
  ⟨⟨h.data, h.max, h.count⟩, fun _ ↦ rfl⟩

theorem Keeps.some (h : Keeps db cc cc') (a : α) : Goes db cc (cc', some a) :=
  ⟨h, fun he ↦ by cases he⟩

/-- Another state of the nodes with the same data. -/
theorem keeps_nodes {s : σ} (h : db s = db cc.nodes) : Keeps db cc { cc with nodes := s } :=
  ⟨h, rfl, le_rfl⟩

/-- One more redirection. -/
theorem Keeps.succ (h : Keeps db cc cc') :
    Keeps db cc { cc' with retryCount := cc'.retryCount + 1 } :=
  ⟨h.data, h.max, h.count.trans (Nat.le_succ _)⟩

/-- What a part of the way does behind another one. -/
theorem Goes.trans {r : ClusterContext σ × Option α} (h : Keeps db cc cc') (h' : Goes db cc' r) :
    Goes db cc r :=
  ⟨h.trans h'.keeps, h'.error⟩

theorem ServesData.usable (h : ServesData net db serve) (cc : ClusterContext σ) (node : ν)
    (null : String) : Goes db cc (net.usable cc node null) := by
  rcases hctx : net.ctxGetByNode cc.nodes node with ⟨s, c⟩
  have hkeeps : Keeps db cc { cc with nodes := s } :=
    keeps_nodes (by rw [← h.ctx cc.nodes node, hctx])
  simp only [ClusterNet.usable, hctx]
  rcases c with _ | _ | e
  · exact hkeeps.fail _ _
  · exact hkeeps.some _
  · exact hkeeps.fail _ _

theorem ServesData.target (h : ServesData net db serve) (cc : ClusterContext σ) (slotNum : ℕ) :
    Goes db cc (net.target cc slotNum) := by
  cases htable : net.nodeGetByTable cc.nodes slotNum with
  | none =>
      simp only [ClusterNet.target, htable]
      exact (keeps_nodes (s := cc.nodes) rfl).fail _ _
  | some node =>
      rcases hctx : net.ctxGetByNode cc.nodes node with ⟨s, c⟩
      have hkeeps : Keeps db cc { cc with nodes := s } :=
        keeps_nodes (by rw [← h.ctx cc.nodes node, hctx])
      simp only [ClusterNet.target, htable, hctx]
      rcases c with _ | _ | e
      · exact hkeeps.fail _ _
      · exact hkeeps.some _
      · -- The context has failed: any node that answers is asked instead.
        rcases hconnected : net.nodeGetWitchConnected s with ⟨s', other⟩
        have hkeeps' : Keeps db cc { cc with nodes := s' } :=
          keeps_nodes (by rw [← hkeeps.data, ← h.connected s, hconnected])
        simp only [hconnected]
        rcases other with _ | other
        · exact hkeeps'.fail _ _
        · dsimp only
          split
          · exact hkeeps'.succ.fail _ _
          · exact Goes.trans hkeeps'.succ (h.usable _ _ _)

theorem ServesData.ask (h : ServesData net db serve) (cc : ClusterContext σ) (str : Text) :
    Goes db cc (net.nodeGetByAskErrorReply cc str) := by
  have hself : Keeps db cc cc := ⟨rfl, rfl, le_rfl⟩
  rw [ClusterNet.nodeGetByAskErrorReply]
  split
  · next slot addr _ =>
      split
      · next host port _ =>
          cases net.nodeFind cc.nodes addr with
          | some node => exact hself.some _
          | none => exact (keeps_nodes (h.add _ _ _ _)).some _
      · exact hself.fail _ _
  · exact hself.fail _ _

/-- `ASKING` changes nothing. -/
theorem ServesData.send_asking (h : ServesData net db serve) (cc : ClusterContext σ) (node : ν) :
    Goes db cc (net.send cc node (commandImage [lit "ASKING"])) := by
  rcases hexchange : net.exchange cc.nodes node (commandImage [lit "ASKING"]) with ⟨s, r⟩
  have hkeeps : Keeps db cc { cc with nodes := s } :=
    keeps_nodes (by rw [← h.asking cc.nodes node, hexchange])
  simp only [ClusterNet.send, hexchange]
  cases r with
  | error e => exact hkeeps.fail _ _
  | ok reply => exact hkeeps.some _

theorem ServesData.redirect (h : ServesData net db serve) (cc : ClusterContext σ)
    (reply : ReplyObject) : Goes db cc (net.redirect cc reply) := by
  have hself : Keeps db cc cc := ⟨rfl, rfl, le_rfl⟩
  cases reply with
  | integer n => exact hself.some _
  | nil => exact hself.some _
  | array n element => exact hself.some _
  | string type str =>
      rw [ClusterNet.redirect]
      split
      · rcases hupdate : net.updateRoute cc.nodes with ⟨s, ok⟩
        have hkeeps : Keeps db cc { cc with nodes := s } :=
          keeps_nodes (by rw [← h.update cc.nodes, hupdate])
        cases ok with
        | false => exact hkeeps.fail _ _
        | true => exact hkeeps.some _
      · have hask := h.ask cc str
        generalize net.nodeGetByAskErrorReply cc str = asked at hask ⊢
        rcases asked with ⟨cc₁, _ | node⟩
        · exact ⟨hask.keeps, fun _ ↦ hask.error rfl⟩
        · have husable := h.usable cc₁ node "ctx get by node error"
          dsimp only
          generalize net.usable cc₁ node "ctx get by node error" = used at husable ⊢
          rcases used with ⟨cc₂, _ | node⟩
          · exact Goes.trans hask.keeps ⟨husable.keeps, fun _ ↦ husable.error rfl⟩
          · have hsend := h.send_asking cc₂ node
            dsimp only
            generalize net.send cc₂ node (commandImage [lit "ASKING"]) = sent at hsend ⊢
            rcases sent with ⟨cc₃, _ | reply⟩
            · exact Goes.trans (hask.keeps.trans husable.keeps)
                ⟨hsend.keeps, fun _ ↦ hsend.error rfl⟩
            · exact (hask.keeps.trans (husable.keeps.trans hsend.keeps)).some _
      · exact hself.some _

/-- A command was sent to a node: it was served, or is sent on, or there is an error, and then
nobody knows whether it was served. -/
structure Sent (db : σ → D) (serve : D → List Text → D × ReplyObject) (cc : ClusterContext σ)
    (argv : List Text) (r : ClusterContext σ × Option ReplyObject) : Prop where
  max : r.1.maxRedirectCount = cc.maxRedirectCount
  count : r.1.retryCount = cc.retryCount
  served : ∀ reply, r.2 = some reply → ¬ Redirects reply →
    (db r.1.nodes, reply) = serve (db cc.nodes) argv
  redirected : ∀ reply, r.2 = some reply → Redirects reply → db r.1.nodes = db cc.nodes
  error : r.2 = none → r.1.err.isSome ∧
    (db r.1.nodes = db cc.nodes ∨ db r.1.nodes = (serve (db cc.nodes) argv).1)

theorem ServesData.send (h : ServesData net db serve) (cc : ClusterContext σ) (node : ν)
    (argv : List Text) : Sent db serve cc argv (net.send cc node (commandImage argv)) := by
  have hanswers := h.answers cc.nodes node argv
  rcases hexchange : net.exchange cc.nodes node (commandImage argv) with ⟨s, e | reply⟩
  · rw [hexchange] at hanswers
    simp only [ClusterNet.send, hexchange]
    refine ⟨rfl, rfl, ?_, ?_, fun _ ↦ ⟨rfl, hanswers⟩⟩
    · rintro reply ⟨⟩
    · rintro reply ⟨⟩
  · rw [hexchange, Exchanged] at hanswers
    simp only [ClusterNet.send, hexchange]
    refine ⟨rfl, rfl, ?_, ?_, fun hr ↦ by cases hr⟩
    · rintro _ ⟨⟩ hredirects
      rwa [if_neg hredirects] at hanswers
    · rintro _ ⟨⟩ hredirects
      rwa [if_pos hredirects] at hanswers

/-- What becomes of a command: it was served once, with this reply, or there is an error, and it
was served at most once. -/
structure Executes (db : σ → D) (serve : D → List Text → D × ReplyObject) (cc : ClusterContext σ)
    (argv : List Text) (r : ClusterContext σ × Option ReplyObject) : Prop where
  served : ∀ reply, r.2 = some reply →
    ¬ Redirects reply ∧ (db r.1.nodes, reply) = serve (db cc.nodes) argv
  error : r.2 = none → r.1.err.isSome ∧
    (db r.1.nodes = db cc.nodes ∨ db r.1.nodes = (serve (db cc.nodes) argv).1)

theorem Executes.of_goes {argv : List Text} {r : ClusterContext σ × Option ReplyObject}
    (h : Goes db cc r) (hnone : r.2 = none) : Executes db serve cc argv r := by
  refine ⟨fun reply hreply ↦ ?_, fun hr ↦ ⟨h.error hr, Or.inl h.keeps.data⟩⟩
  rw [hnone] at hreply
  cases hreply

theorem Executes.trans {argv : List Text} {r : ClusterContext σ × Option ReplyObject}
    (h : Keeps db cc cc') (h' : Executes db serve cc' argv r) : Executes db serve cc argv r := by
  have hserved := h'.served
  have herror := h'.error
  rw [h.data] at hserved herror
  exact ⟨hserved, herror⟩

/-- There are always enough turns: each one that is not the last counts a redirection. -/
theorem ServesData.attempts (h : ServesData net db serve) (slotNum : ℕ) (argv : List Text)
    (fuel : ℕ) (asked : Option ν) (cc : ClusterContext σ)
    (hfuel : cc.maxRedirectCount < cc.retryCount + fuel)
    (hcount : fuel = 0 → cc.retryCount ≤ cc.maxRedirectCount) :
    Executes db serve cc argv (net.attempts slotNum (commandImage argv) fuel asked cc) := by
  induction fuel generalizing asked cc with
  | zero =>
      have hle := hcount rfl
      omega
  | succ fuel ih =>
      have htarget : Goes db cc
          (asked.elim (net.target cc slotNum) fun node ↦ (cc, some node)) := by
        cases asked with
        | none => exact h.target cc slotNum
        | some node => exact (⟨rfl, rfl, le_rfl⟩ : Keeps db cc cc).some node
      rw [ClusterNet.attempts]
      generalize asked.elim (net.target cc slotNum) (fun node ↦ (cc, some node)) = found
        at htarget ⊢
      rcases found with ⟨cc₁, _ | node⟩
      · exact .of_goes ⟨htarget.keeps, fun _ ↦ htarget.error rfl⟩ rfl
      · have hsent := h.send cc₁ node argv
        have hkeeps := htarget.keeps
        refine .trans hkeeps ?_
        dsimp only at hkeeps ⊢
        generalize net.send cc₁ node (commandImage argv) = sent at hsent ⊢
        rcases sent with ⟨cc₂, _ | reply⟩
        · refine ⟨?_, fun _ ↦ hsent.error rfl⟩
          rintro reply ⟨⟩
        · dsimp only
          split
          · next hredirects =>
              have hdata : Keeps db cc₁ cc₂ :=
                ⟨hsent.redirected reply rfl hredirects, hsent.max, hsent.count.ge⟩
              split
              · exact .of_goes (hdata.succ.fail _ _) rfl
              · next hmore =>
                  have hredirect := h.redirect { cc₂ with retryCount := cc₂.retryCount + 1 } reply
                  generalize net.redirect { cc₂ with retryCount := cc₂.retryCount + 1 } reply =
                    next at hredirect ⊢
                  rcases next with ⟨cc₃, _ | asked⟩
                  · exact .trans hdata.succ
                      (.of_goes ⟨hredirect.keeps, fun _ ↦ hredirect.error rfl⟩ rfl)
                  · have hthird := hredirect.keeps
                    have hmax₂ := hdata.max.trans hkeeps.max
                    have hmax₃ := hthird.max.trans hmax₂
                    have hcount₁ := hkeeps.count
                    have hcount₂ := hdata.count
                    have hcount₃ := hthird.count
                    dsimp only at hmax₃ hcount₃
                    exact .trans (hdata.succ.trans hthird)
                      (ih asked cc₃ (by omega) (by omega))
          · next hserved =>
              refine ⟨?_, fun hr ↦ by cases hr⟩
              rintro _ ⟨⟩
              exact ⟨hserved, hsent.served reply rfl hserved⟩

/-! ## The number of redirections -/

/-- The redirections that are counted, and how many there may be, are the same. -/
structure SameCounts (cc cc' : ClusterContext σ) : Prop where
  count : cc'.retryCount = cc.retryCount
  max : cc'.maxRedirectCount = cc.maxRedirectCount

theorem SameCounts.trans (h : SameCounts cc cc') (h' : SameCounts cc' cc'') : SameCounts cc cc'' :=
  ⟨h'.count.trans h.count, h'.max.trans h.max⟩

theorem sameCounts_usable (net : ClusterNet σ ν) (cc : ClusterContext σ) (node : ν)
    (null : String) : SameCounts cc (net.usable cc node null).1 := by
  unfold ClusterNet.usable
  dsimp only
  split <;> exact ⟨rfl, rfl⟩

theorem sameCounts_send (net : ClusterNet σ ν) (cc : ClusterContext σ) (node : ν)
    (command : Text) : SameCounts cc (net.send cc node command).1 := by
  unfold ClusterNet.send
  dsimp only
  split <;> exact ⟨rfl, rfl⟩

theorem sameCounts_ask (net : ClusterNet σ ν) (cc : ClusterContext σ) (str : Text) :
    SameCounts cc (net.nodeGetByAskErrorReply cc str).1 := by
  unfold ClusterNet.nodeGetByAskErrorReply
  split
  · split
    · split <;> exact ⟨rfl, rfl⟩
    · exact ⟨rfl, rfl⟩
  · exact ⟨rfl, rfl⟩

theorem sameCounts_redirect (net : ClusterNet σ ν) (cc : ClusterContext σ) (reply : ReplyObject) :
    SameCounts cc (net.redirect cc reply).1 := by
  have hself : SameCounts cc cc := ⟨rfl, rfl⟩
  cases reply with
  | integer n => exact hself
  | nil => exact hself
  | array n element => exact hself
  | string type str =>
      rw [ClusterNet.redirect]
      split
      · dsimp only
        split <;> exact ⟨rfl, rfl⟩
      · have hask := sameCounts_ask net cc str
        generalize net.nodeGetByAskErrorReply cc str = asked at hask ⊢
        rcases asked with ⟨cc₁, _ | node⟩
        · exact hask
        · have husable := sameCounts_usable net cc₁ node "ctx get by node error"
          dsimp only
          generalize net.usable cc₁ node "ctx get by node error" = used at husable ⊢
          rcases used with ⟨cc₂, _ | node⟩
          · exact hask.trans husable
          · have hsend := sameCounts_send net cc₂ node (commandImage [lit "ASKING"])
            dsimp only
            generalize net.send cc₂ node (commandImage [lit "ASKING"]) = sent at hsend ⊢
            rcases sent with ⟨cc₃, _ | reply⟩
            · exact hask.trans (husable.trans hsend)
            · exact hask.trans (husable.trans hsend)
      · exact hself

/-- A node is looked for at the cost of one redirection at most, and where there is one there is
still one to spare. -/
theorem target_count (net : ClusterNet σ ν) (cc : ClusterContext σ) (slotNum : ℕ) :
    (net.target cc slotNum).1.maxRedirectCount = cc.maxRedirectCount ∧
      (net.target cc slotNum).1.retryCount ≤ cc.retryCount + 1 ∧
      ((net.target cc slotNum).2.isSome → (net.target cc slotNum).1.retryCount ≤
        max cc.retryCount cc.maxRedirectCount) := by
  have hfail (type : ℕ) (str : Text) (cc' : ClusterContext σ)
      (hmax : cc'.maxRedirectCount = cc.maxRedirectCount)
      (hcount : cc'.retryCount ≤ cc.retryCount + 1) :
      (cc'.fail (α := ν) type str).1.maxRedirectCount = cc.maxRedirectCount ∧
        (cc'.fail (α := ν) type str).1.retryCount ≤ cc.retryCount + 1 ∧
        ((cc'.fail (α := ν) type str).2.isSome → (cc'.fail (α := ν) type str).1.retryCount ≤
          max cc.retryCount cc.maxRedirectCount) :=
    ⟨hmax, hcount, fun hsome ↦ by cases hsome⟩
  unfold ClusterNet.target
  split
  · exact hfail _ _ cc rfl (Nat.le_succ _)
  · dsimp only
    split
    · exact hfail _ _ _ rfl (Nat.le_succ _)
    · exact ⟨rfl, Nat.le_succ _, fun _ ↦ le_max_left _ _⟩
    · split
      · exact hfail _ _ _ rfl (Nat.le_succ _)
      · split
        · exact hfail _ _ _ rfl le_rfl
        · rename_i hmore
          have hsame (cc' : ClusterContext σ) (node : ν) :=
            sameCounts_usable net cc' node "ctx get by node error"
          exact ⟨(hsame _ _).max, (hsame _ _).count.le,
            fun _ ↦ (hsame _ _).count.le.trans (le_max_of_le_right (not_lt.mp hmore))⟩

/-- The redirection that is one too many is the last one. -/
theorem attempts_count (net : ClusterNet σ ν) (slotNum : ℕ) (command : Text) (fuel : ℕ)
    (asked : Option ν) (cc : ClusterContext σ) :
    (net.attempts slotNum command fuel asked cc).1.retryCount ≤
      max cc.retryCount cc.maxRedirectCount + 1 := by
  induction fuel generalizing asked cc with
  | zero => exact (le_max_left _ _).trans (Nat.le_succ _)
  | succ fuel ih =>
      have hfound : (asked.elim (net.target cc slotNum)
            fun node ↦ (cc, some node)).1.maxRedirectCount = cc.maxRedirectCount ∧
          (asked.elim (net.target cc slotNum) fun node ↦ (cc, some node)).1.retryCount ≤
            cc.retryCount + 1 ∧
          ((asked.elim (net.target cc slotNum) fun node ↦ (cc, some node)).2.isSome →
            (asked.elim (net.target cc slotNum) fun node ↦ (cc, some node)).1.retryCount ≤
              max cc.retryCount cc.maxRedirectCount) := by
        cases asked with
        | none => exact target_count net cc slotNum
        | some node => exact ⟨rfl, Nat.le_succ _, fun _ ↦ le_max_left _ _⟩
      rw [ClusterNet.attempts]
      generalize asked.elim (net.target cc slotNum) (fun node ↦ (cc, some node)) = found
        at hfound ⊢
      obtain ⟨hmax, hsucc, hspare⟩ := hfound
      rcases found with ⟨cc₁, _ | node⟩
      · exact hsucc.trans (Nat.succ_le_succ (le_max_left _ _))
      · have hcount : cc₁.retryCount ≤ max cc.retryCount cc.maxRedirectCount := hspare rfl
        have hsent := sameCounts_send net cc₁ node command
        dsimp only at hmax ⊢
        generalize net.send cc₁ node command = sent at hsent ⊢
        rcases sent with ⟨cc₂, _ | reply⟩
        · exact (hsent.count.le.trans hcount).trans (Nat.le_succ _)
        · have hcount₂ : cc₂.retryCount ≤ max cc.retryCount cc.maxRedirectCount :=
            hsent.count.le.trans hcount
          have hmax₂ : cc₂.maxRedirectCount = cc.maxRedirectCount := hsent.max.trans hmax
          dsimp only
          split
          · split
            · exact Nat.succ_le_succ hcount₂
            · rename_i hmore
              have hredirect := sameCounts_redirect net
                { cc₂ with retryCount := cc₂.retryCount + 1 } reply
              generalize net.redirect { cc₂ with retryCount := cc₂.retryCount + 1 } reply = next
                at hredirect ⊢
              have hcount₃ : next.1.retryCount ≤ cc.maxRedirectCount :=
                hredirect.count.le.trans (hmax₂ ▸ not_lt.mp hmore)
              have hmax₃ : next.1.maxRedirectCount = cc.maxRedirectCount :=
                hredirect.max.trans hmax₂
              rcases next with ⟨cc₃, _ | asked⟩
              · exact (le_max_of_le_right hcount₃).trans (Nat.le_succ _)
              · refine (ih asked cc₃).trans (Nat.succ_le_succ ?_)
                dsimp only at hcount₃ hmax₃
                rw [hmax₃]
                exact (max_le hcount₃ le_rfl).trans (le_max_right _ _)
          · exact hcount₂.trans (Nat.le_succ _)

/-- A command is served at most once and, where there is a reply, exactly once and with this reply;
at the first redirection beyond those it was allowed the client stops, and says why. -/
theorem ServesData.served_at_most_once (h : ServesData net db serve) (cc : ClusterContext σ)
    (slotNum : ℕ) (argv : List Text) :
    Executes db serve cc argv
        (net.redisClusterCommandExecute cc slotNum (commandImage argv)) ∧
      (net.redisClusterCommandExecute cc slotNum (commandImage argv)).1.retryCount ≤
        max cc.retryCount cc.maxRedirectCount + 1 :=
  ⟨h.attempts slotNum argv _ none cc (by omega) (by omega),
    attempts_count net slotNum (commandImage argv) _ none cc⟩

end Ways

section Sample

/-- Two nodes that hold a counter; only the second one has the slots, and the table does not know
this yet.  A reply waits until it is read. -/
structure SampleNodes where
  moved : Bool
  count : ℕ
  reply : ReplyObject

/-- A command counts, and `ASKING` does not. -/
def sampleServe (count : ℕ) (argv : List Text) : ℕ × ReplyObject :=
  if commandImage argv = commandImage [lit "ASKING"] then (count, .string .status (lit "OK"))
  else (count + 1, .integer (count + 1))

def sampleNet : ClusterNet SampleNodes Bool where
  nodeGetByTable s _ := some s.moved
  ctxGetByNode s _ := (s, some none)
  nodeGetWitchConnected s := (s, none)
  appendCommand s node command :=
    (if node then
      if command = commandImage [lit "ASKING"] then { s with reply := .string .status (lit "OK") }
      else { s with count := s.count + 1, reply := .integer (s.count + 1) }
    else { s with reply := .string .error (lit "MOVED 0 127.0.0.1:7001") }, none)
  blockForReply s _ := (s, .ok s.reply)
  nodeFind _ _ := some true
  nodeAdd s _ _ _ := (s, true)
  updateRoute s := ({ s with moved := true }, true)

theorem servesData_sampleNet : ServesData sampleNet SampleNodes.count sampleServe where
  ctx _ _ := rfl
  connected _ := rfl
  add _ _ _ _ := rfl
  update _ := rfl
  asking s node := by cases node <;> rfl
  answers s node argv := by
    have hmoved : Redirects (.string .error (lit "MOVED 0 127.0.0.1:7001")) := by decide +kernel
    have hok : ¬ Redirects (.string .status (lit "OK")) := by decide
    have hinteger (n : ℤ) : ¬ Redirects (.integer n) := fun h ↦ h.1 rfl
    cases node with
    | false => simp [ClusterNet.exchange, sampleNet, Exchanged, hmoved]
    | true =>
        by_cases hasking : commandImage argv = commandImage [lit "ASKING"]
        · simp [ClusterNet.exchange, sampleNet, Exchanged, sampleServe, hasking, hok]
        · simp [ClusterNet.exchange, sampleNet, Exchanged, sampleServe, hasking, hinteger]

/-- The first node sends the command on, and the second one counts it. -/
theorem served_at_most_once_sampleNet :
    Executes SampleNodes.count sampleServe ⟨none, 0, 5, ⟨false, 0, .nil⟩⟩ [lit "INCR", lit "a"]
        (sampleNet.redisClusterCommandExecute ⟨none, 0, 5, ⟨false, 0, .nil⟩⟩ 0
          (commandImage [lit "INCR", lit "a"])) ∧
      (sampleNet.redisClusterCommandExecute ⟨none, 0, 5, ⟨false, 0, .nil⟩⟩ 0
        (commandImage [lit "INCR", lit "a"])).1.retryCount ≤ 6 :=
  servesData_sampleNet.served_at_most_once _ _ _

end Sample

end Redis

end Slience
