import Slience.Redis.Async
import Slience.Redis.Pipeline

/-!
# Each callback runs once

An asynchronous connection with its server, and an application that calls the library from outside
and from its callbacks, but neither subscribes nor monitors.  The callbacks of the commands run in
their order, each with the reply to its command; those whose replies have not come run without one
when the context is freed.  An event that fills the reader also empties it: between two events the
reader of a context in use has no reply that is complete.
-/

namespace Slience

namespace Redis

/-- A command to which the server sends one reply. -/
def CommandKind.regular : CommandKind → Bool
  | subscribe _ _ => false
  | unsubscribe => true
  | monitor => false
  | other => true

/-- A call that neither subscribes nor monitors. -/
def UserCall.Regular : UserCall → Prop
  | .command _ argv =>
      ∀ kind ∈ (redisFormatSdsCommandArgv argv).bind commandKind, kind.regular = true
  | .disconnect => True
  | .free => True

instance : (c : UserCall) → Decidable c.Regular
  | .command _ argv => inferInstanceAs (Decidable
      (∀ kind ∈ (redisFormatSdsCommandArgv argv).bind commandKind, kind.regular = true))
  | .disconnect => inferInstanceAs (Decidable True)
  | .free => inferInstanceAs (Decidable True)

def Program.Regular {σ : Type} : Program σ → Prop
  | .done _ => True
  | .call c next => c.Regular ∧ ∀ ok, (next ok).Regular

def Handler.Regular {σ : Type} (handler : Handler σ) : Prop :=
  ∀ fn privdata reply user, (handler fn privdata reply user).Regular

/-- The callbacks that are run for these replies. -/
def calls (cbs : List AsyncCallback) (replies : List (Option ReplyObject)) :
    List (AsyncCallback × Option ReplyObject) :=
  (cbs.zip replies).filter (·.1.fn.isSome)

theorem calls_append {cbs : List AsyncCallback} {replies : List (Option ReplyObject)}
    (h : cbs.length = replies.length) (cbs' : List AsyncCallback)
    (replies' : List (Option ReplyObject)) :
    calls (cbs ++ cbs') (replies ++ replies') = calls cbs replies ++ calls cbs' replies' := by
  rw [calls, List.zip_append h, List.filter_append]
  rfl

theorem calls_append_left {cbs : List AsyncCallback} {replies : List (Option ReplyObject)}
    (h : replies.length ≤ cbs.length) (cbs' : List AsyncCallback) :
    calls (cbs ++ cbs') replies = calls cbs replies := by
  have hzip (l : List AsyncCallback) (hl : replies.length ≤ l.length) :
      l.zip replies = (l.take replies.length).zip replies := by
    rw [List.zip_eq_zip_take_min, Nat.min_eq_right hl, List.take_length]
  have hlen : replies.length ≤ (cbs ++ cbs').length := by
    rw [List.length_append]
    exact h.trans (Nat.le_add_right _ _)
  rw [calls, calls, hzip _ hlen, hzip _ h, List.take_append_of_le_length h]

/-- More replies go to the callbacks that have none. -/
theorem calls_more {cbs : List AsyncCallback} {replies : List (Option ReplyObject)}
    (h : replies.length ≤ cbs.length) (more : List (Option ReplyObject)) :
    calls cbs (replies ++ more) =
      calls cbs replies ++ calls (cbs.drop replies.length) more := by
  have htake : (cbs.take replies.length).length = replies.length := by
    rw [List.length_take, Nat.min_eq_left h]
  have hsplit := calls_append htake (cbs.drop replies.length) more
  have hleft := calls_append_left htake.ge (cbs.drop replies.length)
  rw [List.take_append_drop] at hsplit hleft
  rw [hsplit, hleft]

/-- The reader has no complete reply. -/
def HiredisContext.Drained (c : HiredisContext) : Prop :=
  ∃ s, c.reader.Holds s ∧ replies.parse s = .more

theorem HiredisContext.Drained.getReply {c : HiredisContext} (h : c.Drained) :
    ∃ c', c.redisGetReplyFromReader = some (some none, c') := by
  obtain ⟨s, hholds, hmore⟩ := h
  rcases RedisReader.getReply_of_holds hholds
    (by rw [show parseItem 8 s = _ from hmore]; exact fun h ↦ by cases h) with
    ⟨r', hget, -⟩ | ⟨o, rest, r', -, hs, -⟩ | ⟨e, r', -, hs, -⟩
  · refine ⟨{ c with reader := r' }, ?_⟩
    rw [HiredisContext.redisGetReplyFromReader, hget]
    rfl
  · cases hmore.symm.trans hs
  · cases hmore.symm.trans hs

/-- A reader that has just said that it has no reply. -/
theorem Pipeline.Sound.drained {server : ReplyServer} {st : server.State} {p : Pipeline server}
    (h : p.Sound st) {c : HiredisContext}
    (hget : p.client.redisGetReplyFromReader = some (some none, c)) : c.Drained := by
  obtain ⟨served, left, new, s, h⟩ := h
  rcases Pipeline.redisGetReplyFromReader_spec h with ⟨c', hget', -, hholds, hmore⟩ |
    ⟨o, new', rest, c', -, hget', -⟩
  · cases hget'.symm.trans hget
    exact ⟨s, hholds, hmore⟩
  · cases hget'.symm.trans hget

/-- The way to the server and back. -/
structure Wire (server : ReplyServer) where
  toServer : Text
  rx : Text
  state : server.State
  toClient : Text

/-- An asynchronous connection as one to which commands are appended. -/
def Wire.view {server : ReplyServer} {σ : Type} (w : Wire server) (ac : AsyncContext σ) :
    Pipeline server :=
  ⟨ac.c, ac.accepted.map Prod.snd, ac.taken, w.toServer, w.rx, w.state, w.toClient⟩

namespace AsyncContext

variable {σ : Type} {server : ReplyServer}

/-- No command is accepted any more. -/
def closing (ac : AsyncContext σ) : Bool := ac.flags.disconnecting || ac.flags.freeing

/-- A context that is in use, where `k` callbacks were taken from the list. -/
structure Live (st : server.State) (w : Wire server) (ac : AsyncContext σ) (k : ℕ) : Prop where
  sound : (w.view ac).Sound st
  subscribed : ac.flags.subscribed = false
  monitoring : ac.flags.monitoring = false
  invalid : ac.invalid = []
  channels : ac.channels.size = 0
  patterns : ac.patterns.size = 0
  replies : ac.replies = (ac.accepted.drop k).map Prod.fst
  le : k ≤ ac.accepted.length

/-- What calls of the library leave as it is. -/
structure Grows (ac ac' : AsyncContext σ) : Prop where
  ran : ac'.ran = ac.ran
  taken : ac'.taken = ac.taken
  freed : ac'.freed = ac.freed
  err : ac'.c.err = ac.c.err
  reader : ac'.c.reader = ac.c.reader
  begins : ac.accepted <+: ac'.accepted
  closing : ac.closing = true → ac'.closing = true ∧ ac'.accepted = ac.accepted

theorem Grows.rfl {ac : AsyncContext σ} : Grows ac ac :=
  ⟨Eq.refl _, Eq.refl _, Eq.refl _, Eq.refl _, Eq.refl _, List.prefix_rfl,
    fun h ↦ ⟨h, Eq.refl _⟩⟩

theorem Grows.trans {ac ac' ac'' : AsyncContext σ} (h : Grows ac ac') (h' : Grows ac' ac'') :
    Grows ac ac'' where
  ran := h'.ran.trans h.ran
  taken := h'.taken.trans h.taken
  freed := h'.freed.trans h.freed
  err := h'.err.trans h.err
  reader := h'.reader.trans h.reader
  begins := h.begins.trans h'.begins
  closing hc := by
    obtain ⟨hc₁, ha⟩ := h.closing hc
    obtain ⟨hc₂, ha'⟩ := h'.closing hc₁
    exact ⟨hc₂, ha'.trans ha⟩

variable {st : server.State} {w : Wire server} {ac ac' : AsyncContext σ} {k : ℕ}

theorem Live.update (h : Live st w ac k) (flags : AsyncFlags)
    (hsubscribed : flags.subscribed = false) (hmonitoring : flags.monitoring = false)
    (err : Option RedisError) (user : σ) (ran : List (AsyncCallback × Option ReplyObject)) :
    Live st w { ac with flags, err, user, ran } k :=
  ⟨h.sound, hsubscribed, hmonitoring, h.invalid, h.channels, h.patterns, h.replies, h.le⟩

/-! ## Calls -/

theorem Live.append (h : Live st w ac k) (cb : AsyncCallback) {argv : List Text} {cmd : Text}
    (hcmd : redisFormatSdsCommandArgv argv = some cmd) {ok : Bool}
    (happend : (ac.pushCallback cb).append cb argv cmd = some (ac', ok))
    (hopen : ac.closing = false) : Live st w ac' k ∧ Grows ac ac' := by
  have hpush : ac.pushCallback cb = { ac with replies := ac.replies ++ [cb] } := by
    rw [pushCallback, h.subscribed, if_neg Bool.false_ne_true]
  rw [hpush] at happend
  obtain ⟨c, hc, heq⟩ := Option.map_eq_some_iff.mp happend
  cases heq
  have hsize := Pipeline.totlen_of_sds hcmd
  rw [redisFormatSdsCommandArgv_eq hsize] at hcmd
  cases hcmd
  refine ⟨⟨?_, h.subscribed, h.monitoring, h.invalid, h.channels, h.patterns, ?_, ?_⟩, ?_⟩
  · obtain ⟨served, left, new, s, hinv⟩ := h.sound
    refine ⟨served, left ++ [argv], new, s, ?_⟩
    have happended := hinv.append hsize hc
    rw [Wire.view, List.map_append]
    exact happended
  · change ac.replies ++ [cb] = _
    rw [h.replies, List.drop_append_of_le_length h.le, List.map_append]
    rfl
  · change k ≤ (ac.accepted ++ [(cb, argv)]).length
    rw [List.length_append]
    exact h.le.trans (Nat.le_add_right _ _)
  · refine ⟨rfl, rfl, rfl, ?_, ?_, List.prefix_append _ _, fun hc ↦ ?_⟩
    · rw [Pipeline.appendCommand_spec hc]
    · rw [Pipeline.appendCommand_spec hc]
    · rw [hopen] at hc
      cases hc

theorem Live.command (h : Live st w ac k) {cb : AsyncCallback} {argv : List Text}
    (hregular : (UserCall.command cb argv).Regular) {ok : Bool}
    (hcommand : ac.redisAsyncCommandArgv cb argv = some (ac', ok)) :
    Live st w ac' k ∧ Grows ac ac' := by
  obtain ⟨cmd, hcmd, hcommand⟩ := Option.bind_eq_some_iff.mp hcommand
  rw [UserCall.Regular, hcmd, Option.bind_some] at hregular
  unfold asyncCommand at hcommand
  split at hcommand
  · cases hcommand
    exact ⟨h, .rfl⟩
  · rename_i hopen
    obtain ⟨kind, hkind, hcommand⟩ := Option.bind_eq_some_iff.mp hcommand
    rw [hkind] at hregular
    cases kind with
    | subscribe pvariant p => cases hregular _ rfl
    | monitor => cases hregular _ rfl
    | unsubscribe =>
        simp only [h.subscribed, if_neg Bool.false_ne_true] at hcommand
        cases hcommand
        exact ⟨h, .rfl⟩
    | other =>
        exact h.append cb hcmd hcommand (by simpa [closing] using hopen)

theorem Live.callInside (h : Live st w ac k) {c : UserCall} (hregular : c.Regular) {ok : Bool}
    (hcall : ac.callInside c = some (ac', ok)) : Live st w ac' k ∧ Grows ac ac' := by
  cases c with
  | command cb argv => exact h.command hregular hcall
  | disconnect =>
      cases hcall
      exact ⟨h.update { ac.flags with disconnecting := true } h.subscribed h.monitoring ac.err
        ac.user ac.ran, rfl, rfl, rfl, rfl, rfl, List.prefix_rfl, fun _ ↦ ⟨rfl, rfl⟩⟩
  | free =>
      cases hcall
      exact ⟨h.update { ac.flags with freeing := true } h.subscribed h.monitoring ac.err
        ac.user ac.ran, rfl, rfl, rfl, rfl, rfl, List.prefix_rfl,
        fun _ ↦ ⟨Bool.or_true _, rfl⟩⟩

theorem Live.runProgram (h : Live st w ac k) {program : Program σ} (hregular : program.Regular)
    (hrun : AsyncContext.runProgram program ac = some ac') : Live st w ac' k ∧ Grows ac ac' := by
  induction program generalizing ac with
  | done user =>
      cases hrun
      exact ⟨h.update ac.flags h.subscribed h.monitoring ac.err user ac.ran,
        rfl, rfl, rfl, rfl, rfl, List.prefix_rfl, fun hc ↦ ⟨hc, rfl⟩⟩
  | call c next ih =>
      obtain ⟨⟨ac₁, ok⟩, hcall, hrest⟩ := Option.bind_eq_some_iff.mp hrun
      obtain ⟨h₁, hgrows₁⟩ := h.callInside hregular.1 hcall
      obtain ⟨h', hgrows⟩ := ih ok h₁ (hregular.2 ok) hrest
      exact ⟨h', hgrows₁.trans hgrows⟩

/-! ## Callbacks -/

variable {handler : Handler σ}

/-- What running a callback leaves as it is. -/
structure Called (ac ac' : AsyncContext σ) : Prop where
  taken : ac'.taken = ac.taken
  freed : ac'.freed = ac.freed
  begins : ac.accepted <+: ac'.accepted
  closing : ac.closing = true → ac'.closing = true ∧ ac'.accepted = ac.accepted

theorem Live.runCallback (hregular : handler.Regular)
    (h : Live st w ac k) {cb : AsyncCallback} {reply : Option ReplyObject}
    (hrun : ac.runCallback handler cb reply = some ac') :
    Live st w ac' k ∧ Called ac ac' ∧ ac'.ran = ac.ran ++ calls [cb] [reply] := by
  unfold AsyncContext.runCallback at hrun
  cases hfn : cb.fn with
  | none =>
      simp only [hfn] at hrun
      cases hrun
      refine ⟨h, ⟨rfl, rfl, List.prefix_rfl, fun hc ↦ ⟨hc, rfl⟩⟩, ?_⟩
      simp [calls, hfn]
  | some fn =>
      simp only [hfn] at hrun
      obtain ⟨ac₁, hprogram, heq⟩ := Option.bind_eq_some_iff.mp hrun
      cases heq
      have hstart := h.update { ac.flags with inCallback := true } h.subscribed
        h.monitoring ac.err ac.user (ac.ran ++ [(cb, reply)])
      obtain ⟨h₁, hgrows⟩ := hstart.runProgram (hregular _ _ _ _) hprogram
      refine ⟨h₁.update { ac₁.flags with inCallback := false } h₁.subscribed h₁.monitoring ac₁.err
        ac₁.user ac₁.ran, ⟨hgrows.taken, hgrows.freed, hgrows.begins, hgrows.closing⟩, ?_⟩
      rw [hgrows.ran]
      simp [calls, hfn]

/-- The first callback is taken from the list. -/
theorem Live.shift (h : Live st w ac k) {cb : AsyncCallback} {replies : List AsyncCallback}
    (hreplies : ac.replies = cb :: replies) :
    Live st w { ac with replies } (k + 1) ∧
      (ac.accepted.map Prod.fst).drop k = cb :: replies := by
  have hdrop : (ac.accepted.map Prod.fst).drop k = cb :: replies := by
    rw [← List.map_drop, ← h.replies, hreplies]
  have hlt : k < ac.accepted.length := by
    have hlen := congrArg List.length hdrop
    rw [List.length_drop, List.length_map, List.length_cons] at hlen
    omega
  refine ⟨⟨h.sound, h.subscribed, h.monitoring, h.invalid, h.channels, h.patterns, ?_, hlt⟩, hdrop⟩
  rw [List.map_drop, ← List.drop_drop, hdrop]
  rfl

theorem Live.eq_length (h : Live st w ac k) (hreplies : ac.replies = []) :
    k = ac.accepted.length := by
  have hlen := congrArg List.length h.replies
  rw [hreplies, List.length_map, List.length_drop, List.length_nil] at hlen
  have hle := h.le
  omega

theorem drainReplies_nil (fuel : ℕ) (hreplies : ac.replies = []) :
    ac.drainReplies handler fuel = some ac := by
  rw [AsyncContext.drainReplies.eq_def, hreplies]

/-- The callbacks that are left run without a reply; they add no command. -/
theorem Live.drainReplies (hregular : handler.Regular)
    {fuel : ℕ} (h : Live st w ac k) (hclosing : ac.closing = true)
    (hrun : ac.drainReplies handler fuel = some ac') :
    Live st w ac' ac.accepted.length ∧ ac'.accepted = ac.accepted ∧ ac'.taken = ac.taken ∧
      ac'.ran = ac.ran ++ calls ((ac.accepted.map Prod.fst).drop k)
        (List.replicate (ac.accepted.length - k) none) := by
  induction hreplies : ac.replies generalizing ac k fuel with
  | nil =>
      rw [drainReplies_nil _ hreplies] at hrun
      cases hrun
      have hk := h.eq_length hreplies
      subst hk
      exact ⟨h, rfl, rfl, by simp [calls]⟩
  | cons cb replies ih =>
      rw [AsyncContext.drainReplies.eq_def, hreplies] at hrun
      cases fuel with
      | zero => cases hrun
      | succ fuel =>
          obtain ⟨ac₁, hcallback, hrest⟩ := Option.bind_eq_some_iff.mp hrun
          obtain ⟨hshift, hdrop⟩ := h.shift hreplies
          obtain ⟨h₁, hcalled, hran₁⟩ := hshift.runCallback hregular hcallback
          obtain ⟨hclosing₁, haccepted₁⟩ := hcalled.closing hclosing
          have hreplies₁ : ac₁.replies = replies := by
            rw [h₁.replies, haccepted₁]
            exact hshift.replies.symm
          obtain ⟨h', haccepted, htaken, hran⟩ := ih h₁ hclosing₁ hrest hreplies₁
          have hdrop₁ : (ac.accepted.map Prod.fst).drop (k + 1) = replies := by
            rw [← List.drop_drop, hdrop]
            rfl
          have hlt : k < ac.accepted.length := hshift.le
          have hsub : ac.accepted.length - k = ac.accepted.length - (k + 1) + 1 := by omega
          have hcons := calls_append (show [cb].length = [none].length from rfl) replies
            (List.replicate (ac.accepted.length - (k + 1)) none)
          rw [haccepted₁] at h' haccepted hran
          refine ⟨h', haccepted, htaken.trans hcalled.taken, ?_⟩
          rw [hran, hran₁, hdrop₁, hdrop, hsub, List.append_assoc, List.replicate_succ]
          exact congrArg (ac.ran ++ ·) hcons.symm

theorem drainInvalid_nil (fuel : ℕ) (hinvalid : ac.invalid = []) :
    ac.drainInvalid handler fuel = some ac := by
  rw [AsyncContext.drainInvalid.eq_def, hinvalid]

/-- The iterator over a table that was never used. -/
theorem drainTable_empty (handler : Handler σ) (ac : AsyncContext σ)
    (callbacks : AsyncContext σ → Dict Text AsyncCallback) (fuel : ℕ)
    (hsize : (callbacks ac).size = 0) :
    drainTable handler callbacks (fuel + 1) Dict.getIterator ac = some ac := by
  have hnext : (callbacks ac).dictNext Dict.getIterator = some (none, ⟨0, none, none⟩) := by
    rw [Dict.dictNext, Dict.nextLoop, Dict.getIterator, hsize]
    rfl
  rw [drainTable, hnext]
  rfl

/-! ## The end of a context -/

/-- The replies `taken` are the first of the server, and each callback has run with its reply, or
where `freed` without one. -/
structure Ran (st : server.State) (ac : AsyncContext σ) : Prop where
  begins : ac.taken <+: server.serveAll st (ac.accepted.map Prod.snd)
  ran : ac.ran = calls (ac.accepted.map Prod.fst) (ac.taken.map some ++
    if ac.freed then List.replicate (ac.accepted.length - ac.taken.length) none else [])

/-- A context between two events. -/
structure Rest (st : server.State) (w : Wire server) (ac : AsyncContext σ) : Prop where
  live : Live st w ac ac.taken.length
  freed : ac.freed = false
  ran : ac.ran = calls (ac.accepted.map Prod.fst) (ac.taken.map some)

theorem Rest.update (h : Rest st w ac) (flags : AsyncFlags) (hsubscribed : flags.subscribed = false)
    (hmonitoring : flags.monitoring = false) (err : Option RedisError) :
    Rest st w { ac with flags, err } :=
  ⟨h.live.update flags hsubscribed hmonitoring err ac.user ac.ran, h.freed, h.ran⟩

theorem Live.begins (h : Live st w ac k) :
    ac.taken <+: server.serveAll st (ac.accepted.map Prod.snd) :=
  h.sound.begins

theorem Rest.asyncFree (hregular : handler.Regular)
    (h : Rest st w ac) (hclosing : ac.closing = true ∨ ac.replies = [])
    (hfree : ac.asyncFree handler = some ac') : Ran st ac' ∧ ac'.freed = true := by
  obtain ⟨ac₁, hreplies, hfree⟩ := Option.bind_eq_some_iff.mp hfree
  have hdrained : Live st w ac₁ ac.accepted.length ∧ ac₁.accepted = ac.accepted ∧
      ac₁.taken = ac.taken ∧ ac₁.ran = ac.ran ++ calls
        ((ac.accepted.map Prod.fst).drop ac.taken.length)
          (List.replicate (ac.accepted.length - ac.taken.length) none) := by
    rcases hclosing with hclosing | hnil
    · exact h.live.drainReplies hregular hclosing hreplies
    · rw [drainReplies_nil _ hnil] at hreplies
      cases hreplies
      have hk := h.live.eq_length hnil
      refine ⟨hk ▸ h.live, rfl, rfl, ?_⟩
      rw [hk, Nat.sub_self]
      simp [calls]
  obtain ⟨h₁, haccepted, htaken, hran⟩ := hdrained
  obtain ⟨ac₂, hinvalid, hfree⟩ := Option.bind_eq_some_iff.mp hfree
  rw [drainInvalid_nil _ h₁.invalid] at hinvalid
  cases hinvalid
  obtain ⟨ac₂, hchannels, hfree⟩ := Option.bind_eq_some_iff.mp hfree
  cases (drainTable_empty handler ac₁ channels _ h₁.channels).symm.trans hchannels
  obtain ⟨ac₂, hpatterns, hfree⟩ := Option.bind_eq_some_iff.mp hfree
  cases (drainTable_empty handler { ac₁ with channels := ac₁.channels.dictClear } patterns _
    h₁.patterns).symm.trans hpatterns
  cases hfree
  refine ⟨⟨h₁.begins, ?_⟩, rfl⟩
  change ac₁.ran = calls (ac₁.accepted.map Prod.fst) (ac₁.taken.map some ++
    List.replicate (ac₁.accepted.length - ac₁.taken.length) none)
  have hle : (ac.taken.map some).length ≤ (ac.accepted.map Prod.fst).length := by
    rw [List.length_map, List.length_map]
    exact h.live.le
  rw [hran, haccepted, htaken, h.ran, calls_more hle, List.length_map]

theorem Rest.asyncDisconnect (hregular : handler.Regular)
    (h : Rest st w ac) (hrun : ac.asyncDisconnect handler = some ac') :
    Ran st ac' ∧ ac'.freed = true := by
  unfold AsyncContext.asyncDisconnect at hrun
  cases herr : ac.c.err with
  | none =>
      simp only [herr] at hrun
      split at hrun
      · rename_i hnil
        exact Rest.asyncFree hregular (h.update ac.flags h.live.subscribed h.live.monitoring none)
          (Or.inr hnil) hrun
      · cases hrun
  | some e =>
      simp only [herr] at hrun
      exact Rest.asyncFree hregular (h.update { ac.flags with disconnecting := true }
        h.live.subscribed h.live.monitoring (some e)) (Or.inl rfl) hrun

/-! ## Replies -/

/-- A context between two events, or a context that was freed. -/
def Good (st : server.State) (w : Wire server) (ac : AsyncContext σ) : Prop :=
  Rest st w ac ∧ ac.c.Drained ∨ Ran st ac ∧ ac.freed = true

/-- The callback of a reply is the first in the list. -/
theorem Rest.chooseCallback (h : Rest st w ac) {c : HiredisContext} {reply : ReplyObject}
    (hsound : (w.view { ac with c, taken := ac.taken ++ [reply] }).Sound st) (cb : AsyncCallback) :
    ∃ first replies,
      { ac with c, taken := ac.taken ++ [reply] }.chooseCallback cb reply =
        some ({ ac with c, taken := ac.taken ++ [reply], replies }, some first) ∧
      Live st w { ac with c, taken := ac.taken ++ [reply], replies } (ac.taken.length + 1) ∧
      (ac.accepted.map Prod.fst).drop ac.taken.length = first :: replies := by
  have hlive := h.live
  have hbegins : ac.taken ++ [reply] <+: server.serveAll st (ac.accepted.map Prod.snd) :=
    hsound.begins
  have hlt : ac.taken.length < ac.accepted.length := by
    have hlen := hbegins.length_le
    rw [ReplyServer.length_serveAll, List.length_map, List.length_append] at hlen
    exact hlen
  have hnew : Live st w { ac with c, taken := ac.taken ++ [reply] } ac.taken.length :=
    ⟨hsound, hlive.subscribed, hlive.monitoring, hlive.invalid, hlive.channels, hlive.patterns,
      hlive.replies, hlive.le⟩
  cases hreplies : ac.replies with
  | nil => exact absurd (h.live.eq_length hreplies) hlt.ne
  | cons first replies =>
      obtain ⟨hshift, hdrop⟩ := hnew.shift hreplies
      refine ⟨first, replies, ?_, hshift, hdrop⟩
      unfold AsyncContext.chooseCallback
      rfl

/-- What a callback with a reply leaves. -/
theorem Rest.answered (hregular : handler.Regular) (h : Rest st w ac) {c : HiredisContext}
    {reply : ReplyObject} {first : AsyncCallback} {replies : List AsyncCallback}
    (hlive : Live st w { ac with c, taken := ac.taken ++ [reply], replies } (ac.taken.length + 1))
    (hdrop : (ac.accepted.map Prod.fst).drop ac.taken.length = first :: replies)
    (hrun : { ac with c, taken := ac.taken ++ [reply], replies }.runCallback handler first
      (some reply) = some ac') : Rest st w ac' := by
  obtain ⟨h', hcalled, hran⟩ := hlive.runCallback hregular hrun
  have htaken : ac'.taken = ac.taken ++ [reply] := hcalled.taken
  obtain ⟨more, hmore⟩ := hcalled.begins
  change ac.accepted ++ more = ac'.accepted at hmore
  have hlen : (ac.taken ++ [reply]).length = ac.taken.length + 1 := by
    rw [List.length_append]
    rfl
  refine ⟨?_, hcalled.freed.trans h.freed, ?_⟩
  · rw [htaken, hlen]
    exact h'
  · have hle : (ac.taken.map some).length ≤ (ac.accepted.map Prod.fst).length := by
      rw [List.length_map, List.length_map]
      exact h.live.le
    have hlt : (ac.taken.map some ++ [some reply]).length ≤ (ac.accepted.map Prod.fst).length := by
      rw [List.length_append, List.length_map, List.length_map]
      exact hlive.le
    have hfirst := calls_append_left (show [some reply].length ≤ [first].length from le_rfl) replies
    rw [List.singleton_append] at hfirst
    rw [hran, htaken, ← hmore, List.map_append, List.map_append, List.map_singleton,
      calls_append_left hlt, calls_more hle, List.length_map, hdrop, hfirst, ← h.ran]

theorem Live.redisGetReplyFromReader (h : Live st w ac k)
    {r : Option (Option ReplyObject) × HiredisContext}
    (hget : ac.c.redisGetReplyFromReader = some r) :
    r.1 ≠ none ∧
      (w.view { ac with c := r.2, taken := ac.taken ++ (r.1.bind id).toList }).Sound st := by
  have hstep : (w.view ac).step (fun format _ ↦ format) .getReply =
      some ((w.view ac).answered r) := congrArg (Option.map (w.view ac).answered) hget
  exact ⟨h.sound.redisGetReplyFromReader_ne hget, Pipeline.step_sound h.sound hstep⟩

theorem Rest.processLoop (hregular : handler.Regular) {fuel : ℕ} {cb : AsyncCallback}
    (h : Rest st w ac) (hrun : ac.processLoop handler fuel cb = some ac') : Good st w ac' := by
  induction fuel generalizing ac cb with
  | zero => cases hrun
  | succ fuel ih =>
      obtain ⟨⟨answer, c⟩, hget, hrun⟩ := Option.bind_eq_some_iff.mp hrun
      obtain ⟨hne, hsound⟩ := h.live.redisGetReplyFromReader hget
      cases answer with
      | none => exact absurd rfl hne
      | some answer =>
          cases answer with
          | none =>
              have hsame : Rest st w { ac with c } := by
                have hlive := h.live
                refine ⟨⟨?_, hlive.subscribed, hlive.monitoring, hlive.invalid, hlive.channels,
                  hlive.patterns, hlive.replies, hlive.le⟩, h.freed, h.ran⟩
                have hnil := hsound
                rw [show (((some none : Option (Option ReplyObject)).bind id).toList) = [] from rfl,
                  List.append_nil] at hnil
                exact hnil
              change (if ac.flags.disconnecting && c.obuf.isEmpty then
                ({ ac with c } : AsyncContext σ).asyncDisconnect handler else
                  if ac.flags.monitoring then _ else _) = _ at hrun
              rw [h.live.monitoring, if_neg Bool.false_ne_true] at hrun
              split at hrun
              · exact Or.inr (hsame.asyncDisconnect hregular hrun)
              · cases hrun
                exact Or.inl ⟨hsame, h.live.sound.drained hget⟩
          | some reply =>
              obtain ⟨first, replies, hchoose, hlive, hdrop⟩ := h.chooseCallback hsound cb
              obtain ⟨⟨ac₁, chosen⟩, hchosen, hrun⟩ := Option.bind_eq_some_iff.mp hrun
              cases hchoose.symm.trans hchosen
              obtain ⟨ac₂, hcallback, hrun⟩ := Option.bind_eq_some_iff.mp hrun
              have hrest := h.answered hregular hlive hdrop hcallback
              split at hrun
              · rename_i hfreeing
                refine Or.inr (hrest.asyncFree hregular (Or.inl ?_) hrun)
                rw [AsyncContext.closing, (Bool.and_eq_true_iff.mp hfreeing).2, Bool.or_true]
              · exact ih hrest hrun

/-! ## Events -/

theorem Rest.setErr (h : Rest st w ac) (err : Option RedisError) :
    Rest st w { ac with c := { ac.c with err } } := by
  have hlive := h.live
  obtain ⟨served, left, new, s, hinv⟩ := hlive.sound
  refine ⟨⟨⟨served, left, new, s, ?_⟩, hlive.subscribed, hlive.monitoring, hlive.invalid,
    hlive.channels, hlive.patterns, hlive.replies, hlive.le⟩, h.freed, h.ran⟩
  exact ⟨hinv.asked, hinv.commands, hinv.sized, hinv.state, hinv.replies, hinv.reader, hinv.bytes⟩

/-- `redisCheckSocketError` was fine, now or before. -/
def connects (ac : AsyncContext σ) : SocketCheck → Bool
  | .connected => true
  | .inProgress _ => ac.flags.connected
  | .failed _ => ac.flags.connected

theorem Rest.connect (hregular : handler.Regular) (h : Rest st w ac) (hdrained : ac.c.Drained)
    {check : SocketCheck} {connected : Bool}
    (hrun : ac.connect handler check = some (ac', connected)) :
    connected = ac.connects check ∧ Good st w ac' ∧
      (connected = true → Rest st w ac' ∧ ac'.c = ac.c ∧ ac'.accepted = ac.accepted ∧
        ac'.taken = ac.taken) := by
  unfold AsyncContext.connect at hrun
  split at hrun
  · rename_i hconnected
    cases hrun
    refine ⟨?_, Or.inl ⟨h, hdrained⟩, fun _ ↦ ⟨h, rfl, rfl, rfl⟩⟩
    cases check <;> simp [connects, hconnected]
  · rename_i hconnected
    cases check with
    | connected =>
        cases hrun
        have hset := h.update { ac.flags with connected := true } h.live.subscribed
          h.live.monitoring ac.err
        exact ⟨rfl, Or.inl ⟨hset, hdrained⟩, fun _ ↦ ⟨hset, rfl, rfl, rfl⟩⟩
    | inProgress text =>
        cases hrun
        exact ⟨by simpa [connects] using hconnected, Or.inl ⟨h.setErr _, hdrained⟩,
          fun hc ↦ by cases hc⟩
    | failed text =>
        obtain ⟨ac₁, hdisconnect, heq⟩ := Option.map_eq_some_iff.mp hrun
        cases heq
        exact ⟨by simpa [connects] using hconnected,
          Or.inr ((h.setErr _).asyncDisconnect hregular hdisconnect), fun hc ↦ by cases hc⟩

theorem Rest.grows (h : Rest st w ac) (hlive : Live st w ac' ac.taken.length)
    (hgrows : Grows ac ac') : Rest st w ac' := by
  obtain ⟨more, hmore⟩ := hgrows.begins
  refine ⟨hgrows.taken ▸ hlive, hgrows.freed.trans h.freed, ?_⟩
  have hle : (ac.taken.map some).length ≤ (ac.accepted.map Prod.fst).length := by
    rw [List.length_map, List.length_map]
    exact h.live.le
  rw [hgrows.ran, hgrows.taken, ← hmore, List.map_append, calls_append_left hle, h.ran]

theorem Rest.callOutside (hregular : handler.Regular) (h : Rest st w ac) (hdrained : ac.c.Drained)
    {c : UserCall} (hc : c.Regular) (hrun : ac.callOutside handler c = some ac') :
    Good st w ac' := by
  cases c with
  | command cb argv =>
      obtain ⟨⟨ac₁, ok⟩, hcommand, rfl⟩ := Option.map_eq_some_iff.mp hrun
      obtain ⟨hlive, hgrows⟩ := h.live.command hc hcommand
      have hdrained₁ : ac₁.c.Drained := by
        rw [HiredisContext.Drained, hgrows.reader]
        exact hdrained
      exact Or.inl ⟨h.grows hlive hgrows, hdrained₁⟩
  | disconnect =>
      have hset := h.update { ac.flags with disconnecting := true } h.live.subscribed
        h.live.monitoring ac.err
      change (if _ then _ else _) = _ at hrun
      split at hrun
      · exact Or.inr (hset.asyncDisconnect hregular hrun)
      · cases hrun
        exact Or.inl ⟨hset, hdrained⟩
  | free =>
      have hset := h.update { ac.flags with freeing := true } h.live.subscribed
        h.live.monitoring ac.err
      change (if _ then _ else _) = _ at hrun
      split at hrun
      · cases hrun
        exact Or.inl ⟨hset, hdrained⟩
      · exact Or.inr (hset.asyncFree hregular (Or.inl (Bool.or_true _)) hrun)

end AsyncContext

/-- An asynchronous connection, with its server and the way between them. -/
structure AsyncNet (server : ReplyServer) (σ : Type) where
  client : AsyncContext σ
  wire : Wire server

namespace AsyncNet

/-- A call from outside of the callbacks, an event of the socket, or a step of the server. -/
inductive Act where
  | call (c : UserCall)
  | readable (check : AsyncContext.SocketCheck) (nread : Except SocketError ℕ)
  | writable (check : AsyncContext.SocketCheck) (nwritten : Except SocketError ℕ)
  | arrive (n : ℕ)
  | serve

variable {server : ReplyServer} {σ : Type}

/-- A context that was freed is not used any more. -/
def enabled (net : AsyncNet server σ) : Act → Prop
  | .call _ => net.client.freed = false
  | .readable _ nread => net.client.freed = false ∧
      ∀ n ∈ nread.toOption, n ≤ net.wire.toClient.length ∧ n ≤ 1024 * 16
  | .writable _ nwritten => net.client.freed = false ∧
      ∀ n ∈ nwritten.toOption, n ≤ net.client.c.obuf.length
  | .arrive _ => True
  | .serve => True

instance (net : AsyncNet server σ) : (a : Act) → Decidable (net.enabled a)
  | .call _ => inferInstanceAs (Decidable (net.client.freed = false))
  | .readable _ nread => inferInstanceAs (Decidable (net.client.freed = false ∧
      ∀ n ∈ nread.toOption, n ≤ net.wire.toClient.length ∧ n ≤ 1024 * 16))
  | .writable _ nwritten => inferInstanceAs (Decidable (net.client.freed = false ∧
      ∀ n ∈ nwritten.toOption, n ≤ net.client.c.obuf.length))
  | .arrive _ => inferInstanceAs (Decidable True)
  | .serve => inferInstanceAs (Decidable True)

/-- The bytes that `recv` takes, where it is called. -/
def received (net : AsyncNet server σ) (check : AsyncContext.SocketCheck)
    (nread : Except SocketError ℕ) : ℕ :=
  if net.client.connects check ∧ net.client.c.err.isNone then nread.toOption.getD 0 else 0

def step (handler : Handler σ) (net : AsyncNet server σ) : Act → Option (AsyncNet server σ)
  | .call c => (net.client.callOutside handler c).map fun client ↦ { net with client }
  | .readable check nread =>
      (net.client.redisAsyncHandleRead handler check
          (nread.map fun n ↦ net.wire.toClient.take n)).map fun client ↦
        { client
          wire := { net.wire with
            toClient := net.wire.toClient.drop (net.received check nread) } }
  | .writable check nwritten =>
      (net.client.redisAsyncHandleWrite handler check nwritten).map fun client ↦
        { client
          wire := { net.wire with
            toServer := if net.client.connects check
              then ((net.wire.view net.client).written nwritten).toServer
              else net.wire.toServer } }
  | .arrive n => some { net with
      wire := { net.wire with
        toServer := net.wire.toServer.drop n, rx := net.wire.rx ++ net.wire.toServer.take n } }
  | .serve => (net.wire.view net.client).serveNext.map fun p ↦
      { net with wire := ⟨p.toServer, p.rx, p.state, p.toClient⟩ }

def system (handler : Handler σ) : System (AsyncNet server σ) Act := ⟨enabled, step handler⟩

/-- The calls give no command that subscribes or monitors. -/
def regular (_ : AsyncNet server σ) : Act → Prop
  | .call c => c.Regular
  | _ => True

instance (handler : Handler σ) (net : AsyncNet server σ) (a : Act) :
    Decidable ((system handler).enabled net a) := inferInstanceAs (Decidable (net.enabled a))

instance (net : AsyncNet server σ) : (a : Act) → Decidable (regular net a)
  | .call c => inferInstanceAs (Decidable c.Regular)
  | .readable _ _ => inferInstanceAs (Decidable True)
  | .writable _ _ => inferInstanceAs (Decidable True)
  | .arrive _ => inferInstanceAs (Decidable True)
  | .serve => inferInstanceAs (Decidable True)

def init (st : server.State) (user : σ) : AsyncNet server σ := ⟨.init user, [], [], st, []⟩

variable {handler : Handler σ} {st : server.State} {net net' : AsyncNet server σ}

open AsyncContext

theorem good_init (user : σ) :
    Good st (init st user).wire (init st user : AsyncNet server σ).client := by
  refine Or.inl ⟨⟨⟨?_, rfl, rfl, rfl, rfl, rfl, rfl, le_rfl⟩, rfl, rfl⟩, ?_⟩
  · exact ⟨[], [], [], [], Pipeline.inv_init false st⟩
  · exact ⟨[], RedisReader.holds_create, rfl⟩

/-- The way between the two may change as the connection does. -/
theorem Good.move {w w' : Wire server} {ac : AsyncContext σ} (h : Good st w ac)
    (hmove : (w.view ac).Sound st → (w'.view ac).Sound st) : Good st w' ac := by
  rcases h with ⟨h, hdrained⟩ | h
  · have hlive := h.live
    exact Or.inl ⟨⟨⟨hmove hlive.sound, hlive.subscribed, hlive.monitoring, hlive.invalid,
      hlive.channels, hlive.patterns, hlive.replies, hlive.le⟩, h.freed, h.ran⟩, hdrained⟩
  · exact Or.inr h

/-- The context and the way to the server after a call of `recv` or `send`. -/
theorem Rest.socket {w w' : Wire server} {ac : AsyncContext σ} (h : Rest st w ac)
    {c : HiredisContext} (hsound : (w'.view { ac with c }).Sound st) :
    Rest st w' { ac with c } := by
  have hlive := h.live
  exact ⟨⟨hsound, hlive.subscribed, hlive.monitoring, hlive.invalid, hlive.channels,
    hlive.patterns, hlive.replies, hlive.le⟩, h.freed, h.ran⟩

theorem serveNext_spec {p p' : Pipeline server} (h : p.serveNext = some p') :
    p' = ⟨p.client, p.asked, p.answers, p'.toServer, p'.rx, p'.state, p'.toClient⟩ := by
  rw [Pipeline.serveNext] at h
  split at h
  · obtain ⟨argv, -, rfl⟩ := Option.map_eq_some_iff.mp h
    rfl
  · cases h
    rfl

theorem step_readable (hregular : handler.Regular) (h : Rest st net.wire net.client)
    (hdrained : net.client.c.Drained) {check : SocketCheck} {nread : Except SocketError ℕ}
    (hstep : net.step handler (.readable check nread) = some net') :
    Good st net'.wire net'.client := by
  obtain ⟨client, hread, rfl⟩ := Option.map_eq_some_iff.mp hstep
  obtain ⟨⟨ac, connected⟩, hconnect, hread⟩ := Option.bind_eq_some_iff.mp hread
  obtain ⟨hconnected, hgood, hrest⟩ := h.connect hregular hdrained hconnect
  cases connected with
  | false =>
      cases hread
      have hreceived : net.received check nread = 0 := by simp [received, ← hconnected]
      simp only [hreceived, List.drop_zero]
      exact hgood
  | true =>
      obtain ⟨hac, hc, -, -⟩ := hrest rfl
      obtain ⟨⟨ok, c⟩, hbuffer, hread⟩ := Option.bind_eq_some_iff.mp hread
      have hnew : Rest st { net.wire with
          toClient := net.wire.toClient.drop (net.received check nread) } { ac with c } := by
        refine Rest.socket hac ?_
        cases nread with
        | error e =>
            have hreceived : net.received check (.error e) = 0 := by
              simp [received, Except.toOption]
            rw [hreceived, List.drop_zero]
            refine Pipeline.step_sound hac.live.sound
              (show (net.wire.view ac).step (fun format _ ↦ format) (.read (.error e)) = _ from ?_)
            exact congrArg (Option.map fun r ↦ { net.wire.view ac with client := r.2 }) hbuffer
        | ok n =>
            have hreceived : net.wire.toClient.drop (net.received check (.ok n)) =
                if ac.c.err.isSome then net.wire.toClient else net.wire.toClient.drop n := by
              rw [received, ← hconnected, ← hc]
              cases ac.c.err <;> rfl
            rw [hreceived]
            refine Pipeline.step_sound hac.live.sound
              (show (net.wire.view ac).step (fun format _ ↦ format) (.read (.ok n)) = _ from ?_)
            exact congrArg (Option.map fun r ↦ { net.wire.view ac with
              client := r.2, toClient := if ac.c.err.isSome then net.wire.toClient
                else net.wire.toClient.drop n }) hbuffer
      change (if ok then _ else _) = _ at hread
      split at hread
      · exact hnew.processLoop hregular hread
      · exact Or.inr (hnew.asyncDisconnect hregular hread)

theorem step_writable (hregular : handler.Regular) (h : Rest st net.wire net.client)
    (hdrained : net.client.c.Drained) {check : SocketCheck} {nwritten : Except SocketError ℕ}
    (hstep : net.step handler (.writable check nwritten) = some net') :
    Good st net'.wire net'.client := by
  obtain ⟨client, hwrite, rfl⟩ := Option.map_eq_some_iff.mp hstep
  obtain ⟨⟨ac, connected⟩, hconnect, hwrite⟩ := Option.bind_eq_some_iff.mp hwrite
  obtain ⟨hconnected, hgood, hrest⟩ := h.connect hregular hdrained hconnect
  rw [← hconnected]
  cases connected with
  | false =>
      cases hwrite
      exact hgood
  | true =>
      obtain ⟨hac, hc, haccepted, htaken⟩ := hrest rfl
      have hview : net.wire.view ac = net.wire.view net.client := by
        rw [Wire.view, Wire.view, hc, haccepted, htaken]
      have hnew : Rest st { net.wire with
          toServer := ((net.wire.view net.client).written nwritten).toServer }
            { ac with c := (ac.c.redisBufferWrite nwritten).2 } := by
        refine Rest.socket hac ?_
        obtain ⟨served, left, new, s, hinv⟩ := hac.live.sound
        have hwritten := Pipeline.step_write hinv nwritten
        rw [← hview]
        exact ⟨served, left, new, s, hwritten⟩
      change (if (ac.c.redisBufferWrite nwritten).1.isSome
        then some ({ ac with c := (ac.c.redisBufferWrite nwritten).2 } : AsyncContext σ)
        else ({ ac with c := (ac.c.redisBufferWrite nwritten).2 } :
          AsyncContext σ).asyncDisconnect handler) = some client at hwrite
      split at hwrite
      · cases hwrite
        refine Or.inl ⟨hnew, ?_⟩
        rw [HiredisContext.Drained]
        dsimp only
        rw [(Pipeline.redisBufferWrite_spec ac.c nwritten).1, hc]
        exact hdrained
      · exact Or.inr (hnew.asyncDisconnect hregular hwrite)

theorem step_good (hregular : handler.Regular) (h : Good st net.wire net.client) {a : Act}
    (henabled : net.enabled a) (ha : regular net a) (hstep : net.step handler a = some net') :
    Good st net'.wire net'.client := by
  have hopen (hfreed : net.client.freed = false) :
      Rest st net.wire net.client ∧ net.client.c.Drained := by
    rcases h with h | ⟨-, hfreed'⟩
    · exact h
    · rw [hfreed] at hfreed'
      cases hfreed'
  cases a with
  | call c =>
      obtain ⟨client, hcall, rfl⟩ := Option.map_eq_some_iff.mp hstep
      obtain ⟨hrest, hdrained⟩ := hopen henabled
      exact hrest.callOutside hregular hdrained ha hcall
  | readable check nread =>
      obtain ⟨hrest, hdrained⟩ := hopen henabled.1
      exact step_readable hregular hrest hdrained hstep
  | writable check nwritten =>
      obtain ⟨hrest, hdrained⟩ := hopen henabled.1
      exact step_writable hregular hrest hdrained hstep
  | arrive n =>
      cases hstep
      refine Good.move h fun hsound ↦ ?_
      exact Pipeline.step_sound hsound
        (show (net.wire.view net.client).step (fun format _ ↦ format) (.arrive n) = some _ from rfl)
  | serve =>
      obtain ⟨p, hserve, rfl⟩ := Option.map_eq_some_iff.mp hstep
      refine Good.move h fun hsound ↦ ?_
      have hp : (net.wire.view net.client).step (fun format _ ↦ format) .serve = some p := hserve
      have hview : (⟨p.toServer, p.rx, p.state, p.toClient⟩ : Wire server).view net.client = p := by
        rw [Wire.view]
        exact (serveNext_spec hserve).symm
      rw [hview]
      exact Pipeline.step_sound hsound hp

/-- No byte is on its way, and the server has no command to serve. -/
structure Still (net : AsyncNet server σ) : Prop where
  obuf : net.client.c.obuf = []
  toServer : net.wire.toServer = []
  rx : replies.parse net.wire.rx = .more
  toClient : net.wire.toClient = []

theorem Still.quiet (h : net.Still) (hdrained : net.client.c.Drained) :
    (net.wire.view net.client).Quiet :=
  ⟨h.obuf, h.toServer, h.rx, h.toClient, hdrained.getReply⟩

/-- However the application calls the library, from its callbacks too, and whatever the socket
does: the callbacks run in the order of their commands, each once and with the reply of the server
to its command, or without one where the context was freed before the reply came.  A context that
was not freed has taken every reply that has arrived. -/
theorem callbacks_in_order (hregular : handler.Regular) (user : σ) {acts : List Act}
    (hacts : (@system server σ handler).Allowed regular (init st user) acts)
    (hrun : (system handler).run (init st user) acts = some net) :
    net.client.taken <+: server.serveAll st (net.client.accepted.map Prod.snd) ∧
      net.client.ran = calls (net.client.accepted.map Prod.fst) (net.client.taken.map some ++
        if net.client.freed
        then List.replicate (net.client.accepted.length - net.client.taken.length) none else []) ∧
      (net.client.freed = false →
        (∃ c, net.client.c.redisGetReplyFromReader = some (some none, c)) ∧
          (net.Still →
            net.client.taken = server.serveAll st (net.client.accepted.map Prod.snd))) := by
  have h := System.invariant_of_run (I := fun net ↦ Good st net.wire net.client)
    (fun _ _ _ h henabled ha hstep ↦ step_good hregular h henabled ha hstep) (good_init user)
    hacts hrun
  rcases h with ⟨h, hdrained⟩ | ⟨h, hfreed⟩
  · refine ⟨h.live.begins, ?_, fun _ ↦ ⟨hdrained.getReply, fun hstill ↦
      h.live.sound.answers_of_quiet (hstill.quiet hdrained)⟩⟩
    rw [h.freed, if_neg Bool.false_ne_true, List.append_nil]
    exact h.ran
  · refine ⟨h.begins, h.ran, fun hopen ↦ ?_⟩
    rw [hfreed] at hopen
    cases hopen

/-- The first callback gives one more command. -/
def sampleHandler : Handler ℕ := fun _ _ _ user ↦
  if user = 0 then .call (.command ⟨some 2, 0⟩ [lit "GET", lit "k"]) fun _ ↦ .done 1
  else .done (user + 1)

theorem sampleHandler_regular : sampleHandler.Regular := by
  intro fn privdata reply user
  unfold sampleHandler
  split
  · exact ⟨by decide +kernel, fun _ ↦ trivial⟩
  · trivial

/-- The context is freed before the reply to the second command. -/
def sampleActs : List Act :=
  [.call (.command ⟨some 1, 7⟩ [lit "SET", lit "k", lit "v"]), .writable .connected (.ok 20),
    .writable .connected (.ok 7), .arrive 27, .serve, .readable .connected (.ok 3),
    .readable .connected (.ok 2), .call .free]

def sampleInit : AsyncNet Pipeline.okServer ℕ := init () 0

theorem callbacks_in_order_sampleActs :
    ∃ net, (system sampleHandler).run sampleInit sampleActs = some net ∧
      (net.client.taken <+: Pipeline.okServer.serveAll () (net.client.accepted.map Prod.snd) ∧
        net.client.ran = calls (net.client.accepted.map Prod.fst) (net.client.taken.map some ++
          if net.client.freed
          then List.replicate (net.client.accepted.length - net.client.taken.length) none else []) ∧
        (net.client.freed = false →
          (∃ c, net.client.c.redisGetReplyFromReader = some (some none, c)) ∧
            (net.Still → net.client.taken =
              Pipeline.okServer.serveAll () (net.client.accepted.map Prod.snd)))) := by
  have hrun : ((system sampleHandler).run sampleInit sampleActs).isSome := by decide +kernel
  obtain ⟨net, hnet⟩ := Option.isSome_iff_exists.mp hrun
  exact ⟨net, hnet, callbacks_in_order sampleHandler_regular 0 (by decide +kernel) hnet⟩

end AsyncNet

end Redis

end Slience
