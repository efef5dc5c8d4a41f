import Slience.Lib.Run
import Slience.Redis.Hiredis

/-!
# Pipelining

Commands may be appended to a connection before the replies to earlier ones were taken.  The
connection, the bytes under way in both directions and the server are one system, whose steps come
in any order: the socket takes and gives any part of what is there, or fails.  The replies are
those of the server to the commands, in their order.
-/

namespace Slience

namespace Redis

/-- A server that answers each command with a reply that can be encoded. -/
structure ReplyServer where
  State : Type
  serve : State → List Text → State × ReplyObject
  encodes (st : State) (argv : List Text) : (encode 8 (serve st argv).2).isSome

/-- The arguments of an array of strings. -/
def ReplyObject.arguments : ReplyObject → Option (List Text)
  | .array _ element => element.mapM fun
      | some (.string .string arg) => some arg
      | _ => none
  | _ => none

/-- The encoding of a reply that has one. -/
def ReplyObject.bytes (o : ReplyObject) : Text := (encode 8 o).getD []

namespace ReplyServer

variable (server : ReplyServer)

def stateAfter (st : server.State) (commands : List (List Text)) : server.State :=
  commands.foldl (fun st argv ↦ (server.serve st argv).1) st

/-- The replies to commands that come one after the other. -/
def serveAll (st : server.State) : List (List Text) → List ReplyObject
  | [] => []
  | argv :: commands =>
      (server.serve st argv).2 :: serveAll (server.serve st argv).1 commands

variable {server}

theorem serveAll_append (st : server.State) (xs ys : List (List Text)) :
    server.serveAll st (xs ++ ys) =
      server.serveAll st xs ++ server.serveAll (server.stateAfter st xs) ys := by
  induction xs generalizing st with
  | nil => rfl
  | cons argv xs ih => rw [List.cons_append, serveAll, serveAll, ih]; rfl

theorem length_serveAll (st : server.State) (xs : List (List Text)) :
    (server.serveAll st xs).length = xs.length := by
  induction xs generalizing st with
  | nil => rfl
  | cons argv xs ih => rw [serveAll, List.length_cons, List.length_cons, ih]

theorem stateAfter_concat (st : server.State) (xs : List (List Text)) (argv : List Text) :
    server.stateAfter st (xs ++ [argv]) = (server.serve (server.stateAfter st xs) argv).1 := by
  rw [stateAfter, List.foldl_append]
  rfl

theorem encode_serveAll {st : server.State} {commands : List (List Text)} {o : ReplyObject}
    (h : o ∈ server.serveAll st commands) : encode 8 o = some o.bytes := by
  induction commands generalizing st with
  | nil => cases h
  | cons argv commands ih =>
      rcases List.mem_cons.mp h with rfl | h
      · obtain ⟨t, ht⟩ := Option.isSome_iff_exists.mp (server.encodes st argv)
        rw [ReplyObject.bytes, ht]
        rfl
      · exact ih h

end ReplyServer

/-- A connection with its server: what was asked and answered, the bytes on the way, those that the
server has not served yet, and its state. -/
structure Pipeline (server : ReplyServer) where
  client : HiredisContext
  asked : List (List Text)
  answers : List ReplyObject
  toServer : Text
  rx : Text
  state : server.State
  toClient : Text

namespace Pipeline

/-- The steps.  `send` takes a number of bytes and `recv` gives one, or they fail. -/
inductive Act where
  | appendArgv (argv : List Text)
  | append (format : Text) (ap : List VaArg)
  | write (nwritten : Except SocketError ℕ)
  | read (nread : Except SocketError ℕ)
  | getReply
  | arrive (n : ℕ)
  | serve

variable {server : ReplyServer}

def enabled (p : Pipeline server) : Act → Prop
  | .write (.ok n) => n ≤ p.client.obuf.length
  | .read (.ok n) => n ≤ p.toClient.length ∧ n ≤ 1024 * 16
  | _ => True

instance (p : Pipeline server) : (a : Act) → Decidable (p.enabled a)
  | .appendArgv _ => inferInstanceAs (Decidable True)
  | .append _ _ => inferInstanceAs (Decidable True)
  | .write (.ok n) => inferInstanceAs (Decidable (n ≤ p.client.obuf.length))
  | .write (.error _) => inferInstanceAs (Decidable True)
  | .read (.ok n) => inferInstanceAs (Decidable (n ≤ p.toClient.length ∧ n ≤ 1024 * 16))
  | .read (.error _) => inferInstanceAs (Decidable True)
  | .getReply => inferInstanceAs (Decidable True)
  | .arrive _ => inferInstanceAs (Decidable True)
  | .serve => inferInstanceAs (Decidable True)

/-- The server takes a command that is complete. -/
def serveNext (p : Pipeline server) : Option (Pipeline server) :=
  match replies.parse p.rx with
  | .done o rest =>
      o.arguments.map fun argv ↦
        { p with
          rx := rest, state := (server.serve p.state argv).1,
          toClient := p.toClient ++ (server.serve p.state argv).2.bytes }
  | _ => some p

/-- The bytes that the socket took are on their way. -/
def written (p : Pipeline server) (nwritten : Except SocketError ℕ) : Pipeline server :=
  let client := (p.client.redisBufferWrite nwritten).2
  { p with
    client
    toServer := p.toServer ++ p.client.obuf.take (p.client.obuf.length - client.obuf.length) }

/-- A reply that was taken from the reader. -/
def answered (p : Pipeline server) (r : Option (Option ReplyObject) × HiredisContext) :
    Pipeline server :=
  { p with client := r.2, answers := p.answers ++ (r.1.bind id).toList }

def step (printf : Text → VaArg → Text) (p : Pipeline server) : Act → Option (Pipeline server)
  | .appendArgv argv =>
      (p.client.redisAppendCommandArgv argv).map fun client ↦
        { p with client, asked := p.asked ++ [argv] }
  | .append format ap =>
      (p.client.redisvAppendCommand printf format ap).map fun (argv, client) ↦
        { p with client, asked := p.asked ++ argv.toList }
  | .write nwritten => some (p.written nwritten)
  | .read nread =>
      (p.client.redisBufferRead (nread.map fun n ↦ p.toClient.take n)).map fun (_, client) ↦
        match nread with
        | .ok n =>
            { p with client, toClient := if p.client.err.isSome then p.toClient
                else p.toClient.drop n }
        | .error _ => { p with client }
  | .getReply => p.client.redisGetReplyFromReader.map p.answered
  | .arrive n => some { p with toServer := p.toServer.drop n, rx := p.rx ++ p.toServer.take n }
  | .serve => p.serveNext

def system (printf : Text → VaArg → Text) : System (Pipeline server) Act := ⟨enabled, step printf⟩

instance (printf : Text → VaArg → Text) (p : Pipeline server) (a : Act) :
    Decidable ((system printf).enabled p a) :=
  inferInstanceAs (Decidable (p.enabled a))

/-- A new connection. -/
def init (block : Bool) (st : server.State) : Pipeline server :=
  ⟨.init block, [], [], [], [], st, []⟩

/-- No byte is on its way, the server has no command to serve, and the reader has no reply. -/
structure Quiet (p : Pipeline server) : Prop where
  obuf : p.client.obuf = []
  toServer : p.toServer = []
  rx : replies.parse p.rx = .more
  toClient : p.toClient = []
  reader : ∃ c, p.client.redisGetReplyFromReader = some (some none, c)

/-- `served` are the commands that the server has taken, `left` those on their way to it; `new` are
the replies on their way back, and `s` is what the reader has of them. -/
structure Inv (st : server.State) (p : Pipeline server) (served left : List (List Text))
    (new : List ReplyObject) (s : Text) : Prop where
  asked : p.asked = served ++ left
  commands : p.rx ++ p.toServer ++ p.client.obuf = left.flatMap commandImage
  sized : ∀ argv ∈ left, totlen argv < 2 ^ 31
  state : p.state = server.stateAfter st served
  replies : server.serveAll st served = p.answers ++ new
  reader : p.client.reader.Holds s
  bytes : s ++ p.toClient = new.flatMap ReplyObject.bytes

variable {st : server.State} {p : Pipeline server} {served left : List (List Text)}
  {new : List ReplyObject} {s : Text}

theorem inv_init (block : Bool) (st : server.State) : (init block st).Inv st [] [] [] [] :=
  ⟨rfl, rfl, by simp, rfl, rfl, RedisReader.holds_create, rfl⟩

theorem parse_bytes (h : p.Inv st served left new s) {o : ReplyObject} (ho : o ∈ new) (t : Text) :
    Redis.replies.parse (o.bytes ++ t) = .done o t := by
  have hmem : o ∈ server.serveAll st served := by
    rw [h.replies]
    exact List.mem_append_right _ ho
  exact parseItem_encode (ReplyServer.encode_serveAll hmem) t

theorem arguments_commandReply (argv : List Text) : (commandReply argv).arguments = some argv := by
  rw [commandReply, ReplyObject.arguments]
  induction argv with
  | nil => rfl
  | cons arg argv ih =>
      rw [List.map_cons, List.map_cons, List.mapM_cons, ih]
      rfl

theorem parse_commandImage {argv : List Text} (h : totlen argv < 2 ^ 31) (t : Text) :
    Redis.replies.parse (commandImage argv ++ t) = .done (commandReply argv) t :=
  parseItem_encode (encode_commandReply h 7) t

/-- What the reader says: it has no reply yet, or the one to the first command that is not
answered. -/
theorem parse_reader (h : p.Inv st served left new s) :
    Redis.replies.parse s = .more ∨ ∃ o new' rest, new = o :: new' ∧
      Redis.replies.parse s = .done o rest ∧
        rest ++ p.toClient = new'.flatMap ReplyObject.bytes := by
  cases hnew : new with
  | nil =>
      have hs : s = [] := by
        have hbytes := h.bytes
        rw [hnew, List.flatMap_nil] at hbytes
        exact (List.append_eq_nil_iff.mp hbytes).1
      rw [hs]
      exact Or.inl rfl
  | cons o new' =>
      have hparse := parse_bytes h (hnew ▸ List.mem_cons_self) (new'.flatMap ReplyObject.bytes)
      have hbytes := h.bytes
      rw [hnew, List.flatMap_cons] at hbytes
      rw [← hbytes] at hparse
      rcases Incremental.parse_of_append hparse with hmore | ⟨rest, hdone, hrest⟩
      · exact Or.inl hmore
      · exact Or.inr ⟨o, new', rest, rfl, hdone, hrest⟩

theorem appendCommand_spec {c c' : HiredisContext} {cmd : Text}
    (h : c.appendCommand cmd = some c') : c' = { c with obuf := c.obuf ++ cmd } := by
  rw [HiredisContext.appendCommand] at h
  split at h
  · cases h
    rfl
  · cases h

theorem redisBufferWrite_spec (c : HiredisContext) (nwritten : Except SocketError ℕ) :
    (c.redisBufferWrite nwritten).2.reader = c.reader ∧
      c.obuf.take (c.obuf.length - (c.redisBufferWrite nwritten).2.obuf.length) ++
        (c.redisBufferWrite nwritten).2.obuf = c.obuf := by
  have hsame (c' : HiredisContext) (h : c'.obuf = c.obuf) :
      c.obuf.take (c.obuf.length - c'.obuf.length) ++ c'.obuf = c.obuf := by
    rw [h, Nat.sub_self]
    rfl
  unfold HiredisContext.redisBufferWrite
  split
  · exact ⟨rfl, hsame c rfl⟩
  · split
    · exact ⟨rfl, hsame c rfl⟩
    · split
      · split
        · exact ⟨rfl, hsame c rfl⟩
        · exact ⟨rfl, hsame _ rfl⟩
      · rename_i n
        refine ⟨rfl, ?_⟩
        change c.obuf.take (c.obuf.length - (c.obuf.drop n).length) ++ c.obuf.drop n = c.obuf
        rw [List.length_drop]
        rcases Nat.lt_or_ge c.obuf.length n with hn | hn
        · rw [List.drop_of_length_le hn.le, List.append_nil, List.take_of_length_le (by omega)]
        · rw [Nat.sub_sub_self hn, List.take_append_drop]

theorem redisBufferRead_spec {c c' : HiredisContext} {received : Except SocketError Text}
    {ok : Bool} (h : c.redisBufferRead received = some (ok, c')) :
    c'.obuf = c.obuf ∧ (c'.reader = c.reader ∧ (c.err = none → ∀ t, received = .ok t → t = []) ∨
      c.err = none ∧ ∃ t, received = .ok t ∧
        RedisReader.receiver.feed c.reader t = some c'.reader) := by
  unfold HiredisContext.redisBufferRead at h
  split at h
  · rename_i herr
    cases h
    refine ⟨rfl, Or.inl ⟨rfl, ?_⟩⟩
    intro hnone
    rw [hnone] at herr
    cases herr
  · rename_i herr
    split at h
    · split at h <;> cases h <;> exact ⟨rfl, Or.inl ⟨rfl, fun _ t ht ↦ by cases ht⟩⟩
    · cases h
      refine ⟨rfl, Or.inl ⟨rfl, fun _ t ht ↦ ?_⟩⟩
      cases ht
      rfl
    · rename_i t hne
      obtain ⟨⟨ok', reader⟩, hfeed, hc⟩ := Option.map_eq_some_iff.mp h
      have hreader : RedisReader.receiver.feed c.reader t = some reader := by
        change (c.reader.feed t).map Prod.snd = some reader
        rw [hfeed]
        rfl
      have hnone : c.err = none := by
        cases hc : c.err with
        | none => rfl
        | some e => exact absurd (by rw [hc]; rfl) herr
      cases herr' : reader.err with
      | none =>
          simp only [herr'] at hc
          cases hc
          exact ⟨rfl, Or.inr ⟨hnone, t, rfl, hreader⟩⟩
      | some e =>
          simp only [herr'] at hc
          cases hc
          exact ⟨rfl, Or.inr ⟨hnone, t, rfl, hreader⟩⟩

/-- What a connection answers to a request for a reply. -/
theorem redisGetReplyFromReader_spec (h : p.Inv st served left new s) :
    (∃ c, p.client.redisGetReplyFromReader = some (some none, c) ∧ c.obuf = p.client.obuf ∧
        c.reader.Holds s ∧ Redis.replies.parse s = .more) ∨
      ∃ o new' rest c, new = o :: new' ∧
        p.client.redisGetReplyFromReader = some (some (some o), c) ∧ c.obuf = p.client.obuf ∧
          c.reader.Holds rest ∧ rest ++ p.toClient = new'.flatMap ReplyObject.bytes := by
  rcases parse_reader h with hmore | ⟨o, new', rest, hnew, hdone, hrest⟩
  · rcases RedisReader.getReply_of_holds h.reader
      (by rw [show parseItem 8 s = _ from hmore]; exact fun h ↦ by cases h) with
      ⟨r', hget, -, h'⟩ | ⟨o, rest, r', -, hs, -, -⟩ | ⟨e, r', -, hs, -⟩
    · refine Or.inl ⟨{ p.client with reader := r' }, ?_, rfl, h', hmore⟩
      rw [HiredisContext.redisGetReplyFromReader, hget]
      rfl
    · cases hmore.symm.trans hs
    · cases hmore.symm.trans hs
  · rcases RedisReader.getReply_of_holds h.reader
      (by rw [show parseItem 8 s = _ from hdone]; exact fun h ↦ by cases h) with
      ⟨r', -, hs, -⟩ | ⟨o', rest', r', hget, hs, h', -⟩ | ⟨e, r', -, hs, -⟩
    · cases hdone.symm.trans hs
    · cases hdone.symm.trans hs
      refine Or.inr ⟨o, new', rest, { p.client with reader := r' }, hnew, ?_, rfl, h', hrest⟩
      rw [HiredisContext.redisGetReplyFromReader, hget]
      rfl
    · cases hdone.symm.trans hs

/-- The system keeps to the invariant. -/
def Sound (st : server.State) (p : Pipeline server) : Prop :=
  ∃ served left new s, p.Inv st served left new s

theorem totlen_of_sds {argv : List Text} {cmd : Text}
    (h : redisFormatSdsCommandArgv argv = some cmd) : totlen argv < 2 ^ 31 := by
  rw [redisFormatSdsCommandArgv] at h
  split at h
  · rename_i hlen
    exact hlen.2
  · cases h

theorem totlen_of_format {argv : List Text} {cmd : Text}
    (h : redisFormatCommandArgv argv = some cmd) : totlen argv < 2 ^ 31 := by
  rw [redisFormatCommandArgv] at h
  split at h
  · assumption
  · cases h

/-- A command is appended. -/
theorem Inv.append (h : p.Inv st served left new s) {argv : List Text}
    (hsize : totlen argv < 2 ^ 31) {client : HiredisContext}
    (hclient : p.client.appendCommand (commandImage argv) = some client) :
    ({ p with client, asked := p.asked ++ [argv] } : Pipeline server).Inv st served
      (left ++ [argv]) new s := by
  have hc := appendCommand_spec hclient
  subst hc
  refine ⟨?_, ?_, ?_, h.state, h.replies, h.reader, h.bytes⟩
  · rw [← List.append_assoc, ← h.asked]
  · rw [List.flatMap_append, ← h.commands]
    simp only [List.append_assoc, List.flatMap_cons, List.flatMap_nil, List.append_nil]
  · intro a ha
    rcases List.mem_append.mp ha with ha | ha
    · exact h.sized a ha
    · rw [List.mem_singleton.mp ha]
      exact hsize

theorem step_append (h : p.Inv st served left new s) {printf : Text → VaArg → Text} {format : Text}
    {ap : List VaArg} {p' : Pipeline server} (hstep : p.step printf (.append format ap) = some p') :
    p'.Sound st := by
  obtain ⟨⟨argv, client⟩, hc, rfl⟩ := Option.map_eq_some_iff.mp hstep
  obtain ⟨⟨argv', ap'⟩, -, hc⟩ := Option.bind_eq_some_iff.mp hc
  cases argv' with
  | none =>
      cases hc
      refine ⟨served, left, new, s, ?_, h.commands, h.sized, h.state, h.replies, h.reader, h.bytes⟩
      rw [← h.asked]
      exact List.append_nil _
  | some argv' =>
      obtain ⟨cmd, hcmd, hc⟩ := Option.bind_eq_some_iff.mp hc
      obtain ⟨c, happend, hc⟩ := Option.bind_eq_some_iff.mp hc
      cases hc
      have hsize := totlen_of_format hcmd
      rw [redisFormatCommandArgv_eq hsize] at hcmd
      cases hcmd
      exact ⟨served, left ++ [argv'], new, s, h.append hsize happend⟩

theorem step_appendArgv (h : p.Inv st served left new s) {printf : Text → VaArg → Text}
    {argv : List Text} {p' : Pipeline server} (hstep : p.step printf (.appendArgv argv) = some p') :
    p'.Sound st := by
  obtain ⟨client, hc, rfl⟩ := Option.map_eq_some_iff.mp hstep
  obtain ⟨cmd, hcmd, happend⟩ := Option.bind_eq_some_iff.mp hc
  have hsize := totlen_of_sds hcmd
  rw [redisFormatSdsCommandArgv_eq hsize] at hcmd
  cases hcmd
  exact ⟨served, left ++ [argv], new, s, h.append hsize happend⟩

theorem step_write (h : p.Inv st served left new s) (nwritten : Except SocketError ℕ) :
    (p.written nwritten).Inv st served left new s := by
  obtain ⟨hreader, hobuf⟩ := redisBufferWrite_spec p.client nwritten
  refine ⟨h.asked, ?_, h.sized, h.state, h.replies, ?_, h.bytes⟩
  · rw [← h.commands, written]
    simp only [List.append_assoc, hobuf]
  · rw [written]
    simp only [hreader]
    exact h.reader

theorem step_read (h : p.Inv st served left new s) {printf : Text → VaArg → Text}
    {nread : Except SocketError ℕ} {p' : Pipeline server}
    (hstep : p.step printf (.read nread) = some p') : p'.Sound st := by
  obtain ⟨⟨ok, client⟩, hc, rfl⟩ := Option.map_eq_some_iff.mp hstep
  obtain ⟨hobuf, hread⟩ := redisBufferRead_spec hc
  have hcommands : p.rx ++ p.toServer ++ client.obuf = left.flatMap commandImage := by
    rw [hobuf, h.commands]
  cases nread with
  | error e =>
      rcases hread with ⟨hreader, -⟩ | ⟨-, t, ht, -⟩
      · exact ⟨served, left, new, s, h.asked, hcommands, h.sized, h.state, h.replies,
          hreader ▸ h.reader, h.bytes⟩
      · cases ht
  | ok n =>
      rcases hread with ⟨hreader, hnil⟩ | ⟨herr, t, ht, hfeed⟩
      · refine ⟨served, left, new, s, h.asked, hcommands, h.sized, h.state, h.replies,
          hreader ▸ h.reader, ?_⟩
        rw [← h.bytes]
        cases herr : p.client.err with
        | some e => simp
        | none =>
            have htake : p.toClient.take n = [] := hnil herr _ rfl
            have hdrop := List.take_append_drop n p.toClient
            rw [htake, List.nil_append] at hdrop
            simp [hdrop]
      · cases ht
        refine ⟨served, left, new, s ++ p.toClient.take n, h.asked, hcommands, h.sized, h.state,
          h.replies, RedisReader.feed_holds _ h.reader hfeed, ?_⟩
        rw [← h.bytes, herr]
        simp [List.append_assoc]

theorem step_getReply (h : p.Inv st served left new s) {printf : Text → VaArg → Text}
    {p' : Pipeline server} (hstep : p.step printf .getReply = some p') : p'.Sound st := by
  obtain ⟨r, hr, rfl⟩ := Option.map_eq_some_iff.mp hstep
  rcases redisGetReplyFromReader_spec h with ⟨c, hget, hobuf, hreader, -⟩ |
    ⟨o, new', rest, c, rfl, hget, hobuf, hreader, hrest⟩
  · rw [hget] at hr
    cases hr
    refine ⟨served, left, new, s, h.asked, ?_, h.sized, h.state, ?_, hreader, h.bytes⟩
    · exact (congrArg _ hobuf).trans h.commands
    · rw [h.replies, answered]
      simp
  · rw [hget] at hr
    cases hr
    refine ⟨served, left, new', rest, h.asked, ?_, h.sized, h.state, ?_, hreader, hrest⟩
    · exact (congrArg _ hobuf).trans h.commands
    · rw [h.replies, answered]
      simp

theorem step_serve (h : p.Inv st served left new s) {p' : Pipeline server}
    (hstep : p.serveNext = some p') : p'.Sound st := by
  rw [serveNext] at hstep
  split at hstep
  · rename_i o rest hdone
    obtain ⟨argv, hargv, rfl⟩ := Option.map_eq_some_iff.mp hstep
    cases hleft : left with
    | nil =>
        have hcommands := h.commands
        rw [hleft, List.flatMap_nil, List.append_assoc] at hcommands
        rw [(List.append_eq_nil_iff.mp hcommands).1] at hdone
        cases hdone
    | cons argv' left' =>
        have hcommands := h.commands
        rw [hleft, List.flatMap_cons, List.append_assoc] at hcommands
        have hparse := parse_commandImage (h.sized argv' (hleft ▸ List.mem_cons_self))
          (left'.flatMap commandImage)
        rw [← hcommands] at hparse
        rcases Incremental.parse_of_append hparse with hmore | ⟨rest', hdone', hrest⟩
        · cases hmore.symm.trans hdone
        · cases hdone'.symm.trans hdone
          rw [arguments_commandReply] at hargv
          cases hargv
          refine ⟨served ++ [argv], left', new ++ [(server.serve p.state argv).2], s,
            ?_, ?_, ?_, ?_, ?_, h.reader, ?_⟩
          · rw [h.asked, hleft, List.append_assoc]
            rfl
          · rw [← hrest, ← List.append_assoc]
          · intro a ha
            exact h.sized a (hleft ▸ List.mem_cons_of_mem argv ha)
          · rw [ReplyServer.stateAfter_concat, ← h.state]
          · rw [ReplyServer.serveAll_append, h.replies, ← h.state, List.append_assoc]
            rfl
          · rw [← List.append_assoc, h.bytes, List.flatMap_append, List.flatMap_singleton]
  · cases hstep
    exact ⟨served, left, new, s, h⟩

theorem step_sound {printf : Text → VaArg → Text} {a : Act} {p' : Pipeline server}
    (h : p.Sound st) (hstep : p.step printf a = some p') : p'.Sound st := by
  obtain ⟨served, left, new, s, h⟩ := h
  cases a with
  | appendArgv argv => exact step_appendArgv h hstep
  | append format ap => exact step_append h hstep
  | write nwritten =>
      cases hstep
      exact ⟨served, left, new, s, step_write h nwritten⟩
  | read nread => exact step_read h hstep
  | getReply => exact step_getReply h hstep
  | arrive n =>
      cases hstep
      refine ⟨served, left, new, s, h.asked, ?_, h.sized, h.state, h.replies, h.reader, h.bytes⟩
      rw [← h.commands]
      simp only [List.append_assoc]
      rw [← List.append_assoc (p.toServer.take n), List.take_append_drop]
  | serve => exact step_serve h hstep

theorem run_sound {printf : Text → VaArg → Text} (block : Bool) {acts : List Act}
    (hacts : (@system server printf).Allowed System.anyStep (init block st) acts)
    (hrun : (system printf).run (init block st) acts = some p) : p.Sound st :=
  System.invariant_of_run (I := Sound st) (fun _ _ _ h _ _ hstep ↦ step_sound h hstep)
    ⟨[], [], [], [], inv_init block st⟩ hacts hrun

theorem Sound.begins (h : p.Sound st) : p.answers <+: server.serveAll st p.asked := by
  obtain ⟨served, left, new, s, h⟩ := h
  rw [h.asked, ReplyServer.serveAll_append, h.replies, List.append_assoc]
  exact List.prefix_append _ _

theorem Sound.redisGetReplyFromReader_ne (h : p.Sound st)
    {r : Option (Option ReplyObject) × HiredisContext}
    (hr : p.client.redisGetReplyFromReader = some r) : r.1 ≠ none := by
  obtain ⟨served, left, new, s, h⟩ := h
  intro hnone
  rcases redisGetReplyFromReader_spec h with ⟨c, hget, -⟩ | ⟨o, new', rest, c, -, hget, -⟩
  · rw [hget] at hr
    cases hr
    cases hnone
  · rw [hget] at hr
    cases hr
    cases hnone

theorem Sound.answers_of_quiet (h : p.Sound st) (hquiet : p.Quiet) :
    p.answers = server.serveAll st p.asked := by
  obtain ⟨served, left, new, s, h⟩ := h
  have hleft : left = [] := by
    cases hl : left with
    | nil => rfl
    | cons argv left' =>
        have hcommands := h.commands
        rw [hquiet.toServer, hquiet.obuf, List.append_nil, List.append_nil, hl,
          List.flatMap_cons] at hcommands
        have hmore := hquiet.rx
        rw [hcommands, parse_commandImage (h.sized argv (hl ▸ List.mem_cons_self))] at hmore
        cases hmore
  have hnew : new = [] := by
    obtain ⟨c', hc'⟩ := hquiet.reader
    rcases redisGetReplyFromReader_spec h with ⟨c, hget, -, -, hmore⟩ |
      ⟨o, new', rest, c, -, hget, -⟩
    · cases hn : new with
      | nil => rfl
      | cons o new' =>
          have hbytes := h.bytes
          rw [hquiet.toClient, List.append_nil, hn, List.flatMap_cons] at hbytes
          have hdone := parse_bytes h (hn ▸ List.mem_cons_self)
            (new'.flatMap ReplyObject.bytes)
          rw [← hbytes, hmore] at hdone
          cases hdone
    · rw [hc'] at hget
      cases hget
  rw [h.asked, hleft, List.append_nil, h.replies, hnew, List.append_nil]

/-- The replies of a connection are those of the server to its commands, in their order: none is
lost, doubled or given to another command, however the socket cuts the bytes and whatever fails.
When nothing is on its way, every command is answered. -/
theorem answers_in_order {printf : Text → VaArg → Text} (block : Bool) {acts : List Act}
    (hacts : (@system server printf).Allowed System.anyStep (init block st) acts)
    (hrun : (system printf).run (init block st) acts = some p) :
    p.answers <+: server.serveAll st p.asked ∧
      (∀ r, p.client.redisGetReplyFromReader = some r → r.1 ≠ none) ∧
        (p.Quiet → p.answers = server.serveAll st p.asked) :=
  have h := run_sound block hacts hrun
  ⟨h.begins, fun _ hr ↦ h.redisGetReplyFromReader_ne hr, h.answers_of_quiet⟩

/-- A server to which every command is fine. -/
def okServer : ReplyServer where
  State := Unit
  serve _ _ := ((), .string .status (lit "OK"))
  encodes _ _ := by decide +kernel

/-- Two commands at once; what is on the way is cut inside of them. -/
def sampleActs : List Act :=
  [.appendArgv [lit "SET", lit "k", lit "v"], .append (lit "GET k") [], .write (.ok 10),
    .arrive 10, .serve, .write (.ok 37), .arrive 37, .serve, .read (.ok 3), .getReply, .serve,
    .read (.ok 7), .getReply, .getReply]

def sampleInit : Pipeline okServer := init true ()

theorem answers_in_order_sampleActs :
    ∃ p, (system fun format _ ↦ format).run sampleInit sampleActs = some p ∧
      (p.answers <+: okServer.serveAll () p.asked ∧
        (∀ r, p.client.redisGetReplyFromReader = some r → r.1 ≠ none) ∧
          (p.Quiet → p.answers = okServer.serveAll () p.asked)) := by
  have hrun : ((system fun format _ ↦ format).run sampleInit sampleActs).isSome :=
    by decide +kernel
  obtain ⟨p, hp⟩ := Option.isSome_iff_exists.mp hrun
  exact ⟨p, hp, answers_in_order true (by decide +kernel) hp⟩

end Pipeline

end Redis

end Slience
