import Slience.Redis.FragmentImage
import Slience.Redis.ClusterRuns
import Slience.Redis.Pipeline

/-!
# A cluster as one server

To a caller of `redisClusterCommandArgv` the cluster is one server that has all keys: also a
command that was cut for its slots leaves the data, and gives the reply, of the whole command.
Where a node refuses its part, the caller gets its error, the parts before it were served, and
those behind it were not sent.
-/

namespace Slience

namespace Redis

/-- The first and the second of each pair. -/
def toPairs : List Text → List (Text × Text)
  | a :: b :: l => (a, b) :: toPairs l
  | _ => []

/-- A server that keeps values under keys: which of them are strings, how a string is kept, which
commands it refuses, with the text of the error, and what the other commands do. -/
structure KeyServer where
  Value : Type
  text : Value → Option Text
  ofText : Text → Value
  refuse : (Text → Option Value) → List Text → Option Text
  other : (Text → Option Value) → List Text → (Text → Option Value) × ReplyObject

namespace KeyServer

variable (server : KeyServer)

/-- What `MGET` says of a key. -/
def element (v : Option server.Value) : ReplyObject :=
  (v.bind server.text).elim .nil (.string .string)

def mget (db : Text → Option server.Value) (keys : List Text) : ReplyObject :=
  .array keys.length (keys.map fun k ↦ some (server.element (db k)))

def mset (db : Text → Option server.Value) (pairs : List (Text × Text)) :
    Text → Option server.Value :=
  insertAll db (pairs.map fun p ↦ (p.1, server.ofText p.2))

/-- What a command does that is not refused. -/
def apply (db : Text → Option server.Value) (argv : List Text) :
    (Text → Option server.Value) × ReplyObject :=
  match typeOf (argv.headD []) with
  | .reqRedisMget => (db, server.mget db argv.tail)
  | .reqRedisDel => ((eraseAll db argv.tail).1, .integer (eraseAll db argv.tail).2)
  | .reqRedisMset =>
      if argv.tail.length % 2 = 0 then
        (server.mset db (toPairs argv.tail), .string .status (lit "OK"))
      else server.other db argv
  | _ => server.other db argv

def serve (db : Text → Option server.Value) (argv : List Text) :
    (Text → Option server.Value) × ReplyObject :=
  match server.refuse db argv with
  | some str => (db, .string .error str)
  | none => server.apply db argv

/-- The parts of a command are served one after the other, up to the first that is refused. -/
def serveParts (db : Text → Option server.Value) :
    List (List Text) → (Text → Option server.Value) × Option Text
  | [] => (db, none)
  | part :: parts =>
      match server.refuse db part with
      | some str => (db, some str)
      | none => serveParts (server.apply db part).1 parts

/-- What a caller gets of a command that goes out as these parts: what the whole command does, or
the first refusal. -/
def answer (db : Text → Option server.Value) (argv : List Text) (parts : List (List Text)) :
    (Text → Option server.Value) × ReplyObject :=
  match server.serveParts db parts with
  | (_, none) => server.apply db argv
  | (db, some str) => (db, .string .error str)

/-- A command that is not cut. -/
theorem answer_singleton (db : Text → Option server.Value) (argv : List Text) :
    server.answer db argv [argv] = server.serve db argv := by
  unfold answer serve serveParts
  cases server.refuse db argv <;> rfl

variable {server} {db db' : Text → Option server.Value} {argv : List Text}
  {parts : List (List Text)}

theorem answer_of_served (h : (server.serveParts db parts).2 = none) :
    server.answer db argv parts = server.apply db argv := by
  rw [answer, show server.serveParts db parts = ((server.serveParts db parts).1, none) from
    Prod.ext rfl h]

theorem answer_of_refused {str : Text} (h : server.serveParts db parts = (db', some str)) :
    server.answer db argv parts = (db', .string .error str) := by
  rw [answer, h]

end KeyServer

/-! ## The items of a slot -/

section Items

variable {type : CmdType} {items : List (List Text)}

theorem inPairs_eq (l : List Text) : inPairs l = (toPairs l).map fun p ↦ [p.1, p.2] := by
  induction l using inPairs.induct with
  | case1 a b l ih => rw [inPairs, toPairs, ih]; rfl
  | case2 l h =>
      rcases l with _ | ⟨a, _ | ⟨b, l⟩⟩
      · rfl
      · rfl
      · exact absurd rfl (h a b l)

theorem flatten_pairs (ps : List (Text × Text)) :
    toPairs (ps.map fun p ↦ [p.1, p.2]).flatten = ps ∧
      (ps.map fun p ↦ [p.1, p.2]).flatten.length % 2 = 0 := by
  induction ps with
  | nil => exact ⟨rfl, rfl⟩
  | cons p ps ih =>
      obtain ⟨hpairs, heven⟩ := ih
      refine ⟨?_, ?_⟩
      · rw [List.map_cons, List.flatten_cons]
        exact congrArg (p :: ·) hpairs
      · rw [List.map_cons, List.flatten_cons, List.length_append]
        change (2 + _) % 2 = 0
        omega

/-- The arguments of a slot are its keys. -/
theorem flatten_shard_keys (keys : List Text) (i : ℕ) :
    (shard itemSlot (keys.map ([·])) i).flatten = shard keyHashSlot keys i := by
  rw [shard_map, ← List.flatMap_def, List.flatMap_singleton']
  rfl

/-- The slot of a key with its value. -/
def pairSlot (p : Text × Text) : ℕ := keyHashSlot p.1

/-- The arguments of a slot are its pairs. -/
theorem flatten_shard_pairs (pairs : List (Text × Text)) (i : ℕ) :
    (shard itemSlot (pairs.map fun p ↦ [p.1, p.2]) i).flatten =
      ((shard pairSlot pairs i).map fun p ↦ [p.1, p.2]).flatten := by
  rw [shard_map]
  rfl

theorem typeOf_verb (h : (fragmentShape type).isSome) : typeOf type.verb = type := by
  unfold fragmentShape at h
  split at h
  · decide +kernel
  · decide +kernel
  · decide +kernel
  · cases h

end Items

/-! ## The replies to the sub-commands -/

section Replies

/-- The commands are served one after the other. -/
def serveEach {D : Type} (serve : D → List Text → D × ReplyObject) :
    D → List (List Text) → D × List ReplyObject
  | d, [] => (d, [])
  | d, argv :: argvs =>
      ((serveEach serve (serve d argv).1 argvs).1,
        (serve d argv).2 :: (serveEach serve (serve d argv).1 argvs).2)

/-- The sub-commands one after the other: all are served, one is refused, or there is an error of
the connection. -/
theorem executeAll_cases {σ ν : Type} {net : ClusterNet σ ν} {server : KeyServer}
    {db : σ → Text → Option server.Value} (h : ServesData net db server.serve)
    {subs : List SubCommand} {argvs : List (List Text)}
    (hsubs : subs.map (·.command) = argvs.map commandImage)
    (hno : ∀ d, ∀ argv ∈ argvs, ∀ str, (server.apply d argv).2 ≠ .string .error str)
    (cc : ClusterContext σ) :
    (∃ cc', executeAll net cc subs = (cc', .ok ((subs.map (·.slotNum)).zip
        ((serveEach server.apply (db cc.nodes) argvs).2.map some))) ∧
          db cc'.nodes = (serveEach server.apply (db cc.nodes) argvs).1 ∧
            (server.serveParts (db cc.nodes) argvs).2 = none) ∨
      (∃ cc' str, executeAll net cc subs = (cc', .error (some (.string .error str))) ∧
        server.serveParts (db cc.nodes) argvs = (db cc'.nodes, some str)) ∨
      ∃ cc', executeAll net cc subs = (cc', .error none) ∧ cc'.err.isSome := by
  induction subs generalizing argvs cc with
  | nil =>
      cases argvs with
      | nil => exact Or.inl ⟨cc, rfl, rfl, rfl⟩
      | cons argv argvs => cases hsubs
  | cons sub subs ih =>
      cases argvs with
      | nil => cases hsubs
      | cons argv argvs =>
          rw [List.map_cons, List.map_cons, List.cons.injEq] at hsubs
          obtain ⟨hsub, hsubs⟩ := hsubs
          have hexec : Executes db server.serve cc argv
              (net.redisClusterCommandExecute cc sub.slotNum sub.command) := by
            rw [hsub]
            exact h.attempts _ argv _ none cc (by omega) (by omega)
          rw [executeAll, KeyServer.serveParts]
          generalize net.redisClusterCommandExecute cc sub.slotNum sub.command = r at hexec ⊢
          rcases r with ⟨cc₁, _ | reply⟩
          · exact Or.inr (Or.inr ⟨cc₁, rfl, (hexec.error rfl).1⟩)
          · obtain ⟨-, hserved⟩ := hexec.served reply rfl
            rw [KeyServer.serve] at hserved
            cases hrefuse : server.refuse (db cc.nodes) argv with
            | some str =>
                simp only [hrefuse, Prod.mk.injEq] at hserved ⊢
                obtain ⟨hdata, rfl⟩ := hserved
                exact Or.inr (Or.inl ⟨cc₁, str, rfl, hdata.symm, rfl⟩)
            | none =>
                simp only [hrefuse] at hserved ⊢
                have hdata : db cc₁.nodes = (server.apply (db cc.nodes) argv).1 :=
                  congrArg Prod.fst hserved
                have hreply : reply = (server.apply (db cc.nodes) argv).2 :=
                  congrArg Prod.snd hserved
                have hother : ∀ str, reply ≠ .string .error str :=
                  fun str ↦ hreply ▸ hno _ argv List.mem_cons_self str
                have hrest := ih hsubs (fun d a ha ↦ hno d a (List.mem_cons_of_mem _ ha)) cc₁
                rw [hdata] at hrest
                split
                · next heq => cases heq
                · next str heq =>
                    cases heq
                    exact absurd rfl (hother str)
                · next heq =>
                    cases heq
                    rcases hrest with ⟨cc', hrun, hnodes, hall⟩ | ⟨cc', str, hrun, hpart⟩ |
                      ⟨cc', hrun, herr⟩
                    · refine Or.inl ⟨cc', ?_, hnodes, hall⟩
                      rw [hrun, hreply]
                      rfl
                    · exact Or.inr (Or.inl ⟨cc', str, by rw [hrun], hpart⟩)
                    · exact Or.inr (Or.inr ⟨cc', by rw [hrun], herr⟩)

/-- What is left of the replies to the sub-commands, as the lists of their elements. -/
def Leaves (replies : ℕ → Option ReplyObject) (results : ℕ → List (Option ReplyObject)) : Prop :=
  ∀ i, results i ≠ [] → ∃ element, replies i = some (.array (results i).length element) ∧
    element.take (results i).length = results i

/-- The elements are taken as the results are gathered. -/
theorem takeElements_eq {fragSeq : List ℕ} {replies : ℕ → Option ReplyObject}
    {results rest : ℕ → List (Option ReplyObject)} {xs : List (Option ReplyObject)}
    (h : Leaves replies results) (hgather : gather fragSeq results = some (xs, rest)) :
    ∃ replies', takeElements fragSeq replies = some (.ok (xs, replies')) ∧
      Leaves replies' rest := by
  induction fragSeq generalizing xs rest with
  | nil =>
      cases hgather
      exact ⟨replies, rfl, h⟩
  | cons i fragSeq ih =>
      obtain ⟨⟨ys, left⟩, hys, hgather⟩ := Option.bind_eq_some_iff.mp hgather
      obtain ⟨x, hx, hgather⟩ := Option.bind_eq_some_iff.mp hgather
      cases hgather
      obtain ⟨replies', htaken, hleaves⟩ := ih hys
      have hne : left i ≠ [] := by
        intro hnil
        rw [hnil] at hx
        cases hx
      obtain ⟨element, hreply, helement⟩ := hleaves i hne
      have hpos : 0 < (left i).length := List.length_pos_iff.mpr hne
      have hlast : element[(left i).length - 1]? = some x := by
        rw [← List.getElem?_take_of_lt (show (left i).length - 1 < (left i).length by omega),
          helement, ← List.getLast?_eq_getElem?]
        exact hx
      have htake : takeElement replies' i = some (.ok (x, Function.update replies' i
          (some (.array ((left i).length - 1) element)))) := by
        simp only [takeElement, hreply, if_neg hpos.ne', hlast, Option.map_some]
      refine ⟨Function.update replies' i (some (.array ((left i).length - 1) element)), ?_,
        fun j hj ↦ ?_⟩
      · simp only [takeElements, htaken, htake, Option.bind_eq_bind, Option.bind_some]
      · by_cases hji : j = i
        · subst hji
          refine ⟨element, ?_, ?_⟩
          · rw [Function.update_self, Function.update_self, List.length_dropLast]
          · rw [Function.update_self, List.length_dropLast, List.dropLast_eq_take]
            have htwice := congrArg (List.take ((left j).length - 1)) helement
            rwa [List.take_take, Nat.min_eq_left (by omega)] at htwice
        · rw [Function.update_of_ne hji] at hj ⊢
          rw [Function.update_of_ne hji]
          exact hleaves j hj

theorem subReply_map (g : ℕ → ReplyObject) {is : List ℕ} {i : ℕ} (hi : i ∈ is) :
    subReply (is.map fun i ↦ (i, some (g i))) i = some (g i) := by
  induction is with
  | nil => cases hi
  | cons j is ih =>
      rw [List.map_cons, subReply, List.find?_cons]
      by_cases hj : j = i
      · simp [hj]
      · rcases List.mem_cons.mp hi with rfl | hi
        · exact absurd rfl hj
        · simp only [hj, decide_false]
          exact ih hi

end Replies

/-! ## The parts and the whole -/

section Parts

variable {σ : Type} (cc : ClusterContext σ) (server : KeyServer)
  (db : Text → Option server.Value)

theorem zip_map_some {α β : Type} (g : α → β) (is : List α) :
    is.zip ((is.map g).map some) = is.map fun i ↦ (i, some (g i)) := by
  induction is with
  | nil => rfl
  | cons i is ih => rw [List.map_cons, List.map_cons, List.zip_cons_cons, ih]; rfl

section Keys

variable (keys : List Text)

theorem apply_slot_keys (i : ℕ) :
    server.apply db (slotCommand .reqRedisMget (keys.map ([·])) i) =
        (db, server.mget db (shard keyHashSlot keys i)) ∧
      server.apply db (slotCommand .reqRedisDel (keys.map ([·])) i) =
        ((eraseAll db (shard keyHashSlot keys i)).1,
          .integer (eraseAll db (shard keyHashSlot keys i)).2) := by
  have hmget : typeOf (CmdType.verb .reqRedisMget) = .reqRedisMget := typeOf_verb rfl
  have hdel : typeOf (CmdType.verb .reqRedisDel) = .reqRedisDel := typeOf_verb rfl
  constructor
  · rw [slotCommand, flatten_shard_keys, KeyServer.apply, List.headD_cons, hmget]
    rfl
  · rw [slotCommand, flatten_shard_keys, KeyServer.apply, List.headD_cons, hdel]
    rfl

/-- Each node says what it has under its keys. -/
theorem serveEach_mget (is : List ℕ) :
    serveEach server.apply db (is.map (slotCommand .reqRedisMget (keys.map ([·])))) =
      (db, is.map fun i ↦ server.mget db (shard keyHashSlot keys i)) := by
  induction is with
  | nil => rfl
  | cons i is ih => rw [List.map_cons, serveEach, (apply_slot_keys server db keys i).1, ih]; rfl

theorem checkSubReplies_mget (count : ℤ) (is : List ℕ) :
    checkSubReplies .reqRedisMget count
      (is.map fun i ↦ some (server.mget db (shard keyHashSlot keys i))) = .ok count := by
  induction is generalizing count with
  | nil => rfl
  | cons i is ih =>
      rw [List.map_cons, checkSubReplies]
      simp only [checkSubReply, KeyServer.mget]
      rw [Int.add_zero]
      exact ih count

/-- The elements come back in the order of the keys. -/
theorem commandPostFragment_mget :
    commandPostFragment cc .reqRedisMget (keys.map keyHashSlot)
      ((usedShards keyHashSlot redisClusterSlots keys).map fun i ↦
        (i, some (server.mget db (shard keyHashSlot keys i)))) =
      some (cc, some (server.mget db keys)) := by
  have hleaves : Leaves (subReply ((usedShards keyHashSlot redisClusterSlots keys).map fun i ↦
      (i, some (server.mget db (shard keyHashSlot keys i))))) fun i ↦
        [] ++ (shard keyHashSlot keys i).map fun k ↦ some (server.element (db k)) := by
    intro i hi
    simp only [List.nil_append] at hi ⊢
    have hne : shard keyHashSlot keys i ≠ [] := fun hnil ↦ hi (by rw [hnil]; rfl)
    obtain ⟨k, hk⟩ := List.exists_mem_of_ne_nil _ hne
    obtain ⟨hkeys, rfl⟩ := mem_shard.mp hk
    have hused : keyHashSlot k ∈ usedShards keyHashSlot redisClusterSlots keys :=
      mem_usedShards.mpr ⟨keyHashSlot_lt k, k, hkeys, rfl⟩
    refine ⟨_, ?_, List.take_length⟩
    rw [subReply_map (fun i ↦ server.mget db (shard keyHashSlot keys i)) hused, KeyServer.mget,
      List.length_map]
  obtain ⟨replies', htaken, -⟩ := takeElements_eq hleaves (gather_shards _ keys fun _ ↦ [])
  have hcheck := checkSubReplies_mget server db keys 0
    (usedShards keyHashSlot redisClusterSlots keys)
  have hsnd : ((usedShards keyHashSlot redisClusterSlots keys).map fun i ↦
      (i, some (server.mget db (shard keyHashSlot keys i)))).map Prod.snd =
        (usedShards keyHashSlot redisClusterSlots keys).map fun i ↦
          some (server.mget db (shard keyHashSlot keys i)) := by
    rw [List.map_map]
    rfl
  rw [commandPostFragment, hsnd, hcheck]
  simp only [if_true, htaken, Option.bind_eq_bind, Option.bind_some, List.length_map]
  rfl

/-- The nodes remove the keys of their slots, and the numbers add up. -/
theorem serveEach_del (is : List ℕ) (count : ℤ) :
    (serveEach server.apply db (is.map (slotCommand .reqRedisDel (keys.map ([·]))))).1 =
        (eraseAll db (is.flatMap (shard keyHashSlot keys))).1 ∧
      checkSubReplies .reqRedisDel count ((serveEach server.apply db
        (is.map (slotCommand .reqRedisDel (keys.map ([·]))))).2.map some) =
          .ok (count + (eraseAll db (is.flatMap (shard keyHashSlot keys))).2) := by
  induction is generalizing db count with
  | nil => exact ⟨rfl, by simp [serveEach, checkSubReplies, eraseAll]⟩
  | cons i is ih =>
      obtain ⟨hdata, hcheck⟩ := ih (eraseAll db (shard keyHashSlot keys i)).1
        (count + (eraseAll db (shard keyHashSlot keys i)).2)
      rw [List.map_cons, serveEach, (apply_slot_keys server db keys i).2, List.flatMap_cons,
        eraseAll_append]
      refine ⟨hdata, ?_⟩
      rw [List.map_cons, checkSubReplies]
      simp only [checkSubReply]
      rw [hcheck]
      congr 1
      push_cast
      ring

end Keys

section Pairs

variable (pairs : List (Text × Text))

theorem apply_slot_pairs (i : ℕ) :
    server.apply db (slotCommand .reqRedisMset (pairs.map fun p ↦ [p.1, p.2]) i) =
      (server.mset db (shard pairSlot pairs i), .string .status (lit "OK")) := by
  have hmset : typeOf (CmdType.verb .reqRedisMset) = .reqRedisMset := typeOf_verb rfl
  have hpairs := flatten_pairs (shard pairSlot pairs i)
  rw [slotCommand, flatten_shard_pairs, KeyServer.apply, List.headD_cons, hmset]
  refine (if_pos hpairs.2).trans ?_
  exact congrArg (fun ps ↦ (server.mset db ps, ReplyObject.string .status (lit "OK"))) hpairs.1

theorem mset_append (xs ys : List (Text × Text)) :
    server.mset db (xs ++ ys) = server.mset (server.mset db xs) ys := by
  rw [KeyServer.mset, KeyServer.mset, KeyServer.mset, insertAll, List.map_append, List.foldl_append]
  rfl

/-- The nodes set the keys of their slots. -/
theorem serveEach_mset (is : List ℕ) (count : ℤ) :
    (serveEach server.apply db
        (is.map (slotCommand .reqRedisMset (pairs.map fun p ↦ [p.1, p.2])))).1 =
          server.mset db (is.flatMap (shard pairSlot pairs)) ∧
      checkSubReplies .reqRedisMset count ((serveEach server.apply db
        (is.map (slotCommand .reqRedisMset (pairs.map fun p ↦ [p.1, p.2])))).2.map some) =
          .ok count := by
  induction is generalizing db count with
  | nil => exact ⟨rfl, rfl⟩
  | cons i is ih =>
      obtain ⟨hdata, hcheck⟩ := ih (server.mset db (shard pairSlot pairs i)) count
      rw [List.map_cons, serveEach, apply_slot_pairs server db pairs i, List.flatMap_cons,
        mset_append]
      refine ⟨hdata, ?_⟩
      rw [List.map_cons, checkSubReplies]
      simp only [checkSubReply, if_true, Int.add_zero]
      exact hcheck

theorem mset_shards : server.mset db (shards pairSlot redisClusterSlots pairs) =
    server.mset db pairs := by
  have hslot : ((fun p : Text × server.Value ↦ keyHashSlot p.1) ∘
      fun p : Text × Text ↦ (p.1, server.ofText p.2)) = pairSlot := rfl
  rw [KeyServer.mset, KeyServer.mset, ← hslot, ← shards_map,
    insertAll_shards fun p _ ↦ keyHashSlot_lt p.1]

end Pairs

/-! What the reassembly makes of the replies to the parts is the reply to the whole, and the parts
leave the data as the whole does. -/

section Whole

/-- The sub-commands over these items, in the order of their slots. -/
def slotCommands (type : CmdType) (items : List (List Text)) : List (List Text) :=
  (usedShards itemSlot redisClusterSlots items).map (slotCommand type items)

/-- The replies to the sub-commands, with their slots. -/
def slotReplies (type : CmdType) (items : List (List Text)) : List (ℕ × Option ReplyObject) :=
  (usedShards itemSlot redisClusterSlots items).zip
    ((serveEach server.apply db (slotCommands type items)).2.map some)

theorem length_serveEach {D : Type} (serve : D → List Text → D × ReplyObject) (d : D)
    (argvs : List (List Text)) : (serveEach serve d argvs).2.length = argvs.length := by
  induction argvs generalizing d with
  | nil => rfl
  | cons argv argvs ih => rw [serveEach, List.length_cons, List.length_cons, ih]

theorem map_snd_slotReplies (type : CmdType) (items : List (List Text)) :
    (slotReplies server db type items).map Prod.snd =
      (serveEach server.apply db (slotCommands type items)).2.map some := by
  rw [slotReplies, List.map_snd_zip]
  rw [List.length_map, length_serveEach, slotCommands, List.length_map]

theorem usedShards_keys (keys : List Text) :
    usedShards itemSlot redisClusterSlots (keys.map ([·])) =
      usedShards keyHashSlot redisClusterSlots keys := by
  have hslot : (itemSlot ∘ fun k : Text ↦ [k]) = keyHashSlot := rfl
  rw [usedShards_map, hslot]

theorem whole_mget (keys : List Text) :
    (serveEach server.apply db (slotCommands .reqRedisMget (keys.map ([·])))).1 = db ∧
      commandPostFragment cc .reqRedisMget ((keys.map ([·])).map itemSlot)
        (slotReplies server db .reqRedisMget (keys.map ([·]))) =
          some (cc, some (server.mget db keys)) := by
  have hslot : (itemSlot ∘ fun k : Text ↦ [k]) = keyHashSlot := rfl
  rw [slotReplies, slotCommands, usedShards_keys, serveEach_mget, zip_map_some, List.map_map, hslot]
  exact ⟨rfl, commandPostFragment_mget cc server db keys⟩

theorem whole_del (keys : List Text) :
    (serveEach server.apply db (slotCommands .reqRedisDel (keys.map ([·])))).1 =
        (eraseAll db keys).1 ∧
      commandPostFragment cc .reqRedisDel ((keys.map ([·])).map itemSlot)
        (slotReplies server db .reqRedisDel (keys.map ([·]))) =
          some (cc, some (.integer (eraseAll db keys).2)) := by
  obtain ⟨hdata, hcheck⟩ := serveEach_del server db keys
    (usedShards keyHashSlot redisClusterSlots keys) 0
  rw [flatMap_usedShards, eraseAll_shards fun k _ ↦ keyHashSlot_lt k] at hdata hcheck
  rw [commandPostFragment, map_snd_slotReplies, slotCommands, usedShards_keys, hcheck]
  refine ⟨hdata, ?_⟩
  simp

theorem whole_mset (pairs : List (Text × Text)) :
    (serveEach server.apply db (slotCommands .reqRedisMset (pairs.map fun p ↦ [p.1, p.2]))).1 =
        server.mset db pairs ∧
      commandPostFragment cc .reqRedisMset ((pairs.map fun p ↦ [p.1, p.2]).map itemSlot)
        (slotReplies server db .reqRedisMset (pairs.map fun p ↦ [p.1, p.2])) =
          some (cc, some (.string .status (lit "OK"))) := by
  have hslot : (itemSlot ∘ fun p : Text × Text ↦ [p.1, p.2]) = pairSlot := rfl
  obtain ⟨hdata, hcheck⟩ := serveEach_mset server db pairs
    (usedShards pairSlot redisClusterSlots pairs) 0
  rw [flatMap_usedShards, mset_shards] at hdata
  rw [commandPostFragment, map_snd_slotReplies, slotCommands, usedShards_map, hslot, hcheck]
  refine ⟨hdata, ?_⟩
  simp

theorem commandPostFragment_serveEach {name : Text} {args : List Text}
    (hshape : (fragmentShape (typeOf name)).isSome)
    (hargs : ((typeOf name).items args).flatten = args) :
    (serveEach server.apply db (slotCommands (typeOf name) ((typeOf name).items args))).1 =
        (server.apply db (name :: args)).1 ∧
      commandPostFragment cc (typeOf name) (((typeOf name).items args).map itemSlot)
        (slotReplies server db (typeOf name) ((typeOf name).items args)) =
          some (cc, some (server.apply db (name :: args)).2) := by
  rw [KeyServer.apply, List.headD_cons, List.tail_cons]
  generalize typeOf name = type at hshape hargs ⊢
  unfold fragmentShape at hshape
  split at hshape
  · exact whole_mget cc server db args
  · exact whole_del cc server db args
  · rw [CmdType.items, if_pos rfl, inPairs_eq] at hargs ⊢
    have hpairs := flatten_pairs (toPairs args)
    rw [hargs] at hpairs
    have hwhole := whole_mset cc server db (toPairs args)
    simp only [if_pos hpairs.2]
    exact hwhole
  · cases hshape

/-- A part that is not refused has no error for a reply. -/
theorem apply_slotCommands {type : CmdType} (hshape : (fragmentShape type).isSome)
    {args argv : List Text} (h : argv ∈ slotCommands type (type.items args)) (str : Text) :
    (server.apply db argv).2 ≠ .string .error str := by
  obtain ⟨i, -, rfl⟩ := List.mem_map.mp h
  unfold fragmentShape at hshape
  split at hshape
  · rw [CmdType.items, if_neg (by decide), (apply_slot_keys server db args i).1]
    intro hreply
    cases hreply
  · rw [CmdType.items, if_neg (by decide), (apply_slot_keys server db args i).2]
    intro hreply
    cases hreply
  · rw [CmdType.items, if_pos rfl, inPairs_eq, apply_slot_pairs]
    intro hreply
    cases hreply
  · cases hshape

end Whole

end Parts

/-! ## The cluster and the server -/

section Cluster

variable {σ ν : Type} {net : ClusterNet σ ν} {server : KeyServer}
  {db : σ → Text → Option server.Value} {name : Text} {args keys : List Text}

/-- The commands that the nodes get for one with these keys: itself, or where its keys are in more
than one slot a command for each of them. -/
def nodeCommands (name : Text) (args keys : List Text) : List (List Text) :=
  if ∃ k ∈ keys, ∃ k' ∈ keys, keyHashSlot k ≠ keyHashSlot k'
  then slotCommands (typeOf name) ((typeOf name).items args) else [name :: args]

/-- What a caller sees of a command that goes out as these parts: with a reply, the data and the
reply are the server's, and without one there is an error. -/
structure ServesAs (server : KeyServer) (db : σ → Text → Option server.Value)
    (cc : ClusterContext σ) (argv : List Text) (parts : List (List Text))
    (r : ClusterContext σ × Option ReplyObject) : Prop where
  served : ∀ reply, r.2 = some reply →
    (db r.1.nodes, reply) = server.answer (db cc.nodes) argv parts
  error : r.2 = none → r.1.err.isSome

theorem ServesData.servesAs (h : ServesData net db server.serve) (cc : ClusterContext σ)
    (slotNum : ℕ) (argv : List Text) : ServesAs server db cc argv [argv]
      (net.redisClusterCommandExecute cc slotNum (commandImage argv)) := by
  have hexec : Executes db server.serve cc argv
      (net.redisClusterCommandExecute cc slotNum (commandImage argv)) :=
    h.attempts slotNum argv _ none cc (by omega) (by omega)
  refine ⟨fun reply hr ↦ ?_, fun hr ↦ (hexec.error hr).1⟩
  rw [server.answer_singleton]
  exact (hexec.served reply hr).2

/-- The slots of the items are those of the keys. -/
theorem slots_items (hshape : (fragmentShape (typeOf name)).isSome)
    (hkeys : keysOf (name :: args) = some keys) (htwo : 2 ≤ keys.length) :
    ((typeOf name).items args).map itemSlot = keys.map keyHashSlot := by
  obtain ⟨found, -, hmap, hitems, -, -⟩ := found_items hshape hkeys htwo
  rw [← hitems, ← hmap, List.map_map, List.map_map]
  refine List.map_congr_left fun a _ ↦ ?_
  have hpos : 0 < (typeOf name).width := by
    rw [CmdType.width]
    split <;> omega
  obtain ⟨n, hn⟩ := Nat.exists_eq_succ_of_ne_zero hpos.ne'
  rw [Function.comp_apply, Function.comp_apply, hn]
  cases a <;> rfl

/-- A command is cut where its keys are in more than one slot. -/
theorem Splits.commands_ne_iff {type : CmdType} {items : List (List Text)} {f : Fragments}
    (h : Splits type items f) (hslots : items.map itemSlot = keys.map keyHashSlot) :
    f.commands ≠ [] ↔ ∃ k ∈ keys, ∃ k' ∈ keys, keyHashSlot k ≠ keyHashSlot k' := by
  have hitem {item : List Text} (hitem : item ∈ items) :
      ∃ k ∈ keys, keyHashSlot k = itemSlot item := by
    rw [← List.mem_map, ← hslots]
    exact List.mem_map_of_mem hitem
  constructor
  · intro hne
    by_contra hsame
    push Not at hsame
    refine hne (h.whole fun item hmem ↦ ?_)
    have hlast : f.slotNum ∈ items.map itemSlot := by
      rw [h.slotNum_eq, List.getLastD_eq_getLast?, List.getLast?_eq_some_getLast
        (List.ne_nil_of_mem (List.mem_map_of_mem hmem))]
      exact List.getLast_mem _
    obtain ⟨k, hk, heq⟩ := hitem hmem
    rw [hslots] at hlast
    obtain ⟨k', hk', heq'⟩ := List.mem_map.mp hlast
    rw [← heq, ← heq']
    exact hsame k hk k' hk'
  · rintro ⟨k, hk, k', hk', hne⟩ hnil
    have hother : ∃ item ∈ items, itemSlot item ≠ f.slotNum := by
      by_contra hall
      push Not at hall
      have hslot {k : Text} (hk : k ∈ keys) : keyHashSlot k = f.slotNum := by
        have hmem : keyHashSlot k ∈ items.map itemSlot := by
          rw [hslots]
          exact List.mem_map_of_mem hk
        obtain ⟨item, hitem, heq⟩ := List.mem_map.mp hmem
        rw [← heq]
        exact hall item hitem
      exact hne ((hslot hk).trans (hslot hk').symm)
    have hparts := h.parts hother
    obtain ⟨item, hmem, -⟩ := hother
    rw [hnil, List.map_nil, eq_comm, List.map_eq_nil_iff] at hparts
    have hused : itemSlot item ∈ usedShards itemSlot redisClusterSlots items :=
      mem_usedShards.mpr ⟨keyHashSlot_lt _, item, hmem, rfl⟩
    rw [hparts] at hused
    cases hused

/-- The parts of a command that was cut, and the reassembly. -/
theorem ServesData.parts (h : ServesData net db server.serve) {f : Fragments}
    (hshape : (fragmentShape (typeOf name)).isSome)
    (hargs : ((typeOf name).items args).flatten = args)
    (hsplits : Splits (typeOf name) ((typeOf name).items args) f) (hne : f.commands ≠ [])
    (cc : ClusterContext σ) :
    (∃ cc' replies, executeAll net cc f.commands = (cc', .ok replies) ∧
      commandPostFragment cc' (typeOf name) f.fragSeq replies =
        some (cc', some (server.apply (db cc.nodes) (name :: args)).2) ∧
      db cc'.nodes = (server.apply (db cc.nodes) (name :: args)).1 ∧
      (server.serveParts (db cc.nodes)
        (slotCommands (typeOf name) ((typeOf name).items args))).2 = none) ∨
    (∃ cc' str, executeAll net cc f.commands = (cc', .error (some (.string .error str))) ∧
      server.serveParts (db cc.nodes) (slotCommands (typeOf name) ((typeOf name).items args)) =
        (db cc'.nodes, some str)) ∨
    ∃ cc', executeAll net cc f.commands = (cc', .error none) ∧ cc'.err.isSome := by
  have hother : ∃ item ∈ (typeOf name).items args, itemSlot item ≠ f.slotNum := by
    by_contra hall
    exact hne (hsplits.whole fun item hitem ↦
      by_contra fun hother ↦ hall ⟨item, hitem, hother⟩)
  have hparts := hsplits.parts hother
  have hslots : f.commands.map (·.slotNum) =
      usedShards itemSlot redisClusterSlots ((typeOf name).items args) := by
    have hfst := congrArg (List.map Prod.fst) hparts
    simpa [Function.comp_def] using hfst
  have hcommands : f.commands.map (·.command) =
      (slotCommands (typeOf name) ((typeOf name).items args)).map commandImage := by
    have hsnd := congrArg (List.map Prod.snd) hparts
    simpa [slotCommands, Function.comp_def] using hsnd
  rcases executeAll_cases h hcommands
    (fun d _ hargv str ↦ apply_slotCommands server d hshape hargv str) cc with
    ⟨cc', hrun, hdata, hall⟩ | hrefused | hfailed
  · obtain ⟨hwhole, hpost⟩ := commandPostFragment_serveEach cc' server (db cc.nodes) hshape hargs
    refine Or.inl ⟨cc', _, hrun, ?_, hdata.trans hwhole, hall⟩
    rw [hsplits.fragSeq_eq hne, hslots]
    exact hpost
  · exact Or.inr (Or.inl hrefused)
  · exact Or.inr (Or.inr hfailed)

/-- To its caller a cluster is one server: a command with keys, none of them empty where there are
several, leaves the data and gives the reply of the whole command, or there is an error.  Where it
was cut and a node refuses its part, the reply is this refusal, and the parts before it were
served. -/
theorem redisClusterCommandArgv_serves (h : ServesData net db server.serve)
    (hlen : totlen (name :: args) < 2 ^ 31) (hkeys : keysOf (name :: args) = some keys)
    (hne : keys ≠ []) (hempty : 2 ≤ keys.length → [] ∉ keys) (cc : ClusterContext σ) :
    ∃ r, redisClusterCommandArgv net cc (name :: args) = some r ∧
      ServesAs server db cc (name :: args) (nodeCommands name args keys) r := by
  have hreset {r : ClusterContext σ × Option ReplyObject}
      (hr : ServesAs server db { cc with err := none } (name :: args) [name :: args] r)
      (hone : ¬ ∃ k ∈ keys, ∃ k' ∈ keys, keyHashSlot k ≠ keyHashSlot k') :
      ServesAs server db cc (name :: args) (nodeCommands name args keys)
        ({ r.1 with retryCount := 0 }, r.2) := by
    rw [nodeCommands, if_neg hone]
    exact ⟨hr.served, hr.error⟩
  simp only [redisClusterCommandArgv, redisFormatCommandArgv_eq hlen, Option.bind_eq_bind,
    Option.bind_some, redisClusterFormattedCommand]
  rcases keys with _ | ⟨key, _ | ⟨key', rest⟩⟩
  · exact absurd rfl hne
  · rw [commandFormatBySlot_singleton { cc with err := none } hlen hkeys]
    exact ⟨_, rfl, hreset (h.servesAs _ _ _) (by simp)⟩
  · have htwo : 2 ≤ (key :: key' :: rest).length := by simp
    obtain ⟨f, hf, hsplits⟩ :=
      commandFormatBySlot_many { cc with err := none } hlen hkeys htwo (hempty htwo)
    rw [hf]
    have hshape := fragmentShape_of_keysOf hkeys htwo
    have hcut := hsplits.commands_ne_iff (slots_items hshape hkeys htwo)
    by_cases hcommands : f.commands = []
    · simp only [Option.bind_some, if_pos hcommands]
      exact ⟨_, rfl, hreset (h.servesAs _ _ _) fun hslots ↦ hcut.mpr hslots hcommands⟩
    · obtain ⟨-, -, -, -, hargs, -⟩ := found_items hshape hkeys htwo
      simp only [Option.bind_some, if_neg hcommands]
      rw [nodeCommands, if_pos (hcut.mp hcommands)]
      rcases h.parts hshape hargs hsplits hcommands { cc with err := none } with
        ⟨cc', replies, hrun, hpost, hdata, hall⟩ | ⟨cc', str, hrun, hparts⟩ | ⟨cc', hrun, herr⟩
      · simp only [hrun, hpost, Option.bind_some]
        refine ⟨_, rfl, ?_, fun hnone ↦ by cases hnone⟩
        rintro _ ⟨⟩
        rw [KeyServer.answer_of_served hall]
        exact Prod.ext hdata rfl
      · simp only [hrun]
        refine ⟨_, rfl, ?_, fun hnone ↦ by cases hnone⟩
        rintro _ ⟨⟩
        exact (KeyServer.answer_of_refused hparts).symm
      · simp only [hrun]
        refine ⟨_, rfl, ?_, fun _ ↦ herr⟩
        rintro _ ⟨⟩

end Cluster

section Sample

/-- What a node reads of a command. -/
def readCommand (command : Text) : Option (List Text) :=
  if command.length < 2 ^ 31 then
    match replies.parse command with
    | .done reply _ => reply.arguments
    | _ => none
  else none

theorem readCommand_commandImage {argv : List Text} (h : totlen argv < 2 ^ 31) :
    readCommand (commandImage argv) = some argv := by
  have hparse := Pipeline.parse_commandImage h []
  rw [List.append_nil] at hparse
  rw [readCommand, length_commandImage, if_pos h, hparse]
  exact Pipeline.arguments_commandReply argv

/-- A server of strings that has no room for long ones, and says `OK` to every other command. -/
def singleServer : KeyServer where
  Value := Text
  text := some
  ofText := id
  refuse _ argv :=
    if typeOf (argv.headD []) = .reqRedisMset ∧ argv.any (8 < ·.length)
    then some (lit "OOM command not allowed") else none
  other db _ := (db, .string .status (lit "OK"))

/-- A node with the keys of all slots, and the reply that waits to be read. -/
structure SingleNode where
  keys : Text → Option Text
  reply : ReplyObject

/-- A cluster of one node, which closes the connection after a command that it cannot read. -/
def singleNet : ClusterNet SingleNode Unit where
  nodeGetByTable _ _ := some ()
  ctxGetByNode s _ := (s, some none)
  nodeGetWitchConnected s := (s, some ())
  appendCommand s _ command :=
    match readCommand command with
    | none => (s, some ⟨redisErrEOF, lit "Server closed the connection"⟩)
    | some argv => (⟨(singleServer.serve s.keys argv).1, (singleServer.serve s.keys argv).2⟩, none)
  blockForReply s _ := (s, .ok s.reply)
  nodeFind _ _ := some ()
  nodeAdd s _ _ _ := (s, ())
  updateRoute s := (s, true)

theorem not_redirects_singleServer (keys : Text → Option Text) (argv : List Text) :
    ¬ Redirects (singleServer.serve keys argv).2 := by
  have hok : ¬ Redirects (.string .status (lit "OK")) := by decide
  have hoom : ¬ Redirects (.string .error (lit "OOM command not allowed")) := by decide +kernel
  have happly : ¬ Redirects (singleServer.apply keys argv).2 := by
    unfold KeyServer.apply
    split
    · exact fun h ↦ h.1 rfl
    · exact fun h ↦ h.1 rfl
    · split
      · exact hok
      · exact hok
    · exact hok
  unfold KeyServer.serve
  split
  · rename_i str hrefuse
    change (if _ then _ else _) = some str at hrefuse
    split at hrefuse
    · cases hrefuse
      exact hoom
    · cases hrefuse
  · exact happly

theorem servesData_singleNet : ServesData singleNet SingleNode.keys singleServer.serve where
  ctx _ _ := rfl
  connected _ := rfl
  add _ _ _ _ := rfl
  update _ := rfl
  asking s _ := by
    have hread : readCommand (commandImage [lit "ASKING"]) = some [lit "ASKING"] :=
      readCommand_commandImage (by decide +kernel)
    have htype : typeOf (lit "ASKING") = .unknown := by decide +kernel
    simp [ClusterNet.exchange, singleNet, hread, KeyServer.serve, KeyServer.apply, htype,
      singleServer]
  answers s _ argv := by
    by_cases h : totlen argv < 2 ^ 31
    · simp only [ClusterNet.exchange, singleNet, readCommand_commandImage h, Exchanged,
        if_neg (not_redirects_singleServer s.keys argv)]
      rfl
    · have hread : readCommand (commandImage argv) = none := by
        rw [readCommand, length_commandImage, if_neg h]
      simp [ClusterNet.exchange, singleNet, hread, Exchanged]

/-- Two keys in different slots are to be set, and there is no room for the value of the one whose
slot comes last. -/
def sampleMset : List Text := [lit "a", lit "123456789", lit "b", lit "2"]

/-- The first part is served and the second one is refused. -/
theorem redisClusterCommandArgv_serves_singleNet :
    (singleServer.serveParts (fun _ ↦ none)
        (nodeCommands (lit "MSET") sampleMset [lit "a", lit "b"])).2 =
          some (lit "OOM command not allowed") ∧
      ∃ r, redisClusterCommandArgv singleNet ⟨none, 0, 5, ⟨fun _ ↦ none, .nil⟩⟩
          (lit "MSET" :: sampleMset) = some r ∧
        ServesAs singleServer SingleNode.keys ⟨none, 0, 5, ⟨fun _ ↦ none, .nil⟩⟩
          (lit "MSET" :: sampleMset)
          (nodeCommands (lit "MSET") sampleMset [lit "a", lit "b"]) r :=
  ⟨by decide +kernel, redisClusterCommandArgv_serves servesData_singleNet (by decide +kernel)
    (show keysOf (lit "MSET" :: sampleMset) = some [lit "a", lit "b"] by decide +kernel)
    (by decide) (by decide) _⟩

end Sample

end Redis

end Slience
