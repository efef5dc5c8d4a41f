import Slience.Lib.Bimap
import Slience.Redis.Pool

/-!
# What the pool keeps

A connection that has a `redisContext` is in the pool, and two connections never have the
same one.  So a release frees what no other release frees, and takes the connection out of
both maps; a connection that lost its server is therefore made anew for the same server.
A connection found in the pool, however, is one whose host has the same `inet_addr`.
-/

namespace Slience

namespace Redis

/-- The id a connection is filed under. -/
def RedisContext.uniqueId (c : RedisContext) : UInt64 := threeOnlyId (inetAddr c.ip) c.port c.db

namespace RedisThread

structure Sound (s : RedisThread) : Prop where
  inverses : Inverses s.info s.revinfo
  pooled : ∀ uniqueId ptr, s.info uniqueId = some ptr →
    ∃ c, s.cells[ptr]? = some c ∧ c.context.isSome ∧ c.uniqueId = uniqueId
  filed : ∀ ptr context, s.contextOf ptr = some context → ∃ uniqueId, s.info uniqueId = some ptr
  unique : ∀ ptr ptr' context, s.contextOf ptr = some context →
    s.contextOf ptr' = some context → ptr = ptr'
  unfreed : ∀ ptr context, s.contextOf ptr = some context →
    context < s.opened ∧ context ∉ s.freed
  freed_lt : ∀ context ∈ s.freed, context < s.opened
  nodup : s.freed.Nodup

theorem sound_init : init.Sound where
  inverses := Inverses.empty
  pooled := by rintro uniqueId ptr ⟨⟩
  filed := by rintro ptr context ⟨⟩
  unique := by rintro ptr ptr' context ⟨⟩
  unfreed := by rintro ptr context ⟨⟩
  freed_lt := by rintro context ⟨⟩
  nodup := List.nodup_nil

/-! ## Calls -/

/-- A context that was opened and freed again: what a failed `GetConnection` leaves. -/
def refused (s : RedisThread) : RedisThread :=
  { s with opened := s.opened + 1, freed := s.opened :: s.freed }

/-- What a successful connect leaves. -/
def stored (s : RedisThread) (r : Request) : RedisThread :=
  { s with opened := s.opened + 1 }.store r (some s.opened)

/-- What the release of a connection with a `redisContext` leaves. -/
def released (s : RedisThread) (ptr context : ℕ) (uniqueId : UInt64) : RedisThread :=
  { s with
    info := Function.update s.info uniqueId none
    revinfo := Function.update s.revinfo ptr none
    freed := context :: s.freed
    cells := s.cells.modify ptr fun c ↦ { c with context := none } }

theorem getConnection_hit {s : RedisThread} {r : Request} {ptr : ℕ}
    (h : s.info r.uniqueId = some ptr) : s.getConnection r = (.ok ptr, s) := by
  simp only [getConnection, h]

/-- A connection that is not in the pool is opened, or the call fails. -/
theorem getConnection_miss {s : RedisThread} {r : Request} (h : s.info r.uniqueId = none) :
    (∃ what, s.getConnection r = (.error what, s)) ∨
      (∃ what, s.getConnection r = (.error what, s.refused)) ∨
      s.getConnection r = (.ok s.cells.length, s.stored r) := by
  simp only [getConnection, h]
  cases hconnect : r.net.connect with
  | none =>
      left
      refine ⟨"redisConnect fail", ?_⟩
      simp only [redisConnectWithTimeout, hconnect, Request.check, redisFree]
  | some answer =>
      right
      simp only [redisConnectWithTimeout, hconnect]
      cases r.check (some s.opened) with
      | error what => exact Or.inl ⟨what, rfl⟩
      | ok => exact Or.inr rfl

theorem eq_of_error {s q : RedisThread} {r : Request} {what : String}
    (h : s.getConnection r = (.error what, q)) : q = s ∨ q = s.refused := by
  cases hinfo : s.info r.uniqueId with
  | some ptr =>
      rw [getConnection_hit hinfo] at h
      cases h
  | none =>
      rcases getConnection_miss hinfo with ⟨_, heq⟩ | ⟨_, heq⟩ | heq <;> rw [heq] at h <;> cases h
      · exact Or.inl rfl
      · exact Or.inr rfl

theorem eq_of_ok {s q : RedisThread} {r : Request} {ptr : ℕ}
    (h : s.getConnection r = (.ok ptr, q)) :
    s.info r.uniqueId = some ptr ∧ q = s ∨
      s.info r.uniqueId = none ∧ ptr = s.cells.length ∧ q = s.stored r := by
  cases hinfo : s.info r.uniqueId with
  | some p =>
      rw [getConnection_hit hinfo] at h
      cases h
      exact Or.inl ⟨rfl, rfl⟩
  | none =>
      rcases getConnection_miss hinfo with ⟨_, heq⟩ | ⟨_, heq⟩ | heq <;> rw [heq] at h <;> cases h
      exact Or.inr ⟨rfl, rfl, rfl⟩

theorem contextOf_of_cell {s : RedisThread} {ptr : ℕ} {c : RedisContext}
    (h : s.cells[ptr]? = some c) : s.contextOf ptr = c.context := by
  rw [contextOf, h, Option.bind_some]

theorem release_of_none {s : RedisThread} (hs : s.Sound) {ptr : ℕ}
    (h : s.contextOf ptr = none) : s.release ptr = s := by
  have hrev : s.revinfo ptr = none := by
    cases hrev : s.revinfo ptr with
    | none => rfl
    | some uniqueId =>
        obtain ⟨c, hc, hsome, -⟩ := hs.pooled uniqueId ptr ((hs.inverses uniqueId ptr).mpr hrev)
        rw [contextOf_of_cell hc] at h
        rw [h] at hsome
        cases hsome
  have hcells : s.cells.modify ptr (fun c ↦ { c with context := none }) = s.cells := by
    apply List.ext_getElem?
    intro i
    rw [List.getElem?_modify]
    by_cases hi : ptr = i
    · subst hi
      cases hc : s.cells[ptr]? with
      | none => rfl
      | some c =>
          rw [contextOf_of_cell hc] at h
          simp [← h]
    · simp [hi]
  simp only [release, unfile, hrev, h, redisFree]
  rw [hcells]

theorem release_of_some {s : RedisThread} (hs : s.Sound) {ptr context : ℕ}
    (h : s.contextOf ptr = some context) :
    ∃ uniqueId, s.info uniqueId = some ptr ∧ s.release ptr = s.released ptr context uniqueId := by
  obtain ⟨uniqueId, hinfo⟩ := hs.filed ptr context h
  refine ⟨uniqueId, hinfo, ?_⟩
  simp only [release, unfile, (hs.inverses uniqueId ptr).mp hinfo, h, redisFree, released]

/-! ## Contexts -/

theorem contextOf_stored (s : RedisThread) (r : Request) (ptr : ℕ) :
    (s.stored r).contextOf ptr =
      if ptr = s.cells.length then some s.opened else s.contextOf ptr := by
  simp only [contextOf, stored, store]
  split
  · rename_i hptr
    subst hptr
    rw [List.getElem?_concat_length, Option.bind_some]
  · rename_i hptr
    by_cases hlt : ptr < s.cells.length
    · rw [List.getElem?_append_left hlt]
    · rw [List.getElem?_eq_none (by simp; omega), List.getElem?_eq_none (by omega)]

theorem contextOf_released (s : RedisThread) (ptr context : ℕ) (uniqueId : UInt64) (p : ℕ) :
    (s.released ptr context uniqueId).contextOf p = if p = ptr then none else s.contextOf p := by
  simp only [contextOf, released, List.getElem?_modify]
  split
  · rename_i hp
    subst hp
    cases s.cells[ptr]? <;> simp
  · rename_i hp
    simp [Ne.symm hp]

namespace Sound

variable {s : RedisThread}

theorem setConn (hs : s.Sound) (x : ℕ) (conn : Option ℕ) : (s.setConn x conn).Sound :=
  ⟨hs.inverses, hs.pooled, hs.filed, hs.unique, hs.unfreed, hs.freed_lt, hs.nodup⟩

theorem refused (hs : s.Sound) : s.refused.Sound where
  inverses := hs.inverses
  pooled := hs.pooled
  filed := hs.filed
  unique := hs.unique
  unfreed := by
    intro ptr context h
    obtain ⟨hlt, hfree⟩ := hs.unfreed ptr context h
    refine ⟨Nat.lt_succ_of_lt hlt, ?_⟩
    intro hmem
    rcases List.mem_cons.mp hmem with rfl | hmem
    · exact lt_irrefl _ hlt
    · exact hfree hmem
  freed_lt := by
    intro context hmem
    rcases List.mem_cons.mp hmem with rfl | hmem
    · exact Nat.lt_succ_self _
    · exact Nat.lt_succ_of_lt (hs.freed_lt context hmem)
  nodup := by
    apply List.nodup_cons.mpr
    refine ⟨?_, hs.nodup⟩
    intro hmem
    exact lt_irrefl _ (hs.freed_lt _ hmem)

theorem stored (hs : s.Sound) {r : Request} (h : s.info r.uniqueId = none) :
    (s.stored r).Sound where
  inverses := by
    apply hs.inverses.insert h
    cases hrev : s.revinfo s.cells.length with
    | none => rfl
    | some uniqueId =>
        obtain ⟨c, hc, -⟩ := hs.pooled uniqueId _ ((hs.inverses uniqueId _).mpr hrev)
        simp at hc
  pooled := by
    intro uniqueId ptr hinfo
    simp only [RedisThread.stored, store] at hinfo ⊢
    by_cases hid : uniqueId = r.uniqueId
    · subst hid
      rw [Function.update_self] at hinfo
      cases hinfo
      exact ⟨_, List.getElem?_concat_length .., rfl, rfl⟩
    · rw [Function.update_of_ne hid] at hinfo
      obtain ⟨c, hc, hc'⟩ := hs.pooled uniqueId ptr hinfo
      have hlt : ptr < s.cells.length := (List.getElem?_eq_some_iff.mp hc).1
      exact ⟨c, (List.getElem?_append_left hlt).trans hc, hc'⟩
  filed := by
    intro ptr context hcontext
    rw [contextOf_stored] at hcontext
    split at hcontext
    · rename_i hptr
      subst hptr
      exact ⟨r.uniqueId, Function.update_self ..⟩
    · obtain ⟨uniqueId, hinfo⟩ := hs.filed ptr context hcontext
      have hid : uniqueId ≠ r.uniqueId := by
        rintro rfl
        rw [h] at hinfo
        cases hinfo
      exact ⟨uniqueId, (Function.update_of_ne hid ..).trans hinfo⟩
  unique := by
    intro ptr ptr' context hptr hptr'
    rw [contextOf_stored] at hptr hptr'
    split at hptr <;> split at hptr'
    · rename_i hp hp'
      rw [hp, hp']
    · cases hptr
      exact absurd (hs.unfreed ptr' _ hptr').1 (lt_irrefl _)
    · cases hptr'
      exact absurd (hs.unfreed ptr _ hptr).1 (lt_irrefl _)
    · exact hs.unique ptr ptr' context hptr hptr'
  unfreed := by
    intro ptr context hcontext
    rw [contextOf_stored] at hcontext
    split at hcontext
    · cases hcontext
      exact ⟨Nat.lt_succ_self _, fun hmem ↦ lt_irrefl _ (hs.freed_lt _ hmem)⟩
    · obtain ⟨hlt, hfree⟩ := hs.unfreed ptr context hcontext
      exact ⟨Nat.lt_succ_of_lt hlt, hfree⟩
  freed_lt := fun context hmem ↦ Nat.lt_succ_of_lt (hs.freed_lt context hmem)
  nodup := hs.nodup

theorem released (hs : s.Sound) {ptr context : ℕ} {uniqueId : UInt64}
    (hcontext : s.contextOf ptr = some context) (hinfo : s.info uniqueId = some ptr) :
    (s.released ptr context uniqueId).Sound where
  inverses := hs.inverses.erase hinfo
  pooled := by
    intro id p hp
    simp only [RedisThread.released] at hp ⊢
    have hid : id ≠ uniqueId := by
      rintro rfl
      rw [Function.update_self] at hp
      cases hp
    rw [Function.update_of_ne hid] at hp
    have hne : ptr ≠ p := by
      rintro rfl
      exact hid (hs.inverses.inj hp hinfo)
    obtain ⟨c, hc, hc'⟩ := hs.pooled id p hp
    refine ⟨c, ?_, hc'⟩
    simpa [List.getElem?_modify, hne] using hc
  filed := by
    intro p ctx hp
    rw [contextOf_released] at hp
    split at hp
    · cases hp
    · rename_i hne
      obtain ⟨id, hid⟩ := hs.filed p ctx hp
      have hids : id ≠ uniqueId := by
        rintro rfl
        exact hne (Option.some.inj (hid.symm.trans hinfo))
      exact ⟨id, (Function.update_of_ne hids ..).trans hid⟩
  unique := by
    intro p p' ctx hp hp'
    rw [contextOf_released] at hp hp'
    split at hp
    · cases hp
    · split at hp'
      · cases hp'
      · exact hs.unique p p' ctx hp hp'
  unfreed := by
    intro p ctx hp
    rw [contextOf_released] at hp
    split at hp
    · cases hp
    · rename_i hne
      obtain ⟨hlt, hfree⟩ := hs.unfreed p ctx hp
      refine ⟨hlt, ?_⟩
      intro hmem
      rcases List.mem_cons.mp hmem with rfl | hmem
      · exact hne (hs.unique p ptr _ hp hcontext)
      · exact hfree hmem
  freed_lt := by
    intro ctx hmem
    rcases List.mem_cons.mp hmem with rfl | hmem
    · exact (hs.unfreed ptr _ hcontext).1
    · exact hs.freed_lt ctx hmem
  nodup := List.nodup_cons.mpr ⟨(hs.unfreed ptr context hcontext).2, hs.nodup⟩

theorem release (hs : s.Sound) (ptr : ℕ) : (s.release ptr).Sound := by
  cases h : s.contextOf ptr with
  | none =>
      rw [release_of_none hs h]
      exact hs
  | some context =>
      obtain ⟨uniqueId, hinfo, heq⟩ := release_of_some hs h
      rw [heq]
      exact hs.released h hinfo

theorem releaseConnection (hs : s.Sound) (x : ℕ) : (s.releaseConnection x).Sound := by
  unfold RedisThread.releaseConnection
  split
  · exact hs
  · exact (hs.release _).setConn x none

theorem getConnection (hs : s.Sound) (r : Request) : (s.getConnection r).2.Sound := by
  cases h : s.getConnection r with
  | mk result q =>
      cases result with
      | error what =>
          rcases eq_of_error h with rfl | rfl
          · exact hs
          · exact hs.refused
      | ok ptr =>
          rcases eq_of_ok h with ⟨-, rfl⟩ | ⟨hinfo, -, rfl⟩
          · exact hs
          · exact hs.stored hinfo

theorem redisCommand (hs : s.Sound) (x : ℕ) (answered : Bool) (net : Network) :
    (s.redisCommand x answered net).2.Sound := by
  unfold RedisThread.redisCommand
  split
  · exact hs
  · rename_i c hc
    split
    · exact hs
    · have hget := (hs.releaseConnection x).getConnection (c.again net)
      cases h : (s.releaseConnection x).getConnection (c.again net) with
      | mk result q =>
          rw [h] at hget
          cases result with
          | error what => exact hget
          | ok ptr => exact hget.setConn x (some ptr)

theorem next (hs : s.Sound) (call : Call) : (s.next call).Sound := by
  cases call with
  | get x r =>
      have hget := hs.getConnection r
      simp only [RedisThread.next]
      cases h : s.getConnection r with
      | mk result q =>
          rw [h] at hget
          cases result with
          | error what => exact hget
          | ok ptr => exact hget.setConn x (some ptr)
  | release x => exact hs.releaseConnection x
  | command x answered net => exact hs.redisCommand x answered net
  | copy x y => exact hs.setConn x (s.conns y)
  | drop x => exact hs.setConn x none

theorem step {s s' : RedisThread} {call : Call} (hs : s.Sound)
    (h : system.step s call = some s') : s'.Sound := by
  cases h
  exact hs.next call

end Sound

/-! ## What a call keeps -/

/-- Every pooled entry holds a context that was not freed. -/
def Live (s : RedisThread) : Prop := ∀ uniqueId ptr, s.info uniqueId = some ptr →
  ∃ context, s.contextOf ptr = some context ∧ context ∉ s.freed

/-- A failed `GetConnection` leaves the pool unchanged. -/
def Unmoved (s : RedisThread) (r : Request) : Prop := ∀ what s',
  s.getConnection r = (.error what, s') →
    s'.info = s.info ∧ s'.revinfo = s.revinfo ∧ s'.cells = s.cells

/-- `GetConnection` returns a connection to the server it was asked for. -/
def Returns (s : RedisThread) (r : Request) : Prop := ∀ ptr s',
  s.getConnection r = (.ok ptr, s') →
    ∃ c, s'.cells[ptr]? = some c ∧ c.ip = r.ip ∧ c.port = r.port ∧ c.db = r.database

/-- No pooled connection to the same port and database has another host with the same
`inet_addr`. -/
def NoClash (s : RedisThread) (r : Request) : Prop := ∀ uniqueId ptr c,
  s.info uniqueId = some ptr → s.cells[ptr]? = some c → c.port = r.port → c.db = r.database →
    inetAddr c.ip = inetAddr r.ip → c.ip = r.ip

/-- What every call keeps. -/
structure Kept (s : RedisThread) (call : Call) : Prop where
  inverses : Inverses (s.next call).info (s.next call).revinfo
  live : (s.next call).Live
  nodup : (s.next call).freed.Nodup
  unmoved : ∀ q r, s.asks call = some (q, r) → q.Unmoved r

/-- A call that also returns what it was asked for. -/
structure Serves (s : RedisThread) (call : Call) : Prop extends Kept s call where
  returns : ∀ q r, s.asks call = some (q, r) → q.Returns r

/-- The calls of `GetConnection` that no other host gets in the way of. -/
def Distinct (s : RedisThread) : Call → Prop
  | .get _ r => s.NoClash r
  | _ => True

theorem unmoved (s : RedisThread) (r : Request) : s.Unmoved r := by
  intro what s' h
  rcases eq_of_error h with rfl | rfl
  · exact ⟨rfl, rfl, rfl⟩
  · exact ⟨rfl, rfl, rfl⟩

theorem returns_of_miss {s : RedisThread} {r : Request} (hinfo : s.info r.uniqueId = none) :
    s.Returns r := by
  intro ptr s' h
  rcases eq_of_ok h with ⟨hsome, -⟩ | ⟨-, rfl, rfl⟩
  · rw [hinfo] at hsome
    cases hsome
  · exact ⟨_, List.getElem?_concat_length .., rfl, rfl, rfl⟩

theorem returns_iff_noClash {s : RedisThread} (hs : s.Sound) (r : Request) :
    s.Returns r ↔ s.NoClash r := by
  constructor
  · intro h uniqueId ptr c hinfo hc hport hdb haddr
    obtain ⟨c', hc', -, hid⟩ := hs.pooled uniqueId ptr hinfo
    rw [hc] at hc'
    cases hc'
    have hids : uniqueId = r.uniqueId := by
      rw [← hid, RedisContext.uniqueId, Request.uniqueId, haddr, hport, hdb]
    subst hids
    obtain ⟨c', hc', hip, -⟩ := h ptr s (getConnection_hit hinfo)
    rw [hc] at hc'
    cases hc'
    exact hip
  · intro h
    cases hinfo : s.info r.uniqueId with
    | none => exact returns_of_miss hinfo
    | some ptr =>
        intro p s' hget
        rw [getConnection_hit hinfo] at hget
        cases hget
        obtain ⟨c, hc, -, hid⟩ := hs.pooled _ ptr hinfo
        obtain ⟨haddr, hport, hdb⟩ := threeOnlyId_inj hid
        exact ⟨c, hc, h _ ptr c hinfo hc hport hdb haddr, hport, hdb⟩

theorem info_releaseConnection {s : RedisThread} (hs : s.Sound) {x : ℕ} {c : RedisContext}
    (h : s.connected x = some c) : (s.releaseConnection x).info c.uniqueId = none := by
  unfold connected at h
  split at h
  · cases h
  · rename_i c' hbind
    split at h
    · rename_i hsome
      cases h
      obtain ⟨ptr, hconn, hc⟩ := Option.bind_eq_some_iff.mp hbind
      obtain ⟨context, hcontext⟩ := Option.isSome_iff_exists.mp hsome
      obtain ⟨uniqueId, hinfo, hrelease⟩ :=
        release_of_some hs ((contextOf_of_cell hc).trans hcontext)
      obtain ⟨c', hc', -, hid⟩ := hs.pooled uniqueId ptr hinfo
      rw [hc] at hc'
      cases hc'
      simp only [releaseConnection, hconn, hrelease, setConn, released, hid]
      exact Function.update_self ..
    · cases h

theorem kept {s : RedisThread} (hs : s.Sound) (call : Call) : s.Kept call where
  inverses := (hs.next call).inverses
  live := by
    intro uniqueId ptr hinfo
    obtain ⟨c, hc, hsome, -⟩ := (hs.next call).pooled uniqueId ptr hinfo
    obtain ⟨context, hcontext⟩ := Option.isSome_iff_exists.mp hsome
    have hof := (contextOf_of_cell hc).trans hcontext
    exact ⟨context, hof, ((hs.next call).unfreed ptr context hof).2⟩
  nodup := (hs.next call).nodup
  unmoved := fun q r _ ↦ unmoved q r

theorem serves_iff_distinct {s : RedisThread} (hs : s.Sound) (call : Call) :
    s.Serves call ↔ s.Distinct call := by
  constructor
  · intro h
    cases call with
    | get x r => exact (returns_iff_noClash hs r).mp (h.returns s r rfl)
    | _ => trivial
  · intro h
    refine ⟨kept hs call, ?_⟩
    intro q r hasks
    cases call with
    | get x r' =>
        cases hasks
        exact (returns_iff_noClash hs r).mpr h
    | command x answered net =>
        cases answered with
        | true => cases hasks
        | false =>
            obtain ⟨c, hc, heq⟩ := Option.map_eq_some_iff.mp hasks
            cases heq
            exact returns_of_miss (info_releaseConnection hs hc)
    | release x => cases hasks
    | copy x y => cases hasks
    | drop x => cases hasks

theorem allowed_kept {s : RedisThread} (hs : s.Sound) (calls : List Call) :
    system.Allowed Kept s calls := by
  induction calls generalizing s with
  | nil => trivial
  | cons call calls ih =>
      refine ⟨trivial, kept hs call, ?_⟩
      intro s' hstep
      exact ih (hs.step hstep)

/-- All calls of a thread keep its pool, and they return the connections asked for as long
as no pooled connection is one to another host with the same `inet_addr`. -/
theorem serves_iff (calls : List Call) :
    system.Allowed Kept init calls ∧
      (system.Allowed Serves init calls ↔ system.Allowed Distinct init calls) := by
  constructor
  · exact allowed_kept sound_init calls
  · apply @System.allowed_congr _ _ _ _ _ Sound
    · intro s call s' hs _ hstep
      exact hs.step hstep
    · intro s call hs _
      exact serves_iff_distinct hs call
    · exact sound_init

/-! ## Host names -/

/-- A server that accepts the connection. -/
def accepting : Network := ⟨some (0, ""), .ok ⟨redisReplyStatus, "OK"⟩⟩

def hostA : Request := ⟨"hostA", 6379, 0, accepting⟩

def hostB : Request := ⟨"hostB", 6379, 0, accepting⟩

/-- The connection to `hostB` is the one to `hostA`. -/
theorem serves_fails :
    ¬ system.Allowed Serves init [.get 0 hostA, .get 1 hostB] ∧
      ∃ s, system.run init [.get 0 hostA, .get 1 hostB] = some s ∧ s.conns 1 = some 0 ∧
        s.cells = [⟨some 0, "hostA", 6379, 0⟩] := by
  constructor
  · rintro ⟨-, -, h⟩
    obtain ⟨-, hserves, -⟩ := h _ rfl
    have hhit : (init.next (.get 0 hostA)).getConnection hostB =
        (.ok 0, init.next (.get 0 hostA)) := getConnection_hit (by decide +kernel)
    have hcells : (init.next (.get 0 hostA)).cells = [⟨some 0, "hostA", 6379, 0⟩] := by
      decide +kernel
    obtain ⟨c, hc, hip, -⟩ := hserves.returns _ hostB rfl 0 _ hhit
    rw [hcells] at hc
    cases hc
    exact absurd hip (by decide)
  · refine ⟨_, rfl, ?_, ?_⟩
    · decide +kernel
    · decide +kernel

end RedisThread

end Redis

end Slience
