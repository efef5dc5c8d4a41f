import Mathlib.Logic.Function.Basic
import Slience.Synccall.Server

/-!
# The handlers of a server

`ScServer` listens on several endpoints, each with a handler.  The handlers are in an array, at the
identifier that `UniqueId` computes: when a handler is registered from the port of the caller, and
when a connection is accepted from the port in the local address of its socket.
-/

namespace Slience

/-- The two bytes of a short in reverse order. -/
def bswap16 (x : UInt16) : UInt16 := UInt16.ofNat (x.toNat % 2 ^ 8 * 2 ^ 8 + x.toNat / 2 ^ 8)

theorem bswap16_bswap16 (x : UInt16) : bswap16 (bswap16 x) = x := by
  have hlt := x.toNat_lt
  have hone : (bswap16 x).toNat = x.toNat % 2 ^ 8 * 2 ^ 8 + x.toNat / 2 ^ 8 := by
    rw [bswap16, UInt16.toNat_ofNat', Nat.mod_eq_of_lt]
    omega
  apply UInt16.toNat_inj.mp
  rw [bswap16, UInt16.toNat_ofNat', hone, Nat.mod_eq_of_lt] <;> omega

/-- An address as the sockets have it, with the port in network byte order. -/
structure SockAddr where
  address : String
  sinPort : UInt16
  deriving DecidableEq

namespace SockAddr

/-- `InitSockAddr` -/
def init (address : String) (port : UInt16) : SockAddr := ⟨address, bswap16 port⟩

/-- `SockAddrToPort` -/
def port (a : SockAddr) : UInt16 := bswap16 a.sinPort

@[simp] theorem port_init (address : String) (port : UInt16) : (init address port).port = port :=
  bswap16_bswap16 port

end SockAddr

namespace ScServer

/-- The length of `_handlers`. -/
def handlerCount : ℕ := 0xFFFF

/-- `_handlers` -/
abbrev Handlers (η : Type) := Fin handlerCount → Option η

/-- `UniqueId` -/
def uniqueId (_ip : String) (port : UInt16) : UInt16 := port

/-- A call of `Register` whose `ListenOne` succeeded. -/
structure Registration (η : Type) where
  ip : String
  port : UInt16
  handler : η

namespace Handlers

variable {η : Type}

/-- All handlers are null. -/
def empty : Handlers η := fun _ ↦ none

/-- The place an index names, if it is one of the array. -/
def place (id : UInt16) : Option (Fin handlerCount) :=
  if h : id.toNat < handlerCount then some ⟨id.toNat, h⟩ else none

/-- `_handlers[id]` -/
def get (s : Handlers η) (id : UInt16) : Option (Option η) := (place id).map s

/-- `Register` -/
def register (s : Handlers η) (r : Registration η) : Option (Handlers η) :=
  (place (uniqueId r.ip r.port)).map fun i ↦ Function.update s i (some r.handler)

/-- One call of `Register` after the other. -/
def registerAll (s : Handlers η) : List (Registration η) → Option (Handlers η)
  | [] => some s
  | r :: rs => (s.register r).bind fun s' ↦ registerAll s' rs

end Handlers

/-- `OnConnected` up to `SetData`: the `id` of the new `_ScInfo_`. -/
def onConnected (localEndpoint : SockAddr) : UInt16 :=
  uniqueId localEndpoint.address localEndpoint.port

/-- `OnReceiveData` with the choice of the handler.  The handlers are named by `η`. -/
def onReceiveDataOf {η τ : Type} (impl : η → IServerHandler τ) (s : Handlers η)
    (id : UInt16) (conn : ℕ) (timestamp : Int32) (w : World τ) (buffer : Buffer) :
    Option (World τ × Buffer) := do
  let (msgid, b) ← buffer.readWord 0
  if msgid = keepaliveId then
    let b ← b.clear.writeWord keepaliveAckId
    let w ← w.send timestamp b
    return ({ w with received := w.received + 1 }, b)
  else
    let handler ← s.get id
    match handler with
    | none => return ({ w with received := w.received + 1 }, b)
    | some h => onReceiveData (impl h) conn timestamp w buffer

/-- The message is not answered as a keep-alive. -/
def IsRequest (buffer : Buffer) : Prop :=
  ∀ msgid b, buffer.readWord 0 = some (msgid, b) → msgid ≠ keepaliveId

/-- A connection to `r` has its requests dealt with by the handler of `r`. -/
structure Serves {η : Type} (s : Handlers η) (r : Registration η) : Prop where
  get_eq : s.get (onConnected (.init r.ip r.port)) = some (some r.handler)
  onReceiveData_eq : ∀ (τ : Type) (impl : η → IServerHandler τ) (conn : ℕ) (timestamp : Int32)
    (w : World τ) (buffer : Buffer), IsRequest buffer →
      onReceiveDataOf impl s (onConnected (.init r.ip r.port)) conn timestamp w buffer =
        onReceiveData (impl r.handler) conn timestamp w buffer

/-- Every index is one of the array, and every listener has its own handler. -/
def Dispatches {η : Type} (rs : List (Registration η)) : Prop :=
  ∃ s, Handlers.empty.registerAll rs = some s ∧ ∀ r ∈ rs, Serves s r

variable {η : Type}

theorem serves_of_get {s : Handlers η} {r : Registration η}
    (h : s.get (onConnected (.init r.ip r.port)) = some (some r.handler)) : Serves s r where
  get_eq := h
  onReceiveData_eq τ impl conn timestamp w buffer hrequest := by
    unfold onReceiveDataOf
    cases hread : buffer.readWord 0 with
    | none => simp [onReceiveData, hread]
    | some p =>
        obtain ⟨msgid, b⟩ := p
        simp only [Option.bind_eq_bind, Option.bind_some, if_neg (hrequest msgid b hread), h]

namespace Handlers

theorem place_eq_some_iff (id : UInt16) : (place id).isSome ↔ id ≠ 65535 := by
  have hlt := id.toNat_lt
  have hne : id ≠ 65535 ↔ id.toNat ≠ 65535 := by
    rw [ne_eq, ← UInt16.toNat_inj]
    rfl
  rw [place, hne]
  split
  · rename_i h
    rw [handlerCount] at h
    simp only [Option.isSome_some, true_iff]
    omega
  · rename_i h
    rw [handlerCount] at h
    simp only [Option.isSome_none, Bool.false_eq_true, false_iff]
    omega

theorem place_inj {id id' : UInt16} {i : Fin handlerCount} (h : place id = some i)
    (h' : place id' = some i) : id = id' := by
  unfold place at h h'
  split at h
  · split at h'
    · have hval := congrArg Fin.val (Option.some.inj (h.trans h'.symm))
      exact UInt16.toNat_inj.mp hval
    · cases h'
  · cases h

theorem get_register {s s' : Handlers η} {r : Registration η} (h : s.register r = some s')
    (id : UInt16) :
    s'.get id = if id = r.port then some (some r.handler) else s.get id := by
  obtain ⟨i, hi, rfl⟩ := Option.map_eq_some_iff.mp h
  rw [uniqueId] at hi
  unfold get
  split
  · rename_i heq
    rw [heq, hi, Option.map_some, Function.update_self]
  · rename_i hne
    cases hj : place id with
    | none => rfl
    | some j =>
        rw [Option.map_some, Option.map_some, Function.update_of_ne]
        rintro rfl
        exact hne (place_inj hj hi)

theorem isSome_registerAll_iff (s : Handlers η) (rs : List (Registration η)) :
    (s.registerAll rs).isSome ↔ ∀ r ∈ rs, r.port ≠ 65535 := by
  induction rs generalizing s with
  | nil => simp [registerAll]
  | cons r rs ih =>
      have hplace := place_eq_some_iff r.port
      rw [registerAll, register, uniqueId, List.forall_mem_cons, ← hplace]
      cases place r.port with
      | none => simp
      | some i =>
          rw [Option.map_some, Option.bind_some, ih]
          simp

/-- Where all registrations of a port have one handler, that is the one found there. -/
theorem get_registerAll {s s' : Handlers η} {rs : List (Registration η)} {id : UInt16} {h : η}
    (hrun : s.registerAll rs = some s') (hsame : ∀ r ∈ rs, r.port = id → r.handler = h)
    (hsome : s.get id = some (some h) ∨ ∃ r ∈ rs, r.port = id) : s'.get id = some (some h) := by
  induction rs generalizing s with
  | nil =>
      cases hrun
      rcases hsome with hget | ⟨r, hr, -⟩
      · exact hget
      · cases hr
  | cons r rs ih =>
      obtain ⟨s₁, hfirst, hrest⟩ := Option.bind_eq_some_iff.mp hrun
      have hget := get_register hfirst id
      apply ih hrest (fun r' hr' ↦ hsame r' (List.mem_cons_of_mem r hr'))
      by_cases hid : id = r.port
      · left
        rw [hget, if_pos hid, hsame r List.mem_cons_self hid.symm]
      · rw [hget, if_neg hid]
        rcases hsome with hold | ⟨r', hr', hport⟩
        · exact Or.inl hold
        · rcases List.mem_cons.mp hr' with rfl | hr'
          · exact absurd hport.symm hid
          · exact Or.inr ⟨r', hr', hport⟩

end Handlers

theorem onConnected_init (ip : String) (port : UInt16) : onConnected (.init ip port) = port := by
  rw [onConnected, uniqueId, SockAddr.port_init]

/-- Every listener is served by its own handler exactly where no port is the last one, and no two
listeners of one port have different handlers. -/
theorem dispatches_iff (rs : List (Registration η)) :
    Dispatches rs ↔ (∀ r ∈ rs, r.port ≠ 65535) ∧
      ∀ r ∈ rs, ∀ r' ∈ rs, r.port = r'.port → r.handler = r'.handler := by
  rw [← Handlers.isSome_registerAll_iff .empty]
  constructor
  · rintro ⟨s, hs, hserves⟩
    refine ⟨by rw [hs]; rfl, ?_⟩
    intro r hr r' hr' hport
    have hget := (hserves r hr).get_eq
    have hget' := (hserves r' hr').get_eq
    rw [onConnected_init] at hget hget'
    rw [hport, hget'] at hget
    exact (Option.some.inj (Option.some.inj hget)).symm
  · rintro ⟨hsome, hsame⟩
    obtain ⟨s, hs⟩ := Option.isSome_iff_exists.mp hsome
    refine ⟨s, hs, ?_⟩
    intro r hr
    apply serves_of_get
    rw [onConnected_init]
    exact Handlers.get_registerAll hs (fun r' hr' hport ↦ hsame r' hr' r hr hport)
      (Or.inr ⟨r, hr, rfl⟩)

/-- Two addresses of the host with one port: the later handler gets the calls of both. -/
theorem dispatches_fails :
    ¬ Dispatches [⟨"10.0.0.1", 80, 1⟩, (⟨"127.0.0.1", 80, 2⟩ : Registration ℕ)] := by
  rintro ⟨s, hs, hserves⟩
  have hget := (hserves ⟨"10.0.0.1", 80, 1⟩ (by simp)).get_eq
  rw [onConnected_init, @Handlers.get_registerAll _ _ s [⟨"127.0.0.1", 80, 2⟩] 80 2] at hget
  · cases hget
  · exact hs
  · simp
  · exact Or.inr ⟨_, List.mem_singleton_self _, rfl⟩

end ScServer

end Slience
