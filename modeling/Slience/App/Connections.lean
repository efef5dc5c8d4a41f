import Slience.App.ListSafety

/-!
# The container and the descriptors

The entry of a connection is stored under the descriptor its socket had when the connection
was announced, and it is removed under the descriptor its socket has when the end of the
connection is processed.  The IO layer closes the descriptor, and forgets it, before it
makes the callback `OnDisconnected`; the entry is then looked for under `M_INVALID_SOCKET`.

A run keeps the container as it should be when no descriptor changes while the container
has an entry of its socket, and no connection is announced that has lost its descriptor while
there is an entry for such a connection.
-/

namespace Slience

namespace Container

variable {c : Container}

theorem insert_eq_some {c' : Container} {x : Context} (h : c.insert x = some c') :
    c'.entries = x :: c.entries := by
  unfold insert at h
  split at h
  · cases h
  · cases h
    rfl

theorem insert_eq_none_iff {x : Context} :
    c.insert x = none ↔ ∃ y ∈ c.entries, y.fd = x.fd := by
  unfold insert
  split
  · rename_i hmem
    simpa using hmem
  · rename_i hmem
    simpa using hmem

theorem mem_erase {fd : ℤ} {x : Context} :
    x ∈ (c.erase fd).entries ↔ x ∈ c.entries ∧ x.fd ≠ fd := by
  simp [erase]

theorem exists_of_mem_modify {fd : ℤ} {cnt : Int32} {tt : UInt32} {x : Context}
    (hx : x ∈ (c.modify fd cnt tt).entries) : ∃ y ∈ c.entries, y.fd = x.fd ∧ y.ptr = x.ptr := by
  obtain ⟨y, hy, rfl⟩ := List.mem_map.mp hx
  refine ⟨y, hy, ?_⟩
  split <;> exact ⟨rfl, rfl⟩

theorem lists_modify_iff {fd : ℤ} {cnt : Int32} {tt : UInt32} {clisock : ℕ} :
    (c.modify fd cnt tt).Lists clisock ↔ c.Lists clisock := by
  constructor
  · rintro ⟨x, hx, rfl⟩
    obtain ⟨y, hy, -, hptr⟩ := exists_of_mem_modify hx
    exact ⟨y, hy, hptr⟩
  · rintro ⟨y, hy, rfl⟩
    refine ⟨_, List.mem_map_of_mem hy, ?_⟩
    split <;> rfl

end Container

/-! ## The callbacks as the IO layer makes them -/

namespace Conns

/-- No callback was made for the socket. -/
def Unannounced (c : Conns) (clisock : ℕ) : Prop := ∀ r ∈ c.received, r.ptr ≠ clisock

instance (c : Conns) (clisock : ℕ) : Decidable (c.Unannounced clisock) :=
  inferInstanceAs (Decidable (∀ r ∈ c.received, r.ptr ≠ clisock))

/-- The IO layer announces a socket first, and it tells of its end when its descriptor is
closed. -/
def Contract (c : Conns) : Callback → Prop
  | .onConnected clisock _ => c.Unannounced clisock
  | .onDisconnected clisock => c.fds clisock = invalidSocket
  | .onReceiveData _ _ => True

/-- What the container and the descriptors have to do with each other and with the messages
served. -/
structure Consistent (c : Conns) (pending : List Received) : Prop where
  order : ∃ done, c.received = done ++ pending ∧
    List.Forall₂ (fun r v ↦ v.ptr = r.ptr ∧ v.type = r.type) done c.served
  in_first : c.received.Pairwise fun q r ↦ r.type = .socketIn → q.ptr ≠ r.ptr
  entry_fd : ∀ x ∈ c.container.entries, x.fd = c.fds x.ptr
  entry_in : ∀ x ∈ c.container.entries, ∃ v ∈ c.served, v.ptr = x.ptr
  out_entry : ∀ v ∈ c.served, v.type = .socketOut → ¬ c.container.Lists v.ptr
  out_fd : ∀ r ∈ c.received, r.type = .socketOut → c.fds r.ptr = invalidSocket
  in_call : ∀ v ∈ c.served, v.type = .socketIn → ∀ call ∈ v.calls,
    call.fd = c.fds v.ptr ∧ (c.container.Lists v.ptr ∨ c.fds v.ptr = invalidSocket)
  out_call : ∀ v ∈ c.served, v.type = .socketOut →
    v.calls = [ProcCall.event invalidSocket cmdSocketClientOut]

variable {c c' : Conns} {pending later : List Received}

theorem consistent_init (packing : Packing) : Consistent (Conns.init packing) [] where
  order := ⟨[], rfl, List.Forall₂.nil⟩
  in_first := List.Pairwise.nil
  entry_fd := by simp [Conns.init, Container.empty]
  entry_in := by simp [Conns.init, Container.empty]
  out_entry := by simp [Conns.init]
  out_fd := by simp [Conns.init]
  in_call := by simp [Conns.init]
  out_call := by simp [Conns.init]

theorem Consistent.exists_done (hc : c.Consistent pending) : ∃ done,
    c.received = done ++ pending ∧
      ∀ v ∈ c.served, ∃ r ∈ done, r.ptr = v.ptr ∧ r.type = v.type := by
  obtain ⟨done, hreceived, hdone⟩ := hc.order
  refine ⟨done, hreceived, ?_⟩
  intro v hv
  obtain ⟨i, hi, rfl⟩ := List.mem_iff_getElem.mp hv
  have hi' : i < done.length := by
    rw [hdone.length_eq]
    exact hi
  obtain ⟨hptr, htype⟩ := (List.forall₂_iff_get.mp hdone).2 i hi' hi
  exact ⟨done[i], List.getElem_mem hi', hptr.symm, htype.symm⟩

theorem Consistent.received_of_served (hc : c.Consistent pending) {v : Served} (hv : v ∈ c.served) :
    ∃ r ∈ c.received, r.ptr = v.ptr ∧ r.type = v.type := by
  obtain ⟨done, hreceived, hdone⟩ := hc.exists_done
  obtain ⟨r, hr, hsame⟩ := hdone v hv
  refine ⟨r, ?_, hsame⟩
  rw [hreceived]
  exact List.mem_append_left _ hr

theorem Consistent.record (hc : c.Consistent pending) {e : Callback} (he : c.Contract e) :
    (c.record e.received).Consistent (pending ++ [e.received]) := by
  obtain ⟨done, hreceived, hdone⟩ := hc.order
  refine ⟨⟨done, ?_, hdone⟩, ?_, hc.entry_fd, hc.entry_in, hc.out_entry, ?_, hc.in_call,
    hc.out_call⟩
  · rw [← List.append_assoc, ← hreceived]
    rfl
  · refine List.pairwise_append.mpr ⟨hc.in_first, List.pairwise_singleton _ _, ?_⟩
    intro q hq r hr hin
    rw [List.mem_singleton] at hr
    subst hr
    cases e with
    | onConnected clisock error => exact he q hq
    | onDisconnected clisock => cases hin
    | onReceiveData clisock buffer => cases hin
  · intro r hr hout
    rcases List.mem_append.mp hr with hr | hr
    · exact hc.out_fd r hr hout
    · rw [List.mem_singleton] at hr
      subst hr
      cases e with
      | onConnected clisock error => cases hout
      | onDisconnected clisock => exact he
      | onReceiveData clisock buffer => cases hout

theorem Consistent.setFd (hc : c.Consistent pending) {clisock : ℕ} {fd : ℤ}
    (hannounced : c.Unannounced clisock ∨ fd = invalidSocket)
    (hentry : ¬ c.container.Lists clisock) : (c.setFd clisock fd).Consistent pending := by
  have hinvalid : ∀ r ∈ c.received, c.fds r.ptr = invalidSocket →
      (c.setFd clisock fd).fds r.ptr = invalidSocket := by
    intro r hr hfd
    by_cases heq : r.ptr = clisock
    · rcases hannounced with hun | rfl
      · exact absurd heq (hun r hr)
      · rw [heq]
        exact Function.update_self ..
    · exact (Function.update_of_ne heq ..).trans hfd
  refine ⟨hc.order, hc.in_first, ?_, hc.entry_in, hc.out_entry, ?_, ?_, hc.out_call⟩
  · intro x hx
    have hne : x.ptr ≠ clisock := fun heq ↦ hentry ⟨x, hx, heq⟩
    exact (hc.entry_fd x hx).trans (Function.update_of_ne hne ..).symm
  · intro r hr hout
    exact hinvalid r hr (hc.out_fd r hr hout)
  · intro v hv hin call hcall
    obtain ⟨hfd, hwhere⟩ := hc.in_call v hv hin call hcall
    by_cases heq : v.ptr = clisock
    · -- the socket has no entry any more, so its descriptor was closed already
      have hold : c.fds v.ptr = invalidSocket := hwhere.resolve_left (heq ▸ hentry)
      obtain ⟨r, hr, hptr, -⟩ := hc.received_of_served hv
      have hnew := hinvalid r hr (hptr ▸ hold)
      rw [hptr] at hnew
      exact ⟨by rw [hfd, hold, hnew], Or.inr hnew⟩
    · have hsame : (c.setFd clisock fd).fds v.ptr = c.fds v.ptr := Function.update_of_ne heq ..
      rw [hsame]
      exact ⟨hfd, hwhere⟩

/-! ## One message -/

/-- The parts of `Consistent` that only tell of messages, after one more was served. -/
theorem Consistent.order_serve {r : Received} {v : Served} (hc : c.Consistent (r :: later))
    (hptr : v.ptr = r.ptr) (htype : v.type = r.type) :
    ∃ done, c.received = done ++ later ∧
      List.Forall₂ (fun r v ↦ v.ptr = r.ptr ∧ v.type = r.type) done (c.served ++ [v]) := by
  obtain ⟨done, hreceived, hdone⟩ := hc.order
  refine ⟨done ++ [r], by rw [List.append_assoc]; exact hreceived, ?_⟩
  exact List.rel_append hdone (List.Forall₂.cons ⟨hptr, htype⟩ List.Forall₂.nil)

theorem Consistent.mem_received {r : Received} (hc : c.Consistent (r :: later)) :
    r ∈ c.received := by
  obtain ⟨done, hreceived, -⟩ := hc.order
  rw [hreceived]
  simp

theorem Consistent.served_ptr_ne {r : Received} (hc : c.Consistent (r :: later))
    (hin : r.type = .socketIn) {v : Served} (hv : v ∈ c.served) : v.ptr ≠ r.ptr := by
  obtain ⟨done, hreceived, hdone⟩ := hc.exists_done
  obtain ⟨q, hq, hptr, -⟩ := hdone v hv
  have hfirst := hc.in_first
  rw [hreceived, List.pairwise_append] at hfirst
  have hne := hfirst.2.2 q hq r (by simp) hin
  rwa [hptr] at hne

theorem Consistent.not_lists_of_in {r : Received} (hc : c.Consistent (r :: later))
    (hin : r.type = .socketIn) : ¬ c.container.Lists r.ptr := by
  rintro ⟨x, hx, hptr⟩
  obtain ⟨v, hv, hvptr⟩ := hc.entry_in x hx
  exact hc.served_ptr_ne hin hv (hvptr.trans hptr)

theorem Consistent.serve_keep {r : Received} {container : Container} {calls : List ProcCall}
    {listed : Bool} (hc : c.Consistent (r :: later)) (hout : r.type ≠ .socketOut)
    (hcalls : r.type = .socketIn → calls = [])
    (hentries : ∀ x ∈ container.entries, ∃ y ∈ c.container.entries, y.fd = x.fd ∧ y.ptr = x.ptr)
    (hlists : ∀ clisock, c.container.Lists clisock → container.Lists clisock) :
    Consistent { c with container, served := c.served ++ [⟨r.ptr, r.type, listed, calls⟩] }
      later where
  order := hc.order_serve rfl rfl
  in_first := hc.in_first
  entry_fd := by
    intro x hx
    obtain ⟨y, hy, hfd, hptr⟩ := hentries x hx
    rw [← hfd, ← hptr]
    exact hc.entry_fd y hy
  entry_in := by
    intro x hx
    obtain ⟨y, hy, -, hptr⟩ := hentries x hx
    obtain ⟨v, hv, hvptr⟩ := hc.entry_in y hy
    exact ⟨v, List.mem_append_left _ hv, hvptr.trans hptr⟩
  out_entry := by
    intro v hv hvout
    rcases List.mem_append.mp hv with hv | hv
    · rintro ⟨x, hx, hxptr⟩
      obtain ⟨y, hy, -, hptr⟩ := hentries x hx
      exact hc.out_entry v hv hvout ⟨y, hy, hptr.trans hxptr⟩
    · rw [List.mem_singleton] at hv
      subst hv
      exact absurd hvout hout
  out_fd := hc.out_fd
  in_call := by
    intro v hv hin call hcall
    rcases List.mem_append.mp hv with hv | hv
    · obtain ⟨hfd, hwhere⟩ := hc.in_call v hv hin call hcall
      exact ⟨hfd, hwhere.imp_left (hlists v.ptr)⟩
    · rw [List.mem_singleton] at hv
      subst hv
      rw [hcalls hin] at hcall
      simp at hcall
  out_call := by
    intro v hv hvout
    rcases List.mem_append.mp hv with hv | hv
    · exact hc.out_call v hv hvout
    · rw [List.mem_singleton] at hv
      subst hv
      exact absurd hvout hout

theorem Consistent.serve_in {r : Received} {container : Container} {listed : Bool} {now : UInt32}
    (hc : c.Consistent (r :: later)) (hin : r.type = .socketIn)
    (hinsert : c.container.insert ⟨c.fds r.ptr, 0, now, r.ptr⟩ = some container) :
    Consistent { c with
      container
      served := c.served ++
        [⟨r.ptr, r.type, listed, [ProcCall.event (c.fds r.ptr) cmdSocketClientIn]⟩] } later := by
  have hentries := Container.insert_eq_some hinsert
  have hmem : ∀ x ∈ container.entries,
      x = ⟨c.fds r.ptr, 0, now, r.ptr⟩ ∨ x ∈ c.container.entries := by
    intro x hx
    rw [hentries] at hx
    exact List.mem_cons.mp hx
  have hlists : ∀ clisock, c.container.Lists clisock → container.Lists clisock := by
    rintro clisock ⟨x, hx, hptr⟩
    exact ⟨x, by rw [hentries]; exact List.mem_cons_of_mem _ hx, hptr⟩
  have hself : container.Lists r.ptr := ⟨_, by rw [hentries]; exact List.mem_cons_self .., rfl⟩
  refine ⟨hc.order_serve rfl rfl, hc.in_first, ?_, ?_, ?_, hc.out_fd, ?_, ?_⟩
  · intro x hx
    rcases hmem x hx with rfl | hx
    · rfl
    · exact hc.entry_fd x hx
  · intro x hx
    rcases hmem x hx with rfl | hx
    · exact ⟨_, List.mem_append_right _ (List.mem_singleton_self _), rfl⟩
    · obtain ⟨v, hv, hptr⟩ := hc.entry_in x hx
      exact ⟨v, List.mem_append_left _ hv, hptr⟩
  · intro v hv hvout
    rcases List.mem_append.mp hv with hv | hv
    · rintro ⟨x, hx, hptr⟩
      rcases hmem x hx with rfl | hx
      · exact hc.served_ptr_ne hin hv hptr.symm
      · exact hc.out_entry v hv hvout ⟨x, hx, hptr⟩
    · rw [List.mem_singleton] at hv
      subst hv
      rw [hin] at hvout
      cases hvout
  · intro v hv hvin call hcall
    rcases List.mem_append.mp hv with hv | hv
    · obtain ⟨hfd, hwhere⟩ := hc.in_call v hv hvin call hcall
      exact ⟨hfd, hwhere.imp_left (hlists v.ptr)⟩
    · rw [List.mem_singleton] at hv
      subst hv
      rw [List.mem_singleton] at hcall
      subst hcall
      exact ⟨rfl, Or.inl hself⟩
  · intro v hv hvout
    rcases List.mem_append.mp hv with hv | hv
    · exact hc.out_call v hv hvout
    · rw [List.mem_singleton] at hv
      subst hv
      rw [hin] at hvout
      cases hvout

/-- `OnDisConnection` removes the entry of a socket whose descriptor is the key. -/
theorem Consistent.serve_out {r : Received} {listed : Bool} (hc : c.Consistent (r :: later))
    (hout : r.type = .socketOut) :
    Consistent { c with
      container := c.container.erase (c.fds r.ptr)
      served := c.served ++
        [⟨r.ptr, r.type, listed, [ProcCall.event (c.fds r.ptr) cmdSocketClientOut]⟩] } later := by
  have hclosed : c.fds r.ptr = invalidSocket := hc.out_fd r hc.mem_received hout
  have hmem : ∀ x ∈ (c.container.erase (c.fds r.ptr)).entries, x ∈ c.container.entries :=
    fun x hx ↦ (Container.mem_erase.mp hx).1
  refine ⟨hc.order_serve rfl rfl, hc.in_first, ?_, ?_, ?_, hc.out_fd, ?_, ?_⟩
  · intro x hx
    exact hc.entry_fd x (hmem x hx)
  · intro x hx
    obtain ⟨v, hv, hptr⟩ := hc.entry_in x (hmem x hx)
    exact ⟨v, List.mem_append_left _ hv, hptr⟩
  · intro v hv hvout
    rintro ⟨x, hx, hptr⟩
    rcases List.mem_append.mp hv with hv | hv
    · exact hc.out_entry v hv hvout ⟨x, hmem x hx, hptr⟩
    · rw [List.mem_singleton] at hv
      subst hv
      -- the entry of this socket has its descriptor as key
      have hkey := hc.entry_fd x (hmem x hx)
      rw [hptr] at hkey
      exact (Container.mem_erase.mp hx).2 hkey
  · intro v hv hvin call hcall
    rcases List.mem_append.mp hv with hv | hv
    · obtain ⟨hfd, hwhere⟩ := hc.in_call v hv hvin call hcall
      refine ⟨hfd, ?_⟩
      by_cases hinvalid : c.fds v.ptr = invalidSocket
      · exact Or.inr hinvalid
      · obtain ⟨x, hx, hptr⟩ := hwhere.resolve_right hinvalid
        refine Or.inl ⟨x, Container.mem_erase.mpr ⟨hx, ?_⟩, hptr⟩
        rw [hc.entry_fd x hx, hptr, hclosed]
        exact hinvalid
    · rw [List.mem_singleton] at hv
      subst hv
      rw [hout] at hvin
      cases hvin
  · intro v hv hvout
    rcases List.mem_append.mp hv with hv | hv
    · exact hc.out_call v hv hvout
    · rw [List.mem_singleton] at hv
      subst hv
      rw [hclosed]

theorem Consistent.serve {r : Received} {m : Msg} {now : UInt32} {clisock : ℕ}
    (hc : c.Consistent (r :: later)) (hm : m.TellsOf r) (hptr : m.ptr = some clisock)
    (hserve : c.serve now clisock m = some c') : c'.Consistent later := by
  obtain rfl : r.ptr = clisock := by
    rw [hm.ptr_eq] at hptr
    exact Option.some.inj hptr
  obtain ⟨⟨container, calls⟩, hdispatch, hserve⟩ := Option.bind_eq_some_iff.mp hserve
  cases hserve
  rw [hm.type_eq]
  unfold Conns.dispatch at hdispatch
  rw [hm.type_eq] at hdispatch
  cases htype : r.type with
  | socketData =>
      simp only [htype] at hdispatch
      have hsame : (∀ x ∈ container.entries, ∃ y ∈ c.container.entries,
          y.fd = x.fd ∧ y.ptr = x.ptr) ∧
          ∀ clisock, c.container.Lists clisock → container.Lists clisock := by
        split at hdispatch
        · cases hdispatch
          exact ⟨fun x hx ↦ ⟨x, hx, rfl, rfl⟩, fun _ h ↦ h⟩
        · obtain ⟨rfl, -⟩ := Conns.procData_eq_some hdispatch
          exact ⟨fun x hx ↦ Container.exists_of_mem_modify hx,
            fun _ h ↦ Container.lists_modify_iff.mpr h⟩
      rw [← htype]
      exact hc.serve_keep (by simp [htype]) (by simp [htype]) hsame.1 hsame.2
  | socketIn =>
      simp only [htype, Option.some.injEq] at hdispatch
      unfold Conns.onConnection at hdispatch
      rw [← htype]
      split at hdispatch
      · dsimp only at hdispatch
        split at hdispatch
        · cases hdispatch
          exact hc.serve_keep (by simp [htype]) (fun _ ↦ rfl)
            (fun x hx ↦ ⟨x, hx, rfl, rfl⟩) (fun _ h ↦ h)
        · rename_i hinsert
          cases hdispatch
          exact hc.serve_in htype hinsert
      · cases hdispatch
        exact hc.serve_keep (by simp [htype]) (fun _ ↦ rfl)
          (fun x hx ↦ ⟨x, hx, rfl, rfl⟩) (fun _ h ↦ h)
  | socketOut =>
      simp only [htype, Option.some.injEq] at hdispatch
      unfold Conns.onDisConnection at hdispatch
      cases hdispatch
      rw [← htype]
      exact hc.serve_out htype

end Conns

/-! ## Whole runs -/

namespace App

open MsgLists (View Owned Exact ListName)

/-- The IO layer keeps its contract.  The descriptor of a socket it has announced only
changes when it is closed. -/
def Contract (s : App) : Step → Prop
  | .io k (.callback e) => (s.lane k).toConns.Contract e
  | .io k (.setFd clisock fd) =>
      (s.lane k).toConns.Unannounced clisock ∨ fd = invalidSocket
  | _ => True

/-- The application over an IO layer that keeps its contract. -/
def contractSystem : System App Step := ⟨fun s a ↦ s.Enabled a ∧ s.Contract a, step⟩

/-- The message the lane goes through next announces the socket. -/
def Announces (L : Lane) (clisock : ℕ) : Prop :=
  match L.lists.frontMsg with
  | none => False
  | some (_, m) => m.ptr = some clisock ∧ m.type = .socketIn ∧ m.error = 0

/-- The socket that is announced next has its descriptor, or there is no entry without
one. -/
def FindsRoom (L : Lane) : Prop :=
  match L.lists.frontMsg with
  | none => True
  | some (_, m) => ∀ clisock ∈ m.ptr, m.type = .socketIn → m.error = 0 →
      L.fds clisock = invalidSocket → ∀ x ∈ L.container.entries, x.fd ≠ invalidSocket

/-- The condition under which the container follows the connections. -/
def ConnectionsCond (s : App) : Step → Prop
  | .io k (.setFd clisock _) => ¬ (s.lane k).container.Lists clisock
  | .main => ∀ k, s.phase.serves k = true → FindsRoom (s.lane k)
  | _ => True

/-- When the end of a connection was served the container has no entry of its socket, and
`OnProc` was told of its end under the descriptor it was told of its beginning. -/
structure Released (c : Conns) : Prop where
  no_entry : ∀ v ∈ c.served, v.type = .socketOut → ¬ c.container.Lists v.ptr
  out_call : ∀ v ∈ c.served, v.type = .socketOut →
    ∃ fd, v.calls = [ProcCall.event fd cmdSocketClientOut]
  same_fd : ∀ v ∈ c.served, ∀ w ∈ c.served, v.type = .socketIn → w.type = .socketOut →
    v.ptr = w.ptr → ∀ call ∈ v.calls, ∀ call' ∈ w.calls, call.fd = call'.fd

/-- A connection is refused when it is announced only if another one with its descriptor is
open. -/
def RefusesOpen (L : Lane) : Prop :=
  ∀ clisock now, Announces L clisock →
    L.container.insert ⟨L.fds clisock, 0, now, clisock⟩ = none →
    ∃ other, other ≠ clisock ∧ L.fds other = L.fds clisock ∧ L.fds other ≠ invalidSocket

theorem released_of_consistent {c : Conns} {pending : List Received} (hc : c.Consistent pending) :
    Released c where
  no_entry := hc.out_entry
  out_call v hv hout := ⟨invalidSocket, hc.out_call v hv hout⟩
  same_fd := by
    intro v hv w hw hin hout hptr call hcall call' hcall'
    rw [hc.out_call w hw hout, List.mem_singleton] at hcall'
    obtain ⟨r, hr, hrptr, hrtype⟩ := hc.received_of_served hw
    have hclosed := hc.out_fd r hr (hrtype.trans hout)
    rw [(hc.in_call v hv hin call hcall).1, hptr, ← hrptr, hclosed, hcall']
    rfl

theorem refusesOpen_of_consistent {L : Lane} {V : View} {pending : List Received}
    (hinv : LaneInv Msg.TellsOf Conns.Consistent L V pending) (hroom : FindsRoom L) :
    RefusesOpen L := by
  intro clisock now hannounces hrefused
  obtain ⟨x, hx, hfd⟩ := Container.insert_eq_none_iff.mp hrefused
  have hkey := hinv.conns.entry_fd x hx
  cases hfront : L.lists.frontMsg with
  | none => simp [Announces, hfront] at hannounces
  | some pm =>
      obtain ⟨p, m⟩ := pm
      simp only [Announces, hfront] at hannounces
      simp only [FindsRoom, hfront] at hroom
      obtain ⟨hptr, hin, herror⟩ := hannounces
      obtain ⟨-, -, r, later, -, rfl, htells, -⟩ := hinv.front hfront
      refine ⟨x.ptr, ?_, hkey.symm.trans hfd, ?_⟩
      · intro heq
        have hr : r.ptr = clisock := by
          rw [htells.ptr_eq] at hptr
          exact Option.some.inj hptr
        apply hinv.conns.not_lists_of_in (htells.type_eq.symm.trans hin)
        exact ⟨x, hx, heq.trans hr.symm⟩
      · intro hinvalid
        have hsock : L.fds clisock = invalidSocket := by
          rw [← hinvalid, ← hkey]
          exact hfd.symm
        exact hroom clisock hptr hin herror hsock x hx (hkey.trans hinvalid)

theorem keeps_consistent {s : App} {a : Step} (hcontract : s.Contract a)
    (hcond : ConnectionsCond s a) : Keeps Msg.TellsOf (fun _ ↦ Conns.Consistent) s a where
  fill _ _ _ _ _ hfill _ := Callback.tellsOf_of_fill hfill
  record := by
    rintro k e rfl pending hc
    exact hc.record hcontract
  setFd := by
    rintro k clisock fd rfl pending hc
    exact hc.setFd hcontract hcond
  serve _ _ _ _ _ _ _ _ _ _ hptr hm hc hserve := hc.serve hm hptr hserve

/-- In every state of a run whose steps meet the condition, connections that ended are
released; and a step that meets it refuses no connection without need. -/
theorem connections_released (packing : Packing) (as : List Step) (s : App)
    (h : contractSystem.Allowed ConnectionsCond (init packing) as)
    (hrun : contractSystem.run (init packing) as = some s) (k : Kind) :
    Released (s.lane k).toConns ∧
      (s.phase.serves k = true → ConnectionsCond s .main → RefusesOpen (s.lane k)) := by
  let I : App → Prop := fun s ↦ ∃ V pending,
    At Msg.TellsOf (fun _ ↦ Conns.Consistent) s V pending
  have hinit : I (init packing) := ⟨_, _, At.init fun _ ↦ Conns.consistent_init packing⟩
  obtain ⟨V, pending, hat⟩ := System.invariant_of_run (I := I) (by
    rintro s a s' ⟨V, pending, hat⟩ ⟨-, hcontract⟩ hcond hstep
    obtain ⟨V', pending', hat', -⟩ := hat.step (keeps_consistent hcontract hcond) hstep
    exact ⟨V', pending', hat'⟩) hinit h hrun
  refine ⟨released_of_consistent (hat.lane k).conns, ?_⟩
  intro hserves hcond
  exact refusesOpen_of_consistent (hat.lane k) (hcond k hserves)

instance (s : App) (a : Step) : Decidable (s.Contract a) :=
  match a with
  | .io k (.callback (.onConnected clisock _)) =>
      inferInstanceAs (Decidable ((s.lane k).toConns.Unannounced clisock))
  | .io k (.callback (.onDisconnected clisock)) =>
      inferInstanceAs (Decidable ((s.lane k).fds clisock = invalidSocket))
  | .io _ (.callback (.onReceiveData _ _)) => inferInstanceAs (Decidable True)
  | .io k (.setFd clisock fd) => inferInstanceAs
      (Decidable ((s.lane k).toConns.Unannounced clisock ∨ fd = invalidSocket))
  | .tick _ | .main => inferInstanceAs (Decidable True)

instance (s : App) (a : Step) : Decidable (contractSystem.enabled s a) :=
  inferInstanceAs (Decidable (s.Enabled a ∧ s.Contract a))

instance (L : Lane) : Decidable (FindsRoom L) :=
  match h : L.lists.frontMsg with
  | none => isTrue (by simp [FindsRoom, h])
  | some (_, m) => decidable_of_iff (∀ clisock ∈ m.ptr, m.type = .socketIn → m.error = 0 →
      L.fds clisock = invalidSocket → ∀ x ∈ L.container.entries, x.fd ≠ invalidSocket)
      (by simp [FindsRoom, h])

instance (s : App) (a : Step) : Decidable (ConnectionsCond s a) :=
  match a with
  | .io k (.setFd clisock _) =>
      inferInstanceAs (Decidable (¬ (s.lane k).container.Lists clisock))
  | .main => inferInstanceAs (Decidable (∀ k, s.phase.serves k = true → FindsRoom (s.lane k)))
  | .io _ (.callback _) | .tick _ => inferInstanceAs (Decidable True)

/-- One round of `Run` that goes through two messages of sockets. -/
def pairRound : List Step := [.main, .main, .main, .main, .main, .main]

/-- A socket is announced, is closed before `Run` gets to it, and its end is served. -/
def earlyCloseRun : List Step :=
  [.io .socket (.setFd 1 5), .io .socket (.callback (.onConnected 1 0)),
    .io .socket (.setFd 1 invalidSocket), .io .socket (.callback (.onDisconnected 1))] ++ pairRound

theorem connections_released_earlyCloseRun :
    contractSystem.Allowed ConnectionsCond (init .pragmaPack) earlyCloseRun ∧
      ∃ s, contractSystem.run (init .pragmaPack) earlyCloseRun = some s ∧
        Released (s.lane .socket).toConns ∧
        (s.phase.serves .socket = true → ConnectionsCond s .main →
          RefusesOpen (s.lane .socket)) := by
  refine ⟨by decide, ?_⟩
  have hsome : (contractSystem.run (init .pragmaPack) earlyCloseRun).isSome := by decide
  obtain ⟨s, hs⟩ := Option.isSome_iff_exists.mp hsome
  exact ⟨s, hs, connections_released .pragmaPack earlyCloseRun s (by decide) hs .socket⟩

/-- A socket is announced and the announcement served; then it is closed and its end served. -/
def lateCloseRun : List Step :=
  [.io .socket (.setFd 1 5), .io .socket (.callback (.onConnected 1 0)),
    .main, .main, .main, .main, .main,
    .io .socket (.setFd 1 invalidSocket), .io .socket (.callback (.onDisconnected 1)),
    .main, .main, .main, .main, .main]

theorem connections_released_fails : ¬ ∀ as s,
    contractSystem.Allowed System.anyStep (init .pragmaPack) as →
    contractSystem.run (init .pragmaPack) as = some s → ∀ k, Released (s.lane k).toConns ∧
      (s.phase.serves k = true → RefusesOpen (s.lane k)) := by
  intro h
  have hsome : (contractSystem.run (init .pragmaPack) lateCloseRun).isSome := by decide
  obtain ⟨s, hs⟩ := Option.isSome_iff_exists.mp hsome
  have hserved : (contractSystem.run (init .pragmaPack) lateCloseRun).map (fun s ↦
      ((s.lane .socket).served[1]?.map fun v ↦ (v.type, v.ptr),
        decide ((s.lane .socket).container.Lists 1))) =
      some (some (.socketOut, 1), true) := by decide
  rw [hs, Option.map_some, Option.some.injEq, Prod.mk.injEq] at hserved
  obtain ⟨v, hv, hout⟩ := Option.map_eq_some_iff.mp hserved.1
  have hreleased := (h lateCloseRun s (by decide) hs .socket).1
  rw [Prod.mk.injEq] at hout
  apply hreleased.no_entry v (List.mem_of_getElem? hv) hout.1
  rw [hout.2]
  exact of_decide_eq_true hserved.2

end App

end Slience
