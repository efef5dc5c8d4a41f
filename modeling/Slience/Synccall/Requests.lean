import Slience.Synccall.ClientRequests
import Slience.Synccall.CoRequests

/-!
# The requests of the two clients

`ScClient` and `CoScClient` fill their requests in the same way and repeat the same loop
around it.  Here each makes a list of calls over connections that do not fail: what `Send`
accepts reaches the server, and its reply comes back.  The bodies that were sent are then
given to `ScServer`, whose handler keeps a list of the calls of its two functions.
-/

namespace Slience

theorem exists_requestsFrom (packidx : UInt32) (cs : List Call) :
    ∃ xs : List (Call × UInt32), requestsFrom packidx cs = xs.map (fun x ↦ x.1.request x.2) ∧
      xs.map Prod.fst = cs := by
  induction cs generalizing packidx with
  | nil => exact ⟨[], rfl, rfl⟩
  | cons c cs ih =>
      obtain ⟨xs, hxs, hfst⟩ := ih (packidx + 1)
      refine ⟨(c, packidx + 1) :: xs, ?_, ?_⟩
      · rw [requestsFrom, hxs, List.map_cons]
      · rw [List.map_cons, hfst]

theorem exists_accepted (packidx : UInt32) (cs : List Call) :
    ∃ xs : List (Call × UInt32),
      ScClient.accepted packidx cs = xs.map (fun x ↦ x.1.request x.2) ∧
      xs.map Prod.fst = cs.filter fun c ↦ c.Small := by
  induction cs generalizing packidx with
  | nil => exact ⟨[], rfl, rfl⟩
  | cons c cs ih =>
      by_cases hsmall : c.Small
      · obtain ⟨xs, hxs, hfst⟩ := ih (packidx + 1)
        refine ⟨(c, packidx + 1) :: xs, ?_, ?_⟩
        · rw [ScClient.accepted, if_pos hsmall, hxs, List.map_cons]
        · rw [List.map_cons, hfst, List.filter_cons_of_pos (by simpa using hsmall)]
      · obtain ⟨xs, hxs, hfst⟩ := ih (packidx + 1 + 1)
        refine ⟨xs, ?_, ?_⟩
        · rw [ScClient.accepted, if_neg hsmall, hxs]
        · rw [hfst, List.filter_cons_of_neg (by simpa using hsmall)]

theorem accepted_of_small {packidx : UInt32} {cs : List Call} (h : ∀ c ∈ cs, c.Small) :
    ScClient.accepted packidx cs = requestsFrom packidx cs := by
  induction cs generalizing packidx with
  | nil => rfl
  | cons c cs ih =>
      rw [ScClient.accepted, if_pos (h c (by simp)), requestsFrom,
        ih (fun d hd ↦ h d (by simp [hd]))]

theorem deals_requestsFrom (packidx : UInt32) (cs : List Call) :
    ScServer.Deals (requestsFrom packidx cs) (cs.map Call.dealing) := by
  obtain ⟨xs, hxs, hfst⟩ := exists_requestsFrom packidx cs
  rw [hxs, ← hfst, List.map_map]
  exact ScServer.deals_requests Prod.fst Prod.snd xs

theorem deals_accepted (packidx : UInt32) (cs : List Call) :
    ScServer.Deals (ScClient.accepted packidx cs)
      ((cs.filter fun c ↦ c.Small).map Call.dealing) := by
  obtain ⟨xs, hxs, hfst⟩ := exists_accepted packidx cs
  rw [hxs, ← hfst, List.map_map]
  exact ScServer.deals_requests Prod.fst Prod.snd xs

theorem length_accepted_le (packidx : UInt32) (cs : List Call) :
    ∀ body ∈ ScClient.accepted packidx cs, body.length ≤ socketPackSize.toNat := by
  induction cs generalizing packidx with
  | nil => simp [ScClient.accepted]
  | cons c cs ih =>
      rw [ScClient.accepted]
      split_ifs with hsmall
      · intro body hbody
        rcases List.mem_cons.mp hbody with rfl | hbody
        · have hlimit : SyncConnector.packLimit.toNat = 65527 := rfl
          have hsize : socketPackSize.toNat = 409600 := rfl
          unfold Call.Small at hsmall
          rw [Call.request, List.length_append, List.length_take]
          change 12 + _ ≤ _
          omega
        · exact ih _ body hbody
      · exact ih _

theorem Call.dealing_withReply_eq_iff (c : Call) :
    c.withReply.dealing = c.dealing ↔ c.twoWay = true := by
  unfold dealing withReply
  cases c.twoWay <;> simp

/-- `ScClient` and `CoScClient`, which start with the same packet counter, make the same
calls over connections that do not fail.  They send the same bodies, and for both the
server calls `OnOneWayDealer` and `OnTwoWayDealer` for the one-way and the two-way calls,
if and only if all calls are two-way and small enough for a `SyncConnector`. -/
theorem requests_agree_iff {packidx : UInt32} {cli cli' : ScClient}
    {nets : List (Call × Net × Net)} {sent : List (List Byte)} {acts : List CoSession.Act}
    {s : CoSession} (hpackidx : cli.packidx = packidx) (hsteady : cli.SteadyAll nets)
    (hsync : cli.syncAll nets = some (cli', sent))
    (hallowed : CoSession.system.Allowed CoSession.Steady (CoSession.init packidx) acts)
    (hrun : CoSession.system.run (CoSession.init packidx) acts = some s)
    (hidle : s.phase = .idle) (hcalls : s.calls = nets.map Prod.fst) :
    (sent = s.requests ∧ ScServer.Deals sent (s.calls.map Call.dealing) ∧
      ScServer.Deals s.requests (s.calls.map Call.dealing)) ↔
      ∀ c ∈ s.calls, c.twoWay = true ∧ c.Small := by
  have hmade := CoSession.run_made hallowed hrun
  obtain ⟨-, -, hrequests⟩ := hmade.idle hidle
  have hsent : sent = ScClient.accepted packidx s.calls := by
    rw [hcalls, ← hpackidx]
    refine ScClient.syncAll_steady ?_ hsteady hsync
    intro x hx
    exact hmade.length_le x.1 (by rw [hcalls]; exact List.mem_map_of_mem hx)
  constructor
  · rintro ⟨-, hdeals, hdeals'⟩ c hc
    constructor
    · rw [hrequests] at hdeals'
      have hkinds := ScServer.Deals.unique (hrequests ▸ hmade.size_le)
        (deals_requestsFrom packidx (s.calls.map Call.withReply)) hdeals'
      rw [List.map_map] at hkinds
      exact (Call.dealing_withReply_eq_iff c).mp (List.map_inj_left.mp hkinds c hc)
    · rw [hsent] at hdeals
      have hall := ScServer.Deals.unique (length_accepted_le packidx s.calls)
        (deals_accepted packidx s.calls) hdeals
      have hlength := congrArg List.length hall
      rw [List.length_map, List.length_map] at hlength
      simpa using List.length_filter_eq_length_iff.mp hlength c hc
  · intro hboth
    have hsame : s.calls.map Call.withReply = s.calls := by
      have hid : ∀ c ∈ s.calls, c.withReply = id c := by
        intro c hc
        obtain ⟨htwo, -⟩ := hboth c hc
        unfold Call.withReply
        rw [← htwo]
        rfl
      rw [List.map_congr_left hid, List.map_id]
    have hboth' : sent = s.requests := by
      rw [hsent, hrequests, hsame, accepted_of_small fun c hc ↦ (hboth c hc).2]
    rw [hboth', hrequests, hsame]
    exact ⟨rfl, deals_requestsFrom packidx s.calls, deals_requestsFrom packidx s.calls⟩

/-- One call, with a reply or without. -/
def oneCall (twoWay : Bool) : Call := ⟨twoWay, 5, [65], 1⟩

def oneNet (twoWay : Bool) : Net where
  connected := true
  endpoints := true
  timestamp := 7
  outcomes := [some 100]
  chunks := [sendBlock 8 (callHead (oneCall twoWay).way 5 1 ++ [66])]

def oneRun (twoWay : Bool) : List CoSession.Act :=
  [.userConnect true, .call (oneCall twoWay) 1 0, .send 7,
    .onReceiveData 0 CoSession.askReply, .doThrResume 1]

theorem steadyAll_oneCall (twoWay : Bool) :
    ScClient.init.SteadyAll [(oneCall twoWay, oneNet twoWay, oneNet twoWay)] := by
  refine ⟨⟨rfl, rfl, ?_⟩, ?_, fun _ _ ↦ trivial⟩
  · intro c' sock hfill hsock _
    have hrun : ((ScClient.init.reach (oneNet twoWay)).2.fillRequest (oneCall twoWay).way
        (oneCall twoWay).msgType.toUInt32 (oneCall twoWay).msg (oneCall twoWay).len).all
        (fun c ↦ c.socket.all (fun s ↦
          (s.send (oneNet twoWay).timestamp c.request.unread c.request.length
            (oneNet twoWay).outcomes).any (fun r ↦ r.1 &&
              (r.2.1.recv (oneNet twoWay).chunks).any (fun res ↦ res.reply &&
                (ScClient.checkReply c.packidx res.conn.frame.msgbuffer).any (·.1))))) =
        true := by
      cases twoWay <;> decide +kernel
    rw [hfill, Option.all_some, hsock, Option.all_some] at hrun
    simp only [Option.any_eq_true, Bool.and_eq_true] at hrun
    obtain ⟨⟨ok, sock', taken⟩, hsend, hok, res, hrecv, hreply, ⟨check, b⟩, hcheck, hyes⟩ := hrun
    cases hok
    cases hyes
    exact ⟨sock', taken, res, b, hsend, hrecv, hreply, hcheck⟩
  · intro r hr hcode
    have hzero : (ScClient.init.attempt (oneCall twoWay) (oneNet twoWay)).all
        (fun r ↦ decide (r.code = 0)) = true := by
      cases twoWay <;> decide +kernel
    rw [hr, Option.all_some, decide_eq_true_iff] at hzero
    exact absurd hzero hcode

theorem allowed_oneRun (twoWay : Bool) :
    CoSession.system.Allowed CoSession.Steady (CoSession.init 0) (oneRun twoWay) := by
  cases twoWay <;> decide +kernel

theorem exists_oneCall (twoWay : Bool) :
    ∃ cli sent s, ScClient.init.syncAll [(oneCall twoWay, oneNet twoWay, oneNet twoWay)] =
        some (cli, sent) ∧
      CoSession.system.run (CoSession.init 0) (oneRun twoWay) = some s ∧ s.phase = .idle ∧
      s.calls = [oneCall twoWay] ∧ sent = [(oneCall twoWay).request 1] ∧
      s.requests = [(oneCall true).request 1] := by
  have hsync : (ScClient.init.syncAll [(oneCall twoWay, oneNet twoWay, oneNet twoWay)]).any
      (fun r ↦ decide (r.2 = [(oneCall twoWay).request 1])) = true := by
    cases twoWay <;> decide +kernel
  have hrun : (CoSession.system.run (CoSession.init 0) (oneRun twoWay)).any (fun s ↦
      decide (s.phase = .idle ∧ s.calls = [oneCall twoWay] ∧
        s.requests = [(oneCall true).request 1])) = true := by
    cases twoWay <;> decide +kernel
  obtain ⟨⟨cli, sent⟩, hr, hsent⟩ := (Option.any_eq_true _ _).mp hsync
  obtain ⟨s, hs, hstate⟩ := (Option.any_eq_true _ _).mp hrun
  obtain ⟨hidle, hcalls, hrequests⟩ := of_decide_eq_true hstate
  exact ⟨cli, sent, s, hr, hs, hidle, hcalls, of_decide_eq_true hsent, hrequests⟩

/-- A two-way call. -/
theorem requests_agree_iff_oneCall :
    ∃ cli sent s, ScClient.init.syncAll [(oneCall true, oneNet true, oneNet true)] =
        some (cli, sent) ∧
      CoSession.system.run (CoSession.init 0) (oneRun true) = some s ∧
      sent = s.requests ∧ ScServer.Deals sent (s.calls.map Call.dealing) ∧
      ScServer.Deals s.requests (s.calls.map Call.dealing) := by
  obtain ⟨cli, sent, s, hsync, hrun, hidle, hcalls, -, -⟩ := exists_oneCall true
  refine ⟨cli, sent, s, hsync, hrun, (requests_agree_iff (rfl : ScClient.init.packidx = 0)
    (steadyAll_oneCall true) hsync (allowed_oneRun true) hrun hidle hcalls).mpr ?_⟩
  rw [hcalls]
  decide

/-- A one-way call, which `CoScClient` sends as a two-way one. -/
theorem requests_agree_fails :
    ScClient.init.SteadyAll [(oneCall false, oneNet false, oneNet false)] ∧
      CoSession.system.Allowed CoSession.Steady (CoSession.init 0) (oneRun false) ∧
      ∃ cli sent s, ScClient.init.syncAll [(oneCall false, oneNet false, oneNet false)] =
          some (cli, sent) ∧
        CoSession.system.run (CoSession.init 0) (oneRun false) = some s ∧ s.phase = .idle ∧
        s.calls = [oneCall false] ∧ sent ≠ s.requests ∧
        ¬ ScServer.Deals s.requests (s.calls.map Call.dealing) := by
  refine ⟨steadyAll_oneCall false, allowed_oneRun false, ?_⟩
  obtain ⟨cli, sent, s, hsync, hrun, hidle, hcalls, hsent, hrequests⟩ := exists_oneCall false
  refine ⟨cli, sent, s, hsync, hrun, hidle, hcalls, ?_, ?_⟩
  · rw [hsent, hrequests]
    decide
  · intro hdeals
    rw [hrequests, hcalls] at hdeals
    have hlen : ∀ body ∈ [(oneCall true).request 1], body.length ≤ socketPackSize.toNat := by
      decide
    have hkinds := hdeals.unique hlen (deals_requestsFrom 0 [oneCall true])
    exact absurd hkinds (by decide)

end Slience
