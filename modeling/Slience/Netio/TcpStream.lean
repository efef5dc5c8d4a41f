import Slience.Netio.SendQueue
import Slience.Netio.StreamSocket

/-!
# From `Send` to `OnReceiveData`

The send queue of one socket, the bytes that the transport has taken from it, and the reader of
the socket at the other end.  Calls of `Send(data, len)` and `Close` from any threads, completions
of writes and reads of any size come in any order; the messages that the reader hands over are
those that `Send` accepted, in their order.
-/

namespace Slience

/-- One direction of a connection: what `Send` accepted, and how many of the bytes that the
transport took were read. -/
structure TcpStream (σ : Type*) where
  link : Link
  sent : List (Int32 × List Byte)
  read : ℕ
  feed : TcpStreamSocket.Feed σ

namespace TcpStream

variable {σ : Type*}

inductive Act where
  | send (timestamp : Int32) (data : List Byte) (len : UInt32)
  | writeDone (tranByte : UInt32)
  | close
  | receive (n : ℕ)

/-- The bytes that are on their way. -/
def inFlight (c : TcpStream σ) : List Byte := c.link.taken.drop c.read

def enabled (c : TcpStream σ) : Act → Prop
  | .send timestamp data len => c.link.enabled (.send timestamp data len)
  | .writeDone tranByte => c.link.enabled (.writeDone tranByte)
  | .close => True
  | .receive n => 1 ≤ n ∧ n ≤ socketReadSize ∧ n ≤ c.inFlight.length

instance (c : TcpStream σ) : (a : Act) → Decidable (c.enabled a)
  | .send timestamp data len =>
      inferInstanceAs (Decidable (c.link.enabled (.send timestamp data len)))
  | .writeDone tranByte => inferInstanceAs (Decidable (c.link.enabled (.writeDone tranByte)))
  | .close => inferInstanceAs (Decidable True)
  | .receive n => inferInstanceAs (Decidable (1 ≤ n ∧ n ≤ _ ∧ n ≤ _))

/-- A call of `Send` returned. -/
def queued (c : TcpStream σ) (timestamp : Int32) (data : List Byte) (r : Bool × BaseSocket) :
    TcpStream σ where
  link := c.link.sent (sendBlock timestamp data) r
  sent := if r.1 then c.sent ++ [(timestamp, data)] else c.sent
  read := c.read
  feed := c.feed

def step (onReceiveData : σ → Buffer → σ × Buffer) (c : TcpStream σ) : Act → Option (TcpStream σ)
  | .send timestamp data len =>
      (c.link.base.send false timestamp data len).map
        (c.queued timestamp (data.take len.toNat))
  | .writeDone tranByte =>
      (c.link.step (.writeDone tranByte)).map fun link ↦ { c with link }
  | .close => (c.link.step .close).map fun link ↦ { c with link }
  | .receive n =>
      (TcpStreamSocket.feedChunk onReceiveData c.feed (c.inFlight.take n)).map fun feed ↦
        { c with read := c.read + n, feed }

def system (onReceiveData : σ → Buffer → σ × Buffer) : System (TcpStream σ) Act :=
  ⟨enabled, step onReceiveData⟩

instance (onReceiveData : σ → Buffer → σ × Buffer) (c : TcpStream σ) (a : Act) :
    Decidable ((system onReceiveData).enabled c a) :=
  inferInstanceAs (Decidable (c.enabled a))

/-- A connection that was just made. -/
def connected (w : σ) : TcpStream σ := ⟨.connected, [], 0, .start w⟩

/-- The messages that were sent. -/
def payloads (c : TcpStream σ) : List (List Byte) := c.sent.map Prod.snd

/-- The blocks of the queue are those of the messages, and the reader has parsed what it read. -/
structure Inv (c : TcpStream σ) : Prop where
  link : c.link.Inv
  accepted : c.link.accepted = c.sent.map fun x ↦ sendBlock x.1 x.2
  size : ∀ x ∈ c.sent, x.2.length ≤ socketPackSize.toNat
  read_le : c.read ≤ c.link.taken.length
  agrees : c.feed.out.Agrees (TcpStreamSocket.format.parse (c.link.taken.take c.read))

variable {onReceiveData : σ → Buffer → σ × Buffer} {c c' : TcpStream σ}

theorem inv_connected (w : σ) : (connected w).Inv where
  link := Link.inv_connected
  accepted := rfl
  size := by simp [connected]
  read_le := Nat.zero_le _
  agrees := TcpStreamSocket.start_agrees w

/-- The transport only takes more. -/
theorem taken_begins {l l' : Link} {a : Link.Act} (hstep : l.step a = some l') :
    l.taken <+: l'.taken := by
  cases a with
  | send timestamp data len =>
      obtain ⟨r, -, rfl⟩ := Option.map_eq_some_iff.mp hstep
      exact List.prefix_rfl
  | sendBuffer buffer =>
      obtain ⟨r, -, rfl⟩ := Option.map_eq_some_iff.mp hstep
      exact List.prefix_rfl
  | writeDone tranByte =>
      cases hstep
      exact List.prefix_append _ _
  | close =>
      cases hstep
      exact List.prefix_rfl

theorem take_of_begins {α : Type*} {s t : List α} {n : ℕ} (h : s <+: t) (hn : n ≤ s.length) :
    t.take n = s.take n := by
  obtain ⟨r, rfl⟩ := h
  rw [List.take_append_of_le_length hn]

/-- A step of the sender leaves what the reader has parsed as it is. -/
theorem Inv.stepLink (h : c.Inv) {a : Link.Act} {link : Link} (hstep : c.link.step a = some link)
    (hlink : link.Inv) {sent : List (Int32 × List Byte)}
    (haccepted : link.accepted = sent.map fun x ↦ sendBlock x.1 x.2)
    (hsize : ∀ x ∈ sent, x.2.length ≤ socketPackSize.toNat) :
    ({ c with link, sent } : TcpStream σ).Inv where
  link := hlink
  accepted := haccepted
  size := hsize
  read_le := h.read_le.trans (taken_begins hstep).length_le
  agrees := by
    change c.feed.out.Agrees (TcpStreamSocket.format.parse (link.taken.take c.read))
    rw [take_of_begins (taken_begins hstep) h.read_le]
    exact h.agrees

/-- A message that `Send` accepts is not too large for the reader. -/
theorem length_le_of_send {s s' : BaseSocket} {timestamp : Int32} {data : List Byte} {len : UInt32}
    (h : s.send false timestamp data len = some (true, s')) :
    (data.take len.toNat).length ≤ socketPackSize.toNat := by
  unfold BaseSocket.send at h
  split at h
  · cases h
  · split at h
    · cases h
    · rename_i hbig
      rw [gt_iff_lt, UInt32.not_lt, UInt32.le_iff_toNat_le] at hbig
      rw [List.length_take]
      exact (Nat.min_le_left _ _).trans hbig

theorem step_send (h : c.Inv) (timestamp : Int32) {data : List Byte} {len : UInt32}
    (hlen : len.toNat ≤ data.length) :
    ∃ c', c.step onReceiveData (.send timestamp data len) = some c' ∧ c'.Inv := by
  obtain ⟨link, hstep, hstepped⟩ := Link.step_send h.link timestamp hlen
  obtain ⟨⟨ok, base⟩, hsend, rfl⟩ := Option.map_eq_some_iff.mp hstep
  refine ⟨_, by rw [step, hsend]; rfl, ?_⟩
  refine h.stepLink hstep hstepped.inv ?_ ?_
  · cases ok with
    | false => exact h.accepted
    | true =>
        change c.link.accepted ++ [_] = (c.sent ++ [_]).map _
        rw [List.map_append, h.accepted]
        rfl
  · intro x hx
    cases ok with
    | false => exact h.size x hx
    | true =>
        rcases List.mem_append.mp hx with hx | hx
        · exact h.size x hx
        · rw [List.mem_singleton.mp hx]
          exact length_le_of_send hsend

theorem step_receive (h : c.Inv) {n : ℕ} (hn : n ≤ socketReadSize)
    (henough : n ≤ c.inFlight.length) :
    ∃ c', c.step onReceiveData (.receive n) = some c' ∧ c'.Inv := by
  have hlen : (c.inFlight.take n).length ≤ socketReadSize := by
    rw [List.length_take]
    omega
  obtain ⟨feed, hfeed, hagrees⟩ :=
    TcpStreamSocket.feedChunk_agrees onReceiveData h.agrees hlen
  have hread : c.link.taken.take (c.read + n) =
      c.link.taken.take c.read ++ c.inFlight.take n := by
    rw [List.take_add, inFlight]
  refine ⟨{ c with read := c.read + n, feed }, by rw [step, hfeed]; rfl, h.link, h.accepted,
    h.size, ?_, ?_⟩
  · change c.read + n ≤ c.link.taken.length
    rw [inFlight, List.length_drop] at henough
    have := h.read_le
    omega
  · change feed.out.Agrees (TcpStreamSocket.format.parse (c.link.taken.take (c.read + n)))
    rw [hread]
    exact hagrees

theorem step_inv {a : Act} (h : c.Inv) (henabled : c.enabled a) :
    ∃ c', c.step onReceiveData a = some c' ∧ c'.Inv := by
  cases a with
  | send timestamp data len => exact step_send h timestamp henabled
  | writeDone tranByte =>
      obtain ⟨link, hstep, hstepped⟩ := Link.step_writeDone h.link henabled
      have haccepted : link.accepted = c.link.accepted := by
        cases hstep
        rfl
      exact ⟨_, by rw [step, hstep]; rfl, h.stepLink hstep hstepped.inv
        (haccepted.trans h.accepted) h.size⟩
  | close =>
      obtain ⟨link, hstep, hstepped⟩ := Link.step_close h.link
      have haccepted : link.accepted = c.link.accepted := by
        cases hstep
        rfl
      exact ⟨_, by rw [step, hstep]; rfl, h.stepLink hstep hstepped.inv
        (haccepted.trans h.accepted) h.size⟩
  | receive n => exact step_receive h henabled.2.1 henabled.2.2

/-- What was read is the beginning of the blocks of the messages. -/
theorem Inv.read_append (h : c.Inv) :
    c.link.taken.take c.read ++ (c.inFlight ++ c.link.base.pending) =
      c.sent.flatMap fun x ↦ sendBlock x.1 x.2 := by
  rw [inFlight, ← List.append_assoc, List.take_append_drop, h.link.conserved, h.accepted,
    List.flatMap_def]

theorem Inv.parse_sent (h : c.Inv) :
    TcpStreamSocket.format.parse (c.sent.flatMap fun x ↦ sendBlock x.1 x.2) =
      (c.payloads, .incomplete []) :=
  parse_sendBlocks (by decide) c.sent h.size

/-- The reader has no reason to stop, and hands over messages from the first on. -/
theorem Inv.delivered (h : c.Inv) :
    c.feed.out.ok = true ∧ c.feed.out.delivered <+: c.payloads := by
  have hparse := h.parse_sent
  rw [← h.read_append] at hparse
  cases htail : (TcpStreamSocket.format.parse (c.link.taken.take c.read)).2 with
  | incomplete r =>
      rw [Format.parse_append htail] at hparse
      refine ⟨(h.agrees.incomplete r htail).1, ?_⟩
      rw [h.agrees.delivered_eq]
      exact ⟨_, congrArg Prod.fst hparse⟩
  | oversized r =>
      rw [Format.parse_append_of_oversized htail] at hparse
      cases congrArg Prod.snd hparse

/-- When no byte is queued or on its way, every message was handed over. -/
theorem Inv.delivered_all (h : c.Inv) (hpending : c.link.base.pending = [])
    (hread : c.inFlight = []) : c.feed.out.delivered = c.payloads := by
  have hparse := h.parse_sent
  rw [← h.read_append, hpending, hread, List.append_nil, List.append_nil] at hparse
  rw [h.agrees.delivered_eq, hparse]

/-- The messages that `Send` accepted are handed over at the other end once each, in their order
and with their bytes, whatever the callback does, however the writes and reads cut them, and also
when the socket is closed behind them: what was accepted before is sent first. -/
theorem messages_in_order (onReceiveData : σ → Buffer → σ × Buffer) (w : σ) (acts : List Act)
    (h : (system onReceiveData).Allowed System.anyStep (connected w) acts) :
    ∃ c, (system onReceiveData).run (connected w) acts = some c ∧
      c.feed.out.ok = true ∧ c.feed.out.delivered <+: c.payloads ∧
        (c.link.base.socket.closes ≠ 0 → c.link.taken = c.link.accepted.flatten) ∧
          (c.link.taken = c.link.accepted.flatten → c.inFlight = [] →
            c.feed.out.delivered = c.payloads) := by
  obtain ⟨c, hrun, hinv⟩ := System.run_invariant (I := Inv)
    (fun c a hc henabled _ ↦ step_inv hc henabled) (inv_connected w) h
  have hconserved := hinv.link.conserved
  refine ⟨c, hrun, hinv.delivered.1, hinv.delivered.2, ?_, ?_⟩
  · intro hclosed
    have hflag : c.link.base.flag = .close := by
      by_contra hne
      exact hclosed (by rw [hinv.link.closing.closes_eq, if_neg hne])
    have hpending := hinv.link.idle (hinv.link.closing.writing_eq hflag)
    rwa [hpending, List.append_nil] at hconserved
  · intro htaken hread
    rw [htaken] at hconserved
    exact hinv.delivered_all (List.append_right_eq_self.mp hconserved) hread

/-- Two messages, cut in the header of the second one, and `Close` before the last write. -/
def sampleActs : List Act :=
  [.send 7 [65, 66] 2, .send 8 [67] 1, .writeDone 10, .receive 10, .close, .writeDone 3,
    .receive 2, .writeDone 6, .receive 7]

theorem messages_in_order_sampleActs :
    ∃ c, (system fun _ b ↦ ((), b)).run (connected ()) sampleActs = some c ∧
      c.feed.out.ok = true ∧ c.feed.out.delivered <+: c.payloads ∧
        (c.link.base.socket.closes ≠ 0 → c.link.taken = c.link.accepted.flatten) ∧
          (c.link.taken = c.link.accepted.flatten → c.inFlight = [] →
            c.feed.out.delivered = c.payloads) :=
  messages_in_order (fun _ b ↦ ((), b)) () sampleActs (by decide +kernel)

end TcpStream

end Slience
