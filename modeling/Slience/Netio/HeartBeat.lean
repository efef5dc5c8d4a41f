import Mathlib.Logic.Function.Basic
import Slience.Lib.Run

/-!
# The heartbeat

`OnConnected` and `OnReceiveData` put a socket into a list of the slot of its descriptor.  The
thread `_Run` goes through the slots again and again: it reads the clock once for all slots, takes
the lists of a slot, closes the entries of the slot that were not heard of for `_beat` seconds, and
only then applies what it took.

`TcpSocket`, `HttpSocket` and `TcpConnector` have lists and a map each, and the loop is written out
three times.  A list holds events, of which the thread reads the socket and for a connector `idle`;
the times of the events, which event was applied at which time, and what was closed are recorded
beside the state.  A map has no order here.
-/

namespace Slience

namespace HeartBeatMng

inductive SocketType
  | tcp
  | http
  | connTcp
  deriving DecidableEq

/-- A call of `OnConnected` or `OnReceiveData` for the socket `ptr`.  `idle` is that of a
connector. -/
structure Event where
  type : SocketType
  ptr : ℕ
  data : Bool
  idle : Option ℕ
  slot : ℕ
  time : ℕ
  deriving DecidableEq

/-- `SocketInfo` and `ConnSocketInfo`: `updtime` or `rcv_time`, the count, and for a connector
`idle` and `snd_time`. -/
structure Info where
  time : ℕ
  count : UInt32
  send : Option (ℕ × ℕ)
  deriving DecidableEq

/-- `HeartInfo`, for each type of socket. -/
structure HeartInfo where
  info : SocketType → List (ℕ × Info)
  co : SocketType → List Event
  data : SocketType → List Event

/-- Where `_Run` is: between two sweeps, in front of the lists of slot `idx`, or behind them with
what it took. -/
inductive RunPhase
  | idle
  | taking (now idx : ℕ)
  | testing (now idx : ℕ) (co data : SocketType → List Event)

/-- A `Close` that `_Run` called: what had been put into the lists before, and the data events of
its type that the sweep had just taken. -/
structure Closing where
  type : SocketType
  ptr : ℕ
  now : ℕ
  before : List Event
  taken : List Event
  deriving DecidableEq

structure Beat where
  slots : ℕ → HeartInfo
  phase : RunPhase
  /-- of the last event or the last sweep that began -/
  clock : ℕ
  history : List Event
  applied : List (Event × ℕ)
  closings : List Closing
  /-- the connectors whose `Send` was called -/
  sent : List ℕ

inductive BeatMove
  | onConnected (type : SocketType) (ptr : ℕ) (fd : UInt32) (idle : Option ℕ) (time : ℕ)
  | onReceiveData (type : SocketType) (ptr : ℕ) (fd : UInt32) (time : ℕ)
  | begin (now : ℕ)
  | take
  /-- `connected` is what `IsConnected` says of the sockets -/
  | test (connected : SocketType → ℕ → Bool)

namespace Info

/-- `new SocketInfo`, `new ConnSocketInfo` -/
def fresh (now : ℕ) (e : Event) : Info := ⟨now, 0, e.idle.map (·, now)⟩

/-- What a data event does to its entry. -/
def touch (now : ℕ) (i : Info) : Info := { i with time := now, count := i.count + 1 }

/-- The entry of a connector is silent for `idle` seconds. -/
def sends (now : ℕ) (i : Info) : Bool :=
  match i.send with
  | none => false
  | some (idle, sndTime) => sndTime + idle < now

/-- Behind the `Send` of a connector. -/
def keepAlive (now : ℕ) (i : Info) : Info :=
  if i.sends now then { i with send := i.send.map fun s ↦ (s.1, now) } else i

end Info

/-- `info[ptr] = pinfo` -/
def setInfo (now : ℕ) (m : List (ℕ × Info)) (e : Event) : List (ℕ × Info) :=
  (e.ptr, Info.fresh now e) :: m.filter (·.1 ≠ e.ptr)

/-- An entry that `find(ptr)` finds. -/
def touchInfo (now : ℕ) (m : List (ℕ × Info)) (e : Event) : List (ℕ × Info) :=
  m.map fun x ↦ if x.1 = e.ptr then (x.1, x.2.touch now) else x

/-- The entry is over time. -/
def Due (beat now : ℕ) (x : ℕ × Info) : Prop := x.2.time + beat < now

instance (beat now : ℕ) (x : ℕ × Info) : Decidable (Due beat now x) :=
  inferInstanceAs (Decidable (_ < _))

/-- One of the three loops over a map, and the two loops over its lists. -/
def sweep (beat now : ℕ) (m : List (ℕ × Info)) (co data : List Event) : List (ℕ × Info) :=
  let m := m.filter (¬ Due beat now ·)
  let m := m.map fun x ↦ (x.1, x.2.keepAlive now)
  let m := co.foldl (setInfo now) m
  data.foldl (touchInfo now) m

namespace Beat

def setSlot (s : Beat) (idx : ℕ) (h : HeartInfo) : Beat :=
  { s with slots := Function.update s.slots idx h }

/-- `OnConnected` and `OnReceiveData` -/
def enqueue (s : Beat) (e : Event) : Beat :=
  let h := s.slots e.slot
  let h := if e.data then { h with data := Function.update h.data e.type (h.data e.type ++ [e]) }
    else { h with co := Function.update h.co e.type (h.co e.type ++ [e]) }
  { s.setSlot e.slot h with clock := e.time, history := s.history ++ [e] }

/-- The swaps of a slot. -/
def take (s : Beat) (now idx : ℕ) : Beat :=
  let h := s.slots idx
  { s.setSlot idx { h with co := fun _ ↦ [], data := fun _ ↦ [] } with
    phase := .testing now idx h.co h.data }

def types : List SocketType := [.tcp, .http, .connTcp]

/-- What is closed in the loop over the map of a type. -/
def closingsOf (s : Beat) (beat now idx : ℕ) (data : SocketType → List Event)
    (connected : SocketType → ℕ → Bool) (type : SocketType) : List Closing :=
  (((s.slots idx).info type).filter fun x ↦ Due beat now x ∧ connected type x.1).map fun x ↦
    ⟨type, x.1, now, s.history, data type⟩

/-- A slot behind its swaps.  The maps are the thread's own: no step of another thread shows in what
it does with them. -/
def test (s : Beat) (beat svrCnt now idx : ℕ) (co data : SocketType → List Event)
    (connected : SocketType → ℕ → Bool) : Beat :=
  let h := s.slots idx
  { s.setSlot idx { h with info := fun type ↦ sweep beat now (h.info type) (co type) (data type) }
    with
    phase := if idx + 1 < svrCnt then .taking now (idx + 1) else .idle
    applied := s.applied ++ types.flatMap fun type ↦ (co type ++ data type).map (·, now)
    closings := s.closings ++ types.flatMap (s.closingsOf beat now idx data connected)
    sent := s.sent ++
      (((h.info .connTcp).filter fun x ↦ ¬ Due beat now x ∧ x.2.sends now).map (·.1)) }

end Beat

/-- `fd % _svr_cnt` for the descriptor as it is unsigned. -/
def slotOf (svrCnt : ℕ) (fd : UInt32) : ℕ := fd.toNat % svrCnt

/-- `Start` with `_svr_cnt` slots, and `_beat`. -/
def system (beat svrCnt : ℕ) : System Beat BeatMove where
  enabled s
    | .onConnected _ _ _ _ time => 0 < svrCnt ∧ s.clock ≤ time
    | .onReceiveData _ _ _ time => 0 < svrCnt ∧ s.clock ≤ time
    | .begin now => s.clock ≤ now
    | _ => True
  step s
    | .onConnected type ptr fd idle time =>
        some (s.enqueue ⟨type, ptr, false, idle, slotOf svrCnt fd, time⟩)
    | .onReceiveData type ptr fd time =>
        some (s.enqueue ⟨type, ptr, true, none, slotOf svrCnt fd, time⟩)
    | .begin now =>
        match s.phase with
        | .idle => some { s with
            phase := if 0 < svrCnt then .taking now 0 else .idle
            clock := now }
        | _ => some s
    | .take =>
        match s.phase with
        | .taking now idx => some (s.take now idx)
        | _ => some s
    | .test connected =>
        match s.phase with
        | .testing now idx co data => some (s.test beat svrCnt now idx co data connected)
        | _ => some s

/-- The state behind `Start`. -/
def start : Beat := ⟨fun _ ↦ ⟨fun _ ↦ [], fun _ ↦ [], fun _ ↦ []⟩, .idle, 0, [], [], [], []⟩

/-- An event in the `_beat` seconds before `now`. -/
def Event.Recent (beat now : ℕ) (e : Event) : Prop := e.time ≤ now ∧ now ≤ e.time + beat

/-- The socket was neither heard of nor connected in the `_beat` seconds before the sweep, and the
sweep has just taken no data event of it. -/
def Closing.Justified (beat : ℕ) (c : Closing) : Prop :=
  (∀ e ∈ c.before, e.type = c.type → e.ptr = c.ptr → ¬ e.Recent beat c.now) ∧
    ∀ e ∈ c.taken, e.ptr ≠ c.ptr

def Beat.AllJustified (beat : ℕ) (s : Beat) : Prop := ∀ c ∈ s.closings, c.Justified beat

end HeartBeatMng

end Slience
