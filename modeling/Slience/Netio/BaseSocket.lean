import Slience.Netio.StreamSocket
import Slience.Lib.Run

/-!
# The sending side of a socket

`TcpBaseSocket` queues what `Send` is given in `msgbuffer2` and hands `msgbuffer1`
to the transport, one `AsyncSendSome` at a time; when `msgbuffer1` is used up the two
buffers are swapped.  `Close` waits for the queue to drain.  Every function here runs
under `_writer.lock`, so each is one step.
-/

namespace Slience

/-- `E_STATE_START`, `E_STATE_STOP`, `E_STATE_CLOSE` -/
inductive SocketState
  | start
  | stop
  | close
  deriving DecidableEq

/-- `_writerinfo_` -/
structure WriterInfo where
  writing : Bool
  msgbuffer1 : Buffer
  msgbuffer2 : Buffer
  deriving DecidableEq

/-- What `_socket` has been asked to do: the bytes offered by each `AsyncSendSome` that
has not completed, and how often it was shut down and closed. -/
structure SocketCalls where
  outstanding : List (List Byte)
  shutdowns : ℕ
  closes : ℕ
  deriving DecidableEq

structure BaseSocket where
  flag : SocketState
  writer : WriterInfo
  socket : SocketCalls
  deriving DecidableEq

namespace BaseSocket

/-- `_writerinfo_::E_MAX_BUFFER_SIZE` -/
def maxBufferSize : UInt32 := 1024 * 1024 * 3

/-- The capacity from which on `_TrySendData` gives a used buffer back. -/
def shrinkSize : UInt32 := 1024 * 1024

/-- `TcpBaseSocket::_Close` -/
def close (s : BaseSocket) : BaseSocket :=
  if s.flag = .close then s
  else if s.writer.writing then { s with flag := .stop }
  else { s with
    flag := .close
    socket := { s.socket with closes := s.socket.closes + 1 } }

/-- The buffers after `_TrySendData` has refilled an empty `msgbuffer1`. -/
def refill (w : WriterInfo) : WriterInfo :=
  if w.msgbuffer1.length = 0 then
    { w with
      msgbuffer1 := w.msgbuffer2
      msgbuffer2 :=
        if w.msgbuffer1.capacity ≥ shrinkSize then Buffer.empty.clear else w.msgbuffer1.clear }
  else w

/-- `TcpBaseSocket::_TrySendData`; `failed` says that `AsyncSendSome` reports an error. -/
def trySendData (failed : Bool) (s : BaseSocket) : Bool × BaseSocket :=
  if s.writer.writing then (true, s)
  else
    let w := refill s.writer
    let s := { s with writer := w }
    if w.msgbuffer1.length > 0 then
      if failed then (false, s.close)
      else
        (true, { s with
          writer := { w with writing := true }
          socket := { s.socket with
            outstanding := s.socket.outstanding ++ [w.msgbuffer1.unread] } })
    else (false, s)

/-- `TcpBaseSocket::Send(const Buffer*)`.  The size goes through an `int`. -/
def sendBuffer (failed : Bool) (buffer : Option Buffer) (s : BaseSocket) :
    Option (Bool × BaseSocket) :=
  match buffer with
  | none => some (false, s)
  | some b =>
      let sndLen : Int32 := b.pos.toInt32
      if b.length = 0 then some (false, s)
      else if sndLen > socketPackSize.toInt32 then some (false, s)
      else if s.flag ≠ .start then some (false, s)
      else if s.writer.msgbuffer2.pos + sndLen.toUInt32 > maxBufferSize then some (false, s)
      else
        match s.writer.msgbuffer2.write b.data sndLen.toUInt32 with
        | none => none
        | some m =>
            some (true,
              (trySendData failed { s with writer := { s.writer with msgbuffer2 := m } }).2)

/-- `TcpBaseSocket::Send(data, len)` at the time `timestamp`. -/
def send (failed : Bool) (timestamp : Int32) (data : List Byte) (len : UInt32)
    (s : BaseSocket) : Option (Bool × BaseSocket) :=
  let sndLen : Int32 := (len + MessageHeader.hdrlen).toInt32
  if len ≤ 0 then some (false, s)
  else if len > socketPackSize then some (false, s)
  else if s.flag ≠ .start then some (false, s)
  else if s.writer.msgbuffer2.pos + sndLen.toUInt32 > maxBufferSize then some (false, s)
  else
    let hdr := (MessageHeader.mk timestamp len).h2n
    match s.writer.msgbuffer2.write hdr.toMem MessageHeader.hdrlen with
    | none => none
    | some m =>
        match m.write data len with
        | none => none
        | some m' =>
            some (true,
              (trySendData failed { s with writer := { s.writer with msgbuffer2 := m' } }).2)

/-- `TcpBaseSocket::_WriteHandler`; `error` is the error it is called with. -/
def writeHandler (failed : Bool) (tranByte : UInt32) (error : Bool) (s : BaseSocket) :
    BaseSocket :=
  let s := { s with writer := { s.writer with writing := false } }
  if error then s.close
  else if tranByte ≤ 0 then s.close
  else
    let m := s.writer.msgbuffer1.cutData tranByte.toInt32
    let sent := trySendData failed { s with writer := { s.writer with msgbuffer1 := m } }
    if sent.1 = false ∧ sent.2.flag ≠ .start then
      { sent.2 with
        socket := { sent.2.socket with shutdowns := sent.2.socket.shutdowns + 1 } }.close
    else sent.2

/-- A connected socket that has not been used yet. -/
def connected : BaseSocket where
  flag := .start
  writer := ⟨false, .empty, .empty⟩
  socket := ⟨[], 0, 0⟩

end BaseSocket

end Slience
