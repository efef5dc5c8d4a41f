import Slience.Base.Buffer
import Slience.Lib.Framing

/-!
# The message header

Every message on a connection is a packed header of two 32-bit fields in network
byte order, followed by as many bytes as its second field says.  The host is
little-endian.
-/

namespace Slience

def htonl (x : UInt32) : UInt32 := bswap32 x

def ntohl (x : UInt32) : UInt32 := bswap32 x

structure MessageHeader where
  timestamp : Int32
  size : UInt32
  deriving DecidableEq

namespace MessageHeader

/-- `sizeof(MessageHeader)` -/
def hdrlen : UInt32 := 8

def n2h (h : MessageHeader) : MessageHeader where
  timestamp := (ntohl h.timestamp.toUInt32).toInt32
  size := ntohl h.size

def h2n (h : MessageHeader) : MessageHeader where
  timestamp := (htonl h.timestamp.toUInt32).toInt32
  size := htonl h.size

/-- The header as it lies in memory. -/
def toMem (h : MessageHeader) : List Byte := le32 h.timestamp.toUInt32 ++ le32 h.size

/-- The header in the first eight bytes at an address. -/
def ofMem (l : List Byte) : MessageHeader where
  timestamp := (loadLe32 l).toInt32
  size := loadLe32 (l.drop 4)

@[simp] theorem length_toMem (h : MessageHeader) : h.toMem.length = 8 := rfl

/-- `Buffer::Read(T&)` into a header: the old value stays when the bytes do not
suffice. -/
def readFrom (old : MessageHeader) (b : Buffer) : Option (MessageHeader × Buffer) :=
  match b.read hdrlen with
  | none => none
  | some (none, b') => some (old, b')
  | some (some bytes, b') => some (ofMem bytes, b')

end MessageHeader

/-- The size announced on the wire: the second four bytes, the most significant
one first. -/
def announced (hdr : List Byte) : ℕ :=
  2 ^ 24 * (hdr.getD 4 0).toNat + 2 ^ 16 * (hdr.getD 5 0).toNat +
    2 ^ 8 * (hdr.getD 6 0).toNat + (hdr.getD 7 0).toNat

/-- The frames of a connection on which bodies of at most `limit` bytes are
accepted. -/
def wireFormat (limit : ℕ) : Format Byte where
  hdrlen := 8
  hdrlen_pos := by decide
  size := announced
  limit := limit

/-- The bytes `TcpBaseSocket::Send(data, len)` and `SyncConnector::Send` put on
the wire at the time `timestamp`. -/
def sendBlock (timestamp : Int32) (data : List Byte) : List Byte :=
  (MessageHeader.mk timestamp (UInt32.ofNat data.length)).h2n.toMem ++ data

namespace MessageHeader

/-- Header bytes read in memory order and converted to host order carry the
announced size. -/
theorem toNat_size_n2h_ofMem (hdr : List Byte) :
    ((ofMem hdr).n2h.size).toNat = announced hdr := by
  change (bswap32 (ofLe32 _ _ _ _)).toNat = _
  rw [bswap32_ofLe32, toNat_ofLe32]
  simp only [List.getD_eq_getElem?_getD, List.getElem?_drop, announced]
  ring

theorem announced_toMem_h2n (timestamp : Int32) (n : UInt32) :
    announced (mk timestamp n).h2n.toMem = n.toNat := by
  rw [← toNat_size_n2h_ofMem]
  congr 1
  change bswap32 (loadLe32 (le32 (bswap32 n))) = n
  have hload := loadLe32_le32 (bswap32 n) []
  rw [List.append_nil] at hload
  rw [hload, bswap32_bswap32]

theorem readFrom_spec (old : MessageHeader) (b : Buffer) (h : 8 ≤ b.unread.length) :
    ∃ b', readFrom old b = some (ofMem (b.unread.take 8), b') ∧
      b'.contents = b.contents ∧ b'.unread = b.unread.drop 8 := by
  obtain ⟨b', hread, hcontents, hunread⟩ := b.read_spec (show hdrlen.toNat ≤ _ from h)
  refine ⟨b', ?_, hcontents, hunread⟩
  rw [readFrom, hread]
  rfl

end MessageHeader

theorem length_sendBlock (timestamp : Int32) (data : List Byte) :
    (sendBlock timestamp data).length = 8 + data.length := by
  simp [sendBlock]

theorem parse_sendBlocks {limit : ℕ} (hlimit : limit < 2 ^ 32)
    (sent : List (Int32 × List Byte)) (h : ∀ x ∈ sent, x.2.length ≤ limit) :
    (wireFormat limit).parse (sent.flatMap fun x ↦ sendBlock x.1 x.2) =
      (sent.map Prod.snd, .incomplete []) := by
  apply Format.parse_flatMap
  · intro x _
    rfl
  · intro x hx
    change announced _ = _
    rw [MessageHeader.announced_toMem_h2n, UInt32.toNat_ofNat', Nat.mod_eq_of_lt]
    exact lt_of_le_of_lt (h x hx) hlimit
  · exact h

end Slience
