import BitTorrent.Fault

/-!
The frame of 68 bytes that opens a connection: the name of the protocol after its length, eight
bytes of capability bits, the info hash and the name of the sender.
-/

set_option autoImplicit false

namespace BitTorrent

/-- The capability bits that a peer advertises; bit zero is the highest of the first byte. -/
structure Capabilities where
  bytes : Vector UInt8 8
  deriving DecidableEq, Repr

namespace Capabilities

/-- No capability. -/
def none : Capabilities :=
  ⟨Vector.replicate 8 0⟩

/-- Extension messages. -/
def extension : Nat := 43

/-- Fast resumption. -/
def fast : Nat := 61

/-- A node of the distributed table. -/
def dht : Nat := 63

/-- The mask of a bit within its byte. -/
def mask (bit : Nat) : UInt8 :=
  0x80 >>> UInt8.ofNat (bit % 8)

/-- Whether one of the sixty-four bits is set. -/
def has? (capabilities : Capabilities) (bit : Nat) : Option Bool :=
  if range : bit < 64 then
    let position : Fin 8 := ⟨bit / 8, by omega⟩
    some (capabilities.bytes[position] &&& mask bit != 0)
  else Option.none

/-- Sets one of the sixty-four bits. -/
def insert? (capabilities : Capabilities) (bit : Nat) : Option Capabilities :=
  if range : bit < 64 then
    let position : Fin 8 := ⟨bit / 8, by omega⟩
    some ⟨capabilities.bytes.set position (capabilities.bytes[position] ||| mask bit)⟩
  else Option.none

/-- Sets several bits. -/
def insertAll? (capabilities : Capabilities) (bits : List Nat) : Option Capabilities :=
  bits.foldlM insert? capabilities

def hex (capabilities : Capabilities) : String :=
  Bytes.hex capabilities.bytes.toList

end Capabilities

/-- The opening frame of one side. -/
structure Handshake where
  capabilities : Capabilities
  infoHash : Digest
  peerId : PeerId
  deriving DecidableEq, Repr

namespace Handshake

/-- The name of the protocol. -/
def protocol : Bytes :=
  Bytes.ofText "BitTorrent protocol"

/-- The bytes that this engine's peer names start with. -/
def clientMark : Bytes :=
  Bytes.ofText "-PW0100-"

/-- The mark that the name of a peer starts with, as a text. -/
def clientText (peerId : PeerId) : String :=
  String.ofList ((peerId.toList.take clientMark.length).map fun byte => Char.ofNat byte.toNat)

/-- The frame. -/
def encode (handshake : Handshake) : Bytes :=
  19 :: (protocol ++ handshake.capabilities.bytes.toList ++ handshake.infoHash.toList ++
    handshake.peerId.toList)

/-- As many bytes as the size asks for, with zeros where there are none. -/
def fixed (size : Nat) (bytes : Bytes) : Vector UInt8 size :=
  Vector.ofFn fun i => bytes.getD i.val 0

/-- Reads a frame. -/
def decode (bytes : Bytes) : Except Violation Handshake :=
  if bytes.length ≠ 68 then .error (.handshakeSize bytes.length)
  else if bytes.head? ≠ some 19 then .error (.protocolLength (bytes.headD 0).toNat)
  else if (bytes.drop 1).take 19 ≠ protocol then .error .protocolName
  else .ok ⟨⟨fixed 8 (bytes.drop 20)⟩, fixed 20 (bytes.drop 28), fixed 20 (bytes.drop 48)⟩

end Handshake

end BitTorrent
