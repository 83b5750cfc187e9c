import BitTorrent.Handshake
import BitTorrent.Json.Writer
import BitTorrent.Message
import BitTorrent.Sha1

/-! What goes over the wire, as JSON. -/

set_option autoImplicit false

namespace BitTorrent

/-- Hexadecimal digits of a short byte string; length, digest and front of a long one. -/
instance : ToJson Bytes where
  toJson bytes :=
    if bytes.length ≤ 64 then Bytes.hex bytes
    else .record [("len", bytes.length), ("sha1", Bytes.hex (sha1 bytes).toList),
      ("head", Bytes.hex (bytes.take 16))]

instance {size : Nat} : ToJson (Vector UInt8 size) where
  toJson bytes := Bytes.hex bytes.toList

instance : ToJson Capabilities where
  toJson capabilities := capabilities.hex

instance : ToJson Address where
  toJson address := address.text

instance : ToJson ByteRange where
  toJson range := [range.offset, range.length]

instance : ToJson BlockRequest where
  toJson request := [request.piece, request.start, request.length]

/-- The entries of a handshake. -/
def Handshake.entries (handshake : Handshake) : List (String × Json) :=
  [("reserved", handshake.capabilities), ("info_hash", handshake.infoHash),
    ("peer_id", handshake.peerId)]

instance : ToJson Handshake where
  toJson handshake := .record handshake.entries

/-- The number of an opcode. -/
instance : ToJson Opcode where
  toJson opcode := opcode.toNat

/-- The entries that name a block. -/
def BlockRequest.entries (request : BlockRequest) : List (String × Json) :=
  [("index", request.piece), ("begin", request.start), ("length", request.length)]

/-- The name of a message and its entries. -/
def Message.entries : Message → String × List (String × Json)
  | keepAlive => ("keep_alive", [])
  | choke => ("choke", [])
  | unchoke => ("unchoke", [])
  | interested => ("interested", [])
  | notInterested => ("not_interested", [])
  | have_ index => ("have", [("index", index)])
  | bitfield bytes => ("bitfield", [("bitfield", bytes)])
  | request block => ("request", block.entries)
  | piece index start data => ("piece", [("index", index), ("begin", start), ("block", data)])
  | cancel block => ("cancel", block.entries)
  | port number => ("port", [("port", number)])

instance : ToJson Message where
  toJson message := .record (("type", message.entries.1) :: message.entries.2)

end BitTorrent
