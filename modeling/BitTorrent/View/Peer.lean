import BitTorrent.Download.Turn
import BitTorrent.FarSide
import BitTorrent.View.Fault
import BitTorrent.View.Torrent

/-! Peers, their sessions, and the state that a torrent's connections share, as JSON. -/

set_option autoImplicit false

namespace BitTorrent

/-- Texts in ascending order. -/
def sortedTexts (texts : List String) : List String :=
  texts.mergeSort fun a b => a ≤ b

def Phase.name : Phase → String
  | disconnected => "Disconnected"
  | connecting => "Connecting"
  | handshaked => "Handshaked"
  | active => "Active"

instance : ToJson Session where
  toJson session := .record [("state", session.phase.name),
    ("flags", [session.amChoking, session.peerChoking, session.amInterested,
      session.peerInterested, session.canRequest]),
    ("bitfield", session.bitfield), ("downloads", session.downloads), ("upload", session.upload),
    ("assigned", session.assigned)]

instance : ToJson Event where
  toJson
    | .keepAlive => .ofText "keep_alive"
    | .choked dropped => .record [("choked", dropped)]
    | .unchoked => .ofText "unchoked"
    | .interested => .ofText "interested"
    | .notInterested => .ofText "not_interested"
    | .have_ piece => .record [("have", piece)]
    | .bitfield => .ofText "bitfield"
    | .request request => .record [("request", request)]
    | .block request data => .record [("block", request), ("data", data)]
    | .cancel request => .record [("cancel", request)]
    | .port number => .record [("port", number)]
    | .ignored => .ofText "ignored"

def PeerSource.name : PeerSource → String
  | tracker => "Tracker"
  | manual => "Manual"
  | incoming => "Incoming"

instance : ToJson PeerEntry where
  toJson entry := .record [("addr", entry.address), ("peer_id", entry.peerId),
    ("source", entry.source.name), ("bitfield", entry.bitfield), ("connected", entry.isConnected)]

instance : ToJson Command where
  toJson
    | .have_ piece => .record [("have", piece)]
    | .disconnect => .ofText "disconnect"

instance : ToJson Delivery where
  toJson delivery := .record [("delivered", delivery.delivered), ("failed", delivery.failed)]

instance : ToJson Flow where
  toJson
    | .stay => .ofText "continue"
    | .leave => .ofText "disconnect"

/-- The addresses of the connected peers in ascending order. -/
def Roster.connectedTexts (roster : Roster) : List String :=
  sortedTexts (roster.connected.map (·.address.text))

/-- The entries of a download. -/
def Download.entries (download : Download) : List (String × Json) :=
  [("completed", download.holdings.completed),
    ("blocks", download.holdings.fetched.map (List.count true)),
    ("in_flight", download.inFlight.mergeSort fun a b => a ≤ b), ("left", download.left),
    ("connected", download.roster.connectedTexts), ("known", download.roster.size),
    ("last_error", download.lastError)]

/-- A handshake shows its sender only by the mark of the client. -/
instance : ToJson Received where
  toJson
    | .message message => message
    | .handshake handshake => .record [("handshake", handshake.infoHash),
        ("reserved", handshake.capabilities),
        ("client", Handshake.clientText handshake.peerId)]

end BitTorrent
