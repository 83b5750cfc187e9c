import BitTorrent.Bitfield
import BitTorrent.Handshake
import BitTorrent.Message

/-!
The state of one connection: its phase, who chokes whom and who is interested, the pieces that the
peer has, and the requests that are open in either direction. Received messages become events.
Moments are counted in nanoseconds.
-/

set_option autoImplicit false

namespace BitTorrent

/-- How far a connection has come. -/
inductive Phase where
  | disconnected
  | connecting
  | handshaked
  | active
  deriving DecidableEq, Repr

/-- Messages are understood only behind both handshakes. -/
def Phase.isOpen : Phase → Bool
  | handshaked | active => true
  | _ => false

/-- What a received message means. -/
inductive Event where
  | keepAlive
  | choked (dropped : List BlockRequest)
  | unchoked
  | interested
  | notInterested
  | have_ (piece : Nat)
  | bitfield
  | request (request : BlockRequest)
  | block (request : BlockRequest) (data : Bytes)
  | cancel (request : BlockRequest)
  | port (number : Nat)
  | ignored
  deriving DecidableEq, Repr

/-- The state of one connection. -/
structure Session where
  address : Address
  peerId : Option PeerId
  capabilities : Capabilities
  phase : Phase
  amChoking : Bool
  peerChoking : Bool
  amInterested : Bool
  peerInterested : Bool
  bitfield : Bitfield
  depth : Nat
  downloads : List BlockRequest
  upload : Option BlockRequest
  assigned : Option Nat
  lastReceived : Nat
  lastSent : Nat
  deriving Repr

namespace Session

/-- A session with a peer of a torrent of `pieces` pieces; at least one request may be open. -/
def new (address : Address) (pieces depth now : Nat) : Session where
  address := address
  peerId := none
  capabilities := Capabilities.none
  phase := .disconnected
  amChoking := true
  peerChoking := true
  amInterested := false
  peerInterested := false
  bitfield := Bitfield.empty pieces
  depth := max depth 1
  downloads := []
  upload := none
  assigned := none
  lastReceived := now
  lastSent := now

def connecting (session : Session) : Session :=
  { session with phase := .connecting }

/-- Both handshakes are exchanged. -/
def handshakeDone (session : Session) (now : Nat) (peerId : PeerId)
    (capabilities : Capabilities) : Session :=
  { session with
    peerId := some peerId, capabilities := capabilities, phase := .handshaked, lastReceived := now }

/-- Whether a queued request is answered by a block. -/
def answers (index start : Nat) (data : Bytes) (request : BlockRequest) : Bool :=
  request.piece = index && request.start = start && request.length = data.length

/-- Applies a message to an open session. -/
def apply (session : Session) : Message → Session × Except Violation Event
  | .keepAlive => (session, .ok .keepAlive)
  | .choke =>
    ({ session with peerChoking := true, downloads := [] }, .ok (.choked session.downloads))
  | .unchoke => ({ session with peerChoking := false }, .ok .unchoked)
  | .interested => ({ session with peerInterested := true }, .ok .interested)
  | .notInterested => ({ session with peerInterested := false }, .ok .notInterested)
  | .have_ piece =>
    if piece < session.bitfield.size then
      ({ session with bitfield := session.bitfield.insert piece }, .ok (.have_ piece))
    else (session, .error (.haveOutOfRange piece session.bitfield.size))
  | .bitfield bytes =>
    match Bitfield.ofBytes? session.bitfield.size bytes with
    | some field => ({ session with bitfield := field }, .ok .bitfield)
    | none =>
      (session, .error (.bitfieldSize (Bitfield.byteCount session.bitfield.size) bytes.length))
  | .request request =>
    match session.upload with
    | some outstanding => (session, .error (.duplicateUpload request outstanding))
    | none =>
      if session.amChoking then (session, .ok .ignored)
      else ({ session with upload := some request }, .ok (.request request))
  | .piece index start data =>
    match session.downloads.find? (answers index start data) with
    | some request =>
      ({ session with downloads := session.downloads.eraseP (answers index start data) },
        .ok (.block request data))
    | none => (session, .ok .ignored)
  | .cancel request =>
    if session.upload = some request then
      ({ session with upload := none }, .ok (.cancel request))
    else (session, .ok .ignored)
  | .port number => (session, .ok (.port number))

/-- Receives a message: any message opens an otherwise idle session. -/
def receive (session : Session) (now : Nat) (message : Message) :
    Session × Except Violation Event :=
  if session.phase.isOpen then
    { session with phase := .active, lastReceived := now }.apply message
  else (session, .error (.beforeHandshake session.address))

/-- Chokes the peer and drops its open request. -/
def choke (session : Session) : Session × Option Message :=
  if session.amChoking then (session, none)
  else ({ session with amChoking := true, upload := none }, some .choke)

def unchoke (session : Session) : Session × Option Message :=
  if session.amChoking then ({ session with amChoking := false }, some .unchoke)
  else (session, none)

def showInterest (session : Session) : Session × Option Message :=
  if session.amInterested then (session, none)
  else ({ session with amInterested := true }, some .interested)

def withdrawInterest (session : Session) : Session × Option Message :=
  if session.amInterested then ({ session with amInterested := false }, some .notInterested)
  else (session, none)

/-- Whether one more request may be open. -/
def canRequest (session : Session) : Bool :=
  !session.peerChoking && session.downloads.length < session.depth

/-- Opens a request. -/
def request (session : Session) (request : BlockRequest) : Except PeerFault (Session × Message) :=
  if session.canRequest then
    .ok ({ session with downloads := session.downloads ++ [request] }, .request request)
  else .error (.cannotRequest request session.address)

/-- Whether a request for a block is open. -/
def isRequested (session : Session) (piece start : Nat) : Bool :=
  session.downloads.any fun request => request.piece = piece && request.start = start

/-- Takes the peer's open request. -/
def takeUpload (session : Session) : Session × Option BlockRequest :=
  ({ session with upload := none }, session.upload)

/-- Sets or clears the piece that is being fetched from the peer. -/
def assign (session : Session) (piece : Option Nat) : Session :=
  { session with assigned := piece }

/-- Drops the open requests for a piece. -/
def dropRequests (session : Session) (piece : Nat) : Session :=
  { session with downloads := session.downloads.filter (·.piece ≠ piece) }

def sent (session : Session) (now : Nat) : Session :=
  { session with lastSent := now }

/-- Forgets the state of the connection but not who the peer is. -/
def reset (session : Session) : Session :=
  { session with
    phase := .disconnected, amChoking := true, peerChoking := true, amInterested := false,
    peerInterested := false, bitfield := Bitfield.empty session.bitfield.size, downloads := [],
    upload := none, assigned := none }

end Session

end BitTorrent
