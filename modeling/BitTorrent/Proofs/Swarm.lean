import BitTorrent.Download.Stored

/-!
One torrent and the peers connected to it. Handlers run one at a time, each to its end; a run is
the list of the handlers that were called and of what happened besides. Every connection keeps a
log of what was received and sent on it and of what was written for it.
-/

set_option autoImplicit false

namespace BitTorrent

/-- An entry in the log of a connection. -/
inductive Exchange where
  | received (message : Message)
  | accepted (request : BlockRequest)
  | wrote (request : BlockRequest) (range : ByteRange) (data : Bytes)
  | sent (message : Message)
  deriving DecidableEq, Repr

/-- A connected peer. `failed` and `leaving` say whether a handler ended with a fault or asked to
close the connection. -/
structure Peer where
  session : Session
  mailbox : Nat
  log : List Exchange
  failed : Bool
  leaving : Bool

def Peer.address (peer : Peer) : Address :=
  peer.session.address

/-- What a handler of one peer works on. -/
structure Scene where
  store : MemoryStore
  download : Download
  peer : Peer

namespace Scene

def turn (scene : Scene) : Turn :=
  ⟨scene.download, scene.peer.session, []⟩

/-- Adds entries to the log. -/
def logged (scene : Scene) (entries : List Exchange) : Scene :=
  { scene with peer := { scene.peer with log := scene.peer.log ++ entries } }

/-- Takes over a turn, whose outbox is sent. -/
def follow (scene : Scene) (turn : Turn) : Scene :=
  { scene with
    download := turn.download
    peer := { scene.peer with
      session := turn.session, log := scene.peer.log ++ turn.outbox.map .sent } }

/-- Keeps how a handler ended. -/
def judged (scene : Scene) : Except Fault Flow → Scene
  | .ok .stay => scene
  | .ok .leave => { scene with peer := { scene.peer with leaving := true } }
  | .error _ => { scene with peer := { scene.peer with failed := true } }

/-- Takes over what a handler leaves behind. -/
def settle (scene : Scene) (outcome : Outcome) : Scene :=
  ({ scene with store := outcome.store }.follow outcome.turn).judged outcome.result

/-- What the reaction to an event does before anything is sent. -/
def noted : Event → Next → List Exchange
  | .request request, .done (.ok _) => [.accepted request]
  | _, .wait (.write request range data) => [.wrote request range data]
  | _, _ => []

/-- The log entries of a received message up to what is sent. -/
def heard (scene : Scene) (now : Nat) (message : Message) : List Exchange :=
  .received message ::
    match scene.peer.session.receive now message with
    | (session, .ok event) => noted event (({ scene.turn with session := session }).handle event).2
    | (_, .error _) => []

def greet (scene : Scene) : Scene :=
  scene.follow scene.turn.greet

/-- Receives a message and reacts to it. -/
def receive (scene : Scene) (now : Nat) (message : Message) : Scene :=
  (scene.logged (scene.heard now message)).settle
    (scene.turn.receiveStored scene.store now message).2

/-- Serves the open request of the peer. -/
def serve (scene : Scene) : Scene :=
  scene.settle (scene.turn.serveStored scene.store)

/-- Reacts to a piece that was completed. -/
def localHave (scene : Scene) (piece : Nat) : Scene :=
  (scene.follow (scene.turn.onLocalHave piece).1).judged (scene.turn.onLocalHave piece).2

def checkIdle (scene : Scene) (now : Nat) : Scene :=
  (scene.follow (scene.turn.checkIdle now).1).judged (.ok (scene.turn.checkIdle now).2)

/-- Follows the first command in the mailbox. -/
def obey (scene : Scene) : Scene :=
  match scene.download.roster.queued scene.peer.mailbox with
  | [] => scene
  | command :: rest =>
    let taken := { scene with
      download := { scene.download with
        roster := scene.download.roster.setQueue scene.peer.mailbox rest } }
    match command with
    | .have_ piece => taken.localHave piece
    | .disconnect => taken.judged (.ok .leave)

end Scene

/-- A torrent, the store of its bytes, and the connected peers. -/
structure Swarm where
  store : MemoryStore
  download : Download
  peers : List Peer

/-- What can happen to a swarm. -/
inductive Happening where
  | join (address : Address) (peerId : PeerId) (source : PeerSource)
      (capabilities : Capabilities) (now : Nat)
  | greet (address : Address)
  | receive (address : Address) (now : Nat) (message : Message)
  | serve (address : Address)
  | localHave (address : Address) (piece : Nat)
  | obey (address : Address)
  | checkIdle (address : Address) (now : Nat)
  | leave (address : Address)
  | recheck
  | ban (ip : IpAddress)
  | failWrites (fault : Option Fault)
  | failReads (fault : Option Fault)

namespace Swarm

/-- Nobody is connected, and no piece is complete. -/
def start (torrent : Torrent) (settings : Settings) (selector : Selector) (ownId : PeerId)
    (draws : List Nat) (store : MemoryStore) : Swarm where
  store := store
  download := (Download.new torrent settings ownId draws).withSelector selector
  peers := []

def peer? (swarm : Swarm) (address : Address) : Option Peer :=
  swarm.peers.find? (·.address = address)

def scene (swarm : Swarm) (peer : Peer) : Scene :=
  ⟨swarm.store, swarm.download, peer⟩

/-- Takes over the scene of a handler. -/
def put (swarm : Swarm) (scene : Scene) : Swarm where
  store := scene.store
  download := scene.download
  peers := swarm.peers.map fun peer =>
    if peer.address = scene.peer.address then scene.peer else peer

/-- Runs a handler for the peer of an address, if one is connected. -/
def on (swarm : Swarm) (address : Address) (handler : Scene → Scene) : Swarm :=
  match swarm.peer? address with
  | none => swarm
  | some peer => swarm.put (handler (swarm.scene peer))

/-- A session whose handshakes are just exchanged. -/
def welcome (download : Download) (address : Address) (peerId : PeerId)
    (capabilities : Capabilities) (now mailbox : Nat) : Peer where
  session := ((download.newSession address now).connecting).handshakeDone now peerId capabilities
  mailbox := mailbox
  log := []
  failed := false
  leaving := false

/-- A peer connects, unless one of its address is connected. -/
def join (swarm : Swarm) (address : Address) (peerId : PeerId) (source : PeerSource)
    (capabilities : Capabilities) (now : Nat) : Swarm :=
  match swarm.download.roster.attach address peerId source with
  | .error _ => swarm
  | .ok (roster, mailbox) =>
    { swarm with
      download := { swarm.download with roster := roster }
      peers := swarm.peers ++ [welcome swarm.download address peerId capabilities now mailbox] }

/-- The connection of a peer ends. -/
def leave (swarm : Swarm) (address : Address) : Swarm :=
  match swarm.peer? address with
  | none => swarm
  | some peer =>
    let download := (swarm.scene peer).turn.onDisconnect.download
    { swarm with
      download := { download with roster := download.roster.close peer.mailbox }
      peers := swarm.peers.filter (·.address ≠ address) }

def step (swarm : Swarm) : Happening → Swarm
  | .join address peerId source capabilities now =>
    swarm.join address peerId source capabilities now
  | .greet address => swarm.on address Scene.greet
  | .receive address now message => swarm.on address (·.receive now message)
  | .serve address => swarm.on address Scene.serve
  | .localHave address piece => swarm.on address (·.localHave piece)
  | .obey address => swarm.on address Scene.obey
  | .checkIdle address now => swarm.on address (·.checkIdle now)
  | .leave address => swarm.leave address
  | .recheck => { swarm with download := (swarm.download.recheck swarm.store).1 }
  | .ban ip => { swarm with download := swarm.download.ban ip }
  | .failWrites fault => { swarm with store := { swarm.store with failWrites := fault } }
  | .failReads fault => { swarm with store := { swarm.store with failReads := fault } }

/-- What a swarm becomes as one thing happens after the other. -/
def run (swarm : Swarm) (happenings : List Happening) : Swarm :=
  happenings.foldl step swarm

theorem run_append (swarm : Swarm) (before after : List Happening) :
    swarm.run (before ++ after) = (swarm.run before).run after :=
  List.foldl_append

end Swarm

/-! A torrent of one piece, and two peers that have it. -/

namespace Sample

def content : Bytes :=
  [0x64, 0x61, 0x74, 0x61]

def info : Metainfo :=
  .ofFiles (sha1 []) "sample" 4 [sha1 content] [("sample", 4)]

def piece : Piece :=
  ⟨0, sha1 content, 0, 4⟩

def request : BlockRequest :=
  ⟨0, 0, 4⟩

def torrent : Torrent :=
  ⟨sha1 [], "sample", 4, 4, [piece], [⟨"sample", 0, 4⟩], []⟩

theorem ofMetainfo_info : Torrent.ofMetainfo info = .ok torrent :=
  rfl

def first : Address :=
  ⟨.v4 10 0 0 1, 1, 0⟩

def second : Address :=
  ⟨.v4 10 0 0 2, 1, 0⟩

def peerId : PeerId :=
  .replicate 20 0

def start : Swarm :=
  .start torrent {} ⟨.sequential, false⟩ peerId [] (.empty 4)

/-- A peer connects, has the piece, and lets us ask for it. -/
def offer (address : Address) : List Happening :=
  [.join address peerId .incoming .none 0, .receive address 0 (.have_ 0),
    .receive address 0 .unchoke]

/-- The second peer is ready while the piece is fetched from the first. -/
def rivalry : List Happening :=
  offer first ++ offer second

/-- The first peer gives the piece back. -/
def release : List Happening :=
  rivalry ++ [.receive first 0 .choke]

/-- The piece is fetched from a peer that asks for it afterwards. -/
def exchange : List Happening :=
  offer first ++ [.receive first 0 (.piece 0 0 content), .receive first 0 .interested,
    .receive first 0 (.request request), .serve first]

end Sample

end BitTorrent
