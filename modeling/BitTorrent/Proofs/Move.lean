import BitTorrent.Proofs.Holdings
import BitTorrent.Proofs.Selection
import BitTorrent.Proofs.Swarm
import Mathlib.Logic.Relation

/-!
What the handlers of a connection can do, in single moves. A move says under which conditions it is
made and exactly what it changes. A handler makes one move after the other; at its end it may
withdraw interest.
-/

set_option autoImplicit false

namespace BitTorrent

open Relation (ReflTransGen)

/-- An open session that has just received something. -/
def Session.awake (session : Session) (now : Nat) : Session :=
  { session with phase := .active, lastReceived := now }

/-- Marks the block that a request asked for. -/
def Holdings.fetch (holdings : Holdings) (piece : Piece) (request : BlockRequest) : Holdings :=
  match piece.blockAt? request.start with
  | some block => holdings.mark request.piece block true
  | .none => holdings

namespace Download

/-- Releases the piece that is fetched from a peer, if there is one. -/
def free (download : Download) (session : Session) : Download :=
  match session.assigned with
  | some piece => download.release piece session.address
  | none => download

def withHoldings (download : Download) (holdings : Holdings) : Download :=
  { download with holdings := holdings }

def withRoster (download : Download) (roster : Roster) : Download :=
  { download with roster := roster }

/-- Completes a piece and announces it if it was not complete before. -/
def verify (download : Download) (piece : Piece) : Download :=
  if (download.complete piece.index).2 then (download.complete piece.index).1.announce piece.index
  else (download.complete piece.index).1

/-- Forgets the blocks of a corrupt piece and bans the sender if the policy says so. -/
def reject (download : Download) (piece : Piece) (ip : IpAddress) : Download :=
  match download.settings.corruptionPolicy with
  | .ban => (download.withHoldings (download.holdings.markAll piece.index false)).ban ip
  | .retry => download.withHoldings (download.holdings.markAll piece.index false)

end Download

namespace Scene

def withSession (scene : Scene) (session : Session) : Scene :=
  { scene with peer := { scene.peer with session := session } }

def withDownload (scene : Scene) (download : Download) : Scene :=
  { scene with download := download }

def withStore (scene : Scene) (store : MemoryStore) : Scene :=
  { scene with store := store }

/-- A handler has ended with a fault. -/
def failed (scene : Scene) : Scene :=
  { scene with peer := { scene.peer with failed := true } }

/-- A handler has asked to close the connection. -/
def leaving (scene : Scene) : Scene :=
  { scene with peer := { scene.peer with leaving := true } }

/-- The peer is no longer fetched from. -/
def free (scene : Scene) : Scene :=
  (scene.withDownload (scene.download.free scene.peer.session)).withSession
    (scene.peer.session.assign none)

/-- The open requests for a piece are cancelled. -/
def drop (scene : Scene) (piece : Nat) : Scene :=
  (scene.withSession (scene.peer.session.dropRequests piece)).logged
    ((scene.peer.session.downloads.filter (·.piece = piece)).map (.sent <| .cancel ·))

/-- A message has come and has changed the session. -/
def hear (scene : Scene) (session : Session) (message : Message) : Scene :=
  (scene.withSession session).logged [.received message]

/-- A block has come that answers an open request. -/
def arrive (scene : Scene) (now : Nat) (request : BlockRequest) (data : Bytes) : Scene :=
  scene.hear { scene.peer.session.awake now with
    downloads := scene.peer.session.downloads.erase request }
    (.piece request.piece request.start data)

/-- A block has come and is to be written. -/
def store_ (scene : Scene) (now : Nat) (request : BlockRequest) (range : ByteRange)
    (data : Bytes) : Scene :=
  (scene.arrive now request data).logged [.wrote request range data]

/-- A block of an incomplete piece answers an open request. -/
structure Answers (scene : Scene) (request : BlockRequest) (data : Bytes) (piece : Piece)
    (range : ByteRange) : Prop where
  isOpen : request ∈ scene.peer.session.downloads
  sized : data.length = request.length
  found : scene.download.torrent.piece? request.piece = some piece
  missing : scene.download.holdings.has request.piece = false
  inside : piece.subRange? request.start request.length = some range

end Scene

/-- A single move of a connection. -/
inductive Move : Scene → Scene → Prop
  | ignored {scene : Scene} (now : Nat) (message : Message) (event : Event) :
      (scene.peer.session.awake now).apply message = (scene.peer.session.awake now, .ok event) →
      event = .keepAlive ∨ event = .ignored ∨ (∃ number, event = .port number) →
      Move scene (scene.hear (scene.peer.session.awake now) message)
  | refused {scene : Scene} (now : Nat) (message : Message) (violation : Violation) :
      (scene.peer.session.awake now).apply message =
        (scene.peer.session.awake now, .error violation) →
      Move scene (scene.hear (scene.peer.session.awake now) message).failed
  | unchoked {scene : Scene} (now : Nat) :
      Move scene (scene.hear { scene.peer.session.awake now with peerChoking := false } .unchoke)
  | choked {scene : Scene} (now : Nat) :
      Move scene ((scene.hear { scene.peer.session.awake now with
        peerChoking := true, downloads := [] } .choke).free)
  | interested {scene : Scene} (now : Nat) :
      Move scene ((scene.hear { scene.peer.session.awake now with
          peerInterested := true, amChoking := false } .interested).logged
        (if scene.peer.session.amChoking then [.sent .unchoke] else []))
  | notInterested {scene : Scene} (now : Nat) :
      Move scene ((scene.hear { scene.peer.session.awake now with
          peerInterested := false
          amChoking := true
          upload := if scene.peer.session.amChoking then scene.peer.session.upload else none }
          .notInterested).logged
        (if scene.peer.session.amChoking then [] else [.sent .choke]))
  | accepted {scene : Scene} (now : Nat) (request : BlockRequest) :
      scene.peer.session.amChoking = false →
      Turn.checkRequest scene.download request = .ok () →
      Move scene ((scene.hear { scene.peer.session.awake now with upload := some request }
        (.request request)).logged [.accepted request])
  | rejected {scene : Scene} (now : Nat) (request : BlockRequest) (violation : Violation) :
      Turn.checkRequest scene.download request = .error violation →
      Move scene (scene.hear { scene.peer.session.awake now with upload := some request }
        (.request request)).failed
  | cancelled {scene : Scene} (now : Nat) (request : BlockRequest) :
      scene.peer.session.upload = some request →
      Move scene (scene.hear { scene.peer.session.awake now with upload := none }
        (.cancel request))
  -- Interest is declared in the same move as the set changes: between the two the peer could have
  -- something of use without our being interested.
  | announced {scene : Scene} (now : Nat) (message : Message) (field : Bitfield) (useful : Bool) :
      (∃ piece, message = .have_ piece) ∨ (∃ bytes, message = .bitfield bytes) →
      field.size = scene.peer.session.bitfield.size →
      (useful = false → field.hasMissingFrom scene.download.holdings.completed = false ∨
        scene.download.isBanned scene.peer.session.address.ip = true) →
      (useful = true → scene.download.isBanned scene.peer.session.address.ip = false) →
      Move scene (((scene.hear { scene.peer.session.awake now with
            bitfield := field
            amInterested := scene.peer.session.amInterested || useful } message).withDownload
          (scene.download.withRoster (scene.download.roster.updateBitfield
            scene.peer.session.address field))).logged
        (if useful && !scene.peer.session.amInterested then [.sent .interested] else []))
  | discarded {scene : Scene} (now : Nat) (request : BlockRequest) (data : Bytes) :
      request ∈ scene.peer.session.downloads → data.length = request.length →
      scene.download.holdings.has request.piece = true →
      Move scene (scene.arrive now request data)
  | stray {scene : Scene} (now : Nat) (request : BlockRequest) (data : Bytes) :
      request ∈ scene.peer.session.downloads → data.length = request.length →
      (∀ piece, scene.download.torrent.piece? request.piece = some piece →
        piece.subRange? request.start request.length = none) →
      Move scene (scene.arrive now request data).failed
  | lost {scene : Scene} (now : Nat) {request : BlockRequest} {data : Bytes} {piece : Piece}
      {range : ByteRange} (fault : Fault) :
      scene.Answers request data piece range → scene.store.write range data = .error fault →
      Move scene (((scene.store_ now request range data).withDownload
        (scene.download.record fault)).failed)
  | stored {scene : Scene} (now : Nat) {request : BlockRequest} {data : Bytes} {piece : Piece}
      {range : ByteRange} (store : MemoryStore) :
      scene.Answers request data piece range → scene.store.write range data = .ok store →
      (scene.download.holdings.fetch piece request).allFetched request.piece = false →
      Move scene (((scene.store_ now request range data).withStore store).withDownload
        (scene.download.withHoldings (scene.download.holdings.fetch piece request)))
  | completed {scene : Scene} (now : Nat) {request : BlockRequest} {data : Bytes} {piece : Piece}
      {range : ByteRange} (store : MemoryStore) :
      scene.Answers request data piece range → scene.store.write range data = .ok store →
      (scene.download.holdings.fetch piece request).allFetched request.piece = true →
      store.checksum piece.range = .ok piece.hash →
      Move scene ((((scene.store_ now request range data).withStore store).withDownload
        (((scene.download.withHoldings
          (scene.download.holdings.fetch piece request)).releaseAll request.piece).verify
            piece)).withSession
        ((scene.store_ now request range data).peer.session.assign none))
  | corrupted {scene : Scene} (now : Nat) {request : BlockRequest} {data : Bytes} {piece : Piece}
      {range : ByteRange} (store : MemoryStore) (digest : Digest) :
      scene.Answers request data piece range → scene.store.write range data = .ok store →
      (scene.download.holdings.fetch piece request).allFetched request.piece = true →
      store.checksum piece.range = .ok digest → digest ≠ piece.hash →
      Move scene ((((scene.store_ now request range data).withStore store).withDownload
        (((scene.download.withHoldings
          (scene.download.holdings.fetch piece request)).releaseAll request.piece).reject
            piece scene.peer.session.address.ip)).withSession
        ((scene.store_ now request range data).peer.session.assign none))
  | unreadable {scene : Scene} (now : Nat) {request : BlockRequest} {data : Bytes} {piece : Piece}
      {range : ByteRange} (store : MemoryStore) (fault : Fault) :
      scene.Answers request data piece range → scene.store.write range data = .ok store →
      (scene.download.holdings.fetch piece request).allFetched request.piece = true →
      store.checksum piece.range = .error fault →
      Move scene ((((scene.store_ now request range data).withStore store).withDownload
        ((((scene.download.withHoldings
          (scene.download.holdings.fetch piece request)).releaseAll request.piece).withHoldings
            ((scene.download.holdings.fetch piece request).markAll piece.index false)).record
              fault)).withSession
        ((scene.store_ now request range data).peer.session.assign none)).failed
  | released {scene : Scene} (piece : Nat) :
      scene.peer.session.assigned = some piece →
      scene.download.holdings.has piece = true ∨
        (∀ request ∈ scene.peer.session.downloads, request.piece ≠ piece) →
      Move scene scene.free
  | took {scene : Scene} (piece : Nat) :
      scene.peer.session.assigned = none →
      scene.peer.session.peerChoking = false →
      scene.download.isBanned scene.peer.session.address.ip = false →
      scene.peer.session.bitfield.has piece = true →
      scene.download.holdings.has piece = false →
      (scene.download.selector.endGame = false →
        piece ∉ scene.download.assignments.map (·.1)) →
      Move scene ((scene.withDownload { scene.download.assign piece scene.peer.session.address with
        draws := scene.download.draws.tail }).withSession
          (scene.peer.session.assign (some piece)))
  | asked {scene : Scene} (index : Nat) (piece : Piece) (block : Block) :
      scene.peer.session.assigned = some index →
      scene.peer.session.canRequest = true →
      scene.download.holdings.has index = false →
      scene.download.torrent.piece? index = some piece →
      piece.nextMissing? (scene.download.holdings.blocks index)
        (fun block => scene.peer.session.isRequested index block.offset) = some block →
      Move scene ((scene.withSession { scene.peer.session with
          downloads := scene.peer.session.downloads ++
            [⟨index, block.offset, block.length⟩] }).logged
        [.sent (.request ⟨index, block.offset, block.length⟩)])
  | skipped {scene : Scene} :
      Move scene (scene.withSession { scene.peer.session with upload := none })
  | unserved {scene : Scene} (download : Download) :
      download = scene.download ∨ (∃ fault, download = scene.download.record fault) →
      Move scene ((scene.withSession { scene.peer.session with upload := none }).withDownload
        download).failed
  | served {scene : Scene} (request : BlockRequest) (piece : Piece) (range : ByteRange)
      (data : Bytes) :
      scene.peer.session.upload = some request → scene.peer.session.amChoking = false →
      scene.download.torrent.piece? request.piece = some piece →
      piece.subRange? request.start request.length = some range →
      scene.store.read range = .ok data →
      Move scene ((scene.withSession { scene.peer.session with upload := none }).logged
        [.sent (.piece request.piece request.start data)])
  | told {scene : Scene} (piece : Nat) :
      scene.peer.session.assigned ≠ some piece →
      Move scene ((scene.drop piece).logged [.sent (.have_ piece)])
  | recalled {scene : Scene} (piece : Nat) :
      scene.peer.session.assigned = some piece →
      Move scene ((scene.drop piece).free.logged [.sent (.have_ piece)])
  | greeted {scene : Scene} :
      Move scene (scene.logged [.sent (.bitfield scene.download.holdings.completed.toBytes)])
  | kept {scene : Scene} : Move scene (scene.logged [.sent .keepAlive])
  | obeyed {scene : Scene} (rest : List Command) :
      Move scene (scene.withDownload (scene.download.withRoster
        (scene.download.roster.setQueue scene.peer.mailbox rest)))
  | parted {scene : Scene} : Move scene scene.leaving

/-- One move after the other. -/
abbrev Moves : Scene → Scene → Prop :=
  ReflTransGen Move

/-- The pieces that the peer has are complete or, without the end game, fetched from somebody. -/
def Scene.Idle (scene : Scene) : Prop :=
  ∀ piece, scene.peer.session.bitfield.has piece = true →
    scene.download.holdings.has piece = true ∨
      (scene.download.selector.endGame = false ∧
        piece ∈ scene.download.assignments.map (·.1))

/-- Interest is withdrawn. -/
structure Withdrawal (scene after : Scene) : Prop where
  interested : scene.peer.session.amInterested = true
  noRequest : scene.peer.session.downloads = []
  unassigned : scene.peer.session.assigned = none
  idle : scene.download.isBanned scene.peer.session.address.ip = true ∨ scene.Idle
  result : after = (scene.withSession { scene.peer.session with amInterested := false }).logged
    [.sent .notInterested]

/-- What a handler does. -/
def Course (scene after : Scene) : Prop :=
  ∃ middle, Moves scene middle ∧ (after = middle ∨ Withdrawal middle after)

theorem Course.of_moves {scene after : Scene} (moves : Moves scene after) : Course scene after :=
  ⟨after, moves, Or.inl rfl⟩

theorem Course.head {scene middle after : Scene} (moves : Moves scene middle)
    (course : Course middle after) : Course scene after := by
  obtain ⟨last, later, finish⟩ := course
  exact ⟨last, moves.trans later, finish⟩

end BitTorrent
