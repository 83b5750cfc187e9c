import BitTorrent.Holdings
import BitTorrent.Roster
import BitTorrent.Session
import BitTorrent.Settings
import BitTorrent.Store.Memory

/-!
The state that all connections of one torrent share: what is there, who is known, which piece is
fetched from whom, who is banned, and the last failure that concerns the torrent as a whole.
-/

set_option autoImplicit false

namespace BitTorrent

/-- The shared state of one torrent. `assignments` pairs a piece with a peer that it is fetched
from; `draws` are the random numbers that the random policy will use. -/
structure Download where
  torrent : Torrent
  settings : Settings
  selector : Selector
  ownId : PeerId
  holdings : Holdings
  roster : Roster
  assignments : List (Nat × Address)
  banned : List IpAddress
  lastError : Option Fault
  draws : List Nat
  deriving Repr

namespace Download

/-- A download of which nothing is there yet. -/
def new (torrent : Torrent) (settings : Settings) (ownId : PeerId) (draws : List Nat) :
    Download where
  torrent := torrent
  settings := settings
  selector := ⟨settings.piecePolicy, settings.endGame⟩
  ownId := ownId
  holdings := Holdings.none torrent
  roster := Roster.empty
  assignments := []
  banned := []
  lastError := none
  draws := draws

/-- Chooses pieces in another way. -/
def withSelector (download : Download) (selector : Selector) : Download :=
  { download with selector := selector }

/-- The pieces that are fetched from somebody, each once. -/
def inFlight (download : Download) : List Nat :=
  (download.assignments.map (·.1)).eraseDups

def isBanned (download : Download) (ip : IpAddress) : Bool :=
  download.banned.contains ip

def ban (download : Download) (ip : IpAddress) : Download :=
  if download.isBanned ip then download else { download with banned := download.banned ++ [ip] }

/-- Whether a connection with an address may be made. -/
def checkAdmission (download : Download) (address : Address) : Except PeerFault Unit :=
  if download.roster.isConnected address then .error (.alreadyConnected address)
  else if download.settings.maxConnections ≤ download.roster.connectedCount then
    .error (.limitReached download.settings.maxConnections address)
  else .ok ()

/-- A fresh session with a peer of the torrent. -/
def newSession (download : Download) (address : Address) (now : Nat) : Session :=
  Session.new address download.torrent.pieceCount download.settings.pipelineDepth now

/-- Notes that a piece is fetched from a peer. -/
def assign (download : Download) (piece : Nat) (address : Address) : Download :=
  if (piece, address) ∈ download.assignments then download
  else { download with assignments := download.assignments ++ [(piece, address)] }

/-- Notes that a piece is no longer fetched from a peer. -/
def release (download : Download) (piece : Nat) (address : Address) : Download :=
  { download with
    assignments := download.assignments.filter fun pair => !(pair.1 = piece && pair.2 = address) }

/-- Notes that a piece is no longer fetched from anybody. -/
def releaseAll (download : Download) (piece : Nat) : Download :=
  { download with assignments := download.assignments.filter (·.1 ≠ piece) }

/-- Keeps a fault that concerns the torrent as a whole. -/
def record (download : Download) (fault : Fault) : Download :=
  if fault.isTorrentWide then { download with lastError := some fault } else download

/-- Completes a piece; says whether it was not complete before. -/
def complete (download : Download) (piece : Nat) : Download × Bool :=
  let (holdings, fresh) := download.holdings.complete piece
  ({ download with holdings := holdings }, fresh)

/-- Tells every connection that a piece is complete. -/
def announce (download : Download) (piece : Nat) : Download :=
  { download with roster := (download.roster.broadcast (.have_ piece)).1 }

/-- Asks every connection to close. -/
def shutdown (download : Download) : Download :=
  { download with roster := download.roster.disconnectAll.1 }

def left (download : Download) : Nat :=
  download.holdings.left download.torrent

/-- Completes a piece if the store holds its bytes, and counts it. -/
def recheckPiece (store : MemoryStore) (state : Download × Nat) (piece : Piece) :
    Download × Nat :=
  match store.checksum piece.range with
  | .ok digest =>
    if digest = piece.hash then ((state.1.complete piece.index).1, state.2 + 1) else state
  | .error _ => state

/-- Completes the pieces whose bytes the store already holds, and counts them. -/
def recheck (download : Download) (store : MemoryStore) : Download × Nat :=
  download.torrent.pieces.foldl (recheckPiece store) (download, 0)

end Download

end BitTorrent
