import BitTorrent.Download.Stored
import BitTorrent.Rate.Sampler
import BitTorrent.Statistics

/-!
A torrent under way: the state that its connections share, the store that its bytes go to, and the
meters that its traffic passes. The first meter is that of the whole torrent; every connection has
one below it.
-/

set_option autoImplicit false

namespace BitTorrent

/-- A torrent under way. -/
structure Transfer where
  download : Download
  store : MemoryStore
  metering : Metering
  deriving Repr

namespace Transfer

/-- The meter of the whole torrent. -/
def root : Nat := 0

def new (torrent : Torrent) (store : MemoryStore) (settings : Settings) (ownId : PeerId)
    (now : Nat) : Transfer where
  download := Download.new torrent settings ownId []
  store := store
  metering := Metering.new settings.downloadLimit settings.uploadLimit now

/-- Changes who is known. -/
def withRoster (transfer : Transfer) (roster : Roster) : Transfer :=
  { transfer with download := { transfer.download with roster := roster } }

/-- Changes the meters but not the samplers. -/
def withShaper (transfer : Transfer) (shaper : Shaper) : Transfer :=
  { transfer with metering := { transfer.metering with shaper := shaper } }

/-- The figures of the torrent. -/
def statistics (transfer : Transfer) : Statistics :=
  let shaper := transfer.metering.shaper
  { downloaded := shaper.total .download root
    uploaded := shaper.total .upload root
    downloadSpeed := shaper.speed .download root
    uploadSpeed := shaper.speed .upload root
    peers := transfer.download.roster.connectedCount
    completedPieces := transfer.download.holdings.completed.count
    totalPieces := transfer.download.torrent.pieceCount
    left := transfer.download.left }

/-- Limits one direction of the torrent's traffic. -/
def setLimit (transfer : Transfer) (now : Nat) (direction : Direction) (rate : Nat) : Transfer :=
  transfer.withShaper (transfer.metering.shaper.setLimit now root direction rate)

/-- Limits the directions for which there is a rate. -/
def setLimits (transfer : Transfer) (now : Nat) (down up : Option Nat) : Transfer :=
  let set (transfer : Transfer) (direction : Direction) (rate : Option Nat) : Transfer :=
    rate.elim transfer (transfer.setLimit now direction)
  set (set transfer .download down) .upload up

/-- Samples the speeds periodically; at most one sampler runs. -/
def startSampler (transfer : Transfer) (now : Nat) : Transfer :=
  if transfer.metering.samplers.isEmpty then
    { transfer with
      metering := transfer.metering.watch now root transfer.download.settings.sampleInterval }
  else transfer

/-- Lets the samplers fire that are due. -/
def sample (transfer : Transfer) (now : Nat) : Transfer :=
  { transfer with metering := transfer.metering.fire now }

/-- Asks every connection to close and stops the sampler. -/
def shutdown (transfer : Transfer) : Transfer :=
  { transfer with
    download := transfer.download.shutdown
    metering := transfer.metering.unwatch }

/-- Completes the pieces that the store holds, and counts them. -/
def recheck (transfer : Transfer) : Transfer × Nat :=
  let (download, count) := transfer.download.recheck transfer.store
  ({ transfer with download := download }, count)

/-- Lets a turn begin. -/
def turn (transfer : Transfer) (session : Session) (outbox : List Message) : Turn :=
  ⟨transfer.download, session, outbox⟩

/-- Takes over what a turn leaves behind. -/
def after (transfer : Transfer) (outcome : Outcome) : Transfer :=
  { transfer with download := outcome.turn.download, store := outcome.store }

/-- Passes bytes through a meter as far as they come without a wait. -/
def pass (transfer : Transfer) (now : Nat) (passage : Passage) : Transfer × Progress :=
  let (shaper, progress) := transfer.metering.shaper.advance now passage
  (transfer.withShaper shaper, progress)

end Transfer

end BitTorrent
