import BitTorrent.Arguments
import BitTorrent.Holdings
import BitTorrent.Metainfo.Reader
import BitTorrent.Statistics
import BitTorrent.Store.Files

/-!
What there is to tell about a torrent before anybody is connected: the lines that describe it, and
how much of it its files already hold.
-/

set_option autoImplicit false

namespace BitTorrent

/-- The lines that describe a torrent; only a detailed description names the trackers. -/
def Metainfo.overview (info : Metainfo) (detailed : Bool) : List String :=
  ["Name: " ++ info.name,
    s!"Size: {Statistics.bytesText info.totalLength} in {info.files.length} files",
    s!"Pieces: {info.hashes.length} of {Statistics.bytesText info.pieceLength}",
    "Info hash: " ++ Bytes.hex info.infoHash.toList] ++
  if detailed then info.trackers.map ("Tracker: " ++ ·) else []

/-- Whether the bytes of a piece are there and have its digest. -/
def FileStore.holds (store : FileStore) (disk : Disk) (piece : Piece) : Bool :=
  match store.checksum disk piece.range with
  | .ok digest => digest = piece.hash
  | .error _ => false

/-- What the files of a torrent hold of it. -/
def FileStore.holdings (store : FileStore) (disk : Disk) (torrent : Torrent) : Holdings :=
  (torrent.pieces.filter (store.holds disk)).foldl
    (fun holdings piece => (holdings.complete piece.index).1) (Holdings.none torrent)

/-- The figures of a torrent that nobody transfers yet. -/
def Holdings.statistics (holdings : Holdings) (torrent : Torrent) : Statistics :=
  { completedPieces := holdings.completed.count
    totalPieces := torrent.pieceCount
    left := holdings.left torrent }

end BitTorrent
