import BitTorrent.Holdings
import BitTorrent.View.Wire

/-!
Torrents and what is there of them, as JSON. Long lists show their first two and last two items.
-/

set_option autoImplicit false

namespace BitTorrent

/-- All items of a list of at most `most`; of a longer one the first two and the last two. -/
def abridged {α : Type} (most : Nat) (items : List α) : List α :=
  if items.length ≤ most then items else items.take 2 ++ items.drop (items.length - 2)

instance : ToJson Bitfield where
  toJson field := field.toBytes

instance : ToJson Block where
  toJson block := [block.offset, block.length]

/-- The place of a block and whether it is fetched. -/
def Block.row (block : Block) (fetched : Bool) : List Json :=
  [block.offset, block.length, fetched]

/-- A piece with the marks of its blocks. -/
def Piece.view (piece : Piece) (fetched : List Bool) : Json :=
  .record [("index", piece.index), ("offset", piece.offset), ("length", piece.length),
    ("range", piece.range), ("block_count", piece.blockCount),
    ("blocks", (abridged 8 (piece.blocks.zip fetched)).map fun (block, mark) =>
      toJson piece.index :: block.row mark),
    ("downloaded", fetched.count true), ("complete", fetched.all id)]

instance : ToJson FileEntry where
  toJson file := .record [("path", file.path), ("offset", file.offset), ("length", file.length),
    ("end", file.stop)]

/-- The entries of a description. -/
def Metainfo.entries (info : Metainfo) : List (String × Json) :=
  [("info_hash", info.infoHash), ("name", info.name), ("piece_length", info.pieceLength),
    ("piece_count", info.hashes.length), ("hashes", (info.hashes.flatMap Vector.toList : Bytes)),
    ("total_length", info.totalLength), ("file_count", info.files.length),
    ("files", abridged 12 info.files), ("trackers", info.trackers)]

instance : ToJson Metainfo where
  toJson info := .record info.entries

/-- The place, the number of blocks and the digest of a piece. -/
def Piece.row (piece : Piece) : List Json :=
  [piece.index, piece.offset, piece.length, piece.blockCount, piece.hash]

/-- A torrent and how much of it is there. -/
def Torrent.view (torrent : Torrent) (holdings : Holdings) : Json :=
  .record [("info_hash", torrent.infoHash), ("name", torrent.name),
    ("piece_length", torrent.pieceLength), ("total_size", torrent.totalLength),
    ("piece_count", torrent.pieceCount), ("pieces", (abridged 6 torrent.pieces).map Piece.row),
    ("files", torrent.files.length), ("trackers", torrent.trackers),
    ("left", holdings.left torrent), ("complete", holdings.isComplete)]

/-- A torrent of which nothing is there yet. -/
instance : ToJson Torrent where
  toJson torrent := torrent.view (Holdings.none torrent)

end BitTorrent
