import BitTorrent.Bytes

/-!
The byte space of a torrent: ranges, pieces, and the blocks that a piece is fetched in. All blocks
of a piece but the last have `blockSize` bytes.
-/

set_option autoImplicit false

namespace BitTorrent

/-- A contiguous range of the torrent's bytes. -/
structure ByteRange where
  offset : Nat
  length : Nat
  deriving DecidableEq, Repr

namespace ByteRange

/-- The first position behind the range. -/
def stop (range : ByteRange) : Nat :=
  range.offset + range.length

/-- The bytes that two ranges share, if there are any. -/
def meet? (a b : ByteRange) : Option ByteRange :=
  let start := max a.offset b.offset
  let stop := min a.stop b.stop
  if start < stop then some ⟨start, stop - start⟩ else none

def text (range : ByteRange) : String :=
  toString range.offset ++ "+" ++ toString range.length

end ByteRange

/-- A request for bytes of one piece, in either direction. -/
structure BlockRequest where
  piece : Nat
  start : Nat
  length : Nat
  deriving DecidableEq, Repr

def BlockRequest.text (request : BlockRequest) : String :=
  s!"piece {request.piece} [{request.start}+{request.length}]"

/-- The bytes that are asked for at once. -/
def blockSize : Nat := 16384

/-- A part of a piece, positioned within the piece. -/
structure Block where
  offset : Nat
  length : Nat
  deriving DecidableEq, Repr

/-- A run of the torrent's bytes that has a digest of its own. -/
structure Piece where
  index : Nat
  hash : Digest
  offset : Nat
  length : Nat
  deriving DecidableEq, Repr

namespace Piece

def blockCount (piece : Piece) : Nat :=
  (piece.length + (blockSize - 1)) / blockSize

/-- The block with a given number. -/
def block (piece : Piece) (number : Nat) : Block :=
  ⟨number * blockSize, min blockSize (piece.length - number * blockSize)⟩

/-- The blocks in order. -/
def blocks (piece : Piece) : List Block :=
  (List.range piece.blockCount).map piece.block

/-- The number of the block that starts at a position of the piece. -/
def blockAt? (piece : Piece) (start : Nat) : Option Nat :=
  if start % blockSize = 0 ∧ start / blockSize < piece.blockCount then some (start / blockSize)
  else none

/-- The bytes of the piece. -/
def range (piece : Piece) : ByteRange :=
  ⟨piece.offset, piece.length⟩

/-- The bytes that a position and a length within the piece stand for, if they stay inside. -/
def subRange? (piece : Piece) (start length : Nat) : Option ByteRange :=
  if start + length ≤ piece.length then some ⟨piece.offset + start, length⟩ else none

/-- No block is fetched. -/
def noneFetched (piece : Piece) : List Bool :=
  List.replicate piece.blockCount false

/-- Every block is fetched. -/
def allFetched (piece : Piece) : List Bool :=
  List.replicate piece.blockCount true

/-- The first block that is neither fetched nor skipped. -/
def nextMissing? (piece : Piece) (fetched : List Bool) (skip : Block → Bool) : Option Block :=
  ((piece.blocks.zip fetched).find? fun (block, done) => !done && !skip block).map (·.1)

end Piece

/-- A file and the position of its first byte. -/
structure FileEntry where
  path : String
  offset : Nat
  length : Nat
  deriving DecidableEq, Repr

def FileEntry.stop (file : FileEntry) : Nat :=
  file.offset + file.length

end BitTorrent
