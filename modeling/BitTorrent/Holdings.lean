import BitTorrent.Bitfield
import BitTorrent.Metainfo

/-!
How much of a torrent is there: the pieces that are complete and, block by block, what is fetched.
-/

set_option autoImplicit false

namespace BitTorrent

/-- The complete pieces, and for each piece which of its blocks are fetched. -/
structure Holdings where
  completed : Bitfield
  fetched : List (List Bool)
  deriving DecidableEq, Repr

namespace Holdings

/-- Nothing is there yet. -/
def none (torrent : Torrent) : Holdings where
  completed := Bitfield.empty torrent.pieceCount
  fetched := torrent.pieces.map Piece.noneFetched

/-- Whether a piece is complete. -/
def has (holdings : Holdings) (piece : Nat) : Bool :=
  holdings.completed.has piece

/-- The marks of the blocks of a piece. -/
def blocks (holdings : Holdings) (piece : Nat) : List Bool :=
  holdings.fetched.getD piece []

/-- Whether a block is fetched. -/
def isFetched (holdings : Holdings) (piece block : Nat) : Bool :=
  (holdings.blocks piece).getD block false

/-- Whether every block of a piece is fetched. -/
def allFetched (holdings : Holdings) (piece : Nat) : Bool :=
  (holdings.blocks piece).all id

/-- Marks a block as fetched or not. -/
def mark (holdings : Holdings) (piece block : Nat) (value : Bool) : Holdings :=
  { holdings with fetched := holdings.fetched.modify piece fun row => row.set block value }

/-- Marks every block of a piece as fetched or not. -/
def markAll (holdings : Holdings) (piece : Nat) (value : Bool) : Holdings :=
  { holdings with fetched := holdings.fetched.modify piece fun row => row.map fun _ => value }

/-- Completes a piece with all its blocks; says whether it was not complete before. A piece that
does not exist changes nothing. -/
def complete (holdings : Holdings) (piece : Nat) : Holdings × Bool :=
  if piece < holdings.completed.size then
    ({ holdings.markAll piece true with completed := holdings.completed.insert piece },
      !holdings.has piece)
  else (holdings, false)

def isComplete (holdings : Holdings) : Bool :=
  holdings.completed.isFull

/-- The bytes of the pieces that are not marked. -/
def unmarked : List Piece → List Bool → Nat
  | piece :: pieces, done :: marks =>
    (if done then 0 else piece.length) + unmarked pieces marks
  | _, _ => 0

/-- The bytes of the pieces that are not complete. -/
def left (torrent : Torrent) (holdings : Holdings) : Nat :=
  unmarked torrent.pieces holdings.completed.bits

end Holdings

end BitTorrent
