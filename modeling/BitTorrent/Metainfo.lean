import BitTorrent.Fault
import BitTorrent.Sha1
import BitTorrent.Word

/-!
The description of a torrent: the digests of its pieces and the files that its bytes make up, and
the conditions under which pieces and files tile the same bytes.
-/

set_option autoImplicit false

namespace BitTorrent

/-- What is known of a torrent before any of it is fetched. -/
structure Metainfo where
  infoHash : Digest
  name : String
  pieceLength : Nat
  hashes : List Digest
  totalLength : Nat
  files : List FileEntry
  trackers : List String
  deriving Repr

namespace Metainfo

/-- Places files one behind the other from an offset on. -/
def placeFiles : Nat → List (String × Nat) → List FileEntry
  | _, [] => []
  | offset, (path, length) :: rest => ⟨path, offset, length⟩ :: placeFiles (offset + length) rest

/-- The lengths of files together. -/
def lengthSum : List (String × Nat) → Nat
  | [] => 0
  | (_, length) :: rest => length + lengthSum rest

/-- The description of files that stand one behind the other. -/
def ofFiles (infoHash : Digest) (name : String) (pieceLength : Nat) (hashes : List Digest)
    (files : List (String × Nat)) : Metainfo where
  infoHash := infoHash
  name := name
  pieceLength := pieceLength
  hashes := hashes
  totalLength := lengthSum files
  files := placeFiles 0 files
  trackers := []

/-- Positions are counted in words of 64 bits: whether every file ends below that bound. -/
def fitsWords (info : Metainfo) : Bool :=
  info.files.all (·.stop < Word.bound64)

/-- At most `count` chunks of `size` bytes from the front of a byte string. -/
def chunks (size : Nat) : Nat → Bytes → List Bytes
  | 0, _ => []
  | count + 1, bytes => bytes.take size :: chunks size count (bytes.drop size)

/-- The number of chunks of `size` that `length` bytes fill, the last one perhaps in part. -/
def chunkCount (size length : Nat) : Nat :=
  (length + (size - 1)) / size

/-- Describes given content by hashing it piece by piece; the info hash is that of the name. A
piece length of zero is refused. -/
def ofContent? (name : String) (pieceLength : Nat) (files : List (String × Bytes)) :
    Option Metainfo :=
  if pieceLength = 0 then none
  else
    let content := files.flatMap (·.2)
    let hashes := (chunks pieceLength (chunkCount pieceLength content.length) content).map sha1
    some (ofFiles (sha1 (Bytes.ofText name)) name pieceLength hashes
      (files.map fun (path, data) => (path, data.length)))

/-- Splits concatenated digests. -/
def splitHashes (bytes : Bytes) : List Digest :=
  (chunks 20 (bytes.length / 20) bytes).filterMap Digest.ofBytes?

/-- Splits concatenated digests whose length is a multiple of twenty. -/
def readHashes (bytes : Bytes) : Except MetainfoFault (List Digest) :=
  if bytes.length % 20 = 0 then .ok (splitHashes bytes) else .error (.hashesLength bytes.length)

/-- Checks that files follow each other from `cursor` on, and gives the end of the last. -/
def checkFiles : Nat → List FileEntry → Except LayoutFault Nat
  | cursor, [] => .ok cursor
  | cursor, file :: rest =>
    if file.offset = cursor then checkFiles file.stop rest
    else .error (.fileGap file.path file.offset cursor)

/-- Checks that pieces and files both tile the bytes of the torrent. -/
def validate (info : Metainfo) : Except LayoutFault Unit :=
  if info.pieceLength = 0 then .error .zeroPieceLength
  else
    let expected := chunkCount info.pieceLength info.totalLength
    if expected ≠ info.hashes.length then
      .error (.pieceCount expected info.totalLength info.hashes.length)
    else
      match checkFiles 0 info.files with
      | .error fault => .error fault
      | .ok covered =>
        if covered = info.totalLength then .ok ()
        else .error (.coverage covered info.totalLength)

end Metainfo

/-- A torrent whose pieces are laid out. -/
structure Torrent where
  infoHash : Digest
  name : String
  pieceLength : Nat
  totalLength : Nat
  pieces : List Piece
  files : List FileEntry
  trackers : List String
  deriving Repr

namespace Torrent

/-- The pieces of a description: all but the last have the piece length. -/
def layOut (info : Metainfo) : List Piece :=
  info.hashes.zipIdx.map fun (hash, index) =>
    ⟨index, hash, index * info.pieceLength,
      min info.pieceLength (info.totalLength - index * info.pieceLength)⟩

/-- Lays out a description that is consistent. -/
def ofMetainfo (info : Metainfo) : Except LayoutFault Torrent :=
  match info.validate with
  | .error fault => .error fault
  | .ok () =>
    let pieces := layOut info
    if pieces.any (·.length = 0) then .error .emptyPiece
    else .ok ⟨info.infoHash, info.name, info.pieceLength, info.totalLength, pieces, info.files,
      info.trackers⟩

def pieceCount (torrent : Torrent) : Nat :=
  torrent.pieces.length

/-- The piece with a given index. -/
def piece? (torrent : Torrent) (index : Nat) : Option Piece :=
  torrent.pieces[index]?

end Torrent

end BitTorrent
