import BitTorrent.Message
import BitTorrent.Metainfo

/-! A torrent together with its whole content, and the blocks that somebody who has it can send. -/

set_option autoImplicit false

namespace BitTorrent

/-- A torrent and its content. -/
structure Seed where
  torrent : Torrent
  content : Bytes

namespace Seed

/-- The torrent of some files, unless the piece length is zero or nothing can be laid out. -/
def ofFiles? (name : String) (pieceLength : Nat) (files : List (String × Bytes)) :
    Option (Except LayoutFault Seed) :=
  (Metainfo.ofContent? name pieceLength files).map fun info =>
    (Torrent.ofMetainfo info).map fun torrent => ⟨torrent, files.flatMap (·.2)⟩

/-- The bytes of a range; behind the content there are zeros. -/
def slice (seed : Seed) (offset length : Nat) : Bytes :=
  let part := (seed.content.drop offset).take length
  part ++ List.replicate (length - part.length) 0

/-- The first position of a request within the content. -/
def position (seed : Seed) (request : BlockRequest) : Nat :=
  request.piece * seed.torrent.pieceLength + request.start

/-- The answer to a request: the true bytes, or one byte all over. -/
def answer (seed : Seed) (fill : Option Nat) (request : BlockRequest) : Message :=
  .piece request.piece request.start (match fill with
    | some byte => List.replicate request.length (UInt8.ofNat byte)
    | none => seed.slice (seed.position request) request.length)

end Seed

end BitTorrent
