import BitTorrent.Bencode
import BitTorrent.Metainfo
import BitTorrent.Path
import BitTorrent.Text.Lossy

/-!
Reading the description of a torrent from its file. The info hash is the digest of the canonical
form of the `info` dictionary.
-/

set_option autoImplicit false

namespace BitTorrent.Metainfo

open Bencode (Entries field?)

/-- A byte string under a key. -/
def bytesField (entries : Entries) (key : String) : Except MetainfoFault Bytes :=
  match field? entries key with
  | some (.bytes value) => .ok value
  | _ => .error (.badField key)

/-- An integer under a key. -/
def intField (entries : Entries) (key : String) : Except MetainfoFault Int :=
  match field? entries key with
  | some (.int value) => .ok value
  | _ => .error (.badField key)

/-- A length that is not negative. -/
def lengthOf (value : Int) : Except MetainfoFault Nat :=
  if 0 ≤ value then .ok value.toNat else .error (.negativeLength value)

/-- A piece length is positive and fits 32 bits. -/
def pieceLengthOf (value : Int) : Except MetainfoFault Nat :=
  if 0 < value ∧ value < Word.bound32 then .ok value.toNat else .error (.badPieceLength value)

/-- Joins the components of a path behind a first part. -/
def joinPath (path : String) : List Bencode → Except MetainfoFault String
  | [] => .ok path
  | .bytes part :: rest => joinPath (Path.push path (Text.ofBytesLossy part)) rest
  | _ :: _ => .error .pathNotText

/-- One entry of the file list of a torrent called `name`. -/
def fileOf (name : String) : Bencode → Except MetainfoFault (String × Nat)
  | .dict entries => do
    let length ← lengthOf (← intField entries "length")
    match field? entries "path" with
    | some (.list parts) => return (← joinPath name parts, length)
    | _ => throw .missingPath
  | _ => .error .fileNotDictionary

/-- The files of an `info` dictionary: those listed, or one with the name of the torrent. -/
def filesOf (info : Entries) (name : String) : Except MetainfoFault (List (String × Nat)) :=
  match field? info "files" with
  | some (.list entries) => entries.mapM (fileOf name)
  | _ => do return [(name, ← lengthOf (← intField info "length"))]

/-- Adds the byte strings of a tier that are not listed yet, as text. -/
def addTier (trackers : List String) : Bencode → List String
  | .list urls => urls.foldl (fun known url =>
      match url with
      | .bytes bytes =>
        let text := Text.ofBytesLossy bytes
        if text ∈ known then known else known ++ [text]
      | _ => known) trackers
  | _ => trackers

/-- The trackers of a torrent file, the announced one first and each once. -/
def trackersOf (root : Entries) : List String :=
  let announced := match field? root "announce" with
    | some (.bytes url) => [Text.ofBytesLossy url]
    | _ => []
  match field? root "announce-list" with
  | some (.list tiers) => tiers.foldl addTier announced
  | _ => announced

/-- The parts of an `info` dictionary, before the layout is checked. -/
def ofInfo (root info : Entries) : Except MetainfoFault Metainfo := do
  let name := Text.ofBytesLossy (← bytesField info "name")
  let pieceLength ← pieceLengthOf (← intField info "piece length")
  let hashes ← readHashes (← bytesField info "pieces")
  let files ← filesOf info name
  let described := ofFiles (sha1 (Bencode.encode (.dict info))) name pieceLength hashes files
  return { described with trackers := trackersOf root }

/-- Reads the root of a torrent file. -/
def ofRoot (root : Entries) : Except MetainfoFault Metainfo :=
  match field? root "info" with
  | none => .error .missingInfo
  | some (.dict info) => ofInfo root info
  | some _ => .error .infoNotDictionary

/-- Reads a bencoded torrent file. -/
def ofBencode? (bytes : Bytes) : Except MetainfoFault Metainfo :=
  match Bencode.decode? bytes with
  | none => .error .notBencode
  | some (.dict root) => ofRoot root
  | some _ => .error .rootNotDictionary

/-- Reads a torrent file and checks its layout. Files that end beyond 64 bits are refused. -/
def ofBytes (bytes : Bytes) : Except Failure Metainfo :=
  match ofBencode? bytes with
  | .error fault => .error (.fault (.metainfo fault))
  | .ok info =>
    if info.fitsWords then
      match info.validate with
      | .error fault => .error (.fault (.layout fault))
      | .ok () => .ok info
    else .error .refused

end BitTorrent.Metainfo
