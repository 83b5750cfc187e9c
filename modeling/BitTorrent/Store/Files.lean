import BitTorrent.Sha1
import BitTorrent.Store.Disk

/-!
A store that keeps the bytes of a torrent in the files of a directory. A range is split at the ends
of the files; every part is read from or written to one file.
-/

set_option autoImplicit false

namespace BitTorrent

/-- The files of a torrent below a base directory. -/
structure FileStore where
  base : String
  files : List FileEntry
  deriving DecidableEq, Repr

/-- The part of a range that lies in one file. -/
structure Segment where
  path : String
  fileOffset : Nat
  rangeOffset : Nat
  length : Nat
  deriving DecidableEq, Repr

namespace FileStore

/-- The end of the last file. -/
def size (store : FileStore) : Nat :=
  match store.files.getLast? with
  | some file => file.stop
  | none => 0

/-- The path of a file. -/
def path (store : FileStore) (file : FileEntry) : String :=
  Path.push store.base file.path

/-- The part of a range that lies in a file, if there is one. -/
def segment? (store : FileStore) (range : ByteRange) (file : FileEntry) : Option Segment :=
  (range.meet? ⟨file.offset, file.length⟩).map fun shared =>
    ⟨store.path file, shared.offset - file.offset, shared.offset - range.offset, shared.length⟩

/-- The parts of a range that does not end behind the last file. -/
def segments (store : FileStore) (range : ByteRange) : Except StoreFault (List Segment) :=
  if store.size < range.stop then .error (.beyondFiles store.size range)
  else .ok (store.files.filterMap (store.segment? range))

/-- Runs an operation on the disk for every item; the first fault ends it, and what was done stays
done. -/
def forEach {α : Type} (operation : Disk → α → Disk × Except StoreFault Unit) :
    Disk → List α → Disk × Except StoreFault Unit
  | disk, [] => (disk, .ok ())
  | disk, item :: rest =>
    match operation disk item with
    | (disk, .ok ()) => forEach operation disk rest
    | (disk, .error fault) => (disk, .error fault)

/-- Makes the file for an entry, filled with zeros; a file that is there is kept as it is. -/
def createFile (store : FileStore) (disk : Disk) (file : FileEntry) :
    Disk × Except StoreFault Unit :=
  let path := store.path file
  match disk.makeParents path with
  | (disk, .error (parent, cause)) =>
    (disk, .error (.device "Failed to create directory" parent cause))
  | (disk, .ok ()) =>
    if disk.holds path then (disk, .ok ())
    else
      match disk.writeFile path (List.replicate file.length 0) with
      | .ok disk => (disk, .ok ())
      | .error cause => (disk, .error (.device "Failed to create file" path cause))

/-- Makes all files that are not there yet. -/
def create (store : FileStore) (disk : Disk) : Disk × Except StoreFault Unit :=
  forEach store.createFile disk store.files

/-- Writes one part of a range; the file grows as needed. -/
def writeSegment (data : Bytes) (disk : Disk) (segment : Segment) :
    Disk × Except StoreFault Unit :=
  match disk.openToWrite segment.path with
  | .error cause => (disk, .error (.device "Failed to open file for writing" segment.path cause))
  | .ok (names, content) =>
    let part := (data.drop segment.rangeOffset).take segment.length
    (disk.put names (.file (Disk.overwrite content segment.fileOffset part)), .ok ())

/-- Writes data that is as long as its range. -/
def write (store : FileStore) (disk : Disk) (range : ByteRange) (data : Bytes) :
    Disk × Except StoreFault Unit :=
  if data.length ≠ range.length then (disk, .error (.dataLengthGot data.length range))
  else
    match store.segments range with
    | .error fault => (disk, .error fault)
    | .ok segments => forEach (writeSegment data) disk segments

/-- Reads one part of a range; all its bytes must be in the file. -/
def readSegment (disk : Disk) (segment : Segment) : Except StoreFault Bytes :=
  match disk.openToRead segment.path with
  | .error cause => .error (.device "Failed to open file for reading" segment.path cause)
  | .ok none => .error (.device "Failed to read from file" segment.path .isDirectory)
  | .ok (some content) =>
    let part := (content.drop segment.fileOffset).take segment.length
    if part.length = segment.length then .ok part
    else .error (.device "Failed to read from file" segment.path .endedEarly)

/-- Places the parts of a range over a buffer. -/
def fillBuffer (disk : Disk) : Bytes → List Segment → Except StoreFault Bytes
  | buffer, [] => .ok buffer
  | buffer, segment :: rest =>
    match readSegment disk segment with
    | .error fault => .error fault
    | .ok part => fillBuffer disk (Disk.overwrite buffer segment.rangeOffset part) rest

/-- Reads a range. -/
def read (store : FileStore) (disk : Disk) (range : ByteRange) : Except StoreFault Bytes :=
  match store.segments range with
  | .error fault => .error fault
  | .ok segments => fillBuffer disk (List.replicate range.length 0) segments

/-- The digest of the bytes of a range. -/
def checksum (store : FileStore) (disk : Disk) (range : ByteRange) : Except StoreFault Digest :=
  (store.read disk range).map sha1

end FileStore

end BitTorrent
