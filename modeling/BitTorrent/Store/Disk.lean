import BitTorrent.Fault
import BitTorrent.Path

/-!
A disk: a tree of directories and files below one root, without links. A path is followed part by
part, so that a missing or unsuitable part on the way is an error of its own.
-/

set_option autoImplicit false

namespace BitTorrent

/-- What a name stands for. -/
inductive DiskEntry where
  | directory
  | file (content : Bytes)
  deriving DecidableEq, Repr

/-- The entries below the root, each with the names that lead to it. -/
structure Disk where
  entries : List (List String × DiskEntry)
  deriving DecidableEq, Repr

/-- Where a path leads: to a directory, or to a name in a directory, which may be free. -/
inductive Location where
  | directory (names : List String)
  | name (names : List String) (content : Option Bytes)
  deriving DecidableEq, Repr

namespace Disk

/-- The root alone. -/
def empty : Disk :=
  ⟨[]⟩

/-- What stands at a list of names; the root is a directory. -/
def find? (disk : Disk) (names : List String) : Option DiskEntry :=
  if names = [] then some .directory
  else (disk.entries.find? (·.1 = names)).map (·.2)

/-- Puts an entry at a list of names. -/
def put (disk : Disk) (names : List String) (entry : DiskEntry) : Disk :=
  if disk.entries.any (·.1 = names) then
    ⟨disk.entries.map fun old => if old.1 = names then (names, entry) else old⟩
  else ⟨disk.entries ++ [(names, entry)]⟩

/-- Takes an entry away. -/
def erase (disk : Disk) (names : List String) : Disk :=
  ⟨disk.entries.filter (·.1 ≠ names)⟩

/-- The longest name in bytes. -/
def maxName : Nat := 255

/-- Follows parts from a directory. -/
def follow (disk : Disk) : List String → List String → Except DeviceError Location
  | here, [] => .ok (.directory here)
  | here, part :: rest =>
    if part = ".." then disk.follow here.dropLast rest
    else if maxName < part.utf8ByteSize then .error .nameTooLong
    else
      let names := here ++ [part]
      match disk.find? names, rest with
      | some .directory, rest => disk.follow names rest
      | some (.file content), [] => .ok (.name names (some content))
      | some (.file _), _ :: _ => .error .notDirectory
      | none, [] => .ok (.name names none)
      | none, _ :: _ => .error .notFound

/-- Where a path leads. -/
def locate (disk : Disk) (path : String) : Except DeviceError Location :=
  if path.toList.contains (Char.ofNat 0) then .error .nulInName
  else if path = "" then .error .notFound
  else
    match disk.follow [] (Path.parts path) with
    | .ok (.name names content) =>
      if Path.endsInPoint path then
        .error (if content.isNone then .notFound else .notDirectory)
      else .ok (.name names content)
    | found => found

/-- Whether a path leads to a directory. -/
def isDirectory (disk : Disk) (path : String) : Bool :=
  match disk.locate path with
  | .ok (.directory _) => true
  | _ => false

/-- Whether a path is known to lead to something. -/
def holds (disk : Disk) (path : String) : Bool :=
  match disk.locate path with
  | .ok (.directory _) => true
  | .ok (.name _ (some _)) => !Path.namesDirectory path
  | _ => false

/-- Opens a file for reading: the content, or nothing if it is a directory that was opened. -/
def openToRead (disk : Disk) (path : String) : Except DeviceError (Option Bytes) :=
  match disk.locate path with
  | .error cause => .error cause
  | .ok (.directory _) => .ok none
  | .ok (.name _ none) => .error .notFound
  | .ok (.name _ (some content)) =>
    if Path.namesDirectory path then .error .notDirectory else .ok (some content)

/-- Opens a file for writing and creates it if its name is free: the names and the content. -/
def openToWrite (disk : Disk) (path : String) : Except DeviceError (List String × Bytes) :=
  match disk.locate path with
  | .error cause => .error cause
  | .ok (.directory _) => .error .isDirectory
  | .ok (.name names content) =>
    if Path.namesDirectory path then .error .isDirectory else .ok (names, content.getD [])

/-- Makes one directory. -/
def makeDirectory (disk : Disk) (path : String) : Except DeviceError Disk :=
  match disk.locate path with
  | .error cause => .error cause
  | .ok (.name names none) => .ok (disk.put names .directory)
  | .ok _ => .error .exists_

/-- Makes one directory, or accepts that it is there. -/
def ensureDirectory (disk : Disk) (path : String) : Except DeviceError Disk :=
  match disk.makeDirectory path with
  | .ok disk => .ok disk
  | .error cause => if disk.isDirectory path then .ok disk else .error cause

/-- An operation that leaves the disk as it is when it fails. -/
def attempt (disk : Disk) : Except DeviceError Disk → Disk × Except DeviceError Unit
  | .ok changed => (changed, .ok ())
  | .error cause => (disk, .error cause)

/-- Makes a directory and those that lead to it; the fuel bounds the length of the way. -/
def makeWay : Nat → Disk → String → Disk × Except DeviceError Unit
  | 0, disk, path => disk.attempt (disk.ensureDirectory path)
  | fuel + 1, disk, path =>
    if path = "" then (disk, .ok ())
    else
      match disk.ensureDirectory path, Path.parent? path with
      | .ok disk, _ => (disk, .ok ())
      | .error .notFound, some parent =>
        match makeWay fuel disk parent with
        | (disk, .error cause) => (disk, .error cause)
        | (disk, .ok ()) => disk.attempt (disk.ensureDirectory path)
      | .error cause, _ => (disk, .error cause)

/-- Makes a directory and those that lead to it; what was made stays when that fails. -/
def makeDirectories (disk : Disk) (path : String) : Disk × Except DeviceError Unit :=
  makeWay (path.length + 1) disk path

/-- Makes the directories that lead to a path. -/
def makeParents (disk : Disk) (path : String) : Disk × Except (String × DeviceError) Unit :=
  match Path.parent? path with
  | none => (disk, .ok ())
  | some parent =>
    let (disk, result) := disk.makeDirectories parent
    (disk, result.mapError (parent, ·))

/-- Data written over a content from a position on; a gap is filled with zeros. -/
def overwrite (content : Bytes) (offset : Nat) (data : Bytes) : Bytes :=
  content.take offset ++ List.replicate (offset - content.length) 0 ++ data ++
    content.drop (offset + data.length)

/-- Replaces the content of a file. -/
def writeFile (disk : Disk) (path : String) (content : Bytes) : Except DeviceError Disk :=
  match disk.openToWrite path with
  | .error cause => .error cause
  | .ok (names, _) => .ok (disk.put names (.file content))

/-- Puts a file at a path, with the directories that lead to it. -/
def placeFile (disk : Disk) (path : String) (content : Bytes) : Disk × Except DeviceError Unit :=
  match disk.makeParents path with
  | (disk, .error (_, cause)) => (disk, .error cause)
  | (disk, .ok ()) => disk.attempt (disk.writeFile path content)

/-- The content of a file. -/
def content (disk : Disk) (path : String) : Except DeviceError Bytes :=
  match disk.openToRead path with
  | .error cause => .error cause
  | .ok none => .error .isDirectory
  | .ok (some content) => .ok content

/-- Takes a file away. -/
def removeFile (disk : Disk) (path : String) : Except DeviceError Disk :=
  match disk.locate path with
  | .error cause => .error cause
  | .ok (.directory _) => .error .isDirectory
  | .ok (.name _ none) => .error .notFound
  | .ok (.name names (some _)) =>
    if Path.namesDirectory path then .error .notDirectory else .ok (disk.erase names)

end Disk

end BitTorrent
