import BitTorrent.Overview

/-!
The command line: prepares the files of a torrent below a directory and says how much of it they
hold.
-/

set_option autoImplicit false

namespace BitTorrent.Program

/-- The content of a file, if it can be read. -/
def readContent? (path : String) : IO (Option Bytes) := do
  match ← (IO.FS.readBinFile path).toBaseIO with
  | .ok content => return some content.toList
  | .error _ => return none

/-- The files of a store that are there. -/
def loadDisk (store : FileStore) : IO Disk :=
  store.files.foldlM (fun disk file => do
    match ← readContent? (store.path file) with
    | some content => return (disk.placeFile (store.path file) content).1
    | none => return disk) Disk.empty

/-- Writes a file that was not there before, with the directories that lead to it. -/
def saveFile (before after : Disk) (path : String) : IO Unit := do
  if before.holds path then return
  match after.content path with
  | .error _ => return
  | .ok content =>
    if let some parent := Path.parent? path then IO.FS.createDirAll parent
    IO.FS.writeBinFile path ⟨content.toArray⟩

/-- Reports a fault. -/
def complain (report : Report) : IO UInt32 := do
  IO.eprintln report.text
  return 1

/-- Prepares the files of a described torrent and prints what they hold. -/
def prepare (arguments : Arguments) (info : Metainfo) : IO UInt32 := do
  if arguments.logLevel ≠ .error then
    (info.overview arguments.verbose).forM fun line => IO.println line
  match Torrent.ofMetainfo info with
  | .error fault => complain fault.report
  | .ok torrent =>
    let store : FileStore := ⟨arguments.outputDir, info.files⟩
    let before ← loadDisk store
    match store.create before with
    | (_, .error fault) => complain fault.report
    | (after, .ok ()) =>
      store.files.forM fun file => saveFile before after (store.path file)
      if arguments.logLevel ≠ .error then
        IO.println ((store.holdings after torrent).statistics torrent).summary
      return 0

/-- Reads the torrent file that the arguments name. -/
def run (arguments : Arguments) : IO UInt32 := do
  let config ← match arguments.config with
    | some path => readContent? path
    | none => pure none
  match arguments.settings fun _ => config with
  | .error fault => complain fault.report
  | .ok _ =>
    match ← readContent? arguments.torrentFile with
    | none => complain (MetainfoFault.unreadable arguments.torrentFile .notFound).report
    | some content =>
      match Metainfo.ofBytes content with
      | .error (.fault fault) => complain fault.report
      | .error _ =>
        IO.eprintln "The files of the torrent are too long."
        return 1
      | .ok info => prepare arguments info

end BitTorrent.Program

/-- Runs the command line. -/
def main (arguments : List String) : IO UInt32 := do
  match BitTorrent.Arguments.ofList arguments with
  | .ok arguments => BitTorrent.Program.run arguments
  | .error .helpWanted =>
    IO.println BitTorrent.Arguments.usage
    return 0
  | .error _ =>
    IO.eprintln BitTorrent.Arguments.usage
    return 2
