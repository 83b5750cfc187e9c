import BitTorrent.Connection
import BitTorrent.Network

/-!
The state of the engine: its torrents, the network, and a link for every connection from the first
step of its making to its end. Links, the readers of their streams and the listeners are tasks. A
task runs until it has to wait; what it waits for makes it ready again, and ready tasks run in the
order in which they became so.
-/

set_option autoImplicit false

namespace BitTorrent

/-- Where the bytes of a connection go: to whom, and its torrent, its stream, and its meter. -/
structure Line where
  address : Address
  torrent : Nat
  stream : Nat
  meter : Nat
  deriving Repr

/-- The first message of the outbox on its way through the meters. -/
structure Sending where
  passage : Passage
  resumeAt : Nat
  deriving Repr

/-- How far a link has come. A call has not dialled yet; a greeting link has sent its handshake and
waits for the other; a hearing link was accepted and waits for a handshake; an abandoned link was
stopped by force, so that only its reader is left. -/
inductive Stage where
  | calling (torrent : Nat) (source : PeerSource)
  | greeting (torrent : Nat) (source : PeerSource) (stream deadline : Nat)
  | hearing (stream deadline : Nat)
  | running (line : Line) (connection : Connection) (sending : Option Sending)
  | abandoned (line : Line)
  | ended (result : Except Failure Unit)

/-- What the reader of a stream is at. A slowed reader waits for the meters, a blocked one for room
in the inbox. -/
inductive Reader where
  | idle
  | reading
  | slowed (passage : Passage) (resumeAt : Nat) (frame : Frame)
  | blocked (frame : Frame)
  | stopped

/-- A connection from the first step of its making to its end. -/
structure Link where
  address : Address
  stage : Stage
  reader : Reader

/-- What runs on its own. -/
inductive Task where
  | listener (number : Nat)
  | link (number : Nat)
  | reader (number : Nat)
  deriving DecidableEq, Repr

/-- The engine. The registry names the torrents that it manages; a torrent that is no longer managed
stays for the links that still work on it. -/
structure Engine where
  settings : Settings
  ownId : PeerId
  now : Nat
  transfers : List Transfer
  registry : List (Digest × Nat)
  network : Network
  links : List Link
  ready : List Task

namespace Stage

/-- The task that waits for the bytes of a stream. -/
def awaits (stage : Stage) (stream number : Nat) : Option Task :=
  match stage with
  | greeting _ _ own _ | hearing own _ => if own = stream then some (.link number) else none
  | running line _ _ | abandoned line =>
    if line.stream = stream then some (.reader number) else none
  | calling .. | ended _ => none

/-- When the link itself has to run again if nothing happens before. -/
def due? : Stage → Option Nat
  | greeting _ _ _ deadline | hearing _ deadline => some deadline
  | running _ _ (some sending) => some sending.resumeAt
  | running _ connection none => connection.tickAt
  | calling .. | abandoned _ | ended _ => none

end Stage

/-- When a reader has to run again if nothing happens before. -/
def Reader.due? : Reader → Option Nat
  | slowed _ resumeAt _ => some resumeAt
  | _ => none

namespace Engine

/-- The address on which torrents are offered. -/
def loopback (port : UInt16) : Address :=
  ⟨.v4 127 0 0 1, port, 0⟩

/-- An engine that manages nothing, if its settings can be used. -/
def new (settings : Settings) (ownId : PeerId) : Except SettingsFault Engine :=
  match settings.validate with
  | .error fault => .error fault
  | .ok () => .ok ⟨settings, ownId, 0, [], [], Network.empty, [], []⟩

/-- Makes a task ready. -/
def wake (engine : Engine) (task : Task) : Engine :=
  if task ∈ engine.ready then engine else { engine with ready := engine.ready ++ [task] }

/-- The number of a managed torrent. -/
def find? (engine : Engine) (hash : Digest) : Option Nat :=
  engine.registry.lookup hash

def transfer? (engine : Engine) (torrent : Nat) : Option Transfer :=
  engine.transfers[torrent]?

def setTransfer (engine : Engine) (torrent : Nat) (transfer : Transfer) : Engine :=
  { engine with transfers := engine.transfers.set torrent transfer }

def modifyTransfer (engine : Engine) (torrent : Nat) (change : Transfer → Transfer) : Engine :=
  { engine with transfers := engine.transfers.modify torrent change }

def link? (engine : Engine) (number : Nat) : Option Link :=
  engine.links[number]?

def setStage (engine : Engine) (number : Nat) (stage : Stage) : Engine :=
  { engine with links := engine.links.modify number fun link => { link with stage := stage } }

def setReader (engine : Engine) (number : Nat) (reader : Reader) : Engine :=
  { engine with links := engine.links.modify number fun link => { link with reader := reader } }

/-- Adds a link and makes it ready. -/
def spawn (engine : Engine) (address : Address) (stage : Stage) : Engine :=
  let link : Link := ⟨address, stage, .idle⟩
  { engine with links := engine.links ++ [link] }.wake (.link engine.links.length)

/-- Makes the task ready that waits for the bytes of a stream. -/
def notify (engine : Engine) (stream : Nat) : Engine :=
  (engine.links.zipIdx.filterMap fun (link, number) => link.stage.awaits stream number).foldl wake
    engine

/-- Whether commands wait for a link of a torrent. -/
def hasCommands (roster : Roster) (torrent : Nat) : Stage → Bool
  | .running line connection _ =>
    line.torrent = torrent && !(roster.queued connection.mailbox).isEmpty
  | _ => false

/-- Makes the links of a torrent ready for which commands wait. -/
def notifyMailboxes (engine : Engine) (torrent : Nat) : Engine :=
  match engine.transfer? torrent with
  | none => engine
  | some transfer =>
    (engine.links.zipIdx.filterMap fun (link, number) =>
      if hasCommands transfer.download.roster torrent link.stage then some (Task.link number)
      else none).foldl wake engine

end Engine

end BitTorrent
