import BitTorrent.Transfer

/-!
The peers of one torrent by name, and what each of them does in its turn, without a network:
messages are handed over, and what a peer would be sent stays in its outbox.
-/

set_option autoImplicit false

namespace BitTorrent

/-- A peer: its session, its mailbox while it holds one, and the messages for it. -/
structure Member where
  session : Session
  mailbox : Option Nat
  outbox : List Message

/-- A torrent and its peers as time passes. -/
structure Crew where
  transfer : Transfer
  members : List (String × Member)
  now : Nat

namespace Crew

def member? (crew : Crew) (name : String) : Option Member :=
  crew.members.lookup name

def download (crew : Crew) : Download :=
  crew.transfer.download

def roster (crew : Crew) : Roster :=
  crew.transfer.download.roster

def withTransfer (crew : Crew) (transfer : Transfer) : Crew :=
  { crew with transfer := transfer }

def withDownload (crew : Crew) (download : Download) : Crew :=
  crew.withTransfer { crew.transfer with download := download }

def withStore (crew : Crew) (store : MemoryStore) : Crew :=
  crew.withTransfer { crew.transfer with store := store }

def withRoster (crew : Crew) (roster : Roster) : Crew :=
  crew.withTransfer (crew.transfer.withRoster roster)

/-- Puts a peer in the place of one of the same name. -/
def set (crew : Crew) (name : String) (member : Member) : Crew :=
  { crew with members := (name, member) :: crew.members.filter (·.1 ≠ name) }

/-- Changes the session of a peer. -/
def withSession (crew : Crew) (name : String) (member : Member) (session : Session) : Crew :=
  crew.set name { member with session := session }

/-- A peer lets go of its mailbox. -/
def closeMailbox (crew : Crew) (member : Member) : Crew :=
  match member.mailbox with
  | none => crew
  | some number => crew.withRoster (crew.roster.close number)

/-- Lets a peer go and keeps its name free. -/
def dismiss (crew : Crew) (name : String) : Crew :=
  match crew.member? name with
  | none => crew
  | some member => crew.closeMailbox member

/-- A session without a connection. -/
def join (crew : Crew) (name : String) (session : Session) : Crew :=
  (crew.dismiss name).set name ⟨session, none, []⟩

/-- A session that is registered as a connection; it stays when that is refused. -/
def attach (crew : Crew) (name : String) (session : Session) (peerId : PeerId)
    (source : PeerSource) : Crew × Except PeerFault Unit :=
  let joined := crew.join name session
  match joined.roster.attach session.address peerId source with
  | .error fault => (joined, .error fault)
  | .ok (roster, number) =>
    ((joined.withRoster roster).set name ⟨session, some number, []⟩, .ok ())

/-- The turn of a peer. -/
def turn (crew : Crew) (member : Member) : Turn :=
  crew.transfer.turn member.session member.outbox

/-- Takes over what a turn leaves behind. -/
def settle (crew : Crew) (name : String) (member : Member) (outcome : Outcome) : Crew :=
  (crew.withTransfer (crew.transfer.after outcome)).set name
    { member with session := outcome.turn.session, outbox := outcome.turn.outbox }

/-- Takes over a turn that did not use the store. -/
def follow (crew : Crew) (name : String) (member : Member) (turn : Turn) : Crew :=
  crew.settle name member ⟨crew.transfer.store, turn, .ok .stay⟩

/-- A peer sends a message: what it means, and how the connection goes on. -/
def receive (crew : Crew) (name : String) (member : Member) (message : Message) :
    Crew × Except Violation (Event × Except Fault Flow) :=
  let (event, outcome) := (crew.turn member).receiveStored crew.transfer.store crew.now message
  (crew.settle name member outcome, event.map fun event => (event, outcome.result))

/-- Serves the open request of a peer. -/
def serve (crew : Crew) (name : String) (member : Member) : Crew × Except Fault Flow :=
  let outcome := (crew.turn member).serveStored crew.transfer.store
  (crew.settle name member outcome, outcome.result)

/-- Takes the commands out of the mailbox of a peer, if it holds one. -/
def takeCommands (crew : Crew) (member : Member) : Crew × Option (List Command) :=
  match member.mailbox with
  | none => (crew, none)
  | some number =>
    (crew.withRoster (crew.roster.setQueue number []), some (crew.roster.queued number))

/-- Follows a command; a command to close only ends the connection later. -/
def obey (state : Turn × List (Command × Option (Except Fault Flow))) (command : Command) :
    Turn × List (Command × Option (Except Fault Flow)) :=
  match command with
  | .disconnect => (state.1, state.2 ++ [(command, none)])
  | .have_ piece =>
    let (turn, result) := state.1.onLocalHave piece
    (turn, state.2 ++ [(command, some result)])

/-- Follows all commands that wait for a peer, and says what came of each. -/
def followCommands (crew : Crew) (name : String) (member : Member) :
    Crew × List (Command × Option (Except Fault Flow)) :=
  let (emptied, commands) := crew.takeCommands member
  let (turn, results) := (commands.getD []).foldl obey (emptied.turn member, [])
  (emptied.follow name member turn, results)

/-- Passes time. -/
def elapse (crew : Crew) (duration : Nat) : Crew :=
  let later := crew.now + duration
  { crew.withTransfer { crew.transfer with metering := crew.transfer.metering.runUntil later } with
    now := later }

/-- Passes bytes through the meter of the torrent, which may take time. -/
def carry (crew : Crew) (direction : Direction) (bytes : Nat) : Crew :=
  let (metering, later, _) :=
    crew.transfer.metering.transfer crew.now direction Transfer.root bytes
  { crew.withTransfer { crew.transfer with metering := metering } with now := later }

end Crew

end BitTorrent
