import BitTorrent.Bitfield
import BitTorrent.Fault

/-!
The peers of a torrent that are being dialled or are connected. A connected peer has a mailbox, to
which the rest of the torrent posts commands; a mailbox whose owner has left takes none.
-/

set_option autoImplicit false

namespace BitTorrent

/-- How a peer became known. -/
inductive PeerSource where
  | tracker
  | manual
  | incoming
  deriving DecidableEq, Repr

/-- What a connection is told from outside. -/
inductive Command where
  | have_ (piece : Nat)
  | disconnect
  deriving DecidableEq, Repr

/-- What is known of one peer; `mailbox` is the number of its mailbox while it is connected. -/
structure PeerEntry where
  address : Address
  peerId : Option PeerId
  source : PeerSource
  bitfield : Option Bitfield
  mailbox : Option Nat
  deriving DecidableEq, Repr

def PeerEntry.isConnected (entry : PeerEntry) : Bool :=
  entry.mailbox.isSome

/-- Commands that wait for their owner, and whether there is one. -/
structure Mailbox where
  queue : List Command
  isOpen : Bool
  deriving DecidableEq, Repr

/-- The peers of a torrent in the order in which they became known, and all mailboxes so far. -/
structure Roster where
  entries : List PeerEntry
  mailboxes : List Mailbox
  deriving DecidableEq, Repr

/-- How many peers a command reached. -/
structure Delivery where
  delivered : Nat
  failed : Nat
  deriving DecidableEq, Repr

namespace Roster

def empty : Roster :=
  ⟨[], []⟩

def find? (roster : Roster) (address : Address) : Option PeerEntry :=
  roster.entries.find? (·.address = address)

def findId? (roster : Roster) (peerId : PeerId) : Option PeerEntry :=
  roster.entries.find? (·.peerId = some peerId)

def size (roster : Roster) : Nat :=
  roster.entries.length

/-- Changes the entry of an address. -/
def modify (roster : Roster) (address : Address) (change : PeerEntry → PeerEntry) : Roster :=
  { roster with
    entries := roster.entries.map fun entry =>
      if entry.address = address then change entry else entry }

/-- Adds a peer. A known address keeps its entry and at most learns its name. -/
def add (roster : Roster) (address : Address) (peerId : Option PeerId) (source : PeerSource) :
    Roster × Bool :=
  match roster.find? address with
  | some _ =>
    (roster.modify address fun entry => { entry with peerId := entry.peerId <|> peerId }, false)
  | none =>
    ({ roster with entries := roster.entries ++ [⟨address, peerId, source, none, none⟩] }, true)

def remove (roster : Roster) (address : Address) : Roster :=
  { roster with entries := roster.entries.filter (·.address ≠ address) }

def isConnected (roster : Roster) (address : Address) : Bool :=
  match roster.find? address with
  | some entry => entry.isConnected
  | none => false

/-- The connected peers. -/
def connected (roster : Roster) : List PeerEntry :=
  roster.entries.filter (·.isConnected)

def connectedCount (roster : Roster) : Nat :=
  roster.entries.countP (·.isConnected)

/-- Registers a connection and gives the number of its new mailbox. -/
def attach (roster : Roster) (address : Address) (peerId : PeerId) (source : PeerSource) :
    Except PeerFault (Roster × Nat) :=
  if roster.isConnected address then .error (.alreadyConnected address)
  else
    let number := roster.mailboxes.length
    let (known, _) := roster.add address (some peerId) source
    let attached := known.modify address fun entry =>
      { entry with peerId := some peerId, mailbox := some number, bitfield := none }
    .ok ({ attached with mailboxes := roster.mailboxes ++ [⟨[], true⟩] }, number)

/-- Drops a peer that is not connected; says whether there was one. -/
def forget (roster : Roster) (address : Address) : Roster × Bool :=
  match roster.find? address with
  | some entry => if entry.isConnected then (roster, false) else (roster.remove address, true)
  | none => (roster, false)

/-- Publishes the pieces that a peer has. -/
def updateBitfield (roster : Roster) (address : Address) (field : Bitfield) : Roster :=
  roster.modify address fun entry => { entry with bitfield := some field }

/-- The published pieces of the connected peers. -/
def bitfields (roster : Roster) : List Bitfield :=
  roster.connected.filterMap (·.bitfield)

/-- Whether a mailbox takes commands. -/
def takes (roster : Roster) (number : Nat) : Bool :=
  match roster.mailboxes[number]? with
  | some mailbox => mailbox.isOpen
  | none => false

/-- Puts a command into a mailbox that is open. -/
def post (roster : Roster) (number : Nat) (command : Command) : Roster :=
  { roster with
    mailboxes := roster.mailboxes.modify number fun mailbox =>
      if mailbox.isOpen then { mailbox with queue := mailbox.queue ++ [command] } else mailbox }

/-- Sends a command to one peer. -/
def send (roster : Roster) (entry : PeerEntry) (command : Command) : Except PeerFault Roster :=
  match entry.mailbox with
  | none => .error (.notConnected entry.address)
  | some number =>
    if roster.takes number then .ok (roster.post number command)
    else .error (.unitExited entry.address)

/-- Sends a command to one of several peers and counts the outcome. -/
def deliver (command : Command) (state : Roster × Delivery) (entry : PeerEntry) :
    Roster × Delivery :=
  match state.1.send entry command with
  | .ok roster => (roster, { state.2 with delivered := state.2.delivered + 1 })
  | .error _ => (state.1, { state.2 with failed := state.2.failed + 1 })

/-- Sends a command to every connected peer. -/
def broadcast (roster : Roster) (command : Command) : Roster × Delivery :=
  roster.connected.foldl (deliver command) (roster, ⟨0, 0⟩)

/-- Asks every connected peer to close. -/
def disconnectAll (roster : Roster) : Roster × Delivery :=
  roster.broadcast .disconnect

/-- The commands that wait in a mailbox. -/
def queued (roster : Roster) (number : Nat) : List Command :=
  match roster.mailboxes[number]? with
  | some mailbox => mailbox.queue
  | none => []

/-- Replaces the commands that wait in a mailbox. -/
def setQueue (roster : Roster) (number : Nat) (queue : List Command) : Roster :=
  { roster with
    mailboxes := roster.mailboxes.modify number fun mailbox => { mailbox with queue := queue } }

/-- The owner of a mailbox leaves; what waits there is lost. -/
def close (roster : Roster) (number : Nat) : Roster :=
  { roster with mailboxes := roster.mailboxes.modify number fun _ => ⟨[], false⟩ }

end Roster

end BitTorrent
