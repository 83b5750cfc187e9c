import BitTorrent.Transfer

/-!
The life of one connection after the handshakes. First it greets; then it does one duty after the
other and sends what a duty puts into the outbox before it turns to the next. Commands come before
the open upload, the upload before received frames, and frames before the housekeeping of every
second. A fault ends the connection at once; a duty that asks to leave ends it behind the outbox.
-/

set_option autoImplicit false

namespace BitTorrent

/-- A message that was read, or why reading ended. -/
abbrev Frame := Except Failure Message

/-- One connection. The housekeeping has no time before the greeting is sent. -/
structure Connection where
  session : Session
  mailbox : Nat
  inbox : List Frame
  outbox : List Message
  tickAt : Option Nat
  leaving : Bool

/-- What a connection may have to do. -/
inductive Duty where
  | command (command : Command)
  | upload
  | frame (frame : Frame)
  | tick

/-- What a duty leaves behind. -/
structure Performed where
  transfer : Transfer
  connection : Connection
  result : Except Failure Flow

namespace Connection

/-- The time between two rounds of housekeeping. -/
def tickPeriod : Nat := Settings.second

/-- A round that is late by no more than this does not move those after it. -/
def tickTolerance : Nat := 5 * Settings.millisecond

/-- How many frames may wait. -/
def inboxLimit : Nat := 16

/-- A connection whose handshakes are just exchanged; the greeting is in the outbox. -/
def open_ (transfer : Transfer) (session : Session) (mailbox : Nat) : Connection where
  session := session
  mailbox := mailbox
  inbox := []
  outbox := (transfer.turn session []).greet.outbox
  tickAt := none
  leaving := false

/-- The first duty by rank. -/
def duty? (connection : Connection) (roster : Roster) (now : Nat) : Option Duty :=
  match roster.queued connection.mailbox with
  | command :: _ => some (.command command)
  | [] =>
    if connection.session.upload.isSome then some .upload
    else
      match connection.inbox with
      | frame :: _ => some (.frame frame)
      | [] =>
        match connection.tickAt with
        | some due => if due ≤ now then some .tick else none
        | none => none

/-- The next time of the housekeeping after one round. -/
def nextTick (due now : Nat) : Nat :=
  if due + tickTolerance < now then now + tickPeriod else due + tickPeriod

/-- The turn of a connection. -/
def turn (connection : Connection) (transfer : Transfer) : Turn :=
  transfer.turn connection.session connection.outbox

/-- What a turn leaves behind. -/
def performed (connection : Connection) (transfer : Transfer) (turn : Turn)
    (result : Except Failure Flow) : Performed where
  transfer := { transfer with download := turn.download }
  connection := { connection with session := turn.session, outbox := turn.outbox }
  result := result

/-- What a turn that used the store leaves behind. -/
def settled (connection : Connection) (transfer : Transfer) (outcome : Outcome) : Performed :=
  connection.performed { transfer with store := outcome.store } outcome.turn
    (outcome.result.mapError Failure.fault)

/-- Takes the first command out of the mailbox. -/
def takeCommand (connection : Connection) (transfer : Transfer) : Transfer :=
  let roster := transfer.download.roster
  transfer.withRoster (roster.setQueue connection.mailbox (roster.queued connection.mailbox).tail)

/-- Does a duty. -/
def perform (connection : Connection) (transfer : Transfer) (now : Nat) : Duty → Performed
  | .command .disconnect => ⟨connection.takeCommand transfer, connection, .ok .leave⟩
  | .command (.have_ piece) =>
    let transfer := connection.takeCommand transfer
    let (turn, result) := (connection.turn transfer).onLocalHave piece
    connection.performed transfer turn (result.mapError Failure.fault)
  | .upload => connection.settled transfer ((connection.turn transfer).serveStored transfer.store)
  | .frame (.error cause) =>
    ⟨transfer, { connection with inbox := connection.inbox.tail }, .error cause⟩
  | .frame (.ok message) =>
    let connection := { connection with inbox := connection.inbox.tail }
    connection.settled transfer
      ((connection.turn transfer).receiveStored transfer.store now message).2
  | .tick =>
    let connection := { connection with
      tickAt := connection.tickAt.map fun due => nextTick due now }
    let (turn, flow) := (connection.turn transfer).checkIdle now
    connection.performed transfer turn (.ok flow)

/-- The connection is over: its piece is free, its entry goes, and its mailbox closes. -/
def finish (connection : Connection) (transfer : Transfer) : Transfer :=
  let turn := (connection.turn transfer).onDisconnect
  { transfer with
    download := { turn.download with roster := turn.download.roster.close connection.mailbox } }

end Connection

end BitTorrent
