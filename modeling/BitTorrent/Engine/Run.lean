import BitTorrent.Engine.Establish

/-!
Running a connection. The link sends its outbox message by message and does its duties in between;
a message is written once the meters let it through. Beside it the reader takes messages off the
stream, passes them through the meters and puts them into the inbox while there is room.
-/

set_option autoImplicit false

namespace BitTorrent.Engine

/-- More steps than a task takes before it has to wait. -/
def patience : Nat := 1000000

/-- A running link ends: its stream is let go of, and the torrent takes leave of the connection. -/
def finish (engine : Engine) (number : Nat) (line : Line) (connection : Connection)
    (transfer : Transfer) : Engine :=
  (({ engine with network := engine.network.closeNear line.stream }.setTransfer line.torrent
    (connection.finish transfer)).setStage number (.ended (.ok ()))).setReader number .stopped

/-- A link is stopped by force: its mailbox closes, but its entry and its reader stay. -/
def abandon (engine : Engine) (number : Nat) (line : Line) (connection : Connection) : Engine :=
  ((engine.modifyTransfer line.torrent fun transfer =>
    transfer.withRoster (transfer.download.roster.close connection.mailbox)).setStage number
    (.abandoned line)).wake (.reader number)

/-- Writes a message that the meters let through. -/
def write (engine : Engine) (number : Nat) (line : Line) (connection : Connection)
    (transfer : Transfer) : Engine :=
  match connection.outbox with
  | [] => engine.setStage number (.running line connection none)
  | message :: rest =>
    match engine.network.write line.stream message.encode with
    | .error _ => engine.finish number line connection transfer
    | .ok network =>
      { engine with network := network }.setStage number (.running line
        { connection with outbox := rest, session := connection.session.sent engine.now } none)

/-- Moves the first message of the outbox on through the meters. -/
def send (engine : Engine) (number : Nat) (line : Line) (connection : Connection)
    (transfer : Transfer) (passage : Passage) : Engine :=
  let (transfer, progress) := transfer.pass engine.now passage
  let engine := engine.setTransfer line.torrent transfer
  match progress with
  | .through => engine.write number line connection transfer
  | .waits wait rest =>
    engine.setStage number (.running line connection
      (some ⟨rest, Metering.wake engine.now wait⟩))
  | .refused => engine.abandon number line connection

/-- Lets a blocked reader go on, for there is room again. -/
def unblock (engine : Engine) (number : Nat) (reader : Reader) : Duty → Engine
  | .frame _ =>
    match reader with
    | .blocked _ => engine.wake (.reader number)
    | _ => engine
  | _ => engine

/-- Does a duty; commands that it gave to other links make these ready. -/
def perform (engine : Engine) (number : Nat) (line : Line) (connection : Connection)
    (transfer : Transfer) (reader : Reader) (duty : Duty) : Engine :=
  let done := connection.perform transfer engine.now duty
  let engine := engine.unblock number reader duty
  match done.result with
  | .error _ => engine.finish number line done.connection done.transfer
  | .ok flow =>
    ((engine.setTransfer line.torrent done.transfer).setStage number (.running line
      { done.connection with leaving := flow = .leave } none)).notifyMailboxes line.torrent

/-- The next step of a running link, unless it has to wait. -/
def proceed? (engine : Engine) (number : Nat) : Option Engine :=
  match engine.link? number with
  | some ⟨_, .running line connection sending, reader⟩ =>
    match engine.transfer? line.torrent with
    | none => none
    | some transfer =>
      match sending, connection.outbox with
      | some sending, _ =>
        if sending.resumeAt ≤ engine.now then
          some (engine.send number line connection transfer sending.passage)
        else none
      | none, message :: _ =>
        some (engine.send number line connection transfer
          (transfer.metering.shaper.passage .upload line.meter message.encode.length))
      | none, [] =>
        if connection.leaving then some (engine.finish number line connection transfer)
        else if connection.tickAt.isNone then
          some (engine.setStage number (.running line
            { connection with tickAt := some engine.now } none))
        else
          (connection.duty? transfer.download.roster engine.now).map
            (engine.perform number line connection transfer reader)
  | _ => none

/-- Runs a link until it has to wait. -/
def runLink : Nat → Engine → Nat → Engine
  | 0, engine, _ => engine
  | fuel + 1, engine, number =>
    match engine.proceed? number with
    | none => engine
    | some engine => runLink fuel engine number

/-- Runs a connected link; its reader starts with it. -/
def runConnected (engine : Engine) (number : Nat) : Engine :=
  match engine.link? number with
  | some ⟨_, .running .., .idle⟩ =>
    runLink patience ((engine.setReader number .reading).wake (.reader number)) number
  | some ⟨_, .running .., _⟩ => runLink patience engine number
  | _ => engine

/-- Lets a link run: an attempt goes on, and runs at once when it is connected. -/
def pollLink (engine : Engine) (number : Nat) : Engine :=
  (engine.establish number).runConnected number

/-- A reader has a frame for the inbox. A failing read is the last; without anybody to take it the
stream is let go of. -/
def deliver (engine : Engine) (number : Nat) (frame : Frame) : Engine :=
  match engine.link? number with
  | some ⟨_, .running line connection sending, _⟩ =>
    if connection.inbox.length < Connection.inboxLimit then
      (((engine.setStage number (.running line
        { connection with inbox := connection.inbox ++ [frame] } sending)).setReader number
        (match frame with
          | .ok _ => .reading
          | .error _ => .stopped))).wake (.link number)
    else engine.setReader number (.blocked frame)
  | some ⟨_, .abandoned line, _⟩ =>
    { engine with network := engine.network.closeNear line.stream }.setReader number .stopped
  | _ => engine.setReader number .stopped

/-- Moves a frame that was read on through the meters; a reader that they refuse is done. -/
def receive (engine : Engine) (number : Nat) (line : Line) (passage : Passage) (frame : Frame) :
    Engine :=
  match engine.transfer? line.torrent with
  | none => engine
  | some transfer =>
    let (transfer, progress) := transfer.pass engine.now passage
    let engine := engine.setTransfer line.torrent transfer
    match progress with
    | .through => engine.deliver number frame
    | .waits wait rest =>
      engine.setReader number (.slowed rest (Metering.wake engine.now wait) frame)
    | .refused => engine.deliver number (.error (.fault (.peer (.readerStopped line.address))))

/-- Takes the next frame off the stream, unless it has to grow first. -/
def readFrame? (engine : Engine) (number : Nat) (line : Line) : Option Engine :=
  match Framing.nextMessage? engine.settings.maxFrameLength (engine.network.isFarGone line.stream)
      (engine.network.pending line.stream), engine.transfer? line.torrent with
  | some (.failed cause, rest), _ =>
    some ({ engine with network := engine.network.setPending line.stream rest }.deliver number
      (.error cause))
  | some (.payload length message, rest), some transfer =>
    some ({ engine with network := engine.network.setPending line.stream rest }.receive number line
      (transfer.metering.shaper.passage .download line.meter (Framing.frameLength length))
      (message.mapError fun violation => .fault (.violation violation)))
  | _, _ => none

/-- The next step of a reader on its line, unless it has to wait. -/
def readOn? (engine : Engine) (number : Nat) (line : Line) (room : Bool) :
    Reader → Option Engine
  | .reading => engine.readFrame? number line
  | .slowed passage resumeAt frame =>
    if resumeAt ≤ engine.now then some (engine.receive number line passage frame) else none
  | .blocked frame => if room then some (engine.deliver number frame) else none
  | .idle | .stopped => none

/-- The next step of a reader, unless it has to wait. -/
def readStep? (engine : Engine) (number : Nat) : Option Engine :=
  match engine.link? number with
  | some ⟨_, .running line connection _, reader⟩ =>
    engine.readOn? number line (decide (connection.inbox.length < Connection.inboxLimit)) reader
  | some ⟨_, .abandoned line, reader⟩ => engine.readOn? number line true reader
  | _ => none

/-- Runs a reader until it has to wait. -/
def runReader : Nat → Engine → Nat → Engine
  | 0, engine, _ => engine
  | fuel + 1, engine, number =>
    match engine.readStep? number with
    | none => engine
    | some engine => runReader fuel engine number

/-- Accepts what waits for a listener; a failure makes it pause. -/
def acceptAll (number : Nat) : List Accepted → Engine → Engine
  | [], engine =>
    { engine with network := engine.network.modifyListener number fun listener =>
      { listener with waiting := [], pausedUntil := none } }
  | .failure :: rest, engine =>
    { engine with network := engine.network.modifyListener number fun listener =>
      { listener with
        waiting := rest, pausedUntil := some (engine.now + 100 * Settings.millisecond) } }
  | .stream stream address :: rest, engine =>
    acceptAll number rest (engine.spawn address
      (.hearing stream (engine.now + engine.settings.handshakeTimeout)))

/-- Lets a listener run unless it pauses. -/
def pollListener (engine : Engine) (number : Nat) : Engine :=
  match engine.network.listeners[number]? with
  | none => engine
  | some listener =>
    if listener.pausedUntil.all (· ≤ engine.now) then acceptAll number listener.waiting engine
    else engine

/-- Lets a task run until it has to wait. -/
def poll (engine : Engine) : Task → Engine
  | .listener number => engine.pollListener number
  | .link number => engine.pollLink number
  | .reader number => runReader patience engine number

end BitTorrent.Engine
