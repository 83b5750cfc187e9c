import BitTorrent.Download

/-!
How a connection reacts to what happens: to events of its session, to pieces completed elsewhere,
to the passing of time, and to its own end. Each reaction is a turn of one connection: it works on
the shared state and the session and puts messages into the connection's outbox. A turn that has to
wait for the store says what it waits for and is resumed with the outcome.
-/

set_option autoImplicit false

namespace BitTorrent

/-- Whether a connection goes on. -/
inductive Flow where
  | stay
  | leave
  deriving DecidableEq, Repr

/-- What a connection works on. -/
structure Turn where
  download : Download
  session : Session
  outbox : List Message
  deriving Repr

/-- What a turn waits for: bytes to be stored, read back, or hashed. -/
inductive Awaiting where
  | write (request : BlockRequest) (range : ByteRange) (data : Bytes)
  | checksum (piece : Piece)
  | read (request : BlockRequest) (range : ByteRange)
  deriving Repr

/-- A turn is over, or waits. -/
inductive Next where
  | done (result : Except Fault Flow)
  | wait (on : Awaiting)

namespace Turn

/-- The largest block that a peer may ask for. -/
def maxRequest : Nat := 128 * 1024

/-- Puts a message into the outbox. -/
def say (turn : Turn) (message : Message) : Turn :=
  { turn with outbox := turn.outbox ++ [message] }

/-- Takes over a session and a message if there is one. -/
def follow (turn : Turn) : Session × Option Message → Turn
  | (session, some message) => { turn with session := session }.say message
  | (session, none) => { turn with session := session }

/-- Ends the turn without a fault. -/
def stay (turn : Turn) : Turn × Except Fault Flow :=
  (turn, .ok .stay)

/-- Releases the piece that is fetched from the peer, if there is one. -/
def unassign (turn : Turn) : Turn :=
  match turn.session.assigned with
  | none => turn
  | some piece =>
    { turn with
      download := turn.download.release piece turn.session.address
      session := turn.session.assign none }

/-- The sets of the swarm, where the policy consults them. -/
def consulted (download : Download) : List Bitfield :=
  match download.selector.policy with
  | .rarestFirst => download.roster.bitfields
  | _ => []

/-- Chooses a piece for the peer and assigns it. Banned peers get none, and pieces in `exhausted`
count as complete. -/
def assignPiece (turn : Turn) (exhausted : List Nat) : Turn × Option Nat :=
  let download := turn.download
  if download.isBanned turn.session.address.ip then (turn, none)
  else
    let completed := exhausted.foldl Bitfield.insert download.holdings.completed
    match download.selector.select (download.draws.headD 0) turn.session.bitfield completed
        (download.assignments.map (·.1)) (consulted download) with
    | none => (turn, none)
    | some piece =>
      ({ turn with
          download := { download.assign piece turn.session.address with
            draws := download.draws.tail }
          session := turn.session.assign (some piece) }, some piece)

/-- The piece to request from next: the assigned one while it is of use, else a new one. -/
def currentPiece (turn : Turn) (exhausted : List Nat) : Turn × Option Nat :=
  match turn.session.assigned with
  | some piece =>
    if !turn.download.holdings.has piece && !exhausted.contains piece then (turn, some piece)
    else turn.unassign.assignPiece exhausted
  | none => turn.assignPiece exhausted

/-- Withdraws interest if no request is open and no piece was found without missing blocks. -/
def giveUp (turn : Turn) (exhausted : List Nat) : Turn :=
  if turn.session.downloads.isEmpty && exhausted.isEmpty then
    turn.follow turn.session.withdrawInterest
  else turn

/-- Opens requests while the session allows it. A piece without a block to ask for is exhausted
and replaced by another, unless blocks of it are still on their way. -/
def fill : Nat → Turn → List Nat → Turn × Except Fault Flow
  | 0, turn, _ => turn.stay
  | fuel + 1, turn, exhausted =>
    if turn.session.canRequest then
      match turn.currentPiece exhausted with
      | (turn, none) => (turn.giveUp exhausted).stay
      | (turn, some index) =>
        match turn.download.torrent.piece? index with
        | none => turn.stay
        | some piece =>
          match piece.nextMissing? (turn.download.holdings.blocks index)
              fun block => turn.session.isRequested index block.offset with
          | some block =>
            match turn.session.request ⟨index, block.offset, block.length⟩ with
            | .error fault => (turn, .error (.peer fault))
            | .ok (session, message) =>
              fill fuel ({ turn with session := session }.say message) exhausted
          | none =>
            if turn.session.downloads.any (·.piece = index) then turn.stay
            else fill fuel turn (index :: exhausted)
    else turn.stay

/-- Keeps the requests of an unchoked session going. Every round opens a request or exhausts a
piece, which bounds their number. -/
def fillPipeline (turn : Turn) : Turn × Except Fault Flow :=
  fill (turn.session.depth - turn.session.downloads.length + turn.download.torrent.pieceCount + 1)
    turn []

/-- Whether neither side can give the other anything. -/
def isRedundant (turn : Turn) : Bool :=
  turn.session.bitfield.isFull && turn.download.holdings.isComplete

/-- Both handshakes are exchanged: the pieces that are complete are announced. -/
def greet (turn : Turn) : Turn :=
  turn.say (.bitfield turn.download.holdings.completed.toBytes)

/-- The peer has other pieces than before. -/
def onAvailability (turn : Turn) : Turn × Except Fault Flow :=
  let address := turn.session.address
  let turn := { turn with
    download := { turn.download with
      roster := turn.download.roster.updateBitfield address turn.session.bitfield } }
  if turn.isRedundant then (turn, .ok .leave)
  else if turn.session.bitfield.hasMissingFrom turn.download.holdings.completed &&
      !turn.download.isBanned address.ip then
    let turn := turn.follow turn.session.showInterest
    if turn.session.peerChoking then turn.stay else turn.fillPipeline
  else turn.stay

/-- The peer choked us. -/
def onChoked (turn : Turn) : Turn × Except Fault Flow :=
  let turn := turn.unassign
  (turn, .ok (if turn.isRedundant then .leave else .stay))

/-- Refuses requests that can never be served. -/
def checkRequest (download : Download) (request : BlockRequest) : Except Violation Unit :=
  if request.length = 0 ∨ maxRequest < request.length then
    .error (.badRequest "bad length" request)
  else
    match download.torrent.piece? request.piece with
    | none => .error (.badRequest "piece out of range" request)
    | some piece =>
      if !download.holdings.has request.piece then
        .error (.badRequest "piece not available" request)
      else if (piece.subRange? request.start request.length).isNone then
        .error (.badRequest "range outside piece" request)
      else .ok ()

/-- A block that was asked for has come: it is stored unless its piece is complete. -/
def onBlock (turn : Turn) (request : BlockRequest) (data : Bytes) : Turn × Next :=
  match turn.download.torrent.piece? request.piece with
  | none => (turn, .done (.error (.violation (.unknownPiece request))))
  | some piece =>
    if turn.download.holdings.has request.piece then
      let (turn, result) := turn.fillPipeline
      (turn, .done result)
    else
      match piece.subRange? request.start request.length with
      | none => (turn, .done (.error (.violation (.outsidePiece request))))
      | some range => (turn, .wait (.write request range data))

/-- Ends the turn with a fault and keeps the fault if it concerns the torrent. -/
def fail (turn : Turn) (fault : Fault) : Turn × Except Fault Flow :=
  ({ turn with download := turn.download.record fault }, .error fault)

/-- Changes the marks of the blocks. -/
def withHoldings (turn : Turn) (holdings : Holdings) : Turn :=
  { turn with download := { turn.download with holdings := holdings } }

/-- The block is stored, or could not be. The last missing block of a piece has the piece hashed. -/
def afterWrite (turn : Turn) (request : BlockRequest) : Except Fault Unit → Turn × Next
  | .error fault =>
    let (turn, result) := turn.fail fault
    (turn, .done result)
  | .ok () =>
    match turn.download.torrent.piece? request.piece with
    | none => (turn, .done (.error (.violation (.unknownPiece request))))
    | some piece =>
      let turn := match piece.blockAt? request.start with
        | some block =>
          turn.withHoldings (turn.download.holdings.mark request.piece block true)
        | none => turn
      if turn.download.holdings.allFetched request.piece then
        ({ turn with
            download := turn.download.releaseAll request.piece
            session := turn.session.assign none }, .wait (.checksum piece))
      else
        let (turn, result) := turn.fillPipeline
        (turn, .done result)

/-- The piece is verified: it is complete, and the other connections are told once. -/
def verified (turn : Turn) (piece : Piece) : Turn :=
  let (download, fresh) := turn.download.complete piece.index
  { turn with download := if fresh then download.announce piece.index else download }

/-- The piece is corrupt: its blocks are missing again, and the sender of the last one is banned
unless the policy says otherwise. -/
def corrupt (turn : Turn) (piece : Piece) : Turn :=
  let turn := turn.withHoldings (turn.download.holdings.markAll piece.index false)
  match turn.download.settings.corruptionPolicy with
  | .ban => { turn with download := turn.download.ban turn.session.address.ip }
  | .retry => turn

/-- The digest of the piece is known, or its bytes could not be read. -/
def afterChecksum (turn : Turn) (piece : Piece) : Except Fault Digest → Turn × Except Fault Flow
  | .error fault =>
    (turn.withHoldings (turn.download.holdings.markAll piece.index false)).fail fault
  | .ok digest =>
    if digest = piece.hash then (turn.verified piece).fillPipeline
    else (turn.corrupt piece).fillPipeline

/-- Serves the open request of the peer. -/
def serve (turn : Turn) : Turn × Next :=
  match turn.session.takeUpload with
  | (_, none) => (turn, .done (.ok .stay))
  | (session, some request) =>
    let turn := { turn with session := session }
    if session.amChoking then (turn, .done (.ok .stay))
    else
      match (turn.download.torrent.piece? request.piece).bind
          fun piece => piece.subRange? request.start request.length with
      | none => (turn, .done (.error (.violation (.unservable request))))
      | some range => (turn, .wait (.read request range))

/-- The bytes that the peer asked for are there, or could not be read. -/
def afterRead (turn : Turn) (request : BlockRequest) : Except Fault Bytes → Turn × Except Fault Flow
  | .error fault => turn.fail fault
  | .ok data => (turn.say (.piece request.piece request.start data)).stay

/-- A turn that is over. -/
def ended : Turn × Except Fault Flow → Turn × Next
  | (turn, result) => (turn, .done result)

/-- Reacts to an event of the session. -/
def handle (turn : Turn) : Event → Turn × Next
  | .keepAlive | .ignored | .port _ | .cancel _ => ended turn.stay
  | .bitfield | .have_ _ => ended turn.onAvailability
  | .unchoked => ended turn.fillPipeline
  | .choked _ => ended turn.onChoked
  | .interested => ended (turn.follow turn.session.unchoke).stay
  | .notInterested => ended (turn.follow turn.session.choke).stay
  | .request request =>
    match checkRequest turn.download request with
    | .error violation => (turn, .done (.error (.violation violation)))
    | .ok () => ended turn.stay
  | .block request data => turn.onBlock request data

/-- Withdraws the open requests for a piece and tells the peer that the piece is there. -/
def cancelRequests (turn : Turn) (piece : Nat) : Turn :=
  let withdrawn := turn.session.downloads.filter (·.piece = piece)
  let dropped : Turn := { turn with
    session := turn.session.dropRequests piece
    outbox := turn.outbox ++ withdrawn.map Message.cancel }
  (if dropped.session.assigned = some piece then dropped.unassign else dropped).say (.have_ piece)

/-- Withdraws interest if no request is open and the peer has nothing of use. -/
def loseInterest (turn : Turn) : Turn :=
  if turn.session.downloads.isEmpty &&
      !turn.session.bitfield.hasMissingFrom turn.download.holdings.completed then
    turn.follow turn.session.withdrawInterest
  else turn

/-- A piece was completed, perhaps by another connection. -/
def onLocalHave (turn : Turn) (piece : Nat) : Turn × Except Fault Flow :=
  let turn := turn.cancelRequests piece
  if turn.isRedundant then (turn, .ok .leave)
  else if turn.session.peerChoking then turn.loseInterest.stay
  else
    match turn.fillPipeline with
    | (turn, .error fault) => (turn, .error fault)
    | (turn, .ok _) => turn.loseInterest.stay

/-- A silent peer is left; a peer that we were silent to gets a sign of life. -/
def checkIdle (turn : Turn) (now : Nat) : Turn × Flow :=
  let settings := turn.download.settings
  let tooLong := match settings.idleTimeout with
    | some limit => decide (limit ≤ now - turn.session.lastReceived)
    | none => false
  if tooLong then (turn, .leave)
  else if settings.keepaliveInterval ≤ now - turn.session.lastSent && turn.outbox.isEmpty then
    (turn.say .keepAlive, .stay)
  else (turn, .stay)

/-- The connection ends: its piece is free again and its entry goes. -/
def onDisconnect (turn : Turn) : Turn :=
  let address := turn.session.address
  let turn := turn.unassign
  { turn with
    download := { turn.download with roster := turn.download.roster.remove address }
    session := turn.session.reset }

end Turn

end BitTorrent
