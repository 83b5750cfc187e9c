import BitTorrent.Engine

/-!
Making a connection. A call is checked against the connection limit, dials, sends its handshake and
waits for the other; an accepted stream is heard first, then routed by its info hash, checked, and
answered. A handshake for another torrent or of this very engine ends the attempt, and so does
silence. A call that fails is forgotten.
-/

set_option autoImplicit false

namespace BitTorrent.Engine

/-- The handshake that this engine sends for a torrent. -/
def greeting (engine : Engine) (transfer : Transfer) : Handshake :=
  ⟨Capabilities.none, transfer.download.torrent.infoHash, engine.ownId⟩

/-- An attempt fails; its stream is let go of. -/
def reject (engine : Engine) (number : Nat) (stream : Option Nat) (cause : Failure) : Engine :=
  let network := match stream with
    | some stream => engine.network.closeNear stream
    | none => engine.network
  { engine with network := network }.setStage number (.ended (.error cause))

/-- A call fails; an address that is not connected is forgotten. -/
def giveUp (engine : Engine) (number torrent : Nat) (address : Address) (stream : Option Nat)
    (cause : Failure) : Engine :=
  (engine.modifyTransfer torrent fun transfer =>
    transfer.withRoster (transfer.download.roster.forget address).1).reject number stream cause

/-- Refuses a handshake for another torrent or of this very engine. -/
def checkHandshake (engine : Engine) (transfer : Transfer) (address : Address)
    (handshake : Handshake) : Except Failure Unit :=
  if handshake.infoHash ≠ transfer.download.torrent.infoHash then
    .error (.fault (.violation (.otherTorrent handshake.infoHash)))
  else if handshake.peerId = engine.ownId then .error (.fault (.peer (.isSelf address)))
  else .ok ()

/-- Both handshakes are exchanged: the connection is registered and runs. -/
def attach (engine : Engine) (number torrent stream : Nat) (address : Address)
    (source : PeerSource) (transfer : Transfer) (handshake : Handshake) :
    Except Failure Engine :=
  match transfer.download.roster.attach address handshake.peerId source with
  | .error fault => .error (.fault (.peer fault))
  | .ok (roster, mailbox) =>
    let settings := engine.settings
    let (shaper, meter) := transfer.metering.shaper.child Transfer.root settings.peerDownloadLimit
      settings.peerUploadLimit engine.now
    let transfer := (transfer.withRoster roster).withShaper shaper
    let session := (transfer.download.newSession address engine.now).connecting.handshakeDone
      engine.now handshake.peerId handshake.capabilities
    .ok ((engine.setTransfer torrent transfer).setStage number
      (.running ⟨address, torrent, stream, meter⟩ (Connection.open_ transfer session mailbox)
        none))

/-- Goes on with a call that has sent its handshake. -/
def hearAnswer (engine : Engine) (number torrent : Nat) (address : Address) (source : PeerSource)
    (stream deadline : Nat) : Engine :=
  match Framing.nextHandshake? (engine.network.isFarGone stream) (engine.network.pending stream),
      engine.transfer? torrent with
  | some (.error cause, _), _ => engine.giveUp number torrent address (some stream) cause
  | some (.ok handshake, rest), some transfer =>
    let engine := { engine with network := engine.network.setPending stream rest }
    match do
      engine.checkHandshake transfer address handshake
      engine.attach number torrent stream address source transfer handshake with
    | .error cause => engine.giveUp number torrent address (some stream) cause
    | .ok engine => engine
  | _, _ =>
    if deadline ≤ engine.now then
      engine.giveUp number torrent address (some stream)
        (.fault (.network (.handshakeTimedOut address)))
    else engine

/-- Begins a call. -/
def call (engine : Engine) (number torrent : Nat) (address : Address) (source : PeerSource) :
    Engine :=
  match engine.transfer? torrent with
  | none => engine
  | some transfer =>
    match transfer.download.checkAdmission address with
    | .error fault => engine.giveUp number torrent address none (.fault (.peer fault))
    | .ok () =>
      match engine.network.dial address with
      | (network, none) =>
        { engine with network := network }.giveUp number torrent address none
          (.fault (.network (.cannotConnect address "refused")))
      | (network, some (stream, displaced)) =>
        let engine := { engine with network := network }
        let engine := match displaced with
          | some displaced => engine.notify displaced
          | none => engine
        match network.write stream (engine.greeting transfer).encode with
        | .error cause => engine.giveUp number torrent address (some stream) (.stream cause)
        | .ok network =>
          let deadline := engine.now + engine.settings.handshakeTimeout
          ({ engine with network := network }.setStage number
            (.greeting torrent source stream deadline)).hearAnswer number torrent address source
            stream deadline

/-- Answers a handshake that was heard on an accepted stream. -/
def answer (engine : Engine) (number stream : Nat) (address : Address) (handshake : Handshake) :
    Except Failure Engine :=
  match (engine.find? handshake.infoHash).bind fun torrent =>
      (engine.transfer? torrent).map fun transfer => (torrent, transfer) with
  | none => .error (.fault (.violation (.unknownTorrent handshake.infoHash)))
  | some (torrent, transfer) => do
    (transfer.download.checkAdmission address).mapError fun fault => .fault (.peer fault)
    engine.checkHandshake transfer address handshake
    let network ← (engine.network.write stream (engine.greeting transfer).encode).mapError .stream
    { engine with network := network }.attach number torrent stream address .incoming transfer
      handshake

/-- Goes on with an accepted stream. -/
def hearCaller (engine : Engine) (number : Nat) (address : Address) (stream deadline : Nat) :
    Engine :=
  let gone := engine.network.isFarGone stream
  match Framing.nextHandshake? gone (engine.network.pending stream) with
  | some (.error cause, _) => engine.reject number (some stream) cause
  | some (.ok handshake, rest) =>
    let engine := { engine with network := engine.network.setPending stream rest }
    match engine.answer number stream address handshake with
    | .error cause => engine.reject number (some stream) cause
    | .ok engine => engine
  | none =>
    if deadline ≤ engine.now then
      engine.reject number (some stream) (.fault (.network (.handshakeTimedOut address)))
    else engine

/-- Goes on with a link that is not connected yet. -/
def establish (engine : Engine) (number : Nat) : Engine :=
  match engine.link? number with
  | some ⟨address, .calling torrent source, _⟩ => engine.call number torrent address source
  | some ⟨address, .greeting torrent source stream deadline, _⟩ =>
    engine.hearAnswer number torrent address source stream deadline
  | some ⟨address, .hearing stream deadline, _⟩ => engine.hearCaller number address stream deadline
  | _ => engine

end BitTorrent.Engine
