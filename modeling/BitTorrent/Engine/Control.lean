import BitTorrent.Engine.Clock

/-!
What the engine is asked to do: to manage torrents, to listen, to connect, to take candidates, and
to stop.
-/

set_option autoImplicit false

namespace BitTorrent.Engine

/-- Manages a torrent and gives its number; its speeds are sampled from now on. -/
def register (engine : Engine) (torrent : Torrent) (store : MemoryStore) :
    Except RegistryFault (Engine × Nat) :=
  match engine.find? torrent.infoHash with
  | some _ => .error (.alreadyRegistered torrent.infoHash)
  | none =>
    let number := engine.transfers.length
    let fresh := Transfer.new torrent store engine.settings engine.ownId engine.now
    let transfer := fresh.startSampler engine.now
    .ok ({ engine with
      transfers := engine.transfers ++ [transfer]
      registry := engine.registry ++ [(torrent.infoHash, number)] }, number)

/-- Asks the connections of a torrent to close. -/
def shutdown (engine : Engine) (torrent : Nat) : Engine :=
  (engine.modifyTransfer torrent Transfer.shutdown).notifyMailboxes torrent

/-- Manages a torrent no longer; says whether it did. -/
def remove (engine : Engine) (hash : Digest) : Engine × Bool :=
  match engine.find? hash with
  | none => (engine, false)
  | some number =>
    ({ engine with registry := engine.registry.filter (·.1 ≠ hash) }.shutdown number, true)

/-- The port that a listener gets if it asks for none. -/
def ephemeralPort : UInt16 := 50000

/-- Listens on a port, zero for any. -/
def listen (engine : Engine) (port : UInt16) : Engine × Address :=
  let address := loopback (if port = 0 then ephemeralPort else port)
  ({ engine with network := engine.network.listen address }, address)

/-- The address of the last listener. -/
def localAddress (engine : Engine) : Option Address :=
  engine.network.listeners.getLast?.map (·.address)

/-- Whether a link has no attempt to make any more. -/
def isSettled (number : Nat) (engine : Engine) : Bool :=
  match engine.link? number with
  | some ⟨_, .calling .., _⟩ | some ⟨_, .greeting .., _⟩ | some ⟨_, .hearing .., _⟩ => false
  | _ => true

/-- The number of a torrent that has to be managed. -/
def require (engine : Engine) (hash : Digest) : Except Fault Nat :=
  match engine.find? hash with
  | some number => .ok number
  | none => .error (.registry (.unknownTorrent hash))

/-- What became of an attempt. -/
def attemptResult (engine : Engine) (number : Nat) : Except Failure Unit :=
  match engine.link? number with
  | some ⟨_, .ended result, _⟩ => result
  | _ => .ok ()

/-- Connects to an address for a torrent and waits until that has come to an end. -/
def connect (engine : Engine) (hash : Digest) (address : Address) :
    Engine × Except Failure Unit :=
  match engine.require hash with
  | .error fault => (engine, .error (.fault fault))
  | .ok torrent =>
    let number := engine.links.length
    let known := engine.modifyTransfer torrent fun transfer =>
      transfer.withRoster (transfer.download.roster.add address none .manual).1
    let link : Link := ⟨address, .calling torrent .manual, .idle⟩
    let begun := { known with links := known.links ++ [link] }.establish number
    let settled :=
      if isSettled number begun then begun
      else
        (runUntil (isSettled number) (begun.now + begun.settings.handshakeTimeout) horizon
          begun).1.establish number
    (settled.wake (.link number), settled.attemptResult number)

/-- Somebody who may have a torrent. -/
structure Candidate where
  address : Address
  peerId : Option PeerId

/-- Takes a candidate: unless it is known already or there is no room for it, it is called. -/
def takeCandidate (torrent : Nat) (engine : Engine) (candidate : Candidate) : Engine :=
  match engine.transfer? torrent with
  | none => engine
  | some transfer =>
    let (roster, fresh) := transfer.download.roster.add candidate.address candidate.peerId .tracker
    let known := engine.setTransfer torrent (transfer.withRoster roster)
    if fresh then
      match transfer.download.checkAdmission candidate.address with
      | .error _ =>
        known.setTransfer torrent (transfer.withRoster (roster.forget candidate.address).1)
      | .ok () => known.spawn candidate.address (.calling torrent .tracker)
    else known

/-- Takes candidates for a torrent one after the other. -/
def addPeers (engine : Engine) (hash : Digest) (candidates : List Candidate) :
    Except Fault Engine :=
  match engine.require hash with
  | .error fault => .error fault
  | .ok torrent => .ok (candidates.foldl (takeCandidate torrent) engine)

/-- Stops a link by force. An attempt leaves its stream and nothing else. -/
def abort (engine : Engine) (number : Nat) : Engine :=
  match engine.link? number with
  | some ⟨_, .running line connection _, _⟩ => engine.abandon number line connection
  | some ⟨_, .greeting _ _ stream _, _⟩ | some ⟨_, .hearing stream _, _⟩ =>
    engine.reject number (some stream) .refused
  | some ⟨_, .calling .., _⟩ => engine.reject number none .refused
  | _ => engine

/-- Whether nothing is left of a link that would have to be waited for. -/
def isOver (number : Nat) (engine : Engine) : Bool :=
  match engine.link? number with
  | some ⟨_, .ended _, _⟩ | some ⟨_, .abandoned _, _⟩ | none => true
  | _ => false

/-- Waits for a link to end, for as long as a handshake may take; then it is stopped by force. -/
def await (engine : Engine) (number : Nat) : Engine :=
  if isOver number engine then engine
  else
    let limit := engine.now + engine.settings.handshakeTimeout
    match runUntil (isOver number) limit horizon engine with
    | (engine, true) => engine
    | (engine, false) => if isOver number engine then engine else engine.abort number

/-- Stops listening, asks every connection to close, and waits for all links to end. -/
def stop (engine : Engine) : Engine :=
  let silent := { engine with network := engine.network.hangUp }
  let asked := (silent.registry.map (·.2)).foldl shutdown silent
  (List.range asked.links.length).foldl await asked

end BitTorrent.Engine
