import BitTorrent.Engine.Control
import BitTorrent.FarSide
import BitTorrent.Seed

/-!
An engine among scripted far sides. Whatever a script does, all tasks run afterwards until nothing
is left to do, a millisecond passes, and they run again.
-/

set_option autoImplicit false

namespace BitTorrent

/-- An engine, the far side of every stream, and the torrents that were registered by name, with
their numbers and contents; `listened` says that there once was a listener. -/
structure Simulation where
  engine : Engine
  farSides : List FarSide
  seeds : List (String × Nat × Seed)
  listened : Bool

/-- What becomes of a connection that is offered to the engine. -/
inductive Offer where
  | taken
  | turnedAway
  | nobody
  deriving DecidableEq, Repr

/-- What a far side has got since somebody looked, and whether its stream has ended. -/
structure Sighting where
  address : Address
  received : List Received
  closed : Bool

namespace Simulation

def new (engine : Engine) : Simulation :=
  ⟨engine, [], [], false⟩

def withEngine (simulation : Simulation) (engine : Engine) : Simulation :=
  { simulation with engine := engine }

def withNetwork (simulation : Simulation) (network : Network) : Simulation :=
  simulation.withEngine { simulation.engine with network := network }

/-- Registers a torrent and may complete what its store holds; gives how much that was. -/
def register (simulation : Simulation) (seed : Seed) (store : MemoryStore) (recheck : Bool) :
    Except RegistryFault (Simulation × Option Nat) :=
  match simulation.engine.register seed.torrent store with
  | .error fault => .error fault
  | .ok (engine, number) =>
    let named := { simulation with
      seeds := (seed.torrent.name, number, seed) ::
        simulation.seeds.filter (·.1 ≠ seed.torrent.name) }
    match engine.transfer? number, recheck with
    | some transfer, true =>
      let (transfer, count) := transfer.recheck
      .ok (named.withEngine (engine.setTransfer number transfer), some count)
    | _, _ => .ok (named.withEngine engine, none)

/-- The torrents that were registered, by name, and whether they still are. -/
def torrents (simulation : Simulation) : List (String × Transfer × Bool) :=
  simulation.seeds.filterMap fun (name, number, _) =>
    (simulation.engine.transfer? number).map fun transfer =>
      (name, transfer, simulation.engine.registry.any (·.2 = number))

/-- Changes a torrent by name. -/
def modifyTransfer (simulation : Simulation) (name : String) (change : Transfer → Transfer) :
    Simulation :=
  match simulation.seeds.lookup name with
  | some (number, _) => simulation.withEngine (simulation.engine.modifyTransfer number change)
  | none => simulation

/-- The answer of somebody who has a torrent to a request for it. -/
def answer (simulation : Simulation) (name : String) (fill : Option Nat) (request : BlockRequest) :
    Message :=
  match simulation.seeds.lookup name with
  | some (_, seed) => seed.answer fill request
  | none => .keepAlive

/-- Lets every far side read what has come. -/
def catchUp (simulation : Simulation) : Simulation :=
  let network := simulation.engine.network
  let sides := network.streams.zipIdx.map fun (stream, number) =>
    (simulation.farSides.getD number {}).read stream.toFar
  let emptied := network.streams.map fun stream => { stream with toFar := [] }
  { simulation.withNetwork { network with streams := emptied } with farSides := sides }

/-- The bytes of a far side reach the engine; none if the stream is closed. -/
def send? (simulation : Simulation) (address : Address) (bytes : Bytes) : Option Simulation :=
  let network := simulation.engine.network
  match network.held? address with
  | none => none
  | some stream =>
    match network.writeBack stream bytes with
    | .error _ => none
    | .ok network => some (simulation.withEngine
        ({ simulation.engine with network := network }.notify stream))

/-- A far side goes away; says whether its stream was open until then. -/
def close (simulation : Simulation) (address : Address) : Simulation × Bool :=
  let network := simulation.engine.network
  match network.held? address with
  | none => (simulation, false)
  | some stream => (simulation.withEngine
      ({ simulation.engine with network := network.closeFar stream }.notify stream),
      !network.isNearGone stream)

/-- Lets the last listener accept something, if there is one. -/
def enqueue? (simulation : Simulation) (item : Accepted) : Option Simulation :=
  let engine := simulation.engine
  match engine.network.listeners.length with
  | 0 => none
  | last + 1 => some (simulation.withEngine ({ engine with
      network := engine.network.modifyListener last fun listener =>
        { listener with waiting := listener.waiting ++ [item] } }.wake (.listener last)))

/-- Lets an accept fail. -/
def failAccept (simulation : Simulation) : Simulation × Offer :=
  match simulation.enqueue? .failure with
  | some simulation => (simulation, .taken)
  | none => (simulation, if simulation.listened then .turnedAway else .nobody)

/-- Offers a connection from an address, on which the far side has sent some bytes and may be gone
again. -/
def offer (simulation : Simulation) (address : Address) (sent : Bytes) (gone : Bool) :
    Simulation × Offer :=
  if simulation.listened then
    let (network, stream, displaced) := simulation.engine.network.connect address sent gone
    let connected := simulation.withNetwork network
    let told := match displaced with
      | some displaced => connected.withEngine (connected.engine.notify displaced)
      | none => connected
    match told.enqueue? (.stream stream address) with
    | some simulation => (simulation, .taken)
    | none => (told.withNetwork (told.engine.network.closeNear stream), .turnedAway)
  else (simulation, .nobody)

/-- Listens on a port. -/
def listen (simulation : Simulation) (port : UInt16) : Simulation × Address :=
  let (engine, address) := simulation.engine.listen port
  ({ simulation with engine := engine, listened := true }, address)

/-- Sends the answers to requests as long as the stream takes them, and counts them. -/
def sendAnswers (address : Address) (answer : BlockRequest → Message) :
    Simulation × Nat → List BlockRequest → Simulation × Nat
  | state, [] => state
  | (simulation, count), request :: rest =>
    match simulation.send? address (answer request).encode with
    | some simulation => sendAnswers address answer (simulation, count + 1) rest
    | none => (simulation, count)

/-- The requests that the far side of an address has to answer. -/
def openRequests (simulation : Simulation) (address : Address) : List BlockRequest :=
  match simulation.engine.network.held? address with
  | some stream => (simulation.farSides.getD stream {}).requests
  | none => []

/-- Takes the requests off the far side of an address. -/
def clearRequests (simulation : Simulation) (address : Address) : Simulation :=
  match simulation.engine.network.held? address with
  | some stream => { simulation with
      farSides := simulation.farSides.modify stream fun side => { side with requests := [] } }
  | none => simulation

/-- Lets a far side answer its requests in some rounds of a millisecond, and counts the answers. -/
def answerRounds (address : Address) (answer : BlockRequest → Message) :
    Nat → Simulation × Nat → Simulation × Nat
  | 0, state => state
  | rounds + 1, (simulation, count) =>
    let heard := simulation.catchUp
    let (sent, count) := sendAnswers address answer (heard.clearRequests address, count)
      (heard.openRequests address)
    answerRounds address answer rounds
      (sent.withEngine (sent.engine.elapse Settings.millisecond), count)

/-- Runs everything that a step of a script has set off. -/
def rest (simulation : Simulation) : Simulation :=
  (simulation.withEngine simulation.engine.quiesce).catchUp

/-- What the far side of a stream has to show, if it is there and has something. -/
def sighting? (network : Network) (side : FarSide) (number : Nat) : Option Sighting :=
  match network.stream? number with
  | none => none
  | some stream =>
    if stream.farOpen && (!side.received.isEmpty || (!stream.nearOpen && !side.noticed)) then
      some ⟨stream.address, side.received, !stream.nearOpen⟩
    else none

/-- Looks at the far sides, each of which shows everything once. -/
def look (simulation : Simulation) : Simulation × List Sighting :=
  let network := simulation.engine.network
  ({ simulation with
      farSides := simulation.farSides.zipIdx.map fun (side, number) =>
        { side with received := [], noticed := network.isNearGone number } },
    simulation.farSides.zipIdx.filterMap fun (side, number) => sighting? network side number)

/-- The addresses that were dialled since the last time somebody asked. -/
def takeDials (simulation : Simulation) : Simulation × List Address :=
  let network := simulation.engine.network
  (simulation.withNetwork { network with dialled := [] }, network.dialled)

end Simulation

end BitTorrent
