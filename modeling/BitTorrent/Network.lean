import BitTorrent.Framing

/-!
A network in memory: byte streams between the engine and far sides, what a dial meets, and the
listeners that wait for connections. Every stream has a near end, which the engine holds, and a far
end. An end that is let go of stays so; what was sent before can still be read.
-/

set_option autoImplicit false

namespace BitTorrent

/-- A stream with the address of its far side and the bytes on their way to either end. -/
structure Stream where
  address : Address
  toNear : Bytes
  toFar : Bytes
  nearOpen : Bool
  farOpen : Bool
  deriving Repr

/-- What a dial to an address meets: nobody, or a far side that has sent some bytes and may be gone
again. -/
inductive Answer where
  | refuse
  | accept (sent : Bytes) (gone : Bool)
  deriving DecidableEq, Repr

/-- What an accept gives: a stream from an address, or a failure. -/
inductive Accepted where
  | stream (number : Nat) (address : Address)
  | failure
  deriving DecidableEq, Repr

/-- A listener, what waits for its accepts, and when it goes on after a failure. -/
structure Listener where
  address : Address
  waiting : List Accepted
  pausedUntil : Option Nat
  deriving Repr

/-- The network. The last listener takes the connections; `dialled` are the addresses that were
dialled. -/
structure Network where
  streams : List Stream
  answers : List (Address × Answer)
  listeners : List Listener
  dialled : List Address
  deriving Repr

namespace Network

def empty : Network :=
  ⟨[], [], [], []⟩

def stream? (network : Network) (number : Nat) : Option Stream :=
  network.streams[number]?

def modify (network : Network) (number : Nat) (change : Stream → Stream) : Network :=
  { network with streams := network.streams.modify number change }

def closeNear (network : Network) (number : Nat) : Network :=
  network.modify number fun stream => { stream with nearOpen := false }

def closeFar (network : Network) (number : Nat) : Network :=
  network.modify number fun stream => { stream with farOpen := false }

/-- The stream whose far end is held at an address. -/
def held? (network : Network) (address : Address) : Option Nat :=
  network.streams.findIdx? fun stream => stream.farOpen && stream.address = address

/-- Adds a stream on which the far side has sent some bytes, and gives its number. A far side that
stays takes the place of the one before it, whose stream is given too. -/
def connect (network : Network) (address : Address) (sent : Bytes) (gone : Bool) :
    Network × Nat × Option Nat :=
  let displaced := if gone then none else network.held? address
  let cleared := match displaced with
    | some number => network.closeFar number
    | none => network
  ({ cleared with streams := cleared.streams ++ [⟨address, sent, [], true, !gone⟩] },
    cleared.streams.length, displaced)

/-- What a dial to an address meets; nobody is there unless it was said so. -/
def answer (network : Network) (address : Address) : Answer :=
  (network.answers.lookup address).getD .refuse

/-- Says what a dial to an address meets from now on. -/
def expect (network : Network) (address : Address) (answer : Answer) : Network :=
  { network with answers := (address, answer) :: network.answers.filter (·.1 ≠ address) }

/-- Dials an address; gives the stream if somebody answers, and the stream that it displaces. -/
def dial (network : Network) (address : Address) : Network × Option (Nat × Option Nat) :=
  let dialled := { network with dialled := network.dialled ++ [address] }
  match network.answer address with
  | .refuse => (dialled, none)
  | .accept sent gone =>
    let (connected, number, displaced) := dialled.connect address sent gone
    (connected, some (number, displaced))

/-- Whether the far end was let go of. -/
def isFarGone (network : Network) (number : Nat) : Bool :=
  match network.stream? number with
  | some stream => !stream.farOpen
  | none => true

/-- Whether the near end was let go of. -/
def isNearGone (network : Network) (number : Nat) : Bool :=
  match network.stream? number with
  | some stream => !stream.nearOpen
  | none => true

/-- The bytes that wait at the near end. -/
def pending (network : Network) (number : Nat) : Bytes :=
  match network.stream? number with
  | some stream => stream.toNear
  | none => []

/-- Leaves other bytes at the near end. -/
def setPending (network : Network) (number : Nat) (bytes : Bytes) : Network :=
  network.modify number fun stream => { stream with toNear := bytes }

/-- Writes at the near end; fails if the far end is gone. -/
def write (network : Network) (number : Nat) (bytes : Bytes) : Except StreamEnd Network :=
  if network.isFarGone number then .error .brokenPipe
  else .ok (network.modify number fun stream => { stream with toFar := stream.toFar ++ bytes })

/-- Writes at the far end; fails if the near end is gone. -/
def writeBack (network : Network) (number : Nat) (bytes : Bytes) : Except StreamEnd Network :=
  if network.isNearGone number then .error .brokenPipe
  else .ok (network.modify number fun stream => { stream with toNear := stream.toNear ++ bytes })

/-- Changes a listener. -/
def modifyListener (network : Network) (number : Nat) (change : Listener → Listener) : Network :=
  { network with listeners := network.listeners.modify number change }

/-- Adds a listener. -/
def listen (network : Network) (address : Address) : Network :=
  { network with listeners := network.listeners ++ [⟨address, [], none⟩] }

/-- Ends all listeners and lets go of the streams that wait for them. -/
def hangUp (network : Network) : Network :=
  let closed := network.listeners.foldl (fun network listener =>
    listener.waiting.foldl (fun network item => match item with
      | .stream number _ => network.closeNear number
      | .failure => network) network) network
  { closed with listeners := [] }

end Network

end BitTorrent
