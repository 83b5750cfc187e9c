import BitTorrent.Bitfield
import BitTorrent.Fault

/-!
Choosing the next piece to fetch from a peer: a piece that the peer has and we lack, not fetched
from another peer unless the end game allows it.
-/

set_option autoImplicit false

namespace BitTorrent

/-- Which of the useful pieces comes first. -/
inductive PiecePolicy where
  | random
  | sequential
  | rarestFirst
  deriving DecidableEq, Repr

/-- What happens to a peer whose piece fails verification. -/
inductive CorruptionPolicy where
  | ban
  | retry
  deriving DecidableEq, Repr

/-- A text with its ASCII capitals made small. -/
def lowerAscii (text : String) : String :=
  String.ofList (text.toList.map Char.toLower)

namespace PiecePolicy

def text : PiecePolicy → String
  | random => "random"
  | sequential => "sequential"
  | rarestFirst => "rarest_first"

/-- Reads a policy; case does not matter and a hyphen stands for an underscore. -/
def ofText (text : String) : Except SettingsFault PiecePolicy :=
  let name := String.ofList
    ((lowerAscii text).toList.map fun char => if char = '-' then '_' else char)
  if name = "random" then .ok random
  else if name = "sequential" then .ok sequential
  else if name = "rarest_first" ∨ name = "rarest" then .ok rarestFirst
  else .error (.unknownPolicy name)

end PiecePolicy

namespace CorruptionPolicy

def text : CorruptionPolicy → String
  | ban => "ban"
  | retry => "retry"

/-- Reads a policy; case does not matter. -/
def ofText (text : String) : Except SettingsFault CorruptionPolicy :=
  let name := lowerAscii text
  if name = "ban" then .ok ban
  else if name = "retry" then .ok retry
  else .error (.unknownCorruptionPolicy name)

end CorruptionPolicy

/-- How the next piece is chosen. -/
structure Selector where
  policy : PiecePolicy
  endGame : Bool
  deriving DecidableEq, Repr

namespace Selector

/-- The pieces to choose from: those that the peer has and we lack and that nobody fetches; in the
end game, if there are none of these, all that the peer has and we lack. Messages and assignments
number pieces in words of 32 bits. The candidates are not cut down to such words here: in a set with
no more pieces than there are words none of them would change, which is the last part of
`Selector.select?_suits`. -/
def candidates (selector : Selector) (peer completed : Bitfield) (inFlight : List Nat) :
    List Nat :=
  let missing := (peer.difference completed).toList
  let free := missing.filter fun piece => !inFlight.contains piece
  if free.isEmpty && selector.endGame then missing else free

/-- The number of peers that lack a piece. -/
def lacking (swarm : List Bitfield) (piece : Nat) : Nat :=
  swarm.countP fun field => !field.has piece

/-- Keeps the piece that more peers lack; on a tie, the one that stands first. -/
def rarer (swarm : List Bitfield) (best piece : Nat) : Nat :=
  if lacking swarm best < lacking swarm piece then piece else best

/-- The piece that most peers lack, the first on ties. -/
def rarest? (swarm : List Bitfield) : List Nat → Option Nat
  | [] => none
  | piece :: rest => some (rest.foldl (rarer swarm) piece)

/-- The choice from the candidates; `draw` decides for the random policy. -/
def choose? (selector : Selector) (draw : Nat) (swarm : List Bitfield) (candidates : List Nat) :
    Option Nat :=
  match selector.policy with
  | .random => candidates[draw % candidates.length]?
  | .sequential => candidates.head?
  | .rarestFirst => rarest? swarm candidates

/-- The next piece to fetch from a peer, if it has a useful one. -/
def select (selector : Selector) (draw : Nat) (peer completed : Bitfield) (inFlight : List Nat)
    (swarm : List Bitfield) : Option Nat :=
  selector.choose? draw swarm (selector.candidates peer completed inFlight)

/-- Whether the sets can be compared: both of ours range over the same pieces, and where the swarm
is consulted every candidate is in the range of its sets. -/
def comparable (selector : Selector) (peer completed : Bitfield) (inFlight : List Nat)
    (swarm : List Bitfield) : Bool :=
  peer.size = completed.size &&
    (selector.policy ≠ .rarestFirst ||
      (selector.candidates peer completed inFlight).all fun piece =>
        swarm.all fun field => piece < field.size)

/-- The next piece, refused if the sets cannot be compared. -/
def select? (selector : Selector) (draw : Nat) (peer completed : Bitfield) (inFlight : List Nat)
    (swarm : List Bitfield) : Option (Option Nat) :=
  if selector.comparable peer completed inFlight swarm then
    some (selector.select draw peer completed inFlight swarm)
  else none

end Selector

end BitTorrent
