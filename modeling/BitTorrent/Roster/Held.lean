import BitTorrent.Roster

/-!
A roster whose mailboxes are held by address: the last mailbox that an address got is its own.
-/

set_option autoImplicit false

namespace BitTorrent

/-- A roster and the mailboxes that are held. -/
structure HeldRoster where
  roster : Roster
  held : List (Address × Nat)

namespace HeldRoster

def empty : HeldRoster :=
  ⟨Roster.empty, []⟩

/-- Changes the roster and not who holds what. -/
def withRoster (state : HeldRoster) (roster : Roster) : HeldRoster :=
  { state with roster := roster }

/-- Registers a connection, whose address then holds the new mailbox. -/
def attach (state : HeldRoster) (address : Address) (peerId : PeerId) (source : PeerSource) :
    Except PeerFault HeldRoster :=
  (state.roster.attach address peerId source).map fun (roster, number) =>
    ⟨roster, (address, number) :: state.held.filter (·.1 ≠ address)⟩

/-- Takes the commands out of the mailbox that an address holds. -/
def takeCommands (state : HeldRoster) (address : Address) : HeldRoster × Option (List Command) :=
  match state.held.lookup address with
  | none => (state, none)
  | some number =>
    (state.withRoster (state.roster.setQueue number []), some (state.roster.queued number))

/-- An address lets go of its mailbox; says whether it held one. -/
def release (state : HeldRoster) (address : Address) : HeldRoster × Bool :=
  match state.held.lookup address with
  | none => (state, false)
  | some number => (⟨state.roster.close number, state.held.filter (·.1 ≠ address)⟩, true)

end HeldRoster

end BitTorrent
