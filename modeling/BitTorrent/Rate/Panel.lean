import BitTorrent.Rate.Sampler

/-! Meters under names, as time passes. A name can be let go of; its meter stays in the tree. -/

set_option autoImplicit false

namespace BitTorrent

/-- A tree of meters, the names of some of them, and the time. -/
structure Panel where
  metering : Metering
  names : List (String × Nat)
  now : Nat

namespace Panel

/-- A tree of one meter, the root. -/
def new (down up : Nat) : Panel :=
  ⟨Metering.new down up 0, [("root", 0)], 0⟩

/-- Changes the tree. -/
def modify (panel : Panel) (change : Shaper → Shaper) : Panel :=
  { panel with metering := { panel.metering with shaper := change panel.metering.shaper } }

/-- Lets go of a name. -/
def drop (panel : Panel) (name : String) : Panel :=
  { panel with names := panel.names.filter (·.1 ≠ name) }

/-- Adds a meter below another one under a name. -/
def add (panel : Panel) (name : String) (parent down up : Nat) : Panel :=
  let (shaper, number) := panel.metering.shaper.child parent down up panel.now
  { panel.modify fun _ => shaper with names := (name, number) :: (panel.drop name).names }

/-- Transfers bytes through a meter and gives the time that it took, unless that cannot be told. -/
def transfer (panel : Panel) (direction : Direction) (meter bytes : Nat) : Panel × Option Nat :=
  let (metering, later, passed) := panel.metering.transfer panel.now direction meter bytes
  ({ panel with metering := metering, now := later },
    if passed then some (later - panel.now) else none)

/-- Passes time. -/
def elapse (panel : Panel) (duration : Nat) : Panel :=
  let later := panel.now + duration
  { panel with metering := panel.metering.runUntil later, now := later }

/-- Samples a meter at a period. -/
def watch (panel : Panel) (meter period : Nat) : Panel :=
  { panel with metering := panel.metering.watch panel.now meter period }

/-- Stops all samplers. -/
def unwatch (panel : Panel) : Panel :=
  { panel with metering := panel.metering.unwatch }

/-- The meters that have names. -/
def meters (panel : Panel) : List (String × Meter) :=
  panel.names.filterMap fun (name, number) =>
    (panel.metering.shaper.meter? number).map fun meter => (name, meter)

end Panel

end BitTorrent
