import BitTorrent.Rate.Shaper

/-!
A tree of meters as time passes: samplers fire at their periods, and waits last whole milliseconds.
-/

set_option autoImplicit false

namespace BitTorrent

/-- Samples a meter and those below it every `period` nanoseconds; `next` is the next time. -/
structure Sampler where
  meter : Nat
  period : Nat
  next : Nat
  deriving DecidableEq, Repr

/-- A tree of meters with the samplers that run on it. -/
structure Metering where
  shaper : Shaper
  samplers : List Sampler
  deriving Repr

namespace Metering

def new (down up now : Nat) : Metering :=
  ⟨Shaper.new down up now, []⟩

/-- Starts a sampler, first due one period later. A period of zero never comes round. -/
def watch (metering : Metering) (now meter period : Nat) : Metering :=
  if period = 0 then metering
  else { metering with samplers := metering.samplers ++ [⟨meter, period, now + period⟩] }

/-- Stops all samplers. -/
def unwatch (metering : Metering) : Metering :=
  { metering with samplers := [] }

/-- The earlier of two moments. -/
def earlier (best : Option Nat) (moment : Nat) : Option Nat :=
  some (match best with
    | some best => min best moment
    | none => moment)

/-- The next moment at which a sampler is due. -/
def nextDue? (metering : Metering) : Option Nat :=
  metering.samplers.foldl (fun best sampler => earlier best sampler.next) none

/-- Samples for a sampler that is due at a moment, and sets its next time. -/
def fireOne (now : Nat) (state : Shaper × List Sampler) (sampler : Sampler) :
    Shaper × List Sampler :=
  if sampler.next = now then
    (state.1.sample now sampler.meter,
      state.2 ++ [{ sampler with next := sampler.next + sampler.period }])
  else (state.1, state.2 ++ [sampler])

/-- Lets all samplers fire that are due at a moment. -/
def fire (metering : Metering) (now : Nat) : Metering :=
  let (shaper, samplers) := metering.samplers.foldl (fireOne now) (metering.shaper, [])
  ⟨shaper, samplers⟩

/-- Lets the samplers fire that are due before a moment, in the order of their times. -/
def fireBefore : Nat → Nat → Metering → Metering
  | 0, _, metering => metering
  | fuel + 1, limit, metering =>
    match metering.nextDue? with
    | none => metering
    | some due => if due < limit then fireBefore fuel limit (metering.fire due) else metering

/-- How often the samplers can fire before a moment. -/
def firings (metering : Metering) (limit : Nat) : Nat :=
  metering.samplers.foldl (fun total sampler =>
    total + (limit - sampler.next) / sampler.period + 1) 0

/-- Passes time up to a moment; what is due at that very moment is still to come. -/
def runUntil (metering : Metering) (limit : Nat) : Metering :=
  fireBefore (metering.firings limit) limit metering

/-- The end of a wait: the first whole millisecond at which it is over. -/
def wake (now wait : Nat) : Nat :=
  (now + wait + 999999) / 1000000 * 1000000

/-- Passes bytes through a meter and those above it, waiting where a limit asks for it, and gives
the moment at which they are through; none if a wait cannot be counted. -/
def carry : Nat → Metering → Nat → Passage → Metering × Nat × Bool
  | 0, metering, now, _ => (metering, now, true)
  | fuel + 1, metering, now, passage =>
    match metering.shaper.advance now passage with
    | (shaper, .through) => ({ metering with shaper := shaper }, now, true)
    | (shaper, .refused) => ({ metering with shaper := shaper }, now, false)
    | (shaper, .waits wait rest) =>
      let resumed := wake now wait
      carry fuel ({ metering with shaper := shaper }.runUntil resumed) resumed rest

/-- Transfers bytes through a meter; the flag says whether they came through. -/
def transfer (metering : Metering) (now : Nat) (direction : Direction) (meter bytes : Nat) :
    Metering × Nat × Bool :=
  let passage := metering.shaper.passage direction meter bytes
  carry (passage.tolls.length + 1) metering now passage

end Metering

end BitTorrent
