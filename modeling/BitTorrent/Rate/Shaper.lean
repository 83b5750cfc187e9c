import BitTorrent.Rate.Bucket

/-!
Meters in a tree: what passes a meter passes every meter above it. Each meter limits and counts both
directions of traffic. A passage through the tree is a list of tolls; it can be interrupted at every
toll that asks for a wait.
-/

set_option autoImplicit false

namespace BitTorrent

/-- The two directions of traffic. -/
inductive Direction where
  | download
  | upload
  deriving DecidableEq, Repr

/-- One direction of a meter: its limit, the bytes so far, and the speed between the last two
samples. -/
structure Lane where
  bucket : Bucket Float
  total : Nat
  sampled : Nat
  speed : Nat
  deriving Repr

/-- A meter and its place in the tree. -/
structure Meter where
  parent : Option Nat
  download : Lane
  upload : Lane
  sampledAt : Nat
  deriving Repr

/-- A tree of meters; the first is the root, and a parent stands before its children. -/
structure Shaper where
  meters : List Meter
  deriving Repr

/-- A step on the way through the tree: to be counted by a meter, or to be charged to its limit. -/
inductive Toll where
  | count (meter : Nat)
  | charge (meter : Nat)
  deriving DecidableEq, Repr

/-- Bytes on their way through the tree, and the tolls that are still ahead. -/
structure Passage where
  direction : Direction
  bytes : Nat
  tolls : List Toll
  deriving DecidableEq, Repr

/-- What a passage comes to: it is through, has to wait before it goes on, or asks for a wait that
cannot be counted. -/
inductive Progress where
  | through
  | waits (nanoseconds : Nat) (rest : Passage)
  | refused
  deriving DecidableEq, Repr

namespace Lane

def new (rate now : Nat) : Lane :=
  ⟨Bucket.new rate now, 0, 0, 0⟩

def limit (lane : Lane) : Nat :=
  lane.bucket.rate

/-- The whole bytes per second since the last sample. -/
def sample (lane : Lane) (seconds : Float) : Lane :=
  { lane with
    sampled := lane.total
    speed := (Float.ofNat (lane.total - lane.sampled) / seconds).toUInt64.toNat }

end Lane

namespace Meter

def new (parent : Option Nat) (down up now : Nat) : Meter :=
  ⟨parent, Lane.new down now, Lane.new up now, now⟩

def lane (meter : Meter) : Direction → Lane
  | .download => meter.download
  | .upload => meter.upload

def setLane (meter : Meter) (lane : Lane) : Direction → Meter
  | .download => { meter with download := lane }
  | .upload => { meter with upload := lane }

/-- Takes the speeds over the time since the last sample; without time nothing changes. -/
def sample (meter : Meter) (now : Nat) : Meter :=
  if meter.sampledAt < now then
    let seconds := Quantity.seconds (now - meter.sampledAt)
    { meter with
      download := meter.download.sample seconds
      upload := meter.upload.sample seconds
      sampledAt := now }
  else meter

end Meter

namespace Shaper

/-- A tree of one meter. -/
def new (down up now : Nat) : Shaper :=
  ⟨[Meter.new none down up now]⟩

/-- Adds a meter below another and gives its number. -/
def child (shaper : Shaper) (parent down up now : Nat) : Shaper × Nat :=
  (⟨shaper.meters ++ [Meter.new (some parent) down up now]⟩, shaper.meters.length)

def meter? (shaper : Shaper) (meter : Nat) : Option Meter :=
  shaper.meters[meter]?

/-- Changes one direction of a meter. -/
def modifyLane (shaper : Shaper) (meter : Nat) (direction : Direction) (change : Lane → Lane) :
    Shaper :=
  ⟨shaper.meters.modify meter fun meter => meter.setLane (change (meter.lane direction)) direction⟩

/-- The bytes that a meter counted in one direction. -/
def total (shaper : Shaper) (direction : Direction) (meter : Nat) : Nat :=
  match shaper.meter? meter with
  | some meter => (meter.lane direction).total
  | none => 0

/-- The last sampled speed of a meter in one direction. -/
def speed (shaper : Shaper) (direction : Direction) (meter : Nat) : Nat :=
  match shaper.meter? meter with
  | some meter => (meter.lane direction).speed
  | none => 0

def setLimit (shaper : Shaper) (now meter : Nat) (direction : Direction) (rate : Nat) : Shaper :=
  shaper.modifyLane meter direction fun lane => { lane with bucket := lane.bucket.setRate now rate }

/-- A meter and those above it, at most `fuel` of them. -/
def ancestors (shaper : Shaper) : Nat → Nat → List Nat
  | 0, _ => []
  | fuel + 1, meter =>
    match shaper.meter? meter with
    | none => []
    | some found => meter :: (match found.parent with
      | some parent => shaper.ancestors fuel parent
      | none => [])

/-- The meters that bytes pass when they pass one, from there up to the root. -/
def path (shaper : Shaper) (meter : Nat) : List Nat :=
  shaper.ancestors shaper.meters.length meter

/-- The tolls of one meter: downloaded bytes are there already and are counted before the wait,
uploaded bytes are counted behind it. -/
def tollsAt : Direction → Nat → List Toll
  | .download, meter => [.count meter, .charge meter]
  | .upload, meter => [.charge meter, .count meter]

/-- Bytes that are about to pass a meter. -/
def passage (shaper : Shaper) (direction : Direction) (meter bytes : Nat) : Passage :=
  ⟨direction, bytes, (shaper.path meter).flatMap (tollsAt direction)⟩

/-- Counts bytes at a meter. -/
def count (shaper : Shaper) (direction : Direction) (bytes meter : Nat) : Shaper :=
  shaper.modifyLane meter direction fun lane => { lane with total := lane.total + bytes }

/-- Charges bytes to the limit of a meter and gives the seconds to wait. -/
def charge (shaper : Shaper) (now : Nat) (direction : Direction) (bytes meter : Nat) :
    Shaper × Float :=
  match shaper.meter? meter with
  | none => (shaper, 0)
  | some found =>
    let (bucket, wait) := (found.lane direction).bucket.reserve now bytes
    (shaper.modifyLane meter direction fun lane => { lane with bucket := bucket }, wait)

/-- Pays tolls until one asks for a wait. -/
def pay (now : Nat) (direction : Direction) (bytes : Nat) : Shaper → List Toll → Shaper × Progress
  | shaper, [] => (shaper, .through)
  | shaper, .count meter :: rest =>
    pay now direction bytes (shaper.count direction bytes meter) rest
  | shaper, .charge meter :: rest =>
    let (charged, wait) := shaper.charge now direction bytes meter
    match Bucket.nanoseconds? wait with
    | none => (charged, .refused)
    | some 0 => pay now direction bytes charged rest
    | some wait => (charged, .waits wait ⟨direction, bytes, rest⟩)

/-- Moves a passage on as far as it comes without a wait. -/
def advance (shaper : Shaper) (now : Nat) (passage : Passage) : Shaper × Progress :=
  pay now passage.direction passage.bytes shaper passage.tolls

/-- Samples a meter and all meters below it. -/
def sample (shaper : Shaper) (now meter : Nat) : Shaper :=
  ⟨shaper.meters.zipIdx.map fun (other, index) =>
    if (shaper.path index).contains meter then other.sample now else other⟩

end Shaper

end BitTorrent
