import BitTorrent.Text.Rounded

/-!
The figures of a transfer and the line that reports them: amounts with two decimal places in the
largest unit below, durations down to the second. A reporter lets a line through at most once per
interval. Moments are counted in nanoseconds.
-/

set_option autoImplicit false

namespace BitTorrent

/-- The figures of a transfer; speeds are in bytes per second. -/
structure Statistics where
  downloaded : Nat := 0
  uploaded : Nat := 0
  downloadSpeed : Nat := 0
  uploadSpeed : Nat := 0
  peers : Nat := 0
  completedPieces : Nat := 0
  totalPieces : Nat := 0
  left : Nat := 0
  deriving DecidableEq, Repr

namespace Statistics

/-- Divides by 1024 while that leaves at least one and there is a larger unit. -/
def scale : Float → String → List String → Float × String
  | size, unit, [] => (size, unit)
  | size, unit, larger :: rest =>
    if size < 1024 then (size, unit) else scale (size / 1024) larger rest

/-- An amount of bytes. -/
def bytesText (bytes : Nat) : String :=
  let (size, unit) := scale (Float.ofNat bytes) "B" ["KB", "MB", "GB", "TB"]
  Rounded.fixed 2 size ++ " " ++ unit

/-- A number of bytes per second. -/
def speedText (speed : Nat) : String :=
  bytesText speed ++ "/s"

/-- A number of seconds; leading units that are zero are left out. -/
def durationText (seconds : Nat) : String :=
  let hours := seconds / 3600
  let minutes := seconds % 3600 / 60
  let rest := s!"{seconds % 60}s"
  if 0 < hours then s!"{hours}h {minutes}m " ++ rest
  else if 0 < minutes then s!"{minutes}m " ++ rest
  else rest

/-- The completed part of the pieces; a transfer of no pieces is complete. -/
def progress (statistics : Statistics) : Float :=
  if statistics.totalPieces = 0 then 1
  else Float.ofNat statistics.completedPieces / Float.ofNat statistics.totalPieces

/-- The seconds until the rest is there at the present speed. -/
def eta? (statistics : Statistics) : Option Nat :=
  if statistics.downloadSpeed = 0 ∨ statistics.left = 0 then none
  else some (statistics.left / statistics.downloadSpeed)

/-- The line that reports a transfer. -/
def summary (statistics : Statistics) : String :=
  let eta := match statistics.eta? with
    | some seconds => durationText seconds
    | none => "-"
  Rounded.fixed 1 (statistics.progress * 100) ++ "% (" ++ toString statistics.completedPieces ++
    "/" ++ toString statistics.totalPieces ++ " pieces) | down " ++
    bytesText statistics.downloaded ++ " at " ++ speedText statistics.downloadSpeed ++ " | up " ++
    bytesText statistics.uploaded ++ " at " ++ speedText statistics.uploadSpeed ++ " | peers " ++
    toString statistics.peers ++ " | eta " ++ eta

end Statistics

/-- Lets reports through at intervals; a quiet reporter lets none through. -/
structure Reporter where
  quiet : Bool
  interval : Nat
  last : Option Nat := none
  deriving DecidableEq, Repr

/-- Whether a report at a moment is let through. -/
def Reporter.update (reporter : Reporter) (now : Nat) : Reporter × Bool :=
  let tooSoon := match reporter.last with
    | some last => decide (now - last < reporter.interval)
    | none => false
  if reporter.quiet || tooSoon then (reporter, false)
  else ({ reporter with last := some now }, true)

end BitTorrent
