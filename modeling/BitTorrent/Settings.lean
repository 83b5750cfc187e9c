import BitTorrent.Framing
import BitTorrent.Selection

/-!
The settings of the engine, their defaults, and the conditions under which they can be used.
-/

set_option autoImplicit false

namespace BitTorrent

/-- The settings of the engine; a limit of zero means no limit. -/
structure Settings where
  listenPort : Nat := 6881
  maxConnections : Nat := 50
  connectTimeoutSecs : Nat := 10
  handshakeTimeoutSecs : Nat := 20
  keepaliveIntervalSecs : Nat := 120
  idleTimeoutSecs : Nat := 300
  pipelineDepth : Nat := 1
  piecePolicy : PiecePolicy := .random
  corruptionPolicy : CorruptionPolicy := .ban
  endGame : Bool := false
  downloadLimit : Nat := 0
  uploadLimit : Nat := 0
  peerDownloadLimit : Nat := 0
  peerUploadLimit : Nat := 0
  sampleIntervalMs : Nat := 1000
  maxFrameLength : Nat := Framing.defaultLimit
  deriving DecidableEq, Repr

namespace Settings

/-- Nanoseconds in a second. -/
def second : Nat := 1000000000

/-- Nanoseconds in a millisecond. -/
def millisecond : Nat := 1000000

/-- Checks that the engine can run with the settings. -/
def validate (settings : Settings) : Except SettingsFault Unit :=
  if settings.maxConnections = 0 then .error (.zeroCount "max_connections")
  else if settings.pipelineDepth = 0 then .error (.zeroCount "pipeline_depth")
  else if settings.connectTimeoutSecs = 0 ∨ settings.handshakeTimeoutSecs = 0 then
    .error .zeroTimeout
  else if settings.keepaliveIntervalSecs = 0 then .error (.notPositive "keepalive_interval_secs")
  else if settings.idleTimeoutSecs ≠ 0 ∧
      settings.idleTimeoutSecs ≤ settings.keepaliveIntervalSecs then
    .error .idleTooShort
  else if settings.sampleIntervalMs = 0 then .error (.notPositive "sample_interval_ms")
  else if settings.maxFrameLength < blockSize + 9 then .error .frameTooSmall
  else .ok ()

def connectTimeout (settings : Settings) : Nat :=
  settings.connectTimeoutSecs * second

def handshakeTimeout (settings : Settings) : Nat :=
  settings.handshakeTimeoutSecs * second

def keepaliveInterval (settings : Settings) : Nat :=
  settings.keepaliveIntervalSecs * second

/-- The longest silence of a peer; zero seconds stand for no bound. -/
def idleTimeout (settings : Settings) : Option Nat :=
  if 0 < settings.idleTimeoutSecs then some (settings.idleTimeoutSecs * second) else none

def sampleInterval (settings : Settings) : Nat :=
  settings.sampleIntervalMs * millisecond

end Settings

end BitTorrent
