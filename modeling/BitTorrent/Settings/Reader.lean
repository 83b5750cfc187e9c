import BitTorrent.Json
import BitTorrent.Settings
import BitTorrent.Text.Lossy
import BitTorrent.Word

/-!
Reading settings from a JSON file. Every setting may be left out. An object names its settings, each
at most once, and other keys are passed over; a list gives them in their order.
-/

set_option autoImplicit false

namespace BitTorrent.Settings

/-- A natural number below a bound. -/
def naturalOf? (bound : Nat) : Json → Option Nat
  | .natural value => if value < bound then some value else none
  | _ => none

def boolOf? : Json → Option Bool
  | .bool value => some value
  | _ => none

/-- A name, written alone or as the only key of an object with the value null. -/
def nameOf? : Json → Option String
  | .string text => text
  | .object [(key, .null)] => key
  | _ => none

def policyOf? (value : Json) : Option PiecePolicy := do
  match ← nameOf? value with
  | "random" => some .random
  | "sequential" => some .sequential
  | "rarest_first" => some .rarestFirst
  | _ => none

def corruptionOf? (value : Json) : Option CorruptionPolicy := do
  match ← nameOf? value with
  | "ban" => some .ban
  | "retry" => some .retry
  | _ => none

/-- A setting as it is named and set. -/
structure Field where
  name : String
  set? : Settings → Json → Option Settings

/-- A setting that counts something. -/
def countField (name : String) (set : Settings → Nat → Settings) : Field :=
  ⟨name, fun settings value => (naturalOf? Word.bound64 value).map (set settings)⟩

/-- The settings in their order. -/
def fields : List Field :=
  [⟨"listen_port", fun settings value =>
      (naturalOf? Word.bound16 value).map fun n => { settings with listenPort := n }⟩,
    countField "max_connections" fun settings n => { settings with maxConnections := n },
    countField "connect_timeout_secs" fun settings n => { settings with connectTimeoutSecs := n },
    countField "handshake_timeout_secs" fun settings n =>
      { settings with handshakeTimeoutSecs := n },
    countField "keepalive_interval_secs" fun settings n =>
      { settings with keepaliveIntervalSecs := n },
    countField "idle_timeout_secs" fun settings n => { settings with idleTimeoutSecs := n },
    countField "pipeline_depth" fun settings n => { settings with pipelineDepth := n },
    ⟨"piece_policy", fun settings value =>
      (policyOf? value).map fun policy => { settings with piecePolicy := policy }⟩,
    ⟨"corruption_policy", fun settings value =>
      (corruptionOf? value).map fun policy => { settings with corruptionPolicy := policy }⟩,
    ⟨"end_game", fun settings value =>
      (boolOf? value).map fun flag => { settings with endGame := flag }⟩,
    countField "download_limit" fun settings n => { settings with downloadLimit := n },
    countField "upload_limit" fun settings n => { settings with uploadLimit := n },
    countField "peer_download_limit" fun settings n => { settings with peerDownloadLimit := n },
    countField "peer_upload_limit" fun settings n => { settings with peerUploadLimit := n },
    countField "sample_interval_ms" fun settings n => { settings with sampleIntervalMs := n },
    countField "max_frame_length" fun settings n => { settings with maxFrameLength := n }]

/-- Sets the settings that a list gives. -/
def ofList? : Settings → List Field → List Json → Option Settings
  | settings, _, [] => some settings
  | _, [], _ :: _ => none
  | settings, field :: fields, value :: values => do
    ofList? (← field.set? settings value) fields values

/-- Sets the settings that an object names; `seen` are the names before. -/
def ofEntries? (settings : Settings) (seen : List String) :
    List (Option String × Json) → Option Settings
  | [] => some settings
  | (none, _) :: _ => none
  | (some key, value) :: rest =>
    match fields.find? (·.name = key) with
    | none => ofEntries? settings seen rest
    | some field =>
      if key ∈ seen then none
      else do ofEntries? (← field.set? settings value) (key :: seen) rest

/-- The settings that a JSON value gives. -/
def ofJson? : Json → Option Settings
  | .list values => ofList? {} fields values
  | .object entries => ofEntries? {} [] entries
  | _ => none

/-- Reads settings from the content of a file at `path` and checks them; no content stands for no
file. -/
def ofFile (path : String) (content : Option Bytes) : Except SettingsFault Settings :=
  match content with
  | none => .error (.unreadable path .notFound)
  | some bytes =>
    match Text.ofBytes? bytes with
    | none => .error (.unreadable path .notText)
    | some text =>
      match (Json.ofText? text).bind ofJson? with
      | none => .error .notJson
      | some settings =>
        match settings.validate with
        | .error fault => .error fault
        | .ok () => .ok settings

end BitTorrent.Settings
