import BitTorrent.Settings.Reader

/-!
The command line: a torrent file, and options and flags around it. An option takes the next argument
or what is attached to it as its value. What was read last is settled when the next parameter comes,
and faults are reported in that order.
-/

set_option autoImplicit false

namespace BitTorrent

/-- What a command line can be wrong about; asking for help also ends its reading. -/
inductive UsageFault where
  | argumentConflict
  | helpWanted
  | missingValue
  | missingArgument
  | valueForFlag
  | unknownArgument
  | badValue
  deriving DecidableEq, Repr

/-- A command line that was read. -/
structure Arguments where
  torrentFile : String
  outputDir : String := "."
  port : Option Nat := none
  peers : List Address := []
  config : Option String := none
  downloadLimit : Option Nat := none
  uploadLimit : Option Nat := none
  policy : Option PiecePolicy := none
  onCorrupt : Option CorruptionPolicy := none
  pipeline : Option Nat := none
  endGame : Bool := false
  noSeed : Bool := false
  verbose : Bool := false
  quiet : Bool := false
  deriving Repr

/-- How much is logged. -/
inductive LogLevel where
  | debug
  | info
  | error
  deriving DecidableEq, Repr

/-- What an argument can set. -/
inductive Parameter where
  | torrentFile
  | outputDir
  | port
  | peer
  | config
  | downloadLimit
  | uploadLimit
  | policy
  | onCorrupt
  | pipeline
  | endGame
  | noSeed
  | verbose
  | quiet
  | help
  deriving DecidableEq, Repr

namespace Parameter

/-- The parameter behind two hyphens. -/
def ofLong? : String → Option Parameter
  | "output-dir" => some outputDir
  | "port" => some port
  | "peer" => some peer
  | "config" => some config
  | "download-limit" => some downloadLimit
  | "upload-limit" => some uploadLimit
  | "policy" => some policy
  | "on-corrupt" => some onCorrupt
  | "pipeline" => some pipeline
  | "end-game" => some endGame
  | "no-seed" => some noSeed
  | "verbose" => some verbose
  | "quiet" => some quiet
  | "help" => some help
  | _ => none

/-- The parameter behind one hyphen. -/
def ofShort? : Char → Option Parameter
  | 'o' => some outputDir
  | 'p' => some port
  | 'c' => some config
  | 'v' => some verbose
  | 'q' => some quiet
  | 'h' => some help
  | _ => none

/-- Whether a value belongs to the parameter. -/
def takesValue : Parameter → Bool
  | endGame | noSeed | verbose | quiet | help => false
  | _ => true

/-- Whether the parameter may be given again. -/
def mayRepeat : Parameter → Bool
  | peer => true
  | _ => false

end Parameter

namespace Arguments

/-- A value that names a file or directory is not empty. -/
def pathValue (value : String) : Except UsageFault String :=
  if value = "" then .error .missingValue else .ok value

/-- A value that can be read. -/
def readable {α : Type} : Option α → Except UsageFault α
  | some value => .ok value
  | none => .error .badValue

def wordValue (value : String) : Except UsageFault Nat :=
  readable (Numeral.natural? Word.bound64 value.toList)

def portValue (value : String) : Except UsageFault Nat :=
  match Numeral.integer? Word.bound63 value.toList with
  | some port => if 0 ≤ port ∧ port < Word.bound16 then .ok port.toNat else .error .badValue
  | none => .error .badValue

/-- Sets a parameter to a value. -/
def set (arguments : Arguments) (parameter : Parameter) (value : String) :
    Except UsageFault Arguments :=
  match parameter with
  | .torrentFile => do return { arguments with torrentFile := ← pathValue value }
  | .outputDir => do return { arguments with outputDir := ← pathValue value }
  | .config => do return { arguments with config := some (← pathValue value) }
  | .port => do return { arguments with port := some (← portValue value) }
  | .peer => do
    return { arguments with peers := arguments.peers ++ [← readable (Address.ofText? value)] }
  | .downloadLimit => do return { arguments with downloadLimit := some (← wordValue value) }
  | .uploadLimit => do return { arguments with uploadLimit := some (← wordValue value) }
  | .policy => do
    return { arguments with policy := some (← readable (PiecePolicy.ofText value).toOption) }
  | .onCorrupt => do
    return { arguments with
      onCorrupt := some (← readable (CorruptionPolicy.ofText value).toOption) }
  | .pipeline => do return { arguments with pipeline := some (← wordValue value) }
  | .endGame => .ok { arguments with endGame := true }
  | .noSeed => .ok { arguments with noSeed := true }
  | .verbose => .ok { arguments with verbose := true }
  | .quiet => .ok { arguments with quiet := true }
  | .help => .error .helpWanted

/-- How far the reading of a command line has come: what is set, which parameters were given, the
one whose value may still come, and whether its value is the next argument. -/
structure Reading where
  arguments : Arguments := ⟨"", ".", none, [], none, none, none, none, none, none, false, false,
    false, false⟩
  given : List Parameter := []
  pending : Option (Parameter × Option String) := none
  wantsValue : Bool := false

namespace Reading

/-- Gives a parameter its value; a flag has none. -/
def give (reading : Reading) (parameter : Parameter) (value : Option String) :
    Except UsageFault Reading :=
  if parameter.takesValue && value.isNone then .error .missingValue
  else if parameter ∈ reading.given ∧ parameter.mayRepeat = false then .error .argumentConflict
  else do
    let arguments ← reading.arguments.set parameter (value.getD "")
    return { reading with arguments := arguments, given := parameter :: reading.given }

/-- Settles the parameter that is pending. -/
def settle (reading : Reading) : Except UsageFault Reading :=
  match reading.pending with
  | none => .ok reading
  | some (parameter, value) =>
    give { reading with pending := none, wantsValue := false } parameter value

/-- A parameter with an attached value, or a flag. -/
def takeNow (reading : Reading) (parameter : Parameter) (value : Option String) :
    Except UsageFault Reading := do
  give (← reading.settle) parameter value

/-- A parameter whose value is the next argument. -/
def takeNext (reading : Reading) (parameter : Parameter) : Except UsageFault Reading := do
  return { (← reading.settle) with pending := some (parameter, none), wantsValue := true }

/-- Flags and at most one option behind one hyphen; the option takes the rest, perhaps behind an
equals sign. -/
def takeShort : Reading → List Char → Except UsageFault Reading
  | reading, [] => .ok reading
  | reading, char :: rest =>
    match Parameter.ofShort? char with
    | none => .error .unknownArgument
    | some parameter =>
      if parameter.takesValue then
        match rest with
        | [] => reading.takeNext parameter
        | '=' :: value => reading.takeNow parameter (some (String.ofList value))
        | value => reading.takeNow parameter (some (String.ofList value))
      else do takeShort (← reading.takeNow parameter none) rest

/-- An option or flag behind two hyphens, perhaps with a value behind an equals sign. -/
def takeLong (reading : Reading) (text : List Char) : Except UsageFault Reading :=
  let name := text.takeWhile (· ≠ '=')
  let value := match text.dropWhile (· ≠ '=') with
    | [] => none
    | _ :: value => some (String.ofList value)
  match Parameter.ofLong? (String.ofList name), value with
  | none, _ => .error .unknownArgument
  | some parameter, none =>
    if parameter.takesValue then reading.takeNext parameter else reading.takeNow parameter none
  | some parameter, some value =>
    if parameter.takesValue then reading.takeNow parameter (some value) else .error .valueForFlag

/-- An argument that belongs to no option; there is room for one. -/
def takePlain (reading : Reading) (used : Bool) (text : String) : Except UsageFault Reading :=
  if used then .error .unknownArgument
  else do return { (← reading.settle) with pending := some (.torrentFile, some text) }

/-- Reads arguments. `plain` says that only plain ones are left, and `used` that one was read. -/
def run : Reading → Bool → Bool → List String → Except UsageFault Reading
  | reading, _, _, [] => reading.settle
  | reading, plain, used, text :: rest =>
    if plain then do run (← reading.takePlain used text) plain true rest
    else
      match text.toList with
      | ['-', '-'] => run reading true used rest
      | '-' :: '-' :: option => do run (← reading.takeLong option) plain used rest
      | '-' :: char :: flags => do run (← reading.takeShort (char :: flags)) plain used rest
      | _ =>
        match reading.pending, reading.wantsValue with
        | some (parameter, _), true =>
          run { reading with pending := some (parameter, some text), wantsValue := false } plain
            used rest
        | _, _ => do run (← reading.takePlain used text) plain true rest

end Reading

/-- Reads a command line without the name of the program. -/
def ofList (texts : List String) : Except UsageFault Arguments := do
  let reading ← Reading.run {} false false texts
  if .verbose ∈ reading.given ∧ .quiet ∈ reading.given then throw .argumentConflict
  else if .torrentFile ∈ reading.given then return reading.arguments
  else throw .missingArgument

/-- How the command line is used. -/
def usage : String :=
  "\n".intercalate
    ["Usage: bittorrent [OPTIONS] TORRENT_FILE",
      "",
      "  -o, --output-dir DIR     where the files are kept",
      "  -p, --port PORT          where connections are accepted, 0 for any port",
      "      --peer ADDR          a peer to connect to; may be given again",
      "  -c, --config FILE        settings as JSON",
      "      --download-limit N   bytes per second, 0 for no limit",
      "      --upload-limit N     bytes per second, 0 for no limit",
      "      --policy POLICY      random, sequential or rarest-first",
      "      --on-corrupt POLICY  ban or retry",
      "      --pipeline N         requests that may be open at a peer",
      "      --end-game           ask several peers for the last pieces",
      "      --no-seed            end with the download",
      "  -v, --verbose            say more",
      "  -q, --quiet              say nothing but errors",
      "  -h, --help               say this"]

/-- How much is logged under these arguments. -/
def logLevel (arguments : Arguments) : LogLevel :=
  if arguments.verbose then .debug else if arguments.quiet then .error else .info

/-- Settings with those replaced that the arguments name. -/
def override (arguments : Arguments) (settings : Settings) : Settings :=
  { settings with
    listenPort := arguments.port.getD settings.listenPort
    downloadLimit := arguments.downloadLimit.getD settings.downloadLimit
    uploadLimit := arguments.uploadLimit.getD settings.uploadLimit
    piecePolicy := arguments.policy.getD settings.piecePolicy
    corruptionPolicy := arguments.onCorrupt.getD settings.corruptionPolicy
    pipelineDepth := arguments.pipeline.getD settings.pipelineDepth
    endGame := arguments.endGame || settings.endGame }

/-- The settings of the engine: those of the settings file, or the defaults, replaced where the
arguments say so. `content` gives the content of a file. -/
def settings (arguments : Arguments) (content : String → Option Bytes) :
    Except SettingsFault Settings :=
  let base : Except SettingsFault Settings := match arguments.config with
    | some path => Settings.ofFile path (content path)
    | none => .ok {}
  match base with
  | .error fault => .error fault
  | .ok base =>
    let settings := arguments.override base
    match settings.validate with
    | .error fault => .error fault
    | .ok () => .ok settings

end Arguments

end BitTorrent
