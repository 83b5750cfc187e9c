import BitTorrent.Arguments
import BitTorrent.Settings.Writer
import BitTorrent.View.Fault
import BitTorrent.View.Wire

/-! Command lines as JSON: what was read, or the name of the kind of mistake. -/

set_option autoImplicit false

namespace BitTorrent

def UsageFault.name : UsageFault → String
  | argumentConflict => "ArgumentConflict"
  | helpWanted => "DisplayHelp"
  | missingValue => "InvalidValue"
  | missingArgument => "MissingRequiredArgument"
  | valueForFlag => "TooManyValues"
  | unknownArgument => "UnknownArgument"
  | badValue => "ValueValidation"

instance : ToJson UsageFault where
  toJson fault := .record [("error", "Usage"), ("message", fault.name)]

instance : ToJson LogLevel where
  toJson
    | .debug => "DEBUG"
    | .info => "INFO"
    | .error => "ERROR"

/-- The entries of a command line, with the settings that it leads to; `content` gives the content
of a file. -/
def Arguments.entries (a : Arguments) (content : String → Option Bytes) : List (String × Json) :=
  [("torrent_file", a.torrentFile), ("output_dir", a.outputDir), ("port", a.port),
    ("peers", a.peers), ("has_config", a.config.isSome), ("download_limit", a.downloadLimit),
    ("upload_limit", a.uploadLimit), ("policy", a.policy), ("on_corrupt", a.onCorrupt),
    ("pipeline", a.pipeline), ("end_game", a.endGame), ("no_seed", a.noSeed),
    ("verbose", a.verbose), ("quiet", a.quiet), ("log_level", a.logLevel),
    ("engine", a.settings content)]

end BitTorrent
