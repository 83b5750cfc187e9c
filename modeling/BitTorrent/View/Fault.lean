import BitTorrent.Fault
import BitTorrent.Json.Writer

/-! Faults as JSON: the name of the kind and the whole text. -/

set_option autoImplicit false

namespace BitTorrent

def ReportKind.name : ReportKind → String
  | parse => "ParseError"
  | protocol => "ProtocolError"
  | peer => "PeerError"
  | storage _ => "StorageError"
  | integrity => "IntegrityError"
  | config => "ConfigError"
  | network => "NetworkError"
  | validation => "ValidationError"

/-- The entries of a report. -/
def Report.entries (report : Report) : List (String × Json) :=
  [("error", report.kind.name), ("message", report.text)]

instance : ToJson Report where
  toJson report := .record report.entries

instance : ToJson Violation where
  toJson violation := violation.report

instance : ToJson PeerFault where
  toJson fault := fault.report

instance : ToJson StoreFault where
  toJson fault := fault.report

instance : ToJson SettingsFault where
  toJson fault := fault.report

instance : ToJson MetainfoFault where
  toJson fault := fault.report

instance : ToJson LayoutFault where
  toJson fault := fault.report

instance : ToJson RegistryFault where
  toJson fault := fault.report

instance : ToJson NetworkFault where
  toJson fault := fault.report

instance : ToJson Fault where
  toJson fault := fault.report

instance : ToJson Unit where
  toJson _ := .ofText "ok"

instance {ε α : Type} [ToJson ε] [ToJson α] : ToJson (Except ε α) where
  toJson
    | .ok value => toJson value
    | .error cause => toJson cause

end BitTorrent
